import RawOS.Boot

/-!
# The frames of a page directory

A page directory lies in two pages, of which `paging_get_page_directory_x86_tables_frame_address`
translates the first. What it returns is where the kernel has the second array exactly when the
frame of the second page is the next one (`directory_loadsArray_iff`). The heap claims one frame
for each page, so this fails where the next frame is used: `exists_straddling`.
-/

namespace RawOS

/-- The address that is loaded into CR3 is that of the array that the kernel writes. -/
def LoadsArray (p : Paging) (d : ℕ) : Prop :=
  ∃ a, pagingGetPageDirectoryX86TablesFrameAddress p d = .ok a ∧
    getPhysicalAddressOfVirtualAddress p p.kernelPageDirectory (d + 4096) = .ok a

/-- The frame of the second page of `d` is the one after that of the first, as numbers of 20 bits.
-/
def AdjacentFrames (p : Paging) (d : ℕ) : Prop :=
  ∃ f g, KernelPage p (d / 4096) f ∧ KernelPage p (d / 4096 + 1) g ∧
    g % 0x100000 = (f + 1) % 0x100000

section

variable {uninit : Paging → Mem → ℤ} {D T : Set ℕ} {own : Set Live} {bs : List Block}
  {live : List Live} {s : Kernel} {p p' : Paging} {m m' : Mem} {d n f g e : ℕ}

theorem loadsArray_iff (hmod : d % 4096 = 0) (hf : KernelPage p (d / 4096) f)
    (hg : KernelPage p (d / 4096 + 1) g) : LoadsArray p d ↔ AdjacentFrames p d := by
  have hfirst := getPhysicalAddress_kernel (n := d) hf
  have hnext : (d + 4096) / 4096 = d / 4096 + 1 := by omega
  have hsecond := getPhysicalAddress_kernel (n := d + 4096) (hnext ▸ hg)
  have hloads : LoadsArray p d ↔
      u32 (u32 (f * 0x1000 + d % 4096) + 4096) = u32 (g * 0x1000 + (d + 4096) % 4096) := by
    unfold LoadsArray pagingGetPageDirectoryX86TablesFrameAddress
    rw [hfirst, hsecond]
    constructor
    · rintro ⟨a, h₁, h₂⟩
      exact (Except.ok.inj h₁).trans (Except.ok.inj h₂).symm
    · exact fun h => ⟨_, rfl, congrArg Except.ok h.symm⟩
  have hadjacent : AdjacentFrames p d ↔ g % 0x100000 = (f + 1) % 0x100000 := by
    constructor
    · rintro ⟨f', g', hf', hg', heq⟩
      rwa [hf.unique hf', hg.unique hg']
    · exact fun heq => ⟨f, g, hf, hg, heq⟩
  rw [hloads, hadjacent]
  unfold u32
  omega

/-- A directory in the heap. -/
theorem KernelInv.loadsArray_iff (h : KernelInv D T bs live s) (hd : directoryAt d ∈ live) :
    LoadsArray s.sys d ↔ AdjacentFrames s.sys d := by
  obtain ⟨hlow, hend⟩ := h.bounds hd (.inr (show 8192 + 0x1000 ≤ 4294967296 by decide))
  have hmod := Nat.mod_eq_zero_of_dvd (h.heap.aligned _ hd (show 0x1000 ≠ 0 by decide))
  unfold directoryAt sizeofPageDirectory at hlow hend hmod
  dsimp only at hlow hend hmod
  have hheap : kernelHeapAddress / 4096 ≤ d / 4096 :=
    Nat.div_le_div_right ((Nat.le_add_right _ _).trans hlow)
  obtain ⟨f, hf⟩ := h.pages.mapped (d / 4096) hheap (by omega)
  obtain ⟨g, hg⟩ := h.pages.mapped (d / 4096 + 1) (hheap.trans (Nat.le_succ _)) (by omega)
  exact RawOS.loadsArray_iff hmod hf hg

/-- In every state, for every page directory of the heap: what is loaded is the array that the
kernel writes exactly when the frames of the directory are adjacent. -/
theorem directory_loadsArray_iff (h : KernelRun uninit s D own)
    (hd : d ∈ D ∧ d ≠ s.sys.kernelPageDirectory ∨ directoryAt d ∈ own) :
    LoadsArray s.sys d ↔ AdjacentFrames s.sys d := by
  obtain ⟨T, bs, live, hk, ho⟩ := h.inv
  refine hk.loadsArray_iff ?_
  rcases hd with ⟨hd, hne⟩ | hd
  · exact hk.directories d hd hne
  · exact ho.live _ hd

/-! ## A used frame between two pages -/

/-- The heap up to `e` has the first frames in their order, as far as the one before `0x3FE`. -/
structure HeapFrames (e : ℕ) (p : Paging) : Prop where
  used : p.availableFrames.Has 0x3FE
  first : e ≤ 0x7FC000 → ∀ k < 0x3FE, p.availableFrames.Has k ↔ k < e / 4096 - 0x3FE
  last : 0x7FB000 < e → KernelPage p 0x7FB 0x3FD
  next : 0x7FC000 < e → ∃ f < availableFramesNum, KernelPage p 0x7FC f ∧ f ≠ 0x3FE

theorem Initialised.heapFrames (h : Initialised poweredOn p) : HeapFrames kernelHeapAddress p where
  used := h.used _ (.inr rfl)
  first := fun _ k hk => by
    have hbound : kernelHeapAddress / 4096 - 0x3FE = 0x102 := rfl
    rw [hbound]
    refine ⟨fun hf => ?_, fun hlt => h.used k (.inl hlt)⟩
    have hpage := (h.has k hf).resolve_left (poweredOn_clear k)
    unfold InitPage kernelStackFirstPage kernelStackAddress kernelStackReservedPages at hpage
    omega
  last := fun hlt => absurd hlt (by decide)
  next := fun hlt => absurd hlt (by decide)

/-- The frame of a page whose table exists. -/
theorem pagingCreateKernelPage_claimed (h : PagingInv D T p) (hk : p.kernel.tables (n / 1024) ≠ 0)
    (hrun : pagingCreateKernelPageWithAnyFrame n p m = .ok (f, p', m')) :
    Claimed p.availableFrames p'.availableFrames f := by
  unfold pagingCreateKernelPageWithAnyFrame tableDepth at hrun
  obtain ⟨hmap, -⟩ := pagingCreateKernelPageNested_mapped hk hrun
  obtain ⟨-, b, hb, rfl⟩ := mapPage_ok h.frames.size hmap
  exact hb

theorem HeapFrames.create (h : HeapFrames e p) (hinv : PagingInv D T p) (he : e % 4096 = 0)
    (hlow : kernelHeapAddress ≤ e) (hlt : e < 4294967296)
    (hrun : pagingCreateKernelPageWithAnyFrame (e / 4096) p m = .ok (f, p', m')) :
    HeapFrames (e + 4096) p' := by
  have hc := pagingCreateKernelPage_ok hinv (by omega) hrun
  have hkept := hc.grown.pages
  unfold kernelHeapAddress at hlow
  -- up to 8 MB the tables exist
  have hclaim : e < 0x800000 → Claimed p.availableFrames p'.availableFrames f := fun hlt' =>
    pagingCreateKernelPage_claimed hinv (hinv.low _ (by omega)) hrun
  have hframe : e ≤ 0x7FB000 → f = e / 4096 - 0x3FE := by
    intro hle
    have hb := hclaim (by omega)
    have hiff := h.first (by omega)
    have hge : ¬ f < e / 4096 - 0x3FE := fun hf => hb.clear ((hiff f (by omega)).mpr hf)
    have hle : ¬ e / 4096 - 0x3FE < f := fun hf =>
      lt_irrefl _ ((hiff (e / 4096 - 0x3FE) (by omega)).mp (hb.least _ hf))
    omega
  refine ⟨hc.grown.has _ h.used, fun hle k hk => ?_, fun hlast => ?_, fun hnext => ?_⟩
  · rw [(hclaim (by omega)).has, h.first (by omega) k hk, hframe (by omega)]
    omega
  · by_cases heq : e = 0x7FB000
    · subst heq
      have hf : f = 0x3FD := hframe le_rfl
      exact hf ▸ hc.page
    · exact hkept _ (by decide) _ (h.last (by omega))
  · by_cases heq : e = 0x7FC000
    · subst heq
      have hb := hclaim (by decide)
      refine ⟨f, hb.lt, hc.page, ?_⟩
      rintro rfl
      exact hb.clear h.used
    · obtain ⟨g, hg, hpage, hne⟩ := h.next (by omega)
      exact ⟨g, hg, hkept _ (by decide) _ hpage, hne⟩

/-- The heap pages of a machine on which only the heap claims frames. -/
def HeapFramesPages (e₀ : ℕ) (p₀ : Paging) (e : ℕ) (p : Paging) (m : Mem) : Prop :=
  SparePages {p₀.kernelPageDirectory} ∅ 0x800000 0x800000 0 e₀ p₀ e p m ∧ HeapFrames e p

theorem heapFramesPages_pagesOk (uninit : Paging → Mem → ℤ) (e₀ : ℕ) (p₀ : Paging) :
    PagesOk (pagingEnv uninit) kernelHeapAddress ∅ (HeapFramesPages e₀ p₀) where
  zero := fun h => (sparePages_pagesOk uninit _ ∅ e₀ p₀ le_rfl (by decide) (by decide)).zero h.1
  step := by
    rintro e p m p' m' ⟨hpages, hframes⟩ he hlow hlt hrun
    obtain ⟨hpages', hkept⟩ := (sparePages_pagesOk uninit _ ∅ e₀ p₀ le_rfl (by decide)
      (by decide)).step hpages he hlow hlt hrun
    obtain ⟨⟨f, q, m₁⟩, hcreate, heq⟩ := bind_eq_ok.mp hrun
    cases heq
    exact ⟨⟨hpages', hframes.create hpages.1.pages.inv he hlow hlt hcreate⟩, hkept⟩
  stable := fun h hm =>
    ⟨(sparePages_pagesOk uninit _ ∅ e₀ p₀ le_rfl (by decide) (by decide)).stable h.1 hm, h.2⟩

/-- A directory whose pages have the frames `0x3FD` and one that is not `0x3FE`. -/
theorem exists_straddling (uninit : Paging → Mem → ℤ) :
    ∃ s own, KernelRun uninit s {s.sys.kernelPageDirectory} own ∧ directoryAt 0x7FB000 ∈ own ∧
      ¬ AdjacentFrames s.sys 0x7FB000 := by
  obtain ⟨p, hp, hinit⟩ := exists_booted
  have hP := heapFramesPages_pagesOk uninit kernelHeapAddress p
  have hgo : ∀ {e q m}, HeapFramesPages kernelHeapAddress p e q m → e % 4096 = 0 → e < 0x800000 →
      ∃ r, (pagingEnv uninit).createPage (e / 4096) q m = .ok r := fun hI he hlt =>
    sparePages_go uninit le_rfl (by decide) (by decide) hI.1 he hlt
  have hspare : Spare 0x800000 0x800000 0 kernelHeapAddress p := hinit.spare (by decide) (by decide)
  -- the heap
  obtain ⟨s, hrun, hend, hI, hbump⟩ := kallocInit_go (m := fun _ => 0) hP
    (fun hI he hlt => hgo hI he (hlt.trans (by decide)))
    ⟨⟨hinit.inv.heapPages _, le_rfl, fun _ => hspare⟩, hinit.heapFrames⟩
  have h₀ : KernelRun uninit s {s.sys.kernelPageDirectory} ∅ := .init hp hrun
  have hI₀ : HeapFramesPages kernelHeapAddress p (heapEnd s) s.sys s.mem := hend.symm ▸ hI
  -- most of the space below the directory
  have hplace₁ : BumpPlace 0x510015 0x2EA0D7 0 0x510021 := bumpPlace_zero (by decide)
  obtain ⟨s₁, hrun₁, hbump₁, hI₁, hend₁⟩ := hbump.alloc hP hgo (by decide) hI₀ hplace₁ (by decide)
  have hend₁' : s₁.heap.initialAddr + s₁.heap.size = 0x7FB000 := by
    rw [hend₁]
    exact congrArg (max · (roundUp 0x7FA100)) hend
  have hbrk₁ : bumpEnd 0x510021 0x2EA0D7 (s₁.heap.initialAddr + s₁.heap.size) = 0x7FA100 := by
    rw [hend₁']
    rfl
  rw [hbrk₁] at hbump₁
  -- the directory
  have hplace₂ : BumpPlace 0x7FA100 sizeofPageDirectory 0x1000 0x7FB000 := bumpPlace_page (by decide)
  obtain ⟨s₂, hrun₂, -, hI₂, hend₂⟩ := hbump₁.alloc hP hgo (by decide) hI₁ hplace₂ (by decide)
  have hend₂' : s₂.heap.initialAddr + s₂.heap.size = 0x7FE000 := by
    rw [hend₂, hend₁']
    rfl
  have h₁ : KernelRun uninit s₁ _ _ := .alloc h₀ (.inl rfl) hrun₁
  have h₂ : KernelRun uninit s₂ _ _ := .alloc h₁ validAlignment_page hrun₂
  have hk : s₂.sys.kernelPageDirectory = s.sys.kernelPageDirectory :=
    hI₂.1.1.grown.kernel.trans hI.1.1.grown.kernel.symm
  rw [← hk] at h₂
  refine ⟨s₂, _, h₂, .inl rfl, ?_⟩
  rw [hend₂'] at hI₂
  obtain ⟨g, hg, hpage, hne⟩ := hI₂.2.next (by decide)
  rintro ⟨f', g', hf', hg', heq⟩
  rw [hg'.unique hpage, hf'.unique (hI₂.2.last (by decide))] at heq
  unfold availableFramesNum physicalRamSize at hg
  omega

/-- Some reachable directory is not loaded as it is written. -/
theorem not_loadsArray_straddling : ¬ ∀ s D own, KernelRun (fun _ _ => 0) s D own →
    ∀ d, d ∈ D ∧ d ≠ s.sys.kernelPageDirectory ∨ directoryAt d ∈ own → LoadsArray s.sys d := by
  intro hall
  obtain ⟨s, own, hrun, hd, hnot⟩ := exists_straddling fun _ _ => 0
  obtain ⟨T, bs, live, hk, ho⟩ := hrun.inv
  exact hnot ((hk.loadsArray_iff (ho.live _ hd)).mp (hall s _ own hrun _ (.inr hd)))

theorem directory_loadsArray_straddling : ∃ s own,
    KernelRun (fun _ _ => 0) s {s.sys.kernelPageDirectory} own ∧
      (LoadsArray s.sys 0x7FB000 ↔ AdjacentFrames s.sys 0x7FB000) := by
  obtain ⟨s, own, hrun, hd, -⟩ := exists_straddling fun _ _ => 0
  exact ⟨s, own, hrun, directory_loadsArray_iff hrun (.inr hd)⟩

end

end RawOS
