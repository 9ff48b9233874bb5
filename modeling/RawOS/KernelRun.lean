import RawOS.Alloc.HeapBump
import RawOS.Cleaning
import RawOS.Cloning
import RawOS.PagingInit

/-!
# Runs of the kernel

`Booted` are the states between `paging_init` and `kalloc_init`, and `KernelRun` those after
`kalloc_init`, with the directories and the allocations that are neither directories nor tables:
any calls of the functions of `paging.c`, `kalloc_alloc_aligned` and `kalloc_free` in any order,
with any ring of processes. `KernelRun.inv` is the invariant.

1. `pagingReached_framesApart`: no two pages have one frame, and the frames of pages are used.
2. `pagingReached_synced`: the two arrays of a directory name the same tables.
-/

namespace RawOS

/-! ## `kalloc_init` -/

section

variable {uninit : Paging → Mem → ℤ} {D T : Set ℕ} {bs : List Block} {live : List Live}
  {s s' : Kernel} {p p' : Paging} {m m' : Mem} {d n f : ℕ} {l : Live}

/-- The pages before there is a heap. -/
theorem PagingInv.heapPages (h : PagingInv D T p) (m : Mem) :
    HeapPages D T kernelHeapAddress p kernelHeapAddress p m :=
  PagesAt.heapPages ⟨h, fun _ hn he => absurd hn (not_le.mpr he), by decide⟩ m

theorem kallocInit_ok (h : PagingInv D T p) (hD : D = {p.kernelPageDirectory}) (hT : T = ∅)
    (hbelow : p.kernelPageDirectory < kernelHeapAddress) (hrun : kallocInit uninit 1 p m = .ok s) :
    (∃ bs, KernelInv D T bs [firstByte] s) ∧
      KernelGrown (kernelHeapAddress / 4096) (heapEnd s / 4096) p s.sys := by
  obtain ⟨s₀, hcreate, hrun⟩ := bind_eq_ok.mp hrun
  obtain ⟨⟨ptr, s₁⟩, halloc, hrun⟩ := bind_eq_ok.mp hrun
  cases hrun
  have hP := pagingEnv_pagesOk uninit D T kernelHeapAddress p
  obtain ⟨hheap, hsize, hpages⟩ := kallocHeapCreate_inv hP (h.heapPages m) (by decide) hcreate
  obtain ⟨rfl, -⟩ := kallocAlloc_first hheap (by decide) halloc
  have hinit := hheap.shape.initialAddr
  have hI : HeapPages D T kernelHeapAddress p (s₀.heap.initialAddr + s₀.heap.size) s₀.sys s₀.mem := by
    rw [hinit, hsize]
    exact hpages
  obtain ⟨bs, ha⟩ := (kallocHeapAlloc_spec hP hheap hI (fun x hx => absurd hx (Set.notMem_empty x))
    (.inl rfl) fun h => absurd rfl h).of_ok halloc
  have hlive : LiveInv kernelHeapAddress [⟨kernelHeapAddress + 65536, 1 * 4096 - 20, false⟩] []
      s₀.heap s₀.mem := ⟨hheap, fun l hl => absurd hl List.not_mem_nil,
    fun l hl => absurd hl List.not_mem_nil, List.nodup_nil⟩
  obtain ⟨hat, -, hgrown, -⟩ := ha.pages
  refine ⟨⟨bs, hlive.alloc ha, hat, List.mem_cons_self, fun d hd hk => ?_, fun t ht => ?_, ?_⟩, hgrown⟩
  · rw [hD] at hd
    rw [hgrown.kernel] at hk
    exact absurd hd hk
  · rw [hT] at ht
    exact absurd ht (Set.notMem_empty t)
  · rw [hgrown.kernel]
    exact hbelow

/-! ## What a step keeps -/

/-- A page of the kernel that is not one of the heap's. -/
theorem KernelInv.createKernelPage (h : KernelInv D T bs live s) (hn : n < 0x100000)
    (hrun : pagingCreateKernelPageWithAnyFrame n s.sys s.mem = .ok (f, p', m')) :
    KernelInv D T bs live { s with sys := p', mem := m' } ∧ KernelGrown n (n + 1) s.sys p' := by
  have hc := pagingCreateKernelPage_ok h.pages.inv hn hrun
  have hend : heapEnd s % 4096 = 0 := h.heap.heap.shape.size_mod
  refine ⟨⟨?_, h.pages.of_grown hc.inv hc.grown, h.first, fun d hd hk => h.directories d hd ?_,
    h.tables, hc.grown.kernel ▸ h.below⟩, hc.grown⟩
  · refine h.heap.congr fun x hx hlt _ => hc.mem x hx ?_
    rintro rfl
    -- the pages of the heap exist
    have hlt' : n * 4096 < heapEnd s := hlt
    obtain ⟨g, hg⟩ := h.pages.mapped n (by unfold kernelHeapAddress at hx ⊢; omega) (by omega)
    exact hc.fresh g hg
  · rw [← hc.grown.kernel]
    exact hk

/-- The ring of processes changes. -/
theorem KernelInv.setProcesses {q : List Process} (h : KernelInv D T bs live s)
    (hq : ∀ r ∈ q, ∀ d, r.pageDirectory = some d → d ∈ D) :
    KernelInv D T bs live { s with sys := { s.sys with processes := q } } := by
  have hinv := h.pages.inv
  have hinv' : PagingInv D T { s.sys with processes := q } :=
    { hinv with
      frames := ⟨hinv.frames.size,
        fun t j f ht hj hm => hinv.frames.used t j f ht hj ⟨hm.present, hm.frame⟩,
        fun t t' j j' f ht ht' hj hj' hm hm' => hinv.frames.distinct t t' j j' f ht ht' hj hj'
          ⟨hm.present, hm.frame⟩ ⟨hm'.present, hm'.frame⟩⟩
      processes := hq
      window := fun i hi hne => by
        obtain ⟨hw, f, hf⟩ := hinv.window i hi hne
        exact ⟨hw, f, hf.congr rfl rfl⟩
      first := hinv.first.imp fun f hf => hf.congr rfl rfl
      stack := hinv.stack.imp fun f hf => hf.congr rfl rfl
      heap := fun t ht => by
        obtain ⟨hmod, hle, hlt, f, hf⟩ := hinv.heap t ht
        exact ⟨hmod, hle, hlt, f, hf.congr rfl rfl⟩
      synced := fun d hd i hi => by
        rcases hinv.synced d hd i hi with hz | ⟨hne, f, hf, hx⟩
        · exact .inl hz
        · exact .inr ⟨hne, f, hf.congr rfl rfl, hx⟩ }
  exact ⟨h.heap, h.pages.of_kept hinv' (.of_eq rfl fun _ _ _ => rfl), h.first, h.directories, h.tables,
    h.below⟩

theorem KernelInv.link (h : KernelInv D T bs live s) {i : ℕ} (hi : i < 1024)
    (hne : s.sys.kernel.tables i ≠ 0)
    (hrun : processLinkKernelTableToAllAddressSpaces (s.sys.kernel.tables i) i
      (s.sys.kernel.tablesX86Representation i) s.sys = .ok p') :
    KernelInv D T bs live { s with sys := p' } := by
  obtain ⟨_, -, hrun⟩ := bind_eq_ok.mp hrun
  have hinv := PagingInv.linkKernelTable hi hne h.pages.inv h.pages.inv.processes rfl rfl hrun
  obtain ⟨-, hp'⟩ := linkKernelTable_eq hrun
  have hk : p'.kernelPageDirectory = s.sys.kernelPageDirectory := by
    rw [hp']
  have hkernel : p'.kernel = s.sys.kernel := by
    unfold Paging.kernel
    rw [hk, hp']
    dsimp only
    split_ifs
    · unfold PageDirectory.set Paging.kernel
      rw [Function.update_eq_self, Function.update_eq_self]
    · rfl
  refine ⟨h.heap, h.pages.of_kept hinv (.of_eq hkernel fun i _ _ => by rw [hp']), h.first,
    fun d hd hdk => h.directories d hd ?_, h.tables, hk ▸ h.below⟩
  rw [← hk]
  exact hdk

/-- The release of an allocation that is no directory and no table of a directory. -/
theorem KernelInv.free (h : KernelInv D T bs live s) (hl : l ∈ live) (hfirst : l ≠ firstByte)
    (hd : ∀ d ∈ D, l.ptr ≠ d) (ht : ∀ d ∈ D, ∀ i < 1024, (s.sys.directories d).tables i ≠ l.ptr)
    (hrun : kallocFree uninit s l.ptr = .ok s') :
    ∃ bs', KernelInv D (T \ {l.ptr}) bs' (live.erase l) s' ∧ s'.sys = s.sys ∧
      heapEnd s' = heapEnd s := by
  obtain ⟨bs', hlive, hsys, hend⟩ := kallocFree_ok h.heap hl hrun
  refine ⟨bs', ⟨hlive, ?_, ?_, fun d hdD hk => ?_, fun t htT => ?_, ?_⟩, hsys, hend⟩
  · rw [hend, hsys]
    exact h.pages.of_kept (h.pages.inv.removeTable ht) (.refl _)
  · exact (List.mem_erase_of_ne hfirst.symm).mpr h.first
  · refine (List.mem_erase_of_ne ?_).mpr (h.directories d hdD (hsys ▸ hk))
    rintro rfl
    exact hd d hdD rfl
  · refine (List.mem_erase_of_ne ?_).mpr (h.tables t htT.1)
    rintro rfl
    exact htT.2 rfl
  · rw [hsys]
    exact h.below

end

/-! ## Runs -/

/-- The pages and the memory after `paging_init`, for an image that ends below the window of the
kernel's tables, and any pages of the kernel. -/
inductive Booted : Paging → Mem → Prop where
  | init {final : ℕ} {p p' : Paging} {m : Mem} :
    final + 0x3000 ≤ kernelPageTablesAddress → p.processes = [] → pagingInit final p = .ok p' →
    Booted p' m
  | kernelPage {p p' : Paging} {m m' : Mem} {n f : ℕ} :
    Booted p m → n < 0x100000 → pagingCreateKernelPageWithAnyFrame n p m = .ok (f, p', m') →
    Booted p' m'

/-- The kernel after `kalloc_init`, its directories `D`, and the allocations `own` that are neither
directories nor tables. Their owners may write into them, and processes into their frames. -/
inductive KernelRun (uninit : Paging → Mem → ℤ) : Kernel → Set ℕ → Set Live → Prop where
  | init {p : Paging} {m : Mem} {s : Kernel} :
    Booted p m → kallocInit uninit 1 p m = .ok s →
    KernelRun uninit s {s.sys.kernelPageDirectory} ∅
  | kernelPage {s : Kernel} {D : Set ℕ} {own : Set Live} {n f : ℕ} {p : Paging} {m : Mem} :
    KernelRun uninit s D own → n < 0x100000 →
    pagingCreateKernelPageWithAnyFrame n s.sys s.mem = .ok (f, p, m) →
    KernelRun uninit { s with sys := p, mem := m } D own
  | processPage {s s' : Kernel} {D : Set ℕ} {own : Set Live} {d n userMode f : ℕ} :
    KernelRun uninit s D own → d ∈ D → d ≠ s.sys.kernelPageDirectory → n < 0x100000 →
    pagingCreateProcessPageWithAnyFrame uninit s d n userMode = .ok (f, s') →
    KernelRun uninit s' D own
  | clone {s s' : Kernel} {D : Set ℕ} {own : Set Live} {source c : ℕ} :
    KernelRun uninit s D own → source ∈ D →
    pagingClonePageDirectoryForNewProcess uninit s source = .ok (c, s') →
    KernelRun uninit s' (insert c D) own
  | clean {s s' : Kernel} {D : Set ℕ} {own : Set Live} {d : ℕ} :
    KernelRun uninit s D own → d ∈ D → d ≠ s.sys.kernelPageDirectory →
    pagingCleanAllNonKernelPagesFromPageDirectory uninit s d = .ok s' →
    KernelRun uninit s' D own
  | link {s : Kernel} {D : Set ℕ} {own : Set Live} {i : ℕ} {p : Paging} :
    KernelRun uninit s D own → i < 1024 → s.sys.kernel.tables i ≠ 0 →
    processLinkKernelTableToAllAddressSpaces (s.sys.kernel.tables i) i
      (s.sys.kernel.tablesX86Representation i) s.sys = .ok p →
    KernelRun uninit { s with sys := p } D own
  | ring {s : Kernel} {D : Set ℕ} {own : Set Live} {processes : List Process} :
    KernelRun uninit s D own →
    (∀ r ∈ processes, ∀ d, r.pageDirectory = some d → d ∈ D) →
    KernelRun uninit { s with sys := { s.sys with processes := processes } } D own
  | alloc {s s' : Kernel} {D : Set ℕ} {own : Set Live} {size alignment ptr : ℕ} :
    KernelRun uninit s D own → ValidAlignment alignment →
    kallocAllocAligned uninit s size alignment = .ok (ptr, s') →
    KernelRun uninit s' D (insert ⟨ptr, size, alignment⟩ own)
  | free {s s' : Kernel} {D : Set ℕ} {own : Set Live} {l : Live} :
    KernelRun uninit s D own → l ∈ own → kallocFree uninit s l.ptr = .ok s' →
    KernelRun uninit s' D (own \ {l})
  | write {s : Kernel} {D : Set ℕ} {own : Set Live} {m : Mem} {frames : ℕ → ℕ → UInt8} :
    KernelRun uninit s D own →
    (∀ x, kernelHeapAddress ≤ x → x < heapEnd s → (∀ l ∈ own, ¬ l.Owns s.mem x) → m x = s.mem x) →
    KernelRun uninit ⟨s.heap, m, { s.sys with frames := frames }⟩ D own

section

variable {uninit : Paging → Mem → ℤ} {D T : Set ℕ} {own : Set Live} {bs : List Block}
  {live live' : List Live} {s s' : Kernel} {p : Paging} {m : Mem} {l : Live}

/-- Before there is a heap, the only directory is that of the kernel. -/
structure BootedInv (p : Paging) : Prop where
  inv : PagingInv {p.kernelPageDirectory} ∅ p
  below : p.kernelPageDirectory < kernelHeapAddress

theorem Booted.inv (h : Booted p m) : BootedInv p := by
  induction h with
  | init hfits hq hrun =>
    obtain ⟨p₁, hrun₁, hinit⟩ := pagingInit_spec hfits hq
    obtain rfl := Except.ok.inj (hrun₁.symm.trans hrun)
    exact ⟨hinit.inv, hinit.below⟩
  | kernelPage _ hn hrun ih =>
    have hc := pagingCreateKernelPage_ok ih.inv hn hrun
    have hk := hc.grown.kernel
    refine ⟨?_, ?_⟩
    · rw [hk]
      exact hc.inv
    · rw [hk]
      exact ih.below

/-- The allocations `own` are live, and neither directories nor tables. -/
structure OwnApart (D T : Set ℕ) (live : List Live) (own : Set Live) : Prop where
  live : ∀ l ∈ own, l ∈ live
  first : firstByte ∉ own
  directory : ∀ l ∈ own, l.ptr ∉ D
  table : ∀ l ∈ own, l.ptr ∉ T

/-- What became a directory or a table was not live. -/
theorem OwnApart.mono {D' T' : Set ℕ} (h : OwnApart D T live own) (hlive : ∀ l ∈ live, l ∈ live')
    (hD : ∀ d ∈ D', d ∈ D ∨ ∀ l ∈ live, l.ptr ≠ d) (hT : ∀ t ∈ T', t ∈ T ∨ ∀ l ∈ live, l.ptr ≠ t) :
    OwnApart D' T' live' own where
  live := fun l hl => hlive l (h.live l hl)
  first := h.first
  directory := fun l hl hd => by
    rcases hD _ hd with hd | hd
    · exact h.directory l hl hd
    · exact hd l (h.live l hl) rfl
  table := fun l hl ht => by
    rcases hT _ ht with ht | ht
    · exact h.table l hl ht
    · exact ht l (h.live l hl) rfl

/-- What holds of the kernel in every state of a run. -/
def RunInv (D : Set ℕ) (own : Set Live) (s : Kernel) : Prop :=
  ∃ T bs live, KernelInv D T bs live s ∧ OwnApart D T live own

theorem KernelRun.inv (h : KernelRun uninit s D own) : RunInv D own s := by
  induction h with
  | init hb hrun =>
    obtain ⟨hinv, hbelow⟩ := hb.inv
    obtain ⟨⟨bs, hk⟩, hgrown⟩ := kallocInit_ok hinv rfl rfl hbelow hrun
    rw [← hgrown.kernel] at hk
    exact ⟨∅, bs, _, hk, fun l hl => absurd hl (Set.notMem_empty l), Set.notMem_empty _,
      fun l hl => absurd hl (Set.notMem_empty l), fun l hl => absurd hl (Set.notMem_empty l)⟩
  | kernelPage _ hn hrun ih =>
    obtain ⟨T, bs, live, hk, ho⟩ := ih
    exact ⟨T, bs, live, (hk.createKernelPage hn hrun).1, ho⟩
  | processPage _ hd hne hn hrun ih =>
    obtain ⟨T, bs, live, hk, ho⟩ := ih
    obtain ⟨s₁, T', bs', live', b, -, -, hk', hcase⟩ := pagingCreateProcessPage_ok hk hd hne hrun
    refine ⟨T', bs', live', hk', ?_⟩
    rcases hcase with ⟨-, rfl, rfl⟩ | ⟨-, t, s₀, x, hl, rfl, rfl, -⟩
    · exact ho
    · refine ho.mono (fun l hl' => .tail _ hl') (fun d hd => .inl hd) ?_
      rintro u (rfl | hu)
      · exact .inr hl.alloc.fresh
      · exact .inl hu
  | clone _ hsource hrun ih =>
    obtain ⟨T, bs, live, hk, ho⟩ := ih
    obtain ⟨T', live', hc⟩ := pagingClone_ok hk hsource hrun
    obtain ⟨bs', hk'⟩ := hc.inv
    refine ⟨T', bs', live', hk', ho.mono hc.old ?_ hc.fresh.2⟩
    rintro d (rfl | hd)
    · exact .inr hc.fresh.1
    · exact .inl hd
  | clean _ hd hne hrun ih =>
    obtain ⟨T, bs, live, hk, ho⟩ := ih
    obtain ⟨T', bs', live', hk', hT, hlive, hgone⟩ := (pagingClean_ok hk hd hne hrun).inv
    refine ⟨T', bs', live', hk', fun l hl => ?_, ho.first, ho.directory, fun l hl ht =>
      ho.table l hl (hT ht)⟩
    by_contra hnot
    obtain ⟨t, ht, rfl⟩ := hgone l (ho.live l hl) hnot
    exact ho.table _ hl ht
  | link _ hi hne hrun ih =>
    obtain ⟨T, bs, live, hk, ho⟩ := ih
    exact ⟨T, bs, live, hk.link hi hne hrun, ho⟩
  | ring _ hq ih =>
    obtain ⟨T, bs, live, hk, ho⟩ := ih
    exact ⟨T, bs, live, hk.setProcesses hq, ho⟩
  | @alloc s s' D own size alignment ptr _ hv hrun ih =>
    obtain ⟨T, bs, live, hk, ho⟩ := ih
    have ha := kallocHeapAlloc_ok hk hv hrun
    obtain ⟨bs', hk'⟩ := ha.inv
    refine ⟨T, bs', _, hk', ?_, ?_, ?_, ?_⟩
    · rintro l (rfl | hl)
      · exact List.mem_cons_self
      · exact .tail _ (ho.live l hl)
    · rintro (heq | hl)
      · exact ha.fresh _ hk.first (congrArg Live.ptr heq)
      · exact ho.first hl
    · rintro l (rfl | hl) hd
      · by_cases hdk : ptr = s'.sys.kernelPageDirectory
        · have hbelow := hk'.below
          have hlow := hk'.le_ptr List.mem_cons_self
          dsimp only at hlow
          omega
        · exact ha.fresh _ (hk.directories _ hd (ha.grown.kernel ▸ hdk)) rfl
      · exact ho.directory l hl hd
    · rintro l (rfl | hl) ht
      · exact ha.fresh _ (hk.tables _ ht) rfl
      · exact ho.table l hl ht
  | @free s s' D own l _ hl hrun ih =>
    obtain ⟨T, bs, live, hk, ho⟩ := ih
    have hmem := ho.live l hl
    have hlow := hk.le_ptr hmem
    have hnot : ∀ d ∈ D, ∀ i < 1024, (s.sys.directories d).tables i ≠ l.ptr := by
      intro d hd i hi heq
      have hne : l.ptr ≠ 0 := by
        unfold kernelHeapAddress at hlow
        omega
      have huse := hk.pages.inv.inUse_linked hd hi (heq ▸ hne)
      rw [heq] at huse
      exact ho.table l hl ((hk.pages.inv.inUse_bounds huse).2.2.2.mpr hlow)
    obtain ⟨bs', hk', -, -⟩ := hk.free hmem (fun heq => ho.first (heq ▸ hl))
      (fun d hd heq => ho.directory l hl (heq ▸ hd)) hnot hrun
    exact ⟨_, bs', _, hk', fun l' hl' => (List.mem_erase_of_ne hl'.2).mpr (ho.live l' hl'.1),
      fun hf => ho.first hf.1, fun l' hl' => ho.directory l' hl'.1,
      fun l' hl' ht => ho.table l' hl'.1 ht.1⟩
  | write _ hm ih =>
    obtain ⟨T, bs, live, hk, ho⟩ := ih
    refine ⟨T, bs, live, ⟨hk.heap.congr fun x hx hlt hp => hm x hx hlt fun l hl how => hp ?_, ?_,
      hk.first, hk.directories, hk.tables, hk.below⟩, ho⟩
    · exact how.payload hk.heap (ho.live l hl)
    · exact hk.pages.of_kept (hk.pages.inv.setFrames _) fun n _ f hf => hf.congr rfl rfl

end

/-! ## The boot -/

/-- The machine before `paging_init`, with no frame in use. -/
def poweredOn : Paging where
  availableFrames := bitmapInit (fun _ => 0) 0
  kernelPageDirectory := 0
  directories _ := PageDirectory.zero
  tables _ := PageTable.zero
  frames _ _ := 0
  processes := []

theorem exists_pagingInit : ∃ p, pagingInit 0x30000 poweredOn = .ok p ∧ Initialised poweredOn p :=
  pagingInit_spec (by decide) rfl

theorem exists_booted : ∃ p, Booted p (fun _ => 0) ∧ Initialised poweredOn p := by
  obtain ⟨p, hrun, hinit⟩ := exists_pagingInit
  exact ⟨p, .init (by decide) rfl hrun, hinit⟩

end RawOS
