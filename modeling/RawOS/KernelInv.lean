import RawOS.KernelPages
import RawOS.Alloc.HeapBump
import RawOS.Alloc.HeapRun

/-!
# The invariant of the kernel

`KernelInv` puts the invariant of the heap and that of the pages together: the directories and the
tables are live allocations of the heap. There is one lemma for each function of `paging.c` that
works on address spaces.
-/

namespace RawOS

/-- What `kalloc_init` allocates. -/
def firstByte : Live := ⟨kernelHeapAddress + 65536 + 12, 1, 0⟩

/-- The first request of one byte is served at the start of the heap. -/
theorem kallocAlloc_first {σ : Type} {env : PageEnv σ} {pages ptr : ℕ} {s s' : HeapState σ}
    (h : HeapInv kernelHeapAddress [⟨kernelHeapAddress + 65536, pages * 4096 - 20, false⟩] s.heap s.mem)
    (hpages : 0 < pages) (hrun : kallocHeapAlloc env s 1 0 = .ok (ptr, s')) :
    ptr = firstByte.ptr ∧ s'.heap.size = s.heap.size := by
  obtain ⟨b, hb⟩ : ∃ b : Block, b = ⟨kernelHeapAddress + 65536, pages * 4096 - 20, false⟩ := ⟨_, rfl⟩
  have hsize : 1 ≤ b.size := by
    rw [hb]
    dsimp only
    omega
  rw [← hb] at h
  obtain ⟨s₁, hrun₁, hserved⟩ := @kallocHeapAlloc_bump _ _ _ [] _ _ _ _ env h
    (fun x hx => absurd hx List.not_mem_nil) (by rw [hb]) hsize (Hole.fits_zero (k := b.key) hsize)
    (serves_zero hsize) (fun h => absurd rfl h) 1048577
  obtain ⟨hptr, rfl⟩ := Prod.mk.inj (Except.ok.inj (hrun₁.symm.trans hrun))
  refine ⟨?_, hserved.heapSize⟩
  rw [← hptr, hb]
  rfl

/-- The end of the heap. -/
def heapEnd (s : Kernel) : ℕ := s.heap.initialAddr + s.heap.size

def directoryAt (d : ℕ) : Live := ⟨d, sizeofPageDirectory, 0x1000⟩

def tableAt (t : ℕ) : Live := ⟨t, sizeofPageTable, 0x1000⟩

/-- Where the byte of `kalloc_init` is live, the first block is in use. -/
theorem LiveInv.first_used {bs : List Block} {live : List Live} {heap : KallocHeap} {m : Mem}
    (h : LiveInv kernelHeapAddress bs live heap m) (hfirst : firstByte ∈ live) :
    ∃ c ∈ bs, c.used = true ∧ c.addr = heap.initialAddr := by
  obtain ⟨c, hc, hcu, hcp, -⟩ := h.held _ hfirst
  refine ⟨c, hc, hcu, ?_⟩
  rw [h.heap.shape.initialAddr]
  unfold Block.user at hcp
  have hptr : firstByte.ptr = kernelHeapAddress + 65536 + 12 := rfl
  omega

/-- The heap holds the allocations `live`, among them the directories `D` of the processes and the
tables `T`. -/
structure KernelInv (D T : Set ℕ) (bs : List Block) (live : List Live) (s : Kernel) : Prop where
  heap : LiveInv kernelHeapAddress bs live s.heap s.mem
  pages : PagesAt D T (heapEnd s) s.sys
  first : firstByte ∈ live
  directories : ∀ d ∈ D, d ≠ s.sys.kernelPageDirectory → directoryAt d ∈ live
  tables : ∀ t ∈ T, tableAt t ∈ live
  below : s.sys.kernelPageDirectory < kernelHeapAddress

section

variable {uninit : Paging → Mem → ℤ} {D T : Set ℕ} {bs : List Block} {live : List Live}
  {s s' : Kernel} {p p' : Paging} {d t i n f u size alignment ptr : ℕ} {l : Live}

namespace KernelInv

/-- Where a live allocation lies that was asked for without an overflow. -/
theorem bounds (h : KernelInv D T bs live s) (hl : l ∈ live)
    (hfits : l.alignment = 0 ∨ l.size + l.alignment ≤ 4294967296) :
    kernelHeapAddress + 65548 ≤ l.ptr ∧ l.ptr + l.size ≤ heapEnd s := by
  obtain ⟨b, hb, -, hbp, hroom⟩ := h.heap.held l hl
  obtain ⟨h₁, h₂⟩ := h.heap.heap.shape.mem_bounds hb
  have hle : l.size ≤ b.size := by omega
  unfold Block.user at hbp
  unfold Block.next at h₂
  unfold heapEnd
  omega

theorem le_ptr (h : KernelInv D T bs live s) (hl : l ∈ live) : kernelHeapAddress ≤ l.ptr := by
  obtain ⟨b, hb, -, hbp, -⟩ := h.heap.held l hl
  obtain ⟨h₁, -⟩ := h.heap.heap.shape.mem_bounds hb
  rw [← hbp]
  exact (Nat.le_add_right _ 65536).trans (h₁.trans (Nat.le_add_right _ 12))

theorem first_used (h : KernelInv D T bs live s) :
    ∃ c ∈ bs, c.used = true ∧ c.addr = s.heap.initialAddr := h.heap.first_used h.first

/-- A page directory or table is not another live allocation. -/
theorem ne_of_mem (h : KernelInv D T bs live s) {l' : Live} (hl : l ∈ live) (hl' : l' ∈ live)
    (hne : l.size ≠ l'.size) : l.ptr ≠ l'.ptr := fun heq =>
  hne (congrArg Live.size (h.heap.ptr_inj hl hl' heq))

end KernelInv

/-- What an allocation does to the kernel. -/
structure KernelAlloc (D T : Set ℕ) (live : List Live) (size alignment : ℕ) (s : Kernel) (ptr : ℕ)
    (s' : Kernel) : Prop where
  inv : ∃ bs, KernelInv D T bs (⟨ptr, size, alignment⟩ :: live) s'
  grown : KernelGrown (heapEnd s / 4096) (heapEnd s' / 4096) s.sys s'.sys
  le : heapEnd s ≤ heapEnd s'
  fresh : ∀ l ∈ live, l.ptr ≠ ptr
  absent : ∀ n, heapEnd s / 4096 ≤ n → n < heapEnd s' / 4096 → ∀ f, ¬ KernelPage s.sys n f
  same : heapEnd s' = heapEnd s → s'.sys = s.sys

theorem kallocHeapAlloc_ok (h : KernelInv D T bs live s) (hv : ValidAlignment alignment)
    (hrun : kallocHeapAlloc (pagingEnv uninit) s size alignment = .ok (ptr, s')) :
    KernelAlloc D T live size alignment s ptr s' := by
  obtain ⟨bs', ha⟩ := (kallocHeapAlloc_spec (pagingEnv_pagesOk uninit D T (heapEnd s) s.sys)
    h.heap.heap (h.pages.heapPages _) (fun x hx => absurd hx (Set.notMem_empty x)) hv
    fun _ => h.first_used).of_ok hrun
  obtain ⟨hpages, hle, hgrown, habsent, hsame⟩ := ha.pages
  have hlive := h.heap.alloc ha
  refine ⟨⟨bs', hlive, hpages, .tail _ h.first, fun d hd hk => .tail _ (h.directories d hd ?_),
    fun t ht => .tail _ (h.tables t ht), hgrown.kernel ▸ h.below⟩, hgrown, hle, fun l hl heq => ?_,
    habsent, hsame⟩
  · rw [← hgrown.kernel]
    exact hk
  · have hnodup := hlive.nodup
    rw [List.map_cons, List.nodup_cons] at hnodup
    exact hnodup.1 (List.mem_map.mpr ⟨l, hl, heq⟩)

theorem validAlignment_page : ValidAlignment 0x1000 := .inr ⟨12, by decide, rfl⟩

/-- Where a table or a directory was allocated. -/
theorem KernelAlloc.aligned (h : KernelAlloc D T live size 0x1000 s ptr s')
    (hsize : size ≤ sizeofPageDirectory) : ptr % 4096 = 0 ∧ kernelHeapAddress ≤ ptr ∧
      ptr + size ≤ heapEnd s' := by
  obtain ⟨bs, hi⟩ := h.inv
  unfold sizeofPageDirectory at hsize
  have hmem : (⟨ptr, size, 0x1000⟩ : Live) ∈ ⟨ptr, size, 0x1000⟩ :: live := List.mem_cons_self
  obtain ⟨h₁, h₂⟩ := hi.bounds hmem (.inr (by dsimp only; omega))
  have h₃ := hi.heap.aligned _ hmem (by dsimp only; omega)
  dsimp only at h₁ h₂ h₃
  exact ⟨Nat.mod_eq_zero_of_dvd h₃, (Nat.le_add_right _ _).trans h₁, h₂⟩

theorem getPhysicalAddress_kernel (hf : KernelPage p (n / 4096) f) :
    getPhysicalAddressOfVirtualAddress p p.kernelPageDirectory n =
      .ok (u32 (f * 0x1000 + n % 4096)) := by
  unfold getPhysicalAddressOfVirtualAddress
  have hne : (p.directories p.kernelPageDirectory).tables (n / 4096 / 1024) ≠ 0 := hf.table
  have hframe : (p.tables ((p.directories p.kernelPageDirectory).tables (n / 4096 / 1024))
      (n / 4096 % 1024)).frameAddress20Bits = f := hf.maps.frame
  dsimp only
  rw [if_neg hne, hframe]

/-- The bytes of the frames do not matter. -/
theorem PagingInv.setFrames (h : PagingInv D T p) (frames : ℕ → ℕ → UInt8) :
    PagingInv D T { p with frames := frames } :=
  h.of_tables rfl rfl rfl ⟨h.frames.size,
    fun t j f ht hj hm => h.frames.used t j f ht hj ⟨hm.present, hm.frame⟩,
    fun t t' j j' f ht ht' hj hj' hm hm' => h.frames.distinct t t' j j' f ht ht' hj hj'
      ⟨hm.present, hm.frame⟩ ⟨hm'.present, hm'.frame⟩⟩
    fun _ _ _ hf => hf.congr rfl rfl

theorem PagesAt.of_kept {D' T' : Set ℕ} {e : ℕ} (h : PagesAt D T e p) (hinv : PagingInv D' T' p')
    (hk : KernelKept p p') : PagesAt D' T' e p' := by
  refine ⟨hinv, fun n hn he => ?_, h.le⟩
  obtain ⟨f, hf⟩ := h.mapped n hn he
  have hle := h.le
  exact ⟨f, hk n (by omega) f hf⟩

/-- The pages that the kernel has when a table or a directory changes that is not its own. -/
theorem KernelKept.of_eq (hk : p'.kernel = p.kernel)
    (ht : ∀ i < 1024, p.kernel.tables i ≠ 0 →
      p'.tables (p.kernel.tables i) = p.tables (p.kernel.tables i)) :
    KernelKept p p' := by
  intro n hn f hf
  refine hf.congr (by rw [hk]) ?_
  rw [ht _ ?_ hf.table]
  unfold kernelStackFirstPage kernelStackAddress kernelStackReservedPages at hn
  omega

/-! ## Tables of a process -/

/-- A new table `t` that is not in use. -/
theorem KernelAlloc.addTable (h : KernelInv D T bs live s)
    (ha : KernelAlloc D T live sizeofPageTable 0x1000 s t s') :
    ∃ bs' f, KernelInv D (insert t T) bs' (tableAt t :: live) { s' with sys := s'.sys.zeroTable t } ∧
      KernelPage (s'.sys.zeroTable t) (t / 4096) f ∧ t ∉ T ∧ ¬ InUse T s'.sys t := by
  obtain ⟨bs', hi⟩ := ha.inv
  obtain ⟨hmod, hle, hend⟩ := ha.aligned (by decide)
  have hpages := hi.pages
  have hlt := hpages.le
  unfold sizeofPageTable at hend
  have ht : t ∉ T := fun ht => ha.fresh _ (h.tables t ht) rfl
  have hnot : ¬ InUse T s'.sys t := fun hin => ht ((hpages.inv.inUse_bounds hin).2.2.2.mpr hle)
  unfold kernelHeapAddress at hle
  obtain ⟨f, hf⟩ := hpages.mapped (t / 4096) (by unfold kernelHeapAddress; omega) (by omega)
  have hkept : KernelKept s'.sys (s'.sys.zeroTable t) := by
    refine .of_eq rfl fun i hi' hne => Paging.zeroTable_of_ne ?_
    rintro heq
    exact hnot (heq ▸ .inr ⟨hne, i, hi', rfl⟩)
  have hinv := hpages.inv.addTable hmod hle (by omega) ⟨f, hf⟩ ht
  refine ⟨bs', f, ⟨hi.heap, hpages.of_kept hinv hkept, hi.first, hi.directories, ?_, hi.below⟩,
    hkept _ (by omega) f hf, ht, hnot⟩
  rintro t' (rfl | ht')
  · exact List.mem_cons_self
  · exact hi.tables t' ht'

theorem PagingInv.not_linked (h : PagingInv D T p) (h0 : t ≠ 0) (ht : ¬ InUse T p t) (hd : d ∈ D)
    (hi : i < 1024) : (p.directories d).tables i ≠ t := by
  rintro rfl
  exact ht (h.inUse_linked hd hi h0)

/-- An entry of a process is set. -/
theorem KernelInv.setDirectoryEntry {x : ℕ} (h : KernelInv D T bs live s) (hd : d ∈ D)
    (hk : d ≠ s.sys.kernelPageDirectory)
    (ht : t = 0 ∧ x = 0 ∨ (t ∈ T ∨ t ≠ 0 ∧ t = s.sys.kernel.tables i) ∧
      ∃ f, KernelPage s.sys (t / 4096) f ∧ x = u32 (f * 0x1000) ||| 0x7)
    (hown : t ∈ T → ∀ d' ∈ D, ∀ i' < 1024, 256 ≤ i ∨ 256 ≤ i' → d' ≠ d ∨ i' ≠ i →
      (s.sys.directories d').tables i' ≠ t) :
    KernelInv D T bs live { s with sys := s.sys.setDirectoryEntry d i t x } := by
  have hkernel : (s.sys.setDirectoryEntry d i t x).kernel = s.sys.kernel :=
    Paging.setDirectoryEntry_of_ne hk.symm
  exact ⟨h.heap, h.pages.of_kept (h.pages.inv.setDirectoryEntry hd hk ht hown)
    (.of_eq hkernel fun _ _ _ => rfl), h.first, h.directories, h.tables, h.below⟩

/-- A new table of a process: the kernel after the allocation, and the entry that is set. -/
structure TableLinked (D T : Set ℕ) (live : List Live) (d i : ℕ) (s : Kernel) (t : ℕ) (s₁ : Kernel)
    (x : ℕ) : Prop where
  alloc : KernelAlloc D T live sizeofPageTable 0x1000 s t s₁
  unused : ¬ InUse T s₁.sys t
  inv : ∃ bs, KernelInv D (insert t T) bs (tableAt t :: live)
    { s₁ with sys := (s₁.sys.zeroTable t).setDirectoryEntry d i t x }

theorem createProcessTable_ok (h : KernelInv D T bs live s) (hd : d ∈ D)
    (hk : d ≠ s.sys.kernelPageDirectory) (hrun : createProcessTable uninit s d i = .ok s') :
    ∃ t s₁ x, TableLinked D T live d i s t s₁ x ∧
      s' = { s₁ with sys := (s₁.sys.zeroTable t).setDirectoryEntry d i t x } := by
  unfold createProcessTable at hrun
  obtain ⟨⟨t, s₁⟩, halloc, hrun⟩ := bind_eq_ok.mp hrun
  obtain ⟨frameAddress, hframe, hrun⟩ := bind_eq_ok.mp hrun
  cases hrun
  have ha := kallocHeapAlloc_ok h validAlignment_page halloc
  obtain ⟨hmod, hle, hend⟩ := ha.aligned (by decide)
  obtain ⟨bs', f, hinv, hf, htT, hnot⟩ := ha.addTable h
  have hlt := hinv.pages.le
  unfold sizeofPageTable at hend
  have hlt' : t < 4294967296 := by
    have hend' : heapEnd s₁ ≤ kernelStackFirstPage * 4096 := hlt
    unfold kernelStackFirstPage kernelStackAddress kernelStackReservedPages at hend'
    omega
  have ht0 : t ≠ 0 := by
    unfold kernelHeapAddress at hle
    omega
  have hpage : u32 (t / 0x1000 * 0x1000) = t := by
    rw [u32_of_lt (by omega)]
    omega
  unfold pagingGetPageFrameAddress at hframe
  rw [hpage, getPhysicalAddress_kernel hf, hmod, Nat.add_zero] at hframe
  obtain rfl := Except.ok.inj hframe
  have hzero : ((s₁.sys.zeroTable t).setDirectoryEntry d i t (u32 (f * 0x1000) ||| 0x7)).zeroTable t =
      (s₁.sys.zeroTable t).setDirectoryEntry d i t (u32 (f * 0x1000) ||| 0x7) := by
    unfold Paging.zeroTable Paging.setDirectoryEntry
    dsimp only
    rw [Function.update_idem]
  have hk₁ : d ≠ (s₁.sys.zeroTable t).kernelPageDirectory := by
    show d ≠ s₁.sys.kernelPageDirectory
    rw [ha.grown.kernel]
    exact hk
  refine ⟨t, s₁, _, ⟨ha, hnot, bs', ?_⟩, by rw [hzero]⟩
  refine hinv.setDirectoryEntry hd hk₁ (.inr ⟨.inl (.inl rfl), f, hf, rfl⟩) ?_
  intro _ d' hd' i' hi' _ _
  obtain ⟨bs₁, hi₁⟩ := ha.inv
  exact hi₁.pages.inv.not_linked ht0 hnot hd' hi'

/-- What creating a page of a process does, once its table exists. -/
structure PageMapped (d n u : ℕ) (s : Kernel) (f : ℕ) (b : Bitmap) (s' : Kernel) : Prop where
  table : (s.sys.directories d).tables (n / 1024) ≠ 0
  new : (s.sys.tables ((s.sys.directories d).tables (n / 1024)) (n % 1024)).present = false
  claimed : Claimed s.sys.availableFrames b f
  result : s' = { s with
    sys := { { s.sys with availableFrames := b }.setEntry ((s.sys.directories d).tables (n / 1024))
        (n % 1024) (newPageEntry u f
          (s.sys.tables ((s.sys.directories d).tables (n / 1024)) (n % 1024))) with
      frames := Function.update s.sys.frames f (Function.update (s.sys.frames f) 0 0xAB) } }

theorem KernelInv.mapEntry {b : Bitmap} {j : ℕ} {e : PageEntry} (h : KernelInv D T bs live s)
    (hb : Claimed s.sys.availableFrames b f) (hj : j < 1024)
    (hnew : (s.sys.tables t j).present = false) (he : e.frameAddress20Bits = f)
    (frames : ℕ → ℕ → UInt8) :
    KernelInv D T bs live { s with
      sys := { { s.sys with availableFrames := b }.setEntry t j e with frames := frames } } := by
  have hinv := (h.pages.inv.mapEntry hb hj hnew he).setFrames frames
  refine ⟨h.heap, h.pages.of_kept hinv ?_, h.first, h.directories, h.tables, h.below⟩
  intro n _ g hg
  refine hg.congr rfl (Paging.setEntry_of_ne ?_)
  by_contra hne
  obtain ⟨rfl, rfl⟩ : s.sys.kernel.tables (n / 1024) = t ∧ n % 1024 = j := by omega
  rw [hg.maps.present] at hnew
  exact Bool.noConfusion hnew

/-- The end of `paging_create_process_page_with_any_frame`. -/
def mapProcessPage (s : Kernel) (d n u : ℕ) : Except Panic (ℕ × Kernel) :=
  mapPage ((s.sys.directories d).tables (n / 1024)) n u s.sys >>= fun r =>
    .ok (r.1, { s with
      sys := { r.2 with
        frames := Function.update r.2.frames r.1 (Function.update (r.2.frames r.1) 0 0xAB) } })

theorem pagingCreateProcessPage_mapped (htable : (s.sys.directories d).tables (n / 1024) ≠ 0) :
    pagingCreateProcessPageWithAnyFrame uninit s d n u = mapProcessPage s d n u := by
  unfold pagingCreateProcessPageWithAnyFrame
  rw [if_neg htable]
  rfl

theorem pagingCreateProcessPage_unmapped (htable : (s.sys.directories d).tables (n / 1024) = 0) :
    pagingCreateProcessPageWithAnyFrame uninit s d n u =
      createProcessTable uninit s d (n / 1024) >>= fun s => mapProcessPage s d n u := by
  unfold pagingCreateProcessPageWithAnyFrame
  rw [if_pos htable]
  rfl

theorem mapProcessPage_ok (h : KernelInv D T bs live s)
    (htable : (s.sys.directories d).tables (n / 1024) ≠ 0)
    (hrun : mapProcessPage s d n u = .ok (f, s')) :
    ∃ b, PageMapped d n u s f b s' ∧ KernelInv D T bs live s' := by
  obtain ⟨⟨f', p⟩, hmap, hrun⟩ := bind_eq_ok.mp hrun
  cases hrun
  obtain ⟨hnew, b, hb, rfl⟩ := mapPage_ok h.pages.inv.frames.size hmap
  exact ⟨b, ⟨htable, hnew, hb, rfl⟩, h.mapEntry hb (by omega) hnew (newPageEntry_frame hb.lt _) _⟩

theorem pagingCreateProcessPage_ok (h : KernelInv D T bs live s) (hd : d ∈ D)
    (hk : d ≠ s.sys.kernelPageDirectory)
    (hrun : pagingCreateProcessPageWithAnyFrame uninit s d n u = .ok (f, s')) :
    ∃ s₁ T' bs' live' b, KernelInv D T' bs' live' s₁ ∧ PageMapped d n u s₁ f b s' ∧
      KernelInv D T' bs' live' s' ∧
      (s₁ = s ∧ T' = T ∧ live' = live ∨ (s.sys.directories d).tables (n / 1024) = 0 ∧
        ∃ t s₀ x, TableLinked D T live d (n / 1024) s t s₀ x ∧ T' = insert t T ∧
          live' = tableAt t :: live ∧
          s₁ = { s₀ with sys := (s₀.sys.zeroTable t).setDirectoryEntry d (n / 1024) t x }) := by
  by_cases htable : (s.sys.directories d).tables (n / 1024) = 0
  · rw [pagingCreateProcessPage_unmapped htable] at hrun
    obtain ⟨s₁, hcreate, hrun⟩ := bind_eq_ok.mp hrun
    obtain ⟨t, s₀, x, hl, rfl⟩ := createProcessTable_ok h hd hk hcreate
    obtain ⟨bs', hinv⟩ := hl.inv
    have hne : ((({ s₀ with sys := (s₀.sys.zeroTable t).setDirectoryEntry d (n / 1024) t x } :
        Kernel)).sys.directories d).tables (n / 1024) ≠ 0 := by
      rw [Paging.setDirectoryEntry_tables_self]
      exact (hinv.pages.inv.heap t (.inl rfl)).2.1.trans_lt' (by decide) |>.ne'
    obtain ⟨b, hm, hinv'⟩ := mapProcessPage_ok hinv hne hrun
    exact ⟨_, _, bs', _, b, hinv, hm, hinv', .inr ⟨htable, t, s₀, x, hl, rfl, rfl, rfl⟩⟩
  · rw [pagingCreateProcessPage_mapped htable] at hrun
    obtain ⟨b, hm, hinv'⟩ := mapProcessPage_ok h htable hrun
    exact ⟨s, T, bs, live, b, h, hm, hinv', .inl ⟨rfl, rfl, rfl⟩⟩

end

end RawOS
