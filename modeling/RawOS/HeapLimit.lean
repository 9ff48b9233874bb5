import RawOS.KernelStacks

/-!
# The limit of the heap

`HEAP_MAX_SIZE` is defined and compared with nothing: `kalloc_heap_alloc` adds pages as long as no
hole is found. `limitedRun_contained` says what holds in every run in which no request makes it grow
past the limit.
-/

namespace RawOS

/-- `HEAP_MAX_SIZE`. -/
def heapMaxSize : ℕ := 64 * 1024 * 1024

/-! ## Requests of the kernel -/

section Requests

variable (uninit : Paging → Mem → ℤ)

/-- Where the search finds no hole for a request, the pages that the hole at the end of the heap
needs for it are within the limit. -/
def AllocLimited (s : Kernel) (size alignment : ℕ) : Prop :=
  kallocAvlFindHole s.mem s.heap.avl size alignment = .ok 0 →
    s.heap.size + 4096 * morePages s size alignment ≤ heapMaxSize

/-- The request of `paging_create_process_page_with_any_frame`, for a table that is missing. -/
def CreateLimited (s : Kernel) (d n : ℕ) : Prop :=
  (s.sys.directories d).tables (n / 1024) = 0 → AllocLimited s sizeofPageTable 0x1000

/-- The requests of `paging_clone_page_directory_for_new_process`: the directory, and a table in
each round of its loop that copies one. -/
structure CloneLimited (s : Kernel) (source : ℕ) : Prop where
  directory : AllocLimited s sizeofPageDirectory 0x1000
  table : ∀ c s₁ i s₂, kallocAllocAligned uninit s sizeofPageDirectory 0x1000 = .ok (c, s₁) →
    i < 1024 - 1024 / 4 →
    forLoop (fun i => cloneTable uninit source c (1024 / 4 + i)) i
      { s₁ with sys := s₁.sys.zeroDirectory c } = .ok s₂ →
    (s₂.sys.directories source).tables (1024 / 4 + i) ≠ 0 →
    AllocLimited s₂ sizeofPageTable 0x1000

/-- The runs of the kernel whose requests are within the limit. Pages of the kernel are created for
the heap only. -/
inductive LimitedRun : Kernel → Set ℕ → Set Live → Prop where
  | init {p : Paging} {m : Mem} {s : Kernel} :
    Booted p m → kallocInit uninit 1 p m = .ok s →
    LimitedRun s {s.sys.kernelPageDirectory} ∅
  | processPage {s s' : Kernel} {D : Set ℕ} {own : Set Live} {d n userMode f : ℕ} :
    LimitedRun s D own → d ∈ D → d ≠ s.sys.kernelPageDirectory → n < 0x100000 →
    CreateLimited s d n →
    pagingCreateProcessPageWithAnyFrame uninit s d n userMode = .ok (f, s') →
    LimitedRun s' D own
  | clone {s s' : Kernel} {D : Set ℕ} {own : Set Live} {source c : ℕ} :
    LimitedRun s D own → source ∈ D → CloneLimited uninit s source →
    pagingClonePageDirectoryForNewProcess uninit s source = .ok (c, s') →
    LimitedRun s' (insert c D) own
  | clean {s s' : Kernel} {D : Set ℕ} {own : Set Live} {d : ℕ} :
    LimitedRun s D own → d ∈ D → d ≠ s.sys.kernelPageDirectory →
    pagingCleanAllNonKernelPagesFromPageDirectory uninit s d = .ok s' →
    LimitedRun s' D own
  | ring {s : Kernel} {D : Set ℕ} {own : Set Live} {processes : List Process} :
    LimitedRun s D own → (∀ r ∈ processes, ∀ d, r.pageDirectory = some d → d ∈ D) →
    LimitedRun { s with sys := { s.sys with processes := processes } } D own
  | alloc {s s' : Kernel} {D : Set ℕ} {own : Set Live} {size alignment ptr : ℕ} :
    LimitedRun s D own → ValidAlignment alignment → AllocLimited s size alignment →
    kallocAllocAligned uninit s size alignment = .ok (ptr, s') →
    LimitedRun s' D (insert ⟨ptr, size, alignment⟩ own)
  | free {s s' : Kernel} {D : Set ℕ} {own : Set Live} {l : Live} :
    LimitedRun s D own → l ∈ own → kallocFree uninit s l.ptr = .ok s' →
    LimitedRun s' D (own \ {l})
  | write {s : Kernel} {D : Set ℕ} {own : Set Live} {m : Mem} {frames : ℕ → ℕ → UInt8} :
    LimitedRun s D own →
    (∀ x, kernelHeapAddress ≤ x → x < heapEnd s → (∀ l ∈ own, ¬ l.Owns s.mem x) → m x = s.mem x) →
    LimitedRun ⟨s.heap, m, { s.sys with frames := frames }⟩ D own

end Requests

/-- The entries from 256 on of the directories `D` stay, but for those in `set`. -/
def OwnEntriesKept (D : Set ℕ) (set : ℕ → ℕ → Prop) (p p' : Paging) : Prop :=
  ∀ d ∈ D, ∀ i < 1024, 256 ≤ i → ¬ set d i →
    (p'.directories d).tables i = (p.directories d).tables i ∧
    (p'.directories d).tablesX86Representation i = (p.directories d).tablesX86Representation i

/-- The heap is within its limit and in the quarter of the kernel, and whatever is requested next
within the limit, no entry of a process is linked to a table of the kernel. -/
structure Contained (uninit : Paging → Mem → ℤ) (D : Set ℕ) (s : Kernel) : Prop where
  limit : s.heap.size ≤ heapMaxSize
  quarter : heapEnd s ≤ 0x40000000
  alloc : ∀ size alignment ptr s', ValidAlignment alignment → AllocLimited s size alignment →
    kallocAllocAligned uninit s size alignment = .ok (ptr, s') →
    OwnEntriesKept D (fun _ _ => False) s.sys s'.sys
  clone : ∀ source ∈ D, ∀ c s', CloneLimited uninit s source →
    pagingClonePageDirectoryForNewProcess uninit s source = .ok (c, s') →
    OwnEntriesKept D (fun _ _ => False) s.sys s'.sys
  processPage : ∀ d ∈ D, d ≠ s.sys.kernelPageDirectory → ∀ n < 0x100000, ∀ userMode f s',
    CreateLimited s d n →
    pagingCreateProcessPageWithAnyFrame uninit s d n userMode = .ok (f, s') →
    OwnEntriesKept D (fun d' i => d' = d ∧ i = n / 1024) s.sys s'.sys

section

variable {uninit : Paging → Mem → ℤ} {D T : Set ℕ} {own : Set Live} {bs : List Block}
  {live : List Live} {s s' : Kernel} {size alignment ptr source c d n u f : ℕ}

theorem LimitedRun.kernelRun (h : LimitedRun uninit s D own) : KernelRun uninit s D own := by
  induction h with
  | init hb hrun => exact .init hb hrun
  | processPage _ hd hne hn _ hrun ih => exact ih.processPage hd hne hn hrun
  | clone _ hsource _ hrun ih => exact ih.clone hsource hrun
  | clean _ hd hne hrun ih => exact ih.clean hd hne hrun
  | ring _ hq ih => exact ih.ring hq
  | alloc _ hv _ hrun ih => exact ih.alloc hv hrun
  | free _ hl hrun ih => exact ih.free hl hrun
  | write _ hm ih => exact ih.write hm

/-! ## One request -/

theorem AllocLimited.heapSize (h : AllocLimited s size alignment)
    (hinv : KernelInv D T bs live s) (hv : ValidAlignment alignment)
    (hsize : s.heap.size ≤ heapMaxSize)
    (hrun : kallocAllocAligned uninit s size alignment = .ok (ptr, s')) :
    s'.heap.size ≤ heapMaxSize := by
  by_cases hfind : kallocAvlFindHole s.mem s.heap.avl size alignment = .ok 0
  · exact (kallocHeapAllocLoop_le (pagingEnv_pagesOk uninit D T (heapEnd s) s.sys) hv hinv.heap.heap
      (hinv.pages.heapPages _) (hinv.heap.heap.room_morePages size alignment) hrun).trans (h hfind)
  · -- a hole was found
    unfold kallocAllocAligned kallocHeapAlloc heapFuel kallocHeapAllocLoop at hrun
    obtain ⟨userSpace, hfound, hrun⟩ := bind_eq_ok.mp hrun
    have hne : userSpace ≠ 0 := by
      rintro rfl
      exact hfind hfound
    rw [if_pos hne] at hrun
    rw [(allocHole_kept hrun).1]
    exact hsize

theorem createProcessTable_limited {i : ℕ} (h : AllocLimited s sizeofPageTable 0x1000)
    (hinv : KernelInv D T bs live s) (hsize : s.heap.size ≤ heapMaxSize)
    (hrun : createProcessTable uninit s d i = .ok s') : s'.heap.size ≤ heapMaxSize := by
  unfold createProcessTable at hrun
  obtain ⟨⟨t, s₁⟩, halloc, hrun⟩ := bind_eq_ok.mp hrun
  obtain ⟨frameAddress, -, hrun⟩ := bind_eq_ok.mp hrun
  cases hrun
  have hle := h.heapSize hinv validAlignment_page hsize halloc
  exact hle

theorem CreateLimited.heapSize (h : CreateLimited s d n) (hinv : KernelInv D T bs live s)
    (hsize : s.heap.size ≤ heapMaxSize)
    (hrun : pagingCreateProcessPageWithAnyFrame uninit s d n u = .ok (f, s')) :
    s'.heap.size ≤ heapMaxSize := by
  by_cases htable : (s.sys.directories d).tables (n / 1024) = 0
  · rw [pagingCreateProcessPage_unmapped htable] at hrun
    obtain ⟨s₁, hcreate, hrun⟩ := bind_eq_ok.mp hrun
    obtain ⟨⟨g, p⟩, -, hrun⟩ := bind_eq_ok.mp hrun
    cases hrun
    have hle := createProcessTable_limited (h htable) hinv hsize hcreate
    exact hle
  · rw [pagingCreateProcessPage_mapped htable] at hrun
    obtain ⟨⟨g, p⟩, -, hrun⟩ := bind_eq_ok.mp hrun
    cases hrun
    exact hsize

theorem cloneTable_limited {i : ℕ}
    (h : (s.sys.directories source).tables i ≠ 0 → AllocLimited s sizeofPageTable 0x1000)
    (hinv : KernelInv D T bs live s) (hsize : s.heap.size ≤ heapMaxSize)
    (hrun : cloneTable uninit source c i s = .ok s') :
    s'.heap.size ≤ heapMaxSize := by
  unfold cloneTable at hrun
  split_ifs at hrun with htable
  · obtain ⟨⟨copied, s₁⟩, halloc, hrun⟩ := bind_eq_ok.mp hrun
    obtain ⟨p, -, hrun⟩ := bind_eq_ok.mp hrun
    obtain ⟨address, -, hrun⟩ := bind_eq_ok.mp hrun
    cases hrun
    have hle := (h htable).heapSize hinv validAlignment_page hsize halloc
    exact hle
  · cases hrun
    exact hsize

theorem CloneLimited.heapSize (h : CloneLimited uninit s source)
    (hinv : KernelInv D T bs live s) (hsource : source ∈ D) (hsize : s.heap.size ≤ heapMaxSize)
    (hrun : pagingClonePageDirectoryForNewProcess uninit s source = .ok (c, s')) :
    s'.heap.size ≤ heapMaxSize := by
  unfold pagingClonePageDirectoryForNewProcess at hrun
  obtain ⟨⟨cloned, s₁⟩, halloc, hrun⟩ := bind_eq_ok.mp hrun
  obtain ⟨s₂, hloop, hrun⟩ := bind_eq_ok.mp hrun
  obtain ⟨p, -, hrun⟩ := bind_eq_ok.mp hrun
  cases hrun
  have hinit := h.directory.heapSize hinv validAlignment_page hsize halloc
  -- the state of each round is the one that the condition speaks of
  refine (forLoop_ok (P := fun i b => b.heap.size ≤ heapMaxSize ∧
    forLoop (fun i => cloneTable uninit source c (1024 / 4 + i)) i
      { s₁ with sys := s₁.sys.zeroDirectory c } = .ok b) ⟨hinit, rfl⟩ ?_ hloop).1
  rintro i hi b b' ⟨hb, hfirst⟩ hbody
  obtain ⟨-, T', live', hd⟩ := cloneLoop_ok hinv hsource halloc hi.le hfirst
  obtain ⟨bs', hinv'⟩ := hd.inv
  refine ⟨cloneTable_limited (h.table c s₁ i b halloc hi hfirst) hinv' hb hbody, ?_⟩
  unfold forLoop
  rw [hfirst, ok_bind, hbody]

/-! ## Runs -/

theorem KernelInv.heapEnd_eq (h : KernelInv D T bs live s) :
    heapEnd s = kernelHeapAddress + 65536 + s.heap.size := by
  unfold heapEnd
  rw [h.heap.heap.shape.initialAddr]

theorem kallocInit_heapSize {p : Paging} {m : Mem} (h : PagingInv D T p)
    (hrun : kallocInit uninit 1 p m = .ok s) : s.heap.size = 4096 := by
  obtain ⟨s₀, hcreate, hrun⟩ := bind_eq_ok.mp hrun
  obtain ⟨⟨ptr, s₁⟩, halloc, hrun⟩ := bind_eq_ok.mp hrun
  cases hrun
  obtain ⟨hheap, hsize, -⟩ := kallocHeapCreate_inv
    (pagingEnv_pagesOk uninit D T kernelHeapAddress p) (h.heapPages m) (by decide) hcreate
  obtain ⟨-, hkept⟩ := kallocAlloc_first hheap (by decide) halloc
  rw [hkept, hsize]

theorem LimitedRun.heapSize (h : LimitedRun uninit s D own) : s.heap.size ≤ heapMaxSize := by
  induction h with
  | init hb hrun =>
    rw [kallocInit_heapSize hb.inv.inv hrun]
    decide
  | processPage hr _ _ _ hl hrun ih =>
    obtain ⟨T, bs, live, hk, -⟩ := hr.kernelRun.inv
    exact hl.heapSize hk ih hrun
  | clone hr hsource hl hrun ih =>
    obtain ⟨T, bs, live, hk, -⟩ := hr.kernelRun.inv
    exact hl.heapSize hk hsource ih hrun
  | clean hr hd hne hrun ih =>
    obtain ⟨T, bs, live, hk, -⟩ := hr.kernelRun.inv
    have hc := pagingClean_ok hk hd hne hrun
    obtain ⟨T', bs', live', hk', -⟩ := hc.inv
    have hend := hc.heapEnd
    rw [hk.heapEnd_eq, hk'.heapEnd_eq] at hend
    omega
  | ring _ _ ih => exact ih
  | alloc hr hv hl hrun ih =>
    obtain ⟨T, bs, live, hk, -⟩ := hr.kernelRun.inv
    exact hl.heapSize hk hv ih hrun
  | @free s s' D own l hr hl hrun ih =>
    obtain ⟨T, bs, live, hk, ho⟩ := hr.kernelRun.inv
    obtain ⟨bs', hk', -, hend⟩ := kallocFree_ok hk.heap (ho.live l hl) hrun
    unfold heapEnd at hend
    rw [hk'.heap.shape.initialAddr, hk.heap.heap.shape.initialAddr] at hend
    omega
  | write _ _ ih => exact ih

/-- The limit is far below the end of the kernel's quarter. -/
theorem KernelInv.quarter (h : KernelInv D T bs live s) (hsize : s.heap.size ≤ heapMaxSize) :
    heapEnd s ≤ 0x40000000 := by
  rw [h.heapEnd_eq]
  unfold heapMaxSize at hsize
  unfold kernelHeapAddress
  omega

theorem AboveKept.ownEntriesKept {set : ℕ → ℕ → Prop} (h : AboveKept 256 D T s.sys s'.sys) :
    OwnEntriesKept D set s.sys s'.sys := fun d hd i hi hle _ => h.entries d hd i hi hle

theorem pagingCreateProcessPage_ownEntriesKept (h : KernelInv D T bs live s) (hd : d ∈ D)
    (hk : d ≠ s.sys.kernelPageDirectory)
    (hrun : pagingCreateProcessPageWithAnyFrame uninit s d n u = .ok (f, s'))
    (hsize : s'.heap.size ≤ heapMaxSize) :
    OwnEntriesKept D (fun d' i => d' = d ∧ i = n / 1024) s.sys s'.sys := by
  obtain ⟨s₁, T', bs', live', b, -, hm, hinv, hcase⟩ := pagingCreateProcessPage_ok h hd hk hrun
  have hdirs : s'.sys.directories = s₁.sys.directories := by rw [hm.result]; rfl
  rcases hcase with ⟨rfl, -⟩ | ⟨-, t, s₀, x, hl, -, -, rfl⟩
  · intro d' _ i _ _ _
    rw [hdirs]
    exact ⟨rfl, rfl⟩
  · have hend : heapEnd s₀ ≤ 0x40000000 := by
      have hquarter := hinv.quarter hsize
      rw [hm.result] at hquarter
      exact hquarter
    have habove : AboveKept 256 D T s.sys s₀.sys :=
      hl.alloc.aboveKept h.pages.inv le_rfl (le_max_of_le_right hend)
    intro d' hd' i hi hle hset
    have hne : d' ≠ d ∨ i ≠ n / 1024 := by
      by_contra hboth
      rw [not_or, not_not, not_not] at hboth
      exact hset hboth
    rw [hdirs]
    dsimp only
    rw [Paging.setDirectoryEntry_tables_of_ne hne, Paging.setDirectoryEntry_x86_of_ne hne]
    exact habove.entries d' hd' i hi hle

/-- In every run whose requests are within the limit: the heap is, and nothing that is requested
within it overwrites an entry of a process. -/
theorem limitedRun_contained (h : LimitedRun uninit s D own) : Contained uninit D s := by
  obtain ⟨T, bs, live, hinv, -⟩ := h.kernelRun.inv
  have hsize := h.heapSize
  refine ⟨hsize, hinv.quarter hsize, ?_, ?_, ?_⟩
  · intro size alignment ptr s' hv hl hrun
    have ha := kallocHeapAlloc_ok hinv hv hrun
    obtain ⟨bs', hinv'⟩ := ha.inv
    have hend := hinv'.quarter (hl.heapSize hinv hv hsize hrun)
    exact (ha.aboveKept hinv.pages.inv le_rfl (le_max_of_le_right hend)).ownEntriesKept
  · intro source hsource c s' hl hrun
    obtain ⟨T', live', hc⟩ := pagingClone_ok hinv hsource hrun
    obtain ⟨bs', hinv'⟩ := hc.inv
    have hend := hinv'.quarter (hl.heapSize hinv hsource hsize hrun)
    exact (hc.kept 256 le_rfl (le_max_of_le_right hend)).1.ownEntriesKept
  · intro d hd hne n _ userMode f s' hl hrun
    exact pagingCreateProcessPage_ownEntriesKept hinv hd hne hrun (hl.heapSize hinv hsize hrun)

/-- One request for most of a gigabyte: the heap ends where the quarter of the kernel does. -/
theorem not_limited_fullGigabyte : ∃ s D own, KernelRun (fun _ _ => 0) s D own ∧
    heapMaxSize < s.heap.size ∧ heapEnd s = 0x40000000 := by
  obtain ⟨s₀, hboot⟩ := exists_kernelBooted (fun _ _ => 0)
    (show 0x800000 ≤ 0x40400000 by decide) (by decide) (by decide)
    (show 7168 + (0x40400000 - kernelHeapAddress) / 4096 * 2 ≤ 783360 by decide)
  obtain ⟨s₁, -, hle, brk, hbrk, hfirst⟩ := hboot.clone (by decide)
  obtain ⟨size, s, -, hend, hrun, -⟩ := hfirst.fill hle (hbrk.trans (by decide))
  obtain ⟨T, bs, live, hinv, -⟩ := hrun.inv
  refine ⟨s, _, _, hrun, ?_, hend⟩
  rw [hinv.heapEnd_eq] at hend
  unfold heapMaxSize
  unfold kernelHeapAddress at hend
  omega

/-! ## A run -/

/-- A request far below the limit. -/
theorem AllocLimited.of_le
    (h : s.heap.size + 4096 * growthPages size alignment ≤ heapMaxSize) :
    AllocLimited s size alignment := fun _ => by
  have hle := morePages_le s size alignment
  omega

theorem KernelInv.alloc_heapEnd_le (h : KernelInv D T bs live s) (hv : ValidAlignment alignment)
    (hrun : kallocAllocAligned uninit s size alignment = .ok (ptr, s')) :
    heapEnd s' ≤ heapEnd s + 4096 * growthPages size alignment := by
  obtain ⟨bs', h'⟩ := (kallocHeapAlloc_ok h hv hrun).inv
  have hle := kallocHeapAllocLoop_le (pagingEnv_pagesOk uninit D T (heapEnd s) s.sys) hv h.heap.heap
    (h.pages.heapPages _) (h.heap.heap.room_morePages size alignment) hrun
  have hpages := morePages_le s size alignment
  rw [h.heapEnd_eq, h'.heapEnd_eq]
  omega

/-- A clone far below the limit: its directory takes at most 4 pages, and each of its tables 3. -/
theorem KernelInv.cloneLimited (h : KernelInv D T bs live s) (hsource : source ∈ D)
    (hle : heapEnd s + 4096 * (4 + 3 * 768) ≤ kernelHeapAddress + 65536 + heapMaxSize) :
    CloneLimited uninit s source := by
  have hdirectory : growthPages sizeofPageDirectory 0x1000 = 4 := rfl
  have htable : growthPages sizeofPageTable 0x1000 = 3 := rfl
  have hend := h.heapEnd_eq
  refine ⟨.of_le (by omega), fun c s₁ i s₂ halloc hi hloop _ => ?_⟩
  have hle₁ := h.alloc_heapEnd_le validAlignment_page halloc
  have hround : ∀ n ≤ 1024 - 1024 / 4, ∀ q,
      forLoop (fun i => cloneTable uninit source c (1024 / 4 + i)) n
        { s₁ with sys := s₁.sys.zeroDirectory c } = .ok q →
      ∃ D' T' bs' live', KernelInv D' T' bs' live' q := fun n hn q hfirst => by
    obtain ⟨-, T', live', hd⟩ := cloneLoop_ok h hsource halloc hn hfirst
    obtain ⟨bs', hinv⟩ := hd.inv
    exact ⟨_, T', bs', live', hinv⟩
  have hgrown : heapEnd s₂ ≤ heapEnd s₁ + 4096 * (3 * i) := by
    refine (forLoop_ok (P := fun n q => heapEnd q ≤ heapEnd s₁ + 4096 * (3 * n) ∧
      forLoop (fun i => cloneTable uninit source c (1024 / 4 + i)) n
        { s₁ with sys := s₁.sys.zeroDirectory c } = .ok q) ?_ ?_ hloop).1
    · exact ⟨le_rfl, rfl⟩
    · rintro n hn q q' ⟨hq, hfirst⟩ hstep
      obtain ⟨D', T', bs', live', hinv⟩ := hround n (by omega) q hfirst
      refine ⟨?_, by unfold forLoop; rw [hfirst, ok_bind, hstep]⟩
      rcases cloneTable_request hstep with ⟨-, rfl⟩ | ⟨-, t, s₃, halloc₃, hend₃⟩
      · omega
      · have hle₃ := hinv.alloc_heapEnd_le validAlignment_page halloc₃
        omega
  obtain ⟨D', T', bs', live', hinv⟩ := hround i hi.le s₂ hloop
  have hend₂ := hinv.heapEnd_eq
  exact .of_le (by omega)

/-- A process with a page of its own, and two megabytes that made the heap grow. -/
theorem exists_limitedRun : ∃ s ptr,
    LimitedRun (fun _ _ => 0) s {0x511000, s.sys.kernelPageDirectory} {⟨ptr, 0x200000, 0⟩} ∧
    0x511000 ≠ s.sys.kernelPageDirectory ∧ (∃ e, s.sys.pageOf 0x511000 0x40000 = some e) ∧
    0x700000 ≤ heapEnd s := by
  obtain ⟨p, s, hp, hrun, hboot, -⟩ := exists_kallocInit (fun _ _ => 0)
    (show 0x800000 ≤ 0x800000 by decide) (by decide) (by decide)
    (show 3073 + (0x800000 - kernelHeapAddress) / 4096 * 2 ≤ 783360 by decide)
  have h₀ : LimitedRun (fun _ _ => 0) s {s.sys.kernelPageDirectory} ∅ :=
    .init (.init (by decide) rfl hp) hrun
  obtain ⟨bs₀, hinv₀⟩ := hboot.inv
  have hk₀ : s.sys.kernelPageDirectory ∈ ({s.sys.kernelPageDirectory} : Set ℕ) := rfl
  -- the clone
  obtain ⟨s₁, hclone, hle₁, brk, hbrk, hfirst⟩ := hboot.clone (by decide)
  obtain ⟨T₁, live₁, hd⟩ := pagingClone_ok hinv₀ hk₀ hclone
  have hend₀ : heapEnd s ≤ 0x800000 := hboot.ready.le
  have hlimit₀ : heapEnd s + 4096 * (4 + 3 * 768) ≤ kernelHeapAddress + 65536 + heapMaxSize := by
    unfold kernelHeapAddress heapMaxSize
    omega
  have h₁ := h₀.clone hk₀ (hinv₀.cloneLimited hk₀ hlimit₀) hclone
  have h₂ : LimitedRun (fun _ _ => 0)
      { s₁ with sys := { s₁.sys with processes := [⟨0, 0, some 0x511000⟩] } }
      {0x511000, s.sys.kernelPageDirectory} ∅ := h₁.ring fun r hr d hrd => by
    rw [List.mem_singleton.mp hr] at hrd
    exact .inl (Option.some.inj hrd).symm
  obtain ⟨s₂, hs₂⟩ : ∃ s₂ : Kernel, s₂ =
    { s₁ with sys := { s₁.sys with processes := [⟨0, 0, some 0x511000⟩] } } := ⟨_, rfl⟩
  have hk₂ : s₂.sys.kernelPageDirectory = s.sys.kernelPageDirectory := by
    rw [hs₂]
    exact hd.kernel
  rw [← hs₂] at h₂ hfirst
  have hc : 0x511000 ≠ s₂.sys.kernelPageDirectory := fun heq => hd.new (heq.trans hk₂)
  -- the kernel has no table at 1 GB, and so the clone has none
  have hnone : (s₂.sys.directories 0x511000).tables 256 = 0 := by
    rw [hs₂]
    refine ((hd.kept 256 le_rfl (le_max_of_le_right (hle₁.trans (by decide)))).2 256 (by decide)
      le_rfl).absent ?_
    by_contra hne
    exact absurd (hboot.tables 256 (by decide) le_rfl (.inl hne)) (by decide)
  have hpage₂ : s₂.sys.pageOf 0x511000 0x40000 = none := by
    cases hp : s₂.sys.pageOf 0x511000 0x40000 with
    | none => rfl
    | some e => exact absurd hnone (Paging.pageOf_eq_some.mp hp).1
  -- the page
  obtain ⟨T₂, bs₂, live₂, hinv₂, -⟩ := h₂.kernelRun.inv
  obtain ⟨f, s₃, hcreate, brk₃, hbrk₃, hready₃⟩ := pagingCreateProcessPage_go (u := 1) hinv₂
    hfirst.ready (.inl rfl) hc hpage₂ (.inl hnone) (by decide) fun _ => by omega
  have hend₂ := hinv₂.heapEnd_eq
  have htop₂ := hfirst.ready.le
  have h₃ := h₂.processPage (.inl rfl) hc (by decide) (fun _ => .of_le (by
    have htable : growthPages sizeofPageTable 0x1000 = 3 := rfl
    unfold kernelHeapAddress at hend₂
    unfold heapMaxSize
    omega)) hcreate
  obtain ⟨hkept₃, e, he, -⟩ := pagingCreateProcessPage_stacksKept hinv₂ (.inl rfl) hc hcreate
  -- the allocation
  obtain ⟨T₃, bs₃, live₃, hinv₃, -⟩ := h₃.kernelRun.inv
  have hsize₄ : 0x200000 + brk₃ + 20 ≤ 0x800000 := by
    rcases hbrk₃ with rfl | ⟨-, hle⟩ <;> omega
  obtain ⟨s₄, halloc, brk₄, -, hready₄⟩ := hready₃.allocBytes (fun _ _ => 0) 0x200000 hinv₃ (by omega)
  have htop₃ := hready₃.le
  have hend₃ := hinv₃.heapEnd_eq
  have h₄ := h₃.alloc (.inl rfl) (.of_le (by
    have hpages : growthPages 0x200000 0 = 513 := rfl
    unfold kernelHeapAddress at hend₃
    unfold heapMaxSize
    omega)) halloc
  have ha := kallocHeapAlloc_ok hinv₃ (.inl rfl) halloc
  obtain ⟨bs₄, hinv₄⟩ := ha.inv
  have hk₃ : s₃.sys.kernelPageDirectory = s₂.sys.kernelPageDirectory := hkept₃.kernel
  have hk₄ : s₄.sys.kernelPageDirectory = s.sys.kernelPageDirectory :=
    ha.grown.kernel.trans (hk₃.trans hk₂)
  refine ⟨s₄, brk₃ + 12, ?_, ?_, ⟨e, ?_⟩, ?_⟩
  · rw [LawfulSingleton.insert_empty_eq] at h₄
    rw [hk₄]
    exact h₄
  · rw [hk₄, ← hk₂]
    exact hc
  · rw [← he]
    have hbelow : heapEnd s₄ ≤ 0x40000000 := hready₄.le.trans (by decide)
    exact (ha.aboveKept hinv₃.pages.inv le_rfl (le_max_of_le_right hbelow)).pageOf hinv₃.pages.inv
      (.inl rfl) (by decide) (by decide)
  · obtain ⟨hlow, hhigh⟩ := hinv₄.bounds List.mem_cons_self (.inl rfl)
    unfold kernelHeapAddress at hlow
    dsimp only at hlow hhigh
    omega

theorem limitedRun_contained_grown : ∃ s D own, LimitedRun (fun _ _ => 0) s D own ∧
    (∃ d ∈ D, d ≠ s.sys.kernelPageDirectory ∧ ∃ e, s.sys.pageOf d 0x40000 = some e) ∧
    0x700000 ≤ heapEnd s ∧ Contained (fun _ _ => 0) D s := by
  obtain ⟨s, ptr, h, hne, hpage, hend⟩ := exists_limitedRun
  exact ⟨s, _, _, h, ⟨_, .inl rfl, hne, hpage⟩, hend, limitedRun_contained h⟩

end

end RawOS
