import RawOS.HeapGrowths
import RawOS.Boot

/-!
# The clone of an address space

`Cloned` says what a new process is given: its own copies of the pages above 1 GB, and the kernel's
tables below. `pagingClone_cloned_iff` says when `paging_clone_page_directory_for_new_process` does
that: as long as it adds no page to the heap of the kernel above 1 GB.
-/

namespace RawOS

/-- The directories `D` and their tables are not at `t`, and no allocation of `own` is. -/
structure FreshTable (D : Set ℕ) (own : Set Live) (p : Paging) (t : ℕ) : Prop where
  heap : kernelHeapAddress ≤ t
  directory : t ∉ D
  table : ∀ d ∈ D, ∀ i < 1024, (p.directories d).tables i ≠ t
  own : ∀ l ∈ own, l.ptr ≠ t

/-- Only page `n` of `c` has the frame `f`. -/
def Alone (D : Set ℕ) (p : Paging) (c n f : ℕ) : Prop :=
  ∀ d ∈ D, ∀ k < 0x100000, ∀ entry, p.pageOf d k = some entry → entry.frameAddress20Bits = f →
    d = c ∧ k = n

/-- The directory `c` is a clone of `source`, made where the pages were `p` and the directories
`D`. -/
structure Cloned (D : Set ℕ) (own : Set Live) (source c : ℕ) (p p' : Paging) : Prop where
  new : c ∉ D
  absent : ∀ n < 0x100000, 0x40000 ≤ n → p.pageOf source n = none → p'.pageOf c n = none
  copied : ∀ n < 0x100000, 0x40000 ≤ n → ∀ entry, p.pageOf source n = some entry →
    ∃ entry', p'.pageOf c n = some entry' ∧ CopiedEntry p p' entry entry' ∧
      Alone (insert c D) p' c n entry'.frameAddress20Bits
  fresh : ∀ i < 1024, 256 ≤ i → (p'.directories c).tables i ≠ 0 →
    FreshTable D own p ((p'.directories c).tables i)
  linked : ∀ i < 256, (p'.directories c).tables i = (p'.directories source).tables i ∧
    (p'.directories c).tablesX86Representation i =
      (p'.directories source).tablesX86Representation i
  mappings : ∀ d ∈ D, ∀ n < 0x100000, 0x40000 ≤ n → p'.pageOf d n = p.pageOf d n
  contents : ∀ d ∈ D, ∀ n < 0x100000, 0x40000 ≤ n → ∀ entry, p.pageOf d n = some entry →
    p'.frames entry.frameAddress20Bits = p.frames entry.frameAddress20Bits

section

variable {uninit : Paging → Mem → ℤ} {D T T' : Set ℕ} {own : Set Live} {bs : List Block}
  {live live' : List Live} {s s' : Kernel} {p p' : Paging} {source c d n f lo : ℕ} {entry : PageEntry}

/-- The frame of a page is used, or is none that the bitmap knows. -/
theorem PagingInv.frame_used (h : PagingInv D T p) (hd : d ∈ D) (hn : n < 0x100000)
    (hpage : p.pageOf d n = some entry) : p.availableFrames.Has entry.frameAddress20Bits ∨
      availableFramesNum ≤ entry.frameAddress20Bits := by
  obtain ⟨hne, hpres, rfl⟩ := Paging.pageOf_eq_some.mp hpage
  by_cases hlt : (p.tables ((p.directories d).tables (n / 1024)) (n % 1024)).frameAddress20Bits <
      availableFramesNum
  · exact .inl (h.frames.used _ _ _ (h.inUse_linked hd (by omega) hne) (by omega) ⟨hpres, rfl⟩ hlt)
  · exact .inr (not_lt.mp hlt)

/-- What stays above keeps the pages there. -/
theorem AboveKept.pageOf (h : AboveKept lo D T p p') (hinv : PagingInv D T p) (hd : d ∈ D)
    (hn : n < 0x100000) (hlo : lo ≤ n / 1024) : p'.pageOf d n = p.pageOf d n := by
  have hi : n / 1024 < 1024 := by omega
  refine Paging.pageOf_congr (h.entries d hd _ hi hlo).1 fun hne => ?_
  rcases hinv.linked d hd _ hi hne with hT | hk
  · rw [h.tables _ hT]
  · rw [hk] at hne ⊢
    rw [h.window _ hi hlo hne]

/-- A page above 1 GB has its frame alone. -/
theorem PagingInv.alone (h : PagingInv D T p) (hc : c ∈ D) (hn : n < 0x100000) (hle : 0x40000 ≤ n)
    (hT : (p.directories c).tables (n / 1024) ∈ T) (hpage : p.pageOf c n = some entry) :
    Alone D p c n entry.frameAddress20Bits := by
  obtain ⟨hne, hpres, rfl⟩ := Paging.pageOf_eq_some.mp hpage
  intro d hd k hk entry' hpage' hframe
  obtain ⟨hne', hpres', rfl⟩ := Paging.pageOf_eq_some.mp hpage'
  obtain ⟨htable, hindex⟩ := h.frames.distinct _ _ _ _ _ (h.inUse_linked hd (by omega) hne')
    (h.inUse_linked hc (by omega) hne) (by omega) (by omega) ⟨hpres', hframe⟩ ⟨hpres, rfl⟩
  obtain ⟨rfl, hentry⟩ := h.owned c hc _ (by omega) (by omega) hT d hd _ (by omega) htable
  exact ⟨rfl, by omega⟩

/-- A page of the clone. -/
theorem EntryCopied.pageOf (h : EntryCopied T T' source c (n / 1024) p p')
    (hpage : p.pageOf source n = some entry) (h0 : (p'.directories c).tables (n / 1024) ≠ 0) :
    ∃ entry', p'.pageOf c n = some entry' ∧ CopiedEntry p p' entry entry' := by
  obtain ⟨hne, hpres, rfl⟩ := Paging.pageOf_eq_some.mp hpage
  have hcopied := h.pages hne (n % 1024) (Nat.mod_lt _ (by decide)) hpres
  refine ⟨_, Paging.pageOf_eq_some.mpr ⟨h0, ?_, rfl⟩, hcopied⟩
  rw [hcopied.eq]
  exact hpres

/-- A page that the source does not have. -/
theorem EntryCopied.pageOf_none (h : EntryCopied T T' source c (n / 1024) p p')
    (hpage : p.pageOf source n = none) : p'.pageOf c n = none := by
  by_cases h0 : (p.directories source).tables (n / 1024) = 0
  · exact Paging.pageOf_eq_none (.inl (h.absent h0))
  · have hpres : (p.tables ((p.directories source).tables (n / 1024)) (n % 1024)).present = false := by
      rw [← Bool.not_eq_true]
      intro hpres
      rw [Paging.pageOf_eq_some.mpr ⟨h0, hpres, rfl⟩] at hpage
      exact Option.some_ne_none _ hpage
    refine Paging.pageOf_eq_none (.inr ?_)
    rw [h.rest h0 _ (Nat.mod_lt _ (by decide)) hpres]
    rfl

/-- The table of a clone is new. -/
theorem DirectoryCloned.freshTable (h : DirectoryCloned D T live source s c T' live' s')
    (hinv : KernelInv D T bs live s) (hown : OwnApart D T live own) {t : ℕ} (ht : t ∈ T')
    (htT : t ∉ T) : FreshTable D own s.sys t := by
  obtain ⟨bs', hinv'⟩ := h.inv
  have hle := (hinv'.pages.inv.heap t ht).2.1
  have hnew := (h.fresh.2 t ht).resolve_left htT
  refine ⟨hle, fun hd => ?_, fun d hd i hi heq => htT ?_, fun l hl => hnew l (hown.live l hl)⟩
  · by_cases hk : t = s.sys.kernelPageDirectory
    · exact absurd hle (not_le.mpr (hk ▸ hinv.below))
    · exact hnew _ (hinv.directories t hd hk) rfl
  · have h0 : (s.sys.directories d).tables i ≠ 0 := by
      rw [heq]
      unfold kernelHeapAddress at hle
      omega
    have huse := hinv.pages.inv.inUse_linked hd hi h0
    rw [heq] at huse
    exact (hinv.pages.inv.inUse_bounds huse).2.2.2.mpr hle

/-- Where the heap does not grow above 1 GB. -/
theorem DirectoryCloned.cloned (h : DirectoryCloned D T live source s c T' live' s')
    (hinv : KernelInv D T bs live s) (hown : OwnApart D T live own)
    (hend : heapEnd s' ≤ max (heapEnd s) 0x40000000) : Cloned D own source c s.sys s'.sys := by
  obtain ⟨bs', hinv'⟩ := h.inv
  obtain ⟨habove, hcopied⟩ := h.kept 256 le_rfl hend
  have hentry : ∀ n < 0x100000, 0x40000 ≤ n →
      EntryCopied T T' source c (n / 1024) s.sys s'.sys := fun n hn hle =>
    hcopied _ (by omega) (by omega)
  have hne : ∀ n < 0x100000, 0x40000 ≤ n → ∀ entry, s.sys.pageOf source n = some entry →
      (s'.sys.directories c).tables (n / 1024) ∈ T' := fun n hn hle entry hpage =>
    ((hentry n hn hle).fresh (Paging.pageOf_eq_some.mp hpage).1).1
  refine ⟨h.new, fun n hn hle => (hentry n hn hle).pageOf_none, fun n hn hle entry hpage => ?_,
    fun i hi hle h0 => ?_, h.linked, fun d hd n hn hle => ?_, fun d hd n hn hle entry hpage => ?_⟩
  · have hT := hne n hn hle entry hpage
    have h0 : (s'.sys.directories c).tables (n / 1024) ≠ 0 :=
      (hinv'.pages.inv.inUse_bounds (.inl hT)).1
    obtain ⟨entry', hpage', hcopy⟩ := (hentry n hn hle).pageOf hpage h0
    exact ⟨entry', hpage', hcopy, hinv'.pages.inv.alone (.inl rfl) hn hle hT hpage'⟩
  · have hsrc : (s.sys.directories source).tables i ≠ 0 := fun h1 =>
      h0 ((hcopied i hi hle).absent h1)
    obtain ⟨ht, htT⟩ := (hcopied i hi hle).fresh hsrc
    exact h.freshTable hinv hown ht htT
  · exact habove.pageOf hinv.pages.inv hd hn (by omega)
  · exact habove.frames _ (hinv.pages.inv.frame_used hd hn hpage)

/-- Where it does, the kernel has a page that it did not have. -/
theorem DirectoryCloned.not_cloned (h : DirectoryCloned D T live source s c T' live' s')
    (hinv : KernelInv D T bs live s) (hend : max (heapEnd s) 0x40000000 < heapEnd s') :
    ¬ Cloned D own source c s.sys s'.sys := by
  intro hcloned
  obtain ⟨bs', hinv'⟩ := h.inv
  have hmod : heapEnd s' % 4096 = 0 := hinv'.heap.heap.shape.size_mod
  have hle := hinv'.pages.le
  unfold kernelStackFirstPage kernelStackAddress kernelStackReservedPages at hle
  obtain ⟨n, hn⟩ : ∃ n, n = max (heapEnd s) 0x40000000 / 4096 := ⟨_, rfl⟩
  have hlo : heapEnd s / 4096 ≤ n ∧ 0x40000 ≤ n ∧ n < heapEnd s' / 4096 := by omega
  obtain ⟨f, hf⟩ := hinv'.pages.mapped n (by unfold kernelHeapAddress; omega) hlo.2.2
  have hpage : s'.sys.pageOf s.sys.kernelPageDirectory n = some _ :=
    Paging.pageOf_eq_some.mpr ⟨h.kernel ▸ hf.table, h.kernel ▸ hf.maps.present, rfl⟩
  rw [hcloned.mappings _ hinv.pages.inv.kernel n (by omega) hlo.2.1] at hpage
  obtain ⟨hne, hpres, -⟩ := Paging.pageOf_eq_some.mp hpage
  exact h.absent n hlo.1 hlo.2.2 _ ⟨hne, hpres, rfl⟩

/-- In every state that the kernel reaches, a directory is cloned if and only if the requests of
the call add pages only in states in which the heap with a page more ends at or below 1 GB. -/
theorem pagingClone_cloned_iff (h : KernelRun uninit s D own) (hsource : source ∈ D)
    (hrun : pagingClonePageDirectoryForNewProcess uninit s source = .ok (c, s')) :
    Cloned D own source c s.sys s'.sys ↔
      CloneGrowths uninit (fun t => heapEnd t + pageSize ≤ 0x40000000) s source := by
  obtain ⟨T, bs, live, hinv, hown⟩ := h.inv
  obtain ⟨T', live', hc⟩ := pagingClone_ok hinv hsource hrun
  rw [← hinv.clone_le_iff hsource hrun]
  constructor
  · intro hcloned
    by_contra hend
    exact hc.not_cloned hinv (not_le.mp hend) hcloned
  · exact hc.cloned hinv hown

/-! ## The first process -/

/-- The kernel with one process, whose directory is a clone of the kernel's. -/
structure FirstProcess (uninit : Paging → Mem → ℤ) (limit reserve brk c : ℕ) (s : Kernel) : Prop where
  run : KernelRun uninit s {c, s.sys.kernelPageDirectory} ∅
  processes : s.sys.processes = [⟨0, 0, some c⟩]
  ready : KernelReady 0x800000 limit reserve brk s
  tables : TablesIn {766, 767, 768} 0x800000 s.sys.kernelPageDirectory s.sys

theorem FirstProcess.ringAssigned {limit reserve brk : ℕ}
    (h : FirstProcess uninit limit reserve brk c s) :
    RingAssigned s.sys := by
  unfold RingAssigned
  rw [h.processes]
  refine ⟨List.cons_ne_nil _ _, fun q hq => ?_⟩
  rw [List.mem_singleton.mp hq]
  exact Option.some_ne_none c

/-- The first directory of a process that is made. -/
theorem KernelBooted.clone {limit reserve : ℕ} (h : KernelBooted uninit limit reserve s)
    (hreserve : 3072 ≤ reserve) :
    ∃ s', pagingClonePageDirectoryForNewProcess uninit s s.sys.kernelPageDirectory =
        .ok (0x511000, s') ∧ heapEnd s' ≤ 0x800000 ∧
      ∃ brk ≤ 0x519200, FirstProcess uninit limit (reserve - 3072) brk 0x511000
        { s' with sys := { s'.sys with processes := [⟨0, 0, some 0x511000⟩] } } := by
  obtain ⟨bs, hinv⟩ := h.inv
  have hk : s.sys.kernelPageDirectory ∈ ({s.sys.kernelPageDirectory} : Set ℕ) := rfl
  have hcard : ({766, 767, 768} : Finset ℕ).card = 3 := rfl
  obtain ⟨s', hrun, brk, hbrk, hready⟩ := pagingClone_go hinv h.ready hk h.tables
    (show 1024 * 3 ≤ reserve from hreserve) (by decide)
  rw [hcard] at hbrk hready
  have hc : roundUp (0x510015 + 12) = 0x511000 := by decide
  rw [hc] at hrun
  obtain ⟨T', live', hd⟩ := pagingClone_ok hinv hk hrun
  have hle : heapEnd s' ≤ 0x800000 := hready.le
  obtain ⟨habove, -⟩ := hd.kept 256 le_rfl (le_max_of_le_right (hle.trans (by decide)))
  refine ⟨s', hrun, hle, brk, hbrk.trans (by decide), ?_, rfl, hready.setProcesses le_rfl _, ?_⟩
  · show KernelRun uninit _ {0x511000, s'.sys.kernelPageDirectory} ∅
    rw [hd.kernel]
    refine .ring (h.run.clone hk hrun) fun r hr d hd => .inl ?_
    rw [List.mem_singleton.mp hr] at hd
    exact (Option.some.inj hd).symm
  · intro i hi hle' hor
    refine h.tables i hi hle' (hor.imp_left fun hne => ?_)
    have hsame : (s'.sys.directories s'.sys.kernelPageDirectory).tables i =
        (s.sys.directories s.sys.kernelPageDirectory).tables i := by
      rw [hd.kernel]
      exact (habove.entries _ hk i hi hle').1
    exact hsame ▸ hne

/-- A kernel whose heap ends at 1 GB, full. -/
theorem FirstProcess.fill {reserve brk : ℕ} (h : FirstProcess uninit 0x40400000 reserve brk c s)
    (hle : heapEnd s ≤ 0x800000) (hbrk : brk ≤ 0x600000) :
    ∃ size s', kallocAlloc uninit s size = .ok (brk + 12, s') ∧ heapEnd s' = 0x40000000 ∧
      KernelRun uninit s' {c, s.sys.kernelPageDirectory} {⟨brk + 12, size, 0⟩} ∧
      s'.sys.kernelPageDirectory = s.sys.kernelPageDirectory ∧ RingAssigned s'.sys ∧
      KernelReady 0x40400000 0x40400000 reserve 0x40000000 s' ∧
      TablesIn {256, 766, 767, 768} 0x40400000 s.sys.kernelPageDirectory s'.sys := by
  obtain ⟨T, bs, live, hinv, -⟩ := h.run.inv
  have hready := h.ready.setTop h.ringAssigned (hle.trans (by decide)) (by decide) le_rfl
  obtain ⟨size, hsize⟩ : ∃ size, brk + 12 + size + 8 = 0x40000000 := ⟨0x40000000 - 20 - brk, by omega⟩
  have hplace : BumpPlace brk size 0 (brk + 12) := bumpPlace_zero (by omega)
  obtain ⟨s', hrun, hready', hend⟩ := hready.alloc uninit hinv hplace (by omega)
  have hround : roundUp 0x40000000 = 0x40000000 := by decide
  rw [hsize, hround, max_eq_right (hle.trans (by decide))] at hend
  have hbump : bumpEnd (brk + 12) size 0x40000000 = 0x40000000 := by
    refine if_neg ?_
    omega
  rw [hend, hbump] at hready'
  have ha := kallocHeapAlloc_ok hinv (.inl rfl) hrun
  refine ⟨size, s', hrun, hend, ?_, ha.grown.kernel, ?_, hready', ?_⟩
  · have hnew := h.run.alloc (.inl rfl) hrun
    rwa [LawfulSingleton.insert_empty_eq] at hnew
  · unfold RingAssigned
    rw [ha.grown.processes]
    exact h.ringAssigned
  · have hstart : TablesIn {256, 766, 767, 768} 0x40400000 s.sys.kernelPageDirectory s.sys := by
      intro i hi hle' hor
      rw [Finset.mem_insert]
      rcases hor with hne | hlt
      · exact .inr (h.tables i hi hle' (.inl hne))
      · exact .inl (by omega)
    exact hstart.grown ha.grown hready'.le

/-- The directory of the kernel is cloned where its heap ends at 1 GB. -/
theorem not_cloned_fullGigabyte : ∃ s c s' own,
    KernelRun (fun _ _ => 0) s {0x511000, s.sys.kernelPageDirectory} own ∧ RingAssigned s.sys ∧
    pagingClonePageDirectoryForNewProcess (fun _ _ => 0) s s.sys.kernelPageDirectory = .ok (c, s') ∧
    ¬ Cloned {0x511000, s.sys.kernelPageDirectory} own s.sys.kernelPageDirectory c s.sys s'.sys := by
  have hlimit : 0x40400000 ≤ kernelStackFirstPage * 4096 := by decide
  obtain ⟨s₀, hboot⟩ := exists_kernelBooted (fun _ _ => 0)
    (show 0x800000 ≤ 0x40400000 by decide) hlimit (by decide)
    (show 7168 + (0x40400000 - kernelHeapAddress) / 4096 * 2 ≤ 783360 by decide)
  obtain ⟨s₁, -, hle, brk, hbrk, hfirst⟩ := hboot.clone (by decide)
  obtain ⟨size, s, hrun, hend, hreached, hkernel, hring, hready, htables⟩ :=
    hfirst.fill hle (hbrk.trans (by decide))
  rw [← hkernel] at hreached htables
  obtain ⟨T, bs, live, hinv, -⟩ := hreached.inv
  have hk : s.sys.kernelPageDirectory ∈ ({0x511000, s.sys.kernelPageDirectory} : Set ℕ) := .inr rfl
  have hcard : ({256, 766, 767, 768} : Finset ℕ).card = 4 := rfl
  obtain ⟨s', hclone, -⟩ := pagingClone_go hinv hready hk htables
    (show 1024 * 4 ≤ 4096 from le_rfl) (by decide)
  obtain ⟨T', live', hd⟩ := pagingClone_ok hinv hk hclone
  refine ⟨s, _, s', _, hreached, hring, hclone, hd.not_cloned hinv ?_⟩
  -- the directory of the clone lies above 1 GB
  obtain ⟨bs', hinv'⟩ := hd.inv
  have hlive : directoryAt (roundUp (0x40000000 + 12)) ∈ live' := by
    refine hinv'.directories _ (.inl rfl) ?_
    rw [hd.kernel]
    rintro heq
    exact hd.new (heq ▸ hk)
  obtain ⟨-, hfits⟩ := hinv'.bounds hlive (.inr (by decide))
  rw [hend]
  exact lt_of_lt_of_le (by decide) hfits

theorem pagingClone_cloned_booted : ∃ s c s',
    pagingClonePageDirectoryForNewProcess (fun _ _ => 0) s s.sys.kernelPageDirectory = .ok (c, s') ∧
    Cloned {s.sys.kernelPageDirectory} ∅ s.sys.kernelPageDirectory c s.sys s'.sys := by
  obtain ⟨s, hboot⟩ := exists_kernelBooted (fun _ _ => 0) (show 0x800000 ≤ 0x800000 by decide)
    (by decide) (by decide) (show 3072 + (0x800000 - kernelHeapAddress) / 4096 * 2 ≤ 783360 by decide)
  obtain ⟨s', hclone, hle, -⟩ := hboot.clone le_rfl
  obtain ⟨bs, hinv⟩ := hboot.inv
  exact ⟨s, _, s', hclone, (pagingClone_cloned_iff hboot.run rfl hclone).mpr
    ((hinv.clone_le_iff rfl hclone).mp (le_max_of_le_right (hle.trans (by decide))))⟩

end

end RawOS
