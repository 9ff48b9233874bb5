import RawOS.HeapBytes
import RawOS.HeapLimit
import RawOS.ProcessRun

/-!
# The first processes

With an initial ramdisk that holds an image without sections, `process_init` and `process_fork`
return on a machine that has all its memory: there are runs with one process, and with two.
-/

namespace RawOS

section

variable {uninit : Paging → Mem → ℤ} {env : ProcessEnv} {D T : Set ℕ} {own : Set Live}
  {bs : List Block} {live : List Live} {s s' s₁ : Kernel} {p p' : Paging} {m m' : Mem}
  {c d i k n t u f x : ℕ} {top limit reserve brk : ℕ} {l l' : Loader Kernel} {bitmap : Bitmap}

/-! ## One page -/

/-- Where a page is created the others of the directory stay. -/
theorem PageMapped.others (h : PageMapped d n u s f bitmap s') (hinv : PagingInv D T s.sys)
    (hd : d ∈ D) (hn : n < 0x100000) (hle : 0x40000 ≤ n) (hk : k < 0x100000) (hkn : k ≠ n) :
    s'.sys.pageOf d k = s.sys.pageOf d k := by
  obtain ⟨hne, -, -, rfl⟩ := h
  refine Paging.pageOf_congr rfl fun _ => Paging.setEntry_of_ne ?_
  by_contra hsame
  obtain ⟨ht, hj⟩ := not_or.mp hsame
  rw [not_not] at ht hj
  have hidx := hinv.tables_inj hd (show n / 1024 < 1024 by omega) (by omega)
    (show k / 1024 < 1024 by omega) hne ht
  omega

/-- Where a table is created the pages stay. -/
theorem TableLinked.pageOf (hl : TableLinked D T live d i s t s₁ x) (hinv : KernelInv D T bs live s)
    (hd : d ∈ D) (hnone : (s.sys.directories d).tables i = 0) (hend : heapEnd s₁ ≤ 0x40000000)
    (hk : k < 0x100000) (hle : 0x40000 ≤ k) :
    ((s₁.sys.zeroTable t).setDirectoryEntry d i t x).pageOf d k = s.sys.pageOf d k := by
  obtain ⟨bs₁, hinv₁⟩ := hl.alloc.inv
  have habove : AboveKept 256 D T s.sys s₁.sys :=
    hl.alloc.aboveKept hinv.pages.inv le_rfl (le_max_of_le_right hend)
  have hkept := habove.pageOf hinv.pages.inv hd hk (show 256 ≤ k / 1024 by omega)
  by_cases hki : k / 1024 = i
  · -- no page of a new table is present
    have hold : s.sys.pageOf d k = none := by
      apply Paging.pageOf_eq_none
      rw [hki]
      exact .inl hnone
    have hnew : ((s₁.sys.zeroTable t).setDirectoryEntry d i t x).pageOf d k = none := by
      apply Paging.pageOf_eq_none
      rw [hki, Paging.setDirectoryEntry_tables_self]
      show t = 0 ∨ ((s₁.sys.zeroTable t).tables t (k % 1024)).present = false
      rw [Paging.zeroTable_self]
      exact .inr rfl
    rw [hold, hnew]
  · rw [← hkept]
    refine Paging.pageOf_congr (Paging.setDirectoryEntry_tables_of_ne (.inr hki)) fun hne => ?_
    refine congrFun (Paging.zeroTable_of_ne ?_) _
    rintro heq
    exact hl.unused (heq ▸ hinv₁.pages.inv.inUse_linked hd (by omega) hne)

/-- Page `n` of `d` is new, and the other pages from 1 GB on stay. -/
structure PageOnly (d n : ℕ) (p p' : Paging) : Prop where
  new : p.pageOf d n = none
  present : p'.pageOf d n ≠ none
  others : ∀ k < 0x100000, 0x40000 ≤ k → k ≠ n → p'.pageOf d k = p.pageOf d k

theorem pagingCreateProcessPage_only (h : KernelInv D T bs live s) (hd : d ∈ D)
    (hk : d ≠ s.sys.kernelPageDirectory) (hn : n < 0x100000) (hle : 0x40000 ≤ n)
    (hrun : pagingCreateProcessPageWithAnyFrame uninit s d n u = .ok (f, s'))
    (hend : heapEnd s' ≤ 0x40000000) : PageOnly d n s.sys s'.sys := by
  obtain ⟨s₁, T', bs', live', bitmap, hinv₁, hm, -, hcase⟩ := pagingCreateProcessPage_ok h hd hk hrun
  have hold : ∀ k < 0x100000, 0x40000 ≤ k → s₁.sys.pageOf d k = s.sys.pageOf d k := by
    intro k hk hle'
    rcases hcase with ⟨rfl, -⟩ | ⟨hnone, t, s₀, x, hl, -, -, rfl⟩
    · rfl
    · refine hl.pageOf h hd hnone ?_ hk hle'
      have hend₀ : heapEnd s' = heapEnd s₀ := by rw [hm.result]; rfl
      omega
  obtain ⟨e, hpage, -⟩ := hm.pageOf
  refine ⟨?_, ?_, fun k hk hle' hkn => ?_⟩
  · rw [← hold n hn hle]
    exact Paging.pageOf_eq_none (.inr hm.new)
  · rw [hpage]
    exact Option.some_ne_none e
  · rw [hm.others hinv₁.pages.inv hd hn hle hk hkn, hold k hk hle']

/-- The pages and tables above 1 GB of a process that gets a page, in a small heap. -/
structure PageAlone (d n : ℕ) (p p' : Paging) : Prop where
  pages : ∀ k < 0x100000, 0x40000 ≤ k → k ≠ n → p'.pageOf d k = p.pageOf d k
  table : (p'.directories d).tables (n / 1024) ≠ 0
  tables : ∀ i < 1024, 256 ≤ i → i ≠ n / 1024 →
    (p'.directories d).tables i = (p.directories d).tables i

theorem pagingCreateProcessPage_alone (h : KernelInv D T bs live s) (hd : d ∈ D)
    (hk : d ≠ s.sys.kernelPageDirectory) (hn : n < 0x100000) (hle : 0x40000 ≤ n)
    (hrun : pagingCreateProcessPageWithAnyFrame uninit s d n u = .ok (f, s'))
    (hend : heapEnd s' ≤ 0x800000) : PageAlone d n s.sys s'.sys := by
  have hsize : s'.heap.size ≤ heapMaxSize := by
    obtain ⟨s₁, T', bs', live', b, -, -, hinv', -⟩ := pagingCreateProcessPage_ok h hd hk hrun
    rw [hinv'.heapEnd_eq] at hend
    unfold heapMaxSize
    omega
  have hentries := pagingCreateProcessPage_ownEntriesKept h hd hk hrun hsize
  have honly := pagingCreateProcessPage_only h hd hk hn hle hrun (hend.trans (by decide))
  refine ⟨honly.others, ?_, fun i hi hle' hne =>
    (hentries d hd i hi hle' fun heq => hne heq.2).1⟩
  obtain ⟨e, he⟩ := Option.ne_none_iff_exists'.mp honly.present
  exact (Paging.pageOf_eq_some.mp he).1

/-! ## A kernel stack -/

/-- The number of tables for a kernel stack that `d` has. -/
def stackTables (p : Paging) (d : ℕ) : ℕ :=
  (({958, 959, 960} : Finset ℕ).filter fun i => (p.directories d).tables i ≠ 0).card

theorem stackTables_le (p : Paging) (d : ℕ) : stackTables p d ≤ 3 := Finset.card_filter_le ..

theorem InKernelStack.table (hn : InKernelStack n) : n / 1024 ∈ ({958, 959, 960} : Finset ℕ) := by
  obtain ⟨h₁, h₂⟩ := hn.bounds
  simp only [Finset.mem_insert, Finset.mem_singleton]
  omega

theorem stackTables_lt (hn : InKernelStack n) (hnone : (p.directories d).tables (n / 1024) = 0) :
    stackTables p d < 3 :=
  Finset.card_lt_card (Finset.filter_ssubset.mpr ⟨_, hn.table, not_not.mpr hnone⟩)

theorem PageAlone.stackTables_mono (h : PageAlone d n p p') : stackTables p d ≤ stackTables p' d := by
  refine Finset.card_le_card fun i hi => ?_
  rw [Finset.mem_filter] at hi ⊢
  refine ⟨hi.1, ?_⟩
  by_cases hin : i = n / 1024
  · rw [hin]
    exact h.table
  · have hmem := hi.1
    simp only [Finset.mem_insert, Finset.mem_singleton] at hmem
    rw [h.tables i (by omega) (by omega) hin]
    exact hi.2

theorem PageAlone.stackTables_succ (h : PageAlone d n p p') (hn : InKernelStack n)
    (hnone : (p.directories d).tables (n / 1024) = 0) : stackTables p d + 1 ≤ stackTables p' d := by
  unfold stackTables
  rw [← Finset.card_insert_of_notMem (a := n / 1024)
    (by rw [Finset.mem_filter]; exact fun hi => hi.2 hnone)]
  refine Finset.card_le_card fun i hi => ?_
  rw [Finset.mem_insert] at hi
  rw [Finset.mem_filter]
  rcases hi with rfl | hi
  · exact ⟨hn.table, h.table⟩
  · rw [Finset.mem_filter] at hi
    refine ⟨hi.1, ?_⟩
    by_cases hin : i = n / 1024
    · rw [hin]
      exact h.table
    · have hmem := hi.1
      simp only [Finset.mem_insert, Finset.mem_singleton] at hmem
      rw [h.tables i (by omega) (by omega) hin]
      exact hi.2

/-- The loop that creates the kernel stack of `d` after `n` pages. -/
structure StackReady (env : ProcessEnv) (D : Set ℕ) (own : Set Live) (d : ℕ) (N : Finset ℕ)
    (limit reserve brk n : ℕ) (s : Kernel) (l : Loader Kernel) : Prop where
  kept : LoadKept env D own s l
  ready : ∃ brk' ≤ brk + 8231 * stackTables l.pages.sys d,
    KernelReady 0x800000 limit (reserve - n) brk' l.pages
  absent : ∀ k, InKernelStack k → k ≤ kernelStackLastPage - n → l.pages.sys.pageOf d k = none
  tables : TablesIn N 0x800000 d l.pages.sys

theorem StackReady.step {N : Finset ℕ} (h : StackReady env D own d N limit reserve brk n s l)
    (hd : d ∈ D) (hk : d ≠ s.sys.kernelPageDirectory) (hlow : NoTablesAbove s.sys) (hn : n < 2048)
    (hN : {958, 959, 960} ⊆ N) (hreserve : 2048 ≤ reserve) (hfits : brk + 24693 ≤ 0x800000) :
    ∃ l', createProcessPage (loaderEnv env d) l (kernelStackLastPage - n) 0 = .ok l' ∧
      StackReady env D own d N limit reserve brk (n + 1) s l' := by
  obtain ⟨hkept, ⟨brk₁, hbrk₁, hr⟩, habsent, htables⟩ := h
  obtain ⟨T, bs, live, hinv, -⟩ := hkept.kept.run.inv
  obtain ⟨j, hj⟩ : ∃ j, j = kernelStackLastPage - n := ⟨_, rfl⟩
  have hlast : kernelStackLastPage = 0xF0000 := rfl
  have hin : InKernelStack j := by
    unfold InKernelStack
    omega
  obtain ⟨hlo, hhi⟩ := hin.bounds
  have hk' : d ≠ l.pages.sys.kernelPageDirectory := by
    rw [hkept.kept.keeps.kernel]
    exact hk
  have hlow' := hkept.kept.keeps.noTables hlow
  have hown : (l.pages.sys.directories d).tables (j / 1024) = 0 ∨
      (l.pages.sys.directories d).tables (j / 1024) ∈ T := by
    by_cases hne : (l.pages.sys.directories d).tables (j / 1024) = 0
    · exact .inl hne
    · refine .inr ((hinv.pages.inv.linked d hd _ (by omega) hne).resolve_right fun heq => hne ?_)
      rw [heq]
      exact hlow' _ (by omega) (by omega)
  rw [← hj] at habsent ⊢
  obtain ⟨f, s', hrun, brk', hbrk', hr'⟩ :
    ∃ f s', pagingCreateProcessPageWithAnyFrame env.uninit l.pages
      d j 0 = .ok (f, s') ∧ _ :=
    pagingCreateProcessPage_go hinv hr hd hk' (habsent j hin le_rfl) hown (by omega) fun hnone => by
      have hlt := stackTables_lt hin hnone
      omega
  obtain ⟨l', hl'⟩ : ∃ l' : Loader Kernel, l' = { l with
      pages := s', mem := store8 l.mem (j * 0x1000) 0xAB } := ⟨_, rfl⟩
  have hcreate : createProcessPage (loaderEnv env d) l j 0 = .ok l' := by
    exact loaderEnv_createPage_ok.mpr ⟨f, s', hrun, hl'⟩
  have hpages : l'.pages = s' := by rw [hl']
  have halone := pagingCreateProcessPage_alone hinv hd hk' (show j < 0x100000 by omega) (by omega) hrun
    hr'.le
  rw [← hpages] at halone hr'
  obtain ⟨hkept', -⟩ := hkept.create hd hk (show j < 0x100000 by omega) hcreate
  refine ⟨l', hcreate, hkept', ⟨brk', ?_, ?_⟩, fun k hkin hle => ?_, ?_⟩
  · have hmono := halone.stackTables_mono
    rcases hbrk' with rfl | ⟨hnone, hle⟩
    · omega
    · have hsucc := halone.stackTables_succ hin hnone
      omega
  · rw [Nat.sub_sub] at hr'
    exact hr'
  · obtain ⟨h₁, h₂⟩ := hkin.bounds
    rw [halone.pages k (by omega) (by omega) (by omega)]
    exact habsent k hkin (by omega)
  · intro i hi hle hor
    by_cases hij : i = j / 1024
    · rw [hij]
      exact hN hin.table
    · rw [halone.tables i hi hle hij] at hor
      exact htables i hi hle hor

/-- The kernel stack of a process that has none of its pages can be created. -/
theorem createKernelStack_go {N : Finset ℕ} (h : LoadKept env D own s l) (hd : d ∈ D)
    (hk : d ≠ s.sys.kernelPageDirectory) (hlow : NoTablesAbove s.sys)
    (hr : KernelReady 0x800000 limit reserve brk l.pages)
    (habsent : ∀ k, InKernelStack k → l.pages.sys.pageOf d k = none)
    (hN : {958, 959, 960} ⊆ N) (htables : TablesIn N 0x800000 d l.pages.sys) (hreserve : 2048 ≤ reserve)
    (hfits : brk + 24693 ≤ 0x800000) :
    ∃ l', createStackPages (loaderEnv env d) kernelStackAddressInProcessAddressSpace 0 l
        kernelStackReservedPagesInProcessAddressSpace = .ok l' ∧
      StackReady env D own d N limit reserve brk 2048 s l' := by
  have hloop : ∀ n ≤ 2048, ∃ l', createStackPages (loaderEnv env d)
      kernelStackAddressInProcessAddressSpace 0 l n = .ok l' ∧
      StackReady env D own d N limit reserve brk n s l' := by
    intro n
    induction n with
    | zero =>
      exact fun _ => ⟨l, rfl, h, ⟨brk, Nat.le_add_right _ _, hr⟩, fun k hk _ => habsent k hk, htables⟩
    | succ n ih =>
      intro hn
      obtain ⟨l₁, hrun, h₁⟩ := ih (by omega)
      obtain ⟨l', hcreate, h'⟩ := h₁.step hd hk hlow (by omega) hN hreserve hfits
      refine ⟨l', ?_, h'⟩
      have haddr : kernelStackAddressInProcessAddressSpace / 0x1000 = 0xF0000 := rfl
      have hpage : u32Sub (kernelStackAddressInProcessAddressSpace / 0x1000) n =
          kernelStackLastPage - n := by
        rw [haddr, u32Sub_of_le (by omega) (by omega)]
        rfl
      rw [createStackPages, hrun, ok_bind, hpage]
      exact hcreate
  exact hloop 2048 le_rfl

/-! ## An image without sections -/

/-- A header with the load address `0x40000000` and a stack of one page. -/
def emptyImage : Mem := fun x =>
  [0x52, 0x41, 0x57, 0x58, 0, 0, 0, 0, 1, 0, 0, 0, 0, 0, 0, 0x40, 0, 0, 0, 0, 0, 0x10, 0, 0, 0, 0, 0,
    0].getD x 0

theorem fileByte_emptyImage {data : Mem} (h : ∀ x < 28, data x = emptyImage x) (hx : x < 28) :
    fileByte data x = emptyImage x := by
  unfold fileByte
  rw [u32_of_lt (by omega)]
  exact h x hx

theorem file32_emptyImage {data : Mem} (h : ∀ x < 28, data x = emptyImage x) (hx : x + 4 ≤ 28) :
    file32 data x = load32 emptyImage x := by
  unfold file32 load32
  rw [fileByte_emptyImage h (by omega), fileByte_emptyImage h (by omega),
    fileByte_emptyImage h (by omega), fileByte_emptyImage h (by omega)]

theorem emptyImage_accepted {data : Mem} (h : ∀ x < 28, data x = emptyImage x) :
    checkHeader data 28 = .ok () ∧ headerSectionCount data = 0 := by
  have hcount : headerSectionCount data = 0 := file32_emptyImage h (by decide)
  have hload : headerLoadAddress data = 0x40000000 := file32_emptyImage h (by decide)
  have hflags : headerFlags data = 1 := file32_emptyImage h (by decide)
  have hversion : headerVersion data = 0 := by
    unfold headerVersion file16 load16
    rw [fileByte_emptyImage h (by decide), fileByte_emptyImage h (by decide)]
    rfl
  refine ⟨?_, hcount⟩
  unfold checkHeader
  rw [hcount, hload, hflags, hversion, fileByte_emptyImage h (by decide),
    fileByte_emptyImage h (by decide), fileByte_emptyImage h (by decide),
    fileByte_emptyImage h (by decide)]
  rfl

theorem loadSections_emptyImage {e : LoaderEnv Kernel} {rli : RawxLoadInformation}
    (h : ∀ x < 28, l.data x = emptyImage x) : loadSections e sectionFuel 0 rli l = .ok (rli, l) := by
  obtain ⟨-, hcount⟩ := emptyImage_accepted h
  rw [show sectionFuel = 4294967295 + 1 from rfl, loadSections, hcount, if_neg (Nat.lt_irrefl 0)]

/-- The load of such an image creates the kernel stack alone. -/
theorem rawxLoad_emptyImage_eq {e : LoaderEnv Kernel} (h : ∀ x < 28, l.data x = emptyImage x) :
    rawxLoad e (toS32 28) false true l =
      createStackPages e kernelStackAddressInProcessAddressSpace 0 l
        kernelStackReservedPagesInProcessAddressSpace >>= fun l' =>
      .ok (⟨none, none, none, some (u32 (headerLoadAddress l'.data + headerEntryPointOffset l'.data))⟩,
        l') := by
  obtain ⟨hheader, -⟩ := emptyImage_accepted h
  have hlength : toS32 28 = 28 := rfl
  unfold rawxLoad createStack createKernelStack
  rw [hlength, hheader, ok_bind, loadSections_emptyImage h, ok_bind]
  dsimp only
  rw [if_neg Bool.false_ne_true, ok_bind]
  dsimp only
  rw [if_pos rfl]
  rfl

theorem rawxLoad_emptyImage {e : LoaderEnv Kernel} (h : ∀ x < 28, l.data x = emptyImage x)
    (hrun : createStackPages e kernelStackAddressInProcessAddressSpace 0 l
      kernelStackReservedPagesInProcessAddressSpace = .ok l') :
    ∃ rli eip, rawxLoad e (toS32 28) false true l = .ok (rli, l') ∧ rli.entrypoint = some eip := by
  rw [rawxLoad_emptyImage_eq h, hrun]
  exact ⟨_, _, rfl, rfl⟩

/-! ## Below 8 MB -/

/-- The kernel can serve requests below 8 MB, for the process with the directory `d`, whose tables
above 1 GB are those of `N`. -/
structure SpaceReady (uninit : Paging → Mem → ℤ) (D : Set ℕ) (own : Set Live) (d : ℕ) (N : Finset ℕ)
    (limit reserve brk : ℕ) (s : Kernel) : Prop where
  run : KernelRun uninit s D own
  ready : KernelReady 0x800000 limit reserve brk s
  tables : TablesIn N 0x800000 d s.sys
  low : NoTablesAbove s.sys

/-- The pages above 1 GB of the directories `D` and the bytes of `own` stay. -/
structure Quiet (D : Set ℕ) (own : Set Live) (s s' : Kernel) : Prop where
  kernel : s'.sys.kernelPageDirectory = s.sys.kernelPageDirectory
  pages : ∀ d ∈ D, ∀ k < 0x100000, 0x40000 ≤ k → s'.sys.pageOf d k = s.sys.pageOf d k
  memory : ∀ l ∈ own, l.Fits → ∀ x ∈ l.range, s'.mem x = s.mem x

variable {D' : Set ℕ} {own' : Set Live} {s'' : Kernel} {N : Finset ℕ} {size source : ℕ}
  {q : List Process}

theorem Quiet.trans (h : Quiet D own s s') (h' : Quiet D' own' s' s'') (hD : D ⊆ D')
    (hown : own ⊆ own') : Quiet D own s s'' where
  kernel := h'.kernel.trans h.kernel
  pages := fun d hd k hk hle => (h'.pages d (hD hd) k hk hle).trans (h.pages d hd k hk hle)
  memory := fun l hl hfits x hx => (h'.memory l (hown hl) hfits x hx).trans (h.memory l hl hfits x hx)

/-- The ring does not matter. -/
theorem Quiet.ring (h : Quiet D own s s') (q : List Process) :
    Quiet D own s { s' with sys := { s'.sys with processes := q } } := ⟨h.kernel, h.pages, h.memory⟩

theorem SpaceReady.ring (h : SpaceReady uninit D own d N limit reserve brk s)
    (hq : ∀ r ∈ q, ∀ d, r.pageDirectory = some d → d ∈ D) :
    SpaceReady uninit D own d N limit reserve brk
      { s with sys := { s.sys with processes := q } } :=
  ⟨h.run.ring hq, h.ready.setProcesses le_rfl q, h.tables, h.low⟩

theorem SpaceReady.alloc (h : SpaceReady uninit D own d N limit reserve brk s) (size : ℕ)
    (hfits : brk + size + 20 ≤ 0x800000) :
    ∃ s', kallocAlloc uninit s size = .ok (brk + 12, s') ∧ Quiet D own s s' ∧
      ∃ brk' ≤ brk + size + 40,
        SpaceReady uninit D (insert ⟨brk + 12, size, 0⟩ own) d N limit reserve brk' s' := by
  obtain ⟨T, bs, live, hinv, hown⟩ := h.run.inv
  obtain ⟨s', hrun, brk', hbrk, hr⟩ := h.ready.allocBytes uninit size hinv hfits
  have ha := kallocHeapAlloc_ok hinv (.inl rfl) hrun
  have habove : AboveKept 256 D T s.sys s'.sys :=
    ha.aboveKept hinv.pages.inv le_rfl (le_max_of_le_right (hr.le.trans (by decide)))
  refine ⟨s', hrun, ⟨ha.grown.kernel, fun d hd k hk hle => ?_, fun l hl hfits => ?_⟩, brk', hbrk,
    h.run.alloc (.inl rfl) hrun, hr, h.tables.grown ha.grown hr.le, (ha.stacksKept hinv).noTables h.low⟩
  · exact habove.pageOf hinv.pages.inv hd hk (by omega)
  · exact hinv.alloc_memory (.inl rfl) hrun (hown.live l hl) hfits

/-- The bytes of an allocation and of the frames change. -/
theorem SpaceReady.store {l₀ : Live} (h : SpaceReady uninit D own d N limit reserve brk s)
    (hl : l₀ ∈ own) (h0 : l₀.alignment = 0) (frames : ℕ → ℕ → UInt8)
    (hm : ∀ x, x < l₀.ptr ∨ l₀.ptr + l₀.size ≤ x → m x = s.mem x) :
    SpaceReady uninit D own d N limit reserve brk ⟨s.heap, m, { s.sys with frames := frames }⟩ := by
  obtain ⟨T, bs, live, hinv, hown⟩ := h.run.inv
  have hmem : KernelReady 0x800000 limit reserve brk { s with mem := m } := by
    refine h.ready.setMem hinv fun x _ _ hx => hm x ?_
    by_contra hin
    refine hx (Live.Owns.payload hinv.heap (hown.live _ hl) ?_)
    exact hinv.heap.owns (hown.live _ hl) h0 (by omega) (by omega)
  exact ⟨(h.run.store hl h0 frames hm).run,
    hmem.setSys (k := 0) (fun _ _ _ hf => hf.congr rfl rfl) (fun _ _ hi => hi) rfl
      (Nat.le_add_right _ _)
      le_rfl, h.tables, h.low⟩

theorem SpaceReady.setFrames (h : SpaceReady uninit D own d N limit reserve brk s)
    (frames : ℕ → ℕ → UInt8) : SpaceReady uninit D own d N limit reserve brk
      { s with sys := { s.sys with frames := frames } } :=
  ⟨(h.run.setFrames frames).run,
    h.ready.setSys (k := 0) (fun _ _ _ hf => hf.congr rfl rfl) (fun _ _ hi => hi) rfl
      (Nat.le_add_right _ _) le_rfl, h.tables, h.low⟩

/-- A clone of the directory. -/
theorem SpaceReady.clone (h : SpaceReady uninit D own d N limit reserve brk s) (hd : d ∈ D)
    (hreserve : 1024 * N.card ≤ reserve) (hfits : brk + 12327 + 8231 * N.card ≤ 0x800000) :
    ∃ c s', pagingClonePageDirectoryForNewProcess uninit s d = .ok (c, s') ∧ Quiet D own s s' ∧
      Cloned D own d c s.sys s'.sys ∧ ∃ brk' ≤ brk + 12327 + 8231 * N.card,
        SpaceReady uninit (insert c D) own c N limit (reserve - 1024 * N.card) brk' s' := by
  obtain ⟨T, bs, live, hinv, hown⟩ := h.run.inv
  obtain ⟨s', hrun, brk', hbrk, hr⟩ := pagingClone_go hinv h.ready hd h.tables hreserve hfits
  obtain ⟨T', live', hc⟩ := pagingClone_ok hinv hd hrun
  have hend : heapEnd s' ≤ max (heapEnd s) 0x40000000 := le_max_of_le_right (hr.le.trans (by decide))
  have hcloned := (pagingClone_cloned_iff h.run hd hrun).mpr ((hinv.clone_le_iff hd hrun).mp hend)
  obtain ⟨-, hcopied⟩ := hc.kept 256 le_rfl hend
  refine ⟨_, s', hrun, ⟨hc.kernel, hcloned.mappings, fun l hl hfits => ?_⟩, hcloned, brk', hbrk,
    h.run.clone hd hrun, hr, fun i hi hle hor => ?_, (hc.stacksKept hinv).noTables h.low⟩
  · exact pagingClone_memory hinv hd (hown.live l hl) hfits hrun
  · refine h.tables i hi hle (hor.imp_left fun hne h0 => hne ?_)
    exact (hcopied i hi hle).absent h0

/-! ## `process_init` -/

/-- The address of a directory of a process can be read. -/
theorem KernelRun.x86Tables_go (h : KernelRun uninit s D own) (hd : d ∈ D)
    (hk : d ≠ s.sys.kernelPageDirectory) :
    ∃ a, pagingGetPageDirectoryX86TablesFrameAddress s.sys d = .ok a := by
  obtain ⟨T, bs, live, hinv, -⟩ := h.inv
  obtain ⟨hlo, hhi⟩ := hinv.bounds (hinv.directories d hd hk)
    (.inr (show sizeofPageDirectory + 0x1000 ≤ 4294967296 by decide))
  unfold directoryAt sizeofPageDirectory at hlo hhi
  dsimp only at hlo hhi
  unfold kernelHeapAddress at hlo
  obtain ⟨f, hf⟩ := hinv.pages.mapped (d / 4096) (by unfold kernelHeapAddress; omega) (by omega)
  unfold pagingGetPageDirectoryX86TablesFrameAddress
  rw [getPhysicalAddress_kernel hf]
  exact ⟨_, rfl⟩

/-- The kernel has no kernel stack. -/
theorem NoTablesAbove.absent (h : NoTablesAbove p) (hk : InKernelStack k) :
    p.pageOf p.kernelPageDirectory k = none := by
  obtain ⟨h₁, h₂⟩ := hk.bounds
  exact Paging.pageOf_eq_none (.inl (h (k / 1024) (by omega) (by omega)))

theorem createInitialProcess_go (pid : ℕ)
    (h : SpaceReady env.uninit D own s.sys.kernelPageDirectory N limit reserve brk s)
    (hreserve : 1024 * N.card ≤ reserve)
    (hfits : brk + fileDescriptorsBytes + 12467 + 8231 * N.card ≤ 0x800000) :
    ∃ r s', createInitialProcess env s pid = .ok (r, s') ∧ Quiet D own s s' ∧
      (∀ k, InKernelStack k → s'.sys.pageOf r.directory k = none) ∧
      ∃ brk' ≤ brk + fileDescriptorsBytes + 12467 + 8231 * N.card, SpaceReady env.uninit
        (insert r.directory D)
        (insert ⟨r.slots, fileDescriptorsBytes, 0⟩ (insert (recordAt r.address) own))
        r.directory N limit (reserve - 1024 * N.card) brk' s' := by
  obtain ⟨s₁, halloc, hquiet₁, brk₁, hbrk₁, h₁⟩ :=
    h.alloc sizeofProcess (by unfold sizeofProcess; omega)
  have hring₁ := h₁.ring (q := [⟨brk + 12, 0, none⟩]) fun r hr d hd => by
    rw [List.mem_singleton.mp hr] at hd
    cases hd
  obtain ⟨s₂, hslots, hquiet₂, brk₂, hbrk₂, h₂⟩ := hring₁.alloc fileDescriptorsBytes
    (by unfold sizeofProcess at hbrk₁; omega)
  obtain ⟨hkept₂, hp₂, -⟩ := kallocAlloc_kept hring₁.run hslots
  dsimp only at hp₂
  have hring₂ := h₂.ring (q := (s₂.sys.setProcess (brk + 12) fun q =>
      { q with pid := pid }).processes) <| by
    intro r hr d hd
    obtain ⟨r', hr', rfl⟩ := List.mem_map.mp hr
    rw [hp₂, List.mem_singleton] at hr'
    subst hr'
    split_ifs at hd
  have hkernel₂ : s₂.sys.kernelPageDirectory = s.sys.kernelPageDirectory :=
    hquiet₂.kernel.trans hquiet₁.kernel
  obtain ⟨c, s₃, hclone, hquiet₃, hcloned, brk₃, hbrk₃, h₃⟩ := hring₂.clone
    (hkernel₂ ▸ hring₂.run.kernel_mem) hreserve (by unfold sizeofProcess at hbrk₁; omega)
  rw [← hkernel₂] at hclone
  obtain ⟨hkept₃, hp₃, hnew, -⟩ := pagingClone_kept hring₂.run hring₂.run.kernel_mem hclone
  obtain ⟨s₄, hs₄⟩ : ∃ s₄ : Kernel, s₄ = { s₃ with sys := s₃.sys.setProcess (brk + 12) fun q =>
      { q with pageDirectory := some c } } := ⟨_, rfl⟩
  have h₄ : SpaceReady env.uninit (insert c D)
      (insert ⟨brk₁ + 12, fileDescriptorsBytes, 0⟩ (insert (recordAt (brk + 12)) own)) c N limit
      (reserve - 1024 * N.card) brk₃ s₄ := by
    rw [hs₄]
    refine h₃.ring fun r hr d hd => ?_
    obtain ⟨r', hr', rfl⟩ := List.mem_map.mp hr
    split_ifs at hd
    · cases hd
      exact .inl rfl
    · exact h₃.run.processes r' hr' d hd
  have hk : c ≠ s₄.sys.kernelPageDirectory := by
    have hkernel : s₄.sys.kernelPageDirectory = s₂.sys.kernelPageDirectory := by
      rw [hs₄]
      exact hquiet₃.kernel
    rw [hkernel]
    rintro rfl
    exact hnew hring₂.run.kernel_mem
  obtain ⟨a, hx86⟩ := h₄.run.x86Tables_go (.inl rfl) hk
  refine ⟨⟨brk + 12, brk₁ + 12, c⟩, s₄, ?_, ?_, fun k hin => ?_, brk₃, ?_, h₄⟩
  · unfold createInitialProcess
    rw [halloc, ok_bind]
    dsimp only
    rw [hslots, ok_bind]
    dsimp only
    have hclone' : pagingClonePageDirectoryForNewProcess env.uninit
        { s₂ with sys := s₂.sys.setProcess (brk + 12) fun q => { q with pid := pid } }
        s₂.sys.kernelPageDirectory = .ok (c, s₃) := hclone
    show pagingClonePageDirectoryForNewProcess env.uninit
        { s₂ with sys := s₂.sys.setProcess (brk + 12) fun q => { q with pid := pid } }
        s₂.sys.kernelPageDirectory >>= _ = _
    rw [hclone', ok_bind]
    rw [hs₄] at hx86 ⊢
    dsimp only at hx86 ⊢
    rw [hx86]
    rfl
  · have hquiet := (hquiet₁.ring [⟨brk + 12, 0, none⟩]).trans hquiet₂ subset_rfl (Set.subset_insert _ _)
    have hquiet' := (hquiet.ring (s₂.sys.setProcess (brk + 12) fun q =>
      { q with pid := pid }).processes).trans hquiet₃ subset_rfl
        ((Set.subset_insert _ _).trans (Set.subset_insert _ _))
    rw [hs₄]
    exact hquiet'.ring _
  · obtain ⟨hlo, hhi⟩ := hin.bounds
    have habsent := hcloned.absent k (by omega) (by omega) (by
      rw [← hkernel₂]
      exact h₂.low.absent hin)
    rw [hs₄]
    exact habsent
  · unfold sizeofProcess at hbrk₁
    omega

/-- A ramdisk with that image as the file of the first process. -/
def imageInitrd (src : ℕ) : Initrd := ⟨1, [initrdFileNode initialProcess 0 28], [src]⟩

theorem initialNode_imageInitrd (src : ℕ) : initialNode (imageInitrd src) =
    .ok (.initrdFilesNodes 0, initrdFileNode initialProcess 0 28) := rfl

theorem initrdRead_imageInitrd {src buf : ℕ} (hsrc : src < 4294967296) :
    initrdRead (imageInitrd src) (initrdFileNode initialProcess 0 28) m 0 28 buf =
      .ok (28, memcpy m buf src 28) := by
  have hsize : (initrdFileNode initialProcess 0 28).size = 28 := rfl
  have hdata : (imageInitrd src).filesData[u32Sub (initrdFileNode initialProcess 0 28).inode 1]? =
      some src := rfl
  have hmin : min 28 (u32Sub 28 0) = 28 := rfl
  have hvalue : toS32 28 = 28 := rfl
  unfold initrdRead
  rw [hsize, if_neg (by decide), hdata]
  dsimp only
  rw [hmin, hvalue, Nat.add_zero, u32_of_lt hsrc]

theorem readImage_go {src : ℕ} (keyboard : KeyboardState) (pid : ℕ)
    (h : SpaceReady env.uninit D own d N limit reserve brk s) (hsrc : ⟨src, 28, 0⟩ ∈ own)
    (himage : ∀ x < 28, s.mem (src + x) = emptyImage x) (hfits : brk + 48 ≤ 0x800000) :
    ∃ s' m, readImage env ⟨s, imageInitrd src, keyboard, pid⟩ (.initrdFilesNodes 0)
        (initrdFileNode initialProcess 0 28) = .ok (brk + 12, s', some (keyboard, m)) ∧
      (∀ x < 28, m (brk + 12 + x) = emptyImage x) ∧ Quiet D own s { s' with mem := m } ∧
      ∃ brk' ≤ brk + 68, SpaceReady env.uninit D (insert ⟨brk + 12, 28, 0⟩ own) d N limit reserve brk'
        { s' with mem := m } := by
  obtain ⟨s', halloc, hquiet, brk', hbrk, h'⟩ := h.alloc 28 (by omega)
  obtain ⟨T, bs, live, hinv, hown⟩ := h'.run.inv
  have hnew := hown.live _ (.inl rfl)
  have hold := hown.live _ (.inr hsrc)
  have hfresh := (kallocAlloc_kept h.run halloc).2.2 _ hsrc
  dsimp only at hfresh
  have happart := LiveInv.disjoint (s := s') hinv.heap hold hnew (fun h0 => absurd rfl h0)
    (fun h0 => absurd rfl h0) hfresh
  obtain ⟨-, hend⟩ := hinv.bounds hold (.inl rfl)
  have hsrcle : src < 4294967296 := by
    have hle := h'.ready.le
    dsimp only at hend
    omega
  have happart' : brk + 12 + 28 ≤ src ∨ src + 28 ≤ brk + 12 := by
    have h₁ : src ∉ Set.Ico (brk + 12) (brk + 12 + 28) :=
      Set.disjoint_left.mp happart (Set.mem_Ico.mpr ⟨le_rfl, by dsimp only; omega⟩)
    have h₂ : brk + 12 ∉ Set.Ico src (src + 28) :=
      Set.disjoint_right.mp happart (Set.mem_Ico.mpr ⟨le_rfl, by dsimp only; omega⟩)
    rw [Set.mem_Ico] at h₁ h₂
    omega
  obtain ⟨m, hm⟩ : ∃ m, m = memcpy s'.mem (brk + 12) src 28 := ⟨_, rfl⟩
  have hout : ∀ x, x < brk + 12 ∨ brk + 12 + 28 ≤ x → m x = s'.mem x := fun x hx => by
    rw [hm]
    exact memcpy_of_outside hx
  refine ⟨s', m, ?_, fun x hx => ?_, ⟨hquiet.kernel, hquiet.pages, fun l hl hfits x hx => ?_⟩, brk',
    hbrk.trans (by omega), h'.store (.inl rfl) rfl s'.sys.frames hout⟩
  · unfold readImage
    have hsize : (initrdFileNode initialProcess 0 28).size = 28 := rfl
    rw [hsize]
    dsimp only
    rw [halloc, ok_bind]
    dsimp only
    have hread : vfsRead (imageInitrd src) (.initrdFilesNodes 0) keyboard s'.mem env.kerb [] 0 28
        (brk + 12) = .ok (some (28, keyboard, m)) := by
      show initrdRead (imageInitrd src) (initrdFileNode initialProcess 0 28) s'.mem 0 28
        (brk + 12) >>= _ = _
      rw [initrdRead_imageInitrd hsrcle, ok_bind, hm]
    rw [hread, ok_bind]
    rfl
  · rw [hm, memcpy_of_inside happart' hx, ← himage x hx]
    exact hquiet.memory _ hsrc (fun h0 => absurd rfl h0) _ (Set.mem_Ico.mpr (by dsimp only; omega))
  · rw [← hquiet.memory l hl hfits x hx]
    refine hout x ?_
    have hdisjoint := LiveInv.disjoint (s := s') hinv.heap (hown.live _ (.inr hl)) hnew hfits
      (fun h0 => absurd rfl h0) ((kallocAlloc_kept h.run halloc).2.2 l hl)
    have hnot : x ∉ Set.Ico (brk + 12) (brk + 12 + 28) := Set.disjoint_left.mp hdisjoint hx
    rw [Set.mem_Ico] at hnot
    omega

/-- The load of the image of `buffer` as the first process. -/
theorem loadImage_go {buffer : ℕ} (h : SpaceReady env.uninit D own d N limit reserve brk s) (hd : d ∈ D)
    (hk : d ≠ s.sys.kernelPageDirectory) (hbuffer : ⟨buffer, 28, 0⟩ ∈ own)
    (himage : ∀ x < 28, s.mem (buffer + x) = emptyImage x)
    (habsent : ∀ k, InKernelStack k → s.sys.pageOf d k = none) (hN : {958, 959, 960} ⊆ N)
    (hreserve : 2048 ≤ reserve) (hfits : brk + 24693 ≤ 0x800000) :
    ∃ rli eip s', loadImage env s d buffer 28 false true = .ok (rli, s') ∧
      rli.entrypoint = some eip ∧ s'.sys.kernelPageDirectory = s.sys.kernelPageDirectory ∧
      ∃ brk' ≤ brk + 24693, SpaceReady env.uninit D own d N limit (reserve - 2048) brk' s' := by
  obtain ⟨T, bs, live, hinv, hown⟩ := h.run.inv
  obtain ⟨-, hend⟩ := hinv.bounds (hown.live _ hbuffer) (.inl rfl)
  dsimp only at hend
  have hle := h.ready.le
  have hdata : ∀ x < 28, imageFile s buffer x = emptyImage x := fun x hx => by
    unfold imageFile
    rw [u32_of_lt (by omega)]
    exact himage x hx
  have hload : ∀ memory, ∃ rli eip l, rawxLoad (loaderEnv env d) (toS32 28) false true
      ⟨s, memory, imageFile s buffer, []⟩ = .ok (rli, l) ∧ rli.entrypoint = some eip ∧
      StackReady env D own d N limit reserve brk 2048 s l := by
    intro memory
    have hstart : LoadKept env D own s ⟨s, memory, imageFile s buffer, []⟩ :=
      ⟨⟨h.run, .refl D s.sys, subset_rfl⟩, rfl⟩
    obtain ⟨l, hstack, hl⟩ :=
      createKernelStack_go hstart hd hk h.low h.ready habsent hN h.tables hreserve hfits
    obtain ⟨rli, eip, hrun, heip⟩ := rawxLoad_emptyImage hdata hstack
    exact ⟨rli, eip, l, hrun, heip, hl⟩
  obtain ⟨rli₀, -, l₀, hrun₀, -⟩ := hload fun _ => 0
  obtain ⟨rli, eip, l, hrun, heip, hl⟩ := hload (processMemory l₀.pages.sys d)
  obtain ⟨hkept, ⟨brk', hbrk', hr⟩, -, htables⟩ := hl
  have hready : SpaceReady env.uninit D own d N limit (reserve - 2048) brk' l.pages :=
    ⟨hkept.kept.run, hr, htables, hkept.kept.keeps.noTables h.low⟩
  refine ⟨rli, eip, loadedKernel buffer 28 d l, ?_, heip, ?_, brk', ?_, ?_⟩
  · unfold loadImage
    dsimp only
    rw [hrun₀, ok_bind]
    dsimp only
    rw [hrun]
    rfl
  · rw [loadedKernel_kernelPageDirectory]
    exact hkept.kept.keeps.kernel
  · have hthree := stackTables_le l.pages.sys d
    omega
  · exact hready.store hbuffer rfl (storedFrames l.pages.sys d l.mem) fun x hx =>
      if_neg (show ¬ (buffer ≤ x ∧ x < buffer + 28) by dsimp only at hx; omega)

/-- The places of the tables of a process above the heap. -/
def processTables : Finset ℕ := {766, 767, 768, 958, 959, 960}

/-- The kernel can serve requests below 8 MB, and `active` is the active process. -/
structure ProcessReady (env : ProcessEnv) (D : Set ℕ) (own : Set Live) (active : Process)
    (q : List Process) (d limit reserve brk : ℕ) (sys : System) : Prop where
  space : SpaceReady env.uninit D own d processTables limit reserve brk sys.kernel
  ring : sys.kernel.sys.processes = active :: q
  directory : active.pageDirectory = some d
  stack : ∃ b, HasKernelStack b sys.kernel.sys d
  records : ∀ r ∈ sys.kernel.sys.processes, recordAt r.address ∈ own

variable {sys : System} {active : Process} {b b' : Bool}

theorem ProcessReady.directory_mem (h : ProcessReady env D own active q d limit reserve brk sys) :
    d ∈ D := by
  refine h.space.run.processes active ?_ d h.directory
  rw [h.ring]
  exact List.mem_cons_self

theorem processInit_go (sys : System) {src : ℕ}
    (h : SpaceReady env.uninit D own sys.kernel.sys.kernelPageDirectory processTables limit reserve brk
      sys.kernel)
    (hinitrd : sys.initrd = imageInitrd src) (hsrc : ⟨src, 28, 0⟩ ∈ own)
    (himage : ∀ x < 28, sys.kernel.mem (src + x) = emptyImage x) (hreserve : 8192 ≤ reserve)
    (hfits : brk + 90000 ≤ 0x800000) :
    ∃ r s eip sys' D' own' pid, createInitialProcess env sys.kernel sys.currentPid = .ok (r, s) ∧
      processInit env sys = .ok (.userMode kernelStackAddress eip, sys') ∧
      sys'.initrd = sys.initrd ∧ ∃ brk' ≤ brk + 90000,
        ProcessReady env D' own' ⟨r.address, pid, some r.directory⟩ [] r.directory limit
          (reserve - 8192) brk' sys' := by
  have hcard : processTables.card = 6 := rfl
  have hslots : fileDescriptorsBytes ≤ 1000 := by decide
  obtain ⟨r, s₁, hcreate, hquiet₁, habsent₁, brk₁, hbrk₁, h₁⟩ :=
    createInitialProcess_go sys.currentPid h (by omega) (by omega)
  obtain ⟨hkept₁, -, hnew, -⟩ := createInitialProcess_kept h.run hcreate
  have himage₁ : ∀ x < 28, s₁.mem (src + x) = emptyImage x := fun x hx => by
    rw [← himage x hx]
    exact hquiet₁.memory _ hsrc (fun h0 => absurd rfl h0) _ (Set.mem_Ico.mpr (by dsimp only; omega))
  obtain ⟨s₂, m, hread, himage₂, hquiet₂, brk₂, hbrk₂, h₂⟩ := readImage_go
    sys.keyboard (u32 (sys.currentPid + 1)) h₁ (.inr (.inr hsrc)) himage₁ (by omega)
  have hkernel : s₂.sys.kernelPageDirectory = sys.kernel.sys.kernelPageDirectory :=
    hquiet₂.kernel.trans hquiet₁.kernel
  have hk : r.directory ≠ s₂.sys.kernelPageDirectory := by
    rintro heq
    exact hnew (heq ▸ hkernel ▸ h.run.kernel_mem)
  have habsent₂ : ∀ k, InKernelStack k → s₂.sys.pageOf r.directory k = none := fun k hin => by
    obtain ⟨hlo, hhi⟩ := hin.bounds
    rw [← habsent₁ k hin]
    exact hquiet₂.pages _ (.inl rfl) k (by omega) (by omega)
  obtain ⟨rli, eip, s₃, hload, heip, -, brk₃, hbrk₃, h₃⟩ := loadImage_go h₂ (.inl rfl) hk (.inl rfl)
    himage₂ habsent₂ (by decide) (by omega) (by omega)
  obtain ⟨sys', hsys'⟩ : ∃ sys' : System, sys' = { sys with
      kernel := s₃, keyboard := sys.keyboard, currentPid := u32 (sys.currentPid + 1) } := ⟨_, rfl⟩
  have hrun : processInit env sys = .ok (.userMode kernelStackAddress eip, sys') := by
    unfold processInit
    rw [hinitrd, initialNode_imageInitrd, ok_bind]
    dsimp only
    rw [hcreate, ok_bind]
    dsimp only
    rw [hread, ok_bind]
    have hsize : (initrdFileNode initialProcess 0 28).size = 28 := rfl
    have hentry : assigned "rli.entrypoint was not written" rli.entrypoint = .ok eip :=
      assigned_eq_ok.mpr heip
    rw [hsize]
    dsimp only
    rw [hload, ok_bind]
    dsimp only
    rw [hentry, ok_bind, hsys', hinitrd]
    rfl
  obtain ⟨own', hkept, hall, hring, -, hstack⟩ := processInit_kept h.run hcreate hrun
  have hreserve' : reserve - 1024 * processTables.card - 2048 = reserve - 8192 := by omega
  rw [hreserve'] at h₃
  have hs₃ : sys'.kernel = s₃ := by rw [hsys']
  rw [← hs₃] at h₃
  refine ⟨r, s₁, eip, sys', _, _, sys.currentPid, hcreate, hrun, by rw [hsys'], brk₃, by omega,
    h₃, hring,
    rfl, ⟨false, hstack⟩, fun r' hr' => ?_⟩
  rw [hring, List.mem_singleton] at hr'
  rw [hr']
  exact .inr (.inr (.inl rfl))

/-! ## `process_fork` -/

theorem HasKernelStack.address_go (h : HasKernelStack b p d) (hi : i < 2048) :
    ∃ a, pagingGetPageFrameAddress p d (kernelStackAddressInProcessAddressSpace / 0x1000 - i) =
      .ok a := by
  have haddr : kernelStackAddressInProcessAddressSpace / 0x1000 = 0xF0000 := rfl
  have hlast : kernelStackLastPage = 0xF0000 := rfl
  obtain ⟨e, he, -⟩ := h (0xF0000 - i) (by unfold InKernelStack; omega)
  obtain ⟨hne, -⟩ := Paging.pageOf_eq_some.mp he
  rw [haddr]
  unfold pagingGetPageFrameAddress getPhysicalAddressOfVirtualAddress
  have hpage : u32 ((0xF0000 - i) * 0x1000) / 0x1000 = 0xF0000 - i := by
    rw [u32_of_lt (by omega)]
    omega
  rw [hpage]
  dsimp only
  rw [if_neg hne]
  exact ⟨_, rfl⟩

/-- The kernel stack of a process is copied into that of another. -/
theorem copyKernelStack_go (hs : HasKernelStack b p d) (hc : HasKernelStack b' p c) :
    ∃ p', copyKernelStack d c p = .ok p' := by
  have hloop : ∃ p', copyKernelStack d c p = .ok p' ∧ HasKernelStack b p' d ∧
      HasKernelStack b' p' c := by
    refine forLoop_go (P := fun _ p' => HasKernelStack b p' d ∧ HasKernelStack b' p' c) ⟨hs, hc⟩ ?_
    intro i hi p₁ h₁
    obtain ⟨dst, hdst⟩ := h₁.2.address_go hi
    obtain ⟨src, hsrc⟩ := h₁.1.address_go hi
    refine ⟨pagingCopyFrame (dst / 0x1000) (src / 0x1000) p₁, ?_, h₁⟩
    dsimp only
    rw [hdst, ok_bind, hsrc]
    rfl
  obtain ⟨p', hrun, -⟩ := hloop
  exact ⟨p', hrun⟩

/-- A clone can be cleaned. -/
theorem Cloned.cleanable (h : Cloned D own d c p p') : Cleanable p' c where
  frames := fun k hk hle e he => by
    cases hsource : p.pageOf d k with
    | none =>
      rw [h.absent k hk hle hsource] at he
      cases he
    | some e' =>
      obtain ⟨e'', he'', hcopy, -⟩ := h.copied k hk hle e' hsource
      obtain rfl := Option.some.inj (he.symm.trans he'')
      exact hcopy.lt
  tables := fun i hi hle hne => (h.fresh i hi hle hne).heap

theorem processFork_go (h : ProcessReady env D own active q d limit reserve brk sys)
    (hreserve : 6144 ≤ reserve) (hfits : brk + 62000 ≤ 0x800000) :
    ∃ sys' a c, processFork env sys = .ok (.returned (toS32 sys.currentPid), sys') ∧
      sys'.initrd = sys.initrd ∧
      sys'.kernel.sys.processes = active :: q ++ [⟨a, sys.currentPid, some c⟩] ∧
      c ∉ D ∧ Cleanable sys'.kernel.sys c ∧ ∃ brk' ≤ brk + 62000,
        SpaceReady env.uninit (insert c D) (insert (recordAt a) own) c processTables limit
          (reserve - 6144) brk' sys'.kernel := by
  have hcard : processTables.card = 6 := rfl
  obtain ⟨b, hstack⟩ := h.stack
  obtain ⟨s₁, halloc, hquiet₁, brk₁, hbrk₁, h₁⟩ :=
    h.space.alloc sizeofProcess (by unfold sizeofProcess; omega)
  unfold sizeofProcess at hbrk₁
  obtain ⟨hkept₁, hp₁, hfresh⟩ := kallocAlloc_kept h.space.run halloc
  have hring₁ := h₁.ring (q := s₁.sys.processes ++ [⟨brk + 12, 0, none⟩]) <| by
    intro r hr d hd
    rcases List.mem_append.mp hr with hr | hr
    · exact hkept₁.run.processes r hr d hd
    · rw [List.mem_singleton.mp hr] at hd
      cases hd
  obtain ⟨c, s₂, hclone, hquiet₂, hcloned, brk₂, hbrk₂, h₂⟩ :=
    hring₁.clone h.directory_mem (by omega) (by omega)
  obtain ⟨hkept₂, hprocesses, hnew, hcopied⟩ := pagingClone_kept hring₁.run h.directory_mem hclone
  have hstack₁ : HasKernelStack b s₁.sys d := hkept₁.keeps.has h.directory_mem hstack
  have hstack₂ : HasKernelStack b s₂.sys d := hkept₂.keeps.has h.directory_mem hstack₁
  obtain ⟨p, hcopy⟩ := copyKernelStack_go (d := d) (c := c)
    (p := s₂.sys.setProcess (brk + 12) fun q => { q with pageDirectory := some c })
    hstack₂ (hcopied b hstack₁)
  have hp₂ : s₂.sys.processes = (active :: q) ++ [⟨brk + 12, 0, none⟩] := by
    rw [hprocesses]
    show s₁.sys.processes ++ _ = _
    rw [hp₁, h.ring]
  have hold : ∀ r ∈ active :: q, r.address ≠ brk + 12 := fun r hr =>
    hfresh _ (h.records r (h.ring ▸ hr))
  obtain ⟨hdirectory, hpid⟩ := forked_processes sys.currentPid hp₂ hold hcopy
  obtain ⟨s₃, hs₃⟩ : ∃ s₃ : Kernel, s₃ = { s₂ with
      sys := p.setProcess (brk + 12) fun q => { q with pid := sys.currentPid } } := ⟨_, rfl⟩
  have hring : s₃.sys.processes = active :: q ++ [⟨brk + 12, sys.currentPid, some c⟩] := by
    rw [hs₃]
    exact hpid
  have hsys : s₃ = { s₂ with sys := { { s₂.sys with frames := p.frames } with
      processes := s₃.sys.processes } } := by
    rw [hs₃, copyKernelStack_frames hcopy]
    rfl
  have hspace := (h₂.setFrames p.frames).ring (q := s₃.sys.processes) <| by
    rw [hring]
    intro r hr d' hd'
    rcases List.mem_append.mp hr with hr | hr
    · exact .inr (h.space.run.processes r (h.ring ▸ hr) d' hd')
    · rw [List.mem_singleton.mp hr] at hd'
      cases hd'
      exact .inl rfl
  have hcleanable : Cleanable s₃.sys c := by
    obtain ⟨hframes, htables⟩ := hcloned.cleanable
    rw [hsys]
    exact ⟨hframes, htables⟩
  rw [← hsys] at hspace
  refine ⟨{ sys with kernel := s₃, currentPid := u32 (sys.currentPid + 1) }, brk + 12, c, ?_,
    rfl, hring,
    hnew, hcleanable, brk₂, by omega, hspace⟩
  have hactive : activeProcess s₁ = .ok active := activeProcess_eq_ok.mpr ⟨q, hp₁.trans h.ring⟩
  have hd : active.directory = .ok d := assigned_eq_ok.mpr h.directory
  unfold processFork
  rw [halloc, ok_bind]
  dsimp only
  rw [hactive, ok_bind]
  rw [hd, ok_bind, hclone, ok_bind]
  dsimp only
  rw [hcopy, ok_bind, hs₃]
  rfl

/-! ## `process_switch` and `process_exit` -/

theorem switchContext_go {first : Option ℕ} (h : KernelRun env.uninit s D own)
    (hring : LiveRing first s.sys) (hq : s.sys.processes = active :: q) :
    switchContext s = .ok () := by
  have hmem : active ∈ s.sys.processes := by
    rw [hq]
    exact List.mem_cons_self
  obtain ⟨d, hd, -⟩ := hring.stack active hmem
  have hactive : activeProcess s = .ok active := activeProcess_eq_ok.mpr ⟨q, hq⟩
  have hdirectory : active.directory = .ok d := assigned_eq_ok.mpr hd
  obtain ⟨a, ha⟩ := h.x86Tables_go (h.processes active hmem d hd) (hring.own.ne hq hd)
  unfold switchContext
  rw [hactive, ok_bind, hdirectory, ok_bind, ha]
  rfl

/-- The next process is switched to. -/
theorem processSwitch_go {own : Set Live} {first : Option ℕ} (h : ProcessRun env sys own first)
    (hq : sys.kernel.sys.processes = active :: q) :
    sys.processSwitch = .ok (.switched, { sys with kernel := { sys.kernel with
      sys := { sys.kernel.sys with processes := q ++ [active] } } }) := by
  obtain ⟨D, all, hrun, -, -, hring⟩ := h.inv
  have hrotate : (active :: q).rotate 1 = q ++ [active] := by
    rw [List.rotate_cons_succ, List.rotate_zero]
  have hmem : ∀ r ∈ q ++ [active], r ∈ sys.kernel.sys.processes := fun r hr => by
    rw [hq, ← List.mem_rotate (n := 1), hrotate]
    exact hr
  obtain ⟨s, hs⟩ : ∃ s : Kernel, s = { sys.kernel with
      sys := { sys.kernel.sys with processes := q ++ [active] } } := ⟨_, rfl⟩
  have hrun' : KernelRun env.uninit s D all := by
    rw [hs]
    exact hrun.ring fun r hr => hrun.processes r (hmem r hr)
  have hring' : LiveRing first s.sys := by
    refine hring.switch (D := D) ?_ hrun.processes ?_
    · rw [hs]
      exact .of_eq rfl rfl rfl
    · rw [hs, hq, hrotate]
  have hswitch : switchContext s = .ok () := by
    cases q with
    | nil => exact switchContext_go hrun' hring' (by rw [hs]; rfl)
    | cons r q => exact switchContext_go hrun' hring' (by rw [hs]; rfl)
  unfold System.processSwitch
  rw [if_neg (by rw [hq]; exact List.cons_ne_nil _ _), hq, hrotate, ← hs]
  dsimp only
  rw [hswitch]
  rfl

/-- A process that can be cleaned can be ended. -/
theorem processExit_go {own : Set Live} {first : Option ℕ} {next : Process}
    (h : ProcessRun env sys own first) (hq : sys.kernel.sys.processes = active :: next :: q)
    (hd : active.pageDirectory = some d) (hc : Cleanable sys.kernel.sys d) (hn : HolesLe n sys.kernel)
    (hroom : n + 769 ≤ heapNodes) : ∃ sys', processExit env sys = .ok (.switched, sys') := by
  obtain ⟨D, all, hrun, -, hrecords, hring⟩ := h.inv
  have hmem : active ∈ sys.kernel.sys.processes := by
    rw [hq]
    exact List.mem_cons_self
  have hk := hring.own.ne hq hd
  have hdD := hrun.processes active hmem d hd
  obtain ⟨T, bs, live, hinv, -⟩ := hrun.inv
  obtain ⟨s₁, hclean, hn₁⟩ := pagingClean_go env.uninit hinv hdD hc hn (by omega)
  obtain ⟨hkept₁, hp₁⟩ := pagingClean_kept hrun hdD hk hring.noTables hclean
  rw [hq] at hp₁
  have hring₁ := hkept₁.ring (q := next :: q) fun r hr =>
    hkept₁.run.processes r (hp₁ ▸ List.mem_cons_of_mem _ hr)
  obtain ⟨T₁, bs₁, live₁, hinv₁, hown₁⟩ := hring₁.run.inv
  obtain ⟨s₂, hfree, -⟩ := kallocFree_go env.uninit hinv₁.heap
    (hown₁.live _ (hrecords active hmem).1) hn₁ (by omega)
  obtain ⟨hkept₂, hsys⟩ := kallocFree_kept hring₁.run (hrecords active hmem).1 hfree
  have hp₂ : s₂.sys.processes = next :: q := by rw [hsys]
  have hswitch := switchContext_go hkept₂.run
    (hring.exit hq hp₂ hrun.processes (hring₁.trans hkept₂).keeps) hp₂
  have hactive : activeProcess sys.kernel = .ok active := activeProcess_eq_ok.mpr ⟨_, hq⟩
  have hdirectory : active.directory = .ok d := assigned_eq_ok.mpr hd
  have htail : s₁.sys.processes.tail = next :: q := by rw [hp₁, List.tail_cons]
  have hfree' : kallocFree env.uninit { s₁ with sys := { s₁.sys with processes := next :: q } }
      active.address = .ok s₂ := hfree
  refine ⟨{ sys with kernel := s₂ }, ?_⟩
  unfold processExit
  rw [hactive, ok_bind, hdirectory, ok_bind, hclean, ok_bind]
  dsimp only
  rw [htail, hfree', ok_bind, hp₂, if_neg (List.cons_ne_nil _ _), hswitch]
  rfl

/-! ## Runs -/

/-- No stub of a system call is known, and `uninit` gives zeros. -/
def bareEnv : ProcessEnv where
  uninit := fun _ _ => 0
  syscallStubs := ⟨1, 0, 4, 8, fun _ _ => false, fun _ => 0, fun _ => none⟩
  code := fun _ => 0
  kerb := 0

/-- A keyboard without keys. -/
def bareKeyboard : KeyboardState := ⟨fun _ => ⟨0, 0⟩, 0, fun _ => 0, false⟩

/-- An image for the first process is put in the heap: `s` is the kernel after `kalloc_init`, `s₁`
after the request for the bytes of the image. -/
theorem exists_imageWritten (env : ProcessEnv) :
    ∃ p s s₁ m src brk, brk ≤ 0x5100C8 ∧ pagingInit 0x30000 poweredOn = .ok p ∧
      kallocInit env.uninit 1 p (fun _ => 0) = .ok s ∧
      kallocAllocAligned env.uninit s 28 0 = .ok (src, s₁) ∧
      (∀ x, kernelHeapAddress ≤ x → x < heapEnd s₁ →
        (∀ l ∈ (insert ⟨src, 28, 0⟩ ∅ : Set Live), ¬ l.Owns s₁.mem x) → m x = s₁.mem x) ∧
      s₁.sys.processes = [] ∧ (∀ x < 28, m (src + x) = emptyImage x) ∧
      SpaceReady env.uninit {s₁.sys.kernelPageDirectory} {⟨src, 28, 0⟩} s₁.sys.kernelPageDirectory
        processTables 0x800000 20480 brk ⟨s₁.heap, m, s₁.sys⟩ := by
  obtain ⟨p, s, hp, hrun, hbooted, htables⟩ := exists_kallocInit env.uninit (le_refl 0x800000)
    (by decide) (by decide) (show 20480 + (0x800000 - kernelHeapAddress) / 4096 * 2 ≤ 783360 by decide)
  have hspace : SpaceReady env.uninit {s.sys.kernelPageDirectory} ∅ s.sys.kernelPageDirectory
      processTables 0x800000 20480 0x510015 s := by
    refine ⟨hbooted.run, hbooted.ready, fun i hi hle hor => ?_, fun i hi hle => ?_⟩
    · exact (by decide : ({766, 767, 768} : Finset ℕ) ⊆ processTables) (hbooted.tables i hi hle hor)
    · by_contra hne
      have htable := htables i hi hne
      unfold InitTable at htable
      omega
  obtain ⟨s₁, halloc, hquiet, brk, hbrk, h₁⟩ := hspace.alloc 28 (by decide)
  obtain ⟨hkept, hq, -⟩ := kallocAlloc_kept hbooted.run halloc
  obtain ⟨src, hsrc⟩ : ∃ src, src = 0x510015 + 12 := ⟨_, rfl⟩
  rw [← hsrc] at halloc h₁
  obtain ⟨m, hm⟩ : ∃ m : Mem, m = fun x => if src ≤ x ∧ x < src + 28 then emptyImage (x - src)
      else s₁.mem x := ⟨_, rfl⟩
  have hout : ∀ x, x < src ∨ src + 28 ≤ x → m x = s₁.mem x := fun x hx => by
    rw [hm]
    exact if_neg (by omega)
  obtain ⟨T, bs, live, hinv, hown⟩ := h₁.run.inv
  have hready := h₁.store (m := m) (.inl rfl) rfl s₁.sys.frames hout
  rw [insert_empty_eq, ← hquiet.kernel] at hready
  refine ⟨p, s, s₁, m, src, brk, hbrk.trans (by decide), hp, hrun, halloc, fun x _ _ hx => ?_,
    hq.trans hbooted.processes, fun x hx => ?_, hready⟩
  · refine hout x ?_
    by_contra hin
    refine hx _ (.inl rfl) (hinv.heap.owns (hown.live _ (.inl rfl)) rfl ?_ ?_)
    all_goals dsimp only; omega
  · rw [hm]
    dsimp only
    rw [if_pos (by omega), Nat.add_sub_cancel_left]

/-- A ramdisk with the image for the first process can be put in the heap. -/
theorem exists_imageInRam (env : ProcessEnv) (keyboard : KeyboardState) :
    ∃ src s brk, brk ≤ 0x5100C8 ∧
      ProcessRun env ⟨s, imageInitrd src, keyboard, 1⟩ {⟨src, 28, 0⟩} none ∧
      s.sys.processes = [] ∧ (∀ x < 28, s.mem (src + x) = emptyImage x) ∧
      SpaceReady env.uninit {s.sys.kernelPageDirectory} {⟨src, 28, 0⟩} s.sys.kernelPageDirectory
        processTables 0x800000 20480 brk s := by
  obtain ⟨p, s, s₁, m, src, brk, hbrk, hp, hrun, halloc, hm, hq, himage, hspace⟩ :=
    exists_imageWritten env
  have hboot : ProcessRun env ⟨s, imageInitrd 0, keyboard, 1⟩ ∅ none := .boot (by decide) rfl hp hrun
  have hwritten : ProcessRun env ⟨⟨s₁.heap, m, { s₁.sys with frames := s₁.sys.frames }⟩, imageInitrd 0,
      keyboard, 1⟩ (insert ⟨src, 28, 0⟩ ∅) none := (hboot.alloc (.inl rfl) halloc).write hm
  have hdone : ProcessRun env ⟨⟨s₁.heap, m, s₁.sys⟩, imageInitrd src, keyboard, 1⟩
      (insert ⟨src, 28, 0⟩ ∅) none := hwritten.devices
  rw [insert_empty_eq] at hdone
  exact ⟨src, _, brk, hbrk, hdone, hq, himage, hspace⟩

/-- There is a run with one process. -/
theorem exists_initialProcess (env : ProcessEnv) (keyboard : KeyboardState) :
    ∃ sys own src a pid d D all brk, brk ≤ 5401581 ∧ ProcessRun env sys own (some a) ∧
      sys.initrd = imageInitrd src ∧
      ProcessReady env D all ⟨a, pid, some d⟩ [] d 0x800000 12288 brk sys := by
  obtain ⟨src, s, brk, hbrk, hrun, hnone, himage, hspace⟩ := exists_imageInRam env keyboard
  obtain ⟨r, s₁, eip, sys', D, all, pid, hcreate, hinit, hinitrd, brk', hbrk', hready⟩ :=
    processInit_go ⟨s, imageInitrd src, keyboard, 1⟩ hspace rfl rfl himage (by decide) (by omega)
  have hrun' := hrun.init hnone hcreate hinit
  exact ⟨sys', _, src, r.address, pid, r.directory, D, all, brk', by omega, hrun', hinitrd, hready⟩

/-- There is a run with the first process and its child. -/
theorem exists_child (env : ProcessEnv) (keyboard : KeyboardState) :
    ∃ sys own src a pid d a' pid' c D all brk, brk ≤ 5463581 ∧ ProcessRun env sys own (some a) ∧
      sys.initrd = imageInitrd src ∧ a' ≠ a ∧
      sys.kernel.sys.processes = [⟨a, pid, some d⟩, ⟨a', pid', some c⟩] ∧
      Cleanable sys.kernel.sys c ∧
      SpaceReady env.uninit D all c processTables 0x800000 6144 brk sys.kernel := by
  obtain ⟨sys, own, src, a, pid, d, D, all, brk, hbrk, hrun, hinitrd, hready⟩ :=
    exists_initialProcess env keyboard
  obtain ⟨sys', a', c, hfork, hinitrd', hring, -, hcleanable, brk', hbrk', hspace⟩ :=
    processFork_go hready (by decide) (by omega)
  have hrun' := hrun.fork hfork
  have haddresses : a' ≠ a := by
    obtain ⟨D', all', -, -, -, hinv⟩ := hrun'.inv
    have hnodup := hinv.addresses
    rw [hring] at hnodup
    exact fun heq => (List.nodup_cons.mp hnodup).1 (heq ▸ List.mem_cons_self)
  exact ⟨sys', own, src, a, pid, d, a', sys.currentPid, c, _, _, brk', by omega, hrun',
    hinitrd'.trans hinitrd, haddresses, hring, hcleanable, hspace⟩

end

end RawOS
