import RawOS.ProcessStart

/-!
# The stack that an image declares

With `create_stack`, `rawx_load` creates `stack_size / 0x1000` pages from the page of
`RAWX_STACK_ADDRESS` downwards, and the process starts with `esp` at this address. The first of the
pages lies above the stack, and the last page of the stack is not created
(`rawxLoad_declaredStack_iff`). A section that has this page goes on to the page above the stack,
unless its call addresses are written over its own size (`rawxLoad_notCopied`).
-/

namespace RawOS

/-- Page `q` of the process is present, in user mode. -/
def UserPage (d : ℕ) (p : Paging) (q : ℕ) : Prop := ∃ e, p.pageOf d q = some e ∧ e.userMode = true

/-- The addresses of a stack of this size are on such pages. -/
def StackPresent (d size : ℕ) (p : Paging) : Prop :=
  ∀ x, rawxStackAddress - size ≤ x → x < rawxStackAddress → UserPage d p (x / 0x1000)

/-- The loader works on the directory `d` of a process, whose tables around the stack are its own.
-/
structure StackSpace (D : Set ℕ) (d : ℕ) (s : Kernel) : Prop where
  inv : ∃ T bs live, KernelInv D T bs live s
  mem : d ∈ D
  ne : d ≠ s.sys.kernelPageDirectory
  tables : ∀ i, 766 ≤ i → i ≤ 768 → (s.sys.directories d).tables i ≠ 0 →
    kernelHeapAddress ≤ (s.sys.directories d).tables i

/-- A page of the stack, or the one above it. -/
def InStackArea (q : ℕ) : Prop := 0xBF800 ≤ q ∧ q ≤ 0xC0000

section

variable {env : ProcessEnv} {uninit : Paging → Mem → ℤ} {D T : Set ℕ} {bs : List Block}
  {live : List Live} {s s' s₁ : Kernel} {d f i k n q t u x : ℕ} {l l' : Loader Kernel}
  {bitmap : Bitmap}

/-! ## One page -/

/-- The other pages of the area stay, wherever the page is created. -/
theorem PageMapped.othersInArea (h : PageMapped d n u s f bitmap s') (hinv : PagingInv D T s.sys)
    (hd : d ∈ D) (hn : n < 0x100000) (hq : InStackArea q) (hqn : q ≠ n) :
    s'.sys.pageOf d q = s.sys.pageOf d q := by
  obtain ⟨hlo, hhi⟩ := hq
  obtain ⟨-, -, -, rfl⟩ := h
  refine Paging.pageOf_congr rfl fun hne => Paging.setEntry_of_ne ?_
  by_contra hsame
  obtain ⟨ht, hj⟩ := not_or.mp hsame
  rw [not_not] at ht hj
  have hidx := hinv.tables_inj hd (show q / 1024 < 1024 by omega) (by omega)
    (show n / 1024 < 1024 by omega) hne ht.symm
  omega

/-- The growing heap of the kernel leaves the tables around the stack alone. -/
theorem KernelAlloc.stackTables {size alignment ptr : ℕ}
    (ha : KernelAlloc D T live size alignment s ptr s') (h : KernelInv D T bs live s)
    (hlo : 766 ≤ i) : (s'.sys.directories d).tables i = (s.sys.directories d).tables i := by
  obtain ⟨bs', h'⟩ := ha.inv
  have hle := h'.pages.le
  rcases ha.grown.directories d i with heq | ⟨-, hlt, -, hnone, -⟩
  · exact heq.1
  · -- table 766 is that of the kernel's own stack
    obtain ⟨g, hg⟩ := h.pages.inv.stack
    have hstack : kernelStackFirstPage = 0xBF801 := rfl
    rw [hstack] at hle
    have hi : i = 766 := by omega
    have htable := hg.table
    rw [hstack, show 0xBF801 / 1024 = 766 from rfl, ← hi] at htable
    exact absurd hnone htable

theorem TableLinked.stackArea (hl : TableLinked D T live d i s t s₁ x) (h : KernelInv D T bs live s)
    (hs : StackSpace D d s) (hnone : (s.sys.directories d).tables i = 0) (hq : InStackArea q) :
    ((s₁.sys.zeroTable t).setDirectoryEntry d i t x).pageOf d q = s.sys.pageOf d q := by
  obtain ⟨hlo, hhi⟩ := hq
  by_cases hqi : q / 1024 = i
  · -- the new table is empty
    subst hqi
    rw [Paging.pageOf_eq_none (.inl hnone)]
    refine Paging.pageOf_eq_none (.inr ?_)
    rw [Paging.setDirectoryEntry_tables_self]
    show ((s₁.sys.zeroTable t).tables t (q % 1024)).present = false
    rw [Paging.zeroTable_self]
    rfl
  · have htable : (((s₁.sys.zeroTable t).setDirectoryEntry d i t x).directories d).tables (q / 1024) =
        (s.sys.directories d).tables (q / 1024) := by
      rw [Paging.setDirectoryEntry_tables_of_ne (.inr hqi)]
      exact hl.alloc.stackTables h (by omega)
    refine Paging.pageOf_congr htable fun hne => ?_
    have hT := h.pages.inv.mem_of_heap hs.mem (by omega) hne (hs.tables _ (by omega) (by omega) hne)
    have hold : s₁.sys.tables ((s.sys.directories d).tables (q / 1024)) =
        s.sys.tables ((s.sys.directories d).tables (q / 1024)) := by
      rcases hl.alloc.grown.tables ((s.sys.directories d).tables (q / 1024)) with heq |
        ⟨i', hi', heq, -⟩
      · exact heq
      · have hlow := (h.pages.inv.heap _ hT).2.1
        rw [heq, kernelPageTable_eq hi'] at hlow
        unfold kernelHeapAddress at hlow
        omega
    rw [← hold]
    refine congrFun (Paging.zeroTable_of_ne ?_) _
    rintro heq
    exact hl.unused (.inl (heq ▸ hT))

/-- A page that is created, seen from the stack. -/
structure PageInSpace (D : Set ℕ) (d n u : ℕ) (s s' : Kernel) : Prop where
  space : StackSpace D d s'
  others : ∀ q, InStackArea q → q ≠ n → s'.sys.pageOf d q = s.sys.pageOf d q
  fresh : s.sys.pageOf d n = none
  created : ∃ e, s'.sys.pageOf d n = some e ∧ e.userMode = decide (u % 2 = 1)

theorem StackSpace.create (h : StackSpace D d s) (hn : n < 0x100000)
    (hrun : pagingCreateProcessPageWithAnyFrame uninit s d n u = .ok (f, s')) :
    PageInSpace D d n u s s' := by
  obtain ⟨T, bs, live, hinv⟩ := h.inv
  obtain ⟨s₁, T', bs', live', bitmap, hinv₁, hm, hinv', hcase⟩ :=
    pagingCreateProcessPage_ok hinv h.mem h.ne hrun
  obtain ⟨e, he, hentry, -⟩ := hm.pageOf
  have hdirs : s'.sys.directories = s₁.sys.directories := by rw [hm.result]; rfl
  have hkernel : s'.sys.kernelPageDirectory = s₁.sys.kernelPageDirectory := by rw [hm.result]; rfl
  rcases hcase with ⟨rfl, -, -⟩ | ⟨hnone, t, s₀, x, hl, rfl, -, rfl⟩
  · refine ⟨⟨⟨_, _, _, hinv'⟩, h.mem, hkernel ▸ h.ne, ?_⟩, fun q hq hqn =>
      hm.othersInArea hinv₁.pages.inv h.mem hn hq hqn, Paging.pageOf_eq_none (.inr hm.new), e, he,
      hentry⟩
    rw [hdirs]
    exact h.tables
  · refine ⟨⟨⟨_, _, _, hinv'⟩, h.mem, ?_, fun i hlo hhi => ?_⟩, fun q hq hqn => ?_,
      Paging.pageOf_eq_none (.inl hnone), e, he, hentry⟩
    · rw [hkernel]
      exact hl.alloc.grown.kernel ▸ h.ne
    · rw [hdirs]
      by_cases hi : i = n / 1024
      · rw [hi, Paging.setDirectoryEntry_tables_self]
        exact fun _ => (hinv₁.pages.inv.heap t (Set.mem_insert t T)).2.1
      · rw [Paging.setDirectoryEntry_tables_of_ne (.inr hi)]
        have hsame := hl.alloc.stackTables (d := d) hinv hlo
        rw [show ((s₀.sys.zeroTable t).directories d).tables i =
          (s.sys.directories d).tables i from hsame]
        exact h.tables i hlo hhi
    · rw [hm.othersInArea hinv₁.pages.inv h.mem hn hq hqn]
      exact hl.stackArea hinv h hnone hq

theorem createProcessPage_inSpace (h : StackSpace D d l.pages) (hn : n < 0x100000)
    (hrun : createProcessPage (loaderEnv env d) l n u = .ok l') :
    PageInSpace D d n u l.pages l'.pages ∧ l'.data = l.data ∧ l'.sectionPages = l.sectionPages := by
  obtain ⟨f, s', hpage, rfl⟩ := loaderEnv_createPage_ok.mp hrun
  exact ⟨h.create hn hpage, rfl, rfl⟩

/-! ## The sections -/

/-- What the sections do around the stack: page `k` is in user mode if it was, or if it is a page of
a section. -/
structure StackInv (D : Set ℕ) (d k : ℕ) (s : Kernel) (l : Loader Kernel) : Prop where
  space : StackSpace D d l.pages
  keeps : UserPage d s.sys k → UserPage d l.pages.sys k
  user : UserPage d l.pages.sys k → UserPage d s.sys k ∨ k ∈ l.sectionPages
  sections : ∀ p ∈ l.sectionPages, InStackArea p → UserPage d l.pages.sys p

/-- A page that is created stays, and so do those that are there. -/
theorem PageInSpace.keeps (h : PageInSpace D d n u s s') (hq : InStackArea q)
    (hpage : s.sys.pageOf d q ≠ none) : s'.sys.pageOf d q = s.sys.pageOf d q := by
  refine h.others q hq ?_
  rintro rfl
  exact hpage h.fresh

theorem PageInSpace.userPage (h : PageInSpace D d n u s s') (hq : InStackArea q)
    (hpage : UserPage d s.sys q) : UserPage d s'.sys q := by
  obtain ⟨e, he, hmode⟩ := hpage
  refine ⟨e, ?_, hmode⟩
  rw [h.keeps hq (by rw [he]; exact Option.some_ne_none e)]
  exact he

theorem stackInv_sectionInv (hk : InStackArea k) :
    SectionInv (loaderEnv env d) (StackInv D d k s) where
  bytes := fun _ _ _ h => ⟨h.space, h.keeps, h.user, h.sections⟩
  importPage := fun l l' h hrun => by
    obtain ⟨hpage, -, hsections⟩ := createProcessPage_inSpace h.space (by decide) hrun
    have hne : k ≠ rawxSectionAddressMaximum / 0x1000 := by
      have hval : rawxSectionAddressMaximum / 0x1000 = 0xBF000 := rfl
      have hlo := hk.1
      omega
    refine ⟨hpage.space, fun hu => hpage.userPage hk (h.keeps hu), fun hu => ?_, fun p hp harea => ?_⟩
    · obtain ⟨e, he, hmode⟩ := hu
      rw [hpage.others k hk hne] at he
      rw [hsections]
      exact h.user ⟨e, he, hmode⟩
    · exact hpage.userPage harea (h.sections p (hsections ▸ hp) harea)
  copied := fun l l' p hp h hrun => by
    obtain ⟨hpage, -, hsections⟩ := createProcessPage_inSpace h.space hp hrun
    refine ⟨hpage.space, fun hu => hpage.userPage hk (h.keeps hu), fun hu => ?_, fun q hq harea => ?_⟩
    · rw [List.mem_append, hsections]
      by_cases hkp : k = p
      · exact .inr (.inr (List.mem_singleton.mpr hkp))
      · obtain ⟨e, he, hmode⟩ := hu
        rw [hpage.others k hk hkp] at he
        exact (h.user ⟨e, he, hmode⟩).imp_right .inl
    · rcases List.mem_append.mp hq with hq | hq
      · have hold := h.sections q (hsections ▸ hq) harea
        have hnew := hpage.userPage harea hold
        exact hnew
      · obtain ⟨e, he, hmode⟩ := hpage.created
        rw [List.mem_singleton.mp hq]
        exact ⟨e, he, hmode⟩

/-- A section that has a page of the stack goes on to the page above the stack. -/
theorem sectionPage_above {address size : ℕ} (ha : address % 0x1000 = 0) (hlt : address < 4294967296)
    (hs : size < 4294967296) (hb : u32 (address + size) < rawxSectionAddressMaximum)
    (hk : 0xBF800 ≤ k) (hk' : k < 0xC0000) (hin : ∃ j < size, k = sectionPage address j) :
    ∃ j < size, 0xC0000 = sectionPage address j := by
  obtain ⟨j, hj, rfl⟩ := hin
  have hmax : rawxSectionAddressMaximum = 0xBF000000 := rfl
  rw [hmax] at hb
  unfold sectionPage u32 at *
  refine ⟨0xC0000000 - address, ?_, ?_⟩ <;> omega

/-! ## The stacks -/

/-- The pages of a stack that the loader accepts. -/
theorem StackFields.pages {data : Mem} (h : StackFields data) :
    0 < headerStackSize data / 0x1000 ∧ headerStackSize data / 0x1000 ≤ 2048 ∧
    headerStackSize data ≤ rawxStackAddress ∧
    (rawxStackAddress - headerStackSize data) / 0x1000 = 0xC0000 - headerStackSize data / 0x1000 := by
  have hpos := h.pos
  have haligned := h.aligned
  have hfits : headerStackSize data / 0x1000 ≤ 2048 := h.fits
  have htop : rawxStackAddress = 0xC0000000 := rfl
  omega

/-- The loop over the pages of a stack. -/
theorem createStackPages_inSpace {address : ℕ} (ha : address < 4294967296) :
    ∀ {n : ℕ} {l l' : Loader Kernel}, n ≤ address / 0x1000 + 1 → StackSpace D d l.pages →
      createStackPages (loaderEnv env d) address u l n = .ok l' →
      StackSpace D d l'.pages ∧ l'.data = l.data ∧ ∀ q, InStackArea q →
        ((∀ i < n, q ≠ address / 0x1000 - i) → l'.pages.sys.pageOf d q = l.pages.sys.pageOf d q) ∧
        ∀ i < n, q = address / 0x1000 - i → l.pages.sys.pageOf d q = none ∧
          ∃ e, l'.pages.sys.pageOf d q = some e ∧ e.userMode = decide (u % 2 = 1)
  | 0, l, l', _, hl, hrun => by
    cases hrun
    exact ⟨hl, rfl, fun q _ => ⟨fun _ => rfl, fun i hi => absurd hi (Nat.not_lt_zero i)⟩⟩
  | n + 1, l, l', hn, hl, hrun => by
    rw [createStackPages] at hrun
    obtain ⟨l₁, hrec, hrun⟩ := bind_eq_ok.mp hrun
    obtain ⟨h₁, hdata₁, hpages₁⟩ := createStackPages_inSpace ha (by omega) hl hrec
    obtain ⟨hpage, hlt⟩ := stackPage_lt ha (show n ≤ address / 0x1000 by omega)
    rw [hpage] at hrun
    obtain ⟨hcreated, hdata, -⟩ := createProcessPage_inSpace h₁ hlt hrun
    refine ⟨hcreated.space, hdata.trans hdata₁, fun q hq => ⟨fun hne => ?_, fun i hi hqi => ?_⟩⟩
    · rw [hcreated.others q hq (hne n (Nat.lt_succ_self n))]
      exact (hpages₁ q hq).1 fun i hi => hne i (by omega)
    · rcases Nat.lt_succ_iff_lt_or_eq.mp hi with hlt' | rfl
      · obtain ⟨hnone, e, he, hmode⟩ := (hpages₁ q hq).2 i hlt' hqi
        refine ⟨hnone, e, ?_, hmode⟩
        rw [hcreated.keeps hq (by rw [he]; exact Option.some_ne_none e)]
        exact he
      · -- the page was not there before this step
        refine ⟨?_, ?_⟩
        · rw [← (hpages₁ q hq).1 fun j hj => by omega, hqi]
          exact hcreated.fresh
        · rw [hqi]
          exact hcreated.created

/-- The kernel stack of a process lies above. -/
theorem kernelStack_inSpace {kernelStack : Bool} (hs : StackSpace D d l.pages)
    (h : if kernelStack then createStackPages (loaderEnv env d) kernelStackAddressInProcessAddressSpace
        0 l kernelStackReservedPagesInProcessAddressSpace = .ok l'
      else l' = l) :
    l'.data = l.data ∧ ∀ q, InStackArea q → l'.pages.sys.pageOf d q = l.pages.sys.pageOf d q := by
  split_ifs at h
  · obtain ⟨-, hdata, hkept⟩ := createStackPages_inSpace (by decide) (by decide) hs h
    refine ⟨hdata, fun q hq => (hkept q hq).1 fun i hi => ?_⟩
    obtain ⟨-, hhi⟩ := hq
    unfold kernelStackReservedPagesInProcessAddressSpace at hi
    unfold kernelStackAddressInProcessAddressSpace
    omega
  · rw [h]
    exact ⟨rfl, fun _ _ => rfl⟩

/-- The pages of a load around the stack: the last page of the declared stack is the process's if it
was or if a section is copied to it, and those between it and `RAWX_STACK_ADDRESS` are the process's.
The page at `RAWX_STACK_ADDRESS` is no section's. -/
theorem rawxLoad_stackPages {length : ℤ} {kernelStack : Bool} {rli : RawxLoadInformation}
    (hs : StackSpace D d l.pages) (hl : l.sectionPages = [])
    (h : rawxLoad (loaderEnv env d) length true kernelStack l = .ok (rli, l')) :
    StackFields l'.data ∧ rli.stackAddress = some rawxStackAddress ∧
    (UserPage d l'.pages.sys (0xC0000 - headerStackSize l'.data / 0x1000) ↔
      UserPage d l.pages.sys (0xC0000 - headerStackSize l'.data / 0x1000) ∨
        CopiedPage (loaderEnv env d) l.data (0xC0000 - headerStackSize l'.data / 0x1000)) ∧
    (∀ i < headerStackSize l'.data / 0x1000, UserPage d l'.pages.sys (0xC0000 - i)) ∧
    ¬ CopiedPage (loaderEnv env d) l.data 0xC0000 := by
  obtain ⟨rli₁, l₁, l₂, hsec, hstack, hkernel⟩ := (rawxLoad_loaded h).parts
  rw [if_pos rfl] at hstack
  obtain ⟨hfields, haddress, hstack⟩ := hstack
  obtain ⟨n, hn⟩ : ∃ n, n = headerStackSize l₁.data / 0x1000 := ⟨_, rfl⟩
  obtain ⟨hpos, hfits, -, -⟩ := hn ▸ hfields.pages
  obtain ⟨k, hk⟩ : ∃ k, k = 0xC0000 - n := ⟨_, rfl⟩
  have harea : InStackArea k := ⟨by omega, by omega⟩
  -- the sections
  have hstart : StackInv D d k l.pages l :=
    ⟨hs, id, .inl, fun p hp => absurd (hl ▸ hp) List.not_mem_nil⟩
  have hinv := (stackInv_sectionInv harea).loadSections hstart hsec
  obtain ⟨-, -, hpages⟩ := loadSections_loaded l.data rfl
    (fun j hj => absurd hj (Nat.not_lt_zero j)) hsec
  have hcopied : ∀ p, p ∈ l₁.sectionPages ↔ CopiedPage (loaderEnv env d) l.data p := fun p => by
    rw [hpages p, hl]
    simp [CopiedPage]
  -- the stack
  have htop : rawxStackAddress / 0x1000 = 0xC0000 := rfl
  rw [← hn] at hstack
  obtain ⟨hs₂, hdata₂, hpages₂⟩ := createStackPages_inSpace (by decide) (by omega) hinv.space hstack
  rw [htop] at hpages₂
  have hfree : ¬ CopiedPage (loaderEnv env d) l.data 0xC0000 := by
    intro hmem
    obtain ⟨e, he, -⟩ := hinv.sections 0xC0000 ((hcopied _).mpr hmem) ⟨by decide, le_rfl⟩
    rw [((hpages₂ 0xC0000 ⟨by decide, le_rfl⟩).2 0 (by omega) rfl).1] at he
    cases he
  obtain ⟨hdata', hlast⟩ := kernelStack_inSpace hs₂ hkernel
  have hdata : l'.data = l₁.data := hdata'.trans hdata₂
  rw [hdata, ← hn, ← hk]
  refine ⟨hfields, haddress, ?_, fun i hi => ?_, hfree⟩
  · have hsame : l'.pages.sys.pageOf d k = l₁.pages.sys.pageOf d k := by
      rw [hlast k harea]
      exact (hpages₂ k harea).1 fun i hi => by omega
    rw [← hcopied]
    refine ⟨fun hu => hinv.user ?_, fun hu => ?_⟩
    · unfold UserPage at hu ⊢
      rw [← hsame]
      exact hu
    · have hold := Or.elim hu hinv.keeps fun hmem => hinv.sections k hmem harea
      unfold UserPage at hold ⊢
      rw [hsame]
      exact hold
  · have hq : InStackArea (0xC0000 - i) := ⟨by omega, by omega⟩
    obtain ⟨-, e, he, hmode⟩ := (hpages₂ _ hq).2 i hi rfl
    exact ⟨e, (hlast _ hq).trans he, hmode⟩

/-! ## The declared stack -/

/-- The stack is present exactly if its last page was there before the load or is a section's. The
size is that of the file as the loader reads it, after the sections. -/
theorem rawxLoad_declaredStack_iff (length : ℤ) (kernelStack : Bool) (rli : RawxLoadInformation)
    (hs : StackSpace D d l.pages) (hl : l.sectionPages = [])
    (h : rawxLoad (loaderEnv env d) length true kernelStack l = .ok (rli, l')) :
    StackPresent d (headerStackSize l'.data) l'.pages.sys ↔
      UserPage d l.pages.sys ((rawxStackAddress - headerStackSize l'.data) / 0x1000) ∨
        CopiedPage (loaderEnv env d) l.data
        ((rawxStackAddress - headerStackSize l'.data) / 0x1000) := by
  obtain ⟨hfields, -, hiff, hpages, -⟩ := rawxLoad_stackPages hs hl h
  obtain ⟨hpos, hfits, hle, hbottom⟩ := hfields.pages
  have htop : rawxStackAddress = 0xC0000000 := rfl
  rw [hbottom, ← hiff]
  constructor
  · intro hall
    have hu := hall (rawxStackAddress - headerStackSize l'.data) le_rfl (by omega)
    rwa [hbottom] at hu
  · intro hu x hlo hhi
    by_cases hx : x / 0x1000 = 0xC0000 - headerStackSize l'.data / 0x1000
    · rwa [hx]
    · have hpage := hpages (0xC0000 - x / 0x1000) (by omega)
      rwa [show 0xC0000 - (0xC0000 - x / 0x1000) = x / 0x1000 by omega] at hpage

/-- The sections are copied with the sizes that were checked: no call address is written over the
`size_bytes` of its own section. -/
def SizesKept {σ : Type} (env : LoaderEnv σ) (data : Mem) : Prop :=
  ∀ i, Reaches env data i →
    copiedSize env (fileAt env data i) i = sectionSizeBytes (fileAt env data i) i

/-- With its checked size, no section has the last page of the stack. -/
theorem rawxLoad_notCopied {length : ℤ} {kernelStack : Bool} {rli : RawxLoadInformation}
    (hs : StackSpace D d l.pages) (hl : l.sectionPages = [])
    (hsizes : SizesKept (loaderEnv env d) l.data)
    (h : rawxLoad (loaderEnv env d) length true kernelStack l = .ok (rli, l')) :
    ¬ CopiedPage (loaderEnv env d) l.data ((rawxStackAddress - headerStackSize l'.data) / 0x1000) := by
  obtain ⟨hfields, -, -, -, hfree⟩ := rawxLoad_stackPages hs hl h
  obtain ⟨hpos, hfits, -, hbottom⟩ := hfields.pages
  rw [hbottom]
  rintro ⟨i, hr, hkind, hin⟩
  obtain ⟨ha, hb⟩ := (rawxLoad_sectionPages hl h).1 i hr
  rw [← hsizes i hr] at hb
  exact hfree ⟨i, hr, hkind, sectionPage_above ha (u32_lt _) (sectionSizeBytes_lt _ i) hb (by omega)
    (by omega) hin⟩

/-- `process_execve` cleans the directory before it loads the image, so its stack is never
present. -/
theorem cleaned_stackMissing {length : ℤ} {kernelStack : Bool} {rli : RawxLoadInformation}
    {m data : Mem}
    (h : KernelInv D T bs live s) (hd : d ∈ D) (hk : d ≠ s.sys.kernelPageDirectory)
    (hclean : pagingCleanAllNonKernelPagesFromPageDirectory uninit s d = .ok s₁)
    (hload : rawxLoad (loaderEnv env d) length true kernelStack ⟨s₁, m, data, []⟩ = .ok (rli, l'))
    (hsizes : SizesKept (loaderEnv env d) data) :
    ¬ StackPresent d (headerStackSize l'.data) l'.pages.sys := by
  have hc := pagingClean_ok h hd hk hclean
  obtain ⟨T₁, bs₁, live₁, h₁, -⟩ := hc.inv
  have hpart : ∀ k, InStackArea k ∨ 766 ≤ k / 1024 ∧ k / 1024 ≤ 768 → ¬ isPagePartOfKernelStack k := by
    unfold InStackArea isPagePartOfKernelStack kernelStackLastPage
    omega
  have hspace : StackSpace D d s₁ := by
    refine ⟨⟨_, _, _, h₁⟩, hd, hc.kernel ▸ hk, fun i hlo hhi hne => absurd ?_ hne⟩
    exact pagingClean_noTables h hd hk hclean i (by omega) (by omega) fun k hk' =>
      hpart k (.inr (by omega))
  obtain ⟨hfields, -⟩ := rawxLoad_stackPages hspace rfl hload
  obtain ⟨hpos, hfits, -, hbottom⟩ := hfields.pages
  have harea : InStackArea ((rawxStackAddress - headerStackSize l'.data) / 0x1000) :=
    ⟨by omega, by omega⟩
  rw [rawxLoad_declaredStack_iff length kernelStack rli hspace rfl hload]
  rintro (⟨e, he, -⟩ | hcopied)
  · rw [hc.pages _ (by omega) (by omega), if_neg (hpart _ (.inl harea))] at he
    cases he
  · exact rawxLoad_notCopied hspace rfl hsizes hload hcopied

/-! ## Two loads -/

/-- A directory without tables. -/
theorem exists_emptyDirectory (env : ProcessEnv) : ∃ (s : Kernel) (D : Set ℕ) (c brk : ℕ),
    StackSpace D c s ∧ brk ≤ 0x600000 ∧ KernelReady 0x800000 0x800000 20480 brk s ∧
      ∀ i, (s.sys.directories c).tables i = 0 := by
  obtain ⟨src, s, brk, hbrk, -, -, -, hspace⟩ := exists_imageInRam env bareKeyboard
  obtain ⟨T, bs, live, hinv, -⟩ := hspace.run.inv
  obtain ⟨s₀, halloc, brk₀, hbrk₀, hready⟩ := hspace.ready.allocPage env.uninit sizeofPageDirectory
    hinv (by unfold sizeofPageDirectory; omega)
  unfold sizeofPageDirectory at hbrk₀
  obtain ⟨c, hc⟩ : ∃ c, c = roundUp (brk + 12) := ⟨_, rfl⟩
  rw [← hc] at halloc
  have ha := kallocHeapAlloc_ok hinv validAlignment_page halloc
  obtain ⟨hcD, hnew⟩ := @DirectoryCopied.alloc _ _ _ _ _ _ s.sys.kernelPageDirectory _ hinv ha
  obtain ⟨bs₀, hinv₀⟩ := hnew.inv
  have hne : s₀.sys.kernelPageDirectory ≠ c := by
    rw [ha.grown.kernel]
    exact fun heq => hcD (Set.mem_singleton_iff.mpr heq.symm)
  have hself : (s₀.sys.zeroDirectory c).directories c = PageDirectory.zero :=
    Function.update_self ..
  have hempty : ∀ i, ((s₀.sys.zeroDirectory c).directories c).tables i = 0 := fun i => by
    rw [hself]
    rfl
  refine ⟨_, _, c, brk₀, ⟨⟨_, _, _, hinv₀⟩, Set.mem_insert _ _, hne.symm, fun i _ _ hi => ?_⟩,
    by omega, hready.zeroDirectory hne le_rfl, hempty⟩
  exact absurd (hempty i) hi

/-- The image has one page of stack. -/
theorem exists_stackLoad (env : ProcessEnv) : ∃ (s : Kernel) (D : Set ℕ) (c : ℕ)
    (rli : RawxLoadInformation) (l' : Loader Kernel), StackSpace D c s ∧
    rawxLoad (loaderEnv env c) 28 true false ⟨s, fun _ => 0, emptyImage, []⟩ = .ok (rli, l') ∧
    ∀ q, s.sys.pageOf c q = none := by
  obtain ⟨s, D, c, brk, hspace, hbrk, hready, hempty⟩ := exists_emptyDirectory env
  obtain ⟨T, bs, live, hinv⟩ := hspace.inv
  have hnone : ∀ q, s.sys.pageOf c q = none := fun q => Paging.pageOf_eq_none (.inl (hempty _))
  obtain ⟨f, s', hcreate, -⟩ : ∃ f s',
      pagingCreateProcessPageWithAnyFrame env.uninit s c 0xC0000 1 = .ok (f, s') ∧ _ :=
    pagingCreateProcessPage_go hinv hready hspace.mem hspace.ne (hnone 0xC0000) (.inl (hempty _))
      (by decide) fun _ => by omega
  obtain ⟨l, hl⟩ : ∃ l : Loader Kernel, l = ⟨s, fun _ => 0, emptyImage, []⟩ := ⟨_, rfl⟩
  obtain ⟨l₁, hpage⟩ : ∃ l₁, createProcessPage (loaderEnv env c) l 0xC0000 1 = .ok l₁ := by
    refine ⟨_, loaderEnv_createPage_ok.mpr ⟨f, s', ?_, rfl⟩⟩
    rw [hl, hcreate]
  have hsame : ∀ x < 28, l.data x = emptyImage x := fun x _ => by rw [hl]
  obtain ⟨hheader, -⟩ := emptyImage_accepted hsame
  have hsize : headerStackSize l.data = 0x1000 := file32_emptyImage hsame (by decide)
  have hstack : createStackPages (loaderEnv env c) rawxStackAddress 1 l 1 = .ok l₁ := by
    show (do
      let l ← Except.ok l
      createProcessPage (loaderEnv env c) l 0xC0000 1) = _
    rw [ok_bind, hpage]
  refine ⟨s, D, c, ⟨none, none, some rawxStackAddress,
    some (u32 (headerLoadAddress l₁.data + headerEntryPointOffset l₁.data))⟩, l₁, hspace, ?_, hnone⟩
  rw [← hl]
  unfold rawxLoad createStack createKernelStack
  rw [hheader, ok_bind, loadSections_emptyImage hsame, ok_bind]
  dsimp only
  rw [if_pos rfl, hsize, assert_of_true (by decide), ok_bind, assert_of_true (by decide), ok_bind,
    assert_of_true (by decide), ok_bind, show 0x1000 / 0x1000 = 1 from rfl, hstack]
  rfl

theorem declaredStack_emptyDirectory : ∃ (s : Kernel) (c : ℕ) (l' : Loader Kernel),
    (StackPresent c (headerStackSize l'.data) l'.pages.sys ↔
      UserPage c s.sys ((rawxStackAddress - headerStackSize l'.data) / 0x1000) ∨
        CopiedPage (loaderEnv bareEnv c) emptyImage
          ((rawxStackAddress - headerStackSize l'.data) / 0x1000)) ∧
    ∀ q, s.sys.pageOf c q = none := by
  obtain ⟨s, D, c, rli, l', hspace, hload, hnone⟩ := exists_stackLoad bareEnv
  exact ⟨s, c, l', rawxLoad_declaredStack_iff 28 false rli hspace rfl hload, hnone⟩

/-- The page below `RAWX_STACK_ADDRESS` is not there. -/
theorem not_stackPresent_emptyDirectory : ∃ (s : Kernel) (D : Set ℕ) (c : ℕ)
    (rli : RawxLoadInformation) (l' : Loader Kernel), StackSpace D c s ∧
    rawxLoad (loaderEnv bareEnv c) 28 true false ⟨s, fun _ => 0, emptyImage, []⟩ = .ok (rli, l') ∧
    ¬ StackPresent c (headerStackSize l'.data) l'.pages.sys := by
  obtain ⟨s, D, c, rli, l', hspace, hload, hnone⟩ := exists_stackLoad bareEnv
  refine ⟨s, D, c, rli, l', hspace, hload, fun hall => ?_⟩
  obtain ⟨hfields, -, hiff, -⟩ := rawxLoad_stackPages hspace rfl hload
  obtain ⟨hpos, -, hle, hbottom⟩ := hfields.pages
  have hu := hall (rawxStackAddress - headerStackSize l'.data) le_rfl (by omega)
  rw [hbottom, hiff] at hu
  rcases hu with ⟨e, he, -⟩ | ⟨i, hr, -⟩
  · rw [hnone] at he
    cases he
  · -- the image has no section
    have hcount : headerSectionCount emptyImage = 0 := (emptyImage_accepted fun _ _ => rfl).2
    have hfirst : 0 < headerSectionCount emptyImage := hr 0 (Nat.zero_le i)
    omega

end

end RawOS
