import RawOS.ProcessRun

/-!
# The address spaces of the processes

What a process has above 1 GB are its own pages: as long as the heap of the kernel ends below, a
call of one process changes the pages and the bytes of no other (`SpacesKept`), and what
`process_fork` gives the child is a copy (`processFork_space`).
-/

namespace RawOS

/-- The pages from 1 GB on of the address space of `d`, with their bytes. -/
def spaceOf (p : Paging) (d n : ℕ) : Option (ℕ → UInt8) :=
  if 0x40000 ≤ n ∧ n < 0x100000 then
    (p.pageOf d n).map fun entry => p.frames entry.frameAddress20Bits
  else none

/-- The tables of `d` above 1 GB are blocks of the heap, and none of the kernel's. -/
def PrivateTables (p : Paging) (d : ℕ) : Prop :=
  ∀ i < 1024, 256 ≤ i → (p.directories d).tables i ≠ 0 →
    kernelHeapAddress ≤ (p.directories d).tables i

/-- A part of a call for the directory `d₀`, which leaves the address spaces of the others alone. -/
structure SpacesKept (D : Set ℕ) (d₀ : ℕ) (s s' : Kernel) : Prop where
  le : heapEnd s ≤ heapEnd s'
  space : heapEnd s' ≤ 0x40000000 → ∀ d ∈ D, d ≠ d₀ → PrivateTables s.sys d →
    spaceOf s'.sys d = spaceOf s.sys d
  tables : heapEnd s' ≤ 0x40000000 → ∀ d ∈ D, PrivateTables s.sys d → PrivateTables s'.sys d

section

variable {uninit : Paging → Mem → ℤ} {env : ProcessEnv} {D D' T T' : Set ℕ} {own : Set Live}
  {bs : List Block} {live live' : List Live} {s s' s'' : Kernel} {p p' : Paging} {b : Bitmap}
  {d d₀ c n u f t i x size alignment ptr source : ℕ} {e : PageEntry}

theorem spaceOf_congr
    (h : ∀ n, 0x40000 ≤ n → n < 0x100000 → p'.pageOf d n = p.pageOf d n ∧
      ∀ e, p.pageOf d n = some e → p'.frames e.frameAddress20Bits = p.frames e.frameAddress20Bits) :
    spaceOf p' d = spaceOf p d := by
  funext n
  unfold spaceOf
  split_ifs with hn
  · obtain ⟨hpage, hframe⟩ := h n hn.1 hn.2
    rw [hpage]
    cases he : p.pageOf d n with
    | none => rfl
    | some e => exact congrArg some (hframe e he)
  · rfl

theorem PrivateTables.congr (h : PrivateTables p d)
    (ht : ∀ i < 1024, 256 ≤ i → (p'.directories d).tables i = (p.directories d).tables i) :
    PrivateTables p' d := by
  intro i hi hle hne
  rw [ht i hi hle] at hne ⊢
  exact h i hi hle hne

/-- Such a table is of no other directory. -/
theorem PrivateTables.mem (h : PrivateTables p d) (hinv : PagingInv D T p) (hd : d ∈ D)
    (hi : i < 1024) (hle : 256 ≤ i) (hne : (p.directories d).tables i ≠ 0) :
    (p.directories d).tables i ∈ T :=
  (hinv.inUse_bounds (hinv.inUse_linked hd hi hne)).2.2.2.mpr (h i hi hle hne)

namespace SpacesKept

theorem refl (D : Set ℕ) (d₀ : ℕ) (s : Kernel) : SpacesKept D d₀ s s :=
  ⟨le_rfl, fun _ _ _ _ _ => rfl, fun _ _ _ h => h⟩

theorem trans (h : SpacesKept D d₀ s s') (h' : SpacesKept D' d₀ s' s'') (hD : D ⊆ D') :
    SpacesKept D d₀ s s'' where
  le := h.le.trans h'.le
  space := fun hend d hd hne ht =>
    have hend' := h'.le.trans hend
    (h'.space hend d (hD hd) hne (h.tables hend' d hd ht)).trans (h.space hend' d hd hne ht)
  tables := fun hend d hd ht =>
    h'.tables hend d (hD hd) (h.tables (h'.le.trans hend) d hd ht)

/-- The ring does not matter. -/
theorem ring {q : List Process} (h : SpacesKept D d₀ s s') :
    SpacesKept D d₀ s { s' with sys := { s'.sys with processes := q } } :=
  ⟨h.le, h.space, h.tables⟩

end SpacesKept

/-- What stays above 1 GB. -/
theorem AboveKept.spaceOf (h : AboveKept 256 D T p p') (hinv : PagingInv D T p) (hd : d ∈ D) :
    spaceOf p' d = spaceOf p d :=
  spaceOf_congr fun n hle hn =>
    ⟨h.pageOf hinv hd hn (by omega), fun e he => h.frames _ (hinv.frame_used hd hn he)⟩

theorem AboveKept.privateTables (h : AboveKept 256 D T p p') (hd : d ∈ D) (ht : PrivateTables p d) :
    PrivateTables p' d :=
  ht.congr fun i hi hle => (h.entries d hd i hi hle).1

theorem AboveKept.spacesKept (hle : heapEnd s ≤ heapEnd s') (hinv : PagingInv D T s.sys)
    (h : heapEnd s' ≤ 0x40000000 → AboveKept 256 D T s.sys s'.sys) : SpacesKept D d₀ s s' where
  le := hle
  space := fun hend _ hd _ _ => (h hend).spaceOf hinv hd
  tables := fun hend _ hd ht => (h hend).privateTables hd ht

/-! ## The heap -/

theorem KernelAlloc.spacesKept (ha : KernelAlloc D T live size alignment s ptr s')
    (h : KernelInv D T bs live s) : SpacesKept D d₀ s s' :=
  AboveKept.spacesKept ha.le h.pages.inv fun hend =>
    ha.aboveKept h.pages.inv le_rfl (le_max_of_le_right hend)

theorem kallocAllocAligned_spaces (d₀ : ℕ) (h : KernelRun uninit s D own)
    (hv : ValidAlignment alignment)
    (hrun : kallocAllocAligned uninit s size alignment = .ok (ptr, s')) : SpacesKept D d₀ s s' := by
  obtain ⟨T, bs, live, hinv, -⟩ := h.inv
  exact (kallocHeapAlloc_ok hinv hv hrun).spacesKept hinv

/-- The heap does not shrink. -/
theorem kallocFree_spaces {l : Live} (d₀ : ℕ) (h : KernelRun uninit s D own) (hl : l ∈ own)
    (hrun : kallocFree uninit s l.ptr = .ok s') : SpacesKept D d₀ s s' := by
  obtain ⟨T, bs, live, hinv, hown⟩ := h.inv
  obtain ⟨bs', -, hsys, hend⟩ := kallocFree_ok hinv.heap (hown.live _ hl) hrun
  refine ⟨hend.ge, fun _ _ _ _ _ => by rw [hsys], fun _ _ _ ht => by rwa [hsys]⟩

/-! ## Cloning -/

theorem DirectoryCloned.spacesKept (hc : DirectoryCloned D T live source s c T' live' s')
    (h : KernelInv D T bs live s) : SpacesKept D d₀ s s' :=
  AboveKept.spacesKept hc.le h.pages.inv fun hend => (hc.kept 256 le_rfl (le_max_of_le_right hend)).1

/-! ## Pages -/

/-- A page of another directory is not that of the entry. -/
theorem PrivateTables.pageOf_setEntry {j : ℕ} {entry : PageEntry} (ht : PrivateTables p d)
    (hinv : PagingInv D T p) (hd : d ∈ D) (hd₀ : d₀ ∈ D) (hne : d ≠ d₀) (hi : i < 1024)
    (hn : n < 0x100000) (hle : 0x40000 ≤ n) :
    (p.setEntry ((p.directories d₀).tables i) j entry).pageOf d n = p.pageOf d n := by
  refine Paging.pageOf_congr rfl fun h0 => Paging.setEntry_of_ne (.inl fun heq => hne ?_)
  have hT := ht.mem hinv hd (i := n / 1024) (by omega) (by omega) h0
  exact (hinv.owned d hd _ (by omega) (by omega) hT d₀ hd₀ i hi heq.symm).1.symm

theorem PageMapped.spacesKept (hm : PageMapped d₀ n u s f b s') (h : KernelInv D T bs live s)
    (hd₀ : d₀ ∈ D) (hn : n < 0x100000) : SpacesKept D d₀ s s' := by
  obtain ⟨-, -, hclaimed, rfl⟩ := hm
  refine ⟨le_rfl, fun _ d hd hne ht => spaceOf_congr fun k hle hk => ⟨?_, fun e he => ?_⟩,
    fun _ _ _ ht => ht⟩
  · exact ht.pageOf_setEntry (p := s.sys) h.pages.inv hd hd₀ hne (by omega) hk hle
  · -- the frame that is claimed was clear
    refine Function.update_of_ne (fun heq => ?_) ..
    rcases h.pages.inv.frame_used hd hk he with hused | hlarge
    · exact hclaimed.clear (heq ▸ hused)
    · exact absurd hclaimed.lt (not_lt.mpr (heq ▸ hlarge))

theorem TableLinked.spacesKept {s₁ : Kernel} (hl : TableLinked D T live d₀ i s t s₁ x)
    (h : KernelInv D T bs live s) :
    SpacesKept D d₀ s { s₁ with sys := (s₁.sys.zeroTable t).setDirectoryEntry d₀ i t x } := by
  obtain ⟨bs₁, h₁⟩ := hl.alloc.inv
  obtain ⟨-, hle, -⟩ := hl.alloc.aligned (by decide)
  refine (hl.alloc.spacesKept h).trans ⟨le_rfl, fun _ d hd hne ht => ?_, fun _ d hd ht => ?_⟩
    subset_rfl
  · refine spaceOf_congr fun n hlo hn => ⟨Paging.pageOf_congr ?_ fun h0 => ?_, fun _ _ => rfl⟩
    · exact Paging.setDirectoryEntry_tables_of_ne (.inl hne)
    · refine congrFun (Paging.zeroTable_of_ne ?_) _
      rintro heq
      exact hl.unused (heq ▸ h₁.pages.inv.inUse_linked hd (by omega) h0)
  · intro k hk hlo hne
    dsimp only at hne ⊢
    by_cases hentry : d = d₀ ∧ k = i
    · obtain ⟨rfl, rfl⟩ := hentry
      rwa [Paging.setDirectoryEntry_tables_self]
    · rw [Paging.setDirectoryEntry_tables_of_ne (not_and_or.mp hentry)] at hne ⊢
      exact ht k hk hlo hne

theorem pagingCreateProcessPage_spaces (h : KernelRun uninit s D own) (hd : d ∈ D)
    (hk : d ≠ s.sys.kernelPageDirectory) (hn : n < 0x100000)
    (hrun : pagingCreateProcessPageWithAnyFrame uninit s d n u = .ok (f, s')) :
    SpacesKept D d s s' := by
  obtain ⟨T, bs, live, hinv, -⟩ := h.inv
  obtain ⟨s₁, T', bs', live', bitmap, hinv₁, hm, -, hcase⟩ := pagingCreateProcessPage_ok hinv hd hk hrun
  have hm' := hm.spacesKept hinv₁ hd hn
  rcases hcase with ⟨rfl, -, -⟩ | ⟨-, t, s₀, x, hl, -, -, rfl⟩
  · exact hm'
  · exact (hl.spacesKept hinv).trans hm' subset_rfl

/-! ## Cleaning -/

/-- A table that was cleaned stays or is released. -/
theorem TableDone.private (h : TableDone d i p p') (ht : PrivateTables p d) :
    PrivateTables p' d := by
  intro k hk hlo hne
  rcases h with ⟨-, rfl⟩ | ⟨-, q, hc, ⟨-, rfl⟩ | ⟨-, rfl⟩⟩
  · exact ht k hk hlo hne
  · by_cases hki : k = i
    · subst hki
      exact absurd Paging.setDirectoryEntry_tables_self hne
    · rw [Paging.setDirectoryEntry_tables_of_ne (.inr hki), hc.directories] at hne ⊢
      exact ht k hk hlo hne
  · rw [hc.directories] at hne ⊢
    exact ht k hk hlo hne

theorem pagingClean_spaces (h : KernelRun uninit s D own) (hd₀ : d₀ ∈ D)
    (hk : d₀ ≠ s.sys.kernelPageDirectory)
    (hrun : pagingCleanAllNonKernelPagesFromPageDirectory uninit s d₀ = .ok s') :
    SpacesKept D d₀ s s' := by
  obtain ⟨T, bs, live, hinv, -⟩ := h.inv
  have hc := pagingClean_ok hinv hd₀ hk hrun
  refine ⟨hc.heapEnd.ge, fun _ d hd hne ht => spaceOf_congr fun n hlo hn => ⟨?_, fun e _ => ?_⟩,
    fun _ d hd ht => ?_⟩
  · refine Paging.pageOf_congr (by rw [hc.directories d hne]) fun h0 => ?_
    have hT := ht.mem hinv.pages.inv hd (i := n / 1024) (by omega) (by omega) h0
    refine congrFun (hc.tables _ fun i hi hle heq => hne ?_) _
    exact (hinv.pages.inv.owned d hd _ (by omega) (by omega) hT d₀ hd₀ i hi heq).1.symm
  · rw [hc.frames]
  · by_cases hdd : d = d₀
    · subst hdd
      -- each table of the directory in turn
      refine (forLoop_ok (P := fun n s' => DirectoryCleaned D T live d (256 + n) s s' ∧
        PrivateTables s'.sys d) ⟨.refl hinv, ht⟩ ?_ hrun).2
      rintro i hi s₁ s₂ ⟨hc₁, ht₁⟩ hstep
      refine ⟨hc₁.step hinv hd hk (by omega) (by omega) hstep, ?_⟩
      obtain ⟨T₁, bs₁, live₁, hinv₁, -⟩ := hc₁.inv
      exact (cleanTable_ok hinv₁ hd (hc₁.kernel ▸ hk) (by omega) (by omega) hstep).done.private ht₁
    · exact ht.congr fun i _ _ => by rw [hc.directories d hdd]

/-! ## `process_fork` -/

/-- A clone has copies of the pages, in tables of its own. -/
theorem Cloned.space (h : Cloned D own source c p p') : spaceOf p' c = spaceOf p source := by
  funext n
  unfold spaceOf
  split_ifs with hn
  · cases hsource : p.pageOf source n with
    | none =>
      rw [h.absent n hn.2 hn.1 hsource]
      rfl
    | some entry =>
      obtain ⟨entry', hpage, hcopy, -⟩ := h.copied n hn.2 hn.1 entry hsource
      rw [hpage]
      exact congrArg some hcopy.bytes
  · rfl

theorem Cloned.privateTables (h : Cloned D own source c p p') : PrivateTables p' c :=
  fun i hi hle hne => (h.fresh i hi hle hne).heap

theorem pagingClone_spaces (d₀ : ℕ) (h : KernelRun uninit s D own) (hsource : source ∈ D)
    (hrun : pagingClonePageDirectoryForNewProcess uninit s source = .ok (c, s')) :
    SpacesKept D d₀ s s' ∧ (heapEnd s' ≤ 0x40000000 → Cloned D own source c s.sys s'.sys) := by
  obtain ⟨T, bs, live, hinv, -⟩ := h.inv
  obtain ⟨T', live', hc⟩ := pagingClone_ok hinv hsource hrun
  exact ⟨hc.spacesKept hinv, fun hend => (pagingClone_cloned_iff h hsource hrun).mpr
    ((hinv.clone_le_iff hsource hrun).mp (le_max_of_le_right hend))⟩

/-- The frame of a page, from its address. -/
theorem pageFrameAddress_eq (hn : n < 0x100000) (hpage : p.pageOf d n = some e)
    (hlt : e.frameAddress20Bits < availableFramesNum) {a : ℕ}
    (ha : pagingGetPageFrameAddress p d n = .ok a) : a / 0x1000 = e.frameAddress20Bits := by
  obtain ⟨hne, -, rfl⟩ := Paging.pageOf_eq_some.mp hpage
  have hnum : u32 (n * 0x1000) / 4096 = n := by
    rw [u32_of_lt (by omega)]
    omega
  have hoffset : u32 (n * 0x1000) % 4096 = 0 := by
    rw [u32_of_lt (by omega)]
    omega
  unfold pagingGetPageFrameAddress getPhysicalAddressOfVirtualAddress at ha
  rw [hnum, hoffset] at ha
  dsimp only at ha
  rw [if_neg hne, Nat.add_zero, u32_of_lt] at ha
  · obtain rfl := Except.ok.inj ha
    omega
  · unfold availableFramesNum physicalRamSize at hlt
    omega

/-- The copy of the kernel stack finds the bytes there already: the clone has them. -/
theorem copyKernelStack_same {b b' : Bool} (hs : HasKernelStack b p source)
    (hc : HasKernelStack b' p c) (hspace : spaceOf p c = spaceOf p source)
    (hrun : copyKernelStack source c p = .ok p') : p' = p := by
  refine forLoop_ok (P := fun _ p' => p' = p) rfl ?_ hrun
  intro i hi p₁ p₂ hp₁ hstep
  subst hp₁
  have hpage : kernelStackAddressInProcessAddressSpace / 0x1000 - i = 0xF0000 - i := rfl
  have hnum : kernelStackReservedPagesInProcessAddressSpace = 2048 := rfl
  rw [hnum] at hi
  obtain ⟨dst, hdst, hstep⟩ := bind_eq_ok.mp hstep
  obtain ⟨src, hsrc, hstep⟩ := bind_eq_ok.mp hstep
  cases hstep
  rw [hpage] at hdst hsrc
  have hstack : InKernelStack (0xF0000 - i) := by
    unfold InKernelStack kernelStackLastPage
    omega
  obtain ⟨e, he, -, helt⟩ := hs _ hstack
  obtain ⟨e', he', -, helt'⟩ := hc _ hstack
  rw [pageFrameAddress_eq (by omega) he' helt' hdst, pageFrameAddress_eq (by omega) he helt hsrc]
  -- the bytes of the two pages are the same
  have hbytes : p₁.frames e'.frameAddress20Bits = p₁.frames e.frameAddress20Bits := by
    have hat := congrFun hspace (0xF0000 - i)
    have hn : 0x40000 ≤ 0xF0000 - i ∧ 0xF0000 - i < 0x100000 := by omega
    unfold spaceOf at hat
    rw [if_pos hn, if_pos hn, he, he', Option.map_some, Option.map_some] at hat
    exact Option.some.inj hat
  unfold pagingCopyFrame
  rw [← hbytes, Function.update_eq_self]

/-- The ring does not matter for an address space. -/
theorem spaceOf_setProcess {g : Process → Process} : spaceOf (p.setProcess x g) d = spaceOf p d := rfl

theorem hasKernelStack_setProcess {b : Bool} {g : Process → Process} :
    HasKernelStack b (p.setProcess x g) d ↔ HasKernelStack b p d := .rfl

/-- `process_fork` gives the child a copy of the address space, and leaves all others alone. -/
theorem processFork_spaces {sys sys' : System} {outcome : Outcome}
    (h : KernelRun env.uninit sys.kernel D own)
    (hstack : ∀ q ∈ sys.kernel.sys.processes, ∃ d b, q.pageDirectory = some d ∧
      HasKernelStack b sys.kernel.sys d)
    (hrecords : ∀ q ∈ sys.kernel.sys.processes, recordAt q.address ∈ own)
    (hrun : processFork env sys = .ok (outcome, sys')) :
    heapEnd sys.kernel ≤ heapEnd sys'.kernel ∧ (heapEnd sys'.kernel ≤ 0x40000000 →
      ∃ active q address source c, sys.kernel.sys.processes = active :: q ∧
        active.pageDirectory = some source ∧
        sys'.kernel.sys.processes = active :: q ++ [⟨address, sys.currentPid, some c⟩] ∧
        SpacesKept D c sys.kernel sys'.kernel ∧ c ∉ D ∧
        spaceOf sys'.kernel.sys c = spaceOf sys.kernel.sys source ∧
        PrivateTables sys'.kernel.sys c) := by
  obtain ⟨⟨address, s₁⟩, halloc, hrun⟩ := bind_eq_ok.mp hrun
  obtain ⟨hkept₁, hp₁, hfresh⟩ := kallocAlloc_kept h halloc
  obtain ⟨active, hactive, hrun⟩ := bind_eq_ok.mp hrun
  obtain ⟨source, hsource, hrun⟩ := bind_eq_ok.mp hrun
  obtain ⟨⟨c, s₃⟩, hclone, hrun⟩ := bind_eq_ok.mp hrun
  obtain ⟨p, hcopy, hrun⟩ := bind_eq_ok.mp hrun
  cases hrun
  obtain ⟨q, hq⟩ := activeProcess_eq_ok.mp hactive
  unfold Process.directory at hsource
  rw [assigned_eq_ok] at hsource
  rw [hp₁] at hq
  have hring₁ := hkept₁.ring (q := s₁.sys.processes ++ [⟨address, 0, none⟩]) <| by
    intro r hr d hd
    rcases List.mem_append.mp hr with hr | hr
    · exact hkept₁.run.processes r hr d hd
    · rw [List.mem_singleton.mp hr] at hd
      cases hd
  have hactiveMem : active ∈ sys.kernel.sys.processes := hq ▸ List.mem_cons_self
  have hmem : source ∈ D := h.processes active hactiveMem source hsource
  obtain ⟨d, b, hd, hb⟩ := hstack active hactiveMem
  obtain rfl := Option.some.inj (hsource.symm.trans hd)
  obtain ⟨hkept₃, hp₃, hnew, hchild⟩ := pagingClone_kept hring₁.run hmem hclone
  obtain ⟨hspaces₃, hcloned⟩ := pagingClone_spaces c hring₁.run hmem hclone
  have hspaces₁ : SpacesKept D c sys.kernel s₁ := kallocAllocAligned_spaces c h (.inl rfl) halloc
  dsimp only at hp₃
  rw [hp₁, hq] at hp₃
  have hold : ∀ r ∈ active :: q, r.address ≠ address := fun r hr =>
    hfresh _ (hrecords r (hq ▸ hr))
  obtain ⟨-, hp₅⟩ := forked_processes sys.currentPid hp₃ hold hcopy
  have hspaces : SpacesKept D c sys.kernel s₃ := hspaces₁.ring.trans hspaces₃ subset_rfl
  refine ⟨hspaces.le, fun hend => ?_⟩
  -- the copy of the stack changes nothing
  have hclone' := hcloned hend
  have hb₁ := hkept₁.keeps.has hmem hb
  have hsource₃ : spaceOf s₃.sys source = spaceOf s₁.sys source := spaceOf_congr fun n hlo hn =>
    ⟨hclone'.mappings source hmem n hn hlo, hclone'.contents source hmem n hn hlo⟩
  have hchild₃ : spaceOf s₃.sys c = spaceOf s₃.sys source := by
    rw [hsource₃]
    exact hclone'.space
  have hsame := copyKernelStack_same
    (hasKernelStack_setProcess.mpr (hkept₃.keeps.has hmem hb₁))
    (hasKernelStack_setProcess.mpr (hchild b hb₁))
    (by rw [spaceOf_setProcess, spaceOf_setProcess, hchild₃]) hcopy
  subst hsame
  have hsource₁ : spaceOf s₁.sys source = spaceOf sys.kernel.sys source := by
    obtain ⟨T, bs, live, hinv, -⟩ := h.inv
    have ha := kallocHeapAlloc_ok hinv (.inl rfl) halloc
    have hend₁ : heapEnd s₁ ≤ 0x40000000 := hspaces₃.le.trans hend
    exact (ha.aboveKept hinv.pages.inv le_rfl (le_max_of_le_right hend₁)).spaceOf hinv.pages.inv hmem
  exact ⟨active, q, address, source, c, hq, hsource, hp₅, ⟨hspaces.le, hspaces.space,
    hspaces.tables⟩, hnew, hclone'.space.trans hsource₁, hclone'.privateTables⟩

/-! ## Stores -/

/-- Bytes that are written to the frames of the pages of `d₀` from 1 GB on, and nowhere else. -/
def StoredTo (p : Paging) (d₀ : ℕ) (frames : ℕ → ℕ → UInt8) : Prop :=
  ∀ f, (∀ n < 0x100000, ∀ e, p.pageOf d₀ n = some e → e.frameAddress20Bits ≠ f) →
    frames f = p.frames f

/-- No other process has them. -/
theorem StoredTo.spaceOf {frames : ℕ → ℕ → UInt8} (h : StoredTo p d₀ frames)
    (hinv : PagingInv D T p) (hd₀ : d₀ ∈ D) (hd : d ∈ D) (hne : d ≠ d₀) (ht : PrivateTables p d) :
    spaceOf { p with frames := frames } d = spaceOf p d := by
  refine spaceOf_congr fun n hlo hn => ⟨rfl, fun e he => h _ fun k hk e' he' heq => hne ?_⟩
  have hT := ht.mem hinv hd (i := n / 1024) (by omega) (by omega) (Paging.pageOf_eq_some.mp he).1
  exact (hinv.alone hd hn hlo hT he d₀ hd₀ k hk e' he' heq).1.symm

theorem StoredTo.spacesKept {frames : ℕ → ℕ → UInt8} {m : Mem} (h : StoredTo s.sys d₀ frames)
    (hinv : PagingInv D T s.sys) (hd₀ : d₀ ∈ D) :
    SpacesKept D d₀ s ⟨s.heap, m, { s.sys with frames := frames }⟩ :=
  ⟨le_rfl, fun _ _ hd hne ht => h.spaceOf hinv hd₀ hd hne ht, fun _ _ _ ht => ht⟩

/-- No page has the frame. -/
theorem pageWithFrame_eq_none
    (hf : ∀ n < 0x100000, ∀ e, p.pageOf d n = some e → e.frameAddress20Bits ≠ f) :
    pageWithFrame p d f = none := by
  have hfind : ∀ k, (∀ n < k, ∀ e, p.pageOf d n = some e → e.frameAddress20Bits ≠ f) →
      (List.range k).find? (fun n =>
        (p.pageOf d n).map PageEntry.frameAddress20Bits = some f) = none := by
    intro k hk
    rw [List.find?_eq_none]
    intro n hn
    rw [decide_eq_true_eq]
    intro hframe
    obtain ⟨e, he, heq⟩ := Option.map_eq_some_iff.mp hframe
    exact hk n (List.mem_range.mp hn) e he heq
  exact hfind 0x100000 hf

theorem storedFrames_none {m : Mem} (h : pageWithFrame p d f = none) :
    storedFrames p d m f = p.frames f := by
  -- the definition is unfolded without its arguments: the kernel would search a million pages
  obtain ⟨stored, hstored⟩ : ∃ stored, stored = storedFrames := ⟨_, rfl⟩
  rw [← hstored]
  delta storedFrames at hstored
  funext o
  rw [hstored]
  beta_reduce
  rw [h]

theorem storedFrames_some {m : Mem} {o : ℕ} (h : pageWithFrame p d f = some n) :
    storedFrames p d m f o = if o < 0x1000 then m (n * 0x1000 + o) else p.frames f o := by
  obtain ⟨stored, hstored⟩ : ∃ stored, stored = storedFrames := ⟨_, rfl⟩
  rw [← hstored]
  delta storedFrames at hstored
  rw [hstored]
  beta_reduce
  rw [h]

theorem storedTo_storedFrames (p : Paging) (d₀ : ℕ) (m : Mem) :
    StoredTo p d₀ (storedFrames p d₀ m) :=
  fun _ hf => storedFrames_none (pageWithFrame_eq_none hf)

/-! ## The load of an image -/

/-- The loader works on the address space of `d`. -/
theorem loaderInv_spaces (hd : d ∈ D) (hk : d ≠ s.sys.kernelPageDirectory) :
    LoaderInv (loaderEnv env d) fun l => LoadKept env D own s l ∧ SpacesKept D d s l.pages where
  bytes := fun _ _ _ h => ⟨⟨h.1.kept, h.1.processes⟩, h.2⟩
  created := fun l l' n u hn h hrun => by
    obtain ⟨hl', -, -⟩ := h.1.create hd hk hn hrun
    obtain ⟨f, s', hpage, rfl⟩ := loaderEnv_createPage_ok.mp hrun
    have hk' : d ≠ l.pages.sys.kernelPageDirectory := by
      rw [h.1.kept.keeps.kernel]
      exact hk
    have hpages := pagingCreateProcessPage_spaces h.1.kept.run hd hk' hn hpage
    exact ⟨⟨hl', h.2.trans hpages subset_rfl⟩, ⟨hl'.kept, hl'.processes⟩, h.2.trans hpages subset_rfl⟩

theorem loadImage_spaces {rli : RawxLoadInformation} {stack kernelStack : Bool} {buffer : ℕ}
    (h : KernelRun env.uninit s D own) (hd : d ∈ D) (hk : d ≠ s.sys.kernelPageDirectory)
    (hrun : loadImage env s d buffer size stack kernelStack = .ok (rli, s')) :
    SpacesKept D d s s' := by
  obtain ⟨memory, l, hload, rfl⟩ := loadImage_loaded hrun
  have hstart : LoadKept env D own s ⟨s, memory, imageFile s buffer, []⟩ :=
    ⟨⟨h, .refl D s.sys, subset_rfl⟩, rfl⟩
  obtain ⟨hkept, hspaces⟩ := (loaderInv_spaces hd hk).rawxLoad ⟨hstart, .refl D d s⟩ hload
  obtain ⟨T, bs, live, hinv, -⟩ := hkept.kept.run.inv
  exact hspaces.trans ((storedTo_storedFrames l.pages.sys d l.mem).spacesKept hinv.pages.inv hd)
    subset_rfl

theorem readImage_spaces {sys : System} {ref : NodeRef} {node : VfsNode} {buffer : ℕ}
    {keyboard : KeyboardState} {m : Mem} (d₀ : ℕ) (h : KernelRun env.uninit sys.kernel D own)
    (hrun : readImage env sys ref node = .ok (buffer, s, some (keyboard, m))) :
    SpacesKept D d₀ sys.kernel { s with mem := m } := by
  obtain ⟨⟨buffer', s'⟩, halloc, hrun⟩ := bind_eq_ok.mp hrun
  obtain ⟨r, hread, hrun⟩ := bind_eq_ok.mp hrun
  cases r with
  | none => cases hrun
  | some r =>
    obtain ⟨r, keyboard', m'⟩ := r
    cases hrun
    have hspaces : SpacesKept D d₀ sys.kernel s :=
      kallocAllocAligned_spaces d₀ h (.inl rfl) halloc
    exact ⟨hspaces.le, hspaces.space, hspaces.tables⟩

/-! ## The other calls -/

/-- `process_init` gives the first process tables of its own. -/
theorem createInitialProcess_spaces {s s' : Kernel} {r : InitialProcess} {pid : ℕ}
    (h : KernelRun env.uninit s D own) (hrun : createInitialProcess env s pid = .ok (r, s')) :
    heapEnd s ≤ heapEnd s' ∧
      (heapEnd s' ≤ 0x40000000 → PrivateTables s'.sys r.directory) := by
  obtain ⟨⟨address, s₁⟩, halloc, hrun⟩ := bind_eq_ok.mp hrun
  obtain ⟨hkept₁, -, -⟩ := kallocAlloc_kept h halloc
  have hspaces₁ : SpacesKept D 0 s s₁ := kallocAllocAligned_spaces 0 h (.inl rfl) halloc
  obtain ⟨⟨slots, s₂⟩, hslots, hrun⟩ := bind_eq_ok.mp hrun
  have hring₁ := hkept₁.ring (q := [⟨address, 0, none⟩]) fun r hr d hd => by
    rw [List.mem_singleton.mp hr] at hd
    cases hd
  obtain ⟨hkept₂, hp₂, -⟩ := kallocAlloc_kept hring₁.run hslots
  have hspaces₂ : SpacesKept D 0 _ s₂ := kallocAllocAligned_spaces 0 hring₁.run (.inl rfl) hslots
  dsimp only at hp₂ hrun
  have hring₂ := (hring₁.trans hkept₂).ring (q := (s₂.sys.setProcess address fun q =>
      { q with pid := pid }).processes) <| by
    intro r hr d hd
    obtain ⟨r', hr', rfl⟩ := List.mem_map.mp hr
    rw [hp₂, List.mem_singleton] at hr'
    subst hr'
    split_ifs at hd
  obtain ⟨⟨c, s₃⟩, hclone, hrun⟩ := bind_eq_ok.mp hrun
  obtain ⟨hspaces₃, hcloned⟩ := pagingClone_spaces 0 hring₂.run hring₂.run.kernel_mem hclone
  obtain ⟨_, -, hrun⟩ := bind_eq_ok.mp hrun
  cases hrun
  exact ⟨(hspaces₁.le.trans hspaces₂.le).trans hspaces₃.le, fun hend =>
    (hcloned hend).privateTables⟩

theorem processInit_spaces {sys sys' : System} {r : InitialProcess} {s : Kernel} {esp eip : ℕ}
    (h : KernelRun env.uninit sys.kernel D own)
    (hcreate : createInitialProcess env sys.kernel sys.currentPid = .ok (r, s))
    (hrun : processInit env sys = .ok (.userMode esp eip, sys')) :
    heapEnd sys.kernel ≤ heapEnd sys'.kernel ∧
      (heapEnd sys'.kernel ≤ 0x40000000 → PrivateTables sys'.kernel.sys r.directory) := by
  obtain ⟨⟨ref, node⟩, -, hrun⟩ := bind_eq_ok.mp hrun
  obtain ⟨⟨r', s'⟩, hcreate', hrun⟩ := bind_eq_ok.mp hrun
  obtain ⟨rfl, rfl⟩ := Prod.mk.inj (Except.ok.inj (hcreate.symm.trans hcreate'))
  obtain ⟨hkept₁, -, hnew, -, -⟩ := createInitialProcess_kept h hcreate
  obtain ⟨hle, htables⟩ := createInitialProcess_spaces h hcreate
  obtain ⟨⟨buffer, s₂, o⟩, hread, hrun⟩ := bind_eq_ok.mp hrun
  dsimp only at hrun
  cases o with
  | none => cases hrun
  | some o =>
    obtain ⟨keyboard, m⟩ := o
    obtain ⟨⟨rli, s₃⟩, hload, hrun⟩ := bind_eq_ok.mp hrun
    obtain ⟨eip', -, hrun⟩ := bind_eq_ok.mp hrun
    cases hrun
    obtain ⟨hkept₂, -, -⟩ := readImage_kept { sys with kernel := s, currentPid := _ }
      hkept₁.run hread
    have hk : r.directory ≠ s₂.sys.kernelPageDirectory := by
      rintro heq
      have hkernel : s₂.sys.kernelPageDirectory = sys.kernel.sys.kernelPageDirectory :=
        (hkept₁.trans hkept₂).keeps.kernel
      exact hnew (heq ▸ hkernel ▸ h.kernel_mem)
    have hspaces₂ := readImage_spaces r.directory hkept₁.run hread
    have hspaces₃ := loadImage_spaces hkept₂.run (.inl rfl) hk hload
    have hspaces := hspaces₂.trans hspaces₃ subset_rfl
    exact ⟨hle.trans hspaces.le, fun hend =>
      hspaces.tables hend _ (.inl rfl) (htables (hspaces.le.trans hend))⟩

/-- `process_execve` of the active process. -/
theorem processExecve_spaces {sys sys' : System} {imagePath : List UInt8} {outcome : Outcome}
    (h : KernelRun env.uninit sys.kernel D own) (hk : OwnDirectories sys.kernel.sys)
    (hlow : NoTablesAbove sys.kernel.sys)
    (hrun : processExecve env sys imagePath = .ok (outcome, sys')) (hwait : outcome ≠ .waiting) :
    sys' = sys ∨ ∃ active q d, sys.kernel.sys.processes = active :: q ∧
      active.pageDirectory = some d ∧ SpacesKept D d sys.kernel sys'.kernel := by
  obtain ⟨o, -, hrun⟩ := bind_eq_ok.mp hrun
  cases o with
  | none =>
    cases hrun
    exact .inl rfl
  | some ref =>
    obtain ⟨node, -, hrun⟩ := bind_eq_ok.mp hrun
    obtain ⟨⟨buffer, s, o⟩, hread, hrun⟩ := bind_eq_ok.mp hrun
    dsimp only at hrun
    cases o with
    | none =>
      cases hrun
      exact absurd rfl hwait
    | some o =>
      obtain ⟨keyboard, m⟩ := o
      obtain ⟨active, hactive, hrun⟩ := bind_eq_ok.mp hrun
      obtain ⟨d, hd, hrun⟩ := bind_eq_ok.mp hrun
      obtain ⟨s₁, hclean, hrun⟩ := bind_eq_ok.mp hrun
      obtain ⟨⟨rli, s₂⟩, hload, hrun⟩ := bind_eq_ok.mp hrun
      obtain ⟨esp, -, hrun⟩ := bind_eq_ok.mp hrun
      obtain ⟨eip, -, hrun⟩ := bind_eq_ok.mp hrun
      cases hrun
      obtain ⟨q, hq⟩ := activeProcess_eq_ok.mp hactive
      unfold Process.directory at hd
      rw [assigned_eq_ok] at hd
      obtain ⟨hkept₁, hp₁, -⟩ := readImage_kept sys h hread
      have hmem : d ∈ D := by
        refine h.processes active ?_ d hd
        rw [← hp₁, hq]
        exact List.mem_cons_self
      have hk₁ : d ≠ s.sys.kernelPageDirectory := by
        have hkernel : s.sys.kernelPageDirectory = sys.kernel.sys.kernelPageDirectory :=
          hkept₁.keeps.kernel
        rw [hkernel]
        exact hk.ne (hp₁ ▸ hq) hd
      obtain ⟨hkept₂, -⟩ := pagingClean_kept hkept₁.run hmem hk₁ (hkept₁.keeps.noTables hlow) hclean
      have hk₂ : d ≠ s₁.sys.kernelPageDirectory := by
        rw [hkept₂.keeps.kernel]
        exact hk₁
      have hspaces₁ := readImage_spaces d h hread
      have hspaces₂ := pagingClean_spaces hkept₁.run hmem hk₁ hclean
      have hspaces₃ := loadImage_spaces hkept₂.run hmem hk₂ hload
      exact .inr ⟨active, q, d, hp₁ ▸ hq, hd,
        (hspaces₁.trans hspaces₂ subset_rfl).trans hspaces₃ subset_rfl⟩

/-- `process_exit` of the active process. -/
theorem processExit_spaces {sys sys' : System} {outcome : Outcome}
    (h : KernelRun env.uninit sys.kernel D own)
    (hrecords : ∀ q ∈ sys.kernel.sys.processes, recordAt q.address ∈ own)
    (hk : OwnDirectories sys.kernel.sys) (hlow : NoTablesAbove sys.kernel.sys)
    (hrun : processExit env sys = .ok (outcome, sys')) :
    ∃ active q d, sys.kernel.sys.processes = active :: q ∧ active.pageDirectory = some d ∧
      SpacesKept D d sys.kernel sys'.kernel := by
  obtain ⟨active, hactive, hrun⟩ := bind_eq_ok.mp hrun
  obtain ⟨d, hd, hrun⟩ := bind_eq_ok.mp hrun
  obtain ⟨s₁, hclean, hrun⟩ := bind_eq_ok.mp hrun
  obtain ⟨s₂, hfree, hrun⟩ := bind_eq_ok.mp hrun
  obtain ⟨q, hq⟩ := activeProcess_eq_ok.mp hactive
  unfold Process.directory at hd
  rw [assigned_eq_ok] at hd
  have hhead : active ∈ sys.kernel.sys.processes := by
    rw [hq]
    exact List.mem_cons_self
  have hmem := h.processes active hhead d hd
  obtain ⟨hkept₁, -⟩ := pagingClean_kept h hmem (hk.ne hq hd) hlow hclean
  have hring := hkept₁.ring (q := s₁.sys.processes.tail) fun r hr =>
    hkept₁.run.processes r (List.mem_of_mem_tail hr)
  have hspaces₁ := pagingClean_spaces h hmem (hk.ne hq hd) hclean
  have hspaces₂ := kallocFree_spaces d hring.run (hrecords active hhead) hfree
  have hspaces : SpacesKept D d sys.kernel s₂ := hspaces₁.ring.trans hspaces₂ subset_rfl
  refine ⟨active, q, d, hq, hd, ?_⟩
  split_ifs at hrun with hlast
  · cases hrun
    exact hspaces
  · obtain ⟨_, -, hrun⟩ := bind_eq_ok.mp hrun
    cases hrun
    exact hspaces

end

end RawOS
