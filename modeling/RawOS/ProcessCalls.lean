import RawOS.Execve
import RawOS.KernelStacks

/-!
# What the calls of `process.c` do to the kernel

Each call is a run of the kernel (`KernelRun`) that keeps the kernel stacks of the processes.
There is one lemma for each part of a call, in the order of `process.c`.
-/

namespace RawOS

/-- A part of a call: a run of the kernel from `s` to `s'` that keeps the kernel stacks. -/
structure CallKept (uninit : Paging → Mem → ℤ) (D : Set ℕ) (s : Kernel) (D' : Set ℕ) (own : Set Live)
    (s' : Kernel) : Prop where
  run : KernelRun uninit s' D' own
  keeps : StacksKept D s.sys s'.sys
  subset : D ⊆ D'

section

variable {uninit : Paging → Mem → ℤ} {env : ProcessEnv} {D D' D'' : Set ℕ} {own own' own'' : Set Live}
  {s s' s'' : Kernel} {sys sys' : System} {ref : NodeRef} {node : VfsNode} {p : Paging} {m m' : Mem}
  {d d' c n u f size alignment ptr buffer source : ℕ} {keyboard keyboard' : KeyboardState}
  {l l' : Loader Kernel} {rli : RawxLoadInformation} {q : List Process} {b : Bool} {l₀ : Live}

namespace CallKept

theorem trans (h : CallKept uninit D s D' own s') (h' : CallKept uninit D' s' D'' own' s'') :
    CallKept uninit D s D'' own' s'' :=
  ⟨h'.run, h.keeps.trans h'.keeps h.subset, h.subset.trans h'.subset⟩

theorem ring (h : CallKept uninit D s D' own s')
    (hq : ∀ r ∈ q, ∀ d, r.pageDirectory = some d → d ∈ D') :
    CallKept uninit D s D' own { s' with sys := { s'.sys with processes := q } } :=
  ⟨h.run.ring hq, h.keeps.trans (.of_eq rfl rfl rfl) h.subset, h.subset⟩

end CallKept

/-- The directories of the ring are among those of the kernel. -/
theorem KernelRun.processes (h : KernelRun uninit s D own) :
    ∀ r ∈ s.sys.processes, ∀ d, r.pageDirectory = some d → d ∈ D := by
  obtain ⟨T, bs, live, hinv, -⟩ := h.inv
  exact hinv.pages.inv.processes

theorem KernelRun.kernel_mem (h : KernelRun uninit s D own) : s.sys.kernelPageDirectory ∈ D := by
  obtain ⟨T, bs, live, hinv, -⟩ := h.inv
  exact hinv.pages.inv.kernel

/-! ## The heap -/

theorem kallocAllocAligned_kept (h : KernelRun uninit s D own) (hv : ValidAlignment alignment)
    (hrun : kallocAllocAligned uninit s size alignment = .ok (ptr, s')) :
    CallKept uninit D s D (insert ⟨ptr, size, alignment⟩ own) s' ∧
      s'.sys.processes = s.sys.processes ∧ ∀ l ∈ own, l.ptr ≠ ptr := by
  obtain ⟨T, bs, live, hinv, hown⟩ := h.inv
  have ha := kallocHeapAlloc_ok hinv hv hrun
  exact ⟨⟨h.alloc hv hrun, ha.stacksKept hinv, subset_rfl⟩, ha.grown.processes,
    fun l hl => ha.fresh l (hown.live l hl)⟩

theorem kallocAlloc_kept (h : KernelRun uninit s D own)
    (hrun : kallocAlloc uninit s size = .ok (ptr, s')) :
    CallKept uninit D s D (insert ⟨ptr, size, 0⟩ own) s' ∧ s'.sys.processes = s.sys.processes ∧
      ∀ l ∈ own, l.ptr ≠ ptr :=
  kallocAllocAligned_kept h (.inl rfl) hrun

theorem kallocFree_kept (h : KernelRun uninit s D own) (hl : l₀ ∈ own)
    (hrun : kallocFree uninit s l₀.ptr = .ok s') :
    CallKept uninit D s D (own \ {l₀}) s' ∧ s'.sys = s.sys := by
  obtain ⟨T, bs, live, hinv, hown⟩ := h.inv
  obtain ⟨bs', -, hsys, -⟩ := kallocFree_ok hinv.heap (hown.live _ hl) hrun
  exact ⟨⟨h.free hl hrun, hsys ▸ .refl D s.sys, subset_rfl⟩, hsys⟩

/-- A store into an allocation. -/
theorem KernelRun.store (h : KernelRun uninit s D own) (hl : l₀ ∈ own) (h0 : l₀.alignment = 0)
    (frames : ℕ → ℕ → UInt8) (hm : ∀ x, x < l₀.ptr ∨ l₀.ptr + l₀.size ≤ x → m x = s.mem x) :
    CallKept uninit D s D own ⟨s.heap, m, { s.sys with frames := frames }⟩ := by
  obtain ⟨T, bs, live, hinv, hown⟩ := h.inv
  refine ⟨h.write fun x _ _ hx => hm x ?_, .of_eq rfl rfl rfl, subset_rfl⟩
  by_contra hin
  exact hx _ hl (hinv.heap.owns (hown.live _ hl) h0 (by omega) (by omega))

/-- The bytes of the frames change. -/
theorem KernelRun.setFrames (h : KernelRun uninit s D own) (frames : ℕ → ℕ → UInt8) :
    CallKept uninit D s D own { s with sys := { s.sys with frames := frames } } :=
  ⟨h.write fun _ _ _ _ => rfl, .of_eq rfl rfl rfl, subset_rfl⟩

/-! ## Address spaces -/

theorem pagingClone_kept (h : KernelRun uninit s D own) (hsource : source ∈ D)
    (hrun : pagingClonePageDirectoryForNewProcess uninit s source = .ok (c, s')) :
    CallKept uninit D s (insert c D) own s' ∧ s'.sys.processes = s.sys.processes ∧ c ∉ D ∧
      ∀ b, HasKernelStack b s.sys source → HasKernelStack true s'.sys c := by
  obtain ⟨T, bs, live, hinv, -⟩ := h.inv
  obtain ⟨T', live', hc⟩ := pagingClone_ok hinv hsource hrun
  exact ⟨⟨h.clone hsource hrun, hc.stacksKept hinv, Set.subset_insert c D⟩, hc.processes, hc.new,
    fun b hb => hc.hasKernelStack hb⟩

theorem pagingCreateProcessPage_kept (h : KernelRun uninit s D own) (hd : d ∈ D)
    (hk : d ≠ s.sys.kernelPageDirectory) (hn : n < 0x100000)
    (hrun : pagingCreateProcessPageWithAnyFrame uninit s d n u = .ok (f, s')) :
    CallKept uninit D s D own s' ∧ s'.sys.processes = s.sys.processes ∧
      ∃ e, s'.sys.pageOf d n = some e ∧ StackEntry (decide (u % 2 = 1)) e := by
  obtain ⟨T, bs, live, hinv, -⟩ := h.inv
  obtain ⟨hkept, hpage⟩ := pagingCreateProcessPage_stacksKept hinv hd hk hrun
  refine ⟨⟨h.processPage hd hk hn hrun, hkept, subset_rfl⟩, ?_, hpage⟩
  obtain ⟨s₁, T', bs', live', bitmap, -, hm, -, hcase⟩ := pagingCreateProcessPage_ok hinv hd hk hrun
  rw [hm.result]
  rcases hcase with ⟨rfl, -, -⟩ | ⟨-, t, s₀, x, hl, -, -, rfl⟩
  · rfl
  · exact hl.alloc.grown.processes

theorem pagingClean_kept (h : KernelRun uninit s D own) (hd : d ∈ D)
    (hk : d ≠ s.sys.kernelPageDirectory) (hlow : NoTablesAbove s.sys)
    (hrun : pagingCleanAllNonKernelPagesFromPageDirectory uninit s d = .ok s') :
    CallKept uninit D s D own s' ∧ s'.sys.processes = s.sys.processes := by
  obtain ⟨T, bs, live, hinv, -⟩ := h.inv
  have hc := pagingClean_ok hinv hd hk hrun
  exact ⟨⟨h.clean hd hk hrun, hc.stacksKept hinv hd hk hlow, subset_rfl⟩, hc.processes⟩

/-! ## The file of an image -/

/-- A read with interrupts off writes to its buffer alone. -/
theorem vfsRead_outside {initrd : Initrd} {kerb offset buf : ℕ} {r : ℤ}
    (h : vfsRead initrd ref keyboard m kerb [] offset size buf = .ok (some (r, keyboard', m'))) :
    ∀ x, x < buf ∨ buf + size ≤ x → m' x = m x := by
  intro x hx
  unfold vfsRead at h
  cases hnode : initrd.node ref with
  | none =>
    rw [hnode] at h
    cases h
  | some node =>
    rw [hnode] at h
    dsimp only at h
    cases hread : node.read with
    | none =>
      rw [hread] at h
      cases h
      rfl
    | some fn =>
      cases fn with
      | initrdRead =>
        rw [hread] at h
        obtain ⟨⟨r', m''⟩, hrun, h⟩ := bind_eq_ok.mp h
        cases h
        unfold initrdRead at hrun
        split_ifs at hrun
        · cases hrun
          rfl
        · dsimp only at hrun
          split at hrun
          · cases hrun
          · cases hrun
            have hle := Nat.min_le_left size (u32Sub node.size offset)
            exact memcpy_of_outside (by omega)
      | devRead =>
        rw [hread] at h
        dsimp only at h
        unfold devRead at h
        split_ifs at h with hkey
        · obtain ⟨⟨k', m''⟩, hrun, h⟩ := bind_eq_ok.mp h
          -- nothing is received
          obtain ⟨m₁, hok, hfull, hrec⟩ := @devReadKeyboard_eq m kerb buf size keyboard
          by_cases hnum : keyboard.keyboardEventBuffersNum < keyboardEventBuffersMax
          · rw [hok hnum] at hrun
            cases hrun
            have hnone : devReadLoop _ m'' kerb [] = some (r, keyboard', m') := Except.ok.inj h
            unfold devReadLoop at hnone
            rw [if_neg (not_not.mpr hrec)] at hnone
            cases hnone
          · exact absurd hrun (hfull (not_lt.mp hnum) _)
        · cases h
          rfl

theorem readImage_kept (sys : System) (h : KernelRun env.uninit sys.kernel D own)
    (hrun : readImage env sys ref node = .ok (buffer, s, some (keyboard, m))) :
    CallKept env.uninit D sys.kernel D (insert ⟨buffer, node.size, 0⟩ own) { s with mem := m } ∧
      s.sys.processes = sys.kernel.sys.processes ∧ ∀ l ∈ own, l.ptr ≠ buffer := by
  obtain ⟨⟨buffer', s'⟩, halloc, hrun⟩ := bind_eq_ok.mp hrun
  obtain ⟨r, hread, hrun⟩ := bind_eq_ok.mp hrun
  cases r with
  | none => cases hrun
  | some r =>
    obtain ⟨r, keyboard', m'⟩ := r
    cases hrun
    obtain ⟨hkept, hprocesses, hfresh⟩ := kallocAlloc_kept h halloc
    have hstore := hkept.run.store (.inl rfl) rfl s.sys.frames (vfsRead_outside hread)
    exact ⟨hkept.trans hstore, hprocesses, hfresh⟩

/-! ## The load -/

/-- The loader works on the directory `d` of a process. -/
structure LoadKept (env : ProcessEnv) (D : Set ℕ) (own : Set Live) (s : Kernel) (l : Loader Kernel) :
    Prop where
  kept : CallKept env.uninit D s D own l.pages
  processes : l.pages.sys.processes = s.sys.processes

theorem loaderEnv_createPage_ok : createProcessPage (loaderEnv env d) l n u = .ok l' ↔
    ∃ f s', pagingCreateProcessPageWithAnyFrame env.uninit l.pages d n u = .ok (f, s') ∧
      l' = { l with pages := s', mem := store8 l.mem (n * 0x1000) 0xAB } := by
  rw [createProcessPage_ok]
  constructor
  · rintro ⟨pages, hcreate, hl'⟩
    obtain ⟨⟨f, s'⟩, hpage, hcreate⟩ := bind_eq_ok.mp hcreate
    cases hcreate
    exact ⟨f, pages, hpage, hl'⟩
  · rintro ⟨f, s', hpage, hl'⟩
    exact ⟨s', bind_eq_ok.mpr ⟨(f, s'), hpage, rfl⟩, hl'⟩

theorem LoadKept.create (h : LoadKept env D own s l) (hd : d ∈ D)
    (hk : d ≠ s.sys.kernelPageDirectory) (hn : n < 0x100000)
    (hrun : createProcessPage (loaderEnv env d) l n u = .ok l') :
    LoadKept env D own s l' ∧ StacksKept D l.pages.sys l'.pages.sys ∧
      ∃ e, l'.pages.sys.pageOf d n = some e ∧ StackEntry (decide (u % 2 = 1)) e := by
  obtain ⟨f, s', hpage, rfl⟩ := loaderEnv_createPage_ok.mp hrun
  have hk' : d ≠ l.pages.sys.kernelPageDirectory := by
    rw [h.kept.keeps.kernel]
    exact hk
  obtain ⟨hkept, hprocesses, he⟩ := pagingCreateProcessPage_kept h.kept.run hd hk' hn hpage
  exact ⟨⟨h.kept.trans hkept, hprocesses.trans h.processes⟩, hkept.keeps, he⟩

theorem loadKept_loaderInv (hd : d ∈ D) (hk : d ≠ s.sys.kernelPageDirectory) :
    LoaderInv (loaderEnv env d) (LoadKept env D own s) where
  bytes := fun _ _ _ h => ⟨h.kept, h.processes⟩
  created := fun l l' p u hp h hrun => by
    obtain ⟨hl', -⟩ := h.create hd hk hp hrun
    exact ⟨hl', hl'.kept, hl'.processes⟩

/-- The pages of the kernel stack that were created are in kernel mode. -/
theorem createKernelStackPages_kept (hd : d ∈ D) (hk : d ≠ s.sys.kernelPageDirectory) :
    ∀ {n : ℕ} {l l' : Loader Kernel}, n ≤ 2048 → LoadKept env D own s l →
      createStackPages (loaderEnv env d) kernelStackAddressInProcessAddressSpace 0 l n = .ok l' →
      LoadKept env D own s l' ∧ ∀ k < n, ∃ e,
        l'.pages.sys.pageOf d (kernelStackLastPage - k) = some e ∧ StackEntry false e
  | 0, _, _, _, h, hrun => by
    cases hrun
    exact ⟨h, fun k hk => absurd hk (Nat.not_lt_zero k)⟩
  | n + 1, l, l', hn, h, hrun => by
    rw [createStackPages] at hrun
    obtain ⟨l₁, hrec, hrun⟩ := bind_eq_ok.mp hrun
    obtain ⟨h₁, hpages⟩ := createKernelStackPages_kept hd hk (by omega) h hrec
    have hpage : u32Sub (kernelStackAddressInProcessAddressSpace / 0x1000) n =
      kernelStackLastPage - n := by
      have hlast : kernelStackLastPage = 0xF0000 := rfl
      have haddr : kernelStackAddressInProcessAddressSpace / 0x1000 = 0xF0000 := rfl
      rw [haddr, hlast, u32Sub_of_le (by omega) (by omega)]
    rw [hpage] at hrun
    obtain ⟨h', hkept, e, he, hmode⟩ := h₁.create hd hk
      (lt_of_le_of_lt (Nat.sub_le _ n) (by decide : kernelStackLastPage < 0x100000)) hrun
    refine ⟨h', fun k hk' => ?_⟩
    rcases Nat.lt_succ_iff_lt_or_eq.mp hk' with hlt | rfl
    · obtain ⟨e', he', hmode'⟩ := hpages k hlt
      have hin : InKernelStack (kernelStackLastPage - k) := by
        unfold InKernelStack kernelStackLastPage
        omega
      exact ⟨e', hkept.pages d hd _ hin e' he', hmode'⟩
    · exact ⟨e, he, hmode⟩

theorem createKernelStack_kept (hd : d ∈ D) (hk : d ≠ s.sys.kernelPageDirectory)
    (h : LoadKept env D own s l)
    (hrun : createStackPages (loaderEnv env d) kernelStackAddressInProcessAddressSpace 0 l
      kernelStackReservedPagesInProcessAddressSpace = .ok l') :
    LoadKept env D own s l' ∧ HasKernelStack false l'.pages.sys d := by
  obtain ⟨h', hpages⟩ := createKernelStackPages_kept hd hk le_rfl h hrun
  refine ⟨h', fun n hn => ?_⟩
  obtain ⟨hlo, hhi⟩ := hn.bounds
  obtain ⟨e, he, hmode⟩ := hpages (0xF0000 - n)
    (by omega)
  have hsame : kernelStackLastPage - (0xF0000 - n) = n := by
    unfold kernelStackLastPage
    omega
  rw [hsame] at he
  exact ⟨e, he, hmode⟩

theorem loadedKernel_processes :
    (loadedKernel buffer size d l).sys.processes = l.pages.sys.processes := by
  -- for any frames: those that are stored are not to be computed
  have h : ∀ frames, ({ l.pages.sys with frames := frames } : Paging).processes =
      l.pages.sys.processes := fun _ => rfl
  exact h (storedFrames l.pages.sys d l.mem)

theorem loadedKernel_kernelPageDirectory :
    (loadedKernel buffer size d l).sys.kernelPageDirectory = l.pages.sys.kernelPageDirectory := by
  have h : ∀ frames, ({ l.pages.sys with frames := frames } : Paging).kernelPageDirectory =
      l.pages.sys.kernelPageDirectory := fun _ => rfl
  exact h (storedFrames l.pages.sys d l.mem)

/-- The load of an image of the file at `buffer`. -/
theorem loadImage_kept {stack kernelStack : Bool} (h : KernelRun env.uninit s D own) (hd : d ∈ D)
    (hk : d ≠ s.sys.kernelPageDirectory) (hbuffer : ⟨buffer, size, 0⟩ ∈ own)
    (hrun : loadImage env s d buffer size stack kernelStack = .ok (rli, s')) :
    CallKept env.uninit D s D own s' ∧ s'.sys.processes = s.sys.processes ∧
      (kernelStack = true → HasKernelStack false s'.sys d) := by
  obtain ⟨memory, l, hload, rfl⟩ := loadImage_loaded hrun
  have hstart : LoadKept env D own s ⟨s, memory, imageFile s buffer, []⟩ :=
    ⟨⟨h, .refl D s.sys, subset_rfl⟩, rfl⟩
  have hl := (loadKept_loaderInv hd hk).rawxLoad hstart hload
  have hmem : ∀ x, x < buffer ∨ buffer + size ≤ x →
      (loadedKernel buffer size d l).mem x = l.pages.mem x := fun x hx => if_neg (by omega)
  have hstore : CallKept env.uninit D l.pages D own (loadedKernel buffer size d l) :=
    hl.kept.run.store hbuffer rfl (storedFrames l.pages.sys d l.mem) hmem
  have hprocesses : (loadedKernel buffer size d l).sys.processes = s.sys.processes := by
    rw [loadedKernel_processes]
    exact hl.processes
  refine ⟨hl.kept.trans hstore, hprocesses, fun hstack => ?_⟩
  obtain ⟨rli₁, l₁, l₂, hsec, hcreate, hkernel⟩ := (rawxLoad_loaded hload).parts
  subst hstack
  rw [if_pos rfl] at hkernel
  have hl₂ : LoadKept env D own s l₂ := by
    have hl₁ := (loadKept_loaderInv hd hk).sections.loadSections hstart hsec
    cases stack with
    | true =>
      rw [if_pos rfl] at hcreate
      exact (loadKept_loaderInv hd hk).stack hcreate.1 hl₁ hcreate.2.2
    | false =>
      rw [if_neg Bool.false_ne_true] at hcreate
      exact hcreate ▸ hl₁
  obtain ⟨-, hhas⟩ := createKernelStack_kept hd hk hl₂ hkernel
  exact hstore.keeps.has hd hhas

end

end RawOS
