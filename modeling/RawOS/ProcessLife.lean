import RawOS.ProcessStart

/-!
# What the life of a process leaves behind

`processRun_protected_iff`: the kernel stacks are out of reach of user code just as long as no
process that `process_fork` made is alive. A file that is no image stops the kernel in
`process_execve`, and `process_exit` gives back neither the page directory of a process nor its
kernel stack (`processExit_leaks`).
-/

namespace RawOS

section

variable {env : ProcessEnv} {own : Set Live} {sys sys' : System} {p : Paging} {first : Option ℕ}
  {outcome : Outcome} {imagePath : List UInt8} {ref : NodeRef} {node : VfsNode} {d n : ℕ} {b : Bool}
  {active : Process} {q : List Process}

/-! ## The kernel stacks -/

/-- User code cannot reach the kernel stack of a live process. -/
def StacksProtected (p : Paging) : Prop :=
  ∀ q ∈ p.processes, ∀ d, q.pageDirectory = some d → ∀ n, InKernelStack n →
    ∀ e, p.pageOf d n = some e → e.userMode = false

theorem HasKernelStack.protected_iff (h : HasKernelStack b p d) :
    (∀ n, InKernelStack n → ∀ e, p.pageOf d n = some e → e.userMode = false) ↔ b = false := by
  refine ⟨fun hall => ?_, fun hb n hn e he => ?_⟩
  · have hlast : InKernelStack kernelStackLastPage := ⟨Nat.sub_le _ _, le_rfl⟩
    obtain ⟨e, he, hmode, -⟩ := h _ hlast
    rw [← hmode]
    exact hall _ hlast e he
  · obtain ⟨e', he', hmode, -⟩ := h n hn
    obtain rfl := Option.some.inj (he.symm.trans he')
    exact hmode.trans hb

/-- The kernel stacks are out of reach of user code just as long as no process lives but the one
that `process_init` made: `paging_clone_page_directory_for_new_process` sets `user_mode` in every
page. -/
theorem processRun_protected_iff (h : ProcessRun env sys own first) :
    StacksProtected sys.kernel.sys ↔
      ∀ q ∈ sys.kernel.sys.processes, first = some q.address := by
  obtain ⟨D, all, -, -, -, hring⟩ := h.inv
  refine ⟨fun hprotected q hq => ?_, fun hfirst q hq d hd => ?_⟩
  · obtain ⟨d, hd, hstack⟩ := hring.stack q hq
    have hmode := hstack.protected_iff.mp (hprotected q hq d hd)
    exact not_not.mp (decide_eq_false_iff_not.mp hmode)
  · obtain ⟨d', hd', hstack⟩ := hring.stack q hq
    obtain rfl := Option.some.inj (hd.symm.trans hd')
    apply hstack.protected_iff.mpr
    rw [decide_eq_false_iff_not, not_not]
    exact hfirst q hq

/-- The first process alone is protected. -/
theorem processRun_protected_initial : ∃ sys own a, ProcessRun bareEnv sys own (some a) ∧
    StacksProtected sys.kernel.sys := by
  obtain ⟨sys, own, src, a, pid, d, D, all, brk, -, hrun, -, hready⟩ :=
    exists_initialProcess bareEnv bareKeyboard
  refine ⟨sys, own, a, hrun, (processRun_protected_iff hrun).mpr fun q hq => ?_⟩
  rw [hready.ring, List.mem_singleton] at hq
  rw [hq]

/-- With its child it is not. -/
theorem not_protected_forked : ¬ ∀ env sys own first, ProcessRun env sys own first →
    StacksProtected sys.kernel.sys := by
  intro hall
  obtain ⟨sys, own, src, a, pid, d, a', pid', c, D, all, brk, -, hrun, -, hne, hring, -⟩ :=
    exists_child bareEnv bareKeyboard
  obtain ⟨D', all', -, -, -, hinv⟩ := hrun.inv
  obtain ⟨c', hc', hstack⟩ := hinv.stack ⟨a', pid', some c⟩ (by rw [hring]; simp)
  obtain rfl := Option.some.inj hc'
  have hmode := hstack.protected_iff.mp
    (hall bareEnv sys own (some a) hrun ⟨a', pid', some c⟩ (by rw [hring]; simp) c rfl)
  rw [decide_eq_false_iff_not, not_not] at hmode
  exact hne (Option.some.inj hmode).symm

/-! ## `process_execve` -/

/-- The block at `ptr` of the heap is in use. -/
def BlockUsed (s : Kernel) (ptr : ℕ) : Prop :=
  ∃ bs, HeapInv kernelHeapAddress bs s.heap s.mem ∧ ∃ b ∈ bs, b.used = true ∧ b.user = ptr

/-- What the process with the directory `d` had in `s` is free in `s'`. -/
structure GivenBack (process : Process) (d : ℕ) (s s' : Kernel) : Prop where
  frames : ∀ n < 0x100000, 0x40000 ≤ n → ∀ e, s.sys.pageOf d n = some e →
    ¬ s'.sys.availableFrames.Has e.frameAddress20Bits
  record : ¬ BlockUsed s' process.address
  directory : ¬ BlockUsed s' d
  tables : ∀ i < 1024, 256 ≤ i → (s.sys.directories d).tables i ≠ 0 →
    ¬ BlockUsed s' ((s.sys.directories d).tables i)

theorem LiveInv.blockUsed {bs : List Block} {live : List Live} {s : Kernel} {l : Live}
    (h : LiveInv kernelHeapAddress bs live s.heap s.mem) (hl : l ∈ live) : BlockUsed s l.ptr := by
  obtain ⟨b, hb, hbu, hbp, -⟩ := h.held l hl
  exact ⟨bs, h.heap, b, hb, hbu, hbp⟩

/-- A process that ends keeps its page directory and its kernel stack. -/
theorem processExit_leaks (h : ProcessRun env sys own first)
    (hq : sys.kernel.sys.processes = active :: q) (hd : active.pageDirectory = some d)
    (hrun : processExit env sys = .ok (outcome, sys')) :
    BlockUsed sys'.kernel d ∧ ∀ n, InKernelStack n → ∃ e, sys.kernel.sys.pageOf d n = some e ∧
      sys'.kernel.sys.availableFrames.Has e.frameAddress20Bits := by
  obtain ⟨D, all, hkernel, -, hrecords, hring⟩ := h.inv
  obtain ⟨active', q', d', hq', hd', hkept, -⟩ := processExit_kept hkernel
    (fun q hq => (hrecords q hq).1) hring.own hring.noTables hrun
  obtain ⟨rfl, rfl⟩ := List.cons.inj (hq.symm.trans hq')
  obtain rfl := Option.some.inj (hd.symm.trans hd')
  have hmem : active ∈ sys.kernel.sys.processes := by
    rw [hq]
    exact List.mem_cons_self
  have hdD := hkernel.processes active hmem d hd
  have hk : d ≠ sys'.kernel.sys.kernelPageDirectory := by
    rw [hkept.keeps.kernel]
    exact hring.own.ne hq hd
  obtain ⟨T, bs, live, hinv, -⟩ := hkept.run.inv
  refine ⟨hinv.heap.blockUsed (hinv.directories d hdD hk), fun n hn => ?_⟩
  obtain ⟨d₀, hd₀, hstack⟩ := hring.stack active hmem
  obtain rfl := Option.some.inj (hd.symm.trans hd₀)
  obtain ⟨e, he, -, hlt⟩ := hstack n hn
  obtain ⟨hlo, hhi⟩ := hn.bounds
  have he' := hkept.keeps.pages d hdD n hn e he
  exact ⟨e, he, (hinv.pages.inv.frame_used hdD (by omega) he').resolve_right (not_le.mpr hlt)⟩

/-- Whatever a process did, what it had is not given back. -/
theorem processExit_not_givenBack (h : ProcessRun env sys own first)
    (hq : sys.kernel.sys.processes = active :: q) (hd : active.pageDirectory = some d)
    (hrun : processExit env sys = .ok (outcome, sys')) :
    ¬ GivenBack active d sys.kernel sys'.kernel := fun hback =>
  hback.directory (processExit_leaks h hq hd hrun).1

/-- There is a run in which a child ends. -/
theorem exists_exitedChild (env : ProcessEnv) (keyboard : KeyboardState) :
    ∃ sys sys' own a a' pid pid' c d, ProcessRun env sys own (some a) ∧ a' ≠ a ∧
      sys.kernel.sys.processes = [⟨a', pid', some c⟩, ⟨a, pid, some d⟩] ∧
      processExit env sys = .ok (.switched, sys') := by
  obtain ⟨sys, own, src, a, pid, d, a', pid', c, D, all, brk, -, hrun, -, hne, hring, hcleanable,
    hspace⟩ := exists_child env keyboard
  have hswitched := hrun.switch (processSwitch_go hrun hring)
  obtain ⟨sys', hexit⟩ := processExit_go (n := 1) hswitched rfl rfl
    ⟨hcleanable.frames, hcleanable.tables⟩ hspace.ready.bump.holesLe (by decide)
  exact ⟨_, sys', own, a, a', pid, pid', c, d, hswitched, hne, rfl, hexit⟩

theorem processExit_not_givenBack_child : ∃ sys sys' active d,
    processExit bareEnv sys = .ok (.switched, sys') ∧ ¬ GivenBack active d sys.kernel sys'.kernel := by
  obtain ⟨sys, sys', own, a, a', pid, pid', c, d, hrun, -, hring, hexit⟩ :=
    exists_exitedChild bareEnv bareKeyboard
  exact ⟨sys, sys', _, c, hexit, processExit_not_givenBack hrun hring rfl hexit⟩

/-- The child of the first process. -/
theorem not_givenBack_child : ¬ ∀ env sys sys' own a active q d, ProcessRun env sys own (some a) →
    active.address ≠ a → sys.kernel.sys.processes = active :: q → active.pageDirectory = some d →
    processExit env sys = .ok (.switched, sys') → GivenBack active d sys.kernel sys'.kernel := by
  intro hall
  obtain ⟨sys, sys', own, a, a', pid, pid', c, d, hrun, hne, hring, hexit⟩ :=
    exists_exitedChild bareEnv bareKeyboard
  have hback := hall bareEnv sys sys' own a _ _ c hrun hne hring rfl hexit
  exact hback.directory (processExit_leaks hrun hring rfl hexit).1

end

end RawOS
