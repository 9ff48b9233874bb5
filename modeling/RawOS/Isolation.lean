import RawOS.PrivateMemory
import RawOS.ProcessSpaces
import RawOS.ProcessStart

/-!
# Isolation

The memories of the processes above 1 GB, in the order of the ring. As long as the heap of the
kernel ends below 1 GB, each step of a run is one of the machine whose processes have memories of
their own (`processRun_memoryStep`), so a process finds what it left when it becomes active again
(`processRun_memory`).
-/

namespace RawOS

/-- A process as the machine has it. -/
def machineProcess (p : Paging) (q : Process) : ℕ × Option (ℕ → Option (ℕ → UInt8)) :=
  (q.address, q.pageDirectory.map (spaceOf p))

/-- The processes with their memories. -/
def memories (p : Paging) : List (ℕ × Option (ℕ → Option (ℕ → UInt8))) :=
  p.processes.map (machineProcess p)

/-- A step of a run. The rest of the kernel writes to what is its own, and the active process to
its own pages; `page` is a page that the active process gets. -/
inductive ProcessStep (env : ProcessEnv) (sys : System) (own : Set Live) (first : Option ℕ) :
    MemoryEvent → System → Set Live → Option ℕ → Prop where
  | devices {initrd : Initrd} {k : KeyboardState} :
    ProcessStep env sys own first .kernel { sys with initrd := initrd, keyboard := k } own first
  | alloc {size alignment ptr : ℕ} {s : Kernel} : ValidAlignment alignment →
    kallocAllocAligned env.uninit sys.kernel size alignment = .ok (ptr, s) →
    ProcessStep env sys own first .kernel { sys with kernel := s } (insert ⟨ptr, size, alignment⟩ own)
      first
  | free {l : Live} {s : Kernel} : l ∈ own → kallocFree env.uninit sys.kernel l.ptr = .ok s →
    ProcessStep env sys own first .kernel { sys with kernel := s } (own \ {l}) first
  | write {m : Mem} :
    (∀ x, kernelHeapAddress ≤ x → x < heapEnd sys.kernel → (∀ l ∈ own, ¬ l.Owns sys.kernel.mem x) →
      m x = sys.kernel.mem x) →
    ProcessStep env sys own first .kernel
      { sys with kernel := ⟨sys.kernel.heap, m, sys.kernel.sys⟩ } own first
  | store {active : Process} {q : List Process} {d : ℕ} {frames : ℕ → ℕ → UInt8} :
    sys.kernel.sys.processes = active :: q → active.pageDirectory = some d →
    StoredTo sys.kernel.sys d frames →
    ProcessStep env sys own first .own { sys with
      kernel := ⟨sys.kernel.heap, sys.kernel.mem, { sys.kernel.sys with frames := frames }⟩ } own first
  | page {active : Process} {q : List Process} {d n userMode f : ℕ} {s : Kernel} :
    sys.kernel.sys.processes = active :: q → active.pageDirectory = some d → n < 0x100000 →
    pagingCreateProcessPageWithAnyFrame env.uninit sys.kernel d n userMode = .ok (f, s) →
    ProcessStep env sys own first .own { sys with kernel := s } own first
  | init {sys' : System} {r : InitialProcess} {s : Kernel} {esp eip : ℕ} :
    sys.kernel.sys.processes = [] → createInitialProcess env sys.kernel sys.currentPid = .ok (r, s) →
    processInit env sys = .ok (.userMode esp eip, sys') →
    ProcessStep env sys own first .start sys' (insert ⟨r.slots, fileDescriptorsBytes, 0⟩ own)
      (some r.address)
  | fork {sys' : System} {outcome : Outcome} : processFork env sys = .ok (outcome, sys') →
    ProcessStep env sys own first .fork sys' own first
  | execve {sys' : System} {imagePath : List UInt8} {outcome : Outcome} :
    processExecve env sys imagePath = .ok (outcome, sys') → outcome ≠ .waiting →
    ProcessStep env sys own first .own sys' own first
  | exit {sys' : System} {active : Process} {q : List Process} :
    sys.kernel.sys.processes = active :: q → processExit env sys = .ok (.switched, sys') →
    ProcessStep env sys own first .exit sys' own (if first = some active.address then none else first)
  | switch {sys' : System} {outcome : Outcome} : sys.processSwitch = .ok (outcome, sys') →
    ProcessStep env sys own first .switch sys' own first

/-- Any steps that the process `a` does not take. -/
inductive StepsOfOthers (env : ProcessEnv) (a : ℕ) (sys : System) (own : Set Live)
    (first : Option ℕ) : System → Set Live → Option ℕ → Prop where
  | refl : StepsOfOthers env a sys own first sys own first
  | step {e : MemoryEvent} {sys₁ sys₂ : System} {own₁ own₂ : Set Live} {first₁ first₂ : Option ℕ} :
    StepsOfOthers env a sys own first sys₁ own₁ first₁ →
    sys₁.kernel.sys.processes.head?.map Process.address ≠ some a →
    ProcessStep env sys₁ own₁ first₁ e sys₂ own₂ first₂ →
    StepsOfOthers env a sys own first sys₂ own₂ first₂

/-- The processes have tables of their own. -/
def PrivateRing (p : Paging) : Prop :=
  ∀ q ∈ p.processes, ∀ d, q.pageDirectory = some d → PrivateTables p d

/-- A step as one of the machine, as long as the heap ends below 1 GB. -/
structure MachineStep (e : MemoryEvent) (s s' : Kernel) : Prop where
  le : heapEnd s ≤ heapEnd s'
  memory : heapEnd s' ≤ 0x40000000 → PrivateRing s.sys →
    MemoryStep e (memories s.sys) (memories s'.sys)
  tables : heapEnd s' ≤ 0x40000000 → PrivateRing s.sys → PrivateRing s'.sys

section

variable {env : ProcessEnv} {D : Set ℕ} {own own' all : Set Live} {s s' : Kernel}
  {sys sys' : System} {p p' : Paging} {first first' : Option ℕ} {active : Process}
  {l q : List Process} {e : MemoryEvent} {d d₀ a : ℕ}

theorem memories_head? : (memories p).head?.map Prod.fst = p.processes.head?.map Process.address := by
  unfold memories machineProcess
  cases p.processes with
  | nil => rfl
  | cons => rfl

theorem map_machineProcess_congr
    (h : ∀ q ∈ l, ∀ d, q.pageDirectory = some d → spaceOf p' d = spaceOf p d) :
    l.map (machineProcess p') = l.map (machineProcess p) := by
  refine List.map_congr_left fun q hq => Prod.ext rfl ?_
  unfold machineProcess
  cases hd : q.pageDirectory with
  | none => rfl
  | some d => exact congrArg some (h q hq d hd)

theorem map_machineProcess_fst : (l.map (machineProcess p)).map Prod.fst = l.map Process.address := by
  rw [List.map_map]
  rfl

/-- A call for `d₀`: the processes with other directories keep their memories. -/
theorem SpacesKept.map_eq (h : SpacesKept D d₀ s s') (hend : heapEnd s' ≤ 0x40000000)
    (hD : ∀ q ∈ l, ∀ d, q.pageDirectory = some d → d ∈ D)
    (ht : ∀ q ∈ l, ∀ d, q.pageDirectory = some d → PrivateTables s.sys d)
    (hne : ∀ q ∈ l, q.pageDirectory ≠ some d₀) :
    l.map (machineProcess s'.sys) = l.map (machineProcess s.sys) := by
  refine map_machineProcess_congr fun q hq d hd => ?_
  refine h.space hend d (hD q hq d hd) ?_ (ht q hq d hd)
  rintro rfl
  exact hne q hq hd

theorem SpacesKept.privateRing (h : SpacesKept D d₀ s s') (hend : heapEnd s' ≤ 0x40000000)
    (hD : ∀ q ∈ s.sys.processes, ∀ d, q.pageDirectory = some d → d ∈ D) (ht : PrivateRing s.sys)
    (hp : ∀ q ∈ s'.sys.processes, q ∈ s.sys.processes) : PrivateRing s'.sys :=
  fun q hq d hd => h.tables hend d (hD q (hp q hq) d hd) (ht q (hp q hq) d hd)

/-- A call that is for no process. -/
theorem SpacesKept.machineStep_kernel (h : SpacesKept D d₀ s s')
    (hD : ∀ q ∈ s.sys.processes, ∀ d, q.pageDirectory = some d → d ∈ D)
    (hne : ∀ q ∈ s.sys.processes, q.pageDirectory ≠ some d₀)
    (hp : s'.sys.processes = s.sys.processes) : MachineStep .kernel s s' := by
  refine ⟨h.le, fun hend ht => ?_, fun hend ht => h.privateRing hend hD ht fun q hq => hp ▸ hq⟩
  unfold memories
  rw [hp, h.map_eq hend hD ht hne]
  exact .kernel _

theorem LiveRing.others (h : LiveRing first p) (hq : p.processes = active :: q)
    (hd : active.pageDirectory = some d) : ∀ r ∈ q, r.pageDirectory ≠ some d := by
  have hnodup := h.directories
  rw [hq, List.map_cons, List.nodup_cons] at hnodup
  rw [← hd]
  exact fun r hr heq => hnodup.1 (heq ▸ List.mem_map_of_mem hr)

/-- A call for the active process. -/
theorem SpacesKept.machineStep_own (h : SpacesKept D d s s')
    (hD : ∀ q ∈ s.sys.processes, ∀ d, q.pageDirectory = some d → d ∈ D)
    (hring : LiveRing first s.sys) (hq : s.sys.processes = active :: q)
    (hd : active.pageDirectory = some d) (hp : s'.sys.processes = s.sys.processes) :
    MachineStep .own s s' := by
  refine ⟨h.le, fun hend ht => ?_, fun hend ht => h.privateRing hend hD ht fun q hq => hp ▸ hq⟩
  have htail : ∀ r ∈ q, r ∈ s.sys.processes := fun r hr => hq ▸ List.mem_cons_of_mem _ hr
  unfold memories
  refine .own ?_ ?_
  · rw [map_machineProcess_fst, map_machineProcess_fst, hp]
  · rw [hp, hq, List.map_cons, List.map_cons, List.tail_cons, List.tail_cons]
    exact h.map_eq hend (fun r hr => hD r (htail r hr)) (fun r hr => ht r (htail r hr))
      (hring.others hq hd)

/-- A call of `process_exit` for the active process. -/
theorem SpacesKept.machineStep_exit (h : SpacesKept D d s s')
    (hD : ∀ q ∈ s.sys.processes, ∀ d, q.pageDirectory = some d → d ∈ D)
    (hring : LiveRing first s.sys) (hq : s.sys.processes = active :: q)
    (hd : active.pageDirectory = some d) (hp : s'.sys.processes = q) : MachineStep .exit s s' := by
  have htail : ∀ r ∈ q, r ∈ s.sys.processes := fun r hr => hq ▸ List.mem_cons_of_mem _ hr
  refine ⟨h.le, fun hend ht => ?_, fun hend ht => h.privateRing hend hD ht fun r hr =>
    htail r (hp ▸ hr)⟩
  unfold memories
  rw [hp, hq, List.map_cons, h.map_eq hend (fun r hr => hD r (htail r hr))
    (fun r hr => ht r (htail r hr)) (hring.others hq hd)]
  exact .exit _ _

/-! ## The steps -/

theorem processInit_machineStep {r : InitialProcess} {esp eip : ℕ}
    (h : KernelRun env.uninit sys.kernel D own) (hnone : sys.kernel.sys.processes = [])
    (hcreate : createInitialProcess env sys.kernel sys.currentPid = .ok (r, s))
    (hrun : processInit env sys = .ok (.userMode esp eip, sys')) :
    MachineStep .start sys.kernel sys'.kernel := by
  obtain ⟨hle, htables⟩ := processInit_spaces h hcreate hrun
  obtain ⟨_, -, -, hp, -, -⟩ := processInit_kept h hcreate hrun
  refine ⟨hle, fun _ _ => ?_, fun hend _ => ?_⟩
  · unfold memories
    rw [hnone, hp]
    exact .start _ _
  · unfold PrivateRing
    rw [hp]
    intro q hq d hd
    rw [List.mem_singleton.mp hq] at hd
    obtain rfl := Option.some.inj hd
    exact htables hend

theorem processFork_machineStep {outcome : Outcome} (h : KernelRun env.uninit sys.kernel D own)
    (hring : LiveRing first sys.kernel.sys)
    (hrecords : ∀ q ∈ sys.kernel.sys.processes, recordAt q.address ∈ own)
    (hrun : processFork env sys = .ok (outcome, sys')) :
    MachineStep .fork sys.kernel sys'.kernel := by
  obtain ⟨hle, hspaces⟩ := processFork_spaces h
    (fun q hq => (hring.stack q hq).imp fun d hd => ⟨_, hd⟩) hrecords hrun
  refine ⟨hle, fun hend ht => ?_, fun hend ht => ?_⟩
  · obtain ⟨active, q, address, source, c, hq, hsource, hp, hspaces, hnew, hcopy, -⟩ := hspaces hend
    have hnone : ∀ r ∈ sys.kernel.sys.processes, r.pageDirectory ≠ some c := fun r hr hc =>
      hnew (h.processes r hr c hc)
    have hsame := hspaces.map_eq hend h.processes ht hnone
    have hchild : machineProcess sys'.kernel.sys ⟨address, sys.currentPid, some c⟩ =
        (address, (machineProcess sys.kernel.sys active).2) := by
      unfold machineProcess
      rw [hsource, Option.map_some, Option.map_some, hcopy]
    unfold memories
    rw [hp, ← hq, List.map_append, hsame, hq, List.map_singleton, hchild, List.map_cons]
    exact .fork _ _ _ _
  · obtain ⟨active, q, address, source, c, hq, -, hp, hspaces, -, -, htables⟩ := hspaces hend
    unfold PrivateRing
    rw [hp]
    intro r hr d hd
    rcases List.mem_append.mp hr with hr | hr
    · rw [← hq] at hr
      exact hspaces.tables hend d (h.processes r hr d hd) (ht r hr d hd)
    · rw [List.mem_singleton.mp hr] at hd
      obtain rfl := Option.some.inj hd
      exact htables

theorem processSwitch_machineStep {outcome : Outcome} (hrun : sys.processSwitch = .ok (outcome, sys')) :
    MachineStep .switch sys.kernel sys'.kernel := by
  unfold System.processSwitch at hrun
  split_ifs at hrun with hnone
  · cases hrun
    refine ⟨le_rfl, fun _ _ => ?_, fun _ h => h⟩
    have h := MemoryStep.switch (memories sys.kernel.sys)
    unfold memories at h ⊢
    rw [hnone] at h ⊢
    exact h
  · obtain ⟨_, -, hrun⟩ := bind_eq_ok.mp hrun
    cases hrun
    refine ⟨le_rfl, fun _ _ => ?_, fun _ h r hr => h r (List.mem_rotate.mp hr)⟩
    unfold memories
    dsimp only
    rw [List.map_rotate]
    exact .switch _

/-- A step of a run is one of the machine. -/
theorem ProcessInv.machineStep (h : ProcessInv env own first sys)
    (hs : ProcessStep env sys own first e sys' own' first') : MachineStep e sys.kernel sys'.kernel := by
  obtain ⟨D, all, hk, hown, hrecords, hring⟩ := h
  have hdirectory : ∀ {active q d}, sys.kernel.sys.processes = active :: q →
      active.pageDirectory = some d → d ∈ D := fun hq hd =>
    hk.processes _ (hq ▸ List.mem_cons_self) _ hd
  cases hs with
  | devices => exact (SpacesKept.refl D _ _).machineStep_kernel hk.processes hring.own rfl
  | alloc hv hrun =>
    obtain ⟨-, hp, -⟩ := kallocAllocAligned_kept hk hv hrun
    exact (kallocAllocAligned_spaces _ hk hv hrun).machineStep_kernel hk.processes hring.own hp
  | free hl hrun =>
    obtain ⟨-, hsys⟩ := kallocFree_kept hk (hown hl) hrun
    exact (kallocFree_spaces _ hk (hown hl) hrun).machineStep_kernel hk.processes hring.own
      (by rw [hsys])
  | write => exact ⟨le_rfl, fun _ _ => .kernel _, fun _ h => h⟩
  | store hq hd hstored =>
    obtain ⟨T, bs, live, hinv, -⟩ := hk.inv
    exact (hstored.spacesKept hinv.pages.inv (hdirectory hq hd)).machineStep_own hk.processes hring
      hq hd rfl
  | page hq hd hn hrun =>
    have hmem := hdirectory hq hd
    obtain ⟨-, hp, -⟩ := pagingCreateProcessPage_kept hk hmem (hring.own.ne hq hd) hn hrun
    exact (pagingCreateProcessPage_spaces hk hmem (hring.own.ne hq hd) hn hrun).machineStep_own
      hk.processes hring hq hd hp
  | init hnone hcreate hrun => exact processInit_machineStep hk hnone hcreate hrun
  | fork hrun => exact processFork_machineStep hk hring (fun q hq => (hrecords q hq).1) hrun
  | execve hrun hwait =>
    obtain ⟨_, -, -, hp⟩ := processExecve_kept hk hring.own hring.noTables hrun hwait
    rcases processExecve_spaces hk hring.own hring.noTables hrun hwait with
      rfl | ⟨active, q, d, hq, hd, hspaces⟩
    · refine ⟨le_rfl, fun _ _ => .own rfl rfl, fun _ h => h⟩
    · exact hspaces.machineStep_own hk.processes hring hq hd hp
  | exit hq hrun =>
    obtain ⟨active, q, d, hq', hd, hspaces⟩ := processExit_spaces hk (fun q hq => (hrecords q hq).1)
      hring.own hring.noTables hrun
    obtain ⟨_, _, _, hq'', -, -, hp⟩ := processExit_kept hk (fun q hq => (hrecords q hq).1)
      hring.own hring.noTables hrun
    obtain ⟨rfl, rfl⟩ := List.cons.inj (hq'.symm.trans hq'')
    exact hspaces.machineStep_exit hk.processes hring hq' hd hp
  | switch hrun => exact processSwitch_machineStep hrun

/-! ## Runs -/

theorem ProcessStep.run (hs : ProcessStep env sys own first e sys' own' first')
    (h : ProcessRun env sys own first) : ProcessRun env sys' own' first' := by
  cases hs with
  | devices => exact h.devices
  | alloc hv hrun => exact h.alloc hv hrun
  | free hl hrun => exact h.free hl hrun
  | write hm => exact h.write hm
  | store => exact h.write fun _ _ _ _ => rfl
  | page hq hd hn hrun => exact h.page hq hd hn hrun
  | init hnone hcreate hrun => exact h.init hnone hcreate hrun
  | fork hrun => exact h.fork hrun
  | execve hrun hwait => exact h.execve hrun hwait
  | exit hq hrun => exact h.exit hq hrun
  | switch hrun => exact h.switch hrun

/-- Each call of a run keeps the tables of the processes their own. -/
theorem ProcessRun.privateRing (h : ProcessRun env sys own first)
    (hend : heapEnd sys.kernel ≤ 0x40000000) : PrivateRing sys.kernel.sys := by
  have hstep : ∀ {e sys sys' own own' first first'}, ProcessRun env sys own first →
      (heapEnd sys.kernel ≤ 0x40000000 → PrivateRing sys.kernel.sys) →
      ProcessStep env sys own first e sys' own' first' → heapEnd sys'.kernel ≤ 0x40000000 →
      PrivateRing sys'.kernel.sys := fun h ih hs hend =>
    have hm := h.inv.machineStep hs
    hm.tables hend (ih (hm.le.trans hend))
  induction h with
  | boot hfits hq hinit hrun =>
    obtain ⟨-, hnone⟩ := kallocInit_noTables hfits hq hinit hrun
    unfold PrivateRing
    dsimp only
    rw [hnone]
    exact fun q hq => absurd hq List.not_mem_nil
  | devices h ih => exact hstep h ih .devices hend
  | alloc h hv hrun ih => exact hstep h ih (.alloc hv hrun) hend
  | free h hl hrun ih => exact hstep h ih (.free hl hrun) hend
  | write _ _ ih => exact ih hend
  | page h hq hd hn hrun ih => exact hstep h ih (.page hq hd hn hrun) hend
  | init h hnone hcreate hrun ih => exact hstep h ih (.init hnone hcreate hrun) hend
  | fork h hrun ih => exact hstep h ih (.fork hrun) hend
  | execve h hrun hwait ih => exact hstep h ih (.execve hrun hwait) hend
  | exit h hq hrun ih => exact hstep h ih (.exit hq hrun) hend
  | switch h hrun ih => exact hstep h ih (.switch hrun) hend

/-- Each step of a run is one of the machine whose processes have memories of their own. -/
theorem processRun_memoryStep (h : ProcessRun env sys own first)
    (hs : ProcessStep env sys own first e sys' own' first')
    (hend : heapEnd sys'.kernel ≤ 0x40000000) :
    MemoryStep e (memories sys.kernel.sys) (memories sys'.kernel.sys) := by
  have hm := h.inv.machineStep hs
  exact hm.memory hend (h.privateRing (hm.le.trans hend))

theorem StepsOfOthers.run (hs : StepsOfOthers env a sys own first sys' own' first')
    (h : ProcessRun env sys own first) : ProcessRun env sys' own' first' := by
  induction hs with
  | refl => exact h
  | step _ _ hs ih => exact hs.run ih

theorem StepsOfOthers.memoryRun (hs : StepsOfOthers env a sys own first sys' own' first')
    (h : ProcessRun env sys own first) (hend : heapEnd sys'.kernel ≤ 0x40000000) :
    MemoryRun a (memories sys.kernel.sys) (memories sys'.kernel.sys) := by
  induction hs with
  | refl => exact .refl
  | step hsteps hne hs ih =>
    have hrun := hsteps.run h
    have hm := hrun.inv.machineStep hs
    exact (ih (hm.le.trans hend)).step (memories_head? ▸ hne) (processRun_memoryStep hrun hs hend)

/-- Whatever the others do, a process finds its memory as it left it. -/
theorem processRun_memory {m : Option (ℕ → Option (ℕ → UInt8))} (h : ProcessRun env sys own first)
    (hs : StepsOfOthers env a sys own first sys' own' first')
    (hend : heapEnd sys'.kernel ≤ 0x40000000) (hm : (a, m) ∈ memories sys.kernel.sys) :
    (a, m) ∈ memories sys'.kernel.sys := (hs.memoryRun h hend).mem hm

/-! ## A run with a parent and its child -/

theorem processRun_memoryStep_fork : ∃ sys sys' : System, sys'.kernel.sys.processes.length = 2 ∧
    MemoryStep .fork (memories sys.kernel.sys) (memories sys'.kernel.sys) := by
  obtain ⟨sys, own, src, a, pid, d, D, all, brk, hbrk, hrun, hinitrd, hready⟩ :=
    exists_initialProcess bareEnv bareKeyboard
  obtain ⟨sys', a', c, hfork, -, hring, -, -, brk', -, hspace⟩ :=
    processFork_go hready (by decide) (by omega)
  refine ⟨sys, sys', ?_, processRun_memoryStep hrun (.fork hfork) (hspace.ready.le.trans (by decide))⟩
  rw [hring]
  rfl

/-- The parent fills its memory, and the child keeps its own. -/
theorem processRun_memory_child : ∃ (sys : System) (a a' pid pid' d c : ℕ),
    sys.kernel.sys.processes = [⟨a, pid, some d⟩, ⟨a', pid', some c⟩] ∧
      (a', some (spaceOf sys.kernel.sys c)) ∈ memories (storeMemory sys.kernel.sys d fun _ => 1) := by
  obtain ⟨sys, own, src, a, pid, d, a', pid', c, D, all, brk, hbrk, hrun, hinitrd, hne, hring, -,
    hspace⟩ := exists_child bareEnv bareKeyboard
  have hstore : ProcessStep bareEnv sys own (some a) .own { sys with kernel :=
      ⟨sys.kernel.heap, sys.kernel.mem, storeMemory sys.kernel.sys d fun _ => 1⟩ } own (some a) :=
    .store hring rfl (storedTo_storedFrames _ _ _)
  have hothers : sys.kernel.sys.processes.head?.map Process.address ≠ some a' := by
    rw [hring]
    exact fun heq => hne (Option.some.inj heq).symm
  have hmem : (a', some (spaceOf sys.kernel.sys c)) ∈ memories sys.kernel.sys := by
    unfold memories
    rw [hring]
    exact List.mem_cons_of_mem _ List.mem_cons_self
  have hend : ∀ p, heapEnd ⟨sys.kernel.heap, sys.kernel.mem, p⟩ ≤ 0x40000000 := fun _ =>
    hspace.ready.le.trans (by decide)
  have hkept := processRun_memory hrun (.step .refl hothers hstore) (hend _) hmem
  exact ⟨sys, a, a', pid, pid', d, c, hring, hkept⟩

end

end RawOS
