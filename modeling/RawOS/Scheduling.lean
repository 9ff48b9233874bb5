import Mathlib.Dynamics.PeriodicPts.Defs
import RawOS.ProcessRing
import RawOS.RoundRobin

/-!
# The scheduler

The timer calls `process_switch` at every hundredth tick. A `SchedulerRun` are any ticks, calls of
`process_fork` and `process_exit`, and any other activity of the kernel that leaves the fields of
the records to the scheduler. The ring of the processes then is a queue with a clock
(`Queue.step`), so each process becomes active within a bounded time
(`schedulerRun_activates`), and with the registers and the page directory it was left with
(`schedulerRun_contexts`).
-/

namespace RawOS

/-! ## `timer.c` and `process.c` -/

/-- `timer_interrupt_handler`, with its `tick`. -/
def timerInterruptHandler (r : SavedRegisters) (tick : ℕ) (m : Mem) (g : Scheduler) :
    ℕ × Mem × Scheduler :=
  let tick := u32 (tick + 1)
  if tick % 100 = 0 then (tick, processSwitch r m g) else (tick, m, g)

/-- `eip`, `esp` and `ebp` of a record. -/
def setRegisters (m : Mem) (p : ℕ) (r : SavedRegisters) : Mem :=
  let m := setProcessEip m p r.eip
  let m := setProcessEsp m p r.esp
  setProcessEbp m p r.ebp

def processPageDirectory (m : Mem) (p : ℕ) : ℕ := load32 m (p + 16)

/-- What a process is continued with. -/
structure Context extends SavedRegisters where
  pageDirectory : ℕ

/-- What `process_switch_context` is called with, for the process `p`. It gets the address of the
frame of the page directory. -/
def contextOf (m : Mem) (p : ℕ) : Context where
  eip := load32 m (p + 12)
  esp := load32 m (p + 4)
  ebp := load32 m (p + 8)
  pageDirectory := processPageDirectory m p

/-- Registers of 32 bits. -/
def SavedRegisters.Word (r : SavedRegisters) : Prop :=
  r.eip < 4294967296 ∧ r.esp < 4294967296 ∧ r.ebp < 4294967296

/-- The bytes of `esp`, `ebp`, `eip` and `page_directory` of the record `p`. -/
def RegisterByte (p x : ℕ) : Prop := p + 4 ≤ x ∧ x < p + 20

/-! ## Runs -/

/-- What the rest of the kernel does: as a `HeapActivity`, and it leaves the registers and page
directories of the processes `kept` alone. -/
inductive RecordActivity {σ : Type} (env : PageEnv σ) (ps kept : List ℕ) (s : HeapState σ)
    (live : List Live) : HeapState σ → List Live → Prop where
  | refl : RecordActivity env ps kept s live s live
  | alloc {s₁ s₂ : HeapState σ} {live₁ : List Live} {size alignment p : ℕ} :
    RecordActivity env ps kept s live s₁ live₁ → ValidAlignment alignment →
    kallocHeapAlloc env s₁ size alignment = .ok (p, s₂) →
    RecordActivity env ps kept s live s₂ (⟨p, size, alignment⟩ :: live₁)
  | free {s₁ s₂ : HeapState σ} {live₁ : List Live} {l : Live} :
    RecordActivity env ps kept s live s₁ live₁ → l ∈ live₁ → l.ptr ∉ ps →
    kallocHeapFree env s₁ l.ptr = .ok s₂ → RecordActivity env ps kept s live s₂ (live₁.erase l)
  | write {s₁ : HeapState σ} {live₁ : List Live} {m : Mem} {sys : σ} :
    RecordActivity env ps kept s live s₁ live₁ →
    (∀ x, kernelHeapAddress ≤ x → x < s₁.heap.initialAddr + s₁.heap.size →
      (∀ l ∈ live₁, ¬ l.Owns s₁.mem x) → m x = s₁.mem x) →
    (∀ p ∈ ps, ∀ x, RingByte p x → m x = s₁.mem x) →
    (∀ p ∈ kept, ∀ x, RegisterByte p x → m x = s₁.mem x) →
    RecordActivity env ps kept s live ⟨s₁.heap, m, sys⟩ live₁

/-- The heap, the live allocations, the globals, the live processes and the timer's count. `saved`
lists what processes lost the CPU or were created with, the latest first. -/
structure SchedulerState (σ : Type) where
  heap : HeapState σ
  live : List Live
  globals : Scheduler
  processes : List ℕ
  tick : ℕ
  saved : List (ℕ × Context)

/-- The processes that wait for the CPU. -/
def SchedulerState.waiting {σ : Type} (X : SchedulerState σ) : List ℕ :=
  X.processes.erase X.globals.activeProcess

/-- A step, and the ticks that it takes. `process_exit` goes on where another process is left. -/
inductive SchedulerStep {σ : Type} (env : PageEnv σ) (X : SchedulerState σ) :
    ℕ → SchedulerState σ → Prop where
  | activity {s : HeapState σ} {live : List Live} :
    RecordActivity env X.processes X.waiting X.heap X.live s live →
    SchedulerStep env X 0 { X with heap := s, live := live }
  | fork {s₁ s₂ : HeapState σ} {live₂ : List Live} {newProcess : ℕ} {r : SavedRegisters} : r.Word →
    kallocHeapAlloc env X.heap sizeofProcess 0 = .ok (newProcess, s₁) →
    RecordActivity env (newProcess :: X.processes) X.waiting
      { s₁ with mem := linkProcess s₁.mem X.globals newProcess }
      (⟨newProcess, sizeofProcess, 0⟩ :: X.live) s₂ live₂ →
    SchedulerStep env X 0
      { heap := { s₂ with mem := setRegisters (assignPid s₂.mem X.globals newProcess).1 newProcess r }
        live := live₂
        globals := (assignPid s₂.mem X.globals newProcess).2
        processes := newProcess :: X.processes
        tick := X.tick
        saved := (newProcess, ⟨r, processPageDirectory s₂.mem newProcess⟩) :: X.saved }
  | exit {s : HeapState σ} : 2 ≤ X.processes.length →
    kallocHeapFree env { X.heap with mem := (unlinkProcess X.heap.mem X.globals).1 }
      X.globals.activeProcess = .ok s →
    SchedulerStep env X 0
      { X with
        heap := s
        live := X.live.erase ⟨X.globals.activeProcess, sizeofProcess, 0⟩
        globals := (unlinkProcess X.heap.mem X.globals).2
        processes := X.processes.erase X.globals.activeProcess }
  | tick {r : SavedRegisters} : r.Word →
    SchedulerStep env X 1
      { X with
        heap := { X.heap with mem := (timerInterruptHandler r X.tick X.heap.mem X.globals).2.1 }
        globals := (timerInterruptHandler r X.tick X.heap.mem X.globals).2.2
        tick := (timerInterruptHandler r X.tick X.heap.mem X.globals).1
        saved := if u32 (X.tick + 1) % 100 = 0 then
            (X.globals.activeProcess,
              ⟨r, processPageDirectory X.heap.mem X.globals.activeProcess⟩) :: X.saved
          else X.saved }

/-- Any steps: the ticks that they take, and the processes that were active. -/
inductive SchedulerRun {σ : Type} (env : PageEnv σ) (X : SchedulerState σ) :
    ℕ → List ℕ → SchedulerState σ → Prop where
  | start : SchedulerRun env X 0 [X.globals.activeProcess] X
  | step {n t : ℕ} {actives : List ℕ} {Y Z : SchedulerState σ} :
    SchedulerRun env X n actives Y → SchedulerStep env Y t Z →
    SchedulerRun env X (n + t) (Z.globals.activeProcess :: actives) Z

/-- The state after `process_init` at a count of the timer. -/
inductive SchedulerBooted {σ : Type} (env : PageEnv σ) : SchedulerState σ → Prop where
  | init {s : HeapState σ} {live : List Live} {p tick : ℕ} :
    KallocRun env s live → ⟨p, sizeofProcess, 0⟩ ∈ live → tick < 4294967296 →
    SchedulerBooted env
      { heap := { s with mem := (processInitRing s.mem p).1 }
        live := live
        globals := (processInitRing s.mem p).2
        processes := [p]
        tick := tick
        saved := [] }

/-! ## The fields of the records -/

section

variable {m m' : Mem} {p q x : ℕ} {r : SavedRegisters} {g : Scheduler}

theorem contextOf_congr (h : ∀ x, RegisterByte p x → m' x = m x) :
    contextOf m' p = contextOf m p := by
  unfold contextOf processPageDirectory
  unfold RegisterByte at h
  rw [load32_congr fun x _ _ => h x (by omega), load32_congr fun x _ _ => h x (by omega),
    load32_congr fun x _ _ => h x (by omega), load32_congr fun x _ _ => h x (by omega)]

theorem setRegisters_outside (hx : x < p + 4 ∨ p + 16 ≤ x) : setRegisters m p r x = m x := by
  unfold setRegisters setProcessEbp setProcessEsp setProcessEip
  rw [store32_of_outside (by omega), store32_of_outside (by omega), store32_of_outside (by omega)]

theorem contextOf_setRegisters (hr : r.Word) :
    contextOf (setRegisters m p r) p = ⟨r, processPageDirectory m p⟩ := by
  obtain ⟨h₁, h₂, h₃⟩ := hr
  have hdirectory : processPageDirectory (setRegisters m p r) p = processPageDirectory m p :=
    load32_congr fun x _ _ => setRegisters_outside (by omega)
  unfold contextOf
  rw [hdirectory]
  unfold setRegisters setProcessEbp setProcessEsp setProcessEip
  rw [load32_store32_of_disjoint (by omega), load32_store32_of_disjoint (by omega),
    load32_store32_eq rfl h₁, load32_store32_of_disjoint (by omega), load32_store32_eq rfl h₂,
    load32_store32_eq rfl h₃]

theorem contextOf_setRegisters_of_apart (hap : RecordsApart p q) (hne : p ≠ q) :
    contextOf (setRegisters m p r) q = contextOf m q :=
  contextOf_congr fun x hx => by
    unfold RecordsApart at hap
    unfold RegisterByte at hx
    exact setRegisters_outside (by omega)

theorem processSwitch_eq (hact : g.activeProcess ≠ 0) (hnext : processNext m g.activeProcess ≠ 0) :
    (processSwitch r m g).1 = setRegisters m g.activeProcess r := by
  unfold processSwitch
  rw [if_neg hact, if_neg hnext]
  rfl

theorem assignPid_outside (hx : x < p ∨ p + 4 ≤ x) : (assignPid m g p).1 x = m x :=
  store32_of_outside hx

section Links

variable {l : List ℕ} {newProcess b : ℕ}

theorem linkProcess_registers
    (h : IsRing (processNext m) (processPrevious m) l g.activeProcess)
    (hap : ∀ p ∈ newProcess :: l, RecordsApart p q) (hx : RegisterByte q x) :
    linkProcess m g newProcess x = m x := by
  have hprev := hap _ (.tail _ h.previous_mem)
  have hact := hap _ (.tail _ (List.mem_of_head? h.head))
  have hn := hap _ List.mem_cons_self
  unfold RecordsApart at hprev hact hn
  unfold RegisterByte at hx
  unfold linkProcess
  unfold setProcessNext setProcessPrevious
  rw [store32_of_outside (by omega), store32_of_outside (by omega),
    store32_of_outside (by omega), store32_of_outside (by omega)]

theorem unlinkProcess_registers
    (h : IsRing (processNext m) (processPrevious m) (g.activeProcess :: b :: l) g.activeProcess)
    (hap : ∀ p ∈ g.activeProcess :: b :: l, ∀ q ∈ g.activeProcess :: b :: l, RecordsApart p q)
    (hlt : ∀ p ∈ g.activeProcess :: b :: l, p < 4294967296) (hq : q ∈ g.activeProcess :: b :: l)
    (hx : RegisterByte q x) : (unlinkProcess m g).1 x = m x := by
  have hprev := hap _ h.previous_mem _ hq
  have hb := hap b (.tail _ List.mem_cons_self) _ hq
  unfold RecordsApart at hprev hb
  unfold RegisterByte at hx
  rw [unlinkProcess_eq h hap hlt]
  dsimp only
  unfold setProcessNext setProcessPrevious
  rw [store32_of_outside (by omega), store32_of_outside (by omega)]

end Links

end

/-! ## Activity of the rest of the kernel -/

section

variable {σ : Type} {env : PageEnv σ} {s s' : HeapState σ} {live live' : List Live}
  {ps kept : List ℕ}

theorem RecordActivity.heapActivity (h : RecordActivity env ps kept s live s' live') :
    HeapActivity env ps s live s' live' := by
  induction h with
  | refl => exact .refl
  | alloc _ hv hrun ih => exact ih.alloc hv hrun
  | free _ hl hnot hrun ih => exact ih.free hl hnot hrun
  | write _ hm hring _ ih => exact ih.write hm hring

theorem Records.owns_register (hK : KeepsHeap env kernelHeapAddress) (h : Records env s live ps)
    {p x : ℕ} (hp : p ∈ ps) (hx : RegisterByte p x) : (recordAt p).Owns s.mem x := by
  have hsize : (recordAt p).size = 60 := rfl
  have hptr : (recordAt p).ptr = p := rfl
  unfold RegisterByte at hx
  exact h.run.owns hK (h.mem_live hp) rfl (by omega) (by omega)

/-- The heap leaves the registers alone as well. -/
theorem RecordActivity.registers (hK : KeepsHeap env kernelHeapAddress)
    (ha : RecordActivity env ps kept s live s' live') (h : Records env s live ps)
    (hsub : ∀ p ∈ kept, p ∈ ps) :
    ∀ p ∈ kept, ∀ x, RegisterByte p x → s'.mem x = s.mem x := by
  induction ha with
  | refl => exact fun _ _ _ _ => rfl
  | alloc ha hv hrun ih =>
    intro p hp x hx
    have hr := (ha.heapActivity.records hK h).1
    rw [hr.run.alloc_frame hK hv (fun _ => hr.run.first_used hK) hrun (hr.mem_live (hsub p hp))
      (hr.owns_register hK (hsub p hp) hx), ih p hp x hx]
  | @free s₁ s₂ live₁ l ha hl hnot hrun ih =>
    intro p hp x hx
    have hr := (ha.heapActivity.records hK h).1
    have hne : (recordAt p).ptr ≠ l.ptr := fun heq => by
      rw [← heq] at hnot
      exact hnot (hsub p hp)
    rw [hr.run.free_frame hK hrun (List.mem_append_left [firstByte] hl) (hr.mem_live (hsub p hp)) hne
      (hr.owns_register hK (hsub p hp) hx), ih p hp x hx]
  | write _ _ _ hregs ih =>
    intro p hp x hx
    dsimp only
    rw [hregs p hp x hx, ih p hp x hx]

end

/-! ## The queue -/

section

variable {σ : Type} {env : PageEnv σ} {X Y : SchedulerState σ} {l : List ℕ} {n t : ℕ}

/-- The processes in the order of the ring, of which the first is active. -/
structure Queue (env : PageEnv σ) (X : SchedulerState σ) (l : List ℕ) : Prop where
  records : Records env X.heap X.live X.processes
  perm : l.Perm X.processes
  ring : IsRing (processNext X.heap.mem) (processPrevious X.heap.mem) l X.globals.activeProcess
  tick : X.tick < 4294967296

theorem Queue.ringInv (h : Queue env X l) :
    RingInv env X.heap X.live X.globals X.processes 4294967296 :=
  ⟨h.records, ⟨l, h.perm, h.ring⟩, fun hk => absurd hk (lt_irrefl _)⟩

theorem Queue.activity (hK : KeepsHeap env kernelHeapAddress) (h : Queue env X l)
    {s : HeapState σ} {live : List Live} {kept : List ℕ}
    (ha : RecordActivity env X.processes kept X.heap X.live s live) :
    Queue env { X with heap := s, live := live } l := by
  obtain ⟨hr, hm⟩ := ha.heapActivity.records hK h.records
  exact ⟨hr, h.perm, h.ring.sameLinks fun q hq => .of_bytes (hm q (h.perm.mem_iff.mp hq)), h.tick⟩

/-- Each waiting process has what it was left with. -/
def Contexts (X : SchedulerState σ) : Prop :=
  ∀ p ∈ X.waiting, X.saved.lookup p = some (contextOf X.heap.mem p)

theorem Queue.mem_waiting (h : Queue env X l) {p : ℕ} :
    p ∈ X.waiting ↔ p ≠ X.globals.activeProcess ∧ p ∈ X.processes :=
  h.records.nodup.mem_erase_iff

theorem Queue.active_mem (h : Queue env X l) : X.globals.activeProcess ∈ X.processes :=
  h.perm.mem_iff.mp (List.mem_of_head? h.ring.head)

/-- The new process joins at the end, with the registers of `process_fork`. -/
theorem Queue.fork (hK : KeepsHeap env kernelHeapAddress) (h : Queue env X l) {s₁ s₂ : HeapState σ}
    {live₂ : List Live} {newProcess : ℕ} {r : SavedRegisters}
    (hrun : kallocHeapAlloc env X.heap sizeofProcess 0 = .ok (newProcess, s₁))
    (ha : RecordActivity env (newProcess :: X.processes) X.waiting
      { s₁ with mem := linkProcess s₁.mem X.globals newProcess }
      (⟨newProcess, sizeofProcess, 0⟩ :: X.live) s₂ live₂) {m : Mem}
    (hm : m = setRegisters (assignPid s₂.mem X.globals newProcess).1 newProcess r) :
    Queue env
      ⟨{ s₂ with mem := m }, live₂, (assignPid s₂.mem X.globals newProcess).2,
        newProcess :: X.processes, X.tick,
        (newProcess, ⟨r, processPageDirectory s₂.mem newProcess⟩) :: X.saved⟩ (l ++ [newProcess]) ∧
      newProcess ∉ X.processes ∧ ∀ p ∈ X.waiting, contextOf m p = contextOf X.heap.mem p := by
  have hactivity : RecordActivity env X.processes X.waiting X.heap X.live s₁
      (recordAt newProcess :: X.live) := .alloc .refl (.inl rfl) hrun
  obtain ⟨hr₁, hm₁⟩ := hactivity.heapActivity.records hK h.records
  have hfresh : newProcess ∉ X.processes := fun hmem =>
    hr₁.run.alloc_fresh hK _ (h.records.mem_live hmem) rfl
  have hr₁' : Records env s₁ (recordAt newProcess :: X.live) (newProcess :: X.processes) := by
    refine ⟨hr₁.run, fun p hp => ?_, List.nodup_cons.mpr ⟨hfresh, h.records.nodup⟩⟩
    rcases List.mem_cons.mp hp with rfl | hp
    · exact List.mem_cons_self
    · exact hr₁.live p hp
  have hring₁ : IsRing (processNext s₁.mem) (processPrevious s₁.mem) l X.globals.activeProcess :=
    h.ring.sameLinks fun q hq => .of_bytes (hm₁ q (h.perm.mem_iff.mp hq))
  have hmem : ∀ {p}, p ∈ newProcess :: l → p ∈ newProcess :: X.processes := fun hp =>
    (h.perm.cons newProcess).mem_iff.mp hp
  have hap : ∀ p ∈ newProcess :: l, ∀ q ∈ newProcess :: l, RecordsApart p q := fun p hp q hq =>
    hr₁'.apart hK (hmem hp) (hmem hq)
  have hlt : ∀ p ∈ newProcess :: l, p < 4294967296 := fun p hp => (hr₁'.bounds hK (hmem hp)).2
  -- the new record in the ring
  have hring₂ := linkProcess_ring hring₁ (fun hn => hfresh (h.perm.mem_iff.mp hn)) hap hlt
  have hr₂ := hr₁'.write hK (m := linkProcess s₁.mem X.globals newProcess) fun x hx =>
    linkProcess_outside hring₁ fun p hp => hx p (hmem hp)
  obtain ⟨hr₃, hm₃⟩ := ha.heapActivity.records hK hr₂
  -- its pid and its registers
  have hself : ∀ q ∈ newProcess :: X.processes, RecordsApart newProcess q := fun q hq =>
    hr₁'.apart hK List.mem_cons_self hq
  have hpid : ∀ x, x < newProcess ∨ newProcess + 16 ≤ x → m x = s₂.mem x := fun x hx => by
    rw [hm, setRegisters_outside (by omega), assignPid_outside (by omega)]
  have hlinks : ∀ q ∈ l ++ [newProcess],
      processNext m q = processNext (linkProcess s₁.mem X.globals newProcess) q ∧
      processPrevious m q = processPrevious (linkProcess s₁.mem X.globals newProcess) q := by
    intro q hq
    have hq' := hmem ((List.perm_append_singleton newProcess l).mem_iff.mp hq)
    have hq'' := hself q hq'
    have hsame := SameLinks.of_bytes (hm₃ q hq')
    unfold RecordsApart at hq''
    constructor
    · exact (load32_congr fun x _ _ => hpid x (by omega)).trans hsame.next
    · exact (load32_congr fun x _ _ => hpid x (by omega)).trans hsame.previous
  refine ⟨⟨hr₃.write hK fun x hx => ?_, ?_, hring₂.congr (fun q hq => (hlinks q hq).1) fun q hq =>
    (hlinks q hq).2, h.tick⟩, hfresh, fun p hp => ?_⟩
  · have hx' := hx _ List.mem_cons_self
    exact hpid x (by omega)
  · exact (List.perm_append_singleton newProcess l).trans (h.perm.cons newProcess)
  · have hp' := (h.mem_waiting.mp hp).2
    have hne : newProcess ≠ p := fun heq => hfresh (heq ▸ hp')
    have hap' := hself p (.tail _ hp')
    refine contextOf_congr fun x hx => ?_
    have hlink : s₂.mem x = linkProcess s₁.mem X.globals newProcess x :=
      ha.registers hK hr₂ (fun q hq => .tail _ (h.mem_waiting.mp hq).2) p hp x hx
    rw [hpid x ?_, hlink,
      linkProcess_registers hring₁ (fun q hq => hap q hq p (.tail _ (h.perm.mem_iff.mpr hp'))) hx,
      hactivity.registers hK h.records (fun q hq => (h.mem_waiting.mp hq).2) p hp x hx]
    unfold RegisterByte at hx
    unfold RecordsApart at hap'
    omega

/-- The active process leaves, and the next one is active. -/
theorem Queue.exit (hK : KeepsHeap env kernelHeapAddress) (h : Queue env X l) {s : HeapState σ}
    (hleft : 2 ≤ X.processes.length)
    (hrun : kallocHeapFree env { X.heap with mem := (unlinkProcess X.heap.mem X.globals).1 }
      X.globals.activeProcess = .ok s) :
    ∃ t, l = X.globals.activeProcess :: t ∧
      Queue env
        { X with
          heap := s
          live := X.live.erase (recordAt X.globals.activeProcess)
          globals := (unlinkProcess X.heap.mem X.globals).2
          processes := X.processes.erase X.globals.activeProcess } t ∧
      ∀ p ∈ X.waiting, contextOf s.mem p = contextOf X.heap.mem p := by
  obtain ⟨hrecords, -, -⟩ := h.ringInv.exit hK hleft hrun
  obtain ⟨t, rfl⟩ := h.ring.exists_cons
  refine ⟨t, rfl, ?_⟩
  cases t with
  | nil =>
    have hlen := h.perm.length_eq
    rw [List.length_singleton] at hlen
    omega
  | cons b t =>
    have hmem : ∀ {p}, p ∈ X.globals.activeProcess :: b :: t → p ∈ X.processes := fun hp =>
      h.perm.mem_iff.mp hp
    have hap : ∀ p ∈ X.globals.activeProcess :: b :: t, ∀ q ∈ X.globals.activeProcess :: b :: t,
        RecordsApart p q := fun p hp q hq => h.records.apart hK (hmem hp) (hmem hq)
    have hlt : ∀ p ∈ X.globals.activeProcess :: b :: t, p < 4294967296 := fun p hp =>
      (h.records.bounds hK (hmem hp)).2
    obtain ⟨hb, hring, -⟩ := unlinkProcess_ring h.ring hap hlt
    have hperm : (b :: t).Perm (X.processes.erase X.globals.activeProcess) := by
      have := h.perm.erase X.globals.activeProcess
      rwa [List.erase_cons_head] at this
    have hr := h.records.write hK (m := (unlinkProcess X.heap.mem X.globals).1) fun x hx =>
      unlinkProcess_outside h.ring hap hlt fun p hp => hx p (hmem hp)
    -- the release leaves the other records alone
    have hkept : ∀ p ∈ X.waiting, ∀ x, (recordAt p).Owns (unlinkProcess X.heap.mem X.globals).1 x →
        s.mem x = (unlinkProcess X.heap.mem X.globals).1 x := fun p hp x hx =>
      hr.run.free_frame (l := recordAt X.globals.activeProcess) hK hrun
        (hr.mem_live h.active_mem) (hr.mem_live (h.mem_waiting.mp hp).2) (h.mem_waiting.mp hp).1 hx
    refine ⟨⟨hrecords, hperm, ?_, h.tick⟩, fun p hp => contextOf_congr fun x hx => ?_⟩
    · dsimp only
      rw [hb]
      exact hring.sameLinks fun q hq => .of_bytes fun x hx =>
        hkept q (hperm.mem_iff.mp hq) x (hr.owns hK (h.mem_waiting.mp (hperm.mem_iff.mp hq)).2 hx)
    · have hp' := (h.mem_waiting.mp hp).2
      rw [hkept p hp x (hr.owns_register hK hp' hx),
        unlinkProcess_registers h.ring hap hlt (h.perm.mem_iff.mpr hp') hx]

/-- At every hundredth tick the active process goes to the end, with its registers. -/
theorem Queue.turn (hK : KeepsHeap env kernelHeapAddress) (h : Queue env X l) {r : SavedRegisters}
    (hr : r.Word) {tick : ℕ} (htick : tick < 4294967296) (saved : List (ℕ × Context)) :
    ∃ t, l = X.globals.activeProcess :: t ∧
      Queue env
        { X with
          heap := { X.heap with mem := (processSwitch r X.heap.mem X.globals).1 }
          globals := (processSwitch r X.heap.mem X.globals).2
          tick := tick
          saved := saved } (t ++ [X.globals.activeProcess]) ∧
      contextOf (processSwitch r X.heap.mem X.globals).1 X.globals.activeProcess =
        ⟨r, processPageDirectory X.heap.mem X.globals.activeProcess⟩ ∧
      ∀ p ∈ X.waiting, contextOf (processSwitch r X.heap.mem X.globals).1 p =
        contextOf X.heap.mem p := by
  obtain ⟨hbytes, hact, hinv⟩ := h.ringInv.switch hK r
  have hnext : processNext X.heap.mem X.globals.activeProcess ∈ X.processes :=
    h.perm.mem_iff.mp (h.ring.inverse (List.mem_of_head? h.ring.head)).1
  have heq : (processSwitch r X.heap.mem X.globals).1 =
      setRegisters X.heap.mem X.globals.activeProcess r :=
    processSwitch_eq (h.records.bounds hK h.active_mem).1.ne' (h.records.bounds hK hnext).1.ne'
  obtain ⟨t, rfl⟩ := h.ring.exists_cons
  refine ⟨t, rfl, ⟨hinv.records, ?_, ?_, htick⟩, ?_, fun p hp => ?_⟩
  · exact (List.perm_append_singleton _ t).trans h.perm
  · dsimp only
    rw [hact]
    exact h.ring.rotate.sameLinks fun q hq => .of_bytes
      (hbytes q (h.perm.mem_iff.mp ((List.perm_append_singleton _ t).mem_iff.mp hq)))
  · rw [heq, contextOf_setRegisters hr]
  · obtain ⟨hne, hp'⟩ := h.mem_waiting.mp hp
    rw [heq, contextOf_setRegisters_of_apart (h.records.apart hK h.active_mem hp') hne.symm]

/-! ## Steps and runs -/

/-- A bound on the ticks until the timer switches. -/
def ticksLeft (tick : ℕ) : ℕ := 100 - tick % 100

theorem ticksLeft_pos (tick : ℕ) : 0 < ticksLeft tick := by
  unfold ticksLeft
  omega

theorem ticksLeft_le (tick : ℕ) : ticksLeft tick ≤ 100 := Nat.sub_le _ _

/-- The count goes on, or wraps around to a multiple of `100`. -/
theorem ticksLeft_succ {tick : ℕ} (h : tick < 4294967296) (hne : u32 (tick + 1) % 100 ≠ 0) :
    ticksLeft tick = ticksLeft (u32 (tick + 1)) + 1 := by
  by_cases hlt : tick + 1 < 4294967296
  · rw [u32_of_lt hlt] at hne ⊢
    unfold ticksLeft
    omega
  · have hmax : tick = 4294967295 := by omega
    rw [hmax] at hne
    exact absurd rfl hne

/-- A step of the scheduler is a move of the queue. -/
theorem Queue.step (hK : KeepsHeap env kernelHeapAddress) (h : Queue env X l)
    (hs : SchedulerStep env X t Y) :
    ∃ l', Queue env Y l' ∧
      RoundRobin.Move 100 ⟨l, ticksLeft X.tick⟩ t ⟨l', ticksLeft Y.tick⟩ := by
  cases hs with
  | activity ha => exact ⟨l, h.activity hK ha, .stay l _⟩
  | fork hr hrun ha => exact ⟨_, (h.fork hK hrun ha rfl).1, .join l _ _⟩
  | exit hleft hrun =>
    obtain ⟨t, rfl, hq, -⟩ := h.exit hK hleft hrun
    exact ⟨t, hq, .leave _ t _⟩
  | @tick r hr =>
    have hlt := u32_lt (X.tick + 1)
    unfold timerInterruptHandler
    by_cases hturn : u32 (X.tick + 1) % 100 = 0
    · simp only [hturn, if_true]
      obtain ⟨t, rfl, hq, -⟩ := h.turn hK hr hlt _
      refine ⟨_, hq, ?_⟩
      have hfull : ticksLeft (u32 (X.tick + 1)) = 100 := by
        unfold ticksLeft
        rw [hturn]
      rw [hfull]
      exact .turn _ t (ticksLeft_pos _)
    · simp only [hturn, if_false]
      refine ⟨l, ⟨h.records, h.perm, h.ring, hlt⟩, ?_⟩
      rw [ticksLeft_succ h.tick hturn]
      exact .tick l (ticksLeft_pos _)

/-- A step saves the context of the process that loses the CPU, and keeps those of the others. -/
theorem Contexts.step (hK : KeepsHeap env kernelHeapAddress) (hq : Queue env X l)
    (h : Contexts X) (hs : SchedulerStep env X t Y) : Contexts Y := by
  obtain ⟨l', hq', -⟩ := hq.step hK hs
  intro p hp
  obtain ⟨hne, hmem⟩ := hq'.mem_waiting.mp hp
  cases hs with
  | activity ha =>
    refine (h p hp).trans (congrArg some (contextOf_congr fun x hx => ?_).symm)
    exact ha.registers hK hq.records (fun q hq' => (hq.mem_waiting.mp hq').2) p hp x hx
  | @fork s₁ s₂ live₂ newProcess r hr hrun ha =>
    obtain ⟨-, hfresh, hkept⟩ := hq.fork hK hrun ha rfl
    rcases List.mem_cons.mp hmem with rfl | hmem
    · have hdirectory : processPageDirectory (assignPid s₂.mem X.globals p).1 p =
          processPageDirectory s₂.mem p := load32_congr fun x _ _ => assignPid_outside (by omega)
      rw [List.lookup_cons, beq_self_eq_true, contextOf_setRegisters hr, hdirectory]
    · have hp' : p ∈ X.waiting := hq.mem_waiting.mpr ⟨hne, hmem⟩
      have hbeq : (p == newProcess) = false := beq_false_of_ne fun heq => hfresh (heq ▸ hmem)
      rw [List.lookup_cons, hbeq, hkept p hp']
      exact h p hp'
  | exit hleft hrun =>
    obtain ⟨t, rfl, -, hkept⟩ := hq.exit hK hleft hrun
    exact (h p hmem).trans (congrArg some (hkept p hmem).symm)
  | @tick r hr =>
    unfold timerInterruptHandler at hne ⊢
    by_cases hturn : u32 (X.tick + 1) % 100 = 0
    · simp only [hturn, if_true] at hne ⊢
      obtain ⟨t, rfl, -, hself, hkept⟩ := hq.turn hK hr (u32_lt (X.tick + 1)) []
      by_cases heq : p = X.globals.activeProcess
      · rw [heq, List.lookup_cons, beq_self_eq_true, hself]
      · have hp' : p ∈ X.waiting := hq.mem_waiting.mpr ⟨heq, hmem⟩
        rw [List.lookup_cons, beq_false_of_ne heq, hkept p hp']
        exact h p hp'
    · simp only [hturn, if_false] at hne ⊢
      exact h p (hq.mem_waiting.mpr ⟨hne, hmem⟩)

theorem SchedulerBooted.queue (hK : KeepsHeap env kernelHeapAddress) (h : SchedulerBooted env X) :
    ∃ l, Queue env X l := by
  cases h with
  | init hrun hp htick =>
    have hinv := ringInv_init hK hrun hp
    obtain ⟨l, hperm, hring⟩ := hinv.ring
    exact ⟨l, hinv.records, hperm, hring, htick⟩

/-- Only the active process is there. -/
theorem SchedulerBooted.contexts (h : SchedulerBooted env X) : Contexts X := by
  cases h with
  | @init s live p =>
    intro q hq
    change q ∈ [p].erase p at hq
    rw [List.erase_cons_head] at hq
    exact absurd hq List.not_mem_nil

theorem Queue.run (hK : KeepsHeap env kernelHeapAddress) (h : Queue env X l) {actives : List ℕ}
    (hrun : SchedulerRun env X n actives Y) :
    ∃ l', Queue env Y l' ∧
      RoundRobin.Run 100 ⟨l, ticksLeft X.tick⟩ n actives ⟨l', ticksLeft Y.tick⟩ := by
  induction hrun with
  | start => exact ⟨l, h, .start h.ring.head⟩
  | step _ hs ih =>
    obtain ⟨l₁, hq₁, hrun₁⟩ := ih
    obtain ⟨l₂, hq₂, hm⟩ := hq₁.step hK hs
    exact ⟨l₂, hq₂, hrun₁.step hm hq₂.ring.head⟩

theorem Contexts.run (hK : KeepsHeap env kernelHeapAddress) (hq : Queue env X l) (h : Contexts X)
    {actives : List ℕ} (hrun : SchedulerRun env X n actives Y) : Contexts Y := by
  induction hrun with
  | start => exact h
  | step hrun hs ih =>
    obtain ⟨l₁, hq₁, -⟩ := hq.run hK hrun
    exact ih.step hK hq₁ hs

/-- The process that is `i` places behind the active one is active at some time within the next
`100 * i` ticks, whatever processes join, leave and do in between. -/
theorem schedulerRun_activates (hK : KeepsHeap env kernelHeapAddress) {m i : ℕ}
    {before actives : List ℕ} {Z : SchedulerState σ} (h : SchedulerBooted env X)
    (hbefore : SchedulerRun env X m before Y) (hrun : SchedulerRun env Y n actives Z)
    (hn : 100 * i ≤ n) : (processNext Y.heap.mem)^[i] Y.globals.activeProcess ∈ actives := by
  obtain ⟨l₀, hq₀⟩ := h.queue hK
  obtain ⟨l, hq, -⟩ := hq₀.run hK hbefore
  obtain ⟨l', -, hmoves⟩ := hq.run hK hrun
  -- the place in the queue
  have hlen : 0 < l.length := List.length_pos_of_mem (List.mem_of_head? hq.ring.head)
  have hplace := hq.ring.iterate (Nat.mod_lt i hlen)
  have hwrap : (processNext Y.heap.mem)^[i] Y.globals.activeProcess =
      (processNext Y.heap.mem)^[i % l.length] Y.globals.activeProcess := by
    have hround : Function.IsPeriodicPt (processNext Y.heap.mem) l.length Y.globals.activeProcess :=
      hq.ring.iterate_length
    exact (hround.iterate_mod_apply i).symm
  rw [hwrap]
  refine hmoves.mem_heads (ticksLeft_pos _) (ticksLeft_le _) hplace (le_trans ?_ hn)
  exact Nat.mul_le_mul_left 100 (Nat.mod_le i l.length)

/-- A process that becomes active does so with the registers and the page directory that it had when
it lost the CPU the last time, or when it was created; so it is for each process that waits. -/
theorem schedulerRun_contexts (hK : KeepsHeap env kernelHeapAddress) {actives : List ℕ}
    (h : SchedulerBooted env X) (hrun : SchedulerRun env X n actives Y) :
    Contexts Y ∧ ∀ t Z, SchedulerStep env Y t Z →
      Z.globals.activeProcess ≠ Y.globals.activeProcess →
        Y.saved.lookup Z.globals.activeProcess =
          some (contextOf Z.heap.mem Z.globals.activeProcess) := by
  obtain ⟨l₀, hq₀⟩ := h.queue hK
  obtain ⟨l, hq, -⟩ := hq₀.run hK hrun
  have hc := h.contexts.run hK hq₀ hrun
  refine ⟨hc, fun t Z hs hne => ?_⟩
  obtain ⟨l', hq', -⟩ := hq.step hK hs
  have hmem := hq'.active_mem
  cases hs with
  | activity => exact absurd rfl hne
  | fork => exact absurd rfl hne
  | exit hleft hrun =>
    obtain ⟨t, rfl, -, hkept⟩ := hq.exit hK hleft hrun
    exact (hc _ hmem).trans (congrArg some (hkept _ hmem).symm)
  | @tick r hr =>
    unfold timerInterruptHandler at hne hmem ⊢
    by_cases hturn : u32 (Y.tick + 1) % 100 = 0
    · simp only [hturn, if_true] at hne hmem ⊢
      obtain ⟨t, rfl, -, -, hkept⟩ := hq.turn hK hr (u32_lt (Y.tick + 1)) []
      have hwaits := hq.mem_waiting.mpr ⟨hne, hmem⟩
      rw [hkept _ hwaits]
      exact hc _ hwaits
    · simp only [hturn, if_false] at hne
      exact absurd rfl hne

/-! ## A run with a parent and its child -/

theorem exists_ticks (env : PageEnv σ) (X : SchedulerState σ) (n : ℕ) :
    ∃ actives Y, SchedulerRun env X n actives Y := by
  induction n with
  | zero => exact ⟨_, X, .start⟩
  | succ n ih =>
    obtain ⟨actives, Y, hrun⟩ := ih
    exact ⟨_, _, hrun.step (.tick (r := ⟨0, 0, 0⟩) ⟨by decide, by decide, by decide⟩)⟩

theorem exists_schedulerRun : ∃ X Y before, SchedulerBooted flatEnv X ∧
    SchedulerRun flatEnv X 0 before Y ∧ Y.processes = [0x510071, 0x510021] := by
  obtain ⟨s, h, hinv⟩ := exists_flatRecord
  have h₁ : SchedulerBooted flatEnv
      ⟨{ s with mem := (processInitRing s.mem 0x510021).1 }, _, (processInitRing s.mem 0x510021).2,
        [0x510021], 0, []⟩ := .init h List.mem_cons_self (by decide)
  obtain ⟨s₂, hrun, -⟩ := @kallocHeapAlloc_flat _ _ _ 60
    { s with mem := (processInitRing s.mem 0x510021).1 } hinv (by simp) (by decide)
  exact ⟨_, _, _, h₁, SchedulerRun.start.step (.fork (r := ⟨0, 0, 0⟩)
    ⟨by decide, by decide, by decide⟩ hrun .refl), rfl⟩

theorem schedulerRun_activates_child : ∃ (Y : SchedulerState Unit) (actives : List ℕ),
    Y.processes = [0x510071, 0x510021] ∧
      (processNext Y.heap.mem)^[1] Y.globals.activeProcess ∈ actives := by
  obtain ⟨X, Y, before, h, hbefore, hps⟩ := exists_schedulerRun
  obtain ⟨actives, Z, hrun⟩ := exists_ticks flatEnv Y 100
  exact ⟨Y, actives, hps,
    schedulerRun_activates (flatEnv_keepsHeap _) h hbefore hrun (i := 1) (by decide)⟩

theorem schedulerRun_contexts_child : ∃ Y : SchedulerState Unit,
    Y.processes = [0x510071, 0x510021] ∧ Contexts Y := by
  obtain ⟨X, Y, before, h, hbefore, hps⟩ := exists_schedulerRun
  exact ⟨Y, hps, (schedulerRun_contexts (flatEnv_keepsHeap _) h hbefore).1⟩

end

end RawOS
