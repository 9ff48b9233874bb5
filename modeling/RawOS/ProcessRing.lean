import RawOS.KallocRun
import RawOS.Ring

/-!
# The ring of processes

The records of the processes lie in blocks of the kernel heap and form a ring through their fields
`previous` and `next`. `RingRun` are the states after `process_init` and any calls of
`process_fork`, `process_exit` and `process_switch`, with any use of the heap and of the memory by
the rest of the kernel between and inside them; `ringRun_ring` says what the ring is then.
-/

namespace RawOS

/-! ## Records -/

def sizeofProcess : ℕ := 60

def processPid (m : Mem) (p : ℕ) : ℕ := load32 m p
def processPrevious (m : Mem) (p : ℕ) : ℕ := load32 m (p + 52)
def processNext (m : Mem) (p : ℕ) : ℕ := load32 m (p + 56)

def setProcessPid (m : Mem) (p v : ℕ) : Mem := store32 m p v
def setProcessEsp (m : Mem) (p v : ℕ) : Mem := store32 m (p + 4) v
def setProcessEbp (m : Mem) (p v : ℕ) : Mem := store32 m (p + 8) v
def setProcessEip (m : Mem) (p v : ℕ) : Mem := store32 m (p + 12) v
def setProcessPrevious (m : Mem) (p v : ℕ) : Mem := store32 m (p + 52) v
def setProcessNext (m : Mem) (p v : ℕ) : Mem := store32 m (p + 56) v

/-! ## `process.c` -/

/-- `active_process` and `current_pid`. -/
structure Scheduler where
  activeProcess : ℕ
  currentPid : ℕ

/-- `pid = current_pid++`. -/
def assignPid (m : Mem) (g : Scheduler) (p : ℕ) : Mem × Scheduler :=
  (setProcessPid m p g.currentPid, { g with currentPid := u32 (g.currentPid + 1) })

/-- `process_init`, for the record `p`. -/
def processInitRing (m : Mem) (p : ℕ) : Mem × Scheduler :=
  let g : Scheduler := ⟨p, 1⟩
  let m := setProcessPrevious m g.activeProcess g.activeProcess
  let m := setProcessNext m g.activeProcess g.activeProcess
  assignPid m g g.activeProcess

/-- `process_fork`: the record `newProcess` goes before the active one. -/
def linkProcess (m : Mem) (g : Scheduler) (newProcess : ℕ) : Mem :=
  let previous := processPrevious m g.activeProcess
  let m := setProcessNext m previous newProcess
  let m := setProcessPrevious m newProcess previous
  let m := setProcessPrevious m g.activeProcess newProcess
  setProcessNext m newProcess g.activeProcess

/-- `process_exit`: the active process leaves the ring, and the next one becomes active. -/
def unlinkProcess (m : Mem) (g : Scheduler) : Mem × Scheduler :=
  let processExiting := g.activeProcess
  let g := { g with activeProcess := processNext m g.activeProcess }
  let m := setProcessPrevious m (processNext m processExiting) (processPrevious m processExiting)
  let m := setProcessNext m (processPrevious m processExiting) (processNext m processExiting)
  (m, g)

/-- The registers that `process_switch` saves. -/
structure SavedRegisters where
  eip : ℕ
  esp : ℕ
  ebp : ℕ

/-- `process_switch`, of the process that loses the CPU. -/
def processSwitch (r : SavedRegisters) (m : Mem) (g : Scheduler) : Mem × Scheduler :=
  if g.activeProcess = 0 then (m, g)
  else if processNext m g.activeProcess = 0 then (m, g)
  else
    let m := setProcessEip m g.activeProcess r.eip
    let m := setProcessEsp m g.activeProcess r.esp
    let m := setProcessEbp m g.activeProcess r.ebp
    (m, { g with activeProcess := processNext m g.activeProcess })

/-- The processes that consecutive switches activate. -/
def activations : List SavedRegisters → Mem → Scheduler → List ℕ
  | [], _, _ => []
  | r :: rs, m, g =>
    let (m, g) := processSwitch r m g
    g.activeProcess :: activations rs m g

/-! ## Runs -/

/-- The bytes of `pid`, `previous` and `next` of the record `p`. -/
def RingByte (p x : ℕ) : Prop := p ≤ x ∧ x < p + 4 ∨ p + 52 ≤ x ∧ x < p + 60

/-- What the rest of the kernel does with the heap and the memory: it allocates, releases what is no
record of the processes `ps`, and writes anything but their pids and pointers. -/
inductive HeapActivity {σ : Type} (env : PageEnv σ) (ps : List ℕ) (s : HeapState σ)
    (live : List Live) : HeapState σ → List Live → Prop where
  | refl : HeapActivity env ps s live s live
  | alloc {s₁ s₂ : HeapState σ} {live₁ : List Live} {size alignment p : ℕ} :
    HeapActivity env ps s live s₁ live₁ → ValidAlignment alignment →
    kallocHeapAlloc env s₁ size alignment = .ok (p, s₂) →
    HeapActivity env ps s live s₂ (⟨p, size, alignment⟩ :: live₁)
  | free {s₁ s₂ : HeapState σ} {live₁ : List Live} {l : Live} :
    HeapActivity env ps s live s₁ live₁ → l ∈ live₁ → l.ptr ∉ ps →
    kallocHeapFree env s₁ l.ptr = .ok s₂ → HeapActivity env ps s live s₂ (live₁.erase l)
  | write {s₁ : HeapState σ} {live₁ : List Live} {m : Mem} {sys : σ} :
    HeapActivity env ps s live s₁ live₁ →
    (∀ x, kernelHeapAddress ≤ x → x < s₁.heap.initialAddr + s₁.heap.size →
      (∀ l ∈ live₁, ¬ l.Owns s₁.mem x) → m x = s₁.mem x) →
    (∀ p ∈ ps, ∀ x, RingByte p x → m x = s₁.mem x) →
    HeapActivity env ps s live ⟨s₁.heap, m, sys⟩ live₁

/-- The heap, the live allocations, the globals, the live processes and the number of processes that
were created, after `process_init` and any number of calls. A run goes on after a call of
`process_exit` where another process is left. -/
inductive RingRun {σ : Type} (env : PageEnv σ) :
    HeapState σ → List Live → Scheduler → List ℕ → ℕ → Prop where
  | init {s : HeapState σ} {live : List Live} {p : ℕ} :
    KallocRun env s live → ⟨p, sizeofProcess, 0⟩ ∈ live →
    RingRun env { s with mem := (processInitRing s.mem p).1 } live (processInitRing s.mem p).2 [p] 1
  | activity {s s' : HeapState σ} {live live' : List Live} {g : Scheduler} {ps : List ℕ} {k : ℕ} :
    RingRun env s live g ps k → HeapActivity env ps s live s' live' → RingRun env s' live' g ps k
  | fork {s s₁ s₂ : HeapState σ} {live live₂ : List Live} {g : Scheduler} {ps : List ℕ}
    {k newProcess : ℕ} :
    RingRun env s live g ps k →
    kallocHeapAlloc env s sizeofProcess 0 = .ok (newProcess, s₁) →
    HeapActivity env (newProcess :: ps) { s₁ with mem := linkProcess s₁.mem g newProcess }
      (⟨newProcess, sizeofProcess, 0⟩ :: live) s₂ live₂ →
    RingRun env { s₂ with mem := (assignPid s₂.mem g newProcess).1 } live₂
      (assignPid s₂.mem g newProcess).2 (newProcess :: ps) (k + 1)
  | exit {s s' : HeapState σ} {live : List Live} {g : Scheduler} {ps : List ℕ} {k : ℕ} :
    RingRun env s live g ps k → 2 ≤ ps.length →
    kallocHeapFree env { s with mem := (unlinkProcess s.mem g).1 } g.activeProcess = .ok s' →
    RingRun env s' (live.erase ⟨g.activeProcess, sizeofProcess, 0⟩) (unlinkProcess s.mem g).2
      (ps.erase g.activeProcess) k
  | switch {s : HeapState σ} {live : List Live} {g : Scheduler} {ps : List ℕ} {k : ℕ}
    (r : SavedRegisters) :
    RingRun env s live g ps k →
    RingRun env { s with mem := (processSwitch r s.mem g).1 } live (processSwitch r s.mem g).2 ps k

/-! ## Reading and writing records -/

/-- The records at `p` and `q` are the same or apart. -/
def RecordsApart (p q : ℕ) : Prop := p = q ∨ p + 60 ≤ q ∨ q + 60 ≤ p

section

variable {m m' : Mem} {p q v : ℕ}

theorem processNext_setNext (h : RecordsApart p q) (hv : v < 4294967296) :
    processNext (setProcessNext m p v) q = Function.update (processNext m) p v q := by
  unfold processNext setProcessNext
  rcases h with rfl | h
  · rw [Function.update_self, load32_store32_eq rfl hv]
  · rw [Function.update_of_ne (by omega), load32_store32_of_disjoint (by omega)]

theorem processPrevious_setPrevious (h : RecordsApart p q) (hv : v < 4294967296) :
    processPrevious (setProcessPrevious m p v) q = Function.update (processPrevious m) p v q := by
  unfold processPrevious setProcessPrevious
  rcases h with rfl | h
  · rw [Function.update_self, load32_store32_eq rfl hv]
  · rw [Function.update_of_ne (by omega), load32_store32_of_disjoint (by omega)]

theorem processPid_setPid (h : RecordsApart p q) (hv : v < 4294967296) :
    processPid (setProcessPid m p v) q = Function.update (processPid m) p v q := by
  unfold processPid setProcessPid
  rcases h with rfl | h
  · rw [Function.update_self, load32_store32_eq rfl hv]
  · rw [Function.update_of_ne (by omega), load32_store32_of_disjoint (by omega)]

theorem processNext_setPrevious (h : RecordsApart p q) :
    processNext (setProcessPrevious m p v) q = processNext m q := by
  unfold RecordsApart at h
  exact load32_store32_of_disjoint (by omega)

theorem processPrevious_setNext (h : RecordsApart p q) :
    processPrevious (setProcessNext m p v) q = processPrevious m q := by
  unfold RecordsApart at h
  exact load32_store32_of_disjoint (by omega)

theorem processPid_setNext (h : RecordsApart p q) :
    processPid (setProcessNext m p v) q = processPid m q := by
  unfold RecordsApart at h
  exact load32_store32_of_disjoint (by omega)

theorem processPid_setPrevious (h : RecordsApart p q) :
    processPid (setProcessPrevious m p v) q = processPid m q := by
  unfold RecordsApart at h
  exact load32_store32_of_disjoint (by omega)

theorem processNext_setPid (h : RecordsApart p q) :
    processNext (setProcessPid m p v) q = processNext m q := by
  unfold RecordsApart at h
  exact load32_store32_of_disjoint (by omega)

theorem processPrevious_setPid (h : RecordsApart p q) :
    processPrevious (setProcessPid m p v) q = processPrevious m q := by
  unfold RecordsApart at h
  exact load32_store32_of_disjoint (by omega)

/-- The pid and the pointers of the record `q` stay. -/
structure SameLinks (m m' : Mem) (q : ℕ) : Prop where
  pid : processPid m' q = processPid m q
  previous : processPrevious m' q = processPrevious m q
  next : processNext m' q = processNext m q

theorem SameLinks.of_bytes (h : ∀ x, RingByte q x → m' x = m x) : SameLinks m m' q where
  pid := load32_congr fun x h₁ h₂ => h x (.inl ⟨h₁, h₂⟩)
  previous := load32_congr fun x h₁ h₂ => h x (.inr (by omega))
  next := load32_congr fun x h₁ h₂ => h x (.inr (by omega))

theorem IsRing.sameLinks {l : List ℕ} {a : ℕ} (h : IsRing (processNext m) (processPrevious m) l a)
    (hs : ∀ q ∈ l, SameLinks m m' q) : IsRing (processNext m') (processPrevious m') l a :=
  h.congr (fun q hq => (hs q hq).next) fun q hq => (hs q hq).previous

end

section Links

variable {m : Mem} {g : Scheduler} {l ps : List ℕ} {newProcess : ℕ}

theorem processInitRing_outside {p x : ℕ} (hx : x < p ∨ p + 60 ≤ x) :
    (processInitRing m p).1 x = m x := by
  unfold processInitRing assignPid
  dsimp only
  unfold setProcessPid setProcessNext setProcessPrevious
  rw [store32_of_outside (by omega), store32_of_outside (by omega), store32_of_outside (by omega)]

/-- `process_fork` puts the new record before the active one. -/
theorem linkProcess_ring (h : IsRing (processNext m) (processPrevious m) l g.activeProcess)
    (hnew : newProcess ∉ l) (hap : ∀ p ∈ newProcess :: l, ∀ q ∈ newProcess :: l, RecordsApart p q)
    (hlt : ∀ p ∈ newProcess :: l, p < 4294967296) :
    IsRing (processNext (linkProcess m g newProcess)) (processPrevious (linkProcess m g newProcess))
      (l ++ [newProcess]) g.activeProcess := by
  have hprev : processPrevious m g.activeProcess ∈ newProcess :: l := .tail _ h.previous_mem
  have hact : g.activeProcess ∈ newProcess :: l := .tail _ (List.mem_of_head? h.head)
  have hn : newProcess ∈ newProcess :: l := List.mem_cons_self
  have hsub : ∀ {u}, u ∈ l ++ [newProcess] → u ∈ newProcess :: l := fun hu =>
    (List.perm_append_singleton newProcess l).mem_iff.mp hu
  refine (h.insert hnew).congr (fun u hu => ?_) fun u hu => ?_
  all_goals
    have hu' := hsub hu
    unfold linkProcess
    dsimp only
  · rw [processNext_setNext (hap _ hn _ hu') (hlt _ hact), Function.update_apply,
      Function.update_apply, processNext_setPrevious (hap _ hact _ hu'),
      processNext_setPrevious (hap _ hn _ hu'), processNext_setNext (hap _ hprev _ hu') (hlt _ hn)]
  · rw [processPrevious_setNext (hap _ hn _ hu'),
      processPrevious_setPrevious (hap _ hact _ hu') (hlt _ hn), Function.update_apply,
      Function.update_apply, processPrevious_setPrevious (hap _ hn _ hu') (hlt _ hprev),
      Function.update_apply, Function.update_apply, processPrevious_setNext (hap _ hprev _ hu')]

theorem linkProcess_pid (h : IsRing (processNext m) (processPrevious m) l g.activeProcess)
    (hap : ∀ p ∈ newProcess :: l, ∀ q ∈ newProcess :: l, RecordsApart p q) {q : ℕ} (hq : q ∈ l) :
    processPid (linkProcess m g newProcess) q = processPid m q := by
  have hprev : processPrevious m g.activeProcess ∈ newProcess :: l := .tail _ h.previous_mem
  have hact : g.activeProcess ∈ newProcess :: l := .tail _ (List.mem_of_head? h.head)
  have hn : newProcess ∈ newProcess :: l := List.mem_cons_self
  have hq' : q ∈ newProcess :: l := .tail _ hq
  unfold linkProcess
  dsimp only
  rw [processPid_setNext (hap _ hn _ hq'), processPid_setPrevious (hap _ hact _ hq'),
    processPid_setPrevious (hap _ hn _ hq'), processPid_setNext (hap _ hprev _ hq')]

/-- Only the records are written. -/
theorem linkProcess_outside {x : ℕ}
    (h : IsRing (processNext m) (processPrevious m) l g.activeProcess)
    (hx : ∀ p ∈ newProcess :: l, x < p ∨ p + 60 ≤ x) : linkProcess m g newProcess x = m x := by
  have hprev := hx _ (.tail _ h.previous_mem)
  have hact := hx _ (.tail _ (List.mem_of_head? h.head))
  have hn := hx _ List.mem_cons_self
  unfold linkProcess
  unfold setProcessNext setProcessPrevious
  rw [store32_of_outside (by omega), store32_of_outside (by omega),
    store32_of_outside (by omega), store32_of_outside (by omega)]

/-- The second statement of `process_exit` reads the pointers after the first store; they are those
from before. -/
theorem unlinkProcess_eq {b : ℕ}
    (h : IsRing (processNext m) (processPrevious m) (g.activeProcess :: b :: l) g.activeProcess)
    (hap : ∀ p ∈ g.activeProcess :: b :: l, ∀ q ∈ g.activeProcess :: b :: l, RecordsApart p q)
    (hlt : ∀ p ∈ g.activeProcess :: b :: l, p < 4294967296) :
    unlinkProcess m g = (setProcessNext
      (setProcessPrevious m b (processPrevious m g.activeProcess))
        (processPrevious m g.activeProcess) b, { g with activeProcess := b }) := by
  have hact : g.activeProcess ∈ g.activeProcess :: b :: l := List.mem_cons_self
  have hb : b ∈ g.activeProcess :: b :: l := .tail _ List.mem_cons_self
  have hnext : processNext m g.activeProcess = b := (List.isChain_cons_cons.mp h.chain).1.1
  have hne : g.activeProcess ≠ b := fun heq =>
    (List.nodup_cons.mp h.nodup).1 (heq ▸ List.mem_cons_self)
  unfold unlinkProcess
  dsimp only
  rw [hnext, processNext_setPrevious (hap _ hb _ hact), hnext,
    processPrevious_setPrevious (hap _ hb _ hact) (hlt _ h.previous_mem), Function.update_of_ne hne]

theorem unlinkProcess_outside {b x : ℕ}
    (h : IsRing (processNext m) (processPrevious m) (g.activeProcess :: b :: l) g.activeProcess)
    (hap : ∀ p ∈ g.activeProcess :: b :: l, ∀ q ∈ g.activeProcess :: b :: l, RecordsApart p q)
    (hlt : ∀ p ∈ g.activeProcess :: b :: l, p < 4294967296)
    (hx : ∀ p ∈ g.activeProcess :: b :: l, x < p ∨ p + 60 ≤ x) : (unlinkProcess m g).1 x = m x := by
  have hprev := hx _ h.previous_mem
  have hb := hx b (.tail _ List.mem_cons_self)
  rw [unlinkProcess_eq h hap hlt]
  dsimp only
  unfold setProcessNext setProcessPrevious
  rw [store32_of_outside (by omega), store32_of_outside (by omega)]

/-- `process_exit` takes the active record out. -/
theorem unlinkProcess_ring {b : ℕ}
    (h : IsRing (processNext m) (processPrevious m) (g.activeProcess :: b :: l) g.activeProcess)
    (hap : ∀ p ∈ g.activeProcess :: b :: l, ∀ q ∈ g.activeProcess :: b :: l, RecordsApart p q)
    (hlt : ∀ p ∈ g.activeProcess :: b :: l, p < 4294967296) :
    (unlinkProcess m g).2.activeProcess = b ∧
      IsRing (processNext (unlinkProcess m g).1) (processPrevious (unlinkProcess m g).1) (b :: l) b ∧
      ∀ q ∈ b :: l, processPid (unlinkProcess m g).1 q = processPid m q := by
  have hprev := h.previous_mem
  have hnext : processNext m g.activeProcess = b := (List.isChain_cons_cons.mp h.chain).1.1
  have hb : b ∈ g.activeProcess :: b :: l := .tail _ List.mem_cons_self
  have hsub : ∀ {u}, u ∈ b :: l → u ∈ g.activeProcess :: b :: l := fun hu => .tail _ hu
  rw [unlinkProcess_eq h hap hlt]
  dsimp only
  have hr := h.remove
  rw [hnext] at hr
  refine ⟨rfl, hr.congr (fun u hu => ?_) fun u hu => ?_, fun q hq => ?_⟩
  · rw [processNext_setNext (hap _ hprev _ (hsub hu)) (hlt _ hb), Function.update_apply,
      Function.update_apply, processNext_setPrevious (hap _ hb _ (hsub hu))]
  · rw [processPrevious_setNext (hap _ hprev _ (hsub hu)),
      processPrevious_setPrevious (hap _ hb _ (hsub hu)) (hlt _ hprev)]
  · rw [processPid_setNext (hap _ hprev _ (hsub hq)), processPid_setPrevious (hap _ hb _ (hsub hq))]

theorem processSwitch_outside (r : SavedRegisters) {x : ℕ}
    (hx : x < g.activeProcess + 4 ∨ g.activeProcess + 16 ≤ x) :
    (processSwitch r m g).1 x = m x := by
  unfold processSwitch
  split_ifs
  · rfl
  · rfl
  · dsimp only
    unfold setProcessEbp setProcessEsp setProcessEip
    rw [store32_of_outside (by omega), store32_of_outside (by omega), store32_of_outside (by omega)]

/-- The registers are saved beside the pid and the pointers. -/
theorem processSwitch_bytes (r : SavedRegisters) {q x : ℕ}
    (hap : RecordsApart g.activeProcess q) (hx : RingByte q x) :
    (processSwitch r m g).1 x = m x := by
  unfold RecordsApart at hap
  unfold RingByte at hx
  exact processSwitch_outside r (by omega)

theorem processSwitch_active (r : SavedRegisters) (hact : g.activeProcess ≠ 0)
    (hnext : processNext m g.activeProcess ≠ 0) :
    (processSwitch r m g).2.activeProcess =
      processNext (processSwitch r m g).1 g.activeProcess := by
  unfold processSwitch
  rw [if_neg hact, if_neg hnext]

end Links

/-! ## The invariant -/

section

variable {σ : Type} {env : PageEnv σ} {s s' : HeapState σ} {live live' : List Live} {g : Scheduler}
  {ps : List ℕ} {k : ℕ}

/-- The record of the process at `p`, as an allocation. -/
def recordAt (p : ℕ) : Live := ⟨p, sizeofProcess, 0⟩

/-- The records of the processes `ps` are live allocations of a heap in order. -/
structure Records (env : PageEnv σ) (s : HeapState σ) (live : List Live) (ps : List ℕ) : Prop where
  run : HeapRun env kernelHeapAddress s (live ++ [firstByte])
  live : ∀ p ∈ ps, recordAt p ∈ live
  nodup : ps.Nodup

/-- The pids of the processes, of which `k` were created. -/
structure Pids (m : Mem) (g : Scheduler) (ps : List ℕ) (k : ℕ) : Prop where
  currentPid : g.currentPid = u32 (k + 1)
  le : ∀ p ∈ ps, processPid m p ≤ k
  nodup : (ps.map (processPid m)).Nodup

/-- What holds of the processes between two calls. -/
structure RingInv (env : PageEnv σ) (s : HeapState σ) (live : List Live) (g : Scheduler)
    (ps : List ℕ) (k : ℕ) : Prop where
  records : Records env s live ps
  ring : ∃ l, l.Perm ps ∧ IsRing (processNext s.mem) (processPrevious s.mem) l g.activeProcess
  pids : k < 4294967296 → Pids s.mem g ps k

theorem Records.mem_live (h : Records env s live ps) {p : ℕ} (hp : p ∈ ps) :
    recordAt p ∈ live ++ [firstByte] := List.mem_append_left _ (h.live p hp)

namespace Records

variable (hK : KeepsHeap env kernelHeapAddress)
include hK

theorem apart (h : Records env s live ps) {p q : ℕ} (hp : p ∈ ps) (hq : q ∈ ps) :
    RecordsApart p q := by
  by_cases hne : p = q
  · exact .inl hne
  · exact .inr (h.run.apart hK (h.mem_live hp) rfl (h.mem_live hq) rfl hne)

theorem bounds (h : Records env s live ps) {p : ℕ} (hp : p ∈ ps) : 0 < p ∧ p < 4294967296 := by
  obtain ⟨h₁, h₂⟩ := h.run.bounds hK (h.mem_live hp) rfl
  have hsize : (recordAt p).size = 60 := rfl
  have hptr : (recordAt p).ptr = p := rfl
  omega

theorem owns (h : Records env s live ps) {p x : ℕ} (hp : p ∈ ps) (hx : RingByte p x) :
    (recordAt p).Owns s.mem x := by
  refine h.run.owns hK (h.mem_live hp) rfl ?_ ?_
  all_goals
    unfold RingByte at hx
    have hsize : (recordAt p).size = 60 := rfl
    have hptr : (recordAt p).ptr = p := rfl
    omega

/-- The kernel may write into the records. -/
theorem write (h : Records env s live ps) {m : Mem}
    (hm : ∀ x, (∀ p ∈ ps, x < p ∨ p + 60 ≤ x) → m x = s.mem x) :
    Records env { s with mem := m } live ps := by
  refine ⟨h.run.write fun x _ _ hx => hm x fun p hp => ?_, h.live, h.nodup⟩
  by_contra hin
  rw [not_or, not_lt, not_le] at hin
  exact hx _ (h.mem_live hp) (h.run.owns hK (h.mem_live hp) rfl hin.1 hin.2)

end Records

/-- The rest of the kernel leaves the records alone. -/
theorem HeapActivity.records (hK : KeepsHeap env kernelHeapAddress)
    (ha : HeapActivity env ps s live s' live') (h : Records env s live ps) :
    Records env s' live' ps ∧ ∀ p ∈ ps, ∀ x, RingByte p x → s'.mem x = s.mem x := by
  induction ha with
  | refl => exact ⟨h, fun _ _ _ _ => rfl⟩
  | alloc _ hv hrun ih =>
    obtain ⟨hr, hm⟩ := ih
    have hfirst := hr.run.first_used hK
    refine ⟨⟨hr.run.alloc hv (fun _ => hfirst) hrun, fun p hp => .tail _ (hr.live p hp), h.nodup⟩,
      fun p hp x hx => ?_⟩
    rw [hr.run.alloc_frame hK hv (fun _ => hfirst) hrun (hr.mem_live hp) (hr.owns hK hp hx),
      hm p hp x hx]
  | @free s₁ s₂ live₁ l _ hl hnot hrun ih =>
    obtain ⟨hr, hm⟩ := ih
    have hl' := List.mem_append_left [firstByte] hl
    have hrun' := hr.run.free hl' hrun
    rw [List.erase_append_left _ hl] at hrun'
    have hne : ∀ p ∈ ps, (recordAt p).ptr ≠ l.ptr := fun p hp heq => by
      rw [← heq] at hnot
      exact hnot hp
    refine ⟨⟨hrun', fun p hp => (List.mem_erase_of_ne ?_).mpr (hr.live p hp), h.nodup⟩,
      fun p hp x hx => ?_⟩
    · rintro rfl
      exact hne p hp rfl
    · rw [hr.run.free_frame hK hrun hl' (hr.mem_live hp) (hne p hp) (hr.owns hK hp hx),
        hm p hp x hx]
  | write _ hm' hring ih =>
    obtain ⟨hr, hm⟩ := ih
    refine ⟨⟨hr.run.write fun x h₁ h₂ hx => hm' x h₁ h₂ fun l hl => hx l (List.mem_append_left _ hl),
      hr.live, h.nodup⟩, fun p hp x hx => ?_⟩
    dsimp only
    rw [hring p hp x hx, hm p hp x hx]

theorem Pids.sameLinks {m m' : Mem} (h : Pids m g ps k) (hs : ∀ q ∈ ps, SameLinks m m' q) :
    Pids m' g ps k := by
  refine ⟨h.currentPid, fun p hp => ?_, ?_⟩
  · rw [(hs p hp).pid]
    exact h.le p hp
  · rw [List.map_congr_left fun p hp => (hs p hp).pid]
    exact h.nodup

/-- The records stay where nothing writes their pids and pointers. -/
theorem RingInv.of_records (h : RingInv env s live g ps k) (hr : Records env s' live' ps)
    (hm : ∀ p ∈ ps, ∀ x, RingByte p x → s'.mem x = s.mem x) : RingInv env s' live' g ps k := by
  have hs : ∀ q ∈ ps, SameLinks s.mem s'.mem q := fun q hq => .of_bytes (hm q hq)
  obtain ⟨l, hl, hring⟩ := h.ring
  exact ⟨hr, ⟨l, hl, hring.sameLinks fun q hq => hs q (hl.mem_iff.mp hq)⟩,
    fun hk => (h.pids hk).sameLinks hs⟩

/-- A process more, with the next pid. -/
theorem Pids.cons {m m' : Mem} {newProcess : ℕ} (h : Pids m g ps k) (hk : k + 1 < 4294967296)
    (hpid : ∀ q ∈ ps, processPid m' q = processPid m q)
    (hnew : processPid m' newProcess = g.currentPid) :
    Pids m' { g with currentPid := u32 (g.currentPid + 1) } (newProcess :: ps) (k + 1) := by
  have hcur : g.currentPid = k + 1 := by rw [h.currentPid, u32_of_lt hk]
  rw [hcur] at hnew
  refine ⟨?_, fun q hq => ?_, ?_⟩
  · dsimp only
    rw [hcur]
  · rcases List.mem_cons.mp hq with rfl | hq
    · exact hnew.le
    · rw [hpid q hq]
      exact (h.le q hq).trans (Nat.le_succ k)
  · rw [List.map_cons, List.nodup_cons, List.map_congr_left hpid, hnew]
    refine ⟨fun hin => ?_, h.nodup⟩
    obtain ⟨q, hq, heq⟩ := List.mem_map.mp hin
    have hle := h.le q hq
    omega

/-! ## Each call -/

theorem ringInv_init (hK : KeepsHeap env kernelHeapAddress) {p : ℕ} (h : KallocRun env s live)
    (hp : recordAt p ∈ live) :
    RingInv env { s with mem := (processInitRing s.mem p).1 } live (processInitRing s.mem p).2 [p]
      1 := by
  have hr : Records env s live [p] := ⟨h.heapRun hK, fun q hq => by
    rw [List.mem_singleton.mp hq]
    exact hp, List.nodup_singleton p⟩
  have hlt := (hr.bounds hK (List.mem_singleton_self p)).2
  have hap : RecordsApart p p := .inl rfl
  refine ⟨hr.write hK fun x hx => ?_, ⟨[p], .refl _, List.nodup_singleton p, rfl, ?_⟩, fun _ => ?_⟩
  · have hx' := hx p (List.mem_singleton_self p)
    exact processInitRing_outside hx'
  · rw [List.singleton_append, List.isChain_cons_cons]
    unfold processInitRing assignPid Follows
    dsimp only
    rw [processNext_setPid hap, processNext_setNext hap hlt, processPrevious_setPid hap,
      processPrevious_setNext hap, processPrevious_setPrevious hap hlt, Function.update_self,
      Function.update_self]
    exact ⟨⟨rfl, rfl⟩, .singleton p⟩
  · refine ⟨rfl, fun q hq => ?_, List.nodup_singleton _⟩
    rw [List.mem_singleton.mp hq]
    unfold processInitRing assignPid
    dsimp only
    rw [processPid_setPid hap (by decide), Function.update_self]

theorem RingInv.fork (hK : KeepsHeap env kernelHeapAddress) {s₁ s₂ : HeapState σ}
    {live₂ : List Live} {newProcess : ℕ} (h : RingInv env s live g ps k)
    (hrun : kallocHeapAlloc env s sizeofProcess 0 = .ok (newProcess, s₁))
    (ha : HeapActivity env (newProcess :: ps) { s₁ with mem := linkProcess s₁.mem g newProcess }
      (⟨newProcess, sizeofProcess, 0⟩ :: live) s₂ live₂) :
    RingInv env { s₂ with mem := (assignPid s₂.mem g newProcess).1 } live₂
      (assignPid s₂.mem g newProcess).2 (newProcess :: ps) (k + 1) := by
  obtain ⟨l, hl, hring⟩ := h.ring
  -- the new record
  have hactivity : HeapActivity env ps s live s₁ (recordAt newProcess :: live) :=
    .alloc .refl (.inl rfl) hrun
  obtain ⟨hr₁, hm₁⟩ := hactivity.records hK h.records
  have h₁ := h.of_records hr₁ hm₁
  have hfresh : newProcess ∉ ps := fun hmem =>
    hr₁.run.alloc_fresh hK _ (h.records.mem_live hmem) rfl
  have hr₁' : Records env s₁ (recordAt newProcess :: live) (newProcess :: ps) := by
    refine ⟨hr₁.run, fun p hp => ?_, List.nodup_cons.mpr ⟨hfresh, h.records.nodup⟩⟩
    rcases List.mem_cons.mp hp with rfl | hp
    · exact List.mem_cons_self
    · exact hr₁.live p hp
  have hring₁ : IsRing (processNext s₁.mem) (processPrevious s₁.mem) l g.activeProcess :=
    hring.sameLinks fun q hq => .of_bytes (hm₁ q (hl.mem_iff.mp hq))
  have hmem : ∀ {p}, p ∈ newProcess :: l → p ∈ newProcess :: ps := fun hp =>
    (hl.cons newProcess).mem_iff.mp hp
  have hap : ∀ p ∈ newProcess :: l, ∀ q ∈ newProcess :: l, RecordsApart p q := fun p hp q hq =>
    hr₁'.apart hK (hmem hp) (hmem hq)
  have hlt : ∀ p ∈ newProcess :: l, p < 4294967296 := fun p hp => (hr₁'.bounds hK (hmem hp)).2
  -- the ring with the new record
  have hnew : newProcess ∉ l := fun hn => hfresh (hl.mem_iff.mp hn)
  have hring₂ := linkProcess_ring hring₁ hnew hap hlt
  have hr₂ := hr₁'.write hK (m := linkProcess s₁.mem g newProcess) fun x hx =>
    linkProcess_outside hring₁ fun p hp => hx p (hmem hp)
  obtain ⟨hr₃, hm₃⟩ := ha.records hK hr₂
  have hring₃ := hring₂.sameLinks fun q hq =>
    .of_bytes (hm₃ q (hmem ((List.perm_append_singleton newProcess l).mem_iff.mp hq)))
  -- the pid of the new record
  have hself : ∀ q ∈ newProcess :: ps, RecordsApart newProcess q := fun q hq =>
    hr₁'.apart hK List.mem_cons_self hq
  refine ⟨hr₃.write hK fun x hx => ?_, ⟨l ++ [newProcess], ?_, ?_⟩, fun hk => ?_⟩
  · have hx' := hx _ List.mem_cons_self
    unfold assignPid setProcessPid
    exact store32_of_outside (by omega)
  · exact (List.perm_append_singleton newProcess l).trans (hl.cons newProcess)
  · refine hring₃.congr (fun q hq => ?_) fun q hq => ?_
    all_goals
      have hq' := hself q (hmem ((List.perm_append_singleton newProcess l).mem_iff.mp hq))
    · exact processNext_setPid hq'
    · exact processPrevious_setPid hq'
  · have hpids := h₁.pids (by omega)
    have hcur : g.currentPid < 4294967296 := by
      rw [hpids.currentPid]
      exact u32_lt _
    unfold assignPid
    refine hpids.cons hk (fun q hq => ?_) ?_
    · have hne : q ≠ newProcess := fun heq => hfresh (heq ▸ hq)
      rw [processPid_setPid (hself q (.tail _ hq)) hcur, Function.update_of_ne hne,
        (SameLinks.of_bytes (hm₃ q (.tail _ hq))).pid]
      exact linkProcess_pid hring₁ hap (hl.mem_iff.mpr hq)
    · rw [processPid_setPid (.inl rfl) hcur, Function.update_self]

/-- `process_exit` halts the kernel after the last process only. -/
theorem RingInv.exit_last_iff (h : RingInv env s live g ps k) :
    (unlinkProcess s.mem g).2.activeProcess = g.activeProcess ↔ ps.length = 1 := by
  obtain ⟨l, hl, hring⟩ := h.ring
  obtain ⟨t, rfl⟩ := hring.exists_cons
  have hnext : (unlinkProcess s.mem g).2.activeProcess = processNext s.mem g.activeProcess := rfl
  rw [hnext, ← hl.length_eq, List.length_cons]
  cases t with
  | nil => exact iff_of_true (List.isChain_cons_cons.mp hring.chain).1.1 rfl
  | cons b t =>
    have hb : processNext s.mem g.activeProcess = b := (List.isChain_cons_cons.mp hring.chain).1.1
    refine iff_of_false (fun heq => ?_) (Nat.succ_succ_ne_one t.length)
    exact (List.nodup_cons.mp hring.nodup).1 (hb.symm.trans heq ▸ List.mem_cons_self)

theorem RingInv.exit (hK : KeepsHeap env kernelHeapAddress) (h : RingInv env s live g ps k)
    (hleft : 2 ≤ ps.length)
    (hrun : kallocHeapFree env { s with mem := (unlinkProcess s.mem g).1 } g.activeProcess =
      .ok s') :
    RingInv env s' (live.erase (recordAt g.activeProcess)) (unlinkProcess s.mem g).2
      (ps.erase g.activeProcess) k := by
  obtain ⟨l, hl, hring⟩ := h.ring
  obtain ⟨t, rfl⟩ := hring.exists_cons
  cases t with
  | nil =>
    have hlen := hl.length_eq
    rw [List.length_singleton] at hlen
    omega
  | cons b t =>
    have hmem : ∀ {p}, p ∈ g.activeProcess :: b :: t → p ∈ ps := fun hp => hl.mem_iff.mp hp
    have hap : ∀ p ∈ g.activeProcess :: b :: t, ∀ q ∈ g.activeProcess :: b :: t, RecordsApart p q :=
      fun p hp q hq => h.records.apart hK (hmem hp) (hmem hq)
    have hlt : ∀ p ∈ g.activeProcess :: b :: t, p < 4294967296 := fun p hp =>
      (h.records.bounds hK (hmem hp)).2
    obtain ⟨hb, hring', hpid⟩ := unlinkProcess_ring hring hap hlt
    have hactive := hmem List.mem_cons_self
    have hl' : (b :: t).Perm (ps.erase g.activeProcess) := by
      have := hl.erase g.activeProcess
      rwa [List.erase_cons_head] at this
    have hin : ∀ {q}, q ∈ ps.erase g.activeProcess → q ≠ g.activeProcess ∧ q ∈ ps := fun hq =>
      h.records.nodup.mem_erase_iff.mp hq
    -- the record is released
    have hr₁ := h.records.write hK (m := (unlinkProcess s.mem g).1) fun x hx =>
      unlinkProcess_outside hring hap hlt fun p hp => hx p (hmem hp)
    have hrecord := h.records.live _ hactive
    have hrun' := hr₁.run.free (List.mem_append_left _ hrecord) hrun
    rw [List.erase_append_left _ hrecord] at hrun'
    have hne : ∀ q ∈ ps.erase g.activeProcess, (recordAt q).ptr ≠ (recordAt g.activeProcess).ptr :=
      fun q hq => (hin hq).1
    have hr₂ : Records env s' (live.erase (recordAt g.activeProcess)) (ps.erase g.activeProcess) := by
      refine ⟨hrun', fun q hq => (List.mem_erase_of_ne ?_).mpr (h.records.live q (hin hq).2),
        h.records.nodup.erase _⟩
      intro heq
      exact hne q hq (congrArg Live.ptr heq)
    have hs : ∀ q ∈ ps.erase g.activeProcess, SameLinks (unlinkProcess s.mem g).1 s'.mem q :=
      fun q hq => .of_bytes fun x hx => hr₁.run.free_frame (l := recordAt g.activeProcess) hK hrun
        (List.mem_append_left _ hrecord) (hr₁.mem_live (hin hq).2) (hne q hq)
        (hr₁.owns hK (hin hq).2 hx)
    refine ⟨hr₂, ⟨b :: t, hl', ?_⟩, fun hk => ?_⟩
    · rw [hb]
      exact hring'.sameLinks fun q hq => hs q (hl'.mem_iff.mp hq)
    · have hpids := h.pids hk
      have hsub : ∀ q ∈ ps.erase g.activeProcess, processPid s'.mem q = processPid s.mem q :=
        fun q hq => (hs q hq).pid.trans (hpid q (hl'.mem_iff.mpr hq))
      refine ⟨hpids.currentPid, fun q hq => ?_, ?_⟩
      · rw [hsub q hq]
        exact hpids.le q (hin hq).2
      · rw [List.map_congr_left hsub]
        exact hpids.nodup.sublist (List.erase_sublist.map _)

/-- A switch keeps the records, and goes on to the next one. -/
theorem RingInv.switch (hK : KeepsHeap env kernelHeapAddress) (h : RingInv env s live g ps k)
    (r : SavedRegisters) :
    (∀ p ∈ ps, ∀ x, RingByte p x → (processSwitch r s.mem g).1 x = s.mem x) ∧
    (processSwitch r s.mem g).2.activeProcess = processNext s.mem g.activeProcess ∧
    RingInv env { s with mem := (processSwitch r s.mem g).1 } live (processSwitch r s.mem g).2 ps
      k := by
  obtain ⟨l, hl, hring⟩ := h.ring
  have hactive : g.activeProcess ∈ ps := hl.mem_iff.mp (List.mem_of_head? hring.head)
  have hnext : processNext s.mem g.activeProcess ∈ ps :=
    hl.mem_iff.mp (hring.inverse (List.mem_of_head? hring.head)).1
  have hbytes : ∀ p ∈ ps, ∀ x, RingByte p x → (processSwitch r s.mem g).1 x = s.mem x :=
    fun p hp x hx => processSwitch_bytes r (h.records.apart hK hactive hp) hx
  have hact : (processSwitch r s.mem g).2.activeProcess = processNext s.mem g.activeProcess := by
    rw [processSwitch_active r (h.records.bounds hK hactive).1.ne' (h.records.bounds hK hnext).1.ne']
    exact (SameLinks.of_bytes (hbytes _ hactive)).next
  have hr := h.records.write hK (m := (processSwitch r s.mem g).1) fun x hx => by
    have hx' := hx _ hactive
    exact processSwitch_outside r (by omega)
  obtain ⟨hrec, -, hpids⟩ := h.of_records hr hbytes
  have hcur : (processSwitch r s.mem g).2.currentPid = g.currentPid := by
    unfold processSwitch
    split_ifs <;> rfl
  refine ⟨hbytes, hact, hrec, ?_, fun hk => ⟨hcur.trans (hpids hk).currentPid, (hpids hk).le,
    (hpids hk).nodup⟩⟩
  -- the ring from the next record on
  obtain ⟨t, rfl⟩ := hring.exists_cons
  refine ⟨t ++ [g.activeProcess], (List.perm_append_singleton _ t).trans hl, ?_⟩
  rw [hact]
  exact hring.rotate.sameLinks fun q hq =>
    .of_bytes (hbytes q (hl.mem_iff.mp ((List.perm_append_singleton _ t).mem_iff.mp hq)))

/-- Every run keeps the invariant. -/
theorem RingRun.inv (hK : KeepsHeap env kernelHeapAddress) (h : RingRun env s live g ps k) :
    RingInv env s live g ps k := by
  induction h with
  | init hrun hp => exact ringInv_init hK hrun hp
  | activity _ ha ih =>
    obtain ⟨hr, hm⟩ := ha.records hK ih.records
    exact ih.of_records hr hm
  | fork _ hrun ha ih => exact ih.fork hK hrun ha
  | exit _ hleft hrun ih => exact ih.exit hK hleft hrun
  | switch r _ ih => exact (ih.switch hK r).2.2

/-! ## The ring -/

/-- `next` and `previous` of the processes `ps` are inverse to each other, and lead from the active
one through all of them and back. -/
structure RingWellFormed (m : Mem) (g : Scheduler) (ps : List ℕ) : Prop where
  nodup : ps.Nodup
  active : g.activeProcess ∈ ps
  inverse : ∀ p ∈ ps, processNext m p ∈ ps ∧ processPrevious m p ∈ ps ∧
    processPrevious m (processNext m p) = p ∧ processNext m (processPrevious m p) = p
  circle : ∃ l, l.Perm ps ∧ IsRing (processNext m) (processPrevious m) l g.activeProcess

theorem RingInv.wellFormed (h : RingInv env s live g ps k) : RingWellFormed s.mem g ps := by
  obtain ⟨l, hl, hring⟩ := h.ring
  refine ⟨h.records.nodup, hl.mem_iff.mp (List.mem_of_head? hring.head), fun p hp => ?_,
    l, hl, hring⟩
  obtain ⟨h₁, h₂, h₃⟩ := hring.inverse (hl.mem_iff.mpr hp)
  exact ⟨hl.mem_iff.mp h₁, hl.mem_iff.mp h₂, h₃⟩

/-- The `i`th of several switches activates the process that is `i` places further on. -/
theorem RingInv.activations_getElem (hK : KeepsHeap env kernelHeapAddress) (rs : List SavedRegisters)
    (h : RingInv env s live g ps k) {l : List ℕ} (hl : l.Perm ps)
    (hring : IsRing (processNext s.mem) (processPrevious s.mem) l g.activeProcess) {i : ℕ}
    (hi : i < rs.length) : (activations rs s.mem g)[i]? = (l.rotate (i + 1)).head? := by
  induction rs generalizing s g l i with
  | nil => exact absurd hi (Nat.not_lt_zero i)
  | cons r rs ih =>
    obtain ⟨hbytes, hact, h'⟩ := h.switch hK r
    have hring' : IsRing (processNext (processSwitch r s.mem g).1)
        (processPrevious (processSwitch r s.mem g).1) (l.rotate 1)
        (processSwitch r s.mem g).2.activeProcess := by
      rw [hact]
      exact (hring.rotate_iterate 1).sameLinks fun q hq =>
        .of_bytes (hbytes q (hl.mem_iff.mp (List.mem_rotate.mp hq)))
    cases i with
    | zero => exact hring'.head.symm
    | succ i =>
      have hi' := ih h' ((List.rotate_perm l 1).trans hl) hring' (Nat.lt_of_succ_lt_succ hi)
      rw [List.rotate_rotate, Nat.add_comm 1] at hi'
      exact hi'

/-- As many switches as there are processes activate each of them, and lead back. -/
theorem RingInv.activations_perm (hK : KeepsHeap env kernelHeapAddress) {rs : List SavedRegisters}
    (h : RingInv env s live g ps k) (hrs : rs.length = ps.length) :
    (activations rs s.mem g).Perm ps ∧
      (activations rs s.mem g).getLast? = some g.activeProcess := by
  obtain ⟨l, hl, hring⟩ := h.ring
  have hlen : ∀ (rs : List SavedRegisters) (m : Mem) (g : Scheduler),
      (activations rs m g).length = rs.length := by
    intro rs
    induction rs with
    | nil => exact fun _ _ => rfl
    | cons r rs ih => exact fun m g => congrArg Nat.succ (ih _ _)
  have heq : activations rs s.mem g = l.rotate 1 := by
    refine List.ext_getElem? fun i => ?_
    by_cases hi : i < rs.length
    · have hi' : i < (l.rotate 1).length := by
        rw [List.length_rotate, hl.length_eq, ← hrs]
        exact hi
      rw [h.activations_getElem hK rs hl hring hi, ← List.head?_rotate hi', List.rotate_rotate,
        Nat.add_comm 1]
    · rw [List.getElem?_eq_none (by rw [hlen]; omega),
        List.getElem?_eq_none (by rw [List.length_rotate, hl.length_eq, ← hrs]; omega)]
  obtain ⟨t, rfl⟩ := hring.exists_cons
  rw [heq]
  refine ⟨(List.rotate_perm _ 1).trans hl, ?_⟩
  rw [List.rotate_cons_succ, List.rotate_zero]
  exact List.getLast?_concat

/-- In every run the processes form one ring around the active one, their pids differ as long as
fewer than `2 ^ 32` were created, `process_exit` finds another process unless there is one only, and
as many switches as there are processes activate each of them once and lead back. -/
theorem ringRun_ring (hK : KeepsHeap env kernelHeapAddress) (h : RingRun env s live g ps k) :
    RingWellFormed s.mem g ps ∧ (k < 4294967296 → (ps.map (processPid s.mem)).Nodup) ∧
      ((unlinkProcess s.mem g).2.activeProcess = g.activeProcess ↔ ps.length = 1) ∧
      ∀ rs : List SavedRegisters, rs.length = ps.length →
        (activations rs s.mem g).Perm ps ∧
          (activations rs s.mem g).getLast? = some g.activeProcess :=
  have hi := h.inv hK
  ⟨hi.wellFormed, fun hk => (hi.pids hk).nodup, hi.exit_last_iff,
    fun _ hrs => hi.activations_perm hK hrs⟩

/-- The records lie in used blocks. -/
theorem HeapInv.writeRecords {base : ℕ} {bs : List Block} {heap : KallocHeap} {m m' : Mem}
    (h : HeapInv base bs heap m) (ps : List ℕ)
    (hps : ∀ p ∈ ps, ∃ a, p = a + 12 ∧ (⟨a, 60, true⟩ : Block) ∈ bs)
    (hm : ∀ x, (∀ p ∈ ps, x < p ∨ p + 60 ≤ x) → m' x = m x) : HeapInv base bs heap m' := by
  refine ⟨h.shape.congr fun x _ _ hx => hm x fun p hp => ?_, h.separated⟩
  obtain ⟨a, rfl, hmem⟩ := hps p hp
  by_contra hin
  refine hx ⟨_, hmem, rfl, ?_⟩
  unfold Block.user Block.footer
  dsimp only
  omega

/-- A new heap with the record of a process. -/
theorem exists_flatRecord : ∃ s, KallocRun flatEnv s [recordAt 0x510021] ∧
    HeapInv 0x500000 ([⟨0x510000, 1, true⟩, ⟨0x510015, 60, true⟩] ++ [⟨0x510065, 3975, false⟩]) s.heap
      (processInitRing s.mem 0x510021).1 := by
  obtain ⟨s, h, hinv⟩ := exists_flatAlloc (show 60 + 20 < 4055 by decide)
  refine ⟨s, h, hinv.writeRecords [0x510021] (fun p hp => ?_) fun x hx => ?_⟩
  · exact ⟨0x510015, List.mem_singleton.mp hp, .tail _ List.mem_cons_self⟩
  · exact processInitRing_outside (hx _ List.mem_cons_self)

/-- A run with a parent and its child, both of which lie in the heap. -/
theorem exists_ringRun : ∃ s live g, RingRun flatEnv s live g [0x510071, 0x510021] 2 ∧
    g.activeProcess = 0x510021 ∧
    HeapInv 0x500000 ([⟨0x510000, 1, true⟩, ⟨0x510015, 60, true⟩] ++ [⟨0x510065, 60, true⟩] ++
      [⟨0x510065 + 60 + 20, 3975 - 60 - 20, false⟩]) s.heap s.mem := by
  obtain ⟨s, h, hinv⟩ := exists_flatRecord
  have h₁ : RingRun flatEnv _ _ _ [0x510021] 1 := .init (p := 0x510021) h List.mem_cons_self
  obtain ⟨s₂, hrun, hinv₂⟩ := @kallocHeapAlloc_flat _ _ _ 60
    { s with mem := (processInitRing s.mem 0x510021).1 } hinv (by simp) (by decide)
  have h₂ := h₁.fork hrun .refl
  obtain ⟨l, hl, hring⟩ :=
    ((h₁.activity (.alloc .refl (.inl rfl) hrun)).inv (flatEnv_keepsHeap _)).ring
  have hout : ∀ x, (∀ p ∈ [0x510071, 0x510021], x < p ∨ p + 60 ≤ x) →
      (assignPid (linkProcess s₂.mem (processInitRing s.mem 0x510021).2 0x510071)
        (processInitRing s.mem 0x510021).2 0x510071).1 x = s₂.mem x := fun x hx => by
    have hnew := hx _ List.mem_cons_self
    refine (store32_of_outside (by omega)).trans (linkProcess_outside hring fun p hp => ?_)
    rcases List.mem_cons.mp hp with rfl | hp
    · exact hnew
    · exact hx p (.tail _ (hl.mem_iff.mp hp))
  have hinv₃ := hinv₂.writeRecords [0x510071, 0x510021] (fun p hp => ?_) hout
  rotate_left
  · rcases List.mem_cons.mp hp with rfl | hp
    · exact ⟨0x510065, rfl, by simp⟩
    · exact ⟨0x510015, List.mem_singleton.mp hp, by simp⟩
  exact ⟨_, _, _, h₂, rfl, hinv₃⟩

/-- The parent exits, and the child goes on alone. -/
theorem exists_ringRun_exit : ∃ s live g, RingRun flatEnv s live g [0x510071] 2 := by
  obtain ⟨s, live, ⟨_, k⟩, h, rfl, hinv⟩ := exists_ringRun
  have hi := h.inv (flatEnv_keepsHeap _)
  obtain ⟨l, hl, hring⟩ := hi.ring
  obtain ⟨t, rfl⟩ := hring.exists_cons
  have hmem : ∀ p ∈ 0x510021 :: t, p ∈ [0x510071, 0x510021] := fun p hp => hl.mem_iff.mp hp
  have hunlinked : HeapInv 0x500000 _ s.heap (unlinkProcess s.mem ⟨0x510021, k⟩).1 :=
    hinv.writeRecords [0x510071, 0x510021] (fun p hp => ?_) fun x hx => ?_
  rotate_left
  · rcases List.mem_cons.mp hp with rfl | hp
    · exact ⟨0x510065, rfl, by simp⟩
    · exact ⟨0x510015, List.mem_singleton.mp hp, by simp⟩
  · cases t with
    | nil => exact absurd hl.length_eq (by simp)
    | cons b t =>
      exact unlinkProcess_outside hring (fun p hp q hq => hi.records.apart (flatEnv_keepsHeap _)
        (hmem p hp) (hmem q hq)) (fun p hp => (hi.records.bounds (flatEnv_keepsHeap _)
          (hmem p hp)).2) fun p hp => hx p (hmem p hp)
  have hrecord : (⟨0x510015, 60, true⟩ : Block) ∈ [⟨0x510000, 1, true⟩, ⟨0x510015, 60, true⟩] ++
      [⟨0x510065, 60, true⟩] ++ [⟨0x510065 + 60 + 20, 3975 - 60 - 20, false⟩] := by simp
  obtain ⟨s', hrun⟩ := hunlinked.free_returns flatEnv s.sys hrecord rfl (by decide)
  exact ⟨_, _, _, h.exit (by decide) hrun⟩

theorem ringRun_ring_exit : ∃ s live g, RingRun flatEnv s live g [0x510071] 2 ∧
    RingWellFormed s.mem g [0x510071] := by
  obtain ⟨s, live, g, h⟩ := exists_ringRun_exit
  exact ⟨s, live, g, h, (ringRun_ring (flatEnv_keepsHeap _) h).1⟩

end

end RawOS
