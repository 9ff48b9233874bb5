import RawOS.HashMapSpec
import Mathlib.Algebra.Group.Nat.Defs
import Mathlib.Data.List.Perm.Subperm

/-!
# File descriptors of processes

The part of `process.c` that works on `file_descriptors`: a hash map from descriptors to nodes,
whose slots are reached through a pointer. `process_fork` copies the pointer and not the slots.
`orderlyFdRun_isolated` says when the processes do not notice.
-/

namespace RawOS

/-! ## `process.c` -/

/-- The slots of a table, from descriptors to nodes. -/
abbrev FdSlots := ℕ → Option (ℕ × ℕ)

/-- The `Hash_Map` of a process, by the address of its slots. -/
structure FdTable where
  capacity : ℕ
  numElements : ℕ
  data : ℕ

/-- The map that the descriptor stands for when its slots are `slots`. -/
def FdTable.map (t : FdTable) (slots : FdSlots) : HashMap ℕ ℕ where
  capacity := t.capacity
  numElements := t.numElements
  keySize := 4
  valueSize := 4
  keyCompareFunc a b := a == b
  keyHashFunc := id
  data := slots

/-- What `Process` holds of its files. Descriptors are words. -/
structure FdProcess where
  fileDescriptors : FdTable
  fdNext : ℕ

/-- The live processes by their address, the active one, and the slots of the tables that are
allocated, by their address. -/
structure FdState where
  processes : ℕ → Option FdProcess
  activeProcess : ℕ
  tables : ℕ → Option FdSlots

def processFileDescriptorsHashMapInitialCap : ℕ := 16

/-- `hash_map_create` in `process_init`, with its slots at `data`. -/
def fileDescriptorsCreate (data : ℕ) : FdTable × FdSlots :=
  let (_, hm) := hashMapCreate processFileDescriptorsHashMapInitialCap 4 4 (fun a b => a == b) id
  (⟨hm.capacity, hm.numElements, data⟩, hm.data)

/-- `kalloc_alloc` finds no memory for the slots of a table that grows. -/
def noMemoryForSlots : Panic := .undefined "kalloc_alloc: no memory for the slots of a table"

/-- `hash_map_put` on the table `t`. A growth allocates the slots `new` and releases the old ones.
-/
def fileDescriptorsPut (tables : ℕ → Option FdSlots) (t : FdTable) (fd node new : ℕ) :
    Except Panic (ℤ × FdTable × (ℕ → Option FdSlots)) :=
  match tables t.data with
  | none => .error (.undefined "hash_map_put: the slots were released")
  | some slots => do
    let hm ← hashMapStore (t.map slots) fd node
    let tables := Function.update tables t.data (some hm.data)
    if u32 (hm.numElements * 2) > hm.capacity then
      -- the new slots do not overlap the old ones
      if hm.allocated + u32 (tableBytes (u32 (hm.capacity * 2)) 4 4) > 4294967296 then
        .error noMemoryForSlots
      else do
        let (status, grown) ← hashMapGrow (hashMapPutNested (growDepth - 1)) hm
        let tables := Function.update tables new (some grown.data)
        if status ≠ 0 then return (-1, ⟨grown.capacity, grown.numElements, new⟩, tables)
        return (0, ⟨grown.capacity, grown.numElements, new⟩, Function.update tables t.data none)
    else return (0, ⟨hm.capacity, hm.numElements, t.data⟩, tables)

/-- `process_add_fd_to_active_process`. -/
def processAddFd (s : FdState) (node new : ℕ) : Except Panic (ℕ × FdState) :=
  match s.processes s.activeProcess with
  | none => .error (.undefined "process_add_fd_to_active_process: no active process")
  | some p => do
    let fd := p.fdNext
    let (status, t, tables) ← fileDescriptorsPut s.tables p.fileDescriptors fd node new
    assert (status = 0) "There was an error adding fd to process"
    return (fd, { s with
      processes := Function.update s.processes s.activeProcess (some ⟨t, u32 (fd + 1)⟩)
      tables := tables })

/-- `process_get_node_of_fd_of_active_process`, with `process` for the active one. A null pointer
says that the descriptor designates no node. -/
def processGetNodeOfFd (s : FdState) (process fd : ℕ) : Except Panic ℕ :=
  match s.processes process with
  | none => .error (.undefined "process_get_node_of_fd_of_active_process: no active process")
  | some p =>
    match s.tables p.fileDescriptors.data with
    | none => .error (.undefined "hash_map_get: the slots were released")
    | some slots => do
      let (_, node) ← hashMapGet (p.fileDescriptors.map slots) fd
      return node.getD 0

/-! ## Runs -/

inductive FdEvent where
  | fork (child fdNext : ℕ)
  | switch (process : ℕ)
  | exit (next : ℕ)
  | openFile (node new : ℕ)

/-- One system call or switch, with the descriptor that it returns. `process_fork` does not write
the `fd_next` of the child. The slots of a table that grows are new. -/
inductive FdStep : FdState → FdEvent → ℕ → FdState → Prop where
  | fork {s : FdState} {p : FdProcess} {child fdNext : ℕ} :
    s.processes s.activeProcess = some p → s.processes child = none →
    FdStep s (.fork child fdNext) 0
      { s with processes := Function.update s.processes child (some ⟨p.fileDescriptors, fdNext⟩) }
  | switch {s : FdState} {process : ℕ} :
    (s.processes process).isSome → FdStep s (.switch process) 0 { s with activeProcess := process }
  | exit {s : FdState} {next : ℕ} :
    (s.processes next).isSome → next ≠ s.activeProcess →
    FdStep s (.exit next) 0
      { s with
        processes := Function.update s.processes s.activeProcess none
        activeProcess := next }
  | openFile {s s' : FdState} {node new fd : ℕ} :
    node ≠ 0 → s.tables new = none → processAddFd s node new = .ok (fd, s') →
    FdStep s (.openFile node new) fd s'

/-- The descriptors that each process should have, and which processes were forked. -/
structure FdSpec where
  nodes : ℕ → MapSpec ℕ ℕ
  forked : ℕ → Bool

/-- A child has the descriptors of its parent; an opened file is added to those of the process. -/
def FdSpec.next (spec : FdSpec) (s : FdState) (fd : ℕ) : FdEvent → FdSpec
  | .fork child _ =>
    ⟨Function.update spec.nodes child (spec.nodes s.activeProcess),
      Function.update spec.forked child true⟩
  | .openFile node _ =>
    { spec with
      nodes := Function.update spec.nodes s.activeProcess
        ((spec.nodes s.activeProcess).put (fun a b => a == b) fd node) }
  | _ => spec

/-- No other process uses the slots of the active one. -/
def Unshared (s : FdState) : Prop :=
  ∀ q a b, q ≠ s.activeProcess → s.processes q = some a → s.processes s.activeProcess = some b →
    a.fileDescriptors.data ≠ b.fileDescriptors.data

/-- A file is only opened by a process that shares its slots with no other, and whose `fd_next`, if
the process was forked, is no descriptor that it opened or inherited. -/
def OrderlyFd (s : FdState) (spec : FdSpec) : FdEvent → Prop
  | .openFile _ _ => Unshared s ∧ ∀ p, s.processes s.activeProcess = some p →
    spec.forked s.activeProcess → spec.nodes s.activeProcess p.fdNext = none
  | _ => True

/-- Runs of orderly steps from the process of `process_init`. -/
inductive OrderlyFdRun : FdState → FdSpec → Prop where
  | init {process data : ℕ} {t : FdTable} {slots : FdSlots} :
    fileDescriptorsCreate data = (t, slots) →
    OrderlyFdRun
      ⟨Function.update (fun _ => none) process (some ⟨t, 0⟩), process,
        Function.update (fun _ => none) data (some slots)⟩
      ⟨fun _ => MapSpec.empty, fun _ => false⟩
  | step {s s' : FdState} {spec : FdSpec} {e : FdEvent} {fd : ℕ} :
    OrderlyFdRun s spec → OrderlyFd s spec e → FdStep s e fd s' →
    OrderlyFdRun s' (spec.next s fd e)

/-! ## The invariant -/

/-- The slots of a process are allocated and hold its descriptors. -/
def Holds (s : FdState) (spec : FdSpec) (q : ℕ) (p : FdProcess) : Prop :=
  ∃ slots, s.tables p.fileDescriptors.data = some slots ∧
    HashMapInv (p.fileDescriptors.map slots) (spec.nodes q)

/-- The table was created with 16 slots and grows to twice as many. -/
def FdTable.Doubled (t : FdTable) : Prop :=
  ∃ k, t.capacity = processFileDescriptorsHashMapInitialCap * 2 ^ k

structure FdInv (s : FdState) (spec : FdSpec) : Prop where
  active : (s.processes s.activeProcess).isSome
  holds : ∀ q p, s.processes q = some p → Holds s spec q p
  doubled : ∀ q p, s.processes q = some p → p.fileDescriptors.Doubled
  -- as long as slots are shared nobody stores into them
  shared : ∀ q q' p p', s.processes q = some p → s.processes q' = some p' →
    p.fileDescriptors.data = p'.fileDescriptors.data → p.fileDescriptors = p'.fileDescriptors
  nodes : ∀ q p fd, s.processes q = some p → spec.nodes q fd ≠ some 0
  fdNext : ∀ q p, s.processes q = some p → spec.forked q = false →
    ∀ fd, (spec.nodes q fd).isSome ↔ fd < p.fdNext

/-! ## The operations -/

section Operations

variable {tables : ℕ → Option FdSlots} {t : FdTable} {slots : FdSlots} {m : MapSpec ℕ ℕ}
  {fd node new : ℕ}

/-- A map of the kind of the descriptors' is that of its descriptor and its slots. -/
theorem map_of_sameKind {hm : HashMap ℕ ℕ} (h : SameKind (t.map slots) hm) (data : ℕ) :
    (FdTable.map ⟨hm.capacity, hm.numElements, data⟩ hm.data) = hm := by
  obtain ⟨h₁, h₂, h₃, h₄⟩ := h
  cases hm
  cases h₁
  cases h₂
  cases h₃
  cases h₄
  rfl

theorem keyEquiv_map (t : FdTable) (slots : FdSlots) :
    KeyEquiv (t.map slots).keyCompareFunc (t.map slots).keyHashFunc :=
  keyEquiv_descriptor

theorem hashMapGet_map (h : HashMapInv (t.map slots) m) (fd : ℕ) :
    hashMapGet (t.map slots) fd = .ok (if (m fd).isSome then 0 else -1, m fd) := by
  have hpos := h.capacity_pos
  have hload := h.load
  exact hashMapGet_spec (keyEquiv_map t slots) h.toTableInv (by omega) fd

/-- A search does not look at the number of elements. -/
theorem hashMapProbe_numElements (hm : HashMap ℕ ℕ) (key n : ℕ) :
    ∀ fuel pos : ℕ,
      hashMapProbe { hm with numElements := n } key fuel pos = hashMapProbe hm key fuel pos
  | 0, _ => rfl
  | fuel + 1, pos => by
    have hslot : hashMapSlot { hm with numElements := n } pos = hashMapSlot hm pos := rfl
    unfold hashMapProbe
    rw [hslot]
    dsimp only
    rw [hashMapProbe_numElements]

theorem hashMapGet_numElements (hm : HashMap ℕ ℕ) (key n : ℕ) :
    hashMapGet { hm with numElements := n } key = hashMapGet hm key := by
  unfold hashMapGet
  rw [hashMapProbe_numElements]
  rfl

/-- The slots after a `hash_map_put`: those of the table with one more entry, or new ones. -/
inductive PutDone (tables : ℕ → Option FdSlots) (t : FdTable) (m : MapSpec ℕ ℕ) (new : ℕ) :
    ℤ × FdTable × (ℕ → Option FdSlots) → Prop where
  | store {n : ℕ} {slots : FdSlots} :
    HashMapInv (FdTable.map ⟨t.capacity, n, t.data⟩ slots) m →
    PutDone tables t m new (0, ⟨t.capacity, n, t.data⟩, Function.update tables t.data (some slots))
  | grow {n : ℕ} {slots slots' : FdSlots} :
    HashMapInv (FdTable.map ⟨t.capacity * 2, n, new⟩ slots') m →
    PutDone tables t m new (0, ⟨t.capacity * 2, n, new⟩, Function.update (Function.update
      (Function.update tables t.data (some slots)) new (some slots')) t.data none)

/-- A table that fits beside the next larger one: also the larger one fits. -/
theorem FdTable.Doubled.fits (hd : t.Doubled) (hfits : tableBytes t.capacity 4 4 < 4294967296)
    (hroom : tableBytes t.capacity 4 4 + u32 (tableBytes (t.capacity * 2) 4 4) ≤ 4294967296) :
    tableBytes (t.capacity * 2) 4 4 < 4294967296 := by
  obtain ⟨k, hk⟩ := hd
  unfold tableBytes elementBytes sizeofElementInformation u32 at *
  unfold processFileDescriptorsHashMapInitialCap at hk
  have hlt : 2 ^ k < 2 ^ 25 := by omega
  have hle : k ≤ 24 := Nat.le_of_lt_succ ((Nat.pow_lt_pow_iff_right (by decide)).mp hlt)
  -- with 2^28 slots the two would take 5 GB
  rcases Nat.lt_or_eq_of_le hle with hlt' | rfl
  · have : 2 ^ k ≤ 2 ^ 23 := Nat.pow_le_pow_right (by decide) (by omega)
    rw [hk]
    omega
  · have hcap : t.capacity = 268435456 := hk
    omega

theorem fileDescriptorsPut_spec (ht : tables t.data = some slots)
    (h : HashMapInv (t.map slots) m) (hd : t.Doubled) :
    Ends (fileDescriptorsPut tables t fd node new)
      (PutDone tables t (m.put (fun a b => a == b) fd node) new) (· = noMemoryForSlots) := by
  have hpos := h.capacity_pos
  have hload := h.load
  obtain ⟨hm, hrun, hT, hkind, hcap, hnum⟩ :=
    hashMapStore_spec (keyEquiv_map t slots) h.toTableInv (by omega) fd node
  have hmap := map_of_sameKind hkind t.data
  rw [hcap, show (t.map slots).capacity = t.capacity from rfl] at hmap
  have hk : KeyEquiv hm.keyCompareFunc hm.keyHashFunc := by
    rw [hkind.compare, hkind.hash]
    exact keyEquiv_map t slots
  unfold fileDescriptorsPut
  rw [ht]
  dsimp only
  rw [hrun, ok_bind]
  by_cases hgrow : u32 (hm.numElements * 2) > hm.capacity
  · rw [if_pos hgrow]
    have hcap' : hm.capacity = t.capacity := hcap
    have hsmall := four_mul_capacity_lt hT.fits
    by_cases hroom : hm.allocated + u32 (tableBytes (u32 (hm.capacity * 2)) 4 4) > 4294967296
    · rw [if_pos hroom]
      exact rfl
    have hgrown : tableBytes (hm.capacity * 2) hm.keySize hm.valueSize < 4294967296 := by
      rw [u32_of_lt (show hm.capacity * 2 < 4294967296 by omega), not_lt,
        show hm.allocated = tableBytes hm.capacity hm.keySize hm.valueSize from
          u32_of_lt hT.fits, hkind.keySize, hkind.valueSize, hcap'] at hroom
      have hfits := hT.fits
      unfold HashMap.Fits at hfits
      rw [hkind.keySize, hkind.valueSize, hcap'] at hfits
      rw [hkind.keySize, hkind.valueSize, hcap']
      exact hd.fits hfits hroom
    obtain ⟨grown, hrun', hI, hkind', hcap₂⟩ := hashMapGrow_spec 0 hk hT hgrown
    rw [if_neg hroom]
    unfold growDepth
    rw [hrun']
    have hmap' := map_of_sameKind (hkind.trans hkind') new
    rw [hcap₂, hcap'] at hmap'
    show PutDone _ _ _ _ (0, ⟨grown.capacity, grown.numElements, new⟩, _)
    rw [hcap₂, hcap']
    exact .grow (by rw [hmap']; exact hI)
  · rw [if_neg hgrow]
    have hle : hm.numElements * 2 ≤ hm.capacity := by
      have hfits := four_mul_capacity_lt hT.fits
      have hn : hm.numElements * 2 < 4294967296 := by
        have hcap' : hm.capacity = (t.map slots).capacity := hcap
        split_ifs at hnum <;> omega
      rw [u32_of_lt hn] at hgrow
      omega
    rw [hcap]
    exact .store (by rw [hmap]; exact ⟨hT, hle⟩)

end Operations

/-! ## One step -/

section Step

variable {s s' : FdState} {spec : FdSpec} {p : FdProcess} {q fd node new : ℕ}

theorem FdInv.lookup (h : FdInv s spec) (hq : s.processes q = some p) (fd : ℕ) :
    processGetNodeOfFd s q fd = .ok ((spec.nodes q fd).getD 0) := by
  obtain ⟨slots, ht, hI⟩ := h.holds q p hq
  unfold processGetNodeOfFd
  rw [hq]
  dsimp only
  rw [ht]
  dsimp only
  rw [hashMapGet_map hI fd]
  rfl

theorem FdInv.lookup_eq_zero (h : FdInv s spec) (hq : s.processes q = some p) :
    processGetNodeOfFd s q fd = .ok 0 ↔ spec.nodes q fd = none := by
  rw [h.lookup hq]
  cases hn : spec.nodes q fd with
  | none => simp
  | some node =>
    have hne : node ≠ 0 := fun h0 => h.nodes q p fd hq (h0 ▸ hn)
    simp [hne]

/-- The map holds at most as many descriptors as it counts elements. -/
theorem le_numElements {t : FdTable} {slots : FdSlots} {m : MapSpec ℕ ℕ} {n : ℕ}
    (h : HashMapInv (t.map slots) m) (hn : ∀ fd < n, (m fd).isSome) : n ≤ t.numElements := by
  have hsub : List.range n ⊆ (t.map slots).entries.map Prod.fst := by
    intro fd hfd
    obtain ⟨v, hv⟩ := Option.isSome_iff_exists.mp (hn fd (List.mem_range.mp hfd))
    obtain ⟨e, he, hkey, -⟩ := (h.stores.lookup fd v).mp hv
    exact List.mem_map.mpr ⟨e, he, beq_iff_eq.mp hkey⟩
  have hle := (List.nodup_range.subperm hsub).length_le
  rw [List.length_range, List.length_map, ← h.count] at hle
  exact hle

theorem numElements_lt {t : FdTable} {slots : FdSlots} {m : MapSpec ℕ ℕ}
    (h : HashMapInv (t.map slots) m) : t.numElements < 2147483648 := by
  have hload : t.numElements * 2 ≤ t.capacity := h.load
  have hfits : t.capacity * (4 + 4 + 4) < 4294967296 := h.fits
  omega

/-- What opening a file does to the state. -/
theorem processAddFd_spec (h : FdInv s spec) (hp : s.processes s.activeProcess = some p) :
    Ends (processAddFd s node new)
      (fun r => r.1 = p.fdNext ∧ ∃ t tables,
        PutDone s.tables p.fileDescriptors
          ((spec.nodes s.activeProcess).put (fun a b => a == b) p.fdNext node) new (0, t, tables) ∧
        r.2 = ⟨Function.update s.processes s.activeProcess (some ⟨t, u32 (p.fdNext + 1)⟩),
          s.activeProcess, tables⟩)
      (· = noMemoryForSlots) := by
  obtain ⟨slots, ht, hI⟩ := h.holds _ p hp
  unfold processAddFd
  rw [hp]
  dsimp only
  refine (fileDescriptorsPut_spec ht hI (h.doubled _ p hp)).bind ?_
  rintro ⟨status, t, tables⟩ hdone
  obtain rfl : status = 0 := by cases hdone <;> rfl
  exact ⟨rfl, t, tables, hdone, rfl⟩

namespace PutDone

variable {tables tables' : ℕ → Option FdSlots} {t t' : FdTable} {m : MapSpec ℕ ℕ} {a : ℕ}

theorem holds (h : PutDone tables t m new (0, t', tables')) (hnew : new ≠ t.data) :
    ∃ slots, tables' t'.data = some slots ∧ HashMapInv (t'.map slots) m := by
  cases h with
  | store hI => exact ⟨_, Function.update_self .., hI⟩
  | grow hI => exact ⟨_, by rw [Function.update_of_ne hnew, Function.update_self], hI⟩

theorem doubled (h : PutDone tables t m new (0, t', tables')) (hd : t.Doubled) : t'.Doubled := by
  obtain ⟨k, hk⟩ := hd
  cases h with
  | store _ => exact ⟨k, hk⟩
  | grow _ => exact ⟨k + 1, by dsimp only; rw [hk, Nat.pow_succ, Nat.mul_assoc]⟩

theorem data (h : PutDone tables t m new (0, t', tables')) : t'.data = t.data ∨ t'.data = new := by
  cases h with
  | store _ => exact .inl rfl
  | grow _ => exact .inr rfl

theorem others (h : PutDone tables t m new (0, t', tables')) (ha : a ≠ t.data) (ha' : a ≠ new) :
    tables' a = tables a := by
  cases h with
  | store _ => rw [Function.update_of_ne ha]
  | grow _ =>
    rw [Function.update_of_ne ha, Function.update_of_ne ha', Function.update_of_ne ha]

end PutDone

/-- Slots that nobody else uses: the descriptors of the other processes stay. -/
theorem FdInv.others (h : FdInv s spec) (hp : s.processes s.activeProcess = some p)
    (hunshared : Unshared s) (hnew : s.tables new = none) {t : FdTable}
    {tables : ℕ → Option FdSlots} {m : MapSpec ℕ ℕ}
    (hdone : PutDone s.tables p.fileDescriptors m new (0, t, tables)) {p' : FdProcess}
    (hq : q ≠ s.activeProcess) (hp' : s.processes q = some p') :
    tables p'.fileDescriptors.data = s.tables p'.fileDescriptors.data ∧
      t.data ≠ p'.fileDescriptors.data := by
  obtain ⟨slots, ht, -⟩ := h.holds q p' hp'
  have hne : p'.fileDescriptors.data ≠ p.fileDescriptors.data := hunshared q p' p hq hp' hp
  have hne' : p'.fileDescriptors.data ≠ new := by
    rintro heq
    rw [heq, hnew] at ht
    cases ht
  refine ⟨hdone.others hne hne', ?_⟩
  rcases hdone.data with hd | hd
  · rw [hd]
    exact hne.symm
  · rw [hd]
    exact hne'.symm

theorem update_some_cases {f : ℕ → Option FdProcess} {a : ℕ} {v p' : FdProcess}
    (h : Function.update f a (some v) q = some p') : q = a ∧ p' = v ∨ q ≠ a ∧ f q = some p' := by
  by_cases hqa : q = a
  · subst hqa
    rw [Function.update_self] at h
    exact .inl ⟨rfl, (Option.some.inj h).symm⟩
  · rw [Function.update_of_ne hqa] at h
    exact .inr ⟨hqa, h⟩

/-- A child has the table of its parent. -/
theorem FdInv.fork {child fdNext : ℕ} (h : FdInv s spec) (hp : s.processes s.activeProcess = some p)
    (hchild : s.processes child = none) :
    FdInv { s with
        processes := Function.update s.processes child (some ⟨p.fileDescriptors, fdNext⟩) }
      (spec.next s fd (.fork child fdNext)) := by
  have hne : child ≠ s.activeProcess := by
    rintro rfl
    rw [hp] at hchild
    cases hchild
  have hfrom : ∀ q p', Function.update s.processes child (some ⟨p.fileDescriptors, fdNext⟩) q =
      some p' → ∃ q₀ p₀, s.processes q₀ = some p₀ ∧ p'.fileDescriptors = p₀.fileDescriptors ∧
        Function.update spec.nodes child (spec.nodes s.activeProcess) q = spec.nodes q₀ := by
    intro q p' hq
    rcases update_some_cases hq with ⟨rfl, rfl⟩ | ⟨hqc, hq'⟩
    · exact ⟨_, p, hp, rfl, Function.update_self ..⟩
    · exact ⟨q, p', hq', rfl, Function.update_of_ne hqc ..⟩
  constructor
  · show (Function.update s.processes child _ s.activeProcess).isSome
    rw [Function.update_of_ne hne.symm]
    exact h.active
  · intro q p' hq
    obtain ⟨q₀, p₀, hq₀, hfd, hnodes⟩ := hfrom q p' hq
    obtain ⟨slots, ht, hI⟩ := h.holds q₀ p₀ hq₀
    refine ⟨slots, by rw [hfd]; exact ht, ?_⟩
    show HashMapInv _ (Function.update spec.nodes child (spec.nodes s.activeProcess) q)
    rw [hfd, hnodes]
    exact hI
  · intro q p' hq
    obtain ⟨q₀, p₀, hq₀, hfd, -⟩ := hfrom q p' hq
    rw [hfd]
    exact h.doubled q₀ p₀ hq₀
  · intro q q' p₁ p₂ hq hq' hdata
    obtain ⟨r, pr, hr, hfd, -⟩ := hfrom q p₁ hq
    obtain ⟨r', pr', hr', hfd', -⟩ := hfrom q' p₂ hq'
    rw [hfd, hfd'] at hdata ⊢
    exact h.shared r r' pr pr' hr hr' hdata
  · intro q p' fd hq
    obtain ⟨q₀, p₀, hq₀, -, hnodes⟩ := hfrom q p' hq
    show Function.update spec.nodes child (spec.nodes s.activeProcess) q fd ≠ some 0
    rw [hnodes]
    exact h.nodes q₀ p₀ fd hq₀
  · intro q p' hq hforked fd
    rcases update_some_cases hq with ⟨rfl, -⟩ | ⟨hqc, hq'⟩
    · simp [FdSpec.next] at hforked
    · have hforked' : spec.forked q = false := by
        rw [← hforked]
        exact (Function.update_of_ne hqc ..).symm
      show (Function.update spec.nodes child (spec.nodes s.activeProcess) q fd).isSome ↔ _
      rw [Function.update_of_ne hqc]
      exact h.fdNext q p' hq' hforked' fd

theorem FdInv.exit {next : ℕ} (h : FdInv s spec) (hlive : (s.processes next).isSome)
    (hne : next ≠ s.activeProcess) :
    FdInv { s with
      processes := Function.update s.processes s.activeProcess none
      activeProcess := next } spec := by
  have hfrom : ∀ q p', Function.update s.processes s.activeProcess none q = some p' →
      s.processes q = some p' := by
    intro q p' hq
    by_cases hqa : q = s.activeProcess
    · subst hqa
      rw [Function.update_self] at hq
      cases hq
    · rwa [Function.update_of_ne hqa] at hq
  refine ⟨?_, fun q p' hq => h.holds q p' (hfrom q p' hq),
    fun q p' hq => h.doubled q p' (hfrom q p' hq), ?_, ?_, ?_⟩
  · show (Function.update s.processes s.activeProcess none next).isSome
    rw [Function.update_of_ne hne]
    exact hlive
  · exact fun q q' p₁ p₂ hq hq' => h.shared q q' p₁ p₂ (hfrom q p₁ hq) (hfrom q' p₂ hq')
  · exact fun q p' fd hq => h.nodes q p' fd (hfrom q p' hq)
  · exact fun q p' hq => h.fdNext q p' (hfrom q p' hq)

theorem FdInv.openFile (h : FdInv s spec) (hunshared : Unshared s) (hnode : node ≠ 0)
    (hnew : s.tables new = none) (hrun : processAddFd s node new = .ok (fd, s')) :
    FdInv s' (spec.next s fd (.openFile node new)) := by
  obtain ⟨p, hp⟩ := Option.isSome_iff_exists.mp h.active
  obtain ⟨rfl, t, tables, hdone, rfl⟩ := (processAddFd_spec h hp).of_ok hrun
  obtain ⟨slots, ht, hI⟩ := h.holds _ p hp
  have hnt : new ≠ p.fileDescriptors.data := by
    rintro rfl
    rw [hnew] at ht
    cases ht
  constructor
  · show (Function.update s.processes s.activeProcess _ s.activeProcess).isSome
    rw [Function.update_self]
    rfl
  · intro q p' hq
    rcases update_some_cases hq with ⟨rfl, rfl⟩ | ⟨hqa, hq'⟩
    · obtain ⟨slots', ht', hI'⟩ := hdone.holds hnt
      refine ⟨slots', ht', ?_⟩
      show HashMapInv _ (Function.update spec.nodes s.activeProcess _ s.activeProcess)
      rw [Function.update_self]
      exact hI'
    · obtain ⟨slots', ht', hI'⟩ := h.holds q p' hq'
      refine ⟨slots', ((h.others hp hunshared hnew hdone hqa hq').1).trans ht', ?_⟩
      show HashMapInv _ (Function.update spec.nodes s.activeProcess _ q)
      rw [Function.update_of_ne hqa]
      exact hI'
  · intro q p' hq
    rcases update_some_cases hq with ⟨rfl, rfl⟩ | ⟨-, hq'⟩
    · exact hdone.doubled (h.doubled _ p hp)
    · exact h.doubled q p' hq'
  · intro q q' p₁ p₂ hq hq' hdata
    rcases update_some_cases hq with ⟨rfl, rfl⟩ | ⟨hqa, hq₁⟩
    · rcases update_some_cases hq' with ⟨rfl, rfl⟩ | ⟨hqa', hq₂⟩
      · rfl
      · exact absurd hdata (h.others hp hunshared hnew hdone hqa' hq₂).2
    · rcases update_some_cases hq' with ⟨rfl, rfl⟩ | ⟨hqa', hq₂⟩
      · exact absurd hdata.symm (h.others hp hunshared hnew hdone hqa hq₁).2
      · exact h.shared q q' p₁ p₂ hq₁ hq₂ hdata
  · intro q p' fd hq
    show Function.update spec.nodes s.activeProcess _ q fd ≠ some 0
    rcases update_some_cases hq with ⟨rfl, -⟩ | ⟨hqa, hq'⟩
    · rw [Function.update_self]
      unfold MapSpec.put
      split_ifs
      · exact fun heq => hnode (Option.some.inj heq)
      · exact h.nodes _ p fd hp
    · rw [Function.update_of_ne hqa]
      exact h.nodes q p' fd hq'
  · intro q p' hq hforked fd
    show (Function.update spec.nodes s.activeProcess _ q fd).isSome ↔ _
    rcases update_some_cases hq with ⟨rfl, rfl⟩ | ⟨hqa, hq'⟩
    · have hfd := h.fdNext _ p hp hforked
      have hlt := numElements_lt hI
      have hle := le_numElements hI fun fd hlt => (hfd fd).mpr hlt
      rw [Function.update_self, u32_of_lt (by omega)]
      unfold MapSpec.put
      split_ifs with heq
      · rw [beq_iff_eq] at heq
        simp [heq]
      · rw [beq_iff_eq] at heq
        rw [hfd fd]
        dsimp only
        omega
    · rw [Function.update_of_ne hqa]
      exact h.fdNext q p' hq' hforked fd

/-- An orderly step keeps the invariant. -/
theorem FdInv.step {e : FdEvent} (h : FdInv s spec) (ho : OrderlyFd s spec e)
    (hs : FdStep s e fd s') : FdInv s' (spec.next s fd e) := by
  cases hs with
  | fork hp hchild => exact h.fork hp hchild
  | switch hlive => exact ⟨hlive, h.holds, h.doubled, h.shared, h.nodes, h.fdNext⟩
  | exit hlive hne => exact h.exit hlive hne
  | openFile hnode hnew hrun => exact h.openFile ho.1 hnode hnew hrun

theorem fileDescriptorsCreate_spec (data : ℕ) :
    HashMapInv ((fileDescriptorsCreate data).1.map (fileDescriptorsCreate data).2)
      MapSpec.empty :=
  @hashMapCreate_inv ℕ ℕ processFileDescriptorsHashMapInitialCap 4 4 (fun a b => a == b) id
    (by decide)

/-- Every state of an orderly run has the invariant. -/
theorem OrderlyFdRun.inv (h : OrderlyFdRun s spec) : FdInv s spec := by
  induction h with
  | @init process data t slots hcreate =>
    have hI := fileDescriptorsCreate_spec data
    have hdata : t.data = data := congrArg (fun r => r.1.data) hcreate.symm
    rw [hcreate] at hI
    subst hdata
    have hcases : ∀ q p, Function.update (fun _ => none) process (some (⟨t, 0⟩ : FdProcess)) q =
        some p → p = ⟨t, 0⟩ := by
      intro q p hq
      by_cases hqp : q = process
      · subst hqp
        rw [Function.update_self] at hq
        exact (Option.some.inj hq).symm
      · rw [Function.update_of_ne hqp] at hq
        cases hq
    constructor
    · show (Function.update (fun _ => none) process (some (⟨t, 0⟩ : FdProcess)) process).isSome
      rw [Function.update_self]
      rfl
    · intro q p hq
      obtain rfl := hcases q p hq
      exact ⟨slots, Function.update_self t.data (some slots) fun _ => none, hI⟩
    · intro q p hq
      obtain rfl := hcases q p hq
      exact ⟨0, congrArg (fun r => r.1.capacity) hcreate.symm⟩
    · intro q q' p p' hq hq' _
      rw [hcases q p hq, hcases q' p' hq']
    · exact fun q p fd _ hsome => Option.some_ne_none 0 hsome.symm
    · intro q p hq _ fd
      obtain rfl := hcases q p hq
      exact ⟨fun hsome => absurd hsome Bool.false_ne_true, fun hlt => absurd hlt (Nat.not_lt_zero fd)⟩
  | step hrun ho hs ih => exact ih.step ho hs

/-- The step changes no descriptor of another process, and a file gets a descriptor that designated
no node. -/
def FdIsolated (s : FdState) (e : FdEvent) (fd : ℕ) (s' : FdState) : Prop :=
  (∀ q, q ≠ s.activeProcess → (s.processes q).isSome → ∀ fd',
    processGetNodeOfFd s' q fd' = processGetNodeOfFd s q fd') ∧
  ∀ node new, e = .openFile node new → processGetNodeOfFd s s.activeProcess fd = .ok 0

/-- A lookup reads the table of the process and its slots. -/
theorem processGetNodeOfFd_congr {q' : ℕ} {p p' : FdProcess} (hq : s.processes q = some p)
    (hq' : s'.processes q' = some p') (hfd : p'.fileDescriptors = p.fileDescriptors)
    (ht : s'.tables p.fileDescriptors.data = s.tables p.fileDescriptors.data) :
    processGetNodeOfFd s' q' fd = processGetNodeOfFd s q fd := by
  unfold processGetNodeOfFd
  rw [hq, hq']
  dsimp only
  rw [hfd, ht]

/-- Stored or grown, the entry of the new descriptor is not hidden from who shares the slots. -/
theorem PutDone.visible {tables tables' : ℕ → Option FdSlots} {t t' : FdTable} {m : MapSpec ℕ ℕ}
    (h : PutDone tables t (m.put (fun a b => a == b) fd node) new (0, t', tables')) :
    tables' t.data = none ∨ ∃ slots, tables' t.data = some slots ∧
      hashMapGet (t.map slots) fd = .ok (0, some node) := by
  cases h with
  | @store n slots hI =>
    refine .inr ⟨slots, Function.update_self .., ?_⟩
    have hget := hashMapGet_map hI fd
    rw [show (m.put (fun a b => a == b) fd node) fd = some node by simp [MapSpec.put]] at hget
    exact (hashMapGet_numElements (t.map slots) fd n).symm.trans hget
  | grow _ => exact .inl (Function.update_self ..)

theorem FdIsolated.of_orderly {e : FdEvent} (h : FdInv s spec) (ho : OrderlyFd s spec e)
    (hs : FdStep s e fd s') : FdIsolated s e fd s' := by
  cases hs with
  | @fork p child fdNext hp hchild =>
    refine ⟨fun q hq hlive fd' => ?_, fun _ _ he => nomatch he⟩
    obtain ⟨p', hp'⟩ := Option.isSome_iff_exists.mp hlive
    have hqc : q ≠ child := by
      rintro rfl
      rw [hp'] at hchild
      cases hchild
    exact processGetNodeOfFd_congr hp' ((Function.update_of_ne hqc ..).trans hp') rfl rfl
  | switch _ => exact ⟨fun _ _ _ _ => rfl, fun _ _ he => nomatch he⟩
  | exit _ _ =>
    refine ⟨fun q hq hlive fd' => ?_, fun _ _ he => nomatch he⟩
    obtain ⟨p', hp'⟩ := Option.isSome_iff_exists.mp hlive
    exact processGetNodeOfFd_congr hp' ((Function.update_of_ne hq ..).trans hp') rfl rfl
  | @openFile s' node new fd hnode hnew hrun =>
    obtain ⟨hunshared, hfresh⟩ := ho
    obtain ⟨p, hp⟩ := Option.isSome_iff_exists.mp h.active
    obtain ⟨rfl, t, tables, hdone, rfl⟩ := (processAddFd_spec h hp).of_ok hrun
    refine ⟨fun q hq hlive fd' => ?_, fun _ _ _ => ?_⟩
    · obtain ⟨p', hp'⟩ := Option.isSome_iff_exists.mp hlive
      exact processGetNodeOfFd_congr hp' ((Function.update_of_ne hq ..).trans hp') rfl
        (h.others hp hunshared hnew hdone hq hp').1
    · cases hforked : spec.forked s.activeProcess with
      | true => exact (h.lookup_eq_zero hp).mpr (hfresh p hp hforked)
      | false =>
        rw [h.lookup_eq_zero hp, ← Option.not_isSome_iff_eq_none, h.fdNext _ p hp hforked]
        exact Nat.lt_irrefl _

theorem OrderlyFd.of_isolated {e : FdEvent} (h : FdInv s spec) (hs : FdStep s e fd s')
    (hi : FdIsolated s e fd s') : OrderlyFd s spec e := by
  cases hs with
  | fork _ _ => trivial
  | switch _ => trivial
  | exit _ _ => trivial
  | @openFile s' node new fd hnode hnew hrun =>
    obtain ⟨p, hp⟩ := Option.isSome_iff_exists.mp h.active
    obtain ⟨rfl, t, tables, hdone, rfl⟩ := (processAddFd_spec h hp).of_ok hrun
    have hzero := hi.2 node new rfl
    refine ⟨?_, fun p' hp' _ => ?_⟩
    · -- who shares the slots had no such descriptor, and now has it or has no slots
      intro q a b hq ha hb hdata
      obtain rfl : p = b := Option.some.inj (hp.symm.trans hb)
      have hfd := h.shared _ _ a p ha hp hdata
      have hbefore : processGetNodeOfFd s q p.fdNext = .ok 0 :=
        (processGetNodeOfFd_congr hp ha hfd rfl).trans hzero
      have hafter := hi.1 q hq (Option.isSome_of_eq_some ha) p.fdNext
      rw [hbefore] at hafter
      unfold processGetNodeOfFd at hafter
      dsimp only at hafter
      rw [Function.update_of_ne hq, ha] at hafter
      dsimp only at hafter
      rw [hfd] at hafter
      rcases hdone.visible with hnone | ⟨slots, hsome, hget⟩
      · rw [hnone] at hafter
        cases hafter
      · rw [hsome] at hafter
        dsimp only at hafter
        rw [hget] at hafter
        exact hnode (Except.ok.inj hafter)
    · obtain rfl : p = p' := Option.some.inj (hp.symm.trans hp')
      exact (h.lookup_eq_zero hp).mp hzero

end Step

/-! ## Isolation -/

/-- In every state of an orderly run each process reads the nodes that it opened or inherited, and a
next step is isolated exactly if it is orderly. -/
theorem orderlyFdRun_isolated {s : FdState} {spec : FdSpec} (h : OrderlyFdRun s spec) :
    (∀ q, (s.processes q).isSome → ∀ fd,
      processGetNodeOfFd s q fd = .ok ((spec.nodes q fd).getD 0)) ∧
    ∀ e fd s', FdStep s e fd s' → (FdIsolated s e fd s' ↔ OrderlyFd s spec e) := by
  refine ⟨fun q hlive fd => ?_, fun e fd s' hs => ⟨?_, ?_⟩⟩
  · obtain ⟨p, hp⟩ := Option.isSome_iff_exists.mp hlive
    exact h.inv.lookup hp fd
  · exact .of_isolated h.inv hs
  · exact fun ho => .of_orderly h.inv ho hs

/-- The first process has number 1 and its slots are at 100. -/
def initialFdState : FdState :=
  ⟨Function.update (fun _ => none) 1 (some ⟨⟨16, 0, 100⟩, 0⟩), 1,
    Function.update (fun _ => none) 100 (some fun _ => none)⟩

theorem initialFdState_orderly :
    OrderlyFdRun initialFdState ⟨fun _ => MapSpec.empty, fun _ => false⟩ := .init rfl

/-- The first process opens a file, forks and exits. Its child has inherited the file, and opens
another one, which gets the next number. -/
theorem orderlyFdRun_isolated_fork :
    ∃ s spec s' s'', OrderlyFdRun s spec ∧
      processGetNodeOfFd s 1 0 = .ok 7 ∧ processGetNodeOfFd s 2 0 = .ok 7 ∧
      FdStep s (.exit 2) 0 s' ∧ FdIsolated s (.exit 2) 0 s' ∧
      FdStep s' (.openFile 8 300) 1 s'' ∧ FdIsolated s' (.openFile 8 300) 1 s'' ∧
      processGetNodeOfFd s'' 2 1 = .ok 8 := by
  have hopen : FdStep initialFdState (.openFile 7 200) 0 _ := .openFile (by decide) rfl rfl
  have hunshared : Unshared initialFdState := by
    intro q a b hq ha
    unfold initialFdState at hq ha
    dsimp only at hq ha
    rw [Function.update_of_ne hq] at ha
    cases ha
  have hrun₁ := initialFdState_orderly.step
    (show OrderlyFd _ _ (.openFile 7 200) from
      ⟨hunshared, fun _ _ hforked => absurd hforked Bool.false_ne_true⟩) hopen
  have hrun₂ := hrun₁.step (show OrderlyFd _ _ (.fork 2 1) from trivial) (.fork rfl rfl)
  have h₂ := orderlyFdRun_isolated hrun₂
  have hrun₃ := hrun₂.step (show OrderlyFd _ _ (.exit 2) from trivial) (.exit rfl (by decide))
  refine ⟨_, _, _, _, hrun₂, h₂.1 1 rfl 0, h₂.1 2 rfl 0, .exit rfl (by decide),
    (h₂.2 (.exit 2) _ _ (.exit rfl (by decide))).mpr trivial, .openFile (by decide) rfl rfl,
    ((orderlyFdRun_isolated hrun₃).2 (.openFile 8 300) _ _ (.openFile (by decide) rfl rfl)).mpr
      ⟨?_, ?_⟩, rfl⟩
  · -- the child is alone
    intro q a b hq ha
    have hone : q ≠ 1 := by
      rintro rfl
      cases ha
    have htwo : q ≠ 2 := hq
    change Function.update (Function.update (Function.update (Function.update (fun _ => none) 1 _)
      1 _) 2 _) 1 none q = some a at ha
    rw [Function.update_of_ne hone, Function.update_of_ne htwo, Function.update_of_ne hone,
      Function.update_of_ne hone] at ha
    cases ha
  · intro p hp _
    cases hp
    rfl

/-- After a fork the parent opens a file, and the child has it. -/
theorem not_fdIsolated_forked :
    ∃ s spec s', OrderlyFdRun s spec ∧ FdStep s (.openFile 7 200) 0 s' ∧ s.activeProcess = 1 ∧
      processGetNodeOfFd s 2 0 = .ok 0 ∧ processGetNodeOfFd s' 2 0 = .ok 7 := by
  have hfork : FdStep initialFdState (.fork 2 0) 0 _ := .fork rfl rfl
  exact ⟨_, _, _, initialFdState_orderly.step (show OrderlyFd _ _ (.fork 2 0) from trivial) hfork,
    .openFile (by decide) rfl rfl, rfl, rfl, rfl⟩

end RawOS
