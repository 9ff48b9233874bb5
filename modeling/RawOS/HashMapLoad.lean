import RawOS.HashMapSpec

/-!
# The load of a hash map

What holds for every comparison and every hash of keys, also where they do not fit together, for as
long as the tables are smaller than 2^32 bytes: between two operations at most half of the slots are
taken (`HalfFull`). So every loop over the slots meets an empty one before it has gone around, and
the puts of `hash_map_grow` do not grow the new table.
-/

namespace RawOS

open Probing

variable {K V : Type}

/-- The table of `hm` fits, and its elements are counted. -/
structure Counted (hm : HashMap K V) : Prop where
  capacity_pos : 0 < hm.capacity
  fits : hm.Fits
  count : hm.numElements = hm.entries.length

/-- The invariant between two operations. -/
structure HalfFull (hm : HashMap K V) : Prop extends Counted hm where
  load : hm.numElements * 2 ≤ hm.capacity

/-- `hash_map_put` cut off where it would grow the map. -/
def hashMapPutInPlace (hm : HashMap K V) (key : K) (value : V) :
    Except Panic (ℤ × HashMap K V) := do
  let hm ← hashMapStore hm key value
  if u32 (hm.numElements * 2) > hm.capacity then .error .outOfFuel else return (0, hm)

section

variable {hm : HashMap K V} {p n : ℕ} {key : K} {value : V}

/-! ## The searches -/

theorem Counted.exists_none (hC : Counted hm) (hfree : hm.numElements < hm.capacity) :
    ∃ q < hm.capacity, hm.data q = none :=
  Probing.exists_none (lt_of_eq_of_lt hC.count.symm hfree)

/-- The search for any key ends before it has gone around. -/
theorem Counted.probe (hC : Counted hm) (hfree : hm.numElements < hm.capacity) (key : K) :
    ∃ p < hm.capacity, hashMapProbe hm key hm.capacity (hm.home key) = .ok p := by
  have hh := HashMap.home_lt hC.capacity_pos key
  obtain ⟨p, hrun, hp, -⟩ := hashMapProbe_passed hC.capacity_pos hC.fits (hC.exists_none hfree)
    hh (by rw [dist_self, Nat.add_zero]) (fun r _ hlt => absurd hlt (by rw [dist_self]; omega))
  exact ⟨p, hp, hrun⟩

theorem HalfFull.free (hI : HalfFull hm) : hm.numElements < hm.capacity := by
  have hpos := hI.capacity_pos
  have hload := hI.load
  omega

theorem HalfFull.get (hI : HalfFull hm) (key : K) : ∃ r, hashMapGet hm key = .ok r := by
  obtain ⟨p, -, hrun⟩ := hI.probe hI.free key
  unfold hashMapGet
  rw [hrun, ok_bind]
  cases hm.data p <;> exact ⟨_, rfl⟩

/-! ## Puts -/

/-- An entry that is stored takes at most one more slot, and none if a search finds its key. -/
theorem Counted.store (hC : Counted hm) (hfree : hm.numElements < hm.capacity) (key : K) (value : V) :
    ∃ hm', hashMapStore hm key value = .ok hm' ∧ Counted hm' ∧ SameKind hm hm' ∧
      hm'.capacity = hm.capacity ∧ hm'.numElements ≤ hm.numElements + 1 ∧
      (hashMapGet hm key = .ok (-1, none) ∨ hm'.numElements = hm.numElements) := by
  obtain ⟨p, hp, hrun⟩ := hC.probe hfree key
  have hperm := @entries_update_some _ _ hm.data _ (key, value) hp
  unfold hashMapStore hashMapGet
  rw [hrun, ok_bind, ok_bind, hC.fits.fill hp, ok_bind]
  cases hd : hm.data p with
  | none =>
    have hcap := four_mul_capacity_lt hC.fits
    have hnum : u32 (hm.numElements + 1) = hm.numElements + 1 := u32_of_lt (by omega)
    rw [entries_of_none hd] at hperm
    refine ⟨_, rfl, ⟨hC.capacity_pos, hC.fits, ?_⟩, ⟨rfl, rfl, rfl, rfl⟩, rfl, hnum.le, .inl rfl⟩
    dsimp only
    rw [hnum, hC.count]
    exact hperm.length_eq.symm
  | some e =>
    have hold := entries_of_some hp hd
    refine ⟨_, rfl, ⟨hC.capacity_pos, hC.fits, ?_⟩, ⟨rfl, rfl, rfl, rfl⟩, rfl, Nat.le_succ _,
      .inr rfl⟩
    exact hC.count.trans (hold.length_eq.trans hperm.length_eq.symm)

/-- With room for the entry neither put grows the map. -/
theorem Counted.put_inPlace (hC : Counted hm) (fuel : ℕ)
    (hroom : (hm.numElements + 1) * 2 ≤ hm.capacity)
    (key : K) (value : V) :
    ∃ hm', hashMapPutNested (fuel + 1) hm key value = .ok (0, hm') ∧
      hashMapPutInPlace hm key value = .ok (0, hm') ∧ Counted hm' ∧
      hm'.capacity = hm.capacity ∧ hm'.numElements ≤ hm.numElements + 1 := by
  obtain ⟨hm', hrun, hC', -, hcap, hnum, -⟩ := hC.store (by omega) key value
  have hsmall : ¬ u32 (hm'.numElements * 2) > hm'.capacity := by
    have : u32 (hm'.numElements * 2) ≤ hm'.numElements * 2 := Nat.mod_le _ _
    omega
  refine ⟨hm', ?_, ?_, hC', hcap, hnum⟩
  · unfold hashMapPutNested
    rw [hrun, ok_bind, if_neg hsmall]
    rfl
  · unfold hashMapPutInPlace
    rw [hrun, ok_bind, if_neg hsmall]
    rfl

/-- The first `n` slots of an old map, put into an empty one with room for them. -/
theorem Counted.rehash (hC : Counted hm) (fuel : ℕ) {old : HashMap K V} (hfits : old.Fits)
    (hnum : hm.numElements = 0) :
    ∀ {n : ℕ}, n ≤ old.capacity → n * 2 ≤ hm.capacity →
      ∃ hm', hashMapRehash (hashMapPutNested (fuel + 1)) old hm n = .ok (0, hm') ∧
        hashMapRehash hashMapPutInPlace old hm n = .ok (0, hm') ∧ Counted hm' ∧
        hm'.capacity = hm.capacity ∧ hm'.numElements ≤ n
  | 0, _, _ => ⟨hm, rfl, rfl, hC, rfl, hnum.le⟩
  | n + 1, hn, hroom => by
    obtain ⟨hm₁, hrun, hrun', hC₁, hcap, hnum₁⟩ :=
      hC.rehash fuel hfits hnum (n := n) (by omega) (by omega)
    unfold hashMapRehash
    rw [hrun, hrun', ok_bind, ok_bind]
    dsimp only
    rw [if_neg (by simp), if_neg (by simp), hfits.slot hn, ok_bind, ok_bind]
    cases hd : old.data n with
    | none => exact ⟨hm₁, rfl, rfl, hC₁, hcap, by omega⟩
    | some e =>
      obtain ⟨hm₂, hput, hput', hC₂, hcap₂, hnum₂⟩ :=
        hC₁.put_inPlace fuel (by omega) e.1 e.2
      refine ⟨hm₂, ?_, ?_, hC₂, hcap₂.trans hcap, by omega⟩
      · dsimp only
        rw [hput]
        rfl
      · dsimp only
        rw [hput']
        rfl

theorem hashMapCreate_counted {initialCapacity keySize valueSize : ℕ} {cmp : K → K → Bool}
    {hash : K → ℕ}
    (hfits : tableBytes (tableCapacity initialCapacity) keySize valueSize < 4294967296) :
    HalfFull (hashMapCreate initialCapacity keySize valueSize cmp hash : ℤ × HashMap K V).2 :=
  have hI : HashMapInv _ (MapSpec.empty : MapSpec K V) := hashMapCreate_inv cmp hash hfits
  ⟨⟨hI.capacity_pos, hI.fits, hI.count⟩, hI.load⟩

/-- `hash_map_grow` is not nested: its puts work in place. -/
theorem Counted.grow (hC : Counted hm) (fuel : ℕ)
    (hgrown : tableBytes (hm.capacity * 2) hm.keySize hm.valueSize < 4294967296) :
    ∃ hm', hashMapGrow (hashMapPutNested (fuel + 1)) hm = .ok (0, hm') ∧
      hashMapGrow hashMapPutInPlace hm = .ok (0, hm') ∧ HalfFull hm' := by
  have hpos := hC.capacity_pos
  have hfits := four_mul_capacity_lt hC.fits
  have hcap : tableCapacity (u32 (hm.capacity * 2)) = hm.capacity * 2 := by
    rw [u32_of_lt (by omega)]
    exact if_pos (by omega)
  have hnew : HalfFull (hashMapCreate (u32 (hm.capacity * 2)) hm.keySize hm.valueSize
      hm.keyCompareFunc hm.keyHashFunc : ℤ × HashMap K V).2 :=
    hashMapCreate_counted (by rw [hcap]; exact hgrown)
  obtain ⟨hm', hrun, hrun', hC', hcap', hnum⟩ :=
    hnew.toCounted.rehash fuel hC.fits rfl le_rfl (le_of_eq hcap.symm)
  have hcap'' : hm'.capacity = hm.capacity * 2 := hcap'.trans hcap
  exact ⟨hm', hrun, hrun', hC', by omega⟩

theorem HalfFull.put (hI : HalfFull hm) (key : K) (value : V) (hfits : hm.PutFits key) :
    ∃ hm', hashMapPut hm key value = .ok (0, hm') ∧ HalfFull hm' := by
  have hload := hI.load
  obtain ⟨hm₁, hrun, hC₁, hkind, hcap, hnum, hnew⟩ := hI.store hI.free key value
  have hsmall := four_mul_capacity_lt hC₁.fits
  have hpos := hI.capacity_pos
  have h32 : u32 (hm₁.numElements * 2) = hm₁.numElements * 2 := u32_of_lt (by omega)
  unfold hashMapPut growDepth hashMapPutNested
  rw [hrun, ok_bind, h32]
  by_cases hgrow : hm₁.numElements * 2 > hm₁.capacity
  · have hget : hashMapGet hm key = .ok (-1, none) := hnew.resolve_right (by omega)
    have hgrown := hfits hget (by omega)
    rw [← hcap, ← hkind.keySize, ← hkind.valueSize] at hgrown
    obtain ⟨hm₂, hrun₂, -, hI₂⟩ := hC₁.grow 0 hgrown
    rw [if_pos hgrow, hrun₂]
    exact ⟨hm₂, rfl, hI₂⟩
  · rw [if_neg hgrow]
    exact ⟨hm₁, rfl, hC₁, not_lt.mp hgrow⟩

/-! ## Deletions -/

/-- The loop of `adjust_gap` ends: half of the slots are empty, so one of them is not the gap. -/
theorem HalfFull.adjustGap (hI : HalfFull hm) (hp : p < hm.capacity) {e : K × V}
    (hd : hm.data p = some e) :
    ∃ data', adjustGap { hm with data := Function.update hm.data p none } p =
        .ok { hm with data := data' } ∧
      (entries hm.capacity data').length + 1 = hm.numElements := by
  have hpos := hI.capacity_pos
  have hold := (entries_of_some hp hd).length_eq
  obtain ⟨q, hq, hnone⟩ := hI.exists_none hI.free
  have hqp : q ≠ p := by
    rintro rfl
    rw [hnone] at hd
    cases hd
  have hq' : Function.update hm.data p none q = none := by
    rw [Function.update_of_ne hqp, hnone]
  have hsucc := succ_mod_lt hp
  obtain ⟨data', -, -, hrun, -, hperm⟩ :=
    adjustGapLoop_rule (I := fun _ _ _ => True) hpos hI.fits hq (fun _ _ _ _ _ => trivial)
      (fun _ _ _ _ => trivial) hp hsucc (Function.update_self p none hm.data) trivial hq'
      (dist_succ_lt hp hq (Ne.symm hqp)) (dist_lt hsucc hq)
  refine ⟨data', hrun, ?_⟩
  rw [hperm.length_eq, hI.count]
  exact hold.symm

theorem HalfFull.delete (hI : HalfFull hm) (key : K) :
    ∃ status hm', hashMapDelete hm key = .ok (status, hm') ∧ HalfFull hm' := by
  obtain ⟨p, hp, hrun⟩ := hI.probe hI.free key
  unfold hashMapDelete
  rw [hrun, ok_bind]
  cases hd : hm.data p with
  | none => exact ⟨-1, hm, rfl, hI⟩
  | some e =>
    obtain ⟨data', hgap, hlen⟩ := hI.adjustGap hp hd
    have hload := hI.load
    have hfits := four_mul_capacity_lt hI.fits
    have hnum : u32Sub hm.numElements 1 = hm.numElements - 1 := u32Sub_of_le (by omega) (by omega)
    dsimp only
    rw [hgap, ok_bind, hnum]
    refine ⟨0, _, rfl, ⟨hI.capacity_pos, hI.fits, ?_⟩, ?_⟩
    · show hm.numElements - 1 = (entries hm.capacity data').length
      omega
    · show (hm.numElements - 1) * 2 ≤ hm.capacity
      omega

/-! ## Runs -/

/-- The maps that creations, puts and deletions lead to, with any comparison and any hash. -/
inductive MapReached : HashMap K V → Prop where
  | create {initialCapacity keySize valueSize : ℕ} {cmp : K → K → Bool} {hash : K → ℕ} :
    MapReached (hashMapCreate initialCapacity keySize valueSize cmp hash).2
  | put {key : K} {value : V} {status : ℤ} {hm hm' : HashMap K V} :
    MapReached hm → hashMapPut hm key value = .ok (status, hm') → MapReached hm'
  | delete {key : K} {status : ℤ} {hm hm' : HashMap K V} :
    MapReached hm → hashMapDelete hm key = .ok (status, hm') → MapReached hm'

/-- Those with tables that fit. -/
inductive FittingRun : HashMap K V → Prop where
  | create {initialCapacity keySize valueSize : ℕ} {cmp : K → K → Bool} {hash : K → ℕ} :
    tableBytes (tableCapacity initialCapacity) keySize valueSize < 4294967296 →
    FittingRun (hashMapCreate initialCapacity keySize valueSize cmp hash).2
  | put {key : K} {value : V} {status : ℤ} {hm hm' : HashMap K V} :
    FittingRun hm → hm.PutFits key → hashMapPut hm key value = .ok (status, hm') → FittingRun hm'
  | delete {key : K} {status : ℤ} {hm hm' : HashMap K V} :
    FittingRun hm → hashMapDelete hm key = .ok (status, hm') → FittingRun hm'

theorem FittingRun.reached (h : FittingRun hm) : MapReached hm := by
  induction h with
  | create _ => exact .create
  | put _ _ hrun ih => exact ih.put hrun
  | delete _ hrun ih => exact ih.delete hrun

theorem FittingRun.halfFull (h : FittingRun hm) : HalfFull hm := by
  induction h with
  | create hfits => exact hashMapCreate_counted hfits
  | put _ hfits hrun ih =>
    obtain ⟨hm', hrun', hI⟩ := ih.put _ _ hfits
    rw [hrun'] at hrun
    cases hrun
    exact hI
  | delete _ hrun ih =>
    obtain ⟨status, hm', hrun', hI⟩ := ih.delete _
    rw [hrun'] at hrun
    cases hrun
    exact hI

/-- The loops on `hm` end: each visits at most `hm.capacity` slots, which is the fuel of the
searches and of `adjust_gap`. -/
structure LoopsEnd (hm : HashMap K V) : Prop where
  empty : ∃ q < hm.capacity, hm.data q = none
  probe : ∀ key, ∃ p < hm.capacity, hashMapProbe hm key hm.capacity (hm.home key) = .ok p
  gap : ∀ p < hm.capacity, hm.data p ≠ none →
    ∃ hm', adjustGap { hm with data := Function.update hm.data p none } p = .ok hm'
  get : ∀ key, ∃ r, hashMapGet hm key = .ok r
  delete : ∀ key, ∃ r, hashMapDelete hm key = .ok r

/-- A put of the key ends, and if it grows the map, that growth is not nested. -/
structure PutEnds (hm : HashMap K V) (key : K) (value : V) : Prop where
  store : ∃ hm', hashMapStore hm key value = .ok hm' ∧
    (u32 (hm'.numElements * 2) > hm'.capacity → ∃ hm'',
      hashMapGrow hashMapPutInPlace hm' = .ok (0, hm'') ∧
      ∀ fuel, hashMapGrow (hashMapPutNested (fuel + 1)) hm' = .ok (0, hm''))
  put : ∃ hm', hashMapPut hm key value = .ok (0, hm')

/-- After creations, puts and deletions with tables that fit, the loops end, and so does the next
put if its table fits. -/
theorem fittingRun_loopsEnd (h : FittingRun hm) :
    LoopsEnd hm ∧ ∀ key value, hm.PutFits key → PutEnds hm key value := by
  have hI := h.halfFull
  refine ⟨⟨hI.exists_none hI.free, hI.probe hI.free, fun p hp hd => ?_, hI.get, fun key => ?_⟩,
    fun key value hfits => ⟨?_, ?_⟩⟩
  · obtain ⟨e, he⟩ := Option.ne_none_iff_exists'.mp hd
    obtain ⟨data', hrun, -⟩ := hI.adjustGap hp he
    exact ⟨_, hrun⟩
  · obtain ⟨status, hm', hrun, -⟩ := hI.delete key
    exact ⟨_, hrun⟩
  · obtain ⟨hm₁, hrun, hC₁, hkind, hcap, hnum, hnew⟩ := hI.store hI.free key value
    refine ⟨hm₁, hrun, fun hgrow => ?_⟩
    have hload := hI.load
    have hle : u32 (hm₁.numElements * 2) ≤ hm₁.numElements * 2 := Nat.mod_le _ _
    have hgrown := hfits (hnew.resolve_right (by omega)) (by omega)
    rw [← hcap, ← hkind.keySize, ← hkind.valueSize] at hgrown
    obtain ⟨hm₂, -, hrun₂, -⟩ := hC₁.grow 0 hgrown
    refine ⟨hm₂, hrun₂, fun fuel => ?_⟩
    obtain ⟨hm₃, hrun₃, hrun₃', -⟩ := hC₁.grow fuel hgrown
    rw [hrun₂] at hrun₃'
    cases hrun₃'
    exact hrun₃
  · obtain ⟨hm', hrun, -⟩ := hI.put key value hfits
    exact ⟨hm', hrun⟩

/-- A map of capacity 1 that its first two puts have grown; every key has the same hash. -/
theorem fittingRun_loopsEnd_grown : ∃ hm : HashMap ℕ ℕ, FittingRun hm ∧ hm.capacity = 4 ∧
    LoopsEnd hm ∧ PutEnds hm 9 90 := by
  have hcreate : FittingRun
      (hashMapCreate 0 4 4 (fun a b => a == b) fun _ => 7 : ℤ × HashMap ℕ ℕ).2 :=
    .create (by decide)
  have hfirst := hcreate.put (show HashMap.PutFits _ 3 from fun _ _ => by decide)
    (show hashMapPut _ 3 30 = _ from rfl)
  have hrun := hfirst.put (show HashMap.PutFits _ 5 from fun _ _ => by decide)
    (show hashMapPut _ 5 50 = _ from rfl)
  obtain ⟨hloops, hput⟩ := fittingRun_loopsEnd hrun
  exact ⟨_, hrun, rfl, hloops, hput 9 90 fun _ _ => by decide⟩

/-- The bytes of 357913942 slots are 8 after the wrap, and a search from slot 7 leaves them. -/
theorem not_loopsEnd_wrapped : ∃ hm : HashMap ℕ ℕ, MapReached hm ∧ hm.capacity = 357913942 ∧
    hm.allocated = 8 ∧ hashMapProbe hm 7 hm.capacity (hm.home 7) = .error outsideTable ∧
    ¬ LoopsEnd hm := by
  have hslot : hashMapSlot (hashMapCreate 357913942 4 4 (fun a b => a == b) id :
      ℤ × HashMap ℕ ℕ).2 7 = .error outsideTable := rfl
  have hprobe : hashMapProbe (hashMapCreate 357913942 4 4 (fun a b => a == b) id :
      ℤ × HashMap ℕ ℕ).2 7 (357913941 + 1) 7 = .error outsideTable := by
    unfold hashMapProbe
    rw [hslot]
    rfl
  refine ⟨_, .create, rfl, by decide, hprobe, fun h => ?_⟩
  obtain ⟨p, -, hrun⟩ := h.probe 7
  cases hprobe.symm.trans hrun

end

end RawOS
