import RawOS.HashMap
import RawOS.Probing

/-!
# The hash map is a finite map

1. `MapSpec`: finite maps over keys up to the comparison, and `Stores`: a list of entries that
   represents one.
2. `HashMapInv`: the table can be searched, and its entries represent a finite map.
3. `hashMapStore_spec`, `hashMapPut_spec`, `hashMapDelete_spec`: the operations keep the invariant.
-/

namespace RawOS

open Probing

variable {K V : Type}

/-! ## Finite maps -/

/-- The comparison of keys is an equivalence, and the hash respects it. -/
structure KeyEquiv (cmp : K → K → Bool) (hash : K → ℕ) : Prop where
  refl : ∀ a, cmp a a = true
  symm : ∀ {a b}, cmp a b = true → cmp b a = true
  trans : ∀ {a b c}, cmp a b = true → cmp b c = true → cmp a c = true
  hash_eq : ∀ {a b}, cmp a b = true → hash a = hash b

/-- A finite map, on all keys. -/
abbrev MapSpec (K V : Type) := K → Option V

namespace MapSpec

variable (cmp : K → K → Bool)

def empty : MapSpec K V := fun _ => none

def put (m : MapSpec K V) (key : K) (value : V) : MapSpec K V :=
  fun k => if cmp key k then some value else m k

def delete (m : MapSpec K V) (key : K) : MapSpec K V :=
  fun k => if cmp key k then none else m k

@[simp] theorem put_delete (m : MapSpec K V) (key : K) (value : V) :
    put cmp (delete cmp m key) key value = put cmp m key value := by
  funext k
  unfold put delete
  split_ifs <;> rfl

end MapSpec

/-- The entries have different keys, and are those of `m`. -/
structure Stores (cmp : K → K → Bool) (es : List (K × V)) (m : MapSpec K V) : Prop where
  distinct : es.Pairwise fun e e' => ¬ cmp e.1 e'.1
  lookup : ∀ k v, m k = some v ↔ ∃ e ∈ es, cmp e.1 k ∧ e.2 = v

section Stores

variable {cmp : K → K → Bool} {hash : K → ℕ} {es es' : List (K × V)} {m m' : MapSpec K V}
  {key : K} {value : V} {e : K × V}

theorem stores_nil : Stores cmp [] (MapSpec.empty : MapSpec K V) :=
  ⟨List.Pairwise.nil, fun k v => by simp [MapSpec.empty]⟩

theorem Stores.eq_none (h : Stores cmp es m) : m key = none ↔ ∀ e ∈ es, ¬ cmp e.1 key := by
  rw [Option.eq_none_iff_forall_ne_some]
  constructor
  · intro hm e he hc
    exact hm e.2 ((h.lookup key e.2).mpr ⟨e, he, hc, rfl⟩)
  · rintro hm v hv
    obtain ⟨e, he, hc, -⟩ := (h.lookup key v).mp hv
    exact hm e he hc

/-- The entries determine the map. -/
theorem Stores.unique (h : Stores cmp es m) (h' : Stores cmp es m') : m = m' := by
  funext k
  apply Option.ext
  intro v
  rw [h.lookup, h'.lookup]

theorem Stores.perm (hk : KeyEquiv cmp hash) (h : Stores cmp es m) (hp : es.Perm es') :
    Stores cmp es' m := by
  refine ⟨(hp.pairwise_iff fun hab hba => hab (hk.symm hba)).mp h.distinct, fun k v => ?_⟩
  rw [h.lookup]
  exact exists_congr fun e => and_congr_left fun _ => hp.mem_iff

/-- An entry with a new key. -/
theorem Stores.cons (hk : KeyEquiv cmp hash) (h : Stores cmp es m) (hm : m key = none) :
    Stores cmp ((key, value) :: es) (m.put cmp key value) := by
  have hno := h.eq_none.mp hm
  refine ⟨List.pairwise_cons.mpr ⟨fun e he hc => hno e he (hk.symm hc), h.distinct⟩, ?_⟩
  intro k v
  unfold MapSpec.put
  by_cases hc : cmp key k
  · rw [if_pos hc]
    constructor
    · intro hv
      exact ⟨_, List.mem_cons_self, hc, Option.some.inj hv⟩
    · rintro ⟨e, he, hek, rfl⟩
      rcases List.mem_cons.mp he with rfl | he
      · rfl
      · exact absurd (hk.trans hek (hk.symm hc)) (hno e he)
  · rw [if_neg hc, h.lookup]
    constructor
    · rintro ⟨e, he, hrest⟩
      exact ⟨e, List.mem_cons_of_mem _ he, hrest⟩
    · rintro ⟨e, he, hek, hv⟩
      rcases List.mem_cons.mp he with rfl | he
      · exact absurd hek hc
      · exact ⟨e, he, hek, hv⟩

/-- Without the entry of a key. -/
theorem Stores.tail (hk : KeyEquiv cmp hash) (h : Stores cmp (e :: es) m) (hc : cmp e.1 key) :
    Stores cmp es (m.delete cmp key) := by
  obtain ⟨hno, hdist⟩ := List.pairwise_cons.mp h.distinct
  refine ⟨hdist, fun k v => ?_⟩
  unfold MapSpec.delete
  by_cases hck : cmp key k
  · rw [if_pos hck]
    constructor
    · exact fun hv => absurd hv (Option.some_ne_none v).symm
    · rintro ⟨e', he', hek, -⟩
      exact absurd (hk.trans (hk.trans hc hck) (hk.symm hek)) (hno e' he')
  · rw [if_neg hck, h.lookup]
    constructor
    · rintro ⟨e', he', hek, hv⟩
      rcases List.mem_cons.mp he' with rfl | he'
      · exact absurd (hk.trans (hk.symm hc) hek) hck
      · exact ⟨e', he', hek, hv⟩
    · rintro ⟨e', he', hrest⟩
      exact ⟨e', List.mem_cons_of_mem _ he', hrest⟩

theorem Stores.delete_of_none (hk : KeyEquiv cmp hash) (h : Stores cmp es m) (hm : m key = none) :
    m.delete cmp key = m := by
  funext k
  unfold MapSpec.delete
  by_cases hc : cmp key k
  · rw [if_pos hc]
    exact (h.eq_none.mpr fun e he hek => h.eq_none.mp hm e he (hk.trans hek (hk.symm hc))).symm
  · rw [if_neg hc]

end Stores

/-! ## The invariant -/

namespace HashMap

/-- The entries of the map, in the order of the slots. -/
def entries (hm : HashMap K V) : List (K × V) := Probing.entries hm.capacity hm.data

/-- The position where the search for an entry starts. -/
def entryHome (hm : HashMap K V) (e : K × V) : ℕ := hm.home e.1

end HashMap

/-- The table of `hm` can be searched, and represents `m`. -/
structure TableInv (hm : HashMap K V) (m : MapSpec K V) : Prop where
  capacity_pos : 0 < hm.capacity
  fits : hm.Fits
  reach : Reach hm.capacity hm.entryHome hm.data
  count : hm.numElements = hm.entries.length
  stores : Stores hm.keyCompareFunc hm.entries m

/-- The invariant of the map between two operations: at most half of the slots are taken. -/
structure HashMapInv (hm : HashMap K V) (m : MapSpec K V) : Prop extends TableInv hm m where
  load : hm.numElements * 2 ≤ hm.capacity

/-- The map was made by the same `hash_map_create`, up to the capacity. -/
structure SameKind (hm hm' : HashMap K V) : Prop where
  keySize : hm'.keySize = hm.keySize
  valueSize : hm'.valueSize = hm.valueSize
  compare : hm'.keyCompareFunc = hm.keyCompareFunc
  hash : hm'.keyHashFunc = hm.keyHashFunc

theorem SameKind.trans {a b c : HashMap K V} (h : SameKind a b) (h' : SameKind b c) :
    SameKind a c :=
  ⟨h'.keySize.trans h.keySize, h'.valueSize.trans h.valueSize, h'.compare.trans h.compare,
    h'.hash.trans h.hash⟩

/-! ## Search -/

section

variable {hm : HashMap K V} {m : MapSpec K V} {key : K} {value : V}

theorem HashMap.home_lt (hpos : 0 < hm.capacity) (key : K) : hm.home key < hm.capacity :=
  Nat.mod_lt _ hpos

/-- The slots from the home of `key` up to `p` are taken by other keys. -/
def Passed (hm : HashMap K V) (key : K) (p : ℕ) : Prop :=
  ∀ r < hm.capacity,
    Probing.dist hm.capacity (hm.home key) r < Probing.dist hm.capacity (hm.home key) p →
    ∃ e, hm.data r = some e ∧ ¬ hm.keyCompareFunc e.1 key

theorem hashMapProbe_passed (hpos : 0 < hm.capacity) (hfits : hm.Fits)
    (hfree : ∃ q < hm.capacity, hm.data q = none) :
    ∀ {fuel pos : ℕ}, pos < hm.capacity →
      fuel + Probing.dist hm.capacity (hm.home key) pos = hm.capacity → Passed hm key pos →
      ∃ p, hashMapProbe hm key fuel pos = .ok p ∧ p < hm.capacity ∧ Passed hm key p ∧
        ∀ e, hm.data p = some e → hm.keyCompareFunc e.1 key
  | 0, pos, hp, hfuel, _ => by
    have := dist_lt (HashMap.home_lt hpos key) hp
    omega
  | fuel + 1, pos, hp, hfuel, hpassed => by
    have hh := HashMap.home_lt hpos key
    unfold hashMapProbe
    rw [hfits.slot hp, ok_bind]
    cases hd : hm.data pos with
    | none => exact ⟨pos, rfl, hp, hpassed, fun e he => by rw [hd] at he; cases he⟩
    | some e =>
      obtain ⟨k, v⟩ := e
      by_cases hc : hm.keyCompareFunc k key
      · refine ⟨pos, if_pos hc, hp, hpassed, fun e he => ?_⟩
        rw [hd] at he
        cases he
        exact hc
      · have hpassed' : ∀ r < hm.capacity, Probing.dist hm.capacity (hm.home key) r ≤
            Probing.dist hm.capacity (hm.home key) pos →
              ∃ e, hm.data r = some e ∧ ¬ hm.keyCompareFunc e.1 key := by
          intro r hr hle
          rcases Nat.lt_or_eq_of_le hle with hlt | heq
          · exact hpassed r hr hlt
          · obtain rfl := dist_inj hh hr hp heq
            exact ⟨(k, v), hd, hc⟩
        -- the search has not come back to where it started
        have hne : (pos + 1) % hm.capacity ≠ hm.home key := by
          intro heq
          obtain ⟨q, hq, hnone⟩ := hfree
          obtain ⟨e, he, -⟩ := hpassed' q hq (by
            have h₁ := dist_lt hh hq
            rw [succ_mod hp] at heq
            unfold Probing.dist at h₁ ⊢
            split_ifs at heq h₁ ⊢ <;> omega)
          rw [hnone] at he
          cases he
        dsimp only
        rw [if_neg hc]
        have hd' := dist_succ hh hp hne
        refine hashMapProbe_passed hpos hfits hfree (succ_mod_lt hp) (by omega) fun r hr hlt => ?_
        exact hpassed' r hr (by omega)

/-- The search ends at the entry of the key, or at an empty slot where the key is not present. -/
theorem hashMapProbe_spec (hk : KeyEquiv hm.keyCompareFunc hm.keyHashFunc) (hT : TableInv hm m)
    (hfree : hm.numElements < hm.capacity) (key : K) :
    ∃ p, hashMapProbe hm key hm.capacity (hm.home key) = .ok p ∧ p < hm.capacity ∧
      Passed hm key p ∧ (hm.data p = none ∧ m key = none ∨
        ∃ e, hm.data p = some e ∧ hm.keyCompareFunc e.1 key) := by
  have hh := HashMap.home_lt hT.capacity_pos key
  have hnone : ∃ q < hm.capacity, hm.data q = none :=
    exists_none (lt_of_eq_of_lt hT.count.symm hfree)
  obtain ⟨p, hrun, hp, hpassed, hend⟩ := hashMapProbe_passed hT.capacity_pos hT.fits hnone hh
    (by rw [dist_self, Nat.add_zero]) (fun r _ hlt => absurd hlt (by rw [dist_self]; omega))
  refine ⟨p, hrun, hp, hpassed, ?_⟩
  cases hd : hm.data p with
  | some e => exact .inr ⟨e, rfl, hend e hd⟩
  | none =>
    refine .inl ⟨rfl, hT.stores.eq_none.mpr fun e he hc => ?_⟩
    obtain ⟨q, hq, hdq⟩ := mem_entries.mp he
    have hhome : hm.entryHome e = hm.home key := by
      unfold HashMap.entryHome HashMap.home
      rw [hk.hash_eq hc]
    rcases Nat.lt_trichotomy (Probing.dist hm.capacity (hm.home key) q)
      (Probing.dist hm.capacity (hm.home key) p) with hlt | heq | hgt
    · obtain ⟨e', he', hne⟩ := hpassed q hq hlt
      rw [hdq] at he'
      cases he'
      exact hne hc
    · obtain rfl := dist_inj hh hq hp heq
      rw [hd] at hdq
      cases hdq
    · exact hT.reach q hq e hdq p hp (by rwa [hhome]) hd

theorem hashMapGet_spec (hk : KeyEquiv hm.keyCompareFunc hm.keyHashFunc) (hT : TableInv hm m)
    (hfree : hm.numElements < hm.capacity) (key : K) :
    hashMapGet hm key = .ok (if (m key).isSome then 0 else -1, m key) := by
  obtain ⟨p, hrun, hp, -, ⟨hd, hm'⟩ | ⟨e, hd, hc⟩⟩ := hashMapProbe_spec hk hT hfree key
  · unfold hashMapGet
    rw [hrun, ok_bind, hd, hm']
    rfl
  · have hm' : m key = some e.2 :=
      (hT.stores.lookup key e.2).mpr ⟨e, mem_entries.mpr ⟨p, hp, hd⟩, hc, rfl⟩
    unfold hashMapGet
    rw [hrun, ok_bind, hd, hm']
    rfl

/-! ## Storing -/

/-- A new entry at the end of the search. -/
theorem TableInv.reach_update (hT : TableInv hm m) {p : ℕ} (hpassed : Passed hm key p) (value : V) :
    Reach hm.capacity hm.entryHome (Function.update hm.data p (some (key, value))) := by
  have hup : ∀ r, hm.data r ≠ none →
      Function.update hm.data p (some (key, value)) r ≠ none := by
    intro r hr
    by_cases h : r = p
    · rw [h, Function.update_self]
      exact Option.some_ne_none _
    · rwa [Function.update_of_ne h]
  intro q hq x hx r hr hlt
  by_cases hqp : q = p
  · subst hqp
    rw [Function.update_self] at hx
    cases hx
    obtain ⟨e, he, -⟩ := hpassed r hr hlt
    exact hup r (by rw [he]; exact Option.some_ne_none _)
  · rw [Function.update_of_ne hqp] at hx
    exact hup r (hT.reach q hq x hx r hr hlt)

theorem hashMapStore_spec (hk : KeyEquiv hm.keyCompareFunc hm.keyHashFunc) (hT : TableInv hm m)
    (hfree : hm.numElements < hm.capacity) (key : K) (value : V) :
    ∃ hm', hashMapStore hm key value = .ok hm' ∧
      TableInv hm' (m.put hm.keyCompareFunc key value) ∧ SameKind hm hm' ∧
      hm'.capacity = hm.capacity ∧
      hm'.numElements = if (m key).isSome then hm.numElements else hm.numElements + 1 := by
  obtain ⟨p, hrun, hp, hpassed, ⟨hd, hm'⟩ | ⟨e, hd, hc⟩⟩ := hashMapProbe_spec hk hT hfree key
  all_goals
    have hreach := hT.reach_update hpassed value
    have hperm := @entries_update_some _ _ hm.data _ (key, value) hp
    unfold hashMapStore
    rw [hrun, ok_bind, hT.fits.fill hp, ok_bind, hd]
  · -- a new key
    have hcap := four_mul_capacity_lt hT.fits
    rw [entries_of_none hd] at hperm
    refine ⟨_, rfl, ⟨hT.capacity_pos, hT.fits, hreach, ?_, ?_⟩, ⟨rfl, rfl, rfl, rfl⟩, rfl, ?_⟩
    · dsimp only
      rw [u32_of_lt (by omega), hT.count]
      exact hperm.length_eq.symm
    · exact (hT.stores.cons hk hm').perm hk hperm.symm
    · dsimp only
      rw [u32_of_lt (by omega), hm']
      rfl
  · -- the key is present
    have hold := entries_of_some hp hd
    have hm' : m key = some e.2 :=
      (hT.stores.lookup key e.2).mpr ⟨e, mem_entries.mpr ⟨p, hp, hd⟩, hc, rfl⟩
    refine ⟨_, rfl, ⟨hT.capacity_pos, hT.fits, hreach, ?_, ?_⟩, ⟨rfl, rfl, rfl, rfl⟩, rfl, by
      rw [hm']; rfl⟩
    · exact hT.count.trans (hold.length_eq.trans hperm.length_eq.symm)
    · have hrest := (hT.stores.perm hk hold).tail hk hc
      have hput : Stores hm.keyCompareFunc _ (MapSpec.put hm.keyCompareFunc _ key value) :=
        hrest.cons hk (if_pos (hk.refl key))
      rw [MapSpec.put_delete] at hput
      exact hput.perm hk hperm.symm

/-! ## Growth -/

theorem tableCapacity_pos (initialCapacity : ℕ) : 0 < tableCapacity initialCapacity := by
  unfold tableCapacity
  split_ifs with h
  · exact h
  · exact Nat.one_pos

/-- A new table that fits. -/
theorem hashMapCreate_inv {initialCapacity keySize valueSize : ℕ} (cmp : K → K → Bool)
    (hash : K → ℕ)
    (hfits : tableBytes (tableCapacity initialCapacity) keySize valueSize < 4294967296) :
    HashMapInv (hashMapCreate initialCapacity keySize valueSize cmp hash).2
      (MapSpec.empty : MapSpec K V) := by
  have hnil : entries (tableCapacity initialCapacity) (fun _ => none : ℕ → Option (K × V)) = [] :=
    entries_empty fun _ _ => rfl
  refine ⟨⟨tableCapacity_pos _, hfits, fun q _ x hx => absurd hx (Option.some_ne_none x).symm,
    (congrArg List.length hnil).symm, ?_⟩, Nat.zero_le _⟩
  show Stores cmp (entries (tableCapacity initialCapacity) fun _ => none) _
  rw [hnil]
  exact stores_nil

/-- A `put` that does not grow the map. -/
theorem hashMapPutNested_spec (fuel : ℕ) (hk : KeyEquiv hm.keyCompareFunc hm.keyHashFunc)
    (hT : TableInv hm m) (hload : (hm.numElements + 1) * 2 ≤ hm.capacity) (key : K) (value : V) :
    ∃ hm', hashMapPutNested (fuel + 1) hm key value = .ok (0, hm') ∧
      TableInv hm' (m.put hm.keyCompareFunc key value) ∧ SameKind hm hm' ∧
      hm'.capacity = hm.capacity ∧ hm'.numElements ≤ hm.numElements + 1 := by
  obtain ⟨hm', hrun, hT', hkind, hcap, hnum⟩ := hashMapStore_spec hk hT (by omega) key value
  have hle : hm'.numElements ≤ hm.numElements + 1 := by
    rw [hnum]
    split_ifs <;> omega
  refine ⟨hm', ?_, hT', hkind, hcap, hle⟩
  unfold hashMapPutNested
  rw [hrun, ok_bind, if_neg]
  · rfl
  · have : u32 (hm'.numElements * 2) ≤ hm'.numElements * 2 := Nat.mod_le _ _
    omega

/-- The first slots of a table. -/
theorem entries_succ (n : ℕ) (slots : ℕ → Option (K × V)) :
    entries (n + 1) slots = entries n slots ++ (slots n).toList := by
  unfold entries
  rw [List.range_succ, List.filterMap_append]
  cases hs : slots n <;> simp [hs]

/-- The first `n` slots of the old map, put into a map with room for them. -/
theorem hashMapRehash_spec {old : HashMap K V} (hfits : old.Fits) (fuel : ℕ)
    (hk : KeyEquiv hm.keyCompareFunc hm.keyHashFunc)
    (hold : (entries old.capacity old.data).Pairwise fun e e' => ¬ hm.keyCompareFunc e.1 e'.1)
    (hT : TableInv hm MapSpec.empty) (hnum : hm.numElements = 0) :
    ∀ {n : ℕ}, n ≤ old.capacity → n * 2 ≤ hm.capacity →
      ∃ hm' m', hashMapRehash (hashMapPutNested (fuel + 1)) old hm n = .ok (0, hm') ∧
        TableInv hm' m' ∧ Stores hm.keyCompareFunc (entries n old.data) m' ∧ SameKind hm hm' ∧
        hm'.capacity = hm.capacity ∧ hm'.numElements ≤ n
  | 0, _, _ => ⟨hm, _, rfl, hT, stores_nil, ⟨rfl, rfl, rfl, rfl⟩, rfl, hnum.le⟩
  | n + 1, hn, hroom => by
    obtain ⟨hm₁, m₁, hrun, hT₁, hs₁, hkind, hcap, hnum₁⟩ :=
      hashMapRehash_spec hfits fuel hk hold hT hnum (n := n) (by omega) (by omega)
    unfold hashMapRehash
    rw [hrun, ok_bind]
    dsimp only
    rw [if_neg (by simp), hfits.slot hn, ok_bind]
    rw [entries_succ]
    cases hd : old.data n with
    | none =>
      refine ⟨hm₁, m₁, rfl, hT₁, ?_, hkind, hcap, by omega⟩
      rwa [Option.toList_none, List.append_nil]
    | some e =>
      obtain ⟨k, v⟩ := e
      -- the key of the slot is not among those before it
      have hnew : m₁ k = none := by
        refine hs₁.eq_none.mpr fun e he hc => ?_
        have hsub : (entries (n + 1) old.data).Sublist (entries old.capacity old.data) :=
          (List.range_sublist.mpr hn).filterMap old.data
        rw [entries_succ, hd] at hsub
        have hpw := hold.sublist hsub
        rw [List.pairwise_append] at hpw
        exact hpw.2.2 e he (k, v) (by simp) hc
      obtain ⟨hm₂, hrun₂, hT₂, hkind₂, hcap₂, hnum₂⟩ := hashMapPutNested_spec fuel
        (by rw [hkind.compare, hkind.hash]; exact hk) hT₁ (by omega) k v
      rw [hkind.compare] at hT₂
      refine ⟨hm₂, _, ?_, hT₂, ?_, hkind.trans hkind₂, hcap₂.trans hcap, by omega⟩
      · dsimp only
        rw [hrun₂, ok_bind]
        rfl
      · rw [Option.toList_some]
        exact (hs₁.cons hk hnew).perm hk (List.perm_append_singleton _ _).symm

/-- `hash_map_grow` keeps the contents, and makes room. -/
theorem hashMapGrow_spec (fuel : ℕ) (hk : KeyEquiv hm.keyCompareFunc hm.keyHashFunc)
    (hT : TableInv hm m)
    (hgrown : tableBytes (hm.capacity * 2) hm.keySize hm.valueSize < 4294967296) :
    ∃ hm', hashMapGrow (hashMapPutNested (fuel + 1)) hm = .ok (0, hm') ∧ HashMapInv hm' m ∧
      SameKind hm hm' ∧ hm'.capacity = hm.capacity * 2 := by
  have hpos := hT.capacity_pos
  have hfits := four_mul_capacity_lt hT.fits
  have hcap : tableCapacity (u32 (hm.capacity * 2)) = hm.capacity * 2 := by
    rw [u32_of_lt (by omega)]
    exact if_pos (by omega)
  have hnew : HashMapInv _ (MapSpec.empty : MapSpec K V) :=
    hashMapCreate_inv hm.keyCompareFunc hm.keyHashFunc (by rw [hcap]; exact hgrown)
  obtain ⟨hm₂, m₂, hrun, hT₂, hs₂, hkind, hcap₂, hnum₂⟩ :=
    @hashMapRehash_spec K V (hashMapCreate (u32 (hm.capacity * 2)) hm.keySize hm.valueSize
      hm.keyCompareFunc hm.keyHashFunc).2 hm hT.fits fuel hk hT.stores.distinct hnew.toTableInv rfl
      hm.capacity le_rfl (le_of_eq hcap.symm)
  obtain rfl := hs₂.unique hT.stores
  have hcap₂ : hm₂.capacity = hm.capacity * 2 := hcap₂.trans hcap
  exact ⟨hm₂, hrun, ⟨hT₂, by omega⟩, ⟨hkind.keySize, hkind.valueSize, hkind.compare, hkind.hash⟩,
    hcap₂⟩

/-- Where a put of the key grows the table, the new one fits. -/
def HashMap.PutFits (hm : HashMap K V) (key : K) : Prop :=
  hashMapGet hm key = .ok (-1, none) → hm.capacity < (hm.numElements + 1) * 2 →
    tableBytes (hm.capacity * 2) hm.keySize hm.valueSize < 4294967296

/-- A put stores the entry, and grows the table if that leaves less than half of it empty. -/
theorem hashMapPut_eq (hk : KeyEquiv hm.keyCompareFunc hm.keyHashFunc) (hI : HashMapInv hm m)
    (key : K) (value : V) : ∃ hm₁, TableInv hm₁ (m.put hm.keyCompareFunc key value) ∧
      SameKind hm hm₁ ∧ hm₁.capacity = hm.capacity ∧
      (hashMapPut hm key value = .ok (0, hm₁) ∧ hm₁.numElements * 2 ≤ hm.capacity ∧
          (m key = none → (hm.numElements + 1) * 2 ≤ hm.capacity) ∨
        m key = none ∧ hm.capacity < (hm.numElements + 1) * 2 ∧
        hashMapPut hm key value = do
          let (status, hm) ← hashMapGrow (hashMapPutNested 1) hm₁
          return (if status ≠ 0 then -1 else 0, hm)) := by
  have hpos := hI.capacity_pos
  have hload := hI.load
  obtain ⟨hm₁, hrun, hT₁, hkind, hcap, hnum⟩ :=
    hashMapStore_spec hk hI.toTableInv (by omega) key value
  have hle : hm₁.numElements ≤ hm.numElements + 1 := by
    rw [hnum]
    split_ifs <;> omega
  have hfits := four_mul_capacity_lt hT₁.fits
  have h32 : u32 (hm₁.numElements * 2) = hm₁.numElements * 2 := u32_of_lt (by omega)
  refine ⟨hm₁, hT₁, hkind, hcap, ?_⟩
  unfold hashMapPut growDepth hashMapPutNested
  rw [hrun, ok_bind, h32, hcap]
  by_cases hgrow : hm₁.numElements * 2 > hm.capacity
  · rw [if_pos hgrow]
    refine .inr ⟨?_, by omega, rfl⟩
    cases hm' : m key with
    | none => rfl
    | some v =>
      rw [hm'] at hnum
      have hsame : hm₁.numElements = hm.numElements := hnum
      omega
  · rw [if_neg hgrow]
    refine .inl ⟨rfl, not_lt.mp hgrow, fun hm' => ?_⟩
    rw [hm'] at hnum
    have hmore : hm₁.numElements = hm.numElements + 1 := hnum
    omega

theorem hashMapPut_spec (hk : KeyEquiv hm.keyCompareFunc hm.keyHashFunc) (hI : HashMapInv hm m)
    (key : K) (value : V) (hfits : hm.PutFits key) :
    ∃ hm', hashMapPut hm key value = .ok (0, hm') ∧
      HashMapInv hm' (m.put hm.keyCompareFunc key value) ∧ SameKind hm hm' := by
  have hpos := hI.capacity_pos
  have hload := hI.load
  obtain ⟨hm₁, hT₁, hkind, hcap, ⟨hrun, hle, -⟩ | ⟨hnew, hfull, hrun⟩⟩ :=
    hashMapPut_eq hk hI key value
  · exact ⟨hm₁, hrun, ⟨hT₁, by omega⟩, hkind⟩
  · have hget := hashMapGet_spec hk hI.toTableInv (by omega) key
    rw [hnew] at hget
    have hgrown := hfits hget hfull
    obtain ⟨hm₂, hgrow, hI₂, hkind₂, -⟩ := hashMapGrow_spec 0
      (by rw [hkind.compare, hkind.hash]; exact hk) hT₁
      (by rw [hcap, hkind.keySize, hkind.valueSize]; exact hgrown)
    rw [hgrow] at hrun
    exact ⟨hm₂, hrun, hI₂, hkind.trans hkind₂⟩

/-! ## Deletion -/

/-- An entry may fill the gap `g` if its home is not after the gap on the way to its slot `p`. -/
def Near (hm : HashMap K V) (e : K × V) (g p : ℕ) : Prop :=
  Probing.dist hm.capacity (hm.entryHome e) g ≤ Probing.dist hm.capacity (hm.entryHome e) p

/-- The loop of `adjust_gap`: between the gap and the next empty slot `q` it moves the entries that
may fill the gap. What both of its steps keep holds at the end. -/
theorem adjustGapLoop_rule {I : (ℕ → Option (K × V)) → ℕ → ℕ → Prop} (hpos : 0 < hm.capacity)
    (hfits : hm.Fits) {q : ℕ} (hq : q < hm.capacity)
    (hskip : ∀ {data : ℕ → Option (K × V)} {g p : ℕ} {e : K × V}, g < hm.capacity →
      p < hm.capacity → data p = some e → I data g p → ¬ Near hm e g p →
      I data g ((p + 1) % hm.capacity))
    (hmove : ∀ {data : ℕ → Option (K × V)} {g p : ℕ} {e : K × V}, p < hm.capacity →
      data p = some e → I data g p → Near hm e g p →
      I (Function.update (Function.update data p none) g (some e)) p ((p + 1) % hm.capacity)) :
    ∀ {fuel : ℕ} {data : ℕ → Option (K × V)} {g p : ℕ}, g < hm.capacity → p < hm.capacity →
      data g = none → I data g p → data q = none →
      Probing.dist hm.capacity p q < Probing.dist hm.capacity p g →
      Probing.dist hm.capacity p q < fuel →
      ∃ data' g' p', adjustGapLoop fuel { hm with data := data } g p =
          .ok { hm with data := data' } ∧
        (g' < hm.capacity ∧ p' < hm.capacity ∧ p' ≠ g' ∧ data' p' = none ∧ I data' g' p') ∧
        (entries hm.capacity data').Perm (entries hm.capacity data)
  | 0, data, g, p, _, _, _, _, _, _, hfuel => absurd hfuel (Nat.not_lt_zero _)
  | fuel + 1, data, g, p, hg, hp, hgap, hI, hnone, hbefore, hfuel => by
    have hpg : p ≠ g := by
      rintro rfl
      rw [dist_self] at hbefore
      omega
    have hslot : hashMapSlot { hm with data := data } p = .ok (data p) :=
      @HashMap.Fits.slot K V { hm with data := data } p hfits hp
    unfold adjustGapLoop
    rw [hslot, ok_bind]
    cases hd : data p with
    | none => exact ⟨data, g, p, rfl, ⟨hg, hp, hpg, hd, hI⟩, .refl _⟩
    | some e =>
      obtain ⟨k, v⟩ := e
      have hpq : p ≠ q := by
        rintro rfl
        rw [hd] at hnone
        cases hnone
      have hqg : q ≠ g := by
        rintro rfl
        omega
      have hh := HashMap.home_lt hpos k
      have hsucc := succ_mod_lt hp
      have hstep := dist_succ_left hp hq hpq
      have hnorm : ((if g < hm.home k then g + hm.capacity else g) ≥ hm.home k ∧
          (if g < hm.home k then g + hm.capacity else g) ≤
            if p < hm.home k then p + hm.capacity else p) ↔ Near hm (k, v) g p := by
        unfold Near HashMap.entryHome Probing.dist
        dsimp only
        split_ifs <;> omega
      have hhome : ∀ d : ℕ → Option (K × V), HashMap.home { hm with data := d } k = hm.home k :=
        fun _ => rfl
      have hfill : ∀ d : ℕ → Option (K × V), hashMapFill { hm with data := d } g k v =
          .ok { hm with data := Function.update d g (some (k, v)) } := fun d =>
        @HashMap.Fits.fill K V { hm with data := d } g k v hfits hg
      dsimp only
      rw [hhome]
      by_cases hnear : Near hm (k, v) g p
      · rw [if_pos (hnorm.mpr hnear), hfill, ok_bind]
        have hp' : Function.update (Function.update data p none) g (some (k, v)) p = none := by
          rw [Function.update_of_ne hpg, Function.update_self]
        have hq' : Function.update (Function.update data p none) g (some (k, v)) q = none := by
          rw [Function.update_of_ne hqg, Function.update_of_ne (Ne.symm hpq), hnone]
        have hback : Probing.dist hm.capacity ((p + 1) % hm.capacity) q <
            Probing.dist hm.capacity ((p + 1) % hm.capacity) p := dist_succ_lt hp hq hpq
        obtain ⟨data', g', p', hrun, hend, hperm⟩ :=
          adjustGapLoop_rule hpos hfits hq hskip hmove hp hsucc hp' (hmove hp hd hI hnear) hq' hback
            (show Probing.dist hm.capacity ((p + 1) % hm.capacity) q < fuel by omega)
        exact ⟨data', g', p', hrun, hend, hperm.trans (entries_move hp hg hd hgap)⟩
      · rw [if_neg (mt hnorm.mp hnear)]
        have hgstep := dist_succ_left hp hg hpg
        exact adjustGapLoop_rule hpos hfits hq hskip hmove hg hsucc hgap (hskip hg hp hd hI hnear)
          hnone (by omega) (by omega)

/-- After `adjust_gap` every entry can be reached again. -/
theorem adjustGapLoop_spec (hpos : 0 < hm.capacity) (hfits : hm.Fits) {q : ℕ}
    (hq : q < hm.capacity) {fuel : ℕ} {data : ℕ → Option (K × V)} {g p : ℕ} (hg : g < hm.capacity)
    (hp : p < hm.capacity)
    (hgap : Gapped hm.capacity hm.entryHome data g p) (hnone : data q = none)
    (hbefore : Probing.dist hm.capacity p q < Probing.dist hm.capacity p g)
    (hfuel : Probing.dist hm.capacity p q < fuel) :
    ∃ data', adjustGapLoop fuel { hm with data := data } g p = .ok { hm with data := data' } ∧
      Reach hm.capacity hm.entryHome data' ∧
      (entries hm.capacity data').Perm (entries hm.capacity data) := by
  obtain ⟨data', g', p', hrun, ⟨hg', hp', hpg', hnone', hgap'⟩, hperm⟩ :=
    adjustGapLoop_rule (I := Gapped hm.capacity hm.entryHome) hpos hfits hq
      (fun hg hp hx hI hfar => hI.skip hg hp hx hfar) (fun hp hx hI hnear => hI.move hp hx hnear)
      hg hp hgap.gap hgap hnone hbefore hfuel
  exact ⟨data', hrun, hgap'.reach_of_none hg' hp' (fun e => HashMap.home_lt hpos e.1) hpg' hnone',
    hperm⟩

theorem hashMapDelete_spec (hk : KeyEquiv hm.keyCompareFunc hm.keyHashFunc) (hI : HashMapInv hm m)
    (key : K) :
    ∃ hm', hashMapDelete hm key = .ok (if (m key).isSome then 0 else -1, hm') ∧
      HashMapInv hm' (m.delete hm.keyCompareFunc key) ∧ SameKind hm hm' := by
  have hpos := hI.capacity_pos
  have hload := hI.load
  obtain ⟨p, hrun, hp, -, ⟨hd, hm'⟩ | ⟨e, hd, hc⟩⟩ :=
    hashMapProbe_spec hk hI.toTableInv (by omega) key
  · refine ⟨hm, ?_, ?_, ⟨rfl, rfl, rfl, rfl⟩⟩
    · unfold hashMapDelete
      rw [hrun, ok_bind, hd, hm']
      rfl
    · rw [hI.stores.delete_of_none hk hm']
      exact hI
  · have hm' : m key = some e.2 :=
      (hI.stores.lookup key e.2).mpr ⟨e, mem_entries.mpr ⟨p, hp, hd⟩, hc, rfl⟩
    have hold := entries_of_some hp hd
    have hcount : hm.numElements = (entries hm.capacity
        (Function.update hm.data p none)).length + 1 := hI.count.trans hold.length_eq
    -- another slot is empty
    obtain ⟨q, hq, hqp, hqnone⟩ : ∃ q < hm.capacity, q ≠ p ∧ hm.data q = none := by
      obtain ⟨q, hq, hqnone⟩ := @exists_none _ hm.capacity hm.data
        (lt_of_eq_of_lt hI.count.symm (by omega))
      refine ⟨q, hq, ?_, hqnone⟩
      rintro rfl
      rw [hqnone] at hd
      cases hd
    have hgap := hI.reach.gapped hp (by omega)
    have hq' : Function.update hm.data p none q = none := by
      rw [Function.update_of_ne hqp, hqnone]
    have hsucc := succ_mod_lt hp
    have hback := dist_succ_lt hp hq (Ne.symm hqp)
    obtain ⟨data', hrun', hreach, hperm⟩ :=
      adjustGapLoop_spec hpos hI.fits hq hp hsucc hgap hq' hback (dist_lt hsucc hq)
    have hstores := ((hI.stores.perm hk hold).tail hk hc).perm hk hperm.symm
    have hnum : u32Sub hm.numElements 1 = hm.numElements - 1 := by
      have hfits := four_mul_capacity_lt hI.fits
      exact u32Sub_of_le (by omega) (by omega)
    refine ⟨{ hm with data := data', numElements := hm.numElements - 1 }, ?_,
      ⟨⟨hpos, hI.fits, hreach, ?_, hstores⟩, ?_⟩, ⟨rfl, rfl, rfl, rfl⟩⟩
    · unfold hashMapDelete
      rw [hrun, ok_bind, hd, hm']
      unfold adjustGap
      dsimp only
      rw [hrun', ok_bind, hnum]
      rfl
    · show hm.numElements - 1 = (entries hm.capacity data').length
      rw [hperm.length_eq]
      omega
    · show (hm.numElements - 1) * 2 ≤ hm.capacity
      omega

end

/-- File descriptors: the keys of `process.c`, which compares and hashes them as numbers. -/
theorem keyEquiv_descriptor : KeyEquiv (fun a b : ℕ => a == b) id where
  refl := fun a => beq_self_eq_true a
  symm := fun h => by rwa [BEq.comm]
  trans := fun h h' => by
    rw [beq_iff_eq] at *
    exact h.trans h'
  hash_eq := fun h => beq_iff_eq.mp h

end RawOS
