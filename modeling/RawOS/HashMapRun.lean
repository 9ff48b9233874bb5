import RawOS.HashMapSpec

/-!
# Runs of a hash map

`hashMap_refines`: a map that is created and then used answers as a finite map does, for as long as
the tables that it needs are smaller than 2^32 bytes. The first larger one is allocated with too few
bytes, and the map is lost.
-/

namespace RawOS

open Probing

variable {K V : Type}

/-! ## Calls -/

/-- A call on the map. -/
inductive MapOp (K V : Type) where
  | put (key : K) (value : V)
  | get (key : K)
  | delete (key : K)

/-- The map after a call, with what the call returns: its status, and the value it copies. -/
def HashMap.exec (hm : HashMap K V) : MapOp K V → Except Panic ((ℤ × Option V) × HashMap K V)
  | .put key value => do
    let (status, hm) ← hashMapPut hm key value
    return ((status, none), hm)
  | .get key => do
    let (status, value) ← hashMapGet hm key
    return ((status, value), hm)
  | .delete key => do
    let (status, hm) ← hashMapDelete hm key
    return ((status, none), hm)

/-- What a finite map answers. -/
def MapSpec.exec (cmp : K → K → Bool) (m : MapSpec K V) : MapOp K V → (ℤ × Option V) × MapSpec K V
  | .put key value => ((0, none), m.put cmp key value)
  | .get key => ((if (m key).isSome then 0 else -1, m key), m)
  | .delete key => ((if (m key).isSome then 0 else -1, none), m.delete cmp key)

/-- The entries of the table are those of the finite map, each key once: `num_elements` counts
them, and `hash_map_for_each_entry` visits them. -/
structure Represents (hm : HashMap K V) (m : MapSpec K V) : Prop where
  stores : Stores hm.keyCompareFunc hm.entries m
  numElements : hm.numElements = hm.entries.length
  forEach : ∀ {D : Type} (f : K → V → D → D) (d : D),
    hashMapForEachEntry hm f d = .ok (hm.entries.foldl (fun d e => f e.1 e.2 d) d)

/-- A call returns what the finite map answers, and the two still agree. -/
def Answers (hm : HashMap K V) (m : MapSpec K V) (op : MapOp K V) : Prop :=
  ∃ hm', hm.exec op = .ok ((m.exec hm.keyCompareFunc op).1, hm') ∧
    Represents hm' (m.exec hm.keyCompareFunc op).2

/-- Where a call puts a new key into a table that is half full, one of twice as many slots has less
than 2^32 bytes. -/
def MapOp.Fits (hm : HashMap K V) (m : MapSpec K V) : MapOp K V → Prop
  | .put key _ => m key = none → hm.capacity < (hm.numElements + 1) * 2 →
    tableBytes (hm.capacity * 2) hm.keySize hm.valueSize < 4294967296
  | _ => True

/-- A map that is created and then used, with the finite map of the same calls. -/
inductive MapRun (cmp : K → K → Bool) (hash : K → ℕ) : HashMap K V → MapSpec K V → Prop where
  | create {initialCapacity keySize valueSize : ℕ} :
    tableBytes (tableCapacity initialCapacity) keySize valueSize < 4294967296 →
    MapRun cmp hash (hashMapCreate initialCapacity keySize valueSize cmp hash).2 MapSpec.empty
  | call {hm hm' : HashMap K V} {m : MapSpec K V} {op : MapOp K V} {out : ℤ × Option V} :
    MapRun cmp hash hm m → op.Fits hm m → hm.exec op = .ok (out, hm') →
    MapRun cmp hash hm' (m.exec cmp op).2

section

variable {hm hm' old : HashMap K V} {m : MapSpec K V} {cmp : K → K → Bool} {hash : K → ℕ}
  {key : K} {value : V} {status : ℤ} {n : ℕ}

/-! ## Tables that fit -/

theorem hashMapForEachLoop_eq {D : Type} (hfits : hm.Fits) (f : K → V → D → D) (d : D) :
    ∀ {n : ℕ}, n ≤ hm.capacity → hashMapForEachLoop hm f d n =
      .ok ((entries n hm.data).foldl (fun d e => f e.1 e.2 d) d)
  | 0, _ => rfl
  | n + 1, hn => by
    unfold hashMapForEachLoop
    rw [hashMapForEachLoop_eq hfits f d (Nat.le_of_succ_le hn), ok_bind, hfits.slot hn, ok_bind,
      entries_succ, List.foldl_append]
    cases hm.data n <;> rfl

theorem HashMapInv.represents (hI : HashMapInv hm m) : Represents hm m :=
  ⟨hI.stores, hI.count, fun f d => hashMapForEachLoop_eq hI.fits f d le_rfl⟩

theorem MapOp.Fits.putFits (hk : KeyEquiv hm.keyCompareFunc hm.keyHashFunc) (hI : HashMapInv hm m)
    (hfits : (MapOp.put key value).Fits hm m) : hm.PutFits key := by
  intro hget hfull
  have hpos := hI.capacity_pos
  have hload := hI.load
  rw [hashMapGet_spec hk hI.toTableInv (by omega) key] at hget
  exact hfits (congrArg Prod.snd (Except.ok.inj hget)) hfull

/-- A call that fits answers as the finite map does. -/
theorem exec_refines (hk : KeyEquiv hm.keyCompareFunc hm.keyHashFunc) (hI : HashMapInv hm m)
    {op : MapOp K V} (hfits : op.Fits hm m) :
    ∃ hm', hm.exec op = .ok ((m.exec hm.keyCompareFunc op).1, hm') ∧
      HashMapInv hm' (m.exec hm.keyCompareFunc op).2 ∧ SameKind hm hm' := by
  have hpos := hI.capacity_pos
  have hload := hI.load
  unfold HashMap.exec
  cases op with
  | put key value =>
    obtain ⟨hm', hrun, hI', hkind⟩ := hashMapPut_spec hk hI key value (hfits.putFits hk hI)
    exact ⟨hm', by dsimp only; rw [hrun]; rfl, hI', hkind⟩
  | get key =>
    refine ⟨hm, ?_, hI, ⟨rfl, rfl, rfl, rfl⟩⟩
    dsimp only
    rw [hashMapGet_spec hk hI.toTableInv (by omega) key]
    rfl
  | delete key =>
    obtain ⟨hm', hrun, hI', hkind⟩ := hashMapDelete_spec hk hI key
    exact ⟨hm', by dsimp only; rw [hrun]; rfl, hI', hkind⟩

/-! ## Tables that do not fit -/

/-- The last slot of a table that does not fit lies outside its bytes. -/
theorem HashMap.last_slot (hfits : ¬ hm.Fits)
    (helem : elementBytes hm.keySize hm.valueSize < 4294967296) :
    0 < hm.capacity ∧ hashMapSlot hm (hm.capacity - 1) = .error outsideTable := by
  unfold Fits tableBytes at hfits
  have hpos : 0 < hm.capacity := by
    rcases Nat.eq_zero_or_pos hm.capacity with h0 | hpos
    · rw [h0, Nat.zero_mul] at hfits
      omega
    · exact hpos
  refine ⟨hpos, if_neg ?_⟩
  obtain ⟨n, hn⟩ := Nat.exists_eq_succ_of_ne_zero hpos.ne'
  unfold allocated tableBytes u32
  rw [hn] at hfits ⊢
  rw [Nat.succ_mul] at hfits ⊢
  rw [Nat.succ_sub_one]
  generalize n * elementBytes hm.keySize hm.valueSize = start at *
  omega

/-- Only a table that fits is visited to its end. -/
theorem Represents.fits (h : Represents hm m)
    (helem : elementBytes hm.keySize hm.valueSize < 4294967296) : hm.Fits := by
  by_contra hfits
  obtain ⟨hpos, hlast⟩ := HashMap.last_slot hfits helem
  obtain ⟨n, hn⟩ := Nat.exists_eq_succ_of_ne_zero hpos.ne'
  have hrun := h.forEach (fun _ _ d => d) ()
  unfold hashMapForEachEntry at hrun
  rw [hn, Nat.succ_sub_one] at hlast
  rw [hn] at hrun
  unfold hashMapForEachLoop at hrun
  rw [hlast] at hrun
  cases hloop : hashMapForEachLoop hm (fun _ _ d => d) () n with
  | error e => rw [hloop] at hrun; cases hrun
  | ok d => rw [hloop] at hrun; cases hrun

/-- What a put that returns keeps, whatever table it works on. -/
theorem hashMapPutNested_kept {fuel : ℕ} (hload : (hm.numElements + 1) * 2 ≤ hm.capacity)
    (hrun : hashMapPutNested (fuel + 1) hm key value = .ok (status, hm')) :
    SameKind hm hm' ∧ hm'.capacity = hm.capacity ∧ hm'.numElements ≤ hm.numElements + 1 := by
  unfold hashMapPutNested at hrun
  obtain ⟨hm₁, hstore, hrun⟩ := bind_eq_ok.mp hrun
  have hkept : SameKind hm hm₁ ∧ hm₁.capacity = hm.capacity ∧
      hm₁.numElements ≤ hm.numElements + 1 := by
    unfold hashMapStore at hstore
    obtain ⟨p, -, hstore⟩ := bind_eq_ok.mp hstore
    obtain ⟨filled, hfill, hstore⟩ := bind_eq_ok.mp hstore
    unfold hashMapFill at hfill
    split_ifs at hfill
    cases hfill
    cases hd : hm.data p with
    | none =>
      rw [hd] at hstore
      cases hstore
      exact ⟨⟨rfl, rfl, rfl, rfl⟩, rfl, Nat.mod_le _ _⟩
    | some e =>
      rw [hd] at hstore
      cases hstore
      exact ⟨⟨rfl, rfl, rfl, rfl⟩, rfl, Nat.le_succ _⟩
  have hsmall : ¬ u32 (hm₁.numElements * 2) > hm₁.capacity := by
    have : u32 (hm₁.numElements * 2) ≤ hm₁.numElements * 2 := Nat.mod_le _ _
    omega
  rw [if_neg hsmall] at hrun
  cases hrun
  exact hkept

theorem hashMapRehash_kept {fuel : ℕ} (hnum : hm.numElements = 0) :
    ∀ {n : ℕ} {status : ℤ} {hm' : HashMap K V}, n * 2 ≤ hm.capacity →
      hashMapRehash (hashMapPutNested (fuel + 1)) old hm n = .ok (status, hm') →
      SameKind hm hm' ∧ hm'.capacity = hm.capacity ∧ hm'.numElements ≤ n
  | 0, status, hm', _, hrun => by
    cases hrun
    exact ⟨⟨rfl, rfl, rfl, rfl⟩, rfl, hnum.le⟩
  | n + 1, status, hm', hroom, hrun => by
    unfold hashMapRehash at hrun
    obtain ⟨⟨status₁, hm₁⟩, hrun₁, hrun⟩ := bind_eq_ok.mp hrun
    have hroom' : n * 2 ≤ hm.capacity := by omega
    obtain ⟨hkind, hcap, hle⟩ := hashMapRehash_kept hnum hroom' hrun₁
    dsimp only at hrun
    split_ifs at hrun
    · cases hrun
      exact ⟨hkind, hcap, Nat.le_succ_of_le hle⟩
    obtain ⟨slot, -, hrun⟩ := bind_eq_ok.mp hrun
    cases slot with
    | none =>
      cases hrun
      exact ⟨hkind, hcap, Nat.le_succ_of_le hle⟩
    | some e =>
      obtain ⟨⟨status₂, hm₂⟩, hput, hrun⟩ := bind_eq_ok.mp hrun
      cases hrun
      have hroom₁ : (hm₁.numElements + 1) * 2 ≤ hm₁.capacity := by omega
      obtain ⟨hkind', hcap', hle'⟩ := hashMapPutNested_kept hroom₁ hput
      exact ⟨hkind.trans hkind', hcap'.trans hcap, hle'.trans (Nat.succ_le_succ hle)⟩

/-- A growth that returns has a table of twice as many slots. -/
theorem hashMapGrow_kept {fuel : ℕ} (hpos : 0 < hm.capacity) (hcap : hm.capacity * 4 < 4294967296)
    (hrun : hashMapGrow (hashMapPutNested (fuel + 1)) hm = .ok (status, hm')) :
    SameKind hm hm' ∧ hm'.capacity = hm.capacity * 2 := by
  have hnew : tableCapacity (u32 (hm.capacity * 2)) = hm.capacity * 2 := by
    rw [u32_of_lt (by omega)]
    exact if_pos (by omega)
  obtain ⟨hkind, hcap', -⟩ := @hashMapRehash_kept K V (hashMapCreate (u32 (hm.capacity * 2))
    hm.keySize hm.valueSize hm.keyCompareFunc hm.keyHashFunc).2 hm fuel rfl hm.capacity status hm'
    (le_of_eq hnew.symm) hrun
  exact ⟨⟨hkind.keySize, hkind.valueSize, hkind.compare, hkind.hash⟩, hcap'.trans hnew⟩

/-- A call that does not fit loses the map. -/
theorem Answers.fits (hk : KeyEquiv hm.keyCompareFunc hm.keyHashFunc) (hI : HashMapInv hm m)
    {op : MapOp K V} (h : Answers hm m op) : op.Fits hm m := by
  have hpos := hI.capacity_pos
  have hload := hI.load
  have helem : elementBytes hm.keySize hm.valueSize < 4294967296 :=
    lt_of_le_of_lt (Nat.le_mul_of_pos_left _ hpos) hI.fits
  cases op with
  | get key => trivial
  | delete key => trivial
  | put key value =>
    intro hnew hfull
    obtain ⟨hm', hrun, hrep⟩ := h
    unfold HashMap.exec at hrun
    obtain ⟨⟨status, hm₂⟩, hput, hrun⟩ := bind_eq_ok.mp hrun
    obtain rfl : hm₂ = hm' := congrArg Prod.snd (Except.ok.inj hrun)
    obtain ⟨hm₁, hT₁, hkind, hcap, ⟨-, -, hroom⟩ | ⟨-, -, hgrow⟩⟩ := hashMapPut_eq hk hI key value
    · exact absurd (hroom hnew) (not_le.mpr hfull)
    · rw [hgrow] at hput
      obtain ⟨⟨status', hm₃⟩, hgrown, hput⟩ := bind_eq_ok.mp hput
      obtain rfl : hm₃ = hm₂ := congrArg Prod.snd (Except.ok.inj hput)
      obtain ⟨hkind₂, hcap₂⟩ := hashMapGrow_kept hT₁.capacity_pos (four_mul_capacity_lt hT₁.fits) hgrown
      have hkind' := hkind.trans hkind₂
      have hfits := hrep.fits (by rw [hkind'.keySize, hkind'.valueSize]; exact helem)
      unfold HashMap.Fits at hfits
      rwa [hcap₂, hcap, hkind'.keySize, hkind'.valueSize] at hfits

/-! ## Runs -/

theorem MapRun.inv (hk : KeyEquiv cmp hash) (h : MapRun cmp hash hm m) :
    HashMapInv hm m ∧ hm.keyCompareFunc = cmp ∧ hm.keyHashFunc = hash := by
  induction h with
  | create hfits => exact ⟨hashMapCreate_inv cmp hash hfits, rfl, rfl⟩
  | @call hm hm' m op out _ hfits hrun ih =>
    obtain ⟨hI, hcmp, hhash⟩ := ih
    obtain ⟨hm₁, hrun₁, hI₁, hkind⟩ := exec_refines (by rwa [hcmp, hhash]) hI hfits
    rw [hrun₁] at hrun
    obtain rfl : hm₁ = hm' := congrArg Prod.snd (Except.ok.inj hrun)
    rw [hcmp] at hI₁
    exact ⟨hI₁, hkind.compare.trans hcmp, hkind.hash.trans hhash⟩

/-- A new map is empty if its table fits. After it the map represents the finite map of the calls,
at most half full, and the next call answers as the finite map does exactly if it fits. -/
theorem hashMap_refines (hk : KeyEquiv cmp hash) :
    (∀ initialCapacity keySize valueSize, elementBytes keySize valueSize < 4294967296 →
      (Represents (hashMapCreate initialCapacity keySize valueSize cmp hash).2
          (MapSpec.empty : MapSpec K V) ↔
        tableBytes (tableCapacity initialCapacity) keySize valueSize < 4294967296)) ∧
    ∀ (hm : HashMap K V) (m : MapSpec K V), MapRun cmp hash hm m →
      hm.keyCompareFunc = cmp ∧ Represents hm m ∧ ∀ op, Answers hm m op ↔ op.Fits hm m := by
  refine ⟨fun initialCapacity keySize valueSize helem => ⟨fun h => h.fits helem, fun hfits => ?_⟩,
    fun hm m h => ?_⟩
  · exact (hashMapCreate_inv cmp hash hfits).represents
  · obtain ⟨hI, rfl, rfl⟩ := h.inv hk
    refine ⟨rfl, hI.represents, fun op => ⟨fun h => h.fits hk hI, fun hfits => ?_⟩⟩
    obtain ⟨hm', hrun, hI', -⟩ := exec_refines hk hI hfits
    exact ⟨hm', hrun, hI'.represents⟩

/-- Two keys with the same hash: each of the two puts makes the table grow. -/
theorem hashMap_refines_collision :
    ∃ (hm : HashMap ℕ ℕ) (m : MapSpec ℕ ℕ), MapRun (fun a b => a == b) (fun _ => 7) hm m ∧
      hm.capacity = 4 ∧ m 3 = some 30 ∧ m 5 = some 50 ∧ Represents hm m ∧
      Answers hm m (.delete 3) := by
  have hk : KeyEquiv (fun a b : ℕ => a == b) fun _ => 7 :=
    { keyEquiv_descriptor with hash_eq := fun _ => rfl }
  have hcreate : MapRun (fun a b : ℕ => a == b) (fun _ => 7)
      (hashMapCreate 0 4 4 (fun a b => a == b) fun _ => 7).2 (MapSpec.empty : MapSpec ℕ ℕ) :=
    .create (by decide)
  have hfirst := hcreate.call (show (MapOp.put 3 30).Fits _ _ from fun _ _ => by decide) rfl
  have hrun := hfirst.call (show (MapOp.put 5 50).Fits _ _ from fun _ _ => by decide) rfl
  obtain ⟨-, hrep, hans⟩ := (hashMap_refines hk).2 _ _ hrun
  exact ⟨_, _, hrun, rfl, rfl, rfl, hrep, (hans (.delete 3)).mpr trivial⟩

/-- The bytes of 357913942 slots are 8 after the wrap. The map is created, and its first put works
outside them. -/
theorem not_answers_wrapped :
    KeyEquiv (fun a b : ℕ => a == b) id ∧ ∃ hm : HashMap ℕ ℕ,
      hashMapCreate 357913942 4 4 (fun a b => a == b) id = (0, hm) ∧ hm.allocated = 8 ∧
      hm.exec (.put 3 30) = .error outsideTable ∧ ¬ Answers hm MapSpec.empty (.put 3 30) := by
  refine ⟨keyEquiv_descriptor, _, rfl, by decide, rfl, ?_⟩
  rintro ⟨hm', hrun, -⟩
  cases hrun

end

end RawOS
