import RawOS.Util
import Mathlib.Logic.Function.Basic

/-!
# `hash_map.h`

A hash map with linear probing over keys `K` and values `V`. A slot is `none` where its `valid` is
0, and otherwise holds the key and the value that were copied into it. The size of a table is
computed in 32 bits, so there may be slots for which no bytes were allocated.
-/

namespace RawOS

/-- `Hash_Map`. -/
structure HashMap (K V : Type) where
  capacity : ℕ
  numElements : ℕ
  keySize : ℕ
  valueSize : ℕ
  keyCompareFunc : K → K → Bool
  keyHashFunc : K → ℕ
  data : ℕ → Option (K × V)

/-- `sizeof(Hash_Map_Element_Information)`. -/
def sizeofElementInformation : ℕ := 4

variable {K V : Type}

/-- The bytes of a slot. -/
def elementBytes (keySize valueSize : ℕ) : ℕ := sizeofElementInformation + keySize + valueSize

/-- The bytes of a table. -/
def tableBytes (capacity keySize valueSize : ℕ) : ℕ := capacity * elementBytes keySize valueSize

/-- A table that fits has fewer slots than a quarter of the memory. -/
theorem four_mul_capacity_lt {capacity keySize valueSize : ℕ}
    (h : tableBytes capacity keySize valueSize < 4294967296) : capacity * 4 < 4294967296 := by
  unfold tableBytes elementBytes sizeofElementInformation at h
  have := Nat.mul_le_mul_left capacity (show 4 ≤ 4 + keySize + valueSize by omega)
  omega

/-- The capacity that `hash_map_create` sets. -/
def tableCapacity (initialCapacity : ℕ) : ℕ := if initialCapacity > 0 then initialCapacity else 1

/-- `hash_map_create`. `kalloc_alloc` returns no null pointer, so the status is 0. -/
def hashMapCreate (initialCapacity keySize valueSize : ℕ) (keyCompareFunc : K → K → Bool)
    (keyHashFunc : K → ℕ) : ℤ × HashMap K V :=
  (0, { capacity := tableCapacity initialCapacity, numElements := 0, keySize := keySize,
        valueSize := valueSize, keyCompareFunc := keyCompareFunc, keyHashFunc := keyHashFunc,
        data := fun _ => none })

/-- The bytes that `hash_map_create` asked for and cleared. -/
def HashMap.allocated (hm : HashMap K V) : ℕ :=
  u32 (tableBytes hm.capacity hm.keySize hm.valueSize)

/-- A slot is used that does not lie in the bytes of the table. -/
def outsideTable : Panic := .undefined "hash_map: a slot outside the bytes of the table"

/-- The slot at `pos`, of which `valid` is read and, where it is set, the rest. -/
def hashMapSlot (hm : HashMap K V) (pos : ℕ) : Except Panic (Option (K × V)) :=
  if pos * elementBytes hm.keySize hm.valueSize + sizeofElementInformation ≤ hm.allocated then
    .ok (hm.data pos)
  else .error outsideTable

/-- `put_element_key` and `put_element_value` on a slot that becomes valid. -/
def hashMapFill (hm : HashMap K V) (pos : ℕ) (key : K) (value : V) : Except Panic (HashMap K V) :=
  if (pos + 1) * elementBytes hm.keySize hm.valueSize ≤ hm.allocated then
    .ok { hm with data := Function.update hm.data pos (some (key, value)) }
  else .error outsideTable

/-- The bytes of the table are a number of 32 bits. -/
def HashMap.Fits (hm : HashMap K V) : Prop :=
  tableBytes hm.capacity hm.keySize hm.valueSize < 4294967296

section

variable {hm : HashMap K V} {pos : ℕ} {key : K} {value : V}

/-- All slots of a table that fits lie in its bytes. -/
theorem HashMap.Fits.inside (h : hm.Fits) (hp : pos < hm.capacity) :
    (pos + 1) * elementBytes hm.keySize hm.valueSize ≤ hm.allocated := by
  unfold allocated
  rw [u32_of_lt h]
  exact Nat.mul_le_mul_right _ hp

theorem HashMap.Fits.slot (h : hm.Fits) (hp : pos < hm.capacity) :
    hashMapSlot hm pos = .ok (hm.data pos) := by
  have hin := h.inside hp
  have hle : sizeofElementInformation ≤ elementBytes hm.keySize hm.valueSize :=
    Nat.le_trans (Nat.le_add_right _ _) (Nat.le_add_right _ _)
  rw [Nat.succ_mul] at hin
  exact if_pos (Nat.le_trans (Nat.add_le_add_left hle _) hin)

theorem HashMap.Fits.fill (h : hm.Fits) (hp : pos < hm.capacity) : hashMapFill hm pos key value =
    .ok { hm with data := Function.update hm.data pos (some (key, value)) } :=
  if_pos (h.inside hp)

end

/-- The loop of `hash_map_put`, `hash_map_get` and `hash_map_delete`: the first slot from `pos` on
that is not valid or holds the key. -/
def hashMapProbe (hm : HashMap K V) (key : K) : ℕ → ℕ → Except Panic ℕ
  | 0, _ => .error .outOfFuel
  | fuel + 1, pos => do
    match ← hashMapSlot hm pos with
    | none => return pos
    | some (elementKey, _) =>
      if hm.keyCompareFunc elementKey key then return pos
      else hashMapProbe hm key fuel ((pos + 1) % hm.capacity)

/-- `key_hash_func(key) % capacity`. -/
def HashMap.home (hm : HashMap K V) (key : K) : ℕ := hm.keyHashFunc key % hm.capacity

/-- `hash_map_put` up to the growth. -/
def hashMapStore (hm : HashMap K V) (key : K) (value : V) : Except Panic (HashMap K V) := do
  let pos ← hashMapProbe hm key hm.capacity (hm.home key)
  let filled ← hashMapFill hm pos key value
  match hm.data pos with
  | none => return { filled with numElements := u32 (hm.numElements + 1) }
  | some _ => return filled

/-- The loop of `hash_map_grow` over the first `n` slots of the old map, with `put` for
`hash_map_put`. -/
def hashMapRehash (put : HashMap K V → K → V → Except Panic (ℤ × HashMap K V))
    (oldHm hm : HashMap K V) : ℕ → Except Panic (ℤ × HashMap K V)
  | 0 => .ok (0, hm)
  | n + 1 => do
    let (status, hm) ← hashMapRehash put oldHm hm n
    if status ≠ 0 then return (status, hm)
    match ← hashMapSlot oldHm n with
    | none => return (0, hm)
    | some (key, value) =>
      let (status, hm) ← put hm key value
      return (if status ≠ 0 then -1 else 0, hm)

/-- `hash_map_grow`, with `put` for `hash_map_put`. -/
def hashMapGrow (put : HashMap K V → K → V → Except Panic (ℤ × HashMap K V))
    (oldHm : HashMap K V) : Except Panic (ℤ × HashMap K V) := do
  let (status, hm) := hashMapCreate (u32 (oldHm.capacity * 2)) oldHm.keySize oldHm.valueSize
    oldHm.keyCompareFunc oldHm.keyHashFunc
  if status ≠ 0 then return (-1, hm)
  hashMapRehash put oldHm hm oldHm.capacity

/-- `hash_map_put`, which `hash_map_grow` calls again, down to depth `fuel`. -/
def hashMapPutNested : ℕ → HashMap K V → K → V → Except Panic (ℤ × HashMap K V)
  | 0, _, _, _ => .error .outOfFuel
  | fuel + 1, hm, key, value => do
    let hm ← hashMapStore hm key value
    if u32 (hm.numElements * 2) > hm.capacity then
      let (status, hm) ← hashMapGrow (hashMapPutNested fuel) hm
      return (if status ≠ 0 then -1 else 0, hm)
    else return (0, hm)

/-- A growth puts each element once, and these do not grow the map again. -/
def growDepth : ℕ := 2

def hashMapPut (hm : HashMap K V) (key : K) (value : V) : Except Panic (ℤ × HashMap K V) :=
  hashMapPutNested growDepth hm key value

/-- `hash_map_get`: the status, and the value that is copied where it is 0. -/
def hashMapGet (hm : HashMap K V) (key : K) : Except Panic (ℤ × Option V) := do
  let pos ← hashMapProbe hm key hm.capacity (hm.home key)
  match hm.data pos with
  | none => return (-1, none)
  | some (_, value) => return (0, some value)

/-- The loop of `adjust_gap`. -/
def adjustGapLoop : ℕ → HashMap K V → ℕ → ℕ → Except Panic (HashMap K V)
  | 0, _, _, _ => .error .outOfFuel
  | fuel + 1, hm, gapIndex, pos => do
    match ← hashMapSlot hm pos with
    | none => return hm
    | some (currentKey, currentValue) =>
      let hashPosition := hm.home currentKey
      let normalizedGapIndex := if gapIndex < hashPosition then gapIndex + hm.capacity else gapIndex
      let normalizedPos := if pos < hashPosition then pos + hm.capacity else pos
      let next := (pos + 1) % hm.capacity
      if normalizedGapIndex ≥ hashPosition ∧ normalizedGapIndex ≤ normalizedPos then
        let hm := { hm with data := Function.update hm.data pos none }
        let hm ← hashMapFill hm gapIndex currentKey currentValue
        adjustGapLoop fuel hm pos next
      else adjustGapLoop fuel hm gapIndex next

def adjustGap (hm : HashMap K V) (gapIndex : ℕ) : Except Panic (HashMap K V) :=
  adjustGapLoop hm.capacity hm gapIndex ((gapIndex + 1) % hm.capacity)

def hashMapDelete (hm : HashMap K V) (key : K) : Except Panic (ℤ × HashMap K V) := do
  let pos ← hashMapProbe hm key hm.capacity (hm.home key)
  match hm.data pos with
  | none => return (-1, hm)
  | some _ =>
    let hm ← adjustGap { hm with data := Function.update hm.data pos none } pos
    return (0, { hm with numElements := u32Sub hm.numElements 1 })

/-- `hash_map_for_each_entry`: `for_each_func` on the key and the value of each valid slot of the
first `n`, in order, over the custom data. -/
def hashMapForEachLoop {D : Type} (hm : HashMap K V) (forEachFunc : K → V → D → D) (customData : D) :
    ℕ → Except Panic D
  | 0 => .ok customData
  | n + 1 => do
    let customData ← hashMapForEachLoop hm forEachFunc customData n
    match ← hashMapSlot hm n with
    | none => return customData
    | some (key, value) => return forEachFunc key value customData

def hashMapForEachEntry {D : Type} (hm : HashMap K V) (forEachFunc : K → V → D → D)
    (customData : D) : Except Panic D :=
  hashMapForEachLoop hm forEachFunc customData hm.capacity

end RawOS
