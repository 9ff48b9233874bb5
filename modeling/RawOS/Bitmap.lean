import RawOS.Util
import Mathlib.Logic.Function.Basic
import Mathlib.Data.Nat.Bitwise

/-!
# `util/bitmap.c`

A bitmap is an array of bytes. The model has every byte from `data` on, also those after the array,
since the bounds that `bitmap_set`, `bitmap_clear` and `bitmap_get` assert let some of them through:
they compare the number of a byte with the number of bits. `Bitmap.Has` is the set of the bits.
-/

namespace RawOS

/-- `Bitmap`. The array has `size` bytes. -/
structure Bitmap where
  data : ℕ → UInt8
  size : ℕ

def bitMask (bitmapBit : ℕ) : UInt8 := UInt8.ofNat (1 <<< bitmapBit)

def bitmapInit (data : ℕ → UInt8) (size : ℕ) : Bitmap := ⟨data, size⟩

/-- `bitmap_index < bitmap->size * 8`. -/
def bitmapGuard (bitmap : Bitmap) (index : ℕ) : Prop := index / 8 < u32 (bitmap.size * 8)

instance (bitmap : Bitmap) (index : ℕ) : Decidable (bitmapGuard bitmap index) :=
  inferInstanceAs (Decidable (_ < _))

def bitmapSet (bitmap : Bitmap) (index : ℕ) : Except Panic Bitmap := do
  assert (bitmapGuard bitmap index) "bitmap_set: bitmap_index < bitmap->size * 8 (%u < %u)"
  return { bitmap with
    data := Function.update bitmap.data (index / 8)
      (bitmap.data (index / 8) ||| bitMask (index % 8)) }

def bitmapClear (bitmap : Bitmap) (index : ℕ) : Except Panic Bitmap := do
  assert (bitmapGuard bitmap index) "bitmap_clear: bitmap_index < bitmap->size * 8 (%u < %u)"
  return { bitmap with
    data := Function.update bitmap.data (index / 8)
      (bitmap.data (index / 8) &&& ~~~bitMask (index % 8)) }

/-- The inner loop of `bitmap_get_first_clear`, over the bits of byte `i`. -/
def bitmapFirstClearOfByte (bitmap : Bitmap) (i : ℕ) : Option ℕ :=
  (List.range 8).findSome? fun j =>
    if bitmap.data i &&& bitMask j = 0 then some (u32 (i * 8 + j)) else none

def bitmapGetFirstClear (bitmap : Bitmap) : Except Panic ℕ :=
  match (List.range bitmap.size).findSome? (bitmapFirstClearOfByte bitmap) with
  | some index => .ok index
  | none => .error (.panic "Bitmap full!")

def bitmapGet (bitmap : Bitmap) (index : ℕ) : Except Panic ℕ := do
  assert (bitmapGuard bitmap index) "bitmap_get: bitmap_index < bitmap->size * 8 (%u < %u)"
  return if bitmap.data (index / 8) &&& bitMask (index % 8) ≠ 0 then 1 else 0

/-! ## The set of a bitmap -/

/-- Bit `index` is set. -/
def Bitmap.Has (bitmap : Bitmap) (index : ℕ) : Prop :=
  (bitmap.data (index / 8)).toBitVec.getLsbD (index % 8) = true

instance (bitmap : Bitmap) (index : ℕ) : Decidable (bitmap.Has index) :=
  inferInstanceAs (Decidable (_ = _))

variable {bitmap bitmap' : Bitmap} {index i k : ℕ}

theorem getLsbD_bitMask {j k : ℕ} (hj : j < 8) :
    (bitMask j).toBitVec.getLsbD k = decide (j = k) := by
  have hshift : (1 <<< j).testBit k = decide (j = k) := by
    rw [Nat.shiftLeft_eq, Nat.one_mul, Nat.testBit_two_pow]
  have hmask : (bitMask j).toBitVec.getLsbD k = (decide (k < 8) && (1 <<< j).testBit k) :=
    BitVec.getLsbD_ofNat ..
  rw [hmask, hshift]
  by_cases hk : j = k
  · simp [← hk, hj]
  · simp [hk]

/-- What the loops and `bitmap_get` test. -/
theorem and_bitMask_eq_zero {x : UInt8} {j : ℕ} (hj : j < 8) :
    x &&& bitMask j = 0 ↔ x.toBitVec.getLsbD j = false := by
  constructor
  · intro h
    have hbit : (x &&& bitMask j).toBitVec.getLsbD j = false := by
      rw [h]
      exact BitVec.getLsbD_zero
    rw [UInt8.toBitVec_and, BitVec.getLsbD_and, getLsbD_bitMask hj] at hbit
    simpa using hbit
  · intro h
    apply UInt8.toBitVec_inj.mp
    apply BitVec.eq_of_getLsbD_eq
    intro k hk
    rw [UInt8.toBitVec_and, BitVec.getLsbD_and, getLsbD_bitMask hj]
    by_cases hjk : j = k
    · subst hjk
      rw [h]
      exact (BitVec.getLsbD_zero).symm
    · rw [decide_eq_false hjk, Bool.and_false]
      exact (BitVec.getLsbD_zero).symm

theorem bitmapSet_eq_ok : bitmapSet bitmap index = .ok bitmap' ↔ bitmapGuard bitmap index ∧
    bitmap' = { bitmap with
      data := Function.update bitmap.data (index / 8)
        (bitmap.data (index / 8) ||| bitMask (index % 8)) } := by
  unfold bitmapSet
  by_cases h : bitmapGuard bitmap index
  · rw [assert_of_true h, ok_bind]
    exact ⟨fun heq => ⟨h, (Except.ok.inj heq).symm⟩, fun heq => heq.2 ▸ rfl⟩
  · simp [assert, h]

theorem bitmapClear_eq_ok : bitmapClear bitmap index = .ok bitmap' ↔ bitmapGuard bitmap index ∧
    bitmap' = { bitmap with
      data := Function.update bitmap.data (index / 8)
        (bitmap.data (index / 8) &&& ~~~bitMask (index % 8)) } := by
  unfold bitmapClear
  by_cases h : bitmapGuard bitmap index
  · rw [assert_of_true h, ok_bind]
    exact ⟨fun heq => ⟨h, (Except.ok.inj heq).symm⟩, fun heq => heq.2 ▸ rfl⟩
  · simp [assert, h]

/-- Two bits are the same if they are in the same byte at the same place. -/
theorem bit_eq_iff : k = i ↔ k / 8 = i / 8 ∧ k % 8 = i % 8 := by omega

theorem bitmapSet_size (h : bitmapSet bitmap index = .ok bitmap') : bitmap'.size = bitmap.size := by
  rw [(bitmapSet_eq_ok.mp h).2]

theorem bitmapClear_size (h : bitmapClear bitmap index = .ok bitmap') :
    bitmap'.size = bitmap.size := by
  rw [(bitmapClear_eq_ok.mp h).2]

theorem has_bitmapSet (h : bitmapSet bitmap index = .ok bitmap') :
    bitmap'.Has k ↔ k = index ∨ bitmap.Has k := by
  rw [(bitmapSet_eq_ok.mp h).2]
  unfold Bitmap.Has
  dsimp only
  by_cases hbyte : k / 8 = index / 8
  · rw [hbyte, Function.update_self, UInt8.toBitVec_or, BitVec.getLsbD_or,
      getLsbD_bitMask (by omega), Bool.or_eq_true, decide_eq_true_iff]
    constructor
    · rintro (hold | hbit)
      · exact .inr hold
      · exact .inl (bit_eq_iff.mpr ⟨hbyte, hbit.symm⟩)
    · rintro (heq | hold)
      · exact .inr (bit_eq_iff.mp heq).2.symm
      · exact .inl hold
  · rw [Function.update_of_ne hbyte]
    refine ⟨.inr, ?_⟩
    rintro (rfl | hold)
    · exact absurd rfl hbyte
    · exact hold

theorem has_bitmapClear (h : bitmapClear bitmap index = .ok bitmap') :
    bitmap'.Has k ↔ k ≠ index ∧ bitmap.Has k := by
  rw [(bitmapClear_eq_ok.mp h).2]
  unfold Bitmap.Has
  dsimp only
  by_cases hbyte : k / 8 = index / 8
  · rw [hbyte, Function.update_self, UInt8.toBitVec_and, BitVec.getLsbD_and, UInt8.toBitVec_not,
      BitVec.getLsbD_not, getLsbD_bitMask (by omega)]
    simp only [Bool.and_eq_true, Bool.not_eq_true', decide_eq_false_iff_not, decide_eq_true_iff]
    constructor
    · rintro ⟨hold, -, hbit⟩
      exact ⟨fun heq => hbit (bit_eq_iff.mp heq).2.symm, hold⟩
    · rintro ⟨hne, hold⟩
      exact ⟨hold, by omega, fun heq => hne (bit_eq_iff.mpr ⟨hbyte, heq.symm⟩)⟩
  · rw [Function.update_of_ne hbyte]
    refine ⟨fun hold => ⟨?_, hold⟩, fun h => h.2⟩
    rintro rfl
    exact hbyte rfl

/-- The test of the loops and of `bitmap_get`. -/
theorem not_has_iff : ¬ bitmap.Has index ↔ bitmap.data (index / 8) &&& bitMask (index % 8) = 0 := by
  rw [and_bitMask_eq_zero (by omega), ← Bool.not_eq_true]
  rfl

theorem bitmapGet_spec (h : bitmapGuard bitmap index) :
    bitmapGet bitmap index = .ok (if bitmap.Has index then 1 else 0) := by
  unfold bitmapGet
  rw [assert_of_true h, ok_bind]
  by_cases hbit : bitmap.Has index
  · rw [if_pos hbit, if_pos fun hzero => not_has_iff.mpr hzero hbit]
    rfl
  · rw [if_neg hbit, if_neg fun hne => hne (not_has_iff.mp hbit)]
    rfl

theorem bitmapGet_eq_one_iff :
    bitmapGet bitmap index = .ok 1 ↔ bitmapGuard bitmap index ∧ bitmap.Has index := by
  by_cases h : bitmapGuard bitmap index
  · rw [bitmapGet_spec h]
    by_cases hbit : bitmap.Has index
    · exact ⟨fun _ => ⟨h, hbit⟩, fun _ => by rw [if_pos hbit]⟩
    · rw [if_neg hbit]
      exact ⟨fun heq => absurd (Except.ok.inj heq) Nat.zero_ne_one, fun hh => absurd hh.2 hbit⟩
  · unfold bitmapGet
    simp [assert, h]

/-- The guard holds of the bits of the array. -/
theorem bitmapGuard_of_lt (hsize : bitmap.size * 8 < 4294967296) (h : index < 8 * bitmap.size) :
    bitmapGuard bitmap index := by
  unfold bitmapGuard
  rw [u32_of_lt hsize]
  omega

/-! ## The first clear bit -/

/-- A search over a range finds the first hit. -/
theorem findSome?_range_eq_some {α : Type} {f : ℕ → Option α} {b : α} :
    ∀ {n : ℕ}, (List.range n).findSome? f = some b → ∃ i < n, f i = some b ∧ ∀ k < i, f k = none
  | 0, h => by cases h
  | n + 1, h => by
    rw [List.range_succ, List.findSome?_append] at h
    cases hn : (List.range n).findSome? f with
    | some b' =>
      rw [hn] at h
      obtain rfl := Option.some.inj h
      obtain ⟨i, hi, hf, hlt⟩ := findSome?_range_eq_some hn
      exact ⟨i, by omega, hf, hlt⟩
    | none =>
      rw [hn, Option.none_or, List.findSome?_singleton] at h
      rw [List.findSome?_eq_none_iff] at hn
      exact ⟨n, by omega, h, fun k hk => hn k (List.mem_range.mpr hk)⟩

theorem bitmapFirstClearOfByte_eq_some (hi : i * 8 + 8 ≤ 4294967296)
    (h : bitmapFirstClearOfByte bitmap i = some index) :
    index / 8 = i ∧ ¬ bitmap.Has index ∧ ∀ k < index, k / 8 = i → bitmap.Has k := by
  obtain ⟨j, hj, hfound, hlt⟩ := findSome?_range_eq_some h
  split_ifs at hfound with hzero
  rw [u32_of_lt (by omega)] at hfound
  obtain rfl := Option.some.inj hfound
  have hi : (i * 8 + j) / 8 = i := by omega
  refine ⟨hi, ?_, fun k hk hki => ?_⟩
  · rw [not_has_iff, hi, show (i * 8 + j) % 8 = j by omega]
    exact hzero
  · by_contra hk'
    have hnone := hlt (k % 8) (by omega)
    rw [not_has_iff, hki] at hk'
    rw [if_pos hk'] at hnone
    cases hnone

theorem bitmapFirstClearOfByte_eq_none (h : bitmapFirstClearOfByte bitmap (k / 8) = none) :
    bitmap.Has k := by
  unfold bitmapFirstClearOfByte at h
  rw [List.findSome?_eq_none_iff] at h
  by_contra hk
  have hnone := h (k % 8) (List.mem_range.mpr (by omega))
  rw [if_pos (not_has_iff.mp hk)] at hnone
  cases hnone

/-- The least bit of the array that is clear; there is none if the bitmap is full. -/
theorem bitmapGetFirstClear_spec (hsize : bitmap.size * 8 ≤ 4294967296) :
    Ends (bitmapGetFirstClear bitmap)
      (fun index => index < 8 * bitmap.size ∧ ¬ bitmap.Has index ∧ ∀ k < index, bitmap.Has k)
      (fun e => e = .panic "Bitmap full!" ∧ ∀ k < 8 * bitmap.size, bitmap.Has k) := by
  unfold bitmapGetFirstClear
  cases h : (List.range bitmap.size).findSome? (bitmapFirstClearOfByte bitmap) with
  | some index =>
    obtain ⟨i, hi, hfound, hlt⟩ := findSome?_range_eq_some h
    obtain ⟨rfl, hclear, hbyte⟩ := bitmapFirstClearOfByte_eq_some (by omega) hfound
    refine ⟨by omega, hclear, fun k hk => ?_⟩
    by_cases hk8 : k / 8 = index / 8
    · exact hbyte k hk hk8
    · exact bitmapFirstClearOfByte_eq_none (hlt (k / 8) (by omega))
  | none =>
    rw [List.findSome?_eq_none_iff] at h
    refine ⟨rfl, fun k hk => ?_⟩
    exact bitmapFirstClearOfByte_eq_none (h (k / 8) (List.mem_range.mpr (by omega)))

end RawOS
