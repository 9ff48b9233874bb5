import Mathlib.Data.Int.Basic
import Mathlib.Tactic.SplitIfs

/-!
# Byte-addressed memory

A memory gives a byte to every address. Words are little-endian. `store32_eq` and
`load32_store32_of_disjoint` are the two facts about a store that the rest of the development
rewrites with; `load32_congr` says that a load only looks at its own bytes.
-/

namespace RawOS

/-- One byte at every address. -/
abbrev Mem := ℕ → UInt8

/-- The 16-bit word at `a`. -/
def load16 (m : Mem) (a : ℕ) : ℕ := (m a).toNat + 256 * (m (a + 1)).toNat

/-- The 32-bit word at `a`. -/
def load32 (m : Mem) (a : ℕ) : ℕ :=
  (m a).toNat + 256 * (m (a + 1)).toNat + 65536 * (m (a + 2)).toNat +
    16777216 * (m (a + 3)).toNat

/-- Store one byte. -/
def store8 (m : Mem) (a : ℕ) (v : UInt8) : Mem := fun x => if x = a then v else m x

/-- Store the low 16 bits of `v`. -/
def store16 (m : Mem) (a v : ℕ) : Mem := fun x =>
  if x = a then UInt8.ofNat v
  else if x = a + 1 then UInt8.ofNat (v / 256)
  else m x

/-- Store the low 32 bits of `v`. -/
def store32 (m : Mem) (a v : ℕ) : Mem := fun x =>
  if x = a then UInt8.ofNat v
  else if x = a + 1 then UInt8.ofNat (v / 256)
  else if x = a + 2 then UInt8.ofNat (v / 65536)
  else if x = a + 3 then UInt8.ofNat (v / 16777216)
  else m x

/-- The signed reading of a 32-bit word. -/
def toS32 (w : ℕ) : ℤ := if w < 2147483648 then w else (w : ℤ) - 4294967296

/-- The 32-bit word of a signed number. -/
def ofS32 (z : ℤ) : ℕ := (z % 4294967296).toNat

/-- The signed 32-bit word at `a`. -/
def loadS32 (m : Mem) (a : ℕ) : ℤ := toS32 (load32 m a)

/-- Store a signed 32-bit word. -/
def storeS32 (m : Mem) (a : ℕ) (z : ℤ) : Mem := store32 m a (ofS32 z)

variable {m m' : Mem} {a b v x : ℕ}

/-! ## Loads -/

theorem load32_lt (m : Mem) (a : ℕ) : load32 m a < 4294967296 := by
  have h₀ := (m a).toNat_lt
  have h₁ := (m (a + 1)).toNat_lt
  have h₂ := (m (a + 2)).toNat_lt
  have h₃ := (m (a + 3)).toNat_lt
  unfold load32
  omega

theorem load16_congr (h : ∀ x, a ≤ x → x < a + 2 → m' x = m x) : load16 m' a = load16 m a := by
  unfold load16
  rw [h a (by omega) (by omega), h (a + 1) (by omega) (by omega)]

theorem load32_congr (h : ∀ x, a ≤ x → x < a + 4 → m' x = m x) : load32 m' a = load32 m a := by
  unfold load32
  rw [h a (by omega) (by omega), h (a + 1) (by omega) (by omega), h (a + 2) (by omega) (by omega),
    h (a + 3) (by omega) (by omega)]

theorem loadS32_congr (h : ∀ x, a ≤ x → x < a + 4 → m' x = m x) : loadS32 m' a = loadS32 m a := by
  unfold loadS32
  rw [load32_congr h]

/-! ## Stores -/

theorem store8_of_ne {w : UInt8} (h : x ≠ a) : store8 m a w x = m x := if_neg h

theorem store16_of_outside (h : x < a ∨ a + 2 ≤ x) : store16 m a v x = m x := by
  unfold store16
  rw [if_neg (by omega), if_neg (by omega)]

theorem store32_of_outside (h : x < a ∨ a + 4 ≤ x) : store32 m a v x = m x := by
  unfold store32
  rw [if_neg (by omega), if_neg (by omega), if_neg (by omega), if_neg (by omega)]

theorem storeS32_of_outside {z : ℤ} (h : x < a ∨ a + 4 ≤ x) : storeS32 m a z x = m x :=
  store32_of_outside h

/-- A load sees the word just stored there. -/
theorem load32_store32_eq (h : b = a) (hv : v < 4294967296) : load32 (store32 m a v) b = v := by
  subst h
  unfold load32 store32
  simp only [if_pos, UInt8.toNat_ofNat', Nat.add_eq_left, Nat.succ_ne_zero, if_false,
    Nat.add_left_cancel_iff, Nat.reduceEqDiff]
  omega

theorem load16_store16_eq (h : b = a) (hv : v < 65536) : load16 (store16 m a v) b = v := by
  subst h
  unfold load16 store16
  simp only [if_pos, UInt8.toNat_ofNat', Nat.add_eq_left, Nat.succ_ne_zero, if_false]
  omega

/-- A load does not see a store elsewhere. -/
theorem load32_store32_of_disjoint (h : b + 4 ≤ a ∨ a + 4 ≤ b) :
    load32 (store32 m a v) b = load32 m b :=
  load32_congr fun _ _ _ => store32_of_outside (by omega)

theorem load32_store16_of_disjoint (h : b + 4 ≤ a ∨ a + 2 ≤ b) :
    load32 (store16 m a v) b = load32 m b :=
  load32_congr fun _ _ _ => store16_of_outside (by omega)

theorem load16_store32_of_disjoint (h : b + 2 ≤ a ∨ a + 4 ≤ b) :
    load16 (store32 m a v) b = load16 m b :=
  load16_congr fun _ _ _ => store32_of_outside (by omega)

theorem load16_store16_of_disjoint (h : b + 2 ≤ a ∨ a + 2 ≤ b) :
    load16 (store16 m a v) b = load16 m b :=
  load16_congr fun _ _ _ => store16_of_outside (by omega)

/-! ## Signed words -/

theorem ofS32_lt (z : ℤ) : ofS32 z < 4294967296 := by
  unfold ofS32
  omega

theorem toS32_ofS32 {z : ℤ} (h : -2147483648 ≤ z) (h' : z < 2147483648) : toS32 (ofS32 z) = z := by
  unfold toS32 ofS32
  split_ifs <;> omega

theorem loadS32_storeS32_eq {z : ℤ} (hb : b = a) (h : -2147483648 ≤ z) (h' : z < 2147483648) :
    loadS32 (storeS32 m a z) b = z := by
  unfold loadS32 storeS32
  rw [load32_store32_eq hb (ofS32_lt z), toS32_ofS32 h h']

end RawOS
