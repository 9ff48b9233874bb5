import Mathlib.Data.Nat.Digits.Defs
import Mathlib.Data.Nat.Digits.Lemmas

/-!
# Numerals in ASCII

`numeral b n` is the canonical numeral of `n` to the base `b`, without leading zeros, and
`fixedNumeral b k n` the last `k` digits of `n`. `value` reads both back.
-/

namespace Numeral

/-- The character of a digit: `0` to `9`, then `a`, `b`, … -/
def digitChar (d : ℕ) : UInt8 := UInt8.ofNat (if d < 10 then 48 + d else 87 + d)

/-- The digit of a character. -/
def charDigit (c : UInt8) : ℕ := if c.toNat < 58 then c.toNat - 48 else c.toNat - 87

/-- The number that a string of digits stands for. -/
def value (b : ℕ) (str : List UInt8) : ℕ := str.foldl (fun n c => n * b + charDigit c) 0

def numeral (b n : ℕ) : List UInt8 :=
  if n = 0 then [digitChar 0] else ((Nat.digits b n).map digitChar).reverse

def fixedNumeral (b : ℕ) : ℕ → ℕ → List UInt8
  | 0, _ => []
  | k + 1, n => fixedNumeral b k (n / b) ++ [digitChar (n % b)]

/-- `str` consists of digits to the base `b`. -/
def Digits (b : ℕ) (str : List UInt8) : Prop := ∀ c ∈ str, ∃ d < b, c = digitChar d

/-- `str` is the canonical numeral of `n` to the base `b`. -/
structure IsNumeral (b n : ℕ) (str : List UInt8) : Prop where
  ne_nil : str ≠ []
  digits : Digits b str
  no_leading_zero : str.head? = some (digitChar 0) → str = [digitChar 0]
  value : value b str = n

variable {b k n d : ℕ} {str : List UInt8}

theorem toNat_digitChar (h : d < 36) :
    (digitChar d).toNat = if d < 10 then 48 + d else 87 + d := by
  unfold digitChar
  rw [UInt8.toNat_ofNat']
  split_ifs <;> omega

theorem charDigit_digitChar (h : d < 36) : charDigit (digitChar d) = d := by
  unfold charDigit
  rw [toNat_digitChar h]
  split_ifs <;> omega

theorem digitChar_ne_zero (h : d < 36) : digitChar d ≠ 0 := by
  intro heq
  have hnat := toNat_digitChar h
  rw [heq] at hnat
  have hzero : (0 : UInt8).toNat = 0 := rfl
  split_ifs at hnat <;> omega

theorem Digits.notMem_zero (hb : b ≤ 36) (h : Digits b str) : 0 ∉ str := by
  intro hmem
  obtain ⟨d, hd, heq⟩ := h 0 hmem
  exact digitChar_ne_zero (by omega) heq.symm

theorem value_append_singleton (c : UInt8) :
    value b (str ++ [c]) = value b str * b + charDigit c := by
  unfold value
  rw [List.foldl_append]
  rfl

/-! ## The canonical numeral -/

theorem value_digits (hb : 1 < b) (hb' : b ≤ 36) (n : ℕ) :
    value b ((Nat.digits b n).map digitChar).reverse = n := by
  unfold value
  rw [List.foldl_reverse, List.foldr_map]
  have hcongr : ∀ l : List ℕ, (∀ d ∈ l, d < b) →
      l.foldr (fun d n => n * b + charDigit (digitChar d)) 0 = Nat.ofDigits b l := by
    intro l hl
    induction l with
    | nil => rfl
    | cons d l ih =>
      have hd := hl d List.mem_cons_self
      rw [List.foldr_cons, ih fun d' hd' => hl d' (List.mem_cons_of_mem d hd'),
        charDigit_digitChar (by omega), Nat.ofDigits_cons]
      exact (Nat.add_comm _ _).trans (congrArg (d + ·) (Nat.mul_comm _ _))
  rw [hcongr _ fun d hd => Nat.digits_lt_base hb hd, Nat.ofDigits_digits]

theorem isNumeral_numeral (hb : 1 < b) (hb' : b ≤ 36) (n : ℕ) : IsNumeral b n (numeral b n) := by
  unfold numeral
  by_cases hn : n = 0
  · rw [if_pos hn]
    refine ⟨List.cons_ne_nil _ _, fun c hc => ⟨0, by omega, List.mem_singleton.mp hc⟩, fun _ => rfl,
      ?_⟩
    rw [hn, ← List.nil_append [digitChar 0], value_append_singleton, charDigit_digitChar (by omega)]
    exact Nat.zero_mul b
  · rw [if_neg hn]
    have hne : Nat.digits b n ≠ [] := Nat.digits_ne_nil_iff_ne_zero.mpr hn
    refine ⟨by simpa using hne, fun c hc => ?_, fun hhead => ?_, value_digits hb hb' n⟩
    · obtain ⟨d, hd, rfl⟩ := List.mem_map.mp (List.mem_reverse.mp hc)
      exact ⟨d, Nat.digits_lt_base hb hd, rfl⟩
    · -- the leading digit is not zero
      rw [List.head?_reverse, List.getLast?_map, List.getLast?_eq_some_getLast hne,
        Option.map_some, Option.some_inj] at hhead
      have hlast := Nat.digits_lt_base hb (List.getLast_mem hne)
      have hzero := congrArg charDigit hhead
      rw [charDigit_digitChar (by omega), charDigit_digitChar (by omega)] at hzero
      exact absurd hzero (Nat.getLast_digit_ne_zero b hn)

/-- The digits of a number that is not zero: the last one is the remainder. -/
theorem numeral_snoc (hb : 1 < b) (hn : n ≠ 0) :
    ((Nat.digits b n).map digitChar).reverse =
      ((Nat.digits b (n / b)).map digitChar).reverse ++ [digitChar (n % b)] := by
  rw [Nat.digits_def' hb (Nat.pos_of_ne_zero hn), List.map_cons, List.reverse_cons]

/-! ## A fixed number of digits -/

@[simp] theorem length_fixedNumeral (b k n : ℕ) : (fixedNumeral b k n).length = k := by
  induction k generalizing n with
  | zero => rfl
  | succ k ih => rw [fixedNumeral, List.length_append, ih, List.length_singleton]

theorem digits_fixedNumeral (hb : 0 < b) : Digits b (fixedNumeral b k n) := by
  induction k generalizing n with
  | zero => exact fun c hc => absurd hc List.not_mem_nil
  | succ k ih =>
    intro c hc
    rcases List.mem_append.mp hc with hc | hc
    · exact ih c hc
    · exact ⟨n % b, Nat.mod_lt n hb, List.mem_singleton.mp hc⟩

theorem value_fixedNumeral (hb : 0 < b) (hb' : b ≤ 36) :
    value b (fixedNumeral b k n) = n % b ^ k := by
  induction k generalizing n with
  | zero => rw [Nat.pow_zero, Nat.mod_one]; rfl
  | succ k ih =>
    have hd := Nat.mod_lt n hb
    rw [fixedNumeral, value_append_singleton, ih, charDigit_digitChar (by omega), Nat.pow_succ',
      Nat.mod_mul]
    ring

end Numeral
