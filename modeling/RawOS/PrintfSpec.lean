import RawOS.Printf
import RawOS.Numeral

/-!
# What `vprintf` prints

1. What the conversions leave in their buffers: `digitLoop_spec`, `copyBytes_spec`,
   `base16Loop_spec`.
2. `%d` prints the canonical numeral of exactly the numbers that are not negative
   (`printsSigned_iff`).
3. `expandFormat` is the text of a format string with its arguments, and `vprintf` prints it
   (`vprintf_expands`), so that it is on the screen (`vprintf_shows`).
-/

namespace RawOS

open Numeral

/-! ## Buffers -/

section Buffers

variable {l l' str head pre : List UInt8} {c d : UInt8} {i : ℤ} {k n : ℕ}

theorem readByte_append (hi : i = l.length) : readByte (l ++ c :: l') i = .ok c := by
  unfold readByte
  subst hi
  rw [if_pos (by rw [List.length_append, List.length_cons]; omega), Int.toNat_natCast,
    List.getD_eq_getElem?_getD, List.getElem?_append_right le_rfl, Nat.sub_self]
  rfl

theorem writeByte_append (hi : i = l.length) :
    writeByte (l ++ c :: l') i d = .ok (l ++ d :: l') := by
  unfold writeByte
  subst hi
  rw [if_pos (by rw [List.length_append, List.length_cons]; omega), Int.toNat_natCast,
    List.set_append_right _ _ le_rfl, Nat.sub_self]
  rfl

theorem readByte_lt (h : readByte l i = .ok c) : i < l.length := by
  unfold readByte at h
  split_ifs at h with hi
  exact hi.2

theorem replicate_zero_pos (hk : 0 < k) :
    List.replicate k (0 : UInt8) = 0 :: List.replicate (k - 1) 0 := by
  obtain ⟨j, rfl⟩ : ∃ j, k = j + 1 := ⟨k - 1, by omega⟩
  rfl

/-- A string is copied behind `head`, where the buffer is empty. -/
theorem copyBytes_spec (hk : str.length ≤ k) : ∀ {n : ℕ}, n ≤ str.length →
    copyBytes (head ++ List.replicate k 0) head.length (pre ++ str) pre.length n =
      .ok (head ++ str.take n ++ List.replicate (k - n) 0)
  | 0, _ => by
    rw [List.take_zero, List.append_nil]
    rfl
  | n + 1, hn => by
    have hsplit : pre ++ str = (pre ++ str.take n) ++ str[n] :: str.drop (n + 1) := by
      rw [List.append_assoc, ← List.drop_eq_getElem_cons, List.take_append_drop]
    have hlen : (str.take n).length = n := by
      rw [List.length_take]
      omega
    have hread : readByte (pre ++ str) (pre.length + n) = .ok str[n] := by
      rw [hsplit]
      refine readByte_append ?_
      rw [List.length_append, hlen]
      omega
    unfold copyBytes
    rw [copyBytes_spec hk (by omega), ok_bind, hread, ok_bind, replicate_zero_pos (by omega),
      writeByte_append (by rw [List.length_append, hlen]; omega), ← List.take_append_getElem hn,
      Nat.sub_sub]
    simp only [List.append_assoc, List.singleton_append]

/-- The bytes of a copy are all in the buffer that is read. -/
theorem copyBytes_lt {buffer b buffer' : List UInt8} {dst src : ℤ}
    (h : copyBytes buffer dst b src (n + 1) = .ok buffer') : src + n < b.length := by
  unfold copyBytes at h
  obtain ⟨_, -, h⟩ := bind_eq_ok.mp h
  obtain ⟨c, hread, -⟩ := bind_eq_ok.mp h
  exact readByte_lt hread

theorem strlen_spec (h : 0 ∉ str) : strlen (str ++ 0 :: l) = .ok str.length := by
  induction str with
  | nil => rfl
  | cons c str ih =>
    obtain ⟨hc, hstr⟩ := not_or.mp (mt List.mem_cons.mpr h)
    rw [List.cons_append, strlen, if_neg (Ne.symm hc), ih hstr]
    rfl

/-- A string in a buffer that is longer. -/
theorem screenPrint_spec (h : 0 ∉ str) (hk : 0 < k) :
    screenPrint (str ++ List.replicate k 0) = .ok str := by
  unfold screenPrint
  rw [replicate_zero_pos hk, strlen_spec h, ok_bind, List.take_left]
  rfl

end Buffers

/-! ## Decimal numbers -/

section Decimal

variable {n k fuel : ℕ} {val : ℤ}

/-- The digits of `n`, none for zero. -/
def digitsOf (n : ℕ) : List UInt8 := ((Nat.digits 10 n).map digitChar).reverse

theorem digitsOf_ne_zero (hn : n ≠ 0) : digitsOf n = digitsOf (n / 10) ++ [digitChar (n % 10)] :=
  numeral_snoc (by decide) hn

theorem numeral_of_ne_zero (hn : n ≠ 0) : numeral 10 n = digitsOf n := if_neg hn

theorem length_digitsOf_le (hn : n < 10 ^ k) : (digitsOf n).length ≤ k := by
  unfold digitsOf
  rw [List.length_reverse, List.length_map]
  exact (Nat.digits_length_le_iff (by decide) n).mpr hn

theorem decimalChar : ∀ d < 10, (48 : UInt8) + UInt8.ofInt (d : ℕ) = digitChar d := by decide

/-- The loop writes the digits down from the last free byte. -/
theorem digitLoop_spec : ∀ {fuel n k : ℕ} {str : List UInt8}, (digitsOf n).length < fuel →
    (digitsOf n).length ≤ k →
    digitLoop fuel n (List.replicate k 0 ++ str) (k - 1) =
      .ok (List.replicate (k - (digitsOf n).length) 0 ++ (digitsOf n ++ str),
        k - 1 - (digitsOf n).length)
  | 0, _, _, _, hfuel, _ => absurd hfuel (Nat.not_lt_zero _)
  | fuel + 1, n, k, str, hfuel, hk => by
    unfold digitLoop
    by_cases hn : n = 0
    · subst hn
      rw [if_neg (by simp)]
      simp [digitsOf]
    · have hdigits := digitsOf_ne_zero hn
      have hlen : (digitsOf n).length = (digitsOf (n / 10)).length + 1 := by
        rw [hdigits, List.length_append, List.length_singleton]
      have hmod : (n : ℤ).tmod 10 = (n % 10 : ℕ) := (Int.ofNat_tmod n 10).symm
      have hdiv : (n : ℤ).tdiv 10 = (n / 10 : ℕ) := (Int.ofNat_tdiv n 10).symm
      have hsplit : List.replicate k 0 ++ str = List.replicate (k - 1) 0 ++ 0 :: str := by
        obtain ⟨j, rfl⟩ : ∃ j, k = j + 1 := ⟨k - 1, by omega⟩
        rw [List.replicate_succ', List.append_assoc]
        rfl
      have hpos : (k : ℤ) - 1 = (List.replicate (k - 1) (0 : UInt8)).length := by
        rw [List.length_replicate]
        omega
      have hrest := @digitLoop_spec fuel (n / 10) (k - 1) (digitChar (n % 10) :: str) (by omega)
        (by omega)
      rw [if_pos (by exact_mod_cast hn), hmod, hdiv, decimalChar _ (Nat.mod_lt n (by decide)),
        hsplit, writeByte_append hpos, ok_bind,
        show (k : ℤ) - 1 - 1 = ((k - 1 : ℕ) : ℤ) - 1 by omega, hrest, hlen, hdigits,
        List.append_assoc, List.singleton_append, Nat.sub_sub, Nat.add_comm 1]
      have hend : ((k - 1 : ℕ) : ℤ) - 1 - (digitsOf (n / 10)).length =
          k - 1 - ((digitsOf (n / 10)).length + 1 : ℕ) := by omega
      rw [hend]

/-- What the loop leaves in `b` and in `auxbuffer`. -/
theorem digitLoop_zeroBuffer (hn : n < 10 ^ 15) :
    digitLoop digitFuel n zeroBuffer 15 =
      .ok (List.replicate (16 - (digitsOf n).length) 0 ++ digitsOf n, 15 - (digitsOf n).length) := by
  have hlen := length_digitsOf_le hn
  have h := @digitLoop_spec digitFuel n 16 [] (by unfold digitFuel; omega) (by omega)
  rwa [List.append_nil, List.append_nil] at h

theorem digitsToStr_spec (hn : n < 10 ^ 15) : digitsToStr n 0 zeroBuffer =
    .ok (((digitsOf n).length : ℕ), digitsOf n ++ List.replicate (16 - (digitsOf n).length) 0) := by
  have hlen := length_digitsOf_le hn
  have hcopy := @copyBytes_spec (digitsOf n) [] (List.replicate (16 - (digitsOf n).length) 0) 16
    (by omega) _ le_rfl
  have hsize : (15 + 0 - (15 - ((digitsOf n).length : ℤ))) = (digitsOf n).length := by omega
  have hcount : (((digitsOf n).length : ℤ) % 4294967296).toNat = (digitsOf n).length := by omega
  have hsrc : (15 - ((digitsOf n).length : ℤ) + 1) =
      (List.replicate (16 - (digitsOf n).length) (0 : UInt8)).length := by
    rw [List.length_replicate]
    omega
  rw [List.take_length, List.nil_append, List.nil_append] at hcopy
  unfold digitsToStr
  rw [digitLoop_zeroBuffer hn, ok_bind]
  dsimp only
  rw [hsize, hcount, hsrc]
  exact bind_eq_ok.mpr ⟨_, hcopy, rfl⟩

theorem numeral_zeroBuffer : writeByte zeroBuffer 0 48 =
    .ok (numeral 10 0 ++ List.replicate (16 - (numeral 10 0).length) 0) := rfl

/-- `u32_to_str` leaves the canonical numeral in the buffer. -/
theorem u32ToStr_spec (hn : n < 10 ^ 15) : u32ToStr n zeroBuffer =
    .ok (((numeral 10 n).length : ℕ),
      numeral 10 n ++ List.replicate (16 - (numeral 10 n).length) 0) := by
  unfold u32ToStr
  by_cases h : n = 0
  · subst h
    rw [if_pos rfl, numeral_zeroBuffer]
    rfl
  · rw [if_neg h, numeral_of_ne_zero h]
    exact digitsToStr_spec hn

/-- `s32_to_str` does the same with a number that is not negative. -/
theorem s32ToStr_natCast (n : ℕ) : s32ToStr n zeroBuffer = u32ToStr n zeroBuffer := by
  unfold s32ToStr u32ToStr
  by_cases h : n = 0
  · rw [if_pos (by exact_mod_cast h), if_pos h]
  · rw [if_neg (by exact_mod_cast h), if_neg h, if_neg (by omega)]

/-- The numeral is printed, without the rest of the buffer. -/
theorem screenPrint_numeral (hn : n < 10 ^ 15) :
    screenPrint (numeral 10 n ++ List.replicate (16 - (numeral 10 n).length) 0) =
      .ok (numeral 10 n) := by
  have hlen : (numeral 10 n).length ≤ 15 := by
    by_cases h : n = 0
    · subst h
      decide
    · rw [numeral_of_ne_zero h]
      exact length_digitsOf_le hn
  exact screenPrint_spec
    ((isNumeral_numeral (by decide) (by decide) n).digits.notMem_zero (by decide)) (by omega)

theorem printDecimalUnsigned_spec (hn : n < 4294967296) :
    printDecimalUnsigned n = .ok [numeral 10 n] := by
  have hn : n < 10 ^ 15 := by omega
  unfold printDecimalUnsigned
  rw [u32ToStr_spec hn, ok_bind]
  dsimp only
  rw [screenPrint_numeral hn]
  rfl

theorem printDecimalSigned_natCast (hn : n < 2147483648) :
    printDecimalSigned n = .ok [numeral 10 n] := by
  rw [← printDecimalUnsigned_spec (by omega : n < 4294967296)]
  unfold printDecimalSigned printDecimalUnsigned
  rw [s32ToStr_natCast]

/-- For a number with a sign the byte after `b` is copied too. -/
theorem digitsToStr_signed (hn : n < 10 ^ 15) (buffer : List UInt8) (r : ℤ × List UInt8) :
    digitsToStr n 1 buffer ≠ .ok r := by
  intro hrun
  have hlen := length_digitsOf_le hn
  unfold digitsToStr at hrun
  rw [digitLoop_zeroBuffer hn, ok_bind] at hrun
  dsimp only at hrun
  have hcount : ((15 + 1 - (15 - ((digitsOf n).length : ℤ))) % 4294967296).toNat =
      (digitsOf n).length + 1 := by omega
  rw [hcount] at hrun
  obtain ⟨buffer', hcopy, -⟩ := bind_eq_ok.mp hrun
  have hlt := copyBytes_lt hcopy
  rw [List.length_append, List.length_replicate] at hlt
  omega

/-- No negative number is printed. -/
theorem printDecimalSigned_neg {calls : List (List UInt8)} (h₀ : -2147483648 ≤ val) (h₁ : val < 0) :
    printDecimalSigned val ≠ .ok calls := by
  intro hrun
  obtain ⟨⟨size, mem⟩, hstr, -⟩ := bind_eq_ok.mp hrun
  unfold s32ToStr at hstr
  rw [if_neg (by omega), if_pos h₁] at hstr
  obtain ⟨neg, hneg, hstr⟩ := bind_eq_ok.mp hstr
  obtain ⟨buffer, -, hstr⟩ := bind_eq_ok.mp hstr
  unfold s32Neg at hneg
  split_ifs at hneg with hfits
  obtain rfl := Except.ok.inj hneg
  obtain ⟨n, hn⟩ := Int.eq_ofNat_of_zero_le (show 0 ≤ -val by omega)
  rw [hn] at hstr
  exact digitsToStr_signed (by omega) buffer (size, mem) hstr

/-- `str` is the canonical numeral of `val`, with a sign where it is negative. -/
def IsSignedNumeral (val : ℤ) (str : List UInt8) : Prop :=
  if val < 0 then ∃ digits, str = 45 :: digits ∧ IsNumeral 10 val.natAbs digits
  else IsNumeral 10 val.natAbs str

/-- `printf("%d", val)` prints `val`, and every step of it is defined: no access is outside of a
buffer and nothing overflows. -/
def PrintsSigned (val : Int32) : Prop :=
  ∃ calls, vprintf [37, 100, 0] [.word val.toUInt32] = .ok calls ∧
    IsSignedNumeral val.toInt calls.flatten

theorem vprintf_signed (val : Int32) :
    vprintf [37, 100, 0] [.word val.toUInt32] = printDecimalSigned val.toInt := by
  have hval : val.toUInt32.toBitVec.toInt = val.toInt := rfl
  have hend : ∀ args, vprintf [0] args = .ok [] := fun _ => rfl
  rw [vprintf, if_neg (by decide), if_pos rfl]
  dsimp only
  rw [if_neg (by decide), printConversion, if_neg (by decide), if_neg (by decide),
    if_neg (by decide), if_pos rfl]
  dsimp only [vaWord]
  rw [ok_bind]
  dsimp only
  rw [hval]
  cases printDecimalSigned val.toInt with
  | error e => rfl
  | ok calls => exact congrArg Except.ok (List.append_nil calls)

theorem printsSigned_iff (val : Int32) : PrintsSigned val ↔ 0 ≤ val.toInt := by
  have h₀ := val.le_toInt
  have h₁ := val.toInt_lt
  unfold PrintsSigned
  rw [vprintf_signed]
  constructor
  · rintro ⟨calls, hrun, -⟩
    by_contra hneg
    exact printDecimalSigned_neg (by omega) (not_le.mp hneg) hrun
  · intro hpos
    obtain ⟨n, hn⟩ := Int.eq_ofNat_of_zero_le hpos
    rw [hn]
    refine ⟨_, printDecimalSigned_natCast (by omega), ?_⟩
    unfold IsSignedNumeral
    rw [if_neg (by omega), Int.natAbs_natCast, List.flatten_singleton]
    exact isNumeral_numeral (by decide) (by decide) n

/-- `-5` is not printed: the byte after the 16 of `b` is copied. -/
theorem not_printsSigned_neg_five : ¬ PrintsSigned (-5) := by
  rintro ⟨calls, hrun, -⟩
  rw [vprintf_signed] at hrun
  exact printDecimalSigned_neg (by decide) (by decide) hrun

end Decimal

/-! ## Hexadecimal numbers -/

section Hexadecimal

variable {i v x : ℕ}

theorem hexChar : ∀ f < 16, (if f > 9 then UInt8.ofNat f + 0x57 else UInt8.ofNat f + 0x30) =
    digitChar f := by decide

/-- The mask selects the leading hexadecimal digit. -/
theorem leadingDigit (hx : x < 4294967296) : (x &&& 0xf0000000) >>> (32 - 4) = x / 268435456 := by
  have hlow : x / 268435456 &&& 15 = x / 268435456 % 16 := Nat.and_two_pow_sub_one_eq_mod _ 4
  rw [Nat.shiftRight_and_distrib, Nat.shiftRight_eq_div_pow, Nat.shiftRight_eq_div_pow]
  norm_num only [hlow]
  omega

/-- The leading digit of the value after `i` iterations is the next digit of `v`. -/
theorem leadingDigit_shifted (hi : i < 8) :
    u32 (v * 16 ^ i) / 268435456 = v / 16 ^ (7 - i) % 16 := by
  have hall : 16 ^ i * 16 ^ (8 - i) = 4294967296 := by
    rw [← Nat.pow_add, show i + (8 - i) = 8 by omega]
  have hlow : 16 ^ i * 16 ^ (7 - i) = 268435456 := by
    rw [← Nat.pow_add, show i + (7 - i) = 7 by omega]
  have hsucc : 16 ^ (8 - i) = 16 ^ (7 - i) * 16 := by
    rw [← Nat.pow_succ]
    congr 1
    omega
  unfold u32
  rw [← hall, ← hlow, Nat.mul_comm v, Nat.mul_mod_mul_left,
    Nat.mul_div_mul_left _ _ (Nat.pow_pos (by decide)), hsucc, Nat.mod_mul_right_div_self]

/-- After `i` iterations the buffer has the first `i` digits. -/
theorem base16Loop_spec (hv : v < 4294967296) : ∀ {i : ℕ}, i ≤ 8 →
    base16Loop 32 0xf0000000 v zeroBuffer i =
      .ok (u32 (v * 16 ^ i), fixedNumeral 16 i (v / 16 ^ (8 - i)) ++ List.replicate (16 - i) 0)
  | 0, _ => by
    rw [Nat.pow_zero, Nat.mul_one, u32_of_lt hv]
    rfl
  | i + 1, hi => by
    have hlead := leadingDigit (Nat.mod_lt (v * 16 ^ i) (by decide : 0 < 4294967296))
    have hshift : u32 (u32 (v * 16 ^ i) <<< 4) = u32 (v * 16 ^ (i + 1)) := by
      unfold u32
      rw [Nat.shiftLeft_eq, show 2 ^ 4 = 16 from rfl, Nat.mod_mul_mod, Nat.mul_assoc, ← Nat.pow_succ]
    have hnext : v / 16 ^ (8 - i) = v / 16 ^ (7 - i) / 16 := by
      rw [Nat.div_div_eq_div_mul, ← Nat.pow_succ]
      congr 2
      omega
    have hlen : ((i : ℕ) : ℤ) = (fixedNumeral 16 i (v / 16 ^ (8 - i))).length := by
      rw [length_fixedNumeral]
    unfold base16Loop
    rw [base16Loop_spec hv (by omega), ok_bind]
    dsimp only
    rw [show u32 (v * 16 ^ i) = v * 16 ^ i % 4294967296 from rfl, hlead,
      show v * 16 ^ i % 4294967296 = u32 (v * 16 ^ i) from rfl, leadingDigit_shifted (by omega),
      hexChar _ (Nat.mod_lt _ (by decide)), replicate_zero_pos (by omega), writeByte_append hlen,
      ok_bind, hshift, hnext, show 8 - (i + 1) = 7 - i by omega, fixedNumeral, List.append_assoc,
      Nat.sub_sub]
    rfl

theorem u32ToStrBase16_spec (hv : v < 4294967296) : u32ToStrBase16 v 32 1 zeroBuffer =
    .ok (8, fixedNumeral 16 8 v ++ List.replicate 8 0) := by
  have hloop := base16Loop_spec hv le_rfl
  rw [Nat.sub_self, Nat.pow_zero, Nat.div_one] at hloop
  unfold u32ToStrBase16
  rw [show 0xf0000000 >>> (32 - 32) = 0xf0000000 from rfl, show 32 / 4 = 8 from rfl]
  exact bind_eq_ok.mpr ⟨_, hloop, rfl⟩

theorem printHexadecimal_spec (hv : v < 4294967296) :
    printHexadecimal v = .ok [fixedNumeral 16 8 v] := by
  have hprint : screenPrint (fixedNumeral 16 8 v ++ List.replicate 8 0) =
      .ok (fixedNumeral 16 8 v) :=
    screenPrint_spec ((digits_fixedNumeral (by decide)).notMem_zero (by decide)) (by decide)
  unfold printHexadecimal
  rw [u32ToStrBase16_spec hv, ok_bind]
  exact bind_eq_ok.mpr ⟨_, hprint, rfl⟩

end Hexadecimal

/-! ## Format strings -/

/-- The characters of a string, up to the NUL. -/
def cString (str : List UInt8) : List UInt8 := str.takeWhile (· ≠ 0)

/-- A part of a format string: a character, or what follows a `%`. -/
inductive Piece where
  | char (c : UInt8)
  | conversion (c : UInt8)
  deriving DecidableEq, Repr

/-- The parts of a format string; a `%` at its end is none. -/
def pieces : List UInt8 → List Piece
  | [] => []
  | [c] => if c = 37 then [] else [.char c]
  | c :: d :: str => if c = 37 then .conversion d :: pieces str else .char c :: pieces (d :: str)

/-- The arguments are those that the conversions other than `%d` ask for; there may be more. -/
def Matches : List Piece → List PrintArg → Prop
  | [], _ => True
  | .char _ :: ps, args => Matches ps args
  | .conversion c :: ps, args =>
    if c = 115 then ∃ str args', args = .str str :: args' ∧ 0 ∈ str ∧ Matches ps args'
    else if c = 117 ∨ c = 120 then ∃ value args', args = .word value :: args' ∧ Matches ps args'
    else Matches ps args

/-- What an argument is printed as by the conversion `c`. -/
def PrintArg.text (c : UInt8) : PrintArg → List UInt8
  | .str bytes => cString bytes
  | .word value => if c = 120 then fixedNumeral 16 8 value.toNat else numeral 10 value.toNat

/-- The text of a format string without `%d`, with its arguments. -/
def expandFormat : List Piece → List PrintArg → List UInt8
  | [], _ => []
  | .char c :: ps, args => c :: expandFormat ps args
  | .conversion c :: ps, args =>
    if c = 37 then 37 :: expandFormat ps args
    else if c = 115 ∨ c = 117 ∨ c = 120 then
      match args with
      | [] => []
      | arg :: args => arg.text c ++ expandFormat ps args
    else expandFormat ps args

section Format

variable {str : List UInt8} {c d : UInt8} {ps : List Piece} {args : List PrintArg}

theorem cString_cons (h : c ≠ 0) : cString (c :: str) = c :: cString str :=
  List.takeWhile_cons_of_pos (by simpa using h)

theorem cString_zero : cString (0 :: str) = [] := List.takeWhile_cons_of_neg (by simp)

theorem pieces_char (h : c ≠ 37) : pieces (c :: str) = .char c :: pieces str := by
  cases str with
  | nil => exact if_neg h
  | cons d str => exact if_neg h

theorem expandFormat_conversion : expandFormat (.conversion c :: ps) args =
    if c = 37 then 37 :: expandFormat ps args
    else if c = 115 ∨ c = 117 ∨ c = 120 then
      match args with
      | [] => []
      | arg :: args => arg.text c ++ expandFormat ps args
    else expandFormat ps args := by
  cases args <;> rfl

/-- A string is printed up to its NUL. -/
theorem printString_spec (h : 0 ∈ str) :
    ∃ calls, printString str = .ok calls ∧ calls.flatten = cString str := by
  induction str with
  | nil => exact absurd h List.not_mem_nil
  | cons c str ih =>
    unfold printString
    by_cases hc : c = 0
    · subst hc
      exact ⟨[], if_pos rfl, cString_zero.symm⟩
    · obtain ⟨calls, hrun, htext⟩ := ih ((List.mem_cons.mp h).resolve_left (Ne.symm hc))
      refine ⟨[c] :: calls, ?_, ?_⟩
      · rw [if_neg hc, hrun]
        rfl
      · rw [List.flatten_cons, htext, cString_cons hc]
        rfl

/-- One conversion prints its text, and leaves the arguments of the others. -/
theorem printConversion_spec (hd : c ≠ 100) (hm : Matches (.conversion c :: ps) args) :
    ∃ calls args', printConversion c args = .ok (calls, args') ∧ Matches ps args' ∧
      expandFormat (.conversion c :: ps) args = calls.flatten ++ expandFormat ps args' := by
  unfold Matches at hm
  unfold printConversion
  rw [expandFormat_conversion]
  by_cases hpercent : c = 37
  · subst hpercent
    exact ⟨[[37]], args, if_pos rfl, hm, if_pos rfl⟩
  rw [if_neg hpercent, if_neg hpercent]
  by_cases hs : c = 115
  · subst hs
    obtain ⟨bytes, args', rfl, hnul, hm⟩ := hm
    obtain ⟨calls, hrun, htext⟩ := printString_spec hnul
    refine ⟨calls, args', ?_, hm, ?_⟩
    · rw [if_pos rfl, vaStr, ok_bind]
      exact bind_eq_ok.mpr ⟨_, hrun, rfl⟩
    · rw [htext]
      exact if_pos (.inl rfl)
  rw [if_neg hs] at hm
  rw [if_neg hs]
  by_cases hu : c = 117
  · subst hu
    obtain ⟨value, args', rfl, hm⟩ := hm
    refine ⟨[numeral 10 value.toNat], args', ?_, hm, ?_⟩
    · rw [if_pos rfl, vaWord, ok_bind]
      exact bind_eq_ok.mpr ⟨_, printDecimalUnsigned_spec value.toNat_lt, rfl⟩
    · rw [List.flatten_singleton]
      exact if_pos (.inr (.inl rfl))
  rw [if_neg hu, if_neg hd]
  by_cases hx : c = 120
  · subst hx
    obtain ⟨value, args', rfl, hm⟩ := hm
    refine ⟨[fixedNumeral 16 8 value.toNat], args', ?_, hm, ?_⟩
    · rw [if_pos rfl, vaWord, ok_bind]
      exact bind_eq_ok.mpr ⟨_, printHexadecimal_spec value.toNat_lt, rfl⟩
    · rw [List.flatten_singleton]
      exact if_pos (.inr (.inr rfl))
  · rw [if_neg (by tauto)] at hm
    rw [if_neg hx, if_neg (by tauto)]
    exact ⟨[], args, rfl, hm, rfl⟩

/-- The characters that `vprintf` sends to the screen, part by part. -/
theorem vprintf_spec : ∀ {fmt : List UInt8} {args : List PrintArg}, 0 ∈ fmt →
    .conversion 100 ∉ pieces (cString fmt) → Matches (pieces (cString fmt)) args →
    ∃ calls, vprintf fmt args = .ok calls ∧ calls.flatten = expandFormat (pieces (cString fmt)) args
  | [], _, hnul, _, _ => absurd hnul List.not_mem_nil
  | c :: fmt, args, hnul, hd, hm => by
    unfold vprintf
    by_cases hc : c = 0
    · subst hc
      rw [cString_zero]
      exact ⟨[], if_pos rfl, rfl⟩
    have hnul₁ := (List.mem_cons.mp hnul).resolve_left (Ne.symm hc)
    rw [cString_cons hc] at hd hm ⊢
    rw [if_neg hc]
    by_cases hpercent : c = 37
    · subst hpercent
      rw [if_pos rfl]
      cases fmt with
      | nil => exact absurd hnul₁ List.not_mem_nil
      | cons d fmt =>
        by_cases hd₀ : d = 0
        · -- the format string ends after a `%`
          subst hd₀
          rw [cString_zero]
          exact ⟨[], if_pos rfl, rfl⟩
        have hnul₂ := (List.mem_cons.mp hnul₁).resolve_left (Ne.symm hd₀)
        have hpieces : pieces (37 :: cString (d :: fmt)) =
            .conversion d :: pieces (cString fmt) := by
          rw [cString_cons hd₀]
          exact if_pos rfl
        rw [hpieces] at hd hm ⊢
        obtain ⟨hne, hd⟩ := not_or.mp (mt List.mem_cons.mpr hd)
        obtain ⟨calls, args', hrun, hm, htext⟩ :=
          printConversion_spec (fun heq => hne (congrArg Piece.conversion heq.symm)) hm
        obtain ⟨rest, hrest, htext'⟩ := vprintf_spec hnul₂ hd hm
        refine ⟨calls ++ rest, ?_, ?_⟩
        · dsimp only
          rw [if_neg hd₀, hrun, ok_bind]
          exact bind_eq_ok.mpr ⟨_, hrest, rfl⟩
        · rw [htext, List.flatten_append, htext']
    · rw [if_neg hpercent]
      rw [pieces_char hpercent] at hd hm ⊢
      obtain ⟨rest, hrest, htext⟩ :=
        vprintf_spec hnul₁ (fun hmem => hd (List.mem_cons_of_mem _ hmem)) hm
      refine ⟨[c] :: rest, bind_eq_ok.mpr ⟨_, hrest, rfl⟩, ?_⟩
      rw [List.flatten_cons, htext]
      rfl

/-- For every format string without `%d` and all arguments that match it, `vprintf` sends exactly
its text to the screen. The numerals in it can be read back. -/
theorem vprintf_expands {fmt : List UInt8} (hnul : 0 ∈ fmt)
    (hd : .conversion 100 ∉ pieces (cString fmt)) (hm : Matches (pieces (cString fmt)) args) :
    (∃ calls, vprintf fmt args = .ok calls ∧
      calls.flatten = expandFormat (pieces (cString fmt)) args) ∧
    ∀ value : UInt32, IsNumeral 10 value.toNat (numeral 10 value.toNat) ∧
      (fixedNumeral 16 8 value.toNat).length = 8 ∧ Digits 16 (fixedNumeral 16 8 value.toNat) ∧
      Numeral.value 16 (fixedNumeral 16 8 value.toNat) = value.toNat := by
  refine ⟨vprintf_spec hnul hd hm, fun value => ⟨isNumeral_numeral (by decide) (by decide) _,
    length_fixedNumeral _ _ _, digits_fixedNumeral (by decide), ?_⟩⟩
  rw [value_fixedNumeral (by decide) (by decide)]
  exact Nat.mod_eq_of_lt value.toNat_lt

/-- `printf("%u%%%q%s%x%", 7, "ok", 255)`. -/
theorem vprintf_expands_all : ∃ calls,
    vprintf [37, 117, 37, 37, 37, 113, 37, 115, 37, 120, 37, 0]
        [.word 7, .str [111, 107, 0], .word 255] = .ok calls ∧
      calls.flatten = [55, 37, 111, 107, 48, 48, 48, 48, 48, 48, 102, 102] :=
  (@vprintf_expands [.word 7, .str [111, 107, 0], .word 255]
    [37, 117, 37, 37, 37, 113, 37, 115, 37, 120, 37, 0] (by decide) (by decide)
    ⟨7, _, rfl, [111, 107, 0], _, rfl, by decide, 255, _, rfl, trivial⟩).1

/-- What is printed string by string is on the screen character by character. -/
theorem ScreenInv.printCalls {m : Mem} {s : Screen} {t : Terminal UInt8} (h : ScreenInv m s t)
    (calls : List (List UInt8)) : ScreenInv m (calls.foldl screenPrintWithLen s)
      (calls.flatten.foldl (fun t c => t.put 80 25 (terminalChar c)) t) := by
  induction calls generalizing s t with
  | nil => exact h
  | cons str calls ih =>
    rw [List.flatten_cons, List.foldl_append]
    exact ih (h.printAll str).updateTextCursor

/-- After `vprintf` the screen is the window of the terminal on which the text was written. -/
theorem vprintf_shows {m : Mem} {s : Screen} {t : Terminal UInt8} (h : ScreenInv m s t)
    {fmt : List UInt8} (hnul : 0 ∈ fmt) (hd : .conversion 100 ∉ pieces (cString fmt))
    (hm : Matches (pieces (cString fmt)) args) :
    ∃ calls, vprintf fmt args = .ok calls ∧ ScreenInv m (calls.foldl screenPrintWithLen s)
      ((expandFormat (pieces (cString fmt)) args).foldl
        (fun t c => t.put 80 25 (terminalChar c)) t) := by
  obtain ⟨calls, hrun, htext⟩ := vprintf_spec hnul hd hm
  refine ⟨calls, hrun, ?_⟩
  rw [← htext]
  exact h.printCalls calls

end Format

end RawOS
