import RawOS.Screen

/-!
# `util/printf.c`

Memory that starts at a pointer is a list of bytes, and so is a buffer: an access outside of it is
`outOfBounds`. `vprintf` returns the strings that it gives to `screen_print_with_len`, one after the
other, and `Screen` says what that does with them.
-/

namespace RawOS

/-- An access outside of a buffer, or behind a string that does not end. -/
def outOfBounds : Panic := .undefined "printf: an access outside of a buffer"

def readByte (b : List UInt8) (i : ℤ) : Except Panic UInt8 :=
  if 0 ≤ i ∧ i < b.length then .ok (b.getD i.toNat 0) else .error outOfBounds

def writeByte (b : List UInt8) (i : ℤ) (c : UInt8) : Except Panic (List UInt8) :=
  if 0 ≤ i ∧ i < b.length then .ok (b.set i.toNat c) else .error outOfBounds

/-- `memcpy` of `n` bytes from `src` on to `dst` on, between two buffers. -/
def copyBytes (buffer : List UInt8) (dst : ℤ) (b : List UInt8) (src : ℤ) :
    ℕ → Except Panic (List UInt8)
  | 0 => .ok buffer
  | n + 1 => do
    let buffer ← copyBytes buffer dst b src n
    let c ← readByte b (src + n)
    writeByte buffer (dst + n) c

/-- `s8 b[16] = {0}`. -/
def zeroBuffer : List UInt8 := List.replicate 16 0

def strlen : List UInt8 → Except Panic ℕ
  | [] => .error outOfBounds
  | c :: str =>
    if c = 0 then .ok 0
    else do
      let len ← strlen str
      return len + 1

/-! ## Numbers -/

/-- The loop of `u32_to_str_base16`: the value and the buffer after `i` iterations. -/
def base16Loop (bitsize mask value : ℕ) (buffer : List UInt8) : ℕ → Except Panic (ℕ × List UInt8)
  | 0 => .ok (value, buffer)
  | i + 1 => do
    let (value, buffer) ← base16Loop bitsize mask value buffer i
    let f := (value &&& mask) >>> (bitsize - 4)
    let c := if f > 9 then UInt8.ofNat f + 0x57 else UInt8.ofNat f + 0x30
    let buffer ← writeByte buffer i c
    return (u32 (value <<< 4), buffer)

/-- `u32_to_str_base16`, which does not read `leading_zeros`. -/
def u32ToStrBase16 (value bitsize : ℕ) (_leadingZeros : ℤ) (buffer : List UInt8) :
    Except Panic (ℤ × List UInt8) := do
  let mask := 0xf0000000 >>> (32 - bitsize)
  let (_, buffer) ← base16Loop bitsize mask value buffer (bitsize / 4)
  return ((bitsize / 4 : ℕ), buffer)

/-- The loop of `u32_to_str` and of `s32_to_str`: the digits of `val`, from `auxbuffer` down. -/
def digitLoop : ℕ → ℤ → List UInt8 → ℤ → Except Panic (List UInt8 × ℤ)
  | 0, _, _, _ => .error .outOfFuel
  | fuel + 1, val, b, auxbuffer =>
    if val ≠ 0 then do
      let b ← writeByte b auxbuffer (48 + UInt8.ofInt (val.tmod 10))
      digitLoop fuel (val.tdiv 10) b (auxbuffer - 1)
    else .ok (b, auxbuffer)

/-- A write before the 16 bytes comes before the loop has run 17 times. -/
def digitFuel : ℕ := 17

/-- `u32_to_str` and `s32_to_str` from `auxbuffer = &b[15]` on. -/
def digitsToStr (val sum : ℤ) (buffer : List UInt8) : Except Panic (ℤ × List UInt8) := do
  let start := 15 + sum
  let (b, auxbuffer) ← digitLoop digitFuel val zeroBuffer 15
  let size := start - auxbuffer
  let buffer ← copyBytes buffer sum b (auxbuffer + 1) (size % 4294967296).toNat
  return (size, buffer)

def u32ToStr (val : ℕ) (buffer : List UInt8) : Except Panic (ℤ × List UInt8) := do
  if val = 0 then
    let buffer ← writeByte buffer 0 48
    return (1, buffer)
  digitsToStr val 0 buffer

/-- `-val` on `s32`. -/
def s32Neg (val : ℤ) : Except Panic ℤ :=
  if -val < 2147483648 then .ok (-val) else .error (.undefined "s32_to_str: -val overflows")

def s32ToStr (val : ℤ) (buffer : List UInt8) : Except Panic (ℤ × List UInt8) := do
  if val = 0 then
    let buffer ← writeByte buffer 0 48
    return (1, buffer)
  if val < 0 then
    let val ← s32Neg val
    let buffer ← writeByte buffer 0 45
    digitsToStr val 1 buffer
  else digitsToStr val 0 buffer

/-! ## What is printed -/

/-- `screen_print`: the string that it gives to `screen_print_with_len`. -/
def screenPrint (str : List UInt8) : Except Panic (List UInt8) := do
  let len ← strlen str
  return str.take len

/-- `print_string`, which gives each character to the screen by itself. -/
def printString : List UInt8 → Except Panic (List (List UInt8))
  | [] => .error outOfBounds
  | c :: str =>
    if c = 0 then .ok []
    else do
      let calls ← printString str
      return [c] :: calls

def printDecimalUnsigned (value : ℕ) : Except Panic (List (List UInt8)) := do
  let (_, mem) ← u32ToStr value zeroBuffer
  let str ← screenPrint mem
  return [str]

def printDecimalSigned (value : ℤ) : Except Panic (List (List UInt8)) := do
  let (_, mem) ← s32ToStr value zeroBuffer
  let str ← screenPrint mem
  return [str]

def printHexadecimal (value : ℕ) : Except Panic (List (List UInt8)) := do
  let (_, mem) ← u32ToStrBase16 value 32 1 zeroBuffer
  let str ← screenPrint mem
  return [str]

/-- A variadic argument: a pointer, with the memory from there on, or a word. -/
inductive PrintArg where
  | str (str : List UInt8)
  | word (value : UInt32)
  deriving DecidableEq, Repr

/-- An argument that was not passed, or another one than the format asks for. -/
def wrongArgument : Panic := .undefined "vprintf: the arguments do not match the format"

/-- `rawos_va_arg(args, const s8 *)`. -/
def vaStr : List PrintArg → Except Panic (List UInt8 × List PrintArg)
  | .str str :: args => .ok (str, args)
  | _ => .error wrongArgument

/-- `rawos_va_arg(args, u32)` and `rawos_va_arg(args, s32)`. -/
def vaWord : List PrintArg → Except Panic (UInt32 × List PrintArg)
  | .word value :: args => .ok (value, args)
  | _ => .error wrongArgument

/-- The `switch` of `vprintf`: what is printed for the character after a `%`, and the arguments that
are left. -/
def printConversion (c : UInt8) (args : List PrintArg) :
    Except Panic (List (List UInt8) × List PrintArg) :=
  if c = 37 then .ok ([[c]], args)
  else if c = 115 then do
    let (str, args) ← vaStr args
    let calls ← printString str
    return (calls, args)
  else if c = 117 then do
    let (value, args) ← vaWord args
    let calls ← printDecimalUnsigned value.toNat
    return (calls, args)
  else if c = 100 then do
    let (value, args) ← vaWord args
    let calls ← printDecimalSigned value.toBitVec.toInt
    return (calls, args)
  else if c = 120 then do
    let (value, args) ← vaWord args
    let calls ← printHexadecimal value.toNat
    return (calls, args)
  else .ok ([], args)

def vprintf : List UInt8 → List PrintArg → Except Panic (List (List UInt8))
  | [], _ => .error outOfBounds
  | c :: str, args =>
    if c = 0 then .ok []
    else if c = 37 then
      match str with
      | [] => .error outOfBounds
      | c :: str =>
        if c = 0 then .ok []
        else do
          let (calls, args) ← printConversion c args
          let rest ← vprintf str args
          return calls ++ rest
    else do
      let rest ← vprintf str args
      return [c] :: rest

end RawOS
