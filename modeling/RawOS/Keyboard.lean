import RawOS.Util
import Mathlib.Logic.Function.Basic

/-!
# `keyboard.c`

The state of the keyboard driver and its interrupt handler, with the keyboard part of `fs/dev.c`.
A reader registers a `Keyboard_Event_Receiver_Buffer` by its address; the handler follows the
address in the memory that it runs on.
-/

namespace RawOS

def keyboardEventBuffersMax : ℕ := 64

def keyCharacter : ℕ := 0x1
def keyControl : ℕ := 0x2
def keyUnknown : ℕ := 0x4
def keyPress : ℕ := 0x8
def keyRelease : ℕ := 0x10

def keyCodeShift : UInt8 := 1
def keyCodeCtrl : UInt8 := 1

/-- `Key_Information`. -/
structure KeyInformation where
  keyCode : UInt8
  keyFlags : ℕ
  deriving DecidableEq

namespace KeyInformation

/-- `key_flags & flag`. -/
def has (key : KeyInformation) (flag : ℕ) : Bool := key.keyFlags &&& flag != 0

end KeyInformation

/-- `Keyboard_State`. Only the first `keyboardEventBuffersNum` entries of `keyboardEventBuffers`
are in use. -/
structure KeyboardState where
  keyLookupTable : ℕ → KeyInformation
  keyboardEventBuffersNum : ℕ
  keyboardEventBuffers : ℕ → ℕ
  shiftEnabled : Bool

/-! ## `Keyboard_Event_Receiver_Buffer` -/

def kerbBuffer (m : Mem) (kerb : ℕ) : ℕ := load32 m kerb
def kerbBufferFilled (m : Mem) (kerb : ℕ) : ℕ := load32 m (kerb + 8)
def kerbEventReceived (m : Mem) (kerb : ℕ) : ℕ := load32 m (kerb + 12)

def setKerbBuffer (m : Mem) (kerb v : ℕ) : Mem := store32 m kerb v
def setKerbBufferCapacity (m : Mem) (kerb v : ℕ) : Mem := store32 m (kerb + 4) v
def setKerbBufferFilled (m : Mem) (kerb v : ℕ) : Mem := store32 m (kerb + 8) v
def setKerbEventReceived (m : Mem) (kerb v : ℕ) : Mem := store32 m (kerb + 12) v

/-! ## The table of keys -/

def characterPress (code : UInt8) : KeyInformation := ⟨code, keyCharacter ||| keyPress⟩
def characterRelease (code : UInt8) : KeyInformation := ⟨code, keyCharacter ||| keyRelease⟩
def controlPress (code : UInt8) : KeyInformation := ⟨code, keyControl ||| keyPress⟩
def controlRelease (code : UInt8) : KeyInformation := ⟨code, keyControl ||| keyRelease⟩

/-- The assignments of `keyboard_init` to the table, by scan code. -/
def keyAssignments : List (ℕ × KeyInformation) :=
  [(0x1E, characterPress 'A'.toUInt8), (0x30, characterPress 'B'.toUInt8),
    (0x2E, characterPress 'C'.toUInt8), (0x20, characterPress 'D'.toUInt8),
    (0x12, characterPress 'E'.toUInt8), (0x21, characterPress 'F'.toUInt8),
    (0x22, characterPress 'G'.toUInt8), (0x23, characterPress 'H'.toUInt8),
    (0x17, characterPress 'I'.toUInt8), (0x24, characterPress 'J'.toUInt8),
    (0x25, characterPress 'K'.toUInt8), (0x26, characterPress 'L'.toUInt8),
    (0x32, characterPress 'M'.toUInt8), (0x31, characterPress 'N'.toUInt8),
    (0x18, characterPress 'O'.toUInt8), (0x19, characterPress 'P'.toUInt8),
    (0x10, characterPress 'Q'.toUInt8), (0x13, characterPress 'R'.toUInt8),
    (0x1F, characterPress 'S'.toUInt8), (0x14, characterPress 'T'.toUInt8),
    (0x16, characterPress 'U'.toUInt8), (0x2F, characterPress 'V'.toUInt8),
    (0x2D, characterPress 'X'.toUInt8), (0x11, characterPress 'W'.toUInt8),
    (0x15, characterPress 'Y'.toUInt8), (0x2C, characterPress 'Z'.toUInt8),
    (0x35, characterPress '/'.toUInt8), (0x0C, characterPress '-'.toUInt8),
    (0x34, characterPress '.'.toUInt8), (0x9E, characterRelease 'A'.toUInt8),
    (0xB0, characterRelease 'B'.toUInt8), (0xAE, characterRelease 'C'.toUInt8),
    (0xA0, characterRelease 'D'.toUInt8), (0x92, characterRelease 'E'.toUInt8),
    (0xA1, characterRelease 'F'.toUInt8), (0xA2, characterRelease 'G'.toUInt8),
    (0xA3, characterRelease 'H'.toUInt8), (0x97, characterRelease 'I'.toUInt8),
    (0xA4, characterRelease 'J'.toUInt8), (0xA5, characterRelease 'K'.toUInt8),
    (0xA6, characterRelease 'L'.toUInt8), (0xB2, characterRelease 'M'.toUInt8),
    (0xB1, characterRelease 'N'.toUInt8), (0x98, characterRelease 'O'.toUInt8),
    (0x99, characterRelease 'P'.toUInt8), (0x90, characterRelease 'Q'.toUInt8),
    (0x93, characterRelease 'R'.toUInt8), (0x9F, characterRelease 'S'.toUInt8),
    (0x94, characterRelease 'T'.toUInt8), (0x96, characterRelease 'U'.toUInt8),
    (0xAF, characterRelease 'V'.toUInt8), (0xAD, characterRelease 'X'.toUInt8),
    (0x91, characterRelease 'W'.toUInt8), (0x95, characterRelease 'Y'.toUInt8),
    (0xAC, characterRelease 'Z'.toUInt8), (0xB5, characterRelease '/'.toUInt8),
    (0x8C, characterRelease '.'.toUInt8), (0xB4, characterRelease '-'.toUInt8),
    (0x1C, characterPress '\n'.toUInt8), (0x9C, characterRelease '\n'.toUInt8),
    (0x39, characterPress ' '.toUInt8), (0xB9, characterRelease ' '.toUInt8),
    (0x2A, controlPress keyCodeShift), (0xAA, controlRelease keyCodeShift),
    (0x36, controlPress keyCodeShift), (0xB6, controlRelease keyCodeShift),
    (0x1D, controlPress keyCodeCtrl), (0x9D, controlRelease keyCodeCtrl)]

/-- `keyboard_init`. -/
def keyboardInit : KeyboardState where
  keyLookupTable :=
    keyAssignments.foldl (fun table a => Function.update table a.1 a.2) fun _ => ⟨0, keyUnknown⟩
  keyboardEventBuffersNum := 0
  keyboardEventBuffers _ := 0
  shiftEnabled := false

/-! ## Readers -/

/-- `keyboard_register_event_buffer`. What lies behind the array is not followed. -/
def keyboardRegisterEventBuffer (k : KeyboardState) (m : Mem) (kerb : ℕ) :
    Except Panic (KeyboardState × Mem) :=
  let m := setKerbEventReceived m kerb 0
  let m := setKerbBufferFilled m kerb 0
  if k.keyboardEventBuffersNum < keyboardEventBuffersMax then
    .ok ({ k with
      keyboardEventBuffers := Function.update k.keyboardEventBuffers k.keyboardEventBuffersNum kerb
      keyboardEventBuffersNum := k.keyboardEventBuffersNum + 1 }, m)
  else .error (.undefined "keyboard_event_buffers: index out of bounds")

/-- `dev_read` on the keyboard up to its loop, with the local `kerb` at that address. -/
def devReadKeyboard (k : KeyboardState) (m : Mem) (kerb buf size : ℕ) :
    Except Panic (KeyboardState × Mem) :=
  let m := setKerbBuffer m kerb buf
  let m := setKerbEventReceived m kerb 0
  let m := setKerbBufferFilled m kerb 0
  let m := setKerbBufferCapacity m kerb size
  keyboardRegisterEventBuffer k m kerb

/-! ## The interrupt handler -/

/-- `get_key_character`. -/
def getKeyCharacter (k : KeyboardState) (keyCode : UInt8) : UInt8 :=
  if 'A'.toUInt8 ≤ keyCode ∧ keyCode ≤ 'Z'.toUInt8 then
    if k.shiftEnabled then keyCode else keyCode + 32
  else if keyCode = '-'.toUInt8 then
    if k.shiftEnabled then '_'.toUInt8 else keyCode
  else keyCode

/-- What the handler does for one registered buffer. -/
def deliverKey (m : Mem) (kerb : ℕ) (out : UInt8) : Mem :=
  let m := store8 m (kerbBuffer m kerb) out
  let m := setKerbEventReceived m kerb 1
  setKerbBufferFilled m kerb 1

/-- The loop over the first `n` registered buffers. -/
def deliverKeys (k : KeyboardState) (m : Mem) (out : UInt8) : ℕ → Mem
  | 0 => m
  | n + 1 => deliverKey (deliverKeys k m out n) (k.keyboardEventBuffers n) out

/-- `keyboard_interrupt_handler` for a scan code from the device, on the memory `m` of the process
that it interrupts. -/
def keyboardInterruptHandler (k : KeyboardState) (m : Mem) (scanCode : UInt8) :
    KeyboardState × Mem :=
  let key := k.keyLookupTable scanCode.toNat
  if key.has keyCharacter then
    if key.has keyPress then
      let out := getKeyCharacter k key.keyCode
      ({ k with keyboardEventBuffersNum := 0 }, deliverKeys k m out k.keyboardEventBuffersNum)
    else (k, m)
  else if key.has keyControl then
    if key.has keyPress then
      (if key.keyCode = keyCodeShift then { k with shiftEnabled := true } else k, m)
    else if key.has keyRelease then
      (if key.keyCode = keyCodeShift then { k with shiftEnabled := false } else k, m)
    else (k, m)
  else (k, m)

end RawOS
