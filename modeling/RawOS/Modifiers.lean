import RawOS.KeyboardRun
import Mathlib.Data.List.Induction

/-!
# Shift

`shift_enabled` is one flag for the two shift keys, and `KEY_CODE_CTRL` is `KEY_CODE_SHIFT`, so the
control key drives it as well. `shiftLaw_iff` says which sequences of scan codes do not notice:
those that press control only under a held shift, release it only without one, and never release
a shift key while the other is held.
-/

namespace RawOS

def leftShiftPress : UInt8 := 0x2A
def leftShiftRelease : UInt8 := 0xAA
def rightShiftPress : UInt8 := 0x36
def rightShiftRelease : UInt8 := 0xB6
def leftControlPress : UInt8 := 0x1D
def leftControlRelease : UInt8 := 0x9D

/-- A key that goes down with the codes `makes` and up with the codes `breaks`. -/
def keyAfter (makes breaks : List UInt8) (down : Bool) (scanCode : UInt8) : Bool :=
  if scanCode ∈ makes then true else if scanCode ∈ breaks then false else down

/-- The key is down after these scan codes. -/
def keyHeld (makes breaks scanCodes : List UInt8) : Bool :=
  scanCodes.foldl (keyAfter makes breaks) false

def leftShiftHeld : List UInt8 → Bool := keyHeld [leftShiftPress] [leftShiftRelease]
def rightShiftHeld : List UInt8 → Bool := keyHeld [rightShiftPress] [rightShiftRelease]

/-- At least one shift key is pressed and not yet released. -/
def shiftHeld (scanCodes : List UInt8) : Bool := leftShiftHeld scanCodes || rightShiftHeld scanCodes

/-- The last modifier code was a press. -/
def modifierDown : List UInt8 → Bool :=
  keyHeld [leftShiftPress, rightShiftPress, leftControlPress]
    [leftShiftRelease, rightShiftRelease, leftControlRelease]

/-- The states of the keyboard after `keyboard_init`, with the scan codes that were handled.
Readers register in between, from any memory. -/
inductive KeyboardRun : List UInt8 → KeyboardState → Prop where
  | init : KeyboardRun [] keyboardInit
  | register {scanCodes : List UInt8} {k k' : KeyboardState} {m m' : Mem} {kerb : ℕ} :
    KeyboardRun scanCodes k → keyboardRegisterEventBuffer k m kerb = .ok (k', m') →
    KeyboardRun scanCodes k'
  | key {scanCodes : List UInt8} {k : KeyboardState} (m : Mem) (scanCode : UInt8) :
    KeyboardRun scanCodes k →
    KeyboardRun (scanCodes ++ [scanCode]) (keyboardInterruptHandler k m scanCode).1

/-- The character of a key. -/
def shiftedCharacter (shift : Bool) (keyCode : UInt8) : UInt8 :=
  if 'A'.toUInt8 ≤ keyCode ∧ keyCode ≤ 'Z'.toUInt8 then
    if shift then keyCode else keyCode + 32
  else if keyCode = '-'.toUInt8 ∧ shift then '_'.toUInt8
  else keyCode

/-- A key that is pressed now reaches the readers as the shift keys have it. -/
def ShiftLaw (scanCodes : List UInt8) (k : KeyboardState) : Prop :=
  ∀ scanCode m, CharacterPress keyboardInit scanCode →
    (keyboardInterruptHandler k m scanCode).2 = deliverKeys k m
      (shiftedCharacter (shiftHeld scanCodes)
        (keyboardInit.keyLookupTable scanCode.toNat).keyCode) k.keyboardEventBuffersNum

/-- What keeps the flag in line with the shift keys. -/
structure KeepsShift (scanCodes : List UInt8) (scanCode : UInt8) : Prop where
  controlPress : scanCode = leftControlPress → shiftHeld scanCodes
  controlRelease : scanCode = leftControlRelease → ¬ shiftHeld scanCodes
  leftRelease : scanCode = leftShiftRelease → ¬ rightShiftHeld scanCodes
  rightRelease : scanCode = rightShiftRelease → ¬ leftShiftHeld scanCodes

/-! ## The flag -/

section Codes

variable {makes breaks scanCodes : List UInt8} {scanCode : UInt8}

theorem keyHeld_append : keyHeld makes breaks (scanCodes ++ [scanCode]) =
    keyAfter makes breaks (keyHeld makes breaks scanCodes) scanCode :=
  List.foldl_concat ..

/-- A scan code that meets the condition keeps the flag in line, and no other does. -/
theorem keepsShift_iff (h : modifierDown scanCodes = shiftHeld scanCodes) :
    KeepsShift scanCodes scanCode ↔
      modifierDown (scanCodes ++ [scanCode]) = shiftHeld (scanCodes ++ [scanCode]) := by
  have hdown := @keyHeld_append
    [leftShiftPress, rightShiftPress, leftControlPress]
    [leftShiftRelease, rightShiftRelease, leftControlRelease] scanCodes scanCode
  have hleft := @keyHeld_append [leftShiftPress] [leftShiftRelease] scanCodes scanCode
  have hright := @keyHeld_append [rightShiftPress] [rightShiftRelease] scanCodes scanCode
  have hcond : KeepsShift scanCodes scanCode ↔
      (scanCode = leftControlPress → shiftHeld scanCodes) ∧
      (scanCode = leftControlRelease → ¬ shiftHeld scanCodes) ∧
      (scanCode = leftShiftRelease → ¬ rightShiftHeld scanCodes) ∧
      (scanCode = rightShiftRelease → ¬ leftShiftHeld scanCodes) :=
    ⟨fun ⟨h₁, h₂, h₃, h₄⟩ => ⟨h₁, h₂, h₃, h₄⟩, fun ⟨h₁, h₂, h₃, h₄⟩ => ⟨h₁, h₂, h₃, h₄⟩⟩
  rw [hcond]
  unfold shiftHeld modifierDown leftShiftHeld rightShiftHeld at *
  rw [hdown, hleft, hright, h]
  generalize keyHeld [leftShiftPress] [leftShiftRelease] scanCodes = left
  generalize keyHeld [rightShiftPress] [rightShiftRelease] scanCodes = right
  clear h hdown hleft hright hcond
  by_cases hcode : scanCode ∈ [leftShiftPress, leftShiftRelease, rightShiftPress,
      rightShiftRelease, leftControlPress, leftControlRelease]
  · simp only [List.mem_cons, List.not_mem_nil, or_false] at hcode
    rcases hcode with rfl | rfl | rfl | rfl | rfl | rfl <;> revert left right <;> decide
  · simp only [List.mem_cons, List.not_mem_nil, or_false, not_or] at hcode
    obtain ⟨h₁, h₂, h₃, h₄, h₅, h₆⟩ := hcode
    simp [keyAfter, h₁, h₂, h₃, h₄, h₅, h₆]

end Codes

section Handler

variable {k : KeyboardState} {m : Mem} {scanCode : UInt8}

/-- What a key does to `shift_enabled`. -/
def shiftEffect (key : KeyInformation) (shift : Bool) : Bool :=
  if key.has keyCharacter ∨ ¬ key.has keyControl ∨ key.keyCode ≠ keyCodeShift then shift
  else if key.has keyPress then true
  else if key.has keyRelease then false
  else shift

theorem keyboardInterruptHandler_shift :
    (keyboardInterruptHandler k m scanCode).1.shiftEnabled =
      shiftEffect (k.keyLookupTable scanCode.toNat) k.shiftEnabled := by
  unfold keyboardInterruptHandler shiftEffect
  dsimp only
  split_ifs <;> first | rfl | simp_all

/-- The control key has the code of the shift keys. -/
theorem shiftEffect_init (shift : Bool) :
    shiftEffect (keyboardInit.keyLookupTable scanCode.toNat) shift =
      keyAfter [leftShiftPress, rightShiftPress, leftControlPress]
        [leftShiftRelease, rightShiftRelease, leftControlRelease] shift scanCode := by
  have hall : ∀ n < 256, ∀ shift, shiftEffect (keyboardInit.keyLookupTable n) shift =
      keyAfter [leftShiftPress, rightShiftPress, leftControlPress]
        [leftShiftRelease, rightShiftRelease, leftControlRelease] shift (UInt8.ofNat n) := by
    decide +kernel
  have := hall scanCode.toNat (UInt8.toNat_lt scanCode) shift
  rwa [UInt8.ofNat_toNat] at this

theorem keyboardInterruptHandler_table :
    (keyboardInterruptHandler k m scanCode).1.keyLookupTable = k.keyLookupTable := by
  unfold keyboardInterruptHandler
  dsimp only
  split_ifs <;> rfl

theorem keyboardInterruptHandler_num (h : k.keyboardEventBuffersNum = 0) :
    (keyboardInterruptHandler k m scanCode).1.keyboardEventBuffersNum = 0 := by
  unfold keyboardInterruptHandler
  dsimp only
  split_ifs <;> first | rfl | exact h

theorem keyboardRegisterEventBuffer_eq {k' : KeyboardState} {m' : Mem} {kerb : ℕ}
    (h : keyboardRegisterEventBuffer k m kerb = .ok (k', m')) :
    k'.keyLookupTable = k.keyLookupTable ∧ k'.shiftEnabled = k.shiftEnabled := by
  unfold keyboardRegisterEventBuffer at h
  dsimp only at h
  split_ifs at h
  cases h
  exact ⟨rfl, rfl⟩

end Handler

section Runs

variable {scanCodes : List UInt8} {k : KeyboardState}

/-- The flag is that of the last modifier code. -/
theorem KeyboardRun.flag (h : KeyboardRun scanCodes k) :
    k.keyLookupTable = keyboardInit.keyLookupTable ∧ k.shiftEnabled = modifierDown scanCodes := by
  induction h with
  | init => exact ⟨rfl, rfl⟩
  | register _ hreg ih =>
    obtain ⟨htable, hshift⟩ := keyboardRegisterEventBuffer_eq hreg
    exact ⟨htable.trans ih.1, hshift.trans ih.2⟩
  | key m scanCode _ ih =>
    refine ⟨keyboardInterruptHandler_table.trans ih.1, ?_⟩
    rw [keyboardInterruptHandler_shift, ih.1, ih.2, shiftEffect_init]
    exact keyHeld_append.symm

/-- Keys may arrive with nobody reading. -/
theorem exists_keyboardRun (scanCodes : List UInt8) :
    ∃ k, KeyboardRun scanCodes k ∧ k.keyboardEventBuffersNum = 0 := by
  induction scanCodes using List.reverseRecOn with
  | nil => exact ⟨_, .init, rfl⟩
  | append_singleton scanCodes scanCode ih =>
    obtain ⟨k, hrun, hnum⟩ := ih
    exact ⟨_, .key (fun _ => 0) scanCode hrun, keyboardInterruptHandler_num hnum⟩

theorem getKeyCharacter_eq (keyCode : UInt8) :
    getKeyCharacter k keyCode = shiftedCharacter k.shiftEnabled keyCode := by
  unfold getKeyCharacter shiftedCharacter
  cases k.shiftEnabled <;> simp

theorem KeyboardRun.press (h : KeyboardRun scanCodes k) {scanCode : UInt8} {m : Mem}
    (hc : CharacterPress keyboardInit scanCode) :
    (keyboardInterruptHandler k m scanCode).2 = deliverKeys k m
      (shiftedCharacter (modifierDown scanCodes)
        (keyboardInit.keyLookupTable scanCode.toNat).keyCode) k.keyboardEventBuffersNum := by
  obtain ⟨htable, hshift⟩ := h.flag
  rw [keyboardInterruptHandler_press (by unfold CharacterPress; rw [htable]; exact hc),
    getKeyCharacter_eq, htable, hshift]

/-- A reader at the address 16 with a buffer at 0. -/
theorem exists_reader (scanCodes : List UInt8) : ∃ k, KeyboardRun scanCodes k ∧
    ∀ out, deliverKeys k (fun _ => 0) out k.keyboardEventBuffersNum 0 = out := by
  obtain ⟨k, hrun, hnum⟩ := exists_keyboardRun scanCodes
  have hreg : keyboardRegisterEventBuffer k (fun _ => 0) 16 = .ok ({ k with
      keyboardEventBuffers := Function.update k.keyboardEventBuffers k.keyboardEventBuffersNum 16
      keyboardEventBuffersNum := k.keyboardEventBuffersNum + 1 },
      setKerbBufferFilled (setKerbEventReceived (fun _ => 0) 16 0) 16 0) := by
    unfold keyboardRegisterEventBuffer
    exact if_pos (by rw [hnum]; decide)
  refine ⟨_, .register hrun hreg, fun out => ?_⟩
  rw [hnum]
  show deliverKey _ (Function.update k.keyboardEventBuffers 0 16 0) out 0 = out
  rw [Function.update_self]
  rfl

/-- Where the flag is wrong, the key `A` is delivered wrongly. -/
theorem shiftLaw_at_iff : (∀ k, KeyboardRun scanCodes k → ShiftLaw scanCodes k) ↔
    modifierDown scanCodes = shiftHeld scanCodes := by
  constructor
  · intro hlaw
    obtain ⟨k, hrun, hreader⟩ := exists_reader scanCodes
    have hc : CharacterPress keyboardInit 0x1E := ⟨by decide, by decide⟩
    have heq := (hrun.press hc).symm.trans (hlaw k hrun 0x1E (fun _ => 0) hc)
    have hbyte := congrFun heq 0
    rw [hreader, hreader] at hbyte
    revert hbyte
    cases modifierDown scanCodes <;> cases shiftHeld scanCodes <;> decide
  · intro hflag k hrun scanCode m hc
    rw [hrun.press hc, hflag]

end Runs

/-! ## Every sequence of scan codes -/

/-- The readers get what the shift keys say all along, exactly if no scan code breaks the line
between them and the flag. -/
theorem shiftLaw_iff (scanCodes : List UInt8) :
    (∀ handled, handled <+: scanCodes → ∀ k, KeyboardRun handled k → ShiftLaw handled k) ↔
      ∀ handled scanCode, handled ++ [scanCode] <+: scanCodes → KeepsShift handled scanCode := by
  simp only [shiftLaw_at_iff]
  constructor
  · intro hlaw handled scanCode hpre
    have hflag := hlaw handled ((List.prefix_append _ _).trans hpre)
    exact (keepsShift_iff hflag).mpr (hlaw _ hpre)
  · intro hkeeps handled
    induction handled using List.reverseRecOn with
    | nil => exact fun _ => rfl
    | append_singleton handled scanCode ih =>
      intro hpre
      have hflag := ih ((List.prefix_append _ _).trans hpre)
      exact (keepsShift_iff hflag).mp (hkeeps _ _ hpre)

/-- Control is pressed, and a reader gets an upper-case letter. -/
theorem not_shiftLaw_control : ∃ k m, KeyboardRun [leftControlPress] k ∧
    ¬ shiftHeld [leftControlPress] ∧ ¬ ShiftLaw [leftControlPress] k ∧
    (keyboardInterruptHandler k m 0x1E).2 0 = 'A'.toUInt8 := by
  obtain ⟨k, hrun, hreader⟩ := exists_reader [leftControlPress]
  have hc : CharacterPress keyboardInit 0x1E := ⟨by decide, by decide⟩
  have hpress := @KeyboardRun.press _ _ hrun 0x1E (fun _ => 0) hc
  refine ⟨k, fun _ => 0, hrun, by decide, fun hlaw => ?_, ?_⟩
  · have hbyte := congrFun (hpress.symm.trans (hlaw 0x1E (fun _ => 0) hc)) 0
    rw [hreader, hreader] at hbyte
    revert hbyte
    decide
  · rw [hpress, hreader]
    decide

end RawOS
