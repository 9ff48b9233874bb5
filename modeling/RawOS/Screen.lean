import RawOS.Terminal
import RawOS.Util
import Mathlib.Algebra.Order.Ring.Int

/-!
# `screen.c`

The screen is the 25 rows of 80 cells at `0xB8000`, each a character and its attribute. `Shows`
says that it is the window of a `Terminal`; `screen_shows` is that it stays so, with the cursor
inside and no byte beside the video memory touched, whatever is printed.
-/

namespace RawOS

def videoMemoryAddress : ℕ := 0xB8000
def whiteOnBlackAttribute : UInt8 := 0x0F
def videoColsNum : ℕ := 80
def videoRowsNum : ℕ := 25

/-- The memory, the cursor, and the registers of the text cursor in the device. -/
structure Screen where
  mem : Mem
  cursorPos : ℤ
  crtRegisters : ℕ → UInt8

/-- `&video_memory[i]`. -/
def videoByte (i : ℤ) : ℕ := (videoMemoryAddress + i).toNat

def updateTextCursor (s : Screen) : Screen :=
  let registers := Function.update s.crtRegisters 0x0E (UInt8.ofInt (s.cursorPos >>> (8 : ℕ)))
  { s with crtRegisters := Function.update registers 0x0F (UInt8.ofInt s.cursorPos) }

/-- `print_at`, in the memory. -/
def printAt (m : Mem) (c : UInt8) (y x : ℤ) : Mem :=
  let m := store8 m (videoByte ((y * videoColsNum + x) * 2)) c
  store8 m (videoByte ((y * videoColsNum + x) * 2 + 1)) whiteOnBlackAttribute

def screenPosCursor (s : Screen) (x y : ℕ) : Except Panic Screen := do
  assert (x < videoColsNum)
    "error setting screen X cursor position: %u must be smaller than %u."
  assert (y < videoRowsNum)
    "error setting screen Y cursor position: %u must be smaller than %u."
  return { s with cursorPos := videoColsNum * y + x }

/-- The loop of `shift_one_line_up` and of `screen_clear`: `n` cells from cell `first` on. -/
def clearCells (m : Mem) (first : ℕ) : ℕ → Mem
  | 0 => m
  | n + 1 =>
    let m := clearCells m first n
    let m := store8 m (videoByte (2 * (first + n))) 0
    store8 m (videoByte (2 * (first + n) + 1)) 0xF

def shiftOneLineUp (m : Mem) : Mem :=
  let m := memcpy m videoMemoryAddress (videoMemoryAddress + videoColsNum * 2)
    ((videoRowsNum - 1) * videoColsNum * 2)
  clearCells m ((videoRowsNum - 1) * videoColsNum) videoColsNum

/-- The body of the loop of `screen_print_with_len`. -/
def screenPrintStep (s : Screen) (c : UInt8) : Screen :=
  let s :=
    if c = 10 then
      { s with cursorPos := s.cursorPos + (videoColsNum - s.cursorPos.tmod videoColsNum) }
    else
      let y := s.cursorPos.tdiv videoColsNum
      let x := s.cursorPos.tmod videoColsNum
      { s with mem := printAt s.mem c y x, cursorPos := s.cursorPos + 1 }
  if s.cursorPos ≥ (videoColsNum * videoRowsNum : ℤ) then
    { s with cursorPos := s.cursorPos - videoColsNum, mem := shiftOneLineUp s.mem }
  else s

/-- `screen_print_with_len`, for the bytes of the string. -/
def screenPrintWithLen (s : Screen) (str : List UInt8) : Screen :=
  updateTextCursor (str.foldl screenPrintStep s)

def screenClear (s : Screen) : Screen :=
  updateTextCursor { s with mem := clearCells s.mem 0 (videoColsNum * videoRowsNum), cursorPos := 0 }

/-! ## The video memory -/

section

variable {m : Mem} {i j n x y first : ℕ} {c : UInt8} {s : Screen} {t : Terminal UInt8}

theorem clearCells_succ (m : Mem) (first n : ℕ) : clearCells m first (n + 1) =
    store8 (store8 (clearCells m first n) (0xB8000 + 2 * (first + n)) 0)
      (0xB8000 + 2 * (first + n) + 1) 0xF := by
  have h₁ : videoByte (2 * ((first : ℤ) + n)) = 0xB8000 + 2 * (first + n) := by
    unfold videoByte videoMemoryAddress
    omega
  have h₂ : videoByte (2 * ((first : ℤ) + n) + 1) = 0xB8000 + 2 * (first + n) + 1 := by
    unfold videoByte videoMemoryAddress
    omega
  rw [clearCells, h₁, h₂]

theorem clearCells_of_outside (hx : x < 0xB8000 + 2 * first ∨ 0xB8000 + 2 * (first + n) ≤ x) :
    clearCells m first n x = m x := by
  induction n with
  | zero => rfl
  | succ n ih =>
    rw [clearCells_succ, store8_of_ne (by omega), store8_of_ne (by omega)]
    exact ih (by omega)

theorem clearCells_char (hi : first ≤ i) (hn : i < first + n) :
    clearCells m first n (0xB8000 + 2 * i) = 0 := by
  induction n with
  | zero => omega
  | succ n ih =>
    rw [clearCells_succ, store8_of_ne (by omega)]
    by_cases h : i = first + n
    · rw [h, store8, if_pos rfl]
    · rw [store8_of_ne (by omega)]
      exact ih (by omega)

theorem clearCells_attribute (hi : first ≤ i) (hn : i < first + n) :
    clearCells m first n (0xB8000 + 2 * i + 1) = 0xF := by
  induction n with
  | zero => omega
  | succ n ih =>
    rw [clearCells_succ]
    by_cases h : i = first + n
    · rw [h, store8, if_pos rfl]
    · rw [store8_of_ne (by omega), store8_of_ne (by omega)]
      exact ih (by omega)

theorem shiftOneLineUp_eq (m : Mem) :
    shiftOneLineUp m = clearCells (memcpy m 0xB8000 (0xB8000 + 160) 3840) 1920 80 := rfl

theorem shiftOneLineUp_rows (hj : j < 3840) :
    shiftOneLineUp m (0xB8000 + j) = m (0xB8000 + 160 + j) := by
  rw [shiftOneLineUp_eq, clearCells_of_outside (by omega)]
  exact memcpy_of_le (by omega) hj

theorem shiftOneLineUp_of_outside (hx : x < 0xB8000 ∨ 0xB8000 + 4000 ≤ x) :
    shiftOneLineUp m x = m x := by
  rw [shiftOneLineUp_eq, clearCells_of_outside (by omega)]
  exact memcpy_of_outside (by omega)

theorem printAt_eq (m : Mem) (c : UInt8) (y x : ℕ) : printAt m c y x =
    store8 (store8 m (0xB8000 + 2 * (80 * y + x)) c) (0xB8000 + 2 * (80 * y + x) + 1) 0x0F := by
  have h₁ : videoByte (((y : ℤ) * videoColsNum + x) * 2) = 0xB8000 + 2 * (80 * y + x) := by
    unfold videoByte videoMemoryAddress videoColsNum
    omega
  have h₂ : videoByte (((y : ℤ) * videoColsNum + x) * 2 + 1) = 0xB8000 + 2 * (80 * y + x) + 1 := by
    unfold videoByte videoMemoryAddress videoColsNum
    omega
  unfold printAt whiteOnBlackAttribute
  rw [h₁, h₂]

/-! ## The window -/

/-- The video memory is the window of the terminal, with the cursor at the same place. -/
structure Shows (s : Screen) (t : Terminal UInt8) : Prop where
  cursor : s.cursorPos = (80 * (t.row - t.top) + t.column : ℕ)
  cell : ∀ y < 25, ∀ x < 80, s.mem (0xB8000 + 2 * (80 * y + x)) = t.cells (t.top + y) x
  colour : ∀ i < 2000, s.mem (0xB8000 + 2 * i + 1) = whiteOnBlackAttribute

/-- The row and the column of the cursor. -/
theorem Shows.divMod (h : Shows s t) (hc : t.column < 80) :
    s.cursorPos.tdiv videoColsNum = (t.row - t.top : ℕ) ∧
      s.cursorPos.tmod videoColsNum = t.column := by
  unfold videoColsNum
  rw [h.cursor, ← Int.ofNat_tdiv, ← Int.ofNat_tmod]
  constructor <;> congr 1 <;> omega

theorem Shows.newline (h : Shows s t) (hf : t.Fits 80 25 0) :
    Shows { s with cursorPos := s.cursorPos + (videoColsNum - s.cursorPos.tmod videoColsNum) }
      t.newline := by
  have hcursor := h.cursor
  have htop := hf.top_le
  have hcolumn := hf.column_lt
  refine ⟨?_, h.cell, h.colour⟩
  rw [(h.divMod hcolumn).2]
  unfold Terminal.newline videoColsNum
  dsimp only
  omega

theorem Shows.write (h : Shows s t) (hf : t.Fits 80 25 0) (c : UInt8) :
    Shows { s with
      mem := printAt s.mem c (s.cursorPos.tdiv videoColsNum) (s.cursorPos.tmod videoColsNum)
      cursorPos := s.cursorPos + 1 } (t.write 80 c) := by
  have hcursor := h.cursor
  have htop := hf.top_le
  have hrow := hf.row_lt
  have hcolumn := hf.column_lt
  obtain ⟨hdiv, hmod⟩ := h.divMod hcolumn
  rw [hdiv, hmod, printAt_eq]
  have hcells : (t.write 80 c).cells =
      Function.update t.cells t.row (Function.update (t.cells t.row) t.column c) := by
    unfold Terminal.write
    dsimp only
    split_ifs <;> rfl
  have htop' : (t.write 80 c).top = t.top := by
    unfold Terminal.write
    dsimp only
    split_ifs <;> rfl
  refine ⟨?_, fun y hy x hx => ?_, fun i hi => ?_⟩
  · unfold Terminal.write
    dsimp only
    split_ifs with hend
    · unfold Terminal.newline
      dsimp only
      omega
    · dsimp only
      omega
  · rw [hcells, htop']
    dsimp only
    rw [store8_of_ne (by omega)]
    by_cases hyr : t.top + y = t.row
    · rw [hyr, Function.update_self]
      by_cases hxc : x = t.column
      · rw [hxc, Function.update_self, store8, if_pos (by omega)]
      · rw [Function.update_of_ne hxc, store8_of_ne (by omega), h.cell y hy x hx, hyr]
    · rw [Function.update_of_ne hyr, store8_of_ne (by omega)]
      exact h.cell y hy x hx
  · dsimp only
    by_cases hi' : i = 80 * (t.row - t.top) + t.column
    · rw [hi', store8, if_pos rfl]
      rfl
    · rw [store8_of_ne (by omega), store8_of_ne (by omega)]
      exact h.colour i hi

/-- The video memory moves up where the window slides down. -/
theorem Shows.slide (h : Shows s t) (hr : t.Reaches 80 25 0) :
    Shows (if s.cursorPos ≥ (videoColsNum * videoRowsNum : ℤ) then
      { s with cursorPos := s.cursorPos - videoColsNum, mem := shiftOneLineUp s.mem } else s)
      (t.slide 25) := by
  have hcursor := h.cursor
  have htop := hr.top_le
  have hrow := hr.row_le
  have hcolumn := hr.column_lt
  have hcolumn' := hr.column
  unfold Terminal.slide videoColsNum videoRowsNum
  split_ifs with hscroll hend hend
  · refine ⟨?_, fun y hy x hx => ?_, fun i hi => ?_⟩
    · dsimp only
      omega
    · dsimp only
      by_cases hlast : y = 24
      · -- the new row
        rw [hr.below _ (by omega), shiftOneLineUp_eq]
        exact clearCells_char (by omega) (by omega)
      · rw [shiftOneLineUp_rows (by omega), show t.top + 1 + y = t.top + (y + 1) by omega,
          ← h.cell (y + 1) (by omega) x hx]
        congr 1
        omega
    · dsimp only
      by_cases hlast : 1920 ≤ i
      · rw [shiftOneLineUp_eq]
        exact clearCells_attribute hlast (by omega)
      · rw [Nat.add_assoc, shiftOneLineUp_rows (by omega), ← h.colour (i + 80) (by omega)]
        congr 1
        omega
  · omega
  · omega
  · exact h

/-- The character of a byte of a string. -/
def terminalChar (c : UInt8) : Option UInt8 := if c = 10 then none else some c

theorem Shows.printStep (h : Shows s t) (hf : t.Fits 80 25 0) (c : UInt8) :
    Shows (screenPrintStep s c) (t.put 80 25 (terminalChar c)) := by
  unfold screenPrintStep terminalChar Terminal.put
  by_cases hc : c = 10
  · rw [if_pos hc, if_pos hc]
    exact (h.newline hf).slide hf.newline
  · rw [if_neg hc, if_neg hc]
    exact (h.write hf c).slide hf.write

/-- Only the video memory is written. -/
theorem screenPrintStep_of_outside (h : Shows s t) (hf : t.Fits 80 25 0) (c : UInt8)
    (hx : x < 0xB8000 ∨ 0xB8000 + 4000 ≤ x) : (screenPrintStep s c).mem x = s.mem x := by
  have htop := hf.top_le
  have hrow := hf.row_lt
  have hcolumn := hf.column_lt
  obtain ⟨hdiv, hmod⟩ := h.divMod hcolumn
  have hprint : printAt s.mem c (s.cursorPos.tdiv videoColsNum) (s.cursorPos.tmod videoColsNum) x =
      s.mem x := by
    rw [hdiv, hmod, printAt_eq, store8_of_ne (by omega), store8_of_ne (by omega)]
  unfold screenPrintStep
  by_cases hc : c = 10
  · rw [if_pos hc]
    dsimp only
    split_ifs
    · exact shiftOneLineUp_of_outside hx
    · rfl
  · rw [if_neg hc]
    dsimp only
    split_ifs
    · exact (shiftOneLineUp_of_outside hx).trans hprint
    · exact hprint

/-! ## Runs -/

/-- A call of `screen_print_with_len`, `screen_clear` or `screen_pos_cursor`. -/
inductive ScreenCommand where
  | print (str : List UInt8)
  | clear
  | posCursor (x y : ℕ)

namespace ScreenCommand

def run : ScreenCommand → Screen → Except Panic Screen
  | print str, s => .ok (screenPrintWithLen s str)
  | clear, s => .ok (screenClear s)
  | posCursor x y, s => screenPosCursor s x y

/-- The same on the terminal. -/
def onTerminal : ScreenCommand → Terminal UInt8 → Terminal UInt8
  | print str, t => str.foldl (fun t c => t.put 80 25 (terminalChar c)) t
  | clear, _ => .blank 0
  | posCursor x y, t => t.moveTo x y

def InRange : ScreenCommand → Prop
  | posCursor x y => x < videoColsNum ∧ y < videoRowsNum
  | _ => True

def runAll : List ScreenCommand → Screen → Except Panic Screen
  | [], s => .ok s
  | c :: cs, s => do
    let s ← c.run s
    runAll cs s

end ScreenCommand

/-- The screen `s` is the window of `t`, and all that was written since `m` is the video memory. -/
structure ScreenInv (m : Mem) (s : Screen) (t : Terminal UInt8) : Prop where
  window : Shows s t
  fits : t.Fits 80 25 0
  outside : ∀ x, x < 0xB8000 ∨ 0xB8000 + 4000 ≤ x → s.mem x = m x

theorem ScreenInv.cursor (h : ScreenInv m s t) : 0 ≤ s.cursorPos ∧ s.cursorPos < 80 * 25 := by
  have hcursor := h.window.cursor
  have htop := h.fits.top_le
  have hrow := h.fits.row_lt
  have hcolumn := h.fits.column_lt
  omega

theorem screenInv_clear (s : Screen) : ScreenInv s.mem (screenClear s) (.blank 0) := by
  have hmem : (screenClear s).mem = clearCells s.mem 0 2000 := rfl
  refine ⟨⟨rfl, fun y hy x hx => ?_, fun i hi => ?_⟩, Terminal.fits_blank (by decide) (by decide),
    fun x hx => ?_⟩
  · rw [hmem]
    exact clearCells_char (Nat.zero_le _) (by omega)
  · rw [hmem]
    exact clearCells_attribute (Nat.zero_le _) (by omega)
  · rw [hmem]
    exact clearCells_of_outside (by omega)

theorem ScreenInv.printAll (h : ScreenInv m s t) (str : List UInt8) :
    ScreenInv m (str.foldl screenPrintStep s)
      (str.foldl (fun t c => t.put 80 25 (terminalChar c)) t) := by
  induction str generalizing s t with
  | nil => exact h
  | cons c str ih =>
    refine ih ⟨h.window.printStep h.fits c, h.fits.put (by decide) _, fun x hx => ?_⟩
    rw [screenPrintStep_of_outside h.window h.fits c hx, h.outside x hx]

theorem ScreenInv.updateTextCursor (h : ScreenInv m s t) : ScreenInv m (updateTextCursor s) t :=
  ⟨⟨h.window.cursor, h.window.cell, h.window.colour⟩, h.fits, h.outside⟩

theorem ScreenInv.command (h : ScreenInv m s t) {c : ScreenCommand} (hc : c.InRange) :
    ∃ s', c.run s = .ok s' ∧ ScreenInv m s' (c.onTerminal t) := by
  cases c with
  | print str => exact ⟨_, rfl, (h.printAll str).updateTextCursor⟩
  | clear =>
    obtain ⟨hs, hf, hout⟩ := screenInv_clear s
    exact ⟨_, rfl, hs, hf, fun x hx => (hout x hx).trans (h.outside x hx)⟩
  | posCursor x y =>
    obtain ⟨hx, hy⟩ := hc
    refine ⟨{ s with cursorPos := videoColsNum * y + x }, ?_, ⟨?_, h.window.cell, h.window.colour⟩,
      h.fits.moveTo hx hy, h.outside⟩
    · show screenPosCursor s x y = _
      unfold screenPosCursor
      rw [assert_of_true hx, assert_of_true hy]
      rfl
    · unfold ScreenCommand.onTerminal Terminal.moveTo videoColsNum
      dsimp only
      omega

theorem ScreenInv.runAll (h : ScreenInv m s t) {cs : List ScreenCommand}
    (hcs : ∀ c ∈ cs, c.InRange) : ∃ s', ScreenCommand.runAll cs s = .ok s' ∧
      ScreenInv m s' (cs.foldl (fun t c => c.onTerminal t) t) := by
  induction cs generalizing s t with
  | nil => exact ⟨s, rfl, h⟩
  | cons c cs ih =>
    obtain ⟨s₁, hrun₁, h₁⟩ := h.command (hcs c List.mem_cons_self)
    obtain ⟨s₂, hrun₂, h₂⟩ := ih h₁ fun c hc => hcs c (.tail _ hc)
    refine ⟨s₂, ?_, h₂⟩
    unfold ScreenCommand.runAll
    rw [hrun₁]
    exact hrun₂

/-- After `screen_clear` and any calls, the video memory is the window of the terminal with the same
cursor, and nothing else is written; so it is between any two characters of the next string, and the
cursor is on the screen. -/
theorem screen_shows (s : Screen) {cs : List ScreenCommand} (hcs : ∀ c ∈ cs, c.InRange) :
    ∃ s' t, ScreenCommand.runAll cs (screenClear s) = .ok s' ∧
      t = cs.foldl (fun t c => c.onTerminal t) (.blank 0) ∧ Shows s' t ∧
      ∀ str : List UInt8,
        (0 ≤ (str.foldl screenPrintStep s').cursorPos ∧
          (str.foldl screenPrintStep s').cursorPos < 80 * 25) ∧
        Shows (str.foldl screenPrintStep s') ((ScreenCommand.print str).onTerminal t) ∧
        ∀ x, x < 0xB8000 ∨ 0xB8000 + 80 * 25 * 2 ≤ x →
          (str.foldl screenPrintStep s').mem x = s.mem x := by
  obtain ⟨s', hrun, h⟩ := (screenInv_clear s).runAll hcs
  exact ⟨s', _, hrun, rfl, h.window, fun str =>
    ⟨(h.printAll str).cursor, (h.printAll str).window, (h.printAll str).outside⟩⟩

theorem screen_shows_hello : ∃ s', ScreenCommand.runAll
    [.posCursor 79 24, .print [104, 10], .clear, .print [105]]
    (screenClear ⟨fun _ => 0, 0, fun _ => 0⟩) = .ok s' ∧ s'.cursorPos < 80 * 25 := by
  have hcs : ∀ c ∈ [ScreenCommand.posCursor 79 24, .print [104, 10], .clear, .print [105]],
      c.InRange := by
    simp [ScreenCommand.InRange, videoColsNum, videoRowsNum]
  obtain ⟨s', t, hrun, -, -, h⟩ := screen_shows ⟨fun _ => 0, 0, fun _ => 0⟩ hcs
  exact ⟨s', hrun, (h []).1.2⟩

end

end RawOS
