import Mathlib.Data.Nat.Init
import Mathlib.Logic.Function.Basic
import Mathlib.Order.Basic
import Mathlib.Tactic.SplitIfs

/-!
# A terminal without an end

The rows of a `Terminal` go on below without an end, and a window of `height` rows of `width`
cells shows some of them. `Terminal.put` writes at the cursor and wraps at the end of a row; a
newline goes to the start of the next one, and the window slides down when the cursor would leave
it. `Fits` is what every terminal keeps: the cursor is in the window, and what is below the window
is blank.
-/

namespace RawOS

/-- The cells by row and column, the cursor, and the first row of the window. -/
structure Terminal (α : Type) where
  cells : ℕ → ℕ → α
  row : ℕ
  column : ℕ
  top : ℕ

namespace Terminal

variable {α : Type} {width height x y : ℕ} {space c : α} {t : Terminal α}

/-- The terminal before anything is written. -/
def blank (space : α) : Terminal α := ⟨fun _ _ => space, 0, 0, 0⟩

/-- The start of the next row. -/
def newline (t : Terminal α) : Terminal α := { t with row := t.row + 1, column := 0 }

/-- A character at the cursor, which goes on to the next cell. -/
def write (width : ℕ) (c : α) (t : Terminal α) : Terminal α :=
  let t := { t with
    cells := Function.update t.cells t.row (Function.update (t.cells t.row) t.column c)
    column := t.column + 1 }
  if t.column = width then t.newline else t

/-- The window follows the cursor. -/
def slide (height : ℕ) (t : Terminal α) : Terminal α :=
  if t.row = t.top + height then { t with top := t.top + 1 } else t

/-- A character, `none` for a newline. -/
def put (width height : ℕ) (c : Option α) (t : Terminal α) : Terminal α :=
  (match c with
    | none => t.newline
    | some c => t.write width c).slide height

/-- The cursor goes to column `x` of row `y` of the window. -/
def moveTo (x y : ℕ) (t : Terminal α) : Terminal α := { t with row := t.top + y, column := x }

/-- The cursor is in the window, and below the window nothing is written. -/
structure Fits (width height : ℕ) (space : α) (t : Terminal α) : Prop where
  column_lt : t.column < width
  top_le : t.top ≤ t.row
  row_lt : t.row < t.top + height
  below : ∀ y, t.top + height ≤ y → ∀ x, t.cells y x = space

theorem fits_blank (hw : 0 < width) (hh : 0 < height) :
    (blank space).Fits width height space :=
  ⟨hw, Nat.le_refl 0, Nat.lt_of_lt_of_eq hh (Nat.zero_add height).symm, fun _ _ _ => rfl⟩

theorem Fits.moveTo (h : t.Fits width height space) (hx : x < width) (hy : y < height) :
    (t.moveTo x y).Fits width height space :=
  ⟨hx, Nat.le_add_right _ _, Nat.add_lt_add_left hy _, h.below⟩

/-- As `Fits`, where the cursor may be at the start of the row below the window. -/
structure Reaches (width height : ℕ) (space : α) (t : Terminal α) : Prop where
  column_lt : t.column < width
  top_le : t.top ≤ t.row
  row_le : t.row ≤ t.top + height
  column : t.row = t.top + height → t.column = 0
  below : ∀ y, t.top + height ≤ y → ∀ x, t.cells y x = space

theorem Fits.newline (h : t.Fits width height space) : t.newline.Reaches width height space :=
  ⟨Nat.zero_lt_of_lt h.column_lt, Nat.le_succ_of_le h.top_le, h.row_lt, fun _ => rfl, h.below⟩

theorem Fits.write (h : t.Fits width height space) :
    (t.write width c).Reaches width height space := by
  have hrow := h.row_lt
  have htop := h.top_le
  have hcolumn := h.column_lt
  have hbelow : ∀ y, t.top + height ≤ y → ∀ x,
      Function.update t.cells t.row (Function.update (t.cells t.row) t.column c) y x = space := by
    intro y hy x
    rw [Function.update_of_ne (by omega)]
    exact h.below y hy x
  unfold Terminal.write
  dsimp only
  split_ifs with hend
  · exact ⟨Nat.zero_lt_of_lt hcolumn, Nat.le_succ_of_le htop, hrow, fun _ => rfl, hbelow⟩
  · refine ⟨?_, htop, Nat.le_of_lt hrow, fun heq => ?_, hbelow⟩
    · show t.column + 1 < width
      omega
    · exact absurd heq (Nat.ne_of_lt hrow)

theorem Reaches.slide (h : t.Reaches width height space) (hh : 0 < height) :
    (t.slide height).Fits width height space := by
  have htop := h.top_le
  have hrow := h.row_le
  unfold Terminal.slide
  split_ifs with hend
  · refine ⟨h.column_lt, ?_, ?_, fun y hy => h.below y ?_⟩
    · show t.top + 1 ≤ t.row
      omega
    · show t.row < t.top + 1 + height
      omega
    · dsimp only at hy
      omega
  · exact ⟨h.column_lt, htop, by omega, h.below⟩

theorem Fits.put (h : t.Fits width height space) (hh : 0 < height) (c : Option α) :
    (t.put width height c).Fits width height space := by
  cases c with
  | none => exact h.newline.slide hh
  | some c => exact h.write.slide hh

end Terminal

end RawOS
