import Mathlib.Data.List.Basic
import Mathlib.Order.Nat

/-!
# Round robin

A queue whose first element has the turn. Elements join at the end, the first one may leave, and a
clock sends the first one to the end: at the latest when `left` ticks have passed, and then again
after at most `period` ticks. `RoundRobin.Run.mem_heads` bounds the ticks until the element at a
given place has its turn, whatever happens in between.
-/

namespace RawOS

/-- The queue, and a bound on the ticks until its first element has to go to the end. -/
structure RoundRobin (α : Type*) where
  queue : List α
  left : ℕ

namespace RoundRobin

section

variable {α : Type*} {period n t : ℕ} {heads : List α} {p : α} {X Y Z : RoundRobin α}

/-- What may happen to the queue, in `0` or `1` ticks of the clock. -/
inductive Move (period : ℕ) : RoundRobin α → ℕ → RoundRobin α → Prop where
  | stay (l : List α) (left : ℕ) : Move period ⟨l, left⟩ 0 ⟨l, left⟩
  | join (l : List α) (a : α) (left : ℕ) : Move period ⟨l, left⟩ 0 ⟨l ++ [a], left⟩
  | leave (a : α) (l : List α) (left : ℕ) : Move period ⟨a :: l, left⟩ 0 ⟨l, left⟩
  | tick (l : List α) {left : ℕ} : 0 < left → Move period ⟨l, left + 1⟩ 1 ⟨l, left⟩
  | turn (a : α) (l : List α) {left : ℕ} : 0 < left →
    Move period ⟨a :: l, left⟩ 1 ⟨l ++ [a], period⟩

/-- Any moves: the number of ticks, and the elements that had the turn. -/
inductive Run (period : ℕ) (X : RoundRobin α) : ℕ → List α → RoundRobin α → Prop where
  | start {a : α} : X.queue.head? = some a → Run period X 0 [a] X
  | step {n t : ℕ} {heads : List α} {Y Z : RoundRobin α} {a : α} : Run period X n heads Y →
    Move period Y t Z → Z.queue.head? = some a → Run period X (n + t) (a :: heads) Z

/-- `p` waits at place `i + 1`, and for at most `bound` ticks. -/
structure Waits (period : ℕ) (X : RoundRobin α) (p : α) (i bound : ℕ) : Prop where
  place : X.queue[i + 1]? = some p
  positive : 0 < X.left
  bound : period * i + X.left ≤ bound

/-- A move brings the waiting element to the front, or nearer to its turn. -/
theorem Waits.move {i bound : ℕ} (h : Waits period X p i bound) (hp : 0 < period)
    (hm : Move period X t Y) :
    Y.queue.head? = some p ∨ ∃ j, Waits period Y p j (bound - t) ∧ t ≤ bound := by
  obtain ⟨hplace, hpos, hbound⟩ := h
  cases hm with
  | stay => exact .inr ⟨i, ⟨hplace, hpos, hbound⟩, Nat.zero_le _⟩
  | join l a =>
    refine .inr ⟨i, ⟨?_, hpos, hbound⟩, Nat.zero_le _⟩
    exact List.getElem?_append_left (List.getElem?_eq_some_iff.mp hplace).1 ▸ hplace
  | leave a l =>
    rw [List.getElem?_cons_succ] at hplace
    cases i with
    | zero => exact .inl (List.head?_eq_getElem? ▸ hplace)
    | succ i =>
      refine .inr ⟨i, ⟨hplace, hpos, le_trans ?_ hbound⟩, Nat.zero_le _⟩
      exact Nat.add_le_add_right (Nat.mul_le_mul_left _ (Nat.le_succ i)) _
  | tick l hleft =>
    dsimp only at hbound
    exact .inr ⟨i, ⟨hplace, hleft, by dsimp only; omega⟩, by omega⟩
  | turn a l hleft =>
    rw [List.getElem?_cons_succ] at hplace
    have hplace' : (l ++ [a])[i]? = some p :=
      List.getElem?_append_left (List.getElem?_eq_some_iff.mp hplace).1 ▸ hplace
    cases i with
    | zero => exact .inl (List.head?_eq_getElem? ▸ hplace')
    | succ i =>
      dsimp only at hbound
      rw [Nat.mul_succ] at hbound
      exact .inr ⟨i, ⟨hplace', hp, by dsimp only; omega⟩, by omega⟩

/-- The element `i` places behind the first has had its turn after `period * i` ticks. -/
theorem Run.mem_heads {i : ℕ} (h : Run period X n heads Y) (hpos : 0 < X.left)
    (hleft : X.left ≤ period) (hi : X.queue[i]? = some p) (hn : period * i ≤ n) : p ∈ heads := by
  cases i with
  | zero =>
    -- the element that had the turn from the start
    have hp : ∀ a, X.queue.head? = some a → a = p := fun a ha => by
      rw [List.head?_eq_getElem?, hi, Option.some.injEq] at ha
      exact ha.symm
    clear hn
    induction h with
    | start ha => exact hp _ ha ▸ List.mem_cons_self
    | step _ _ _ ih => exact .tail _ ih
  | succ i =>
    have hinv : p ∈ heads ∨ n ≤ period * i + X.left ∧
        ∃ j, Waits period Y p j (period * i + X.left - n) := by
      clear hn
      induction h with
      | start => exact .inr ⟨Nat.zero_le _, i, hi, hpos, le_rfl⟩
      | @step n t heads Y Z a _ hm ha ih =>
        rcases ih with hmem | ⟨hle, j, hw⟩
        · exact .inl (.tail _ hmem)
        · rcases hw.move (hpos.trans_le hleft) hm with hhead | ⟨j', hw', ht⟩
          · rw [ha, Option.some.injEq] at hhead
            exact .inl (hhead ▸ List.mem_cons_self)
          · rw [Nat.sub_sub] at hw'
            exact .inr ⟨by omega, j', hw'⟩
    rcases hinv with hmem | ⟨-, j, hw⟩
    · exact hmem
    · have hb := hw.bound
      have hl := hw.positive
      rw [Nat.mul_succ] at hn
      omega

end

end RoundRobin

end RawOS
