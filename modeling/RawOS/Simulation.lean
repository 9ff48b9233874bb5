import Mathlib.Tactic.TypeStar

/-!
# Traces and simulation

A `Trace` is a run of a labelled transition system with its labels. `Trace.invariant` is what every
step keeps, and `Trace.simulates` that a system has the traces of one that it simulates.
-/

namespace RawOS

section

variable {α β ε : Type*} {Step : α → ε → α → Prop} {Step' : β → ε → β → Prop} {a a' : α} {b : β}
  {es : List ε} {e : ε}

/-- The steps from `a` with the labels. -/
inductive Trace (Step : α → ε → α → Prop) (a : α) : List ε → α → Prop where
  | start : Trace Step a [] a
  | step {es : List ε} {e : ε} {a₁ a₂ : α} : Trace Step a es a₁ → Step a₁ e a₂ →
    Trace Step a (es ++ [e]) a₂

/-- What each step keeps is kept by a run, if its labels are among those that keep it. -/
theorem Trace.invariant {I : α → Prop} {P : ε → Prop}
    (hstep : ∀ {a e a'}, I a → P e → Step a e a' → I a') (h : Trace Step a es a')
    (hes : ∀ e ∈ es, P e) (ha : I a) : I a' := by
  induction h with
  | start => exact ha
  | step _ hs ih =>
    exact hstep (ih fun e he => hes e (List.mem_append_left _ he))
      (hes _ (List.mem_append_right _ List.mem_cons_self)) hs

/-- Each step is one of the other system, from states in the relation to states in the relation. -/
theorem Trace.simulates {R : α → β → Prop}
    (hstep : ∀ {a b e a'}, R a b → Step a e a' → ∃ b', Step' b e b' ∧ R a' b')
    (h : Trace Step a es a') (hR : R a b) : ∃ b', Trace Step' b es b' ∧ R a' b' := by
  induction h with
  | start => exact ⟨b, .start, hR⟩
  | step _ hs ih =>
    obtain ⟨b₁, hb₁, hR₁⟩ := ih
    obtain ⟨b₂, hs', hR₂⟩ := hstep hR₁ hs
    exact ⟨b₂, .step hb₁ hs', hR₂⟩

end

end RawOS
