import Mathlib.Data.List.Chain
import Mathlib.Data.List.Rotate
import Mathlib.Logic.Function.Iterate

/-!
# Doubly linked rings

`IsRing next previous l a` says that the elements of `l`, of which `a` is the first, form a ring.
The ring may be entered at the next element (`IsRing.rotate`), an element may be inserted before
the first (`IsRing.insert`), and the first may be taken out (`IsRing.remove`); the pointers that
this writes are those of the first element and its two neighbours, which may be one.
-/

namespace RawOS

section

variable {α : Type} {next previous next' previous' : α → α} {a b x z : α} {l : List α}

/-- `b` follows `a`. -/
def Follows (next previous : α → α) (a b : α) : Prop := next a = b ∧ previous b = a

/-- The elements of `l` follow each other, and `a`, the first one, follows the last one. -/
structure IsRing (next previous : α → α) (l : List α) (a : α) : Prop where
  nodup : l.Nodup
  head : l.head? = some a
  chain : (l ++ [a]).IsChain (Follows next previous)

theorem IsRing.exists_cons (h : IsRing next previous l a) : ∃ t, l = a :: t := by
  have hhead := h.head
  cases l with
  | nil => exact absurd hhead (by simp)
  | cons b t =>
    rw [List.head?_cons, Option.some.injEq] at hhead
    exact ⟨t, by rw [hhead]⟩

/-- A chain depends on `next` of all but its last element, and on `previous` of all but its first.
-/
theorem isChain_follows_congr (h : l.IsChain (Follows next previous))
    (hn : ∀ u ∈ l.dropLast, next' u = next u) (hp : ∀ u ∈ l.tail, previous' u = previous u) :
    l.IsChain (Follows next' previous') := by
  induction l with
  | nil => exact .nil
  | cons u t ih =>
    cases t with
    | nil => exact .singleton u
    | cons v t =>
      rw [List.isChain_cons_cons] at h ⊢
      rw [List.dropLast_cons_cons] at hn
      refine ⟨⟨?_, ?_⟩, ih h.2 (fun w hw => hn w (.tail _ hw)) fun w hw => hp w (.tail _ hw)⟩
      · rw [hn u List.mem_cons_self, h.1.1]
      · rw [hp v List.mem_cons_self, h.1.2]

theorem IsRing.congr (h : IsRing next previous l a) (hn : ∀ u ∈ l, next' u = next u)
    (hp : ∀ u ∈ l, previous' u = previous u) : IsRing next' previous' l a := by
  refine ⟨h.nodup, h.head, isChain_follows_congr h.chain (fun u hu => hn u ?_) fun u hu => hp u ?_⟩
  · rwa [List.dropLast_concat] at hu
  · obtain ⟨t, rfl⟩ := h.exists_cons
    rw [List.cons_append, List.tail_cons, List.mem_append, List.mem_singleton] at hu
    rw [List.mem_cons]
    exact hu.symm

/-- The element before the first is the last one. -/
theorem IsRing.last (h : IsRing next previous l a) :
    l.getLast? = some (previous a) ∧ next (previous a) = a := by
  obtain ⟨t, rfl⟩ := h.exists_cons
  obtain ⟨-, -, hlast⟩ := List.isChain_append.mp h.chain
  obtain ⟨z, hz⟩ : ∃ z, (a :: t).getLast? = some z := ⟨_, List.getLast?_eq_some_getLast (by simp)⟩
  obtain ⟨hnext, hprev⟩ := hlast z hz a rfl
  rw [hprev]
  exact ⟨hz, hnext⟩

theorem IsRing.previous_mem (h : IsRing next previous l a) : previous a ∈ l :=
  List.mem_of_getLast? h.last.1

/-- The last element of a list without repetition is not among those before it. -/
theorem ne_of_mem_dropLast (h : l.Nodup) (hz : l.getLast? = some z) (hx : x ∈ l.dropLast) : x ≠ z := by
  rintro rfl
  have hl := List.dropLast_append_getLast? x hz
  rw [← hl, List.nodup_append] at h
  exact h.2.2 x hx x List.mem_cons_self rfl

/-- The ring from its second element on. -/
theorem IsRing.rotate (h : IsRing next previous (a :: l) a) :
    IsRing next previous (l ++ [a]) (next a) := by
  have hnodup : (l ++ [a]).Nodup :=
    (List.perm_append_singleton a l).nodup_iff.mpr h.nodup
  have hchain := h.chain
  cases l with
  | nil =>
    rw [List.cons_append, List.nil_append, List.isChain_cons_cons] at hchain
    rw [hchain.1.1]
    exact h
  | cons b l =>
    rw [List.cons_append, List.cons_append, List.isChain_cons_cons, ← List.cons_append] at hchain
    rw [hchain.1.1]
    refine ⟨hnodup, rfl, List.isChain_append.mpr ⟨hchain.2, .singleton b, ?_⟩⟩
    intro u hu v hv
    rw [List.getLast?_concat, Option.mem_def, Option.some.injEq] at hu
    rw [List.head?_cons, Option.mem_def, Option.some.injEq] at hv
    rw [← hu, ← hv]
    exact hchain.1

/-- The ring from its `n`th element on. -/
theorem IsRing.rotate_iterate (h : IsRing next previous l a) (n : ℕ) :
    IsRing next previous (l.rotate n) (next^[n] a) := by
  induction n with
  | zero =>
    rw [List.rotate_zero]
    exact h
  | succ n ih =>
    obtain ⟨t, ht⟩ := ih.exists_cons
    rw [ht] at ih
    rw [← List.rotate_rotate, ht, Function.iterate_succ_apply', List.rotate_cons_succ,
      List.rotate_zero]
    exact ih.rotate

theorem IsRing.iterate (h : IsRing next previous l a) {n : ℕ} (hn : n < l.length) :
    l[n]? = some (next^[n] a) := by
  rw [← List.head?_rotate hn]
  exact (h.rotate_iterate n).head

/-- As many steps as there are elements lead through all of them and back. -/
theorem IsRing.iterate_length (h : IsRing next previous l a) : next^[l.length] a = a := by
  have hr := (h.rotate_iterate l.length).head
  rw [List.rotate_length, h.head, Option.some.injEq] at hr
  exact hr.symm

/-- The steps are inverse to each other. -/
theorem IsRing.inverse (h : IsRing next previous l a) (hx : x ∈ l) :
    next x ∈ l ∧ previous x ∈ l ∧ previous (next x) = x ∧ next (previous x) = x := by
  obtain ⟨n, hn, rfl⟩ := List.mem_iff_getElem.mp hx
  have hget := h.iterate hn
  rw [List.getElem?_eq_getElem hn, Option.some.injEq] at hget
  rw [hget]
  have hr := h.rotate_iterate n
  obtain ⟨t, ht⟩ := hr.exists_cons
  have hmem : ∀ {u}, u ∈ l.rotate n → u ∈ l := fun hu => List.mem_rotate.mp hu
  rw [ht] at hr hmem
  have hnext := hr.rotate
  have hsecond : next (next^[n] a) ∈ t ++ [next^[n] a] := by
    obtain ⟨t', ht'⟩ := hnext.exists_cons
    rw [ht']
    exact List.mem_cons_self
  refine ⟨hmem ?_, hmem hr.previous_mem, ?_, hr.last.2⟩
  · exact (List.perm_append_singleton _ t).mem_iff.mp hsecond
  · have hlast := hnext.last.1
    rw [List.getLast?_concat, Option.some.injEq] at hlast
    exact hlast.symm

variable [DecidableEq α]

/-- An element before the first one. -/
theorem IsRing.insert (h : IsRing next previous l a) (hx : x ∉ l) :
    IsRing (Function.update (Function.update next (previous a) x) x a)
      (Function.update (Function.update previous x (previous a)) a x) (l ++ [x]) a := by
  obtain ⟨hz, -⟩ := h.last
  obtain ⟨t, rfl⟩ := h.exists_cons
  have hne : previous a ≠ x := fun heq => hx (heq ▸ h.previous_mem)
  have hax : a ≠ x := fun heq => hx (heq ▸ List.mem_cons_self)
  have hnodup := List.nodup_cons.mp h.nodup
  refine ⟨?_, rfl, ?_⟩
  · exact (List.perm_append_singleton x (a :: t)).nodup_iff.mpr (List.nodup_cons.mpr ⟨hx, h.nodup⟩)
  · rw [List.append_assoc, List.singleton_append]
    refine List.isChain_append.mpr ⟨?_, ?_, ?_⟩
    · refine isChain_follows_congr (List.isChain_append.mp h.chain).1 (fun u hu => ?_) fun u hu => ?_
      · have hux : u ≠ x := fun heq => hx (heq ▸ List.mem_of_mem_dropLast hu)
        rw [Function.update_of_ne hux, Function.update_of_ne (ne_of_mem_dropLast h.nodup hz hu)]
      · rw [List.tail_cons] at hu
        have hux : u ≠ x := fun heq => hx (heq ▸ List.mem_cons_of_mem a hu)
        have hua : u ≠ a := fun heq => hnodup.1 (heq ▸ hu)
        rw [Function.update_of_ne hua, Function.update_of_ne hux]
    · rw [List.isChain_cons_cons]
      exact ⟨⟨Function.update_self .., Function.update_self ..⟩, .singleton a⟩
    · intro u hu v hv
      rw [hz, Option.mem_def, Option.some.injEq] at hu
      rw [List.head?_cons, Option.mem_def, Option.some.injEq] at hv
      rw [← hu, ← hv]
      constructor
      · rw [Function.update_of_ne hne, Function.update_self]
      · rw [Function.update_of_ne hax.symm, Function.update_self]

/-- Without the first element. -/
theorem IsRing.remove (h : IsRing next previous (a :: b :: l) a) :
    IsRing (Function.update next (previous a) (next a))
      (Function.update previous (next a) (previous a)) (b :: l) b := by
  obtain ⟨hz, -⟩ := h.last
  have hchain := h.chain
  rw [List.cons_append, List.cons_append, List.isChain_cons_cons, ← List.cons_append] at hchain
  have hnodup := (List.nodup_cons.mp h.nodup).2
  have hz' : (b :: l).getLast? = some (previous a) := by rwa [List.getLast?_cons_cons] at hz
  rw [hchain.1.1]
  refine ⟨hnodup, rfl, List.isChain_append.mpr ⟨?_, .singleton b, ?_⟩⟩
  · refine isChain_follows_congr (List.isChain_append.mp hchain.2).1 (fun u hu => ?_) fun u hu => ?_
    · rw [Function.update_of_ne (ne_of_mem_dropLast hnodup hz' hu)]
    · rw [Function.update_of_ne]
      rintro rfl
      exact (List.nodup_cons.mp hnodup).1 hu
  · intro u hu v hv
    rw [hz', Option.mem_def, Option.some.injEq] at hu
    rw [List.head?_cons, Option.mem_def, Option.some.injEq] at hv
    rw [← hu, ← hv]
    exact ⟨Function.update_self .., Function.update_self ..⟩

end

end RawOS
