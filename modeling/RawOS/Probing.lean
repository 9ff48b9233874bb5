import Mathlib.Data.List.Perm.Basic
import Mathlib.Data.List.Range
import Mathlib.Logic.Function.Basic
import Mathlib.Tactic.SplitIfs

/-!
# Linear probing

A table of `n` slots in a circle, where an entry stands at its home or after it, and no slot between
the two is empty (`Reach`). Then a search from the home of an entry to the first empty slot finds
it. When an entry is taken out, `Gapped` describes the table while the entries after the gap are
moved back: `Reach.gapped` starts, `Gapped.skip` and `Gapped.move` are the two steps, and
`Gapped.reach` ends at the next empty slot.
-/

namespace Probing

/-! ## Distances in a circle -/

/-- The steps from slot `a` to slot `b`. -/
def dist (n a b : ℕ) : ℕ := if a ≤ b then b - a else b + n - a

section Dist

variable {n a b c p : ℕ}

@[simp] theorem dist_self (n a : ℕ) : dist n a a = 0 := by
  unfold dist
  rw [if_pos le_rfl, Nat.sub_self]

theorem dist_lt (ha : a < n) (hb : b < n) : dist n a b < n := by
  unfold dist
  split_ifs <;> omega

theorem dist_inj (ha : a < n) (hb : b < n) (hc : c < n) (h : dist n a b = dist n a c) : b = c := by
  unfold dist at h
  split_ifs at h <;> omega

theorem dist_pos (ha : a < n) (h : a ≠ b) : 0 < dist n a b := by
  unfold dist
  split_ifs <;> omega

theorem succ_mod (hp : p < n) : (p + 1) % n = if p + 1 = n then 0 else p + 1 := by
  split_ifs with h
  · rw [h, Nat.mod_self]
  · exact Nat.mod_eq_of_lt (by omega)

theorem succ_mod_lt (hp : p < n) : (p + 1) % n < n := Nat.mod_lt _ (by omega)

/-- A step away from `a`, unless it leads back to `a`. -/
theorem dist_succ (ha : a < n) (hp : p < n) (h : (p + 1) % n ≠ a) :
    dist n a ((p + 1) % n) = dist n a p + 1 := by
  rw [succ_mod hp] at h ⊢
  unfold dist
  split_ifs at h ⊢ <;> omega

/-- A step towards `b`. -/
theorem dist_succ_left (hp : p < n) (hb : b < n) (h : p ≠ b) :
    dist n ((p + 1) % n) b + 1 = dist n p b := by
  rw [succ_mod hp]
  unfold dist
  split_ifs <;> omega

/-- From the slot after `p`, any other slot comes before `p`. -/
theorem dist_succ_lt (hp : p < n) (hb : b < n) (h : p ≠ b) :
    dist n ((p + 1) % n) b < dist n ((p + 1) % n) p := by
  have hlt := dist_lt (succ_mod_lt hp) hb
  rw [succ_mod hp] at hlt ⊢
  unfold dist at hlt ⊢
  split_ifs at hlt ⊢ <;> omega

end Dist

variable {α : Type} {n : ℕ} {home : α → ℕ} {slots : ℕ → Option α}

/-- Every entry can be reached from its home. -/
def Reach (n : ℕ) (home : α → ℕ) (slots : ℕ → Option α) : Prop :=
  ∀ q < n, ∀ x, slots q = some x → ∀ r < n, dist n (home x) r < dist n (home x) q → slots r ≠ none

/-- As `Reach`, but for the gap `g`; the entries from the gap up to `p` do not need it. -/
structure Gapped (n : ℕ) (home : α → ℕ) (slots : ℕ → Option α) (g p : ℕ) : Prop where
  gap : slots g = none
  reach : ∀ q < n, ∀ x, slots q = some x → ∀ r < n, dist n (home x) r < dist n (home x) q →
    slots r = none → r = g ∧ dist n g p ≤ dist n g q

section Gap

variable {g p : ℕ}

theorem Reach.gapped (h : Reach n home slots) (hg : g < n) (hn : 1 < n) :
    Gapped n home (Function.update slots g none) g ((g + 1) % n) := by
  refine ⟨Function.update_self g none slots, fun q hq x hx r hr hd hrn => ?_⟩
  have hqg : q ≠ g := by
    rintro rfl
    simp at hx
  rw [Function.update_of_ne hqg] at hx
  have hrg : r = g := by
    by_contra hne
    rw [Function.update_of_ne hne] at hrn
    exact h q hq x hx r hr hd hrn
  refine ⟨hrg, ?_⟩
  have hne : (g + 1) % n ≠ g := by
    rw [succ_mod hg]
    split_ifs <;> omega
  rw [dist_succ hg hg hne, dist_self]
  exact dist_pos hg (Ne.symm hqg)

/-- The entry at `p` does not need the gap. -/
theorem Gapped.skip (h : Gapped n home slots g p) (hg : g < n) (hp : p < n) {x : α}
    (hx : slots p = some x) (hfar : ¬ dist n (home x) g ≤ dist n (home x) p) :
    Gapped n home slots g ((p + 1) % n) := by
  refine ⟨h.gap, fun q hq y hy r hr hd hrn => ?_⟩
  obtain ⟨rfl, hle⟩ := h.reach q hq y hy r hr hd hrn
  refine ⟨rfl, ?_⟩
  by_cases hpg : (p + 1) % n = r
  · rw [hpg, dist_self]
    exact Nat.zero_le _
  · rw [dist_succ hg hp hpg]
    refine Nat.lt_of_le_of_ne hle fun heq => ?_
    obtain rfl := dist_inj hg hp hq heq
    rw [hx] at hy
    cases hy
    omega

/-- The entry at `p` is moved to the gap, and leaves a gap. -/
theorem Gapped.move (h : Gapped n home slots g p) (hp : p < n) {x : α} (hx : slots p = some x)
    (hnear : dist n (home x) g ≤ dist n (home x) p) :
    Gapped n home (Function.update (Function.update slots p none) g (some x)) p ((p + 1) % n) := by
  have hpg : p ≠ g := by
    rintro rfl
    rw [h.gap] at hx
    cases hx
  constructor
  · rw [Function.update_of_ne hpg, Function.update_self]
  · intro q hq y hy r hr hd hrn
    have hrg : r ≠ g := by
      rintro rfl
      simp at hrn
    have hqp : q ≠ p := by
      rintro rfl
      rw [Function.update_of_ne hpg, Function.update_self] at hy
      cases hy
    rw [Function.update_of_ne hrg] at hrn
    -- the slot `r` is the new gap: any other one would have been empty before
    have hrp : r = p := by
      by_contra hne
      rw [Function.update_of_ne hne] at hrn
      by_cases hqg : q = g
      · subst hqg
        rw [Function.update_self] at hy
        cases hy
        exact hrg (h.reach p hp x hx r hr (hd.trans_le hnear) hrn).1
      · rw [Function.update_of_ne hqg, Function.update_of_ne hqp] at hy
        exact hrg (h.reach q hq y hy r hr hd hrn).1
    refine ⟨hrp, ?_⟩
    by_cases hne : (p + 1) % n = p
    · rw [hne, dist_self]
      exact Nat.zero_le _
    · rw [dist_succ hp hp hne, dist_self]
      exact dist_pos hp (Ne.symm hqp)

/-- At the next empty slot no entry needs the gap any more. -/
theorem Gapped.reach_of_none (h : Gapped n home slots g p) (hg : g < n) (hp : p < n)
    (hhome : ∀ x, home x < n) (hpg : p ≠ g) (hnone : slots p = none) : Reach n home slots := by
  intro q hq x hx r hr hd hrn
  obtain ⟨rfl, hle⟩ := h.reach q hq x hx r hr hd hrn
  have hqp : p ≠ q := by
    rintro rfl
    rw [hnone] at hx
    cases hx
  have hlt : dist n r p < dist n r q :=
    Nat.lt_of_le_of_ne hle fun heq => hqp (dist_inj hg hp hq heq)
  -- then the empty slot lies between the home of the entry and the entry
  have hpath : dist n (home x) p < dist n (home x) q := by
    have hh := hhome x
    unfold dist at *
    split_ifs at * <;> omega
  exact hpg (h.reach q hq x hx p hp hpath hnone).1

end Gap

/-! ## The entries of a table -/

/-- The entries, in the order of the slots. -/
def entries (n : ℕ) (slots : ℕ → Option α) : List α := (List.range n).filterMap slots

section Entries

variable {p q : ℕ} {x : α}

theorem mem_entries : x ∈ entries n slots ↔ ∃ q < n, slots q = some x := by
  simp [entries]

theorem entries_empty (h : ∀ q < n, slots q = none) : entries n slots = [] := by
  unfold entries
  rw [List.filterMap_eq_nil_iff]
  exact fun q hq => h q (List.mem_range.mp hq)

/-- A table with fewer entries than slots has an empty slot. -/
theorem exists_none (h : (entries n slots).length < n) : ∃ q < n, slots q = none := by
  by_contra hno
  have hlen : (entries n slots).length = n := by
    rw [entries, List.length_filterMap_eq_countP, List.countP_eq_length.mpr, List.length_range]
    intro q hq
    rw [Option.isSome_iff_ne_none]
    exact fun hq' => hno ⟨q, List.mem_range.mp hq, hq'⟩
  omega

/-- What is in one slot, and what is in the others. -/
theorem entries_perm (hp : p < n) :
    (entries n slots).Perm ((slots p).toList ++ entries n (Function.update slots p none)) := by
  obtain ⟨k, rfl⟩ : ∃ k, n = p + (1 + k) := ⟨n - p - 1, by omega⟩
  have hlo : ∀ f : ℕ → Option α, entries (p + (1 + k)) f = (List.range p).filterMap f ++
      ((f p).toList ++ ((List.range k).map fun i => p + (1 + i)).filterMap f) := by
    intro f
    rw [entries, List.range_add, List.range_add, List.filterMap_append]
    congr 1
    rw [List.map_append, List.filterMap_append]
    congr 1
    cases f p <;> simp [Nat.add_assoc]
  rw [hlo, hlo, Function.update_self]
  have hsame : ∀ l : List ℕ, (∀ q ∈ l, q ≠ p) →
      l.filterMap (Function.update slots p none) = l.filterMap slots := by
    intro l hl
    refine List.filterMap_congr fun q hq => Function.update_of_ne (hl q hq) _ _
  rw [hsame, hsame]
  · exact (List.perm_append_comm_assoc _ _ _)
  · intro q hq
    obtain ⟨i, -, rfl⟩ := List.mem_map.mp hq
    omega
  · intro q hq
    exact (List.mem_range.mp hq).ne

theorem entries_update_some (hp : p < n) :
    (entries n (Function.update slots p (some x))).Perm
      (x :: entries n (Function.update slots p none)) := by
  have h := @entries_perm _ _ (Function.update slots p (some x)) _ hp
  rwa [Function.update_self, Function.update_idem] at h

theorem entries_of_some (hp : p < n) (hx : slots p = some x) :
    (entries n slots).Perm (x :: entries n (Function.update slots p none)) := by
  have h := @entries_perm _ _ slots _ hp
  rwa [hx] at h

theorem entries_of_none (hx : slots p = none) : Function.update slots p none = slots :=
  Function.update_eq_self_iff.mpr hx.symm

/-- Moving an entry. -/
theorem entries_move (hp : p < n) (hq : q < n) (hx : slots p = some x) (hnone : slots q = none) :
    (entries n (Function.update (Function.update slots p none) q (some x))).Perm
      (entries n slots) := by
  have hqp : q ≠ p := by
    rintro rfl
    rw [hx] at hnone
    cases hnone
  have hnone' : Function.update slots p none q = none := by
    rw [Function.update_of_ne hqp, hnone]
  calc (entries n (Function.update (Function.update slots p none) q (some x))).Perm
        (x :: entries n (Function.update (Function.update slots p none) q none)) :=
        entries_update_some hq
    _ = x :: entries n (Function.update slots p none) := by rw [entries_of_none hnone']
    _ |>.Perm (entries n slots) := (entries_of_some hp hx).symm

end Entries

end Probing
