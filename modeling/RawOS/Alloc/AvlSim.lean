import RawOS.Alloc.AvlRep
import Mathlib.Tactic.Push

/-!
# Rebalancing in memory

Each function of `kalloc_avl.c`, run on a memory where a balanced tree stands, leaves the tree
that the function of the same name on `AvlTree` computes, and writes only the nodes it names.

1. `rotateLeft_rep` … `doubleRotateRight_rep`: the rotations.
2. `insertFixRight_rep` … `removeFixLeft_rep`: one level of rebalancing, where the assertions on
   the balance factor hold.
-/

namespace RawOS

open AvlTree (mk Balanced Bounded Grown Lowered)

section

variable {base : ℕ} {m : Mem} {p q : ℕ} {h h' : ℤ} {k k' : Hole} {l r a b : HoleTree}

/-! ## Rotations -/

/-- `update_node_height` puts the node in place over its subtrees. -/
theorem updateNodeHeight_rep (hP : Pool base (mk p k l r).labels)
    (hn : readNode m p = ⟨l.ptr, r.ptr, h, k.size, k.addr⟩) (hl : Rep m l) (hr : Rep m r)
    (hbl : l.Bounded) (hbr : r.Bounded) :
    Rep (updateNodeHeight m p) (mk p k l r) ∧ Frame m (updateNodeHeight m p) [p] := by
  rw [AvlTree.labels_mk] at hP
  have hnd := hP.nodup
  simp only [List.nodup_append, List.nodup_cons, List.mem_cons] at hnd
  have hlen := hP.length
  obtain ⟨hl₀, hl₁⟩ := hbl
  obtain ⟨hr₀, hr₁⟩ := hbr
  simp only [List.length_append, List.length_cons] at hlen
  rw [updateNodeHeight_eq hn hl hr]
  have hf := frame_setHeight m p (max r.ht l.ht + 1)
  refine ⟨⟨hP.pos p (by simp), ?_, ?_, ?_⟩, hf⟩
  · rw [readNode_setHeight (by omega) (by omega), hn]
  · refine hf.rep hP.slots (by simp) (by simp +contextual) ?_ hl
    rw [List.disjoint_singleton]
    exact fun hm => hnd.2.2 p hm p (.inl rfl) rfl
  · refine hf.rep hP.slots (by simp) (by simp +contextual) ?_ hr
    rw [List.disjoint_singleton]
    exact hnd.2.1.1

theorem rotateLeft_rep (hP : Pool base (AvlTree.node p h k l (.node q h' k' a b)).labels)
    (ht : Rep m (.node p h k l (.node q h' k' a b))) (hl : l.Bounded) (ha : a.Bounded)
    (hb : b.Bounded) :
    (rotateLeft m p).1 = q ∧
      Rep (rotateLeft m p).2 (AvlTree.node p h k l (.node q h' k' a b)).rotateLeft ∧
      Frame m (rotateLeft m p).2 [p, q] := by
  obtain ⟨hp0, hnp, hrl, hq0, hnq, hra, hrb⟩ := ht
  have hnd := hP.nodup
  simp only [AvlTree.labels_node, List.nodup_append, List.nodup_cons, List.mem_append,
    List.mem_cons, not_or] at hnd
  have hS := hP.slots
  have hpq : Apart p q := hS.apart (by simp) (by simp) hnd.2.1.1.2.1
  have hright : nodeRight m p = q := congrArg AvlNode.right hnp
  have hleft : nodeLeft m q = a.ptr := congrArg AvlNode.left hnq
  -- after the two stores
  obtain ⟨m₂, hm₂⟩ : ∃ m₂, m₂ = setLeft (setRight m p a.ptr) q p := ⟨_, rfl⟩
  have hrun : rotateLeft m p = (q, updateNodeHeight (updateNodeHeight m₂ p) q) := by
    unfold rotateLeft
    simp only [hright, hleft, hm₂]
  have hf₂ : Frame m m₂ [p, q] := hm₂ ▸
    ((frame_setRight m p a.ptr).mono (by simp)).trans ((frame_setLeft _ q p).mono (by simp))
  have hnp₂ : readNode m₂ p = ⟨l.ptr, a.ptr, h, k.size, k.addr⟩ := by
    rw [hm₂, readNode_setLeft_of_apart hpq, readNode_setRight (hP.ptr_lt (by simp +contextual)),
      hnp]
  have hnq₂ : readNode m₂ q = ⟨p, b.ptr, h', k'.size, k'.addr⟩ := by
    rw [hm₂, readNode_setLeft (hP.lt (by simp)), readNode_setRight_of_apart hpq.symm, hnq]
  have hl₂ := hf₂.rep hS (by simp) (by simp +contextual) (by grind [List.Disjoint]) hrl
  have ha₂ := hf₂.rep hS (by simp) (by simp +contextual) (by grind [List.Disjoint]) hra
  have hb₂ := hf₂.rep hS (by simp) (by simp +contextual) (by grind [List.Disjoint]) hrb
  -- the old root, then the new one
  obtain ⟨hp₃, hf₃⟩ := updateNodeHeight_rep (hP.sublist (by simp)) hnp₂ hl₂ ha₂ hl ha
  have hnq₃ : readNode (updateNodeHeight m₂ p) q =
      ⟨(mk p k l a).ptr, b.ptr, h', k'.size, k'.addr⟩ := by
    rw [hf₃.readNode (by simpa using hpq.symm), hnq₂]
    rfl
  have hb₃ := hf₃.rep hS (by simp) (by simp +contextual) (by grind [List.Disjoint]) hb₂
  obtain ⟨hq₄, hf₄⟩ :=
    updateNodeHeight_rep (hP.perm (by simp)) hnq₃ hp₃ hb₃ (AvlTree.bounded_mk hl ha) hb
  rw [hrun]
  exact ⟨rfl, hq₄, hf₂.trans ((hf₃.mono (by simp)).trans (hf₄.mono (by simp)))⟩

theorem rotateRight_rep (hP : Pool base (AvlTree.node p h k (.node q h' k' a b) r).labels)
    (ht : Rep m (.node p h k (.node q h' k' a b) r)) (hr : r.Bounded) (ha : a.Bounded)
    (hb : b.Bounded) :
    (rotateRight m p).1 = q ∧
      Rep (rotateRight m p).2 (AvlTree.node p h k (.node q h' k' a b) r).rotateRight ∧
      Frame m (rotateRight m p).2 [p, q] := by
  obtain ⟨hp0, hnp, ⟨hq0, hnq, hra, hrb⟩, hrr⟩ := ht
  have hnd := hP.nodup
  simp only [AvlTree.labels_node, List.nodup_append, List.nodup_cons, List.mem_append,
    List.mem_cons] at hnd
  have hS := hP.slots
  have hpq : Apart p q := hS.apart (by simp) (by simp) (by grind)
  have hleft : nodeLeft m p = q := congrArg AvlNode.left hnp
  have hright : nodeRight m q = b.ptr := congrArg AvlNode.right hnq
  -- after the two stores
  obtain ⟨m₂, hm₂⟩ : ∃ m₂, m₂ = setRight (setLeft m p b.ptr) q p := ⟨_, rfl⟩
  have hrun : rotateRight m p = (q, updateNodeHeight (updateNodeHeight m₂ p) q) := by
    unfold rotateRight
    simp only [hright, hleft, hm₂]
  have hf₂ : Frame m m₂ [p, q] := hm₂ ▸
    ((frame_setLeft m p b.ptr).mono (by simp)).trans ((frame_setRight _ q p).mono (by simp))
  have hnp₂ : readNode m₂ p = ⟨b.ptr, r.ptr, h, k.size, k.addr⟩ := by
    rw [hm₂, readNode_setRight_of_apart hpq, readNode_setLeft (hP.ptr_lt (by simp +contextual)),
      hnp]
  have hnq₂ : readNode m₂ q = ⟨a.ptr, p, h', k'.size, k'.addr⟩ := by
    rw [hm₂, readNode_setRight (hP.lt (by simp)), readNode_setLeft_of_apart hpq.symm, hnq]
  have hr₂ := hf₂.rep hS (by simp) (by simp +contextual) (by grind [List.Disjoint]) hrr
  have ha₂ := hf₂.rep hS (by simp) (by simp +contextual) (by grind [List.Disjoint]) hra
  have hb₂ := hf₂.rep hS (by simp) (by simp +contextual) (by grind [List.Disjoint]) hrb
  -- the old root, then the new one
  obtain ⟨hp₃, hf₃⟩ := updateNodeHeight_rep (hP.sublist (by simp)) hnp₂ hb₂ hr₂ hb hr
  have hnq₃ : readNode (updateNodeHeight m₂ p) q =
      ⟨a.ptr, (mk p k b r).ptr, h', k'.size, k'.addr⟩ := by
    rw [hf₃.readNode (by simpa using hpq.symm), hnq₂]
    rfl
  have ha₃ := hf₃.rep hS (by simp) (by simp +contextual) (by grind [List.Disjoint]) ha₂
  obtain ⟨hq₄, hf₄⟩ :=
    updateNodeHeight_rep (hP.perm (by simp)) hnq₃ ha₃ hp₃ ha (AvlTree.bounded_mk hb hr)
  rw [hrun]
  exact ⟨rfl, hq₄, hf₂.trans ((hf₃.mono (by simp)).trans (hf₄.mono (by simp)))⟩

theorem doubleRotateLeft_rep {c : ℕ} {h'' : ℤ} {k'' : Hole}
    (hP : Pool base (AvlTree.node p h k l (.node q h' k' (.node c h'' k'' a b) r)).labels)
    (ht : Rep m (.node p h k l (.node q h' k' (.node c h'' k'' a b) r))) (hl : l.Bounded)
    (ha : a.Bounded) (hb : b.Bounded) (hr : r.Bounded) :
    (doubleRotateLeft m p).1 = c ∧
      Rep (doubleRotateLeft m p).2
        (AvlTree.node p h k l (.node q h' k' (.node c h'' k'' a b) r)).doubleRotateLeft ∧
      Frame m (doubleRotateLeft m p).2 [p, q, c] := by
  obtain ⟨hp0, hnp, hrl, hq0, hnq, ⟨hc0, hnc, hra, hrb⟩, hrr⟩ := ht
  have hP' : Pool base ((mk p k l a).labels ++ c :: (mk q k' b r).labels) := hP.perm (by simp)
  have hnd := hP.nodup
  simp only [AvlTree.labels_node, List.nodup_append, List.nodup_cons, List.mem_append,
    List.mem_cons] at hnd
  have hS := hP.slots
  have hpq : Apart p q := hS.apart (by simp) (by simp) (by grind)
  have hpc : Apart p c := hS.apart (by simp) (by simp) (by grind)
  have hqc : Apart q c := hS.apart (by simp) (by simp) (by grind)
  have hright : nodeRight m p = q := congrArg AvlNode.right hnp
  have hleft : nodeLeft m q = c := congrArg AvlNode.left hnq
  have hcr : nodeRight m c = b.ptr := congrArg AvlNode.right hnc
  have hcl : nodeLeft (setLeft m q b.ptr) c = a.ptr := by
    have := readNode_setLeft_of_apart (m := m) (v := b.ptr) hqc.symm
    exact congrArg AvlNode.left (this.trans hnc)
  -- after the four stores
  obtain ⟨m₄, hm₄⟩ : ∃ m₄, m₄ = setRight (setLeft (setRight (setLeft m q b.ptr) p a.ptr) c p) c q :=
    ⟨_, rfl⟩
  have hrun : doubleRotateLeft m p =
      (c, updateNodeHeight (updateNodeHeight (updateNodeHeight m₄ p) q) c) := by
    unfold doubleRotateLeft
    simp only [hright, hleft, hcr, hcl, hm₄]
  have hf₄ : Frame m m₄ [p, q, c] := hm₄ ▸
    ((frame_setLeft m q b.ptr).mono (by simp)).trans
      (((frame_setRight _ p a.ptr).mono (by simp)).trans
        (((frame_setLeft _ c p).mono (by simp)).trans ((frame_setRight _ c q).mono (by simp))))
  have hnp₄ : readNode m₄ p = ⟨l.ptr, a.ptr, h, k.size, k.addr⟩ := by
    rw [hm₄, readNode_setRight_of_apart hpc, readNode_setLeft_of_apart hpc,
      readNode_setRight (hP.ptr_lt (by simp +contextual)), readNode_setLeft_of_apart hpq, hnp]
  have hnq₄ : readNode m₄ q = ⟨b.ptr, r.ptr, h', k'.size, k'.addr⟩ := by
    rw [hm₄, readNode_setRight_of_apart hqc, readNode_setLeft_of_apart hqc,
      readNode_setRight_of_apart hpq.symm,
      readNode_setLeft (hP.ptr_lt (by simp +contextual)), hnq]
  have hnc₄ : readNode m₄ c = ⟨p, q, h'', k''.size, k''.addr⟩ := by
    rw [hm₄, readNode_setRight (hP.lt (by simp)), readNode_setLeft (hP.lt (by simp)),
      readNode_setRight_of_apart hpc.symm, readNode_setLeft_of_apart hqc.symm, hnc]
  have hl₄ := hf₄.rep hS (by simp) (by simp +contextual) (by grind [List.Disjoint]) hrl
  have ha₄ := hf₄.rep hS (by simp) (by simp +contextual) (by grind [List.Disjoint]) hra
  have hb₄ := hf₄.rep hS (by simp) (by simp +contextual) (by grind [List.Disjoint]) hrb
  have hr₄ := hf₄.rep hS (by simp) (by simp +contextual) (by grind [List.Disjoint]) hrr
  -- the two new children, then the new root
  obtain ⟨hp₅, hf₅⟩ := updateNodeHeight_rep hP'.left hnp₄ hl₄ ha₄ hl ha
  have hnq₅ := (hf₅.readNode (by simpa using hpq.symm)).trans hnq₄
  have hb₅ := hf₅.rep hS (by simp) (by simp +contextual) (by grind [List.Disjoint]) hb₄
  have hr₅ := hf₅.rep hS (by simp) (by simp +contextual) (by grind [List.Disjoint]) hr₄
  obtain ⟨hq₆, hf₆⟩ := updateNodeHeight_rep hP'.right hnq₅ hb₅ hr₅ hb hr
  have hp₆ := hf₆.rep hS (by simp) (by simp; grind) (by simp [List.Disjoint]; grind) hp₅
  have hnc₆ : readNode (updateNodeHeight (updateNodeHeight m₄ p) q) c =
      ⟨(mk p k l a).ptr, (mk q k' b r).ptr, h'', k''.size, k''.addr⟩ := by
    rw [hf₆.readNode (by simpa using hqc.symm), hf₅.readNode (by simpa using hpc.symm), hnc₄]
    rfl
  obtain ⟨hc₇, hf₇⟩ :=
    updateNodeHeight_rep hP' hnc₆ hp₆ hq₆ (AvlTree.bounded_mk hl ha) (AvlTree.bounded_mk hb hr)
  rw [hrun]
  exact ⟨rfl, hc₇, hf₄.trans ((hf₅.mono (by simp)).trans ((hf₆.mono (by simp)).trans
    (hf₇.mono (by simp))))⟩

theorem doubleRotateRight_rep {c : ℕ} {h'' : ℤ} {k'' : Hole}
    (hP : Pool base (AvlTree.node p h k (.node q h' k' l (.node c h'' k'' a b)) r).labels)
    (ht : Rep m (.node p h k (.node q h' k' l (.node c h'' k'' a b)) r)) (hl : l.Bounded)
    (ha : a.Bounded) (hb : b.Bounded) (hr : r.Bounded) :
    (doubleRotateRight m p).1 = c ∧
      Rep (doubleRotateRight m p).2
        (AvlTree.node p h k (.node q h' k' l (.node c h'' k'' a b)) r).doubleRotateRight ∧
      Frame m (doubleRotateRight m p).2 [p, q, c] := by
  obtain ⟨hp0, hnp, ⟨hq0, hnq, hrl, hc0, hnc, hra, hrb⟩, hrr⟩ := ht
  have hP' : Pool base ((mk q k' l a).labels ++ c :: (mk p k b r).labels) := hP.perm (by simp)
  have hnd := hP.nodup
  simp only [AvlTree.labels_node, List.nodup_append, List.nodup_cons, List.mem_append,
    List.mem_cons] at hnd
  have hS := hP.slots
  have hpq : Apart p q := hS.apart (by simp) (by simp) (by grind)
  have hpc : Apart p c := hS.apart (by simp) (by simp) (by grind)
  have hqc : Apart q c := hS.apart (by simp) (by simp) (by grind)
  have hleft : nodeLeft m p = q := congrArg AvlNode.left hnp
  have hright : nodeRight m q = c := congrArg AvlNode.right hnq
  have hcl : nodeLeft m c = a.ptr := congrArg AvlNode.left hnc
  have hcr : nodeRight (setRight m q a.ptr) c = b.ptr := by
    have := readNode_setRight_of_apart (m := m) (v := a.ptr) hqc.symm
    exact congrArg AvlNode.right (this.trans hnc)
  -- after the four stores
  obtain ⟨m₄, hm₄⟩ : ∃ m₄, m₄ = setRight (setLeft (setLeft (setRight m q a.ptr) p b.ptr) c q) c p :=
    ⟨_, rfl⟩
  have hrun : doubleRotateRight m p =
      (c, updateNodeHeight (updateNodeHeight (updateNodeHeight m₄ p) q) c) := by
    unfold doubleRotateRight
    simp only [hright, hleft, hcr, hcl, hm₄]
  have hf₄ : Frame m m₄ [p, q, c] := hm₄ ▸
    ((frame_setRight m q a.ptr).mono (by simp)).trans
      (((frame_setLeft _ p b.ptr).mono (by simp)).trans
        (((frame_setLeft _ c q).mono (by simp)).trans ((frame_setRight _ c p).mono (by simp))))
  have hnp₄ : readNode m₄ p = ⟨b.ptr, r.ptr, h, k.size, k.addr⟩ := by
    rw [hm₄, readNode_setRight_of_apart hpc, readNode_setLeft_of_apart hpc,
      readNode_setLeft (hP.ptr_lt (by simp +contextual)), readNode_setRight_of_apart hpq, hnp]
  have hnq₄ : readNode m₄ q = ⟨l.ptr, a.ptr, h', k'.size, k'.addr⟩ := by
    rw [hm₄, readNode_setRight_of_apart hqc, readNode_setLeft_of_apart hqc,
      readNode_setLeft_of_apart hpq.symm,
      readNode_setRight (hP.ptr_lt (by simp +contextual)), hnq]
  have hnc₄ : readNode m₄ c = ⟨q, p, h'', k''.size, k''.addr⟩ := by
    rw [hm₄, readNode_setRight (hP.lt (by simp)), readNode_setLeft (hP.lt (by simp)),
      readNode_setLeft_of_apart hpc.symm, readNode_setRight_of_apart hqc.symm, hnc]
  have hl₄ := hf₄.rep hS (by simp) (by simp +contextual) (by grind [List.Disjoint]) hrl
  have ha₄ := hf₄.rep hS (by simp) (by simp +contextual) (by grind [List.Disjoint]) hra
  have hb₄ := hf₄.rep hS (by simp) (by simp +contextual) (by grind [List.Disjoint]) hrb
  have hr₄ := hf₄.rep hS (by simp) (by simp +contextual) (by grind [List.Disjoint]) hrr
  -- the two new children, then the new root
  obtain ⟨hp₅, hf₅⟩ := updateNodeHeight_rep hP'.right hnp₄ hb₄ hr₄ hb hr
  have hnq₅ := (hf₅.readNode (by simpa using hpq.symm)).trans hnq₄
  have hl₅ := hf₅.rep hS (by simp) (by simp +contextual) (by grind [List.Disjoint]) hl₄
  have ha₅ := hf₅.rep hS (by simp) (by simp +contextual) (by grind [List.Disjoint]) ha₄
  obtain ⟨hq₆, hf₆⟩ := updateNodeHeight_rep hP'.left hnq₅ hl₅ ha₅ hl ha
  have hp₆ := hf₆.rep hS (by simp) (by simp; grind) (by simp [List.Disjoint]; grind) hp₅
  have hnc₆ : readNode (updateNodeHeight (updateNodeHeight m₄ p) q) c =
      ⟨(mk q k' l a).ptr, (mk p k b r).ptr, h'', k''.size, k''.addr⟩ := by
    rw [hf₆.readNode (by simpa using hqc.symm), hf₅.readNode (by simpa using hpc.symm), hnc₄]
    rfl
  obtain ⟨hc₇, hf₇⟩ :=
    updateNodeHeight_rep hP' hnc₆ hq₆ hp₆ (AvlTree.bounded_mk hl ha) (AvlTree.bounded_mk hb hr)
  rw [hrun]
  exact ⟨rfl, hc₇, hf₄.trans ((hf₅.mono (by simp)).trans ((hf₆.mono (by simp)).trans
    (hf₇.mono (by simp))))⟩

/-- The rotation that the functions below choose when the right subtree is two levels too high. -/
theorem lowerRight_rep (hP : Pool base (AvlTree.node p h k l r).labels)
    (ht : Rep m (.node p h k l r)) (hl : l.Bounded) (hr : r.Balanced)
    (hlr : (r.height : ℤ) = l.ht + 2) {x : ℕ × Mem} {t : HoleTree}
    (hx : x = if r.balanceFactor = -1 then doubleRotateLeft m p else rotateLeft m p)
    (hxt : t = if r.balanceFactor = -1 then (AvlTree.node p h k l r).doubleRotateLeft
      else (AvlTree.node p h k l r).rotateLeft) :
    x.1 = t.ptr ∧ t ≠ .nil ∧ Rep x.2 t ∧ Frame m x.2 (AvlTree.node p h k l r).labels := by
  have hl₀ := hl.nonneg
  rcases r with _ | ⟨q, h', k', a, b⟩
  · rw [AvlTree.height_nil] at hlr
    omega
  obtain ⟨-, h₁, h₂, ha, hb⟩ := hr
  rw [AvlTree.height_node] at hlr
  rw [AvlTree.balanceFactor_node, ha.ht_eq, hb.ht_eq] at hx hxt
  subst hx hxt
  split_ifs with hbf
  · rcases a with _ | ⟨c, h'', k'', a, a'⟩
    · simp at hbf
    obtain ⟨-, h₃, h₄, ha, ha'⟩ := ha
    obtain ⟨hroot, hrep, hf⟩ :=
      doubleRotateLeft_rep hP ht hl ha.bounded ha'.bounded hb.bounded
    exact ⟨hroot, by simp [AvlTree.doubleRotateLeft_node, mk], hrep, hf.mono (by simp)⟩
  · obtain ⟨hroot, hrep, hf⟩ := rotateLeft_rep hP ht hl ha.bounded hb.bounded
    exact ⟨hroot, by simp [AvlTree.rotateLeft_node, mk], hrep, hf.mono (by simp)⟩

theorem lowerLeft_rep (hP : Pool base (AvlTree.node p h k l r).labels)
    (ht : Rep m (.node p h k l r)) (hl : l.Balanced) (hr : r.Bounded)
    (hlr : (l.height : ℤ) = r.ht + 2) {x : ℕ × Mem} {t : HoleTree}
    (hx : x = if l.balanceFactor = 1 then doubleRotateRight m p else rotateRight m p)
    (hxt : t = if l.balanceFactor = 1 then (AvlTree.node p h k l r).doubleRotateRight
      else (AvlTree.node p h k l r).rotateRight) :
    x.1 = t.ptr ∧ t ≠ .nil ∧ Rep x.2 t ∧ Frame m x.2 (AvlTree.node p h k l r).labels := by
  have hr₀ := hr.nonneg
  rcases l with _ | ⟨q, h', k', a, b⟩
  · rw [AvlTree.height_nil] at hlr
    omega
  obtain ⟨-, h₁, h₂, ha, hb⟩ := hl
  rw [AvlTree.height_node] at hlr
  rw [AvlTree.balanceFactor_node, ha.ht_eq, hb.ht_eq] at hx hxt
  subst hx hxt
  split_ifs with hbf
  · rcases b with _ | ⟨c, h'', k'', b, b'⟩
    · simp at hbf; omega
    obtain ⟨-, h₃, h₄, hb, hb'⟩ := hb
    obtain ⟨hroot, hrep, hf⟩ :=
      doubleRotateRight_rep hP ht ha.bounded hb.bounded hb'.bounded hr
    exact ⟨hroot, by simp [AvlTree.doubleRotateRight_node, mk], hrep, hf.mono (by simp)⟩
  · obtain ⟨hroot, hrep, hf⟩ := rotateRight_rep hP ht hr ha.bounded hb.bounded
    exact ⟨hroot, by simp [AvlTree.rotateRight_node, mk], hrep, hf.mono (by simp)⟩

/-! ## One level of rebalancing -/

/-- A call on the state `s` returned `r`: the tree `p.1` with the flag `p.2`, after writing only
the nodes in `A`. -/
structure Leaves (s : AvlState) (A : List ℕ) (p : HoleTree × Bool) (r : ℕ × AvlState) : Prop where
  root : r.1 = p.1.ptr
  rep : Rep r.2.mem p.1
  flag : r.2.subtreeHeightChanged = p.2.toNat
  free : r.2.free = s.free
  status : r.2.status = s.status
  frame : Frame s.mem r.2.mem A

/-- The height of a node is rewritten. -/
theorem Rep.setHeight_root (hP : Pool base (AvlTree.node p h k l r).labels)
    (ht : Rep m (.node p h k l r)) {z : ℤ} (h₀ : 0 ≤ z) (h₁ : z < 2147483648) :
    Rep (setHeight m p z) (.node p z k l r) := by
  obtain ⟨hp, hn, hl, hr⟩ := ht
  have hnd := hP.nodup
  simp only [AvlTree.labels_node, List.nodup_append, List.nodup_cons, List.mem_cons] at hnd
  have hf := frame_setHeight m p z
  refine ⟨hp, by rw [readNode_setHeight h₀ h₁, hn], ?_, ?_⟩
  · refine hf.rep hP.slots (by simp) (by simp +contextual) ?_ hl
    exact List.disjoint_singleton.mpr fun hm => hnd.2.2 p hm p (.inl rfl) rfl
  · refine hf.rep hP.slots (by simp) (by simp +contextual) ?_ hr
    exact List.disjoint_singleton.mpr hnd.2.1.1

section Fix

variable {s : AvlState} {n : ℕ} {t : HoleTree × Bool}

theorem insertFixRight_rep (hP : Pool base (AvlTree.node p h k l t.1).labels)
    (hR : Rep s.mem (.node p h k l t.1)) (hflag : s.subtreeHeightChanged = t.2.toNat)
    (hl : l.Balanced) (ht : Grown n t) (hh : h = (max l.height n + 1 : ℕ))
    (h₁ : l.height ≤ n + 1) (h₂ : n ≤ l.height + 1) :
    ∃ x, insertFixRight s p = .ok x ∧
      Leaves s (AvlTree.node p h k l t.1).labels (AvlTree.growRight p h k l t) x := by
  obtain ⟨r, c⟩ := t
  obtain ⟨hr, hn, -⟩ := ht
  dsimp only at hP hR hr hn hflag ⊢
  have hlen := hP.length
  have hlh := l.height_le_length_labels
  have hrh := r.height_le_length_labels
  simp only [AvlTree.labels_node, List.length_append, List.length_cons] at hlen
  have hbf : getBalanceFactor s.mem p = r.ht - l.ht := hR.getBalanceFactor (by simp)
  have hright : nodeRight s.mem p = r.ptr := congrArg AvlNode.right hR.2.1
  have hheight : nodeHeight s.mem p = h := congrArg AvlNode.height hR.2.1
  unfold insertFixRight AvlTree.growRight
  dsimp only
  rw [hbf, hl.ht_eq, hr.ht_eq, hflag, hright, hheight]
  cases c with
  | false => exact ⟨_, rfl, rfl, hR, hflag, rfl, rfl, Frame.refl _ _⟩
  | true =>
    rw [Bool.toNat_true] at hn
    rw [if_pos (by decide), assert_of_true (by omega), ok_bind, if_neg (by simp : ¬true = false)]
    obtain hb | hb | hb : (r.height : ℤ) - l.height = 0 ∨ (r.height : ℤ) - l.height = 1 ∨
        (r.height : ℤ) - l.height = 2 := by omega
    · rw [hb]
      exact ⟨_, rfl, rfl, hR, rfl, rfl, rfl, Frame.refl _ _⟩
    · rw [hb]
      exact ⟨_, rfl, rfl, hR.setHeight_root hP (by omega) (by omega), rfl, rfl, rfl,
        (frame_setHeight _ _ _).mono (by simp)⟩
    · obtain ⟨hroot, -, hrep, hf⟩ :=
        lowerRight_rep hP hR hl.bounded hr (by rw [hl.ht_eq]; omega) rfl rfl
      have hrbf : getBalanceFactor s.mem r.ptr = r.balanceFactor :=
        hR.2.2.2.getBalanceFactor (by rintro rfl; simp at hb; omega)
      rw [hb, hrbf]
      by_cases hrb : r.balanceFactor = -1
      · simp only [if_pos hrb] at hroot hrep hf ⊢
        exact ⟨_, rfl, hroot, hrep, rfl, rfl, rfl, hf⟩
      · simp only [if_neg hrb] at hroot hrep hf ⊢
        exact ⟨_, rfl, hroot, hrep, rfl, rfl, rfl, hf⟩

theorem insertFixLeft_rep (hP : Pool base (AvlTree.node p h k t.1 r).labels)
    (hR : Rep s.mem (.node p h k t.1 r)) (hflag : s.subtreeHeightChanged = t.2.toNat)
    (ht : Grown n t) (hr : r.Balanced) (hh : h = (max n r.height + 1 : ℕ))
    (h₁ : n ≤ r.height + 1) (h₂ : r.height ≤ n + 1) :
    ∃ x, insertFixLeft s p = .ok x ∧
      Leaves s (AvlTree.node p h k t.1 r).labels (AvlTree.growLeft p h k t r) x := by
  obtain ⟨l, c⟩ := t
  obtain ⟨hl, hn, -⟩ := ht
  dsimp only at hP hR hl hn hflag ⊢
  have hlen := hP.length
  have hlh := l.height_le_length_labels
  have hrh := r.height_le_length_labels
  simp only [AvlTree.labels_node, List.length_append, List.length_cons] at hlen
  have hbf : getBalanceFactor s.mem p = r.ht - l.ht := hR.getBalanceFactor (by simp)
  have hleft : nodeLeft s.mem p = l.ptr := congrArg AvlNode.left hR.2.1
  have hheight : nodeHeight s.mem p = h := congrArg AvlNode.height hR.2.1
  unfold insertFixLeft AvlTree.growLeft
  dsimp only
  rw [hbf, hl.ht_eq, hr.ht_eq, hflag, hleft, hheight]
  cases c with
  | false => exact ⟨_, rfl, rfl, hR, hflag, rfl, rfl, Frame.refl _ _⟩
  | true =>
    rw [Bool.toNat_true] at hn
    rw [if_pos (by decide), assert_of_true (by omega), ok_bind, if_neg (by simp : ¬true = false)]
    obtain hb | hb | hb : (r.height : ℤ) - l.height = 0 ∨ (r.height : ℤ) - l.height = -1 ∨
        (r.height : ℤ) - l.height = -2 := by omega
    · rw [hb]
      exact ⟨_, rfl, rfl, hR, rfl, rfl, rfl, Frame.refl _ _⟩
    · rw [hb]
      exact ⟨_, rfl, rfl, hR.setHeight_root hP (by omega) (by omega), rfl, rfl, rfl,
        (frame_setHeight _ _ _).mono (by simp)⟩
    · obtain ⟨hroot, -, hrep, hf⟩ :=
        lowerLeft_rep hP hR hl hr.bounded (by rw [hr.ht_eq]; omega) rfl rfl
      have hlbf : getBalanceFactor s.mem l.ptr = l.balanceFactor :=
        hR.2.2.1.getBalanceFactor (by rintro rfl; simp at hb)
      rw [hb, hlbf]
      by_cases hlb : l.balanceFactor = 1
      · simp only [if_pos hlb] at hroot hrep hf ⊢
        exact ⟨_, rfl, hroot, hrep, rfl, rfl, rfl, hf⟩
      · simp only [if_neg hlb] at hroot hrep hf ⊢
        exact ⟨_, rfl, hroot, hrep, rfl, rfl, rfl, hf⟩

/-- The flag that a removal reads off the rotated tree. -/
theorem removeFlag_eq {x : HoleTree} (hx : Rep m x) (hn : x ≠ .nil) (z : ℤ) :
    (if getBalanceFactor m x.ptr = z then (0 : ℤ) else 1) =
      (decide (x.balanceFactor ≠ z)).toNat := by
  rw [hx.getBalanceFactor hn]
  split_ifs with hz <;> simp [hz]

theorem removeFixRight_rep (hP : Pool base (AvlTree.node p h k l t.1).labels)
    (hR : Rep s.mem (.node p h k l t.1)) (hflag : s.subtreeHeightChanged = t.2.toNat)
    (hl : l.Balanced) (ht : Lowered n t) (h₀ : 0 < h) (hh : h ≤ (max l.height n + 1 : ℕ))
    (h₁ : l.height ≤ n + 1) (h₂ : n ≤ l.height + 1) :
    ∃ x, removeFixRight s p = .ok x ∧
      Leaves s (AvlTree.node p h k l t.1).labels (AvlTree.shrinkRight p h k l t) x := by
  obtain ⟨r, c⟩ := t
  obtain ⟨hr, hn⟩ := ht
  dsimp only at hP hR hr hn hflag ⊢
  have hlen := hP.length
  have hlh := l.height_le_length_labels
  obtain ⟨hr₀, hr₁⟩ := id hr
  simp only [AvlTree.labels_node, List.length_append, List.length_cons] at hlen
  have hbf : getBalanceFactor s.mem p = r.ht - l.ht := hR.getBalanceFactor (by simp)
  have hleft : nodeLeft s.mem p = l.ptr := congrArg AvlNode.left hR.2.1
  have hheight : nodeHeight s.mem p = h := congrArg AvlNode.height hR.2.1
  unfold removeFixRight AvlTree.shrinkRight
  dsimp only
  rw [hbf, hl.ht_eq, hflag, hleft, hheight]
  cases c with
  | false => exact ⟨_, rfl, rfl, hR, hflag, rfl, rfl, Frame.refl _ _⟩
  | true =>
    rw [Bool.toNat_true] at hn
    rw [if_pos (by decide), assert_of_true (by omega), ok_bind, if_neg (by simp : ¬true = false)]
    obtain hb | hb | hb : r.ht - l.height = 0 ∨ r.ht - l.height = -1 ∨ r.ht - l.height = -2 := by
      omega
    · rw [hb]
      exact ⟨_, rfl, rfl, hR.setHeight_root hP (by omega) (by omega), rfl, rfl, rfl,
        (frame_setHeight _ _ _).mono (by simp)⟩
    · rw [hb]
      exact ⟨_, rfl, rfl, hR, rfl, rfl, rfl, Frame.refl _ _⟩
    · obtain ⟨hroot, hne, hrep, hf⟩ := lowerLeft_rep hP hR hl hr (by omega) rfl rfl
      have hlbf : getBalanceFactor s.mem l.ptr = l.balanceFactor :=
        hR.2.2.1.getBalanceFactor (by rintro rfl; simp at hb; omega)
      rw [hb, hlbf]
      by_cases hlb : l.balanceFactor = 1
      · simp only [if_pos hlb] at hroot hne hrep hf ⊢
        refine ⟨_, rfl, hroot, hrep, ?_, rfl, rfl, hf⟩
        rw [hroot]
        exact removeFlag_eq hrep hne 1
      · simp only [if_neg hlb] at hroot hne hrep hf ⊢
        refine ⟨_, rfl, hroot, hrep, ?_, rfl, rfl, hf⟩
        rw [hroot]
        exact removeFlag_eq hrep hne 1

theorem removeFixLeft_rep (hP : Pool base (AvlTree.node p h k t.1 r).labels)
    (hR : Rep s.mem (.node p h k t.1 r)) (hflag : s.subtreeHeightChanged = t.2.toNat)
    (ht : Lowered n t) (hr : r.Balanced) (h₀ : 0 < h) (hh : h ≤ (max n r.height + 1 : ℕ))
    (h₁ : n ≤ r.height + 1) (h₂ : r.height ≤ n + 1) :
    ∃ x, removeFixLeft s p = .ok x ∧
      Leaves s (AvlTree.node p h k t.1 r).labels (AvlTree.shrinkLeft p h k t r) x := by
  obtain ⟨l, c⟩ := t
  obtain ⟨hl, hn⟩ := ht
  dsimp only at hP hR hl hn hflag ⊢
  have hlen := hP.length
  obtain ⟨hl₀, hl₁⟩ := id hl
  have hrh := r.height_le_length_labels
  simp only [AvlTree.labels_node, List.length_append, List.length_cons] at hlen
  have hbf : getBalanceFactor s.mem p = r.ht - l.ht := hR.getBalanceFactor (by simp)
  have hright : nodeRight s.mem p = r.ptr := congrArg AvlNode.right hR.2.1
  have hheight : nodeHeight s.mem p = h := congrArg AvlNode.height hR.2.1
  unfold removeFixLeft AvlTree.shrinkLeft
  dsimp only
  rw [hbf, hr.ht_eq, hflag, hright, hheight]
  cases c with
  | false => exact ⟨_, rfl, rfl, hR, hflag, rfl, rfl, Frame.refl _ _⟩
  | true =>
    rw [Bool.toNat_true] at hn
    rw [if_pos (by decide), assert_of_true (by omega), ok_bind, if_neg (by simp : ¬true = false)]
    obtain hb | hb | hb : r.height - l.ht = 0 ∨ r.height - l.ht = 1 ∨ r.height - l.ht = 2 := by
      omega
    · rw [hb]
      exact ⟨_, rfl, rfl, hR.setHeight_root hP (by omega) (by omega), rfl, rfl, rfl,
        (frame_setHeight _ _ _).mono (by simp)⟩
    · rw [hb]
      exact ⟨_, rfl, rfl, hR, rfl, rfl, rfl, Frame.refl _ _⟩
    · obtain ⟨hroot, hne, hrep, hf⟩ := lowerRight_rep hP hR hl hr (by omega) rfl rfl
      have hrbf : getBalanceFactor s.mem r.ptr = r.balanceFactor :=
        hR.2.2.2.getBalanceFactor (by rintro rfl; simp at hb; omega)
      rw [hb, hrbf]
      by_cases hrb : r.balanceFactor = -1
      · simp only [if_pos hrb] at hroot hne hrep hf ⊢
        refine ⟨_, rfl, hroot, hrep, ?_, rfl, rfl, hf⟩
        rw [hroot]
        exact removeFlag_eq hrep hne (-1)
      · simp only [if_neg hrb] at hroot hne hrep hf ⊢
        refine ⟨_, rfl, hroot, hrep, ?_, rfl, rfl, hf⟩
        rw [hroot]
        exact removeFlag_eq hrep hne (-1)

end Fix

end

end RawOS
