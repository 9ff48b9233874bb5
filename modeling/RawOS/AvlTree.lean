import Mathlib.Data.Prod.Lex
import Mathlib.Data.List.Perm.Basic
import Mathlib.Tactic.SplitIfs

/-!
# AVL trees with stored heights

Search trees whose nodes carry a label, a stored height and a key. Insertion and removal keep
the heights by a flag that says whether the height of the subtree just left has changed, instead
of recomputing them: `insert` and `remove` return the new tree with that flag.

`IsAvl` is the invariant: ordered, balanced, stored heights exact. `insert_isAvl` and
`remove_isAvl` keep it, together with what the flag means; `insert_keys`, `remove_keys`,
`insert_labels` and `remove_labels` say which keys and labels are left, up to order.
-/

namespace RawOS

/-- A tree with labels in `β` and keys in `α`; `h` is the stored height of the node. -/
inductive AvlTree (β α : Type) where
  | nil : AvlTree β α
  | node (b : β) (h : ℤ) (k : α) (l r : AvlTree β α) : AvlTree β α
  deriving DecidableEq

namespace AvlTree

variable {β α : Type}

/-! ## Reading a tree -/

/-- The stored height, `0` for the empty tree. -/
def ht : AvlTree β α → ℤ
  | nil => 0
  | node _ h _ _ _ => h

/-- The true height. -/
def height : AvlTree β α → ℕ
  | nil => 0
  | node _ _ _ l r => max l.height r.height + 1

/-- The keys, in order. -/
def keys : AvlTree β α → List α
  | nil => []
  | node _ _ k l r => l.keys ++ k :: r.keys

/-- The labels, in order. -/
def labels : AvlTree β α → List β
  | nil => []
  | node b _ _ l r => l.labels ++ b :: r.labels

/-- Stored height of the right subtree less that of the left one. -/
def balanceFactor : AvlTree β α → ℤ
  | nil => 0
  | node _ _ _ l r => r.ht - l.ht

@[simp] theorem ht_nil : (nil : AvlTree β α).ht = 0 := rfl
@[simp] theorem ht_node (b : β) (h : ℤ) (k : α) (l r : AvlTree β α) : (node b h k l r).ht = h := rfl
@[simp] theorem height_nil : (nil : AvlTree β α).height = 0 := rfl
@[simp] theorem height_node (b : β) (h : ℤ) (k : α) (l r : AvlTree β α) :
    (node b h k l r).height = max l.height r.height + 1 := rfl
@[simp] theorem keys_nil : (nil : AvlTree β α).keys = [] := rfl
@[simp] theorem keys_node (b : β) (h : ℤ) (k : α) (l r : AvlTree β α) :
    (node b h k l r).keys = l.keys ++ k :: r.keys := rfl
@[simp] theorem labels_nil : (nil : AvlTree β α).labels = [] := rfl
@[simp] theorem labels_node (b : β) (h : ℤ) (k : α) (l r : AvlTree β α) :
    (node b h k l r).labels = l.labels ++ b :: r.labels := rfl
@[simp] theorem balanceFactor_node (b : β) (h : ℤ) (k : α) (l r : AvlTree β α) :
    (node b h k l r).balanceFactor = r.ht - l.ht := rfl

theorem height_le_length_labels : ∀ t : AvlTree β α, t.height ≤ t.labels.length
  | nil => le_rfl
  | node _ _ _ l r => by
    have hl := height_le_length_labels l
    have hr := height_le_length_labels r
    simp only [height_node, labels_node, List.length_append, List.length_cons]
    omega

theorem length_keys : ∀ t : AvlTree β α, t.keys.length = t.labels.length
  | nil => rfl
  | node _ _ _ l r => by simp [length_keys l, length_keys r]

/-- The heights are stored exactly, and the subtrees of each node differ in height by at most 1. -/
def Balanced : AvlTree β α → Prop
  | nil => True
  | node _ h _ l r =>
    h = (max l.height r.height + 1 : ℕ) ∧
      l.height ≤ r.height + 1 ∧ r.height ≤ l.height + 1 ∧ Balanced l ∧ Balanced r

/-- Every node is above its left subtree and below its right one. -/
def Ordered [LT α] : AvlTree β α → Prop
  | nil => True
  | node _ _ k l r =>
    (∀ x ∈ l.keys, x < k) ∧ (∀ x ∈ r.keys, k < x) ∧ Ordered l ∧ Ordered r

/-- The invariant of the tree. -/
structure IsAvl [LT α] (t : AvlTree β α) : Prop where
  ordered : t.Ordered
  balanced : t.Balanced

theorem Balanced.ht_eq {t : AvlTree β α} (h : t.Balanced) : t.ht = t.height := by
  cases t with
  | nil => rfl
  | node b h' k l r => exact h.1

theorem isAvl_nil [LT α] : (nil : AvlTree β α).IsAvl := ⟨trivial, trivial⟩

theorem IsAvl.left [LT α] {b : β} {h : ℤ} {k : α} {l r : AvlTree β α}
    (ht : (node b h k l r).IsAvl) : l.IsAvl := ⟨ht.ordered.2.2.1, ht.balanced.2.2.2.1⟩

theorem IsAvl.right [LT α] {b : β} {h : ℤ} {k : α} {l r : AvlTree β α}
    (ht : (node b h k l r).IsAvl) : r.IsAvl := ⟨ht.ordered.2.2.2, ht.balanced.2.2.2.2⟩

/-- In an ordered tree the keys are strictly increasing, so each occurs once. -/
theorem Ordered.pairwise_keys [Preorder α] : ∀ {t : AvlTree β α}, t.Ordered → t.keys.Pairwise (· < ·)
  | nil, _ => List.Pairwise.nil
  | node _ _ k l r, ⟨hl, hr, ol, or⟩ => by
    rw [keys_node, List.pairwise_append]
    refine ⟨ol.pairwise_keys, List.pairwise_cons.mpr ⟨hr, or.pairwise_keys⟩, fun x hx y hy => ?_⟩
    rcases List.mem_cons.mp hy with rfl | hy
    · exact hl x hx
    · exact (hl x hx).trans (hr y hy)

theorem Ordered.nodup_keys [Preorder α] {t : AvlTree β α} (h : t.Ordered) : t.keys.Nodup :=
  h.pairwise_keys.imp fun h' => h'.ne

/-- Being ordered is a property of the sequence of keys. -/
theorem ordered_of_pairwise_keys [Preorder α] :
    ∀ {t : AvlTree β α}, t.keys.Pairwise (· < ·) → t.Ordered
  | nil, _ => trivial
  | node _ _ k l r, h => by
    rw [keys_node, List.pairwise_append] at h
    obtain ⟨hl, hr, hlr⟩ := h
    rw [List.pairwise_cons] at hr
    exact ⟨fun x hx => hlr x hx k List.mem_cons_self, hr.1, ordered_of_pairwise_keys hl,
      ordered_of_pairwise_keys hr.2⟩

/-! ## Rotations -/

/-- A node whose height is recomputed from the stored heights of its subtrees. -/
def mk (b : β) (k : α) (l r : AvlTree β α) : AvlTree β α := node b (max r.ht l.ht + 1) k l r

/-- The left child becomes the root. -/
def rotateRight : AvlTree β α → AvlTree β α
  | node b _ k (node b' _ k' l' r') r => mk b' k' l' (mk b k r' r)
  | t => t

/-- The right child becomes the root. -/
def rotateLeft : AvlTree β α → AvlTree β α
  | node b _ k l (node b' _ k' l' r') => mk b' k' (mk b k l l') r'
  | t => t

/-- The right child of the left child becomes the root. -/
def doubleRotateRight : AvlTree β α → AvlTree β α
  | node b _ k (node b' _ k' l' (node b'' _ k'' l'' r'')) r =>
    mk b'' k'' (mk b' k' l' l'') (mk b k r'' r)
  | t => t

/-- The left child of the right child becomes the root. -/
def doubleRotateLeft : AvlTree β α → AvlTree β α
  | node b _ k l (node b' _ k' (node b'' _ k'' l'' r'') r') =>
    mk b'' k'' (mk b k l l'') (mk b' k' r'' r')
  | t => t

@[simp] theorem keys_mk (b : β) (k : α) (l r : AvlTree β α) :
    (mk b k l r).keys = l.keys ++ k :: r.keys := rfl

@[simp] theorem labels_mk (b : β) (k : α) (l r : AvlTree β α) :
    (mk b k l r).labels = l.labels ++ b :: r.labels := rfl

@[simp] theorem keys_rotateRight (t : AvlTree β α) : t.rotateRight.keys = t.keys := by
  unfold rotateRight; split <;> simp

@[simp] theorem keys_rotateLeft (t : AvlTree β α) : t.rotateLeft.keys = t.keys := by
  unfold rotateLeft; split <;> simp

@[simp] theorem keys_doubleRotateRight (t : AvlTree β α) : t.doubleRotateRight.keys = t.keys := by
  unfold doubleRotateRight; split <;> simp

@[simp] theorem keys_doubleRotateLeft (t : AvlTree β α) : t.doubleRotateLeft.keys = t.keys := by
  unfold doubleRotateLeft; split <;> simp

@[simp] theorem labels_rotateRight (t : AvlTree β α) : t.rotateRight.labels = t.labels := by
  unfold rotateRight; split <;> simp

@[simp] theorem labels_rotateLeft (t : AvlTree β α) : t.rotateLeft.labels = t.labels := by
  unfold rotateLeft; split <;> simp

@[simp] theorem labels_doubleRotateRight (t : AvlTree β α) :
    t.doubleRotateRight.labels = t.labels := by
  unfold doubleRotateRight; split <;> simp

@[simp] theorem labels_doubleRotateLeft (t : AvlTree β α) :
    t.doubleRotateLeft.labels = t.labels := by
  unfold doubleRotateLeft; split <;> simp

theorem balanced_mk {b : β} {k : α} {l r : AvlTree β α} (hl : l.Balanced) (hr : r.Balanced)
    (h₁ : l.height ≤ r.height + 1) (h₂ : r.height ≤ l.height + 1) : (mk b k l r).Balanced := by
  refine ⟨?_, h₁, h₂, hl, hr⟩
  rw [hl.ht_eq, hr.ht_eq]
  push_cast
  omega

@[simp] theorem height_mk (b : β) (k : α) (l r : AvlTree β α) :
    (mk b k l r).height = max l.height r.height + 1 := rfl

theorem balanceFactor_mk (b : β) (k : α) (l r : AvlTree β α) :
    (mk b k l r).balanceFactor = r.ht - l.ht := rfl

theorem rotateLeft_node (b : β) (h : ℤ) (k : α) (l : AvlTree β α) (b' : β) (h' : ℤ) (k' : α)
    (l' r' : AvlTree β α) :
    (node b h k l (node b' h' k' l' r')).rotateLeft = mk b' k' (mk b k l l') r' := rfl

theorem rotateRight_node (b : β) (h : ℤ) (k : α) (b' : β) (h' : ℤ) (k' : α)
    (l' r' r : AvlTree β α) :
    (node b h k (node b' h' k' l' r') r).rotateRight = mk b' k' l' (mk b k r' r) := rfl

theorem doubleRotateLeft_node (b : β) (h : ℤ) (k : α) (l : AvlTree β α) (b' : β) (h' : ℤ) (k' : α)
    (b'' : β) (h'' : ℤ) (k'' : α) (l'' r'' r' : AvlTree β α) :
    (node b h k l (node b' h' k' (node b'' h'' k'' l'' r'') r')).doubleRotateLeft =
      mk b'' k'' (mk b k l l'') (mk b' k' r'' r') := rfl

theorem doubleRotateRight_node (b : β) (h : ℤ) (k : α) (b' : β) (h' : ℤ) (k' : α)
    (l' : AvlTree β α) (b'' : β) (h'' : ℤ) (k'' : α) (l'' r'' r : AvlTree β α) :
    (node b h k (node b' h' k' l' (node b'' h'' k'' l'' r'')) r).doubleRotateRight =
      mk b'' k'' (mk b' k' l' l'') (mk b k r'' r) := rfl

/-! ## Rebalancing one node

The subtree on one side comes back as a tree with a flag that says whether its height has
changed; the node is rebalanced when the flag is set. -/

/-- A node whose right subtree comes back from an insertion as `p`. -/
def growRight (b : β) (h : ℤ) (k : α) (l : AvlTree β α) (p : AvlTree β α × Bool) :
    AvlTree β α × Bool :=
  if p.2 = false then (node b h k l p.1, false)
  else if p.1.ht - l.ht = 0 then (node b h k l p.1, false)
  else if p.1.ht - l.ht = 1 then (node b (h + 1) k l p.1, true)
  else if p.1.balanceFactor = -1 then ((node b h k l p.1).doubleRotateLeft, false)
  else ((node b h k l p.1).rotateLeft, false)

/-- A node whose left subtree comes back from an insertion as `p`. -/
def growLeft (b : β) (h : ℤ) (k : α) (p : AvlTree β α × Bool) (r : AvlTree β α) :
    AvlTree β α × Bool :=
  if p.2 = false then (node b h k p.1 r, false)
  else if r.ht - p.1.ht = 0 then (node b h k p.1 r, false)
  else if r.ht - p.1.ht = -1 then (node b (h + 1) k p.1 r, true)
  else if p.1.balanceFactor = 1 then ((node b h k p.1 r).doubleRotateRight, false)
  else ((node b h k p.1 r).rotateRight, false)

/-- A node whose right subtree comes back from a removal as `p`. -/
def shrinkRight (b : β) (h : ℤ) (k : α) (l : AvlTree β α) (p : AvlTree β α × Bool) :
    AvlTree β α × Bool :=
  if p.2 = false then (node b h k l p.1, false)
  else if p.1.ht - l.ht = 0 then (node b (h - 1) k l p.1, true)
  else if p.1.ht - l.ht = -1 then (node b h k l p.1, false)
  else if l.balanceFactor = 1 then
    ((node b h k l p.1).doubleRotateRight,
      decide ((node b h k l p.1).doubleRotateRight.balanceFactor ≠ 1))
  else
    ((node b h k l p.1).rotateRight, decide ((node b h k l p.1).rotateRight.balanceFactor ≠ 1))

/-- A node whose left subtree comes back from a removal as `p`. -/
def shrinkLeft (b : β) (h : ℤ) (k : α) (p : AvlTree β α × Bool) (r : AvlTree β α) :
    AvlTree β α × Bool :=
  if p.2 = false then (node b h k p.1 r, false)
  else if r.ht - p.1.ht = 0 then (node b (h - 1) k p.1 r, true)
  else if r.ht - p.1.ht = 1 then (node b h k p.1 r, false)
  else if r.balanceFactor = -1 then
    ((node b h k p.1 r).doubleRotateLeft,
      decide ((node b h k p.1 r).doubleRotateLeft.balanceFactor ≠ -1))
  else
    ((node b h k p.1 r).rotateLeft, decide ((node b h k p.1 r).rotateLeft.balanceFactor ≠ -1))

section Rebalance

variable {b : β} {h : ℤ} {k : α} {l r : AvlTree β α} {p : AvlTree β α × Bool}

@[simp] theorem keys_growRight : (growRight b h k l p).1.keys = l.keys ++ k :: p.1.keys := by
  unfold growRight; split_ifs <;> simp

@[simp] theorem keys_growLeft : (growLeft b h k p r).1.keys = p.1.keys ++ k :: r.keys := by
  unfold growLeft; split_ifs <;> simp

@[simp] theorem keys_shrinkRight : (shrinkRight b h k l p).1.keys = l.keys ++ k :: p.1.keys := by
  unfold shrinkRight; split_ifs <;> simp

@[simp] theorem keys_shrinkLeft : (shrinkLeft b h k p r).1.keys = p.1.keys ++ k :: r.keys := by
  unfold shrinkLeft; split_ifs <;> simp

@[simp] theorem labels_growRight :
    (growRight b h k l p).1.labels = l.labels ++ b :: p.1.labels := by
  unfold growRight; split_ifs <;> simp

@[simp] theorem labels_growLeft : (growLeft b h k p r).1.labels = p.1.labels ++ b :: r.labels := by
  unfold growLeft; split_ifs <;> simp

@[simp] theorem labels_shrinkRight :
    (shrinkRight b h k l p).1.labels = l.labels ++ b :: p.1.labels := by
  unfold shrinkRight; split_ifs <;> simp

@[simp] theorem labels_shrinkLeft :
    (shrinkLeft b h k p r).1.labels = p.1.labels ++ b :: r.labels := by
  unfold shrinkLeft; split_ifs <;> simp

/-! ### Balance of the rebalanced node -/

/-- The rotations that lower a right subtree two levels too high. -/
theorem rotateLeft_balanced (hl : l.Balanced) (hr : r.Balanced) (hlr : r.height = l.height + 2)
    (hb : r.balanceFactor ≠ -1) :
    (node b h k l r).rotateLeft.Balanced ∧
      (r.balanceFactor = 0 ∧ (node b h k l r).rotateLeft.height = l.height + 3 ∧
          (node b h k l r).rotateLeft.balanceFactor = -1 ∨
        r.balanceFactor ≠ 0 ∧ (node b h k l r).rotateLeft.height = l.height + 2 ∧
          (node b h k l r).rotateLeft.balanceFactor = 0) := by
  rcases r with _ | ⟨b', h', k', l', r'⟩
  · simp at hlr
  obtain ⟨-, h₁, h₂, hl', hr'⟩ := hr
  rw [balanceFactor_node, hl'.ht_eq, hr'.ht_eq] at hb ⊢
  rw [height_node] at hlr
  rw [rotateLeft_node]
  have hin : (mk b k l l').Balanced := balanced_mk hl hl' (by omega) (by omega)
  refine ⟨balanced_mk hin hr' (by rw [height_mk]; omega) (by rw [height_mk]; omega), ?_⟩
  rw [balanceFactor_mk, height_mk, hin.ht_eq, hr'.ht_eq, height_mk]
  omega

theorem doubleRotateLeft_balanced (hl : l.Balanced) (hr : r.Balanced)
    (hlr : r.height = l.height + 2) (hb : r.balanceFactor = -1) :
    (node b h k l r).doubleRotateLeft.Balanced ∧
      (node b h k l r).doubleRotateLeft.height = l.height + 2 ∧
      (node b h k l r).doubleRotateLeft.balanceFactor = 0 := by
  rcases r with _ | ⟨b', h', k', l', r'⟩
  · simp at hlr
  obtain ⟨-, h₁, h₂, hl', hr'⟩ := hr
  rw [balanceFactor_node, hl'.ht_eq, hr'.ht_eq] at hb
  rw [height_node] at hlr
  rcases l' with _ | ⟨b'', h'', k'', l'', r''⟩
  · simp at hb
  obtain ⟨-, h₃, h₄, hl'', hr''⟩ := hl'
  rw [height_node] at h₁ h₂ hlr hb
  rw [doubleRotateLeft_node]
  have hin : (mk b k l l'').Balanced := balanced_mk hl hl'' (by omega) (by omega)
  have hout : (mk b' k' r'' r').Balanced := balanced_mk hr'' hr' (by omega) (by omega)
  refine ⟨balanced_mk hin hout (by simp only [height_mk]; omega) (by simp only [height_mk]; omega),
    ?_⟩
  rw [balanceFactor_mk, height_mk, hin.ht_eq, hout.ht_eq, height_mk, height_mk]
  omega

/-- The rotations that lower a left subtree two levels too high. -/
theorem rotateRight_balanced (hl : l.Balanced) (hr : r.Balanced) (hlr : l.height = r.height + 2)
    (hb : l.balanceFactor ≠ 1) :
    (node b h k l r).rotateRight.Balanced ∧
      (l.balanceFactor = 0 ∧ (node b h k l r).rotateRight.height = r.height + 3 ∧
          (node b h k l r).rotateRight.balanceFactor = 1 ∨
        l.balanceFactor ≠ 0 ∧ (node b h k l r).rotateRight.height = r.height + 2 ∧
          (node b h k l r).rotateRight.balanceFactor = 0) := by
  rcases l with _ | ⟨b', h', k', l', r'⟩
  · simp at hlr
  obtain ⟨-, h₁, h₂, hl', hr'⟩ := hl
  rw [balanceFactor_node, hl'.ht_eq, hr'.ht_eq] at hb ⊢
  rw [height_node] at hlr
  rw [rotateRight_node]
  have hin : (mk b k r' r).Balanced := balanced_mk hr' hr (by omega) (by omega)
  refine ⟨balanced_mk hl' hin (by rw [height_mk]; omega) (by rw [height_mk]; omega), ?_⟩
  rw [balanceFactor_mk, height_mk, hin.ht_eq, hl'.ht_eq, height_mk]
  omega

theorem doubleRotateRight_balanced (hl : l.Balanced) (hr : r.Balanced)
    (hlr : l.height = r.height + 2) (hb : l.balanceFactor = 1) :
    (node b h k l r).doubleRotateRight.Balanced ∧
      (node b h k l r).doubleRotateRight.height = r.height + 2 ∧
      (node b h k l r).doubleRotateRight.balanceFactor = 0 := by
  rcases l with _ | ⟨b', h', k', l', r'⟩
  · simp at hlr
  obtain ⟨-, h₁, h₂, hl', hr'⟩ := hl
  rw [balanceFactor_node, hl'.ht_eq, hr'.ht_eq] at hb
  rw [height_node] at hlr
  rcases r' with _ | ⟨b'', h'', k'', l'', r''⟩
  · simp at hb; omega
  obtain ⟨-, h₃, h₄, hl'', hr''⟩ := hr'
  rw [height_node] at h₁ h₂ hlr hb
  rw [doubleRotateRight_node]
  have hout : (mk b' k' l' l'').Balanced := balanced_mk hl' hl'' (by omega) (by omega)
  have hin : (mk b k r'' r).Balanced := balanced_mk hr'' hr (by omega) (by omega)
  refine ⟨balanced_mk hout hin (by simp only [height_mk]; omega) (by simp only [height_mk]; omega),
    ?_⟩
  rw [balanceFactor_mk, height_mk, hin.ht_eq, hout.ht_eq, height_mk, height_mk]
  omega

end Rebalance

/-- What the flag of an insertion says of a tree that had height `n`: the tree has grown exactly
when the flag is set, and then, unless it was empty, it leans to one side. -/
structure Grown (n : ℕ) (p : AvlTree β α × Bool) : Prop where
  balanced : p.1.Balanced
  height : p.1.height = n + p.2.toNat
  leans : p.2 = true → n = 0 ∨ p.1.balanceFactor ≠ 0

/-- What the flag of a removal says of a tree that had height `n`. -/
structure Shrunk (n : ℕ) (p : AvlTree β α × Bool) : Prop where
  balanced : p.1.Balanced
  height : p.1.height + p.2.toNat = n

/-- The stored height is at most the number of nodes. -/
structure Bounded (t : AvlTree β α) : Prop where
  nonneg : 0 ≤ t.ht
  le : t.ht ≤ t.labels.length

/-- What the flag of a removal says to the node above, which sees the stored height only. -/
structure Lowered (n : ℕ) (p : AvlTree β α × Bool) : Prop where
  bounded : p.1.Bounded
  ht : p.1.ht + p.2.toNat = n

theorem Balanced.bounded {t : AvlTree β α} (ht : t.Balanced) : t.Bounded where
  nonneg := by
    rw [ht.ht_eq]
    omega
  le := by
    rw [ht.ht_eq]
    exact Int.ofNat_le.mpr t.height_le_length_labels

theorem bounded_mk {b : β} {k : α} {l r : AvlTree β α} (hl : l.Bounded) (hr : r.Bounded) :
    (mk b k l r).Bounded := by
  obtain ⟨hl₀, hl₁⟩ := hl
  obtain ⟨hr₀, hr₁⟩ := hr
  constructor
  · show 0 ≤ max r.ht l.ht + 1
    omega
  · show max r.ht l.ht + 1 ≤ ((mk b k l r).labels.length : ℤ)
    rw [labels_mk, List.length_append, List.length_cons]
    omega

theorem Shrunk.lowered {n : ℕ} {p : AvlTree β α × Bool} (hp : Shrunk n p) : Lowered n p where
  bounded := hp.balanced.bounded
  ht := by
    rw [hp.balanced.ht_eq]
    exact_mod_cast hp.height

section Flag

variable {b : β} {h : ℤ} {k : α} {l r : AvlTree β α} {p : AvlTree β α × Bool} {n : ℕ}

theorem growRight_grown (hl : l.Balanced) (hp : Grown n p) (hh : h = (max l.height n + 1 : ℕ))
    (h₁ : l.height ≤ n + 1) (h₂ : n ≤ l.height + 1) :
    Grown (max l.height n + 1) (growRight b h k l p) := by
  obtain ⟨hr, hn, hlean⟩ := hp
  unfold growRight
  rw [hl.ht_eq, hr.ht_eq]
  split_ifs with hc h0 h1 hb
  · rw [hc] at hn
    exact ⟨⟨by rw [hn]; exact hh, by rw [hn]; exact h₁, by rw [hn]; exact h₂, hl, hr⟩,
      by simp [hn], by simp⟩
  all_goals
    rw [Bool.not_eq_false] at hc
    rw [hc, Bool.toNat_true] at hn
  · exact ⟨⟨by omega, by omega, by omega, hl, hr⟩, by simp; omega, by simp⟩
  · refine ⟨⟨by push_cast at *; omega, by omega, by omega, hl, hr⟩, by simp; omega, fun _ => ?_⟩
    rw [balanceFactor_node, hl.ht_eq, hr.ht_eq]
    omega
  · obtain ⟨hbal, hht, -⟩ := doubleRotateLeft_balanced (b := b) (h := h) (k := k) hl hr (by omega) hb
    exact ⟨hbal, by simp [hht]; omega, by simp⟩
  · obtain ⟨hbal, hrot⟩ := rotateLeft_balanced (b := b) (h := h) (k := k) hl hr (by omega) hb
    have := hlean hc
    exact ⟨hbal, by simp; omega, by simp⟩

theorem growLeft_grown (hp : Grown n p) (hr : r.Balanced) (hh : h = (max n r.height + 1 : ℕ))
    (h₁ : n ≤ r.height + 1) (h₂ : r.height ≤ n + 1) :
    Grown (max n r.height + 1) (growLeft b h k p r) := by
  obtain ⟨hl, hn, hlean⟩ := hp
  unfold growLeft
  rw [hl.ht_eq, hr.ht_eq]
  split_ifs with hc h0 h1 hb
  · rw [hc] at hn
    exact ⟨⟨by rw [hn]; exact hh, by rw [hn]; exact h₁, by rw [hn]; exact h₂, hl, hr⟩,
      by simp [hn], by simp⟩
  all_goals
    rw [Bool.not_eq_false] at hc
    rw [hc, Bool.toNat_true] at hn
  · exact ⟨⟨by omega, by omega, by omega, hl, hr⟩, by simp; omega, by simp⟩
  · refine ⟨⟨by push_cast at *; omega, by omega, by omega, hl, hr⟩, by simp; omega, fun _ => ?_⟩
    rw [balanceFactor_node, hl.ht_eq, hr.ht_eq]
    omega
  · obtain ⟨hbal, hht, -⟩ :=
      doubleRotateRight_balanced (b := b) (h := h) (k := k) hl hr (by omega) hb
    exact ⟨hbal, by simp [hht]; omega, by simp⟩
  · obtain ⟨hbal, hrot⟩ := rotateRight_balanced (b := b) (h := h) (k := k) hl hr (by omega) hb
    have := hlean hc
    exact ⟨hbal, by simp; omega, by simp⟩

theorem shrinkRight_shrunk (hl : l.Balanced) (hp : Shrunk n p) (hh : h = (max l.height n + 1 : ℕ))
    (h₁ : l.height ≤ n + 1) (h₂ : n ≤ l.height + 1) :
    Shrunk (max l.height n + 1) (shrinkRight b h k l p) := by
  obtain ⟨hr, hn⟩ := hp
  unfold shrinkRight
  rw [hl.ht_eq, hr.ht_eq]
  split_ifs with hc h0 h1 hb
  · rw [hc, Bool.toNat_false, Nat.add_zero] at hn
    exact ⟨⟨by rw [hn]; exact hh, by rw [hn]; exact h₁, by rw [hn]; exact h₂, hl, hr⟩,
      by simp [hn]⟩
  all_goals
    rw [Bool.not_eq_false] at hc
    rw [hc, Bool.toNat_true] at hn
  · exact ⟨⟨by push_cast at *; omega, by omega, by omega, hl, hr⟩, by simp; omega⟩
  · exact ⟨⟨by push_cast at *; omega, by omega, by omega, hl, hr⟩, by simp; omega⟩
  · obtain ⟨hbal, hht, hbf⟩ :=
      doubleRotateRight_balanced (b := b) (h := h) (k := k) hl hr (by omega) hb
    exact ⟨hbal, by simp [hht, hbf]; omega⟩
  · obtain ⟨hbal, ⟨-, hht, hbf⟩ | ⟨-, hht, hbf⟩⟩ :=
      rotateRight_balanced (b := b) (h := h) (k := k) hl hr (by omega) hb
    · exact ⟨hbal, by simp [hht, hbf]; omega⟩
    · exact ⟨hbal, by simp [hht, hbf]; omega⟩

theorem shrinkLeft_shrunk (hp : Shrunk n p) (hr : r.Balanced) (hh : h = (max n r.height + 1 : ℕ))
    (h₁ : n ≤ r.height + 1) (h₂ : r.height ≤ n + 1) :
    Shrunk (max n r.height + 1) (shrinkLeft b h k p r) := by
  obtain ⟨hl, hn⟩ := hp
  unfold shrinkLeft
  rw [hl.ht_eq, hr.ht_eq]
  split_ifs with hc h0 h1 hb
  · rw [hc, Bool.toNat_false, Nat.add_zero] at hn
    exact ⟨⟨by rw [hn]; exact hh, by rw [hn]; exact h₁, by rw [hn]; exact h₂, hl, hr⟩,
      by simp [hn]⟩
  all_goals
    rw [Bool.not_eq_false] at hc
    rw [hc, Bool.toNat_true] at hn
  · exact ⟨⟨by push_cast at *; omega, by omega, by omega, hl, hr⟩, by simp; omega⟩
  · exact ⟨⟨by push_cast at *; omega, by omega, by omega, hl, hr⟩, by simp; omega⟩
  · obtain ⟨hbal, hht, hbf⟩ :=
      doubleRotateLeft_balanced (b := b) (h := h) (k := k) hl hr (by omega) hb
    exact ⟨hbal, by simp [hht, hbf]; omega⟩
  · obtain ⟨hbal, ⟨-, hht, hbf⟩ | ⟨-, hht, hbf⟩⟩ :=
      rotateLeft_balanced (b := b) (h := h) (k := k) hl hr (by omega) hb
    · exact ⟨hbal, by simp [hht, hbf]; omega⟩
    · exact ⟨hbal, by simp [hht, hbf]; omega⟩

end Flag

theorem Ordered.congr_keys [Preorder α] {t t' : AvlTree β α} (h : t.Ordered)
    (hk : t'.keys = t.keys) : t'.Ordered :=
  ordered_of_pairwise_keys (hk ▸ h.pairwise_keys)

/-! ## Insertion -/

section Insert

variable [LinearOrder α]

/-- Insert the key `k` with label `b`; the flag says whether the tree has grown. -/
def insert (b : β) (k : α) : AvlTree β α → AvlTree β α × Bool
  | nil => (node b 1 k nil nil, true)
  | node b' h k' l r =>
    if k' < k then growRight b' h k' l (r.insert b k) else growLeft b' h k' (l.insert b k) r

variable {b : β} {k : α}

theorem keys_insert (b : β) (k : α) : ∀ t : AvlTree β α, (t.insert b k).1.keys.Perm (k :: t.keys)
  | nil => List.Perm.refl _
  | node b' h k' l r => by
    unfold insert
    split_ifs
    · rw [keys_growRight]
      refine (((keys_insert b k r).cons k').append_left l.keys).trans ?_
      refine ((List.Perm.swap k k' r.keys).append_left l.keys).trans ?_
      exact List.perm_middle
    · rw [keys_growLeft]
      exact (keys_insert b k l).append_right (k' :: r.keys)

theorem labels_insert (b : β) (k : α) :
    ∀ t : AvlTree β α, (t.insert b k).1.labels.Perm (b :: t.labels)
  | nil => List.Perm.refl _
  | node b' h k' l r => by
    unfold insert
    split_ifs
    · rw [labels_growRight]
      refine (((labels_insert b k r).cons b').append_left l.labels).trans ?_
      refine ((List.Perm.swap b b' r.labels).append_left l.labels).trans ?_
      exact List.perm_middle
    · rw [labels_growLeft]
      exact (labels_insert b k l).append_right (b' :: r.labels)

theorem insert_grown (b : β) (k : α) :
    ∀ {t : AvlTree β α}, t.Balanced → Grown t.height (t.insert b k)
  | nil, _ => ⟨⟨rfl, by simp, by simp, trivial, trivial⟩, rfl, fun _ => .inl rfl⟩
  | node b' h k' l r, ⟨hh, h₁, h₂, hl, hr⟩ => by
    unfold insert
    split_ifs
    · exact growRight_grown hl (insert_grown b k hr) hh h₁ h₂
    · exact growLeft_grown (insert_grown b k hl) hr hh h₁ h₂

theorem insert_ordered :
    ∀ {t : AvlTree β α}, t.Ordered → k ∉ t.keys → (t.insert b k).1.Ordered
  | nil, _, _ => ⟨by simp, by simp, trivial, trivial⟩
  | node b' h k' l r, ⟨hlk, hrk, hl, hr⟩, hk => by
    simp only [keys_node, List.mem_append, List.mem_cons, not_or] at hk
    obtain ⟨hkl, hkk, hkr⟩ := hk
    unfold insert
    split_ifs with hlt
    · have hnode : (node b' h k' l (r.insert b k).1).Ordered := by
        refine ⟨hlk, fun x hx => ?_, hl, insert_ordered hr hkr⟩
        rcases List.mem_cons.mp ((keys_insert b k r).mem_iff.mp hx) with rfl | hx
        · exact hlt
        · exact hrk x hx
      exact hnode.congr_keys (by simp)
    · have hnode : (node b' h k' (l.insert b k).1 r).Ordered := by
        refine ⟨fun x hx => ?_, hrk, insert_ordered hl hkl, hr⟩
        rcases List.mem_cons.mp ((keys_insert b k l).mem_iff.mp hx) with rfl | hx
        · exact lt_of_le_of_ne (not_lt.mp hlt) hkk
        · exact hlk x hx
      exact hnode.congr_keys (by simp)

theorem insert_isAvl {t : AvlTree β α} (ht : t.IsAvl) (hk : k ∉ t.keys) :
    (t.insert b k).1.IsAvl :=
  ⟨insert_ordered ht.ordered hk, (insert_grown b k ht.balanced).balanced⟩

end Insert

/-! ## Removal -/

section Remove

/-- The last key in order, `d` for the empty tree. -/
def rightmost (d : α) : AvlTree β α → α
  | nil => d
  | node _ _ k _ r => r.rightmost k

/-- A node of label `b` and height `h` takes the key of its only child, which is dropped. -/
def promote (b : β) (h : ℤ) : AvlTree β α → (AvlTree β α × Bool) × List β
  | nil => ((nil, true), [b])
  | node b' _ k' _ _ => ((node b (h - 1) k' nil nil, true), [b'])

theorem keys_eq_append_rightmost :
    ∀ {t : AvlTree β α} (d : α), t ≠ nil → ∃ ks, t.keys = ks ++ [t.rightmost d]
  | nil, _, h => absurd rfl h
  | node b h k l nil, d, _ => ⟨l.keys, rfl⟩
  | node b h k l (node b' h' k' l' r'), d, _ => by
    obtain ⟨ks, hks⟩ := keys_eq_append_rightmost (t := node b' h' k' l' r') k (by simp)
    refine ⟨l.keys ++ k :: ks, ?_⟩
    rw [keys_node, hks]
    simp [rightmost]

/-- A balanced tree of height at most 1 has no subtrees. -/
theorem Balanced.eq_leaf {t : AvlTree β α} (ht : t.Balanced) (h1 : t.height ≤ 1) (hn : t ≠ nil) :
    ∃ b k, t = node b 1 k nil nil := by
  cases t with
  | nil => exact absurd rfl hn
  | node b h k l r =>
    rw [height_node] at h1
    have hnil : ∀ t : AvlTree β α, t.height = 0 → t = nil := fun t ht => by
      cases t with
      | nil => rfl
      | node => simp at ht
    have hl := hnil l (by omega)
    have hr := hnil r (by omega)
    subst hl hr
    obtain ⟨rfl, -⟩ := ht
    exact ⟨b, k, rfl⟩

theorem rightmost_mem (d : α) {l : AvlTree β α} (hl : l ≠ nil) : l.rightmost d ∈ l.keys := by
  obtain ⟨ks, hks⟩ := keys_eq_append_rightmost d hl
  rw [hks]
  exact List.mem_append_right _ (List.mem_singleton_self _)

variable [LinearOrder α]

/-- Remove the key `k`: the new tree, whether it has shrunk, and the label that is dropped. -/
def remove (k : α) : AvlTree β α → (AvlTree β α × Bool) × List β
  | nil => ((nil, false), [])
  | node b h x l r =>
    if k = x then
      match l, r with
      | nil, r => r.promote b h
      | l, nil => l.promote b h
      | node bl hl xl ll rl, r =>
        let y := (node bl hl xl ll rl).rightmost x
        let p := (node bl hl xl ll rl).remove y
        (shrinkLeft b h y p.1 r, p.2)
    else if x < k then
      let p := r.remove k
      (shrinkRight b h x l p.1, p.2)
    else
      let p := l.remove k
      (shrinkLeft b h x p.1 r, p.2)

variable {b : β} {h : ℤ} {k x : α} {l r : AvlTree β α}

theorem remove_root_nil_left (b : β) (h : ℤ) (k : α) (r : AvlTree β α) :
    (node b h k nil r).remove k = r.promote b h := by
  rw [remove.eq_def]
  exact if_pos rfl

theorem remove_root_nil_right (b : β) (h : ℤ) (k : α) (l : AvlTree β α) :
    (node b h k l nil).remove k = l.promote b h := by
  rw [remove.eq_def]
  cases l <;> exact if_pos rfl

theorem remove_root (hl : l ≠ nil) (hr : r ≠ nil) :
    (node b h k l r).remove k =
      (shrinkLeft b h (l.rightmost k) (l.remove (l.rightmost k)).1 r,
        (l.remove (l.rightmost k)).2) := by
  rw [remove.eq_def]
  cases l with
  | nil => exact absurd rfl hl
  | node bl hl' xl ll rl =>
    cases r with
    | nil => exact absurd rfl hr
    | node br hr' xr lr rr => exact if_pos rfl

theorem remove_right (hx : x < k) :
    (node b h x l r).remove k = (shrinkRight b h x l (r.remove k).1, (r.remove k).2) := by
  rw [remove.eq_def]
  exact (if_neg hx.ne').trans (if_pos hx)

theorem remove_left (hx : k < x) :
    (node b h x l r).remove k = (shrinkLeft b h x (l.remove k).1 r, (l.remove k).2) := by
  rw [remove.eq_def]
  exact (if_neg hx.ne).trans (if_neg hx.asymm)

/-- The cases of a removal: the root with at most one child, the root with two children, or a
key of one subtree. -/
theorem remove_induction {P : α → AvlTree β α → Prop}
    (leaf : ∀ b k, P k (node b 1 k nil nil))
    (onlyRight : ∀ b h k b' k', P k (node b h k nil (node b' 1 k' nil nil)))
    (onlyLeft : ∀ b h k b' k', P k (node b h k (node b' 1 k' nil nil) nil))
    (root : ∀ b h k l r, l ≠ nil → r ≠ nil → l.IsAvl → (node b h k l r).IsAvl →
      P (l.rightmost k) l → P k (node b h k l r))
    (right : ∀ b h k x l r, x < k → k ∈ r.keys → (node b h x l r).IsAvl → P k r →
      P k (node b h x l r))
    (left : ∀ b h k x l r, k < x → k ∈ l.keys → (node b h x l r).IsAvl → P k l →
      P k (node b h x l r)) :
    ∀ {t : AvlTree β α} {k : α}, t.IsAvl → k ∈ t.keys → P k t
  | nil, _, _, hk => absurd hk List.not_mem_nil
  | node b h x l r, k, ht, hk => by
    obtain ⟨⟨hlx, hrx, -, -⟩, ⟨rfl, h₁, h₂, hlb, hrb⟩⟩ := id ht
    rcases lt_trichotomy k x with hlt | rfl | hlt
    · have hk' : k ∈ l.keys := by
        rcases List.mem_append.mp hk with hk | hk
        · exact hk
        rcases List.mem_cons.mp hk with rfl | hk
        · exact absurd hlt (lt_irrefl _)
        · exact absurd (hrx k hk) hlt.asymm
      exact left _ _ _ _ _ _ hlt hk' ht (remove_induction leaf onlyRight onlyLeft root right left
        ht.left hk')
    · by_cases hl : l = nil
      · subst hl
        by_cases hr : r = nil
        · subst hr
          exact leaf b k
        · obtain ⟨b', k', rfl⟩ := hrb.eq_leaf (by simpa using h₂) hr
          exact onlyRight _ _ _ _ _
      · by_cases hr : r = nil
        · subst hr
          obtain ⟨b', k', rfl⟩ := hlb.eq_leaf (by simpa using h₁) hl
          exact onlyLeft _ _ _ _ _
        · exact root _ _ _ _ _ hl hr ht.left ht (remove_induction leaf onlyRight onlyLeft root
            right left ht.left (rightmost_mem k hl))
    · have hk' : k ∈ r.keys := by
        rcases List.mem_append.mp hk with hk | hk
        · exact absurd (hlx k hk) hlt.asymm
        rcases List.mem_cons.mp hk with rfl | hk
        · exact absurd hlt (lt_irrefl _)
        · exact hk
      exact right _ _ _ _ _ _ hlt hk' ht (remove_induction leaf onlyRight onlyLeft root right left
        ht.right hk')

/-- The keys left are the others, in the same order. -/
theorem keys_remove {t : AvlTree β α} (ht : t.IsAvl) (hk : k ∈ t.keys) :
    (t.remove k).1.1.keys = t.keys.erase k := by
  refine remove_induction (P := fun k t => (t.remove k).1.1.keys = t.keys.erase k)
    ?_ ?_ ?_ ?_ ?_ ?_ ht hk
  · intro b k; simp [remove_root_nil_left, promote]
  · intro b h k b' k'; simp [remove_root_nil_left, promote]
  · intro b h k b' k'
    rw [remove_root_nil_right]
    by_cases hkk : k' = k <;> simp [promote, hkk]
  · intro b h k l r hl hr hlA hA ih
    rw [remove_root hl hr]
    have hkl : k ∉ l.keys := fun hm => lt_irrefl _ (hA.ordered.1 k hm)
    obtain ⟨ks, hks⟩ := keys_eq_append_rightmost k hl
    have hnd := hlA.ordered.nodup_keys
    simp only [keys_shrinkLeft, ih, keys_node]
    rw [List.erase_append_right _ hkl, List.erase_cons_head]
    generalize l.rightmost k = y at hks ⊢
    rw [hks] at hnd ⊢
    rw [List.nodup_append] at hnd
    have hy : y ∉ ks := fun hm => hnd.2.2 y hm y (List.mem_singleton_self _) rfl
    rw [List.erase_append_right _ hy]
    simp
  · intro b h k x l r hx hk hA ih
    rw [remove_right hx]
    have hkl : k ∉ l.keys := fun hm => lt_asymm hx (hA.ordered.1 k hm)
    simp only [keys_shrinkRight, ih, keys_node]
    rw [List.erase_append_right _ hkl, List.erase_cons_tail (by simpa using hx.ne)]
  · intro b h k x l r hx hk hA ih
    rw [remove_left hx]
    simp only [keys_shrinkLeft, ih, keys_node]
    rw [List.erase_append_left _ hk]

theorem cons_keys_remove {t : AvlTree β α} (ht : t.IsAvl) (hk : k ∈ t.keys) :
    (k :: (t.remove k).1.1.keys).Perm t.keys := by
  rw [keys_remove ht hk]
  exact (List.perm_cons_erase hk).symm

theorem remove_shrunk {t : AvlTree β α} (ht : t.IsAvl) (hk : k ∈ t.keys) :
    Shrunk t.height (t.remove k).1 := by
  have hb := ht.balanced
  revert hb
  refine remove_induction (P := fun k t => t.Balanced → Shrunk t.height (t.remove k).1)
    ?_ ?_ ?_ ?_ ?_ ?_ ht hk
  · intro b k _
    exact ⟨by rw [remove_root_nil_left]; trivial, by rw [remove_root_nil_left]; rfl⟩
  · intro b h k b' k' hb
    obtain ⟨rfl, -⟩ := hb
    rw [remove_root_nil_left]
    exact ⟨⟨by simp, by simp, by simp, trivial, trivial⟩, rfl⟩
  · intro b h k b' k' hb
    obtain ⟨rfl, -⟩ := hb
    rw [remove_root_nil_right]
    exact ⟨⟨by simp, by simp, by simp, trivial, trivial⟩, rfl⟩
  · intro b h k l r hl hr hlA hA ih ⟨hh, h₁, h₂, hlb, hrb⟩
    rw [remove_root hl hr]
    exact shrinkLeft_shrunk (ih hlb) hrb hh h₁ h₂
  · intro b h k x l r hx hk hA ih ⟨hh, h₁, h₂, hlb, hrb⟩
    rw [remove_right hx]
    exact shrinkRight_shrunk hlb (ih hrb) hh h₁ h₂
  · intro b h k x l r hx hk hA ih ⟨hh, h₁, h₂, hlb, hrb⟩
    rw [remove_left hx]
    exact shrinkLeft_shrunk (ih hlb) hrb hh h₁ h₂

theorem remove_isAvl {t : AvlTree β α} (ht : t.IsAvl) (hk : k ∈ t.keys) :
    (t.remove k).1.1.IsAvl where
  ordered := ordered_of_pairwise_keys <| by
    rw [keys_remove ht hk]
    exact ht.ordered.pairwise_keys.sublist List.erase_sublist
  balanced := (remove_shrunk ht hk).balanced

end Remove

end AvlTree

end RawOS
