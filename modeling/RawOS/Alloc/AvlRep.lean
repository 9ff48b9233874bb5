import RawOS.AvlTree
import RawOS.Alloc.KallocAvl

/-!
# The hole tree in memory

`Rep m t` says that the nodes of the tree `t`, labelled by their addresses, stand in the memory
`m` with their fields; the root pointer is `t.ptr`. `FreeList m 0 fl` says the same of the doubly
linked free list. The nodes of a pool lie in slots of 20 bytes (`Pool`), so a step that writes
the nodes in `A` only (`Frame m m' A`) leaves every tree without nodes in `A` where it was
(`Frame.rep`).
-/

namespace RawOS

/-! ## Nodes -/

/-- The fields of a node. -/
@[ext] structure AvlNode where
  left : ℕ
  right : ℕ
  height : ℤ
  holeSize : ℕ
  holeAddr : ℕ

/-- The node at `p`. -/
def readNode (m : Mem) (p : ℕ) : AvlNode :=
  ⟨nodeLeft m p, nodeRight m p, nodeHeight m p, nodeHoleSize m p, nodeHoleAddr m p⟩

theorem readNode_fields {m : Mem} {p lp rp size addr : ℕ} {h : ℤ}
    (hn : readNode m p = ⟨lp, rp, h, size, addr⟩) :
    nodeHoleSize m p = size ∧ nodeHoleAddr m p = addr ∧ nodeLeft m p = lp ∧ nodeRight m p = rp :=
  ⟨congrArg AvlNode.holeSize hn, congrArg AvlNode.holeAddr hn, congrArg AvlNode.left hn,
    congrArg AvlNode.right hn⟩

/-- `p` and `q` are different slots. -/
def Apart (p q : ℕ) : Prop := p + 20 ≤ q ∨ q + 20 ≤ p

theorem Apart.symm {p q : ℕ} (h : Apart p q) : Apart q p := Or.symm h

/-- Only the slots in `A` are written. -/
def Frame (m m' : Mem) (A : List ℕ) : Prop := ∀ x, (∀ q ∈ A, x < q ∨ q + 20 ≤ x) → m' x = m x

section Frame

variable {m m' m'' : Mem} {A B : List ℕ} {p q v : ℕ}

theorem Frame.refl (m : Mem) (A : List ℕ) : Frame m m A := fun _ _ => rfl

theorem Frame.mono (h : Frame m m' A) (hAB : ∀ q ∈ A, q ∈ B) : Frame m m' B :=
  fun x hx => h x fun q hq => hx q (hAB q hq)

theorem Frame.trans (h : Frame m m' A) (h' : Frame m' m'' A) : Frame m m'' A :=
  fun x hx => (h' x hx).trans (h x hx)

theorem Frame.readNode (h : Frame m m' A) (hp : ∀ q ∈ A, Apart p q) :
    readNode m' p = readNode m p := by
  have key : ∀ x, p ≤ x → x < p + 20 → m' x = m x := fun x h₁ h₂ => h x fun q hq => by
    rcases hp q hq with h | h <;> omega
  unfold RawOS.readNode nodeLeft nodeRight nodeHeight nodeHoleSize nodeHoleAddr
  rw [load32_congr (a := p) fun x _ _ => key x (by omega) (by omega),
    load32_congr (a := p + 4) fun x _ _ => key x (by omega) (by omega),
    loadS32_congr (a := p + 8) fun x _ _ => key x (by omega) (by omega),
    load32_congr (a := p + 12) fun x _ _ => key x (by omega) (by omega),
    load32_congr (a := p + 16) fun x _ _ => key x (by omega) (by omega)]

theorem frame_store32 (m : Mem) {a : ℕ} (ha : p ≤ a ∧ a + 4 ≤ p + 20) :
    Frame m (store32 m a v) [p] := by
  intro x hx
  have := hx p List.mem_cons_self
  exact store32_of_outside (by omega)

theorem frame_setLeft (m : Mem) (p v : ℕ) : Frame m (setLeft m p v) [p] :=
  frame_store32 m (by omega)
theorem frame_setRight (m : Mem) (p v : ℕ) : Frame m (setRight m p v) [p] :=
  frame_store32 m (by omega)
theorem frame_setHeight (m : Mem) (p : ℕ) (v : ℤ) : Frame m (setHeight m p v) [p] :=
  frame_store32 m (by omega)
theorem frame_setHoleSize (m : Mem) (p v : ℕ) : Frame m (setHoleSize m p v) [p] :=
  frame_store32 m (by omega)
theorem frame_setHoleAddr (m : Mem) (p v : ℕ) : Frame m (setHoleAddr m p v) [p] :=
  frame_store32 m (by omega)

end Frame

/-! ### One field of one node -/

section Fields

variable {m : Mem} {p q v : ℕ} {z : ℤ}

theorem readNode_setLeft (hv : v < 4294967296) :
    readNode (setLeft m p v) p = { readNode m p with left := v } := by
  unfold readNode nodeLeft nodeRight nodeHeight nodeHoleSize nodeHoleAddr setLeft loadS32
  simp (disch := omega) only [load32_store32_eq, load32_store32_of_disjoint]

theorem readNode_setRight (hv : v < 4294967296) :
    readNode (setRight m p v) p = { readNode m p with right := v } := by
  unfold readNode nodeLeft nodeRight nodeHeight nodeHoleSize nodeHoleAddr setRight loadS32
  simp (disch := omega) only [load32_store32_eq, load32_store32_of_disjoint]

theorem readNode_setHeight (hz : 0 ≤ z) (hz' : z < 2147483648) :
    readNode (setHeight m p z) p = { readNode m p with height := z } := by
  have hh : loadS32 (storeS32 m (p + 8) z) (p + 8) = z := loadS32_storeS32_eq rfl (by omega) hz'
  unfold readNode nodeLeft nodeRight nodeHeight nodeHoleSize nodeHoleAddr setHeight
  rw [hh]
  unfold storeS32
  simp (disch := omega) only [load32_store32_of_disjoint]

theorem readNode_setHoleSize (hv : v < 4294967296) :
    readNode (setHoleSize m p v) p = { readNode m p with holeSize := v } := by
  unfold readNode nodeLeft nodeRight nodeHeight nodeHoleSize nodeHoleAddr setHoleSize loadS32
  simp (disch := omega) only [load32_store32_eq, load32_store32_of_disjoint]

theorem readNode_setHoleAddr (hv : v < 4294967296) :
    readNode (setHoleAddr m p v) p = { readNode m p with holeAddr := v } := by
  unfold readNode nodeLeft nodeRight nodeHeight nodeHoleSize nodeHoleAddr setHoleAddr loadS32
  simp (disch := omega) only [load32_store32_eq, load32_store32_of_disjoint]

theorem readNode_setLeft_of_apart (h : Apart q p) : readNode (setLeft m p v) q = readNode m q :=
  (frame_setLeft m p v).readNode fun _ hq => List.mem_singleton.mp hq ▸ h

theorem readNode_setRight_of_apart (h : Apart q p) : readNode (setRight m p v) q = readNode m q :=
  (frame_setRight m p v).readNode fun _ hq => List.mem_singleton.mp hq ▸ h

theorem readNode_setHoleSize_of_apart (h : Apart q p) :
    readNode (setHoleSize m p v) q = readNode m q :=
  (frame_setHoleSize m p v).readNode fun _ hq => List.mem_singleton.mp hq ▸ h

end Fields

/-! ## Trees -/

/-- A hole: its size and its address, compared in this order. -/
abbrev Hole := ℕ ×ₗ ℕ

/-- The size of a hole. -/
def Hole.size (k : Hole) : ℕ := (ofLex k).1

/-- The user address of a hole. -/
def Hole.addr (k : Hole) : ℕ := (ofLex k).2

/-- The hole of that size at that address. -/
def hole (size addr : ℕ) : Hole := toLex (size, addr)

@[simp] theorem hole_size (size addr : ℕ) : (hole size addr).size = size := rfl
@[simp] theorem hole_addr (size addr : ℕ) : (hole size addr).addr = addr := rfl
@[simp] theorem hole_eta (k : Hole) : hole k.size k.addr = k := rfl

theorem hole_lt_hole {s a s' a' : ℕ} : hole s a < hole s' a' ↔ s < s' ∨ s = s' ∧ a < a' :=
  Prod.Lex.lt_iff

theorem hole_inj {s a s' a' : ℕ} : hole s a = hole s' a' ↔ s = s' ∧ a = a' := by
  unfold hole
  rw [toLex_inj, Prod.mk.injEq]

/-- A tree of holes labelled with the addresses of its nodes. -/
abbrev HoleTree := AvlTree ℕ Hole

/-- The pointer to the root. -/
def AvlTree.ptr : HoleTree → ℕ
  | .nil => 0
  | .node p _ _ _ _ => p

@[simp] theorem AvlTree.ptr_nil : AvlTree.ptr .nil = 0 := rfl
@[simp] theorem AvlTree.ptr_node (p : ℕ) (h : ℤ) (k : Hole) (l r : HoleTree) :
    AvlTree.ptr (.node p h k l r) = p := rfl

/-- The tree stands in memory. -/
def Rep (m : Mem) : HoleTree → Prop
  | .nil => True
  | .node p h k l r =>
    p ≠ 0 ∧ readNode m p = ⟨l.ptr, r.ptr, h, k.size, k.addr⟩ ∧ Rep m l ∧ Rep m r

/-- Every address of `A` is a slot of the pool at `base`. -/
def Slots (base : ℕ) (A : List ℕ) : Prop := ∀ q ∈ A, ∃ i, q = base + 20 * i

theorem Slots.apart {base : ℕ} {A : List ℕ} (h : Slots base A) {p q : ℕ} (hp : p ∈ A) (hq : q ∈ A)
    (hne : p ≠ q) : Apart p q := by
  obtain ⟨i, rfl⟩ := h p hp
  obtain ⟨j, rfl⟩ := h q hq
  unfold Apart
  omega

/-- The slots of a pool: distinct, not null and in the address space. -/
structure Pool (base : ℕ) (L : List ℕ) : Prop where
  nodup : L.Nodup
  slots : Slots base L
  pos : ∀ q ∈ L, q ≠ 0
  fits : ∀ q ∈ L, q + 20 ≤ 4294967296
  length : L.length < 2147483647

namespace Pool

variable {base : ℕ} {L L' : List ℕ}

theorem perm (h : Pool base L) (hp : L.Perm L') : Pool base L' where
  nodup := hp.nodup_iff.mp h.nodup
  slots q hq := h.slots q (hp.mem_iff.mpr hq)
  pos q hq := h.pos q (hp.mem_iff.mpr hq)
  fits q hq := h.fits q (hp.mem_iff.mpr hq)
  length := hp.length_eq ▸ h.length

theorem sublist (h : Pool base L) (hs : L'.Sublist L) : Pool base L' where
  nodup := h.nodup.sublist hs
  slots q hq := h.slots q (hs.subset hq)
  pos q hq := h.pos q (hs.subset hq)
  fits q hq := h.fits q (hs.subset hq)
  length := hs.length_le.trans_lt h.length

theorem left {A B : List ℕ} (h : Pool base (A ++ B)) : Pool base A :=
  h.sublist (List.sublist_append_left A B)

theorem right {A B : List ℕ} {c : ℕ} (h : Pool base (A ++ c :: B)) : Pool base B :=
  h.sublist (List.sublist_append_of_sublist_right (List.sublist_cons_self c B))

theorem lt (h : Pool base L) {q : ℕ} (hq : q ∈ L) : q < 4294967296 := by
  have := h.fits q hq
  omega

end Pool

theorem Pool.ptr_lt {base : ℕ} {L : List ℕ} (h : Pool base L) {t : HoleTree}
    (ht : ∀ q ∈ t.labels, q ∈ L) : t.ptr < 4294967296 := by
  cases t with
  | nil => simp
  | node p => exact h.lt (ht p (by simp))

/-- A tree without nodes among the written slots stays where it is. -/
theorem Frame.rep {m m' : Mem} {base : ℕ} {A L : List ℕ} (hf : Frame m m' A) (hL : Slots base L)
    (hA : ∀ q ∈ A, q ∈ L) :
    ∀ {t : HoleTree}, (∀ q ∈ t.labels, q ∈ L) → t.labels.Disjoint A → Rep m t → Rep m' t
  | .nil, _, _, _ => trivial
  | .node p h k l r, ht, hd, ⟨hp, hn, hl, hr⟩ => by
    simp only [AvlTree.labels_node, List.mem_append, List.mem_cons] at ht
    rw [AvlTree.labels_node, List.disjoint_append_left, List.disjoint_cons_left] at hd
    obtain ⟨hdl, hdp, hdr⟩ := hd
    refine ⟨hp, ?_, Frame.rep hf hL hA (fun q hq => ht q (.inl hq)) hdl hl,
      Frame.rep hf hL hA (fun q hq => ht q (.inr (.inr hq))) hdr hr⟩
    rw [← hn]
    refine hf.readNode fun q hq => hL.apart (ht p (.inr (.inl rfl))) (hA q hq) ?_
    rintro rfl
    exact hdp hq

theorem Rep.ptr_eq_zero {m : Mem} {t : HoleTree} (h : Rep m t) : t.ptr = 0 ↔ t = .nil := by
  cases t with
  | nil => simp
  | node p h' k l r => simpa using h.1

/-- The stored height of the root, as `get_balance_factor` and `update_node_height` read it. -/
theorem Rep.nodeHeight_ptr {m : Mem} {t : HoleTree} (h : Rep m t) :
    (if t.ptr ≠ 0 then nodeHeight m t.ptr else 0) = t.ht := by
  cases t with
  | nil => rfl
  | node p h' k l r =>
    obtain ⟨hp, hn, -⟩ := h
    rw [AvlTree.ptr_node, if_pos hp]
    exact congrArg AvlNode.height hn

section Node

variable {m : Mem} {p : ℕ} {h : ℤ} {k : Hole} {l r : HoleTree}

theorem getBalanceFactor_eq (hn : readNode m p = ⟨l.ptr, r.ptr, h, k.size, k.addr⟩) (hl : Rep m l)
    (hr : Rep m r) : getBalanceFactor m p = r.ht - l.ht := by
  have hleft : nodeLeft m p = l.ptr := congrArg AvlNode.left hn
  have hright : nodeRight m p = r.ptr := congrArg AvlNode.right hn
  unfold getBalanceFactor
  simp only [hleft, hright, hl.nodeHeight_ptr, hr.nodeHeight_ptr]

theorem Rep.getBalanceFactor {t : HoleTree} (ht : Rep m t) (hn : t ≠ .nil) :
    getBalanceFactor m t.ptr = t.balanceFactor := by
  cases t with
  | nil => exact absurd rfl hn
  | node p h k l r => exact getBalanceFactor_eq ht.2.1 ht.2.2.1 ht.2.2.2

/-- `update_node_height` on a node whose subtrees are in place. -/
theorem updateNodeHeight_eq (hn : readNode m p = ⟨l.ptr, r.ptr, h, k.size, k.addr⟩) (hl : Rep m l)
    (hr : Rep m r) : updateNodeHeight m p = setHeight m p (max r.ht l.ht + 1) := by
  have hleft : nodeLeft m p = l.ptr := congrArg AvlNode.left hn
  have hright : nodeRight m p = r.ptr := congrArg AvlNode.right hn
  unfold updateNodeHeight
  simp only [hleft, hright, hl.nodeHeight_ptr, hr.nodeHeight_ptr]

end Node

end RawOS
