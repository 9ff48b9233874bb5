import RawOS.Alloc.AvlSim

/-!
# Insertion, removal and search in memory

`insertInternal_rep` and `removeInternal_rep` run the recursions of `kalloc_avl.c` on a memory
where an AVL tree stands next to the free list: they return, leave the tree that `AvlTree.insert`
or `AvlTree.remove` computes and the flag that goes with it, and move one node between the tree
and the free list. `avlFindHoleInternal_eq` says what the search reads.
-/

namespace RawOS

open AvlTree (Balanced Grown Shrunk IsAvl)

/-! ## The free list -/

/-- The free nodes, linked in both directions; `prev` is the node before them. -/
def FreeList (m : Mem) : ℕ → List ℕ → Prop
  | _, [] => True
  | prev, p :: fl => nodeLeft m p = prev ∧ nodeRight m p = fl.headD 0 ∧ FreeList m p fl

section

variable {base : ℕ} {m m' : Mem} {A L : List ℕ} {p q prev : ℕ} {fl : List ℕ}

theorem Frame.freeList (hf : Frame m m' A) (hL : Slots base L) (hA : ∀ q ∈ A, q ∈ L) :
    ∀ {fl : List ℕ} {prev : ℕ}, (∀ q ∈ fl, q ∈ L) → fl.Disjoint A → FreeList m prev fl →
      FreeList m' prev fl
  | [], _, _, _, _ => trivial
  | p :: fl, prev, hm, hd, ⟨hl, hr, hfl⟩ => by
    rw [List.disjoint_cons_left] at hd
    have hp : RawOS.readNode m' p = RawOS.readNode m p := hf.readNode fun q hq =>
      hL.apart (hm p List.mem_cons_self) (hA q hq) (by rintro rfl; exact hd.1 hq)
    refine ⟨(congrArg AvlNode.left hp).trans hl, (congrArg AvlNode.right hp).trans hr, ?_⟩
    exact Frame.freeList hf hL hA (fun q hq => hm q (List.mem_cons_of_mem p hq)) hd.2 hfl

/-- Only the first free node knows what is before the list. -/
theorem FreeList.relink (hP : Pool base (p :: fl)) (hv : q < 4294967296)
    (h : FreeList m prev (p :: fl)) : FreeList (setLeft m p q) q (p :: fl) := by
  obtain ⟨-, hr, hfl⟩ := h
  have hn := readNode_setLeft (m := m) (p := p) hv
  have hf := frame_setLeft m p q
  refine ⟨congrArg AvlNode.left hn, (congrArg AvlNode.right hn).trans hr, ?_⟩
  refine hf.freeList hP.slots (by simp) (by simp +contextual) ?_ hfl
  exact List.disjoint_singleton.mpr (List.nodup_cons.mp hP.nodup).1

theorem getFreeNode_rep {s : AvlState} (hP : Pool base (p :: fl)) (hs : s.free = p)
    (hfl : FreeList s.mem 0 (p :: fl)) :
    ∃ m', getFreeNode s = .ok (p, { s with mem := m', free := fl.headD 0 }) ∧
      FreeList m' 0 fl ∧ Frame s.mem m' fl := by
  obtain ⟨hl, hr, hfl⟩ := hfl
  have hp0 : p ≠ 0 := hP.pos p List.mem_cons_self
  unfold getFreeNode
  dsimp only
  rw [hs, assert_of_true hp0, ok_bind, hr]
  cases fl with
  | nil => exact ⟨s.mem, rfl, trivial, Frame.refl _ _⟩
  | cons q fl =>
    have hq0 : q ≠ 0 := hP.pos q (by simp)
    have hqp : Apart p q := hP.slots.apart (by simp) (by simp) (by
      rintro rfl
      exact (List.nodup_cons.mp hP.nodup).1 List.mem_cons_self)
    have hr' : nodeRight (setLeft s.mem q 0) p = q :=
      (congrArg AvlNode.right (readNode_setLeft_of_apart hqp)).trans hr
    rw [List.headD_cons, if_pos hq0, assert_of_true hfl.1, ok_bind, hr']
    exact ⟨_, rfl, hfl.relink (hP.sublist (by simp)) (by omega),
      (frame_setLeft _ q 0).mono (by simp)⟩

theorem putFreeNode_rep {s : AvlState} (hP : Pool base (p :: fl)) (hs : s.free = fl.headD 0)
    (hfl : FreeList s.mem 0 fl) :
    ∃ m', putFreeNode s p = .ok { s with mem := m', free := p } ∧
      FreeList m' 0 (p :: fl) ∧ Frame s.mem m' (p :: fl) := by
  have hp : p ∉ fl := (List.nodup_cons.mp hP.nodup).1
  have hprev : fl.headD 0 < 4294967296 := by
    cases fl with
    | nil => simp
    | cons q fl => exact hP.lt (by simp)
  obtain ⟨m₂, hm₂⟩ : ∃ m₂, m₂ = setRight (setLeft s.mem p 0) p (fl.headD 0) := ⟨_, rfl⟩
  have hn₂ : readNode m₂ p = { readNode s.mem p with left := 0, right := fl.headD 0 } := by
    rw [hm₂, readNode_setRight hprev, readNode_setLeft (by omega)]
  have hf₂ : Frame s.mem m₂ [p] := hm₂ ▸ (frame_setLeft _ p 0).trans (frame_setRight _ p _)
  have hfl₂ : FreeList m₂ 0 fl := by
    refine hf₂.freeList hP.slots (by simp) (by simp +contextual) ?_ hfl
    exact List.disjoint_singleton.mpr hp
  unfold putFreeNode
  dsimp only
  rw [hs, ← hm₂]
  cases fl with
  | nil =>
    exact ⟨m₂, rfl, ⟨congrArg AvlNode.left hn₂, congrArg AvlNode.right hn₂, trivial⟩,
      hf₂⟩
  | cons q fl =>
    have hpq : Apart p q := hP.slots.apart (by simp) (by simp) (by rintro rfl; simp at hp)
    have hn₃ : readNode (setLeft m₂ q p) p = readNode m₂ p := readNode_setLeft_of_apart hpq
    rw [List.headD_cons, if_pos (hP.pos q (by simp)), assert_of_true hfl₂.1, ok_bind]
    refine ⟨_, rfl, ⟨?_, ?_, hfl₂.relink (hP.sublist (by simp)) (hP.lt (by simp))⟩,
      (hf₂.mono (by simp)).trans ((frame_setLeft _ q p).mono (by simp))⟩
    · exact (congrArg AvlNode.left hn₃).trans (congrArg AvlNode.left hn₂)
    · exact (congrArg AvlNode.right hn₃).trans (congrArg AvlNode.right hn₂)

/-! ## Calls -/

/-- A call on the state `s` returned `r`: the tree `t.1` with the flag `t.2` next to the free
list `fl`, which together own the nodes `A`; nothing else is written. -/
structure Yields (s : AvlState) (A fl : List ℕ) (t : HoleTree × Bool) (r : ℕ × AvlState) :
    Prop where
  root : r.1 = t.1.ptr
  rep : Rep r.2.mem t.1
  flag : r.2.subtreeHeightChanged = t.2.toNat
  free : r.2.free = fl.headD 0
  freeList : FreeList r.2.mem 0 fl
  status : r.2.status = s.status
  perm : (t.1.labels ++ fl).Perm A
  frame : Frame s.mem r.2.mem A

variable {s : AvlState} {h : ℤ} {k : Hole} {l r : HoleTree} {t t' : HoleTree × Bool}
  {x : ℕ × AvlState}

theorem Yields.of_perm {B : List ℕ} (hy : Yields s A fl t x) (hAB : A.Perm B) :
    Yields s B fl t x where
  root := hy.root
  rep := hy.rep
  flag := hy.flag
  free := hy.free
  freeList := hy.freeList
  status := hy.status
  perm := hy.perm.trans hAB
  frame := hy.frame.mono fun _ hq => hAB.mem_iff.mp hq

/-- A call for the right subtree, the store of its result, and the rebalancing of the node. -/
theorem Yields.right (fix : AvlState → ℕ → Except Panic (ℕ × AvlState))
    (hP : Pool base (l.labels ++ p :: A)) (hR : Rep s.mem (.node p h k l r))
    (hy : Yields s A fl t x) (ht' : t'.1.labels = l.labels ++ p :: t.1.labels)
    (hfix : ∀ s' : AvlState, s'.subtreeHeightChanged = t.2.toNat → Rep s'.mem (.node p h k l t.1) →
      Pool base (AvlTree.node p h k l t.1).labels →
      ∃ y, fix s' p = .ok y ∧ Leaves s' (AvlTree.node p h k l t.1).labels t' y) :
    ∃ y, fix { x.2 with mem := setRight x.2.mem p x.1 } p = .ok y ∧
      Yields s (l.labels ++ p :: A) fl t' y := by
  obtain ⟨hp, hn, hl, -⟩ := hR
  have hS := hP.slots
  have hmem : ∀ q, q ∈ t.1.labels ∨ q ∈ fl ↔ q ∈ A := fun q => by
    rw [← hy.perm.mem_iff, List.mem_append]
  have hP' : Pool base (l.labels ++ p :: (t.1.labels ++ fl)) :=
    hP.perm ((hy.perm.symm.cons p).append_left _)
  have hPt : Pool base (AvlTree.node p h k l t.1).labels := hP'.sublist (by simp)
  have hnd := hP'.nodup
  simp only [List.nodup_append, List.nodup_cons, List.mem_append, List.mem_cons, not_or] at hnd
  have hx : x.1 < 4294967296 := hy.root ▸ hPt.ptr_lt (by simp +contextual)
  -- the store
  have hf : Frame x.2.mem (setRight x.2.mem p x.1) [p] := frame_setRight _ _ _
  have hpA : ∀ q ∈ A, Apart p q := fun q hq => by
    refine hS.apart (by simp) (by simp [hq]) ?_
    rintro rfl
    rcases (hmem _).mpr hq with hq | hq
    · exact hnd.2.1.1.1 hq
    · exact hnd.2.1.1.2 hq
  have hn' : readNode (setRight x.2.mem p x.1) p = ⟨l.ptr, t.1.ptr, h, k.size, k.addr⟩ := by
    rw [readNode_setRight hx, hy.frame.readNode hpA, hn, hy.root]
  have hl₁ : Rep x.2.mem l := hy.frame.rep hS (by simp +contextual) (by simp +contextual)
    (by intro q hq hqA; exact hnd.2.2 q hq q (.inr ((hmem q).mpr hqA)) rfl) hl
  have hl' := hf.rep hS (by simp) (by simp +contextual)
    (List.disjoint_singleton.mpr fun hq => hnd.2.2 p hq p (.inl rfl) rfl) hl₁
  have ht := hf.rep hS (by simp) (fun q hq => by simp [(hmem q).mp (.inl hq)])
    (List.disjoint_singleton.mpr hnd.2.1.1.1) hy.rep
  have hfl := hf.freeList hS (by simp) (fun q hq => by simp [(hmem q).mp (.inr hq)])
    (List.disjoint_singleton.mpr hnd.2.1.1.2) hy.freeList
  -- the rebalancing
  obtain ⟨y, hrun, hlv⟩ := hfix { x.2 with mem := setRight x.2.mem p x.1 } hy.flag
    ⟨hp, hn', hl', ht⟩ hPt
  refine ⟨y, hrun, hlv.root, hlv.rep, hlv.flag, hlv.free.trans hy.free, ?_,
    hlv.status.trans hy.status, ?_, ?_⟩
  · refine hlv.frame.freeList hP'.slots (by simp; grind) (by simp +contextual) ?_ hfl
    intro q hq hqt
    simp only [AvlTree.labels_node, List.mem_append, List.mem_cons] at hqt
    grind
  · rw [ht', List.append_assoc]
    exact (hy.perm.cons p).append_left _
  · refine (hy.frame.mono (by simp +contextual)).trans ((hf.mono (by simp)).trans
      (hlv.frame.mono fun q hq => ?_))
    simp only [AvlTree.labels_node, List.mem_append, List.mem_cons] at hq ⊢
    have := hmem q
    tauto

/-- The same on the left. -/
theorem Yields.left (fix : AvlState → ℕ → Except Panic (ℕ × AvlState))
    (hP : Pool base (A ++ p :: r.labels)) (hR : Rep s.mem (.node p h k l r))
    (hy : Yields s A fl t x) (ht' : t'.1.labels = t.1.labels ++ p :: r.labels)
    (hfix : ∀ s' : AvlState, s'.subtreeHeightChanged = t.2.toNat → Rep s'.mem (.node p h k t.1 r) →
      Pool base (AvlTree.node p h k t.1 r).labels →
      ∃ y, fix s' p = .ok y ∧ Leaves s' (AvlTree.node p h k t.1 r).labels t' y) :
    ∃ y, fix { x.2 with mem := setLeft x.2.mem p x.1 } p = .ok y ∧
      Yields s (A ++ p :: r.labels) fl t' y := by
  obtain ⟨hp, hn, -, hr⟩ := hR
  have hS := hP.slots
  have hmem : ∀ q, q ∈ t.1.labels ∨ q ∈ fl ↔ q ∈ A := fun q => by
    rw [← hy.perm.mem_iff, List.mem_append]
  have hperm : ((t.1.labels ++ p :: r.labels) ++ fl).Perm (A ++ p :: r.labels) := by
    refine List.Perm.trans ?_ (hy.perm.append_right (p :: r.labels))
    rw [List.append_assoc, List.append_assoc]
    exact List.perm_append_comm.append_left _
  have hP' : Pool base ((t.1.labels ++ p :: r.labels) ++ fl) := hP.perm hperm.symm
  have hPt : Pool base (AvlTree.node p h k t.1 r).labels := hP'.left
  have hnd := hP'.nodup
  simp only [List.nodup_append, List.nodup_cons, List.mem_append, List.mem_cons] at hnd
  have hx : x.1 < 4294967296 := hy.root ▸ hPt.ptr_lt (by simp +contextual)
  -- the store
  have hf : Frame x.2.mem (setLeft x.2.mem p x.1) [p] := frame_setLeft _ _ _
  have hpA : ∀ q ∈ A, Apart p q := fun q hq => by
    refine hS.apart (by simp) (by simp [hq]) ?_
    rintro rfl
    rcases (hmem _).mpr hq with hq | hq
    · exact hnd.1.2.2 _ hq _ (.inl rfl) rfl
    · exact hnd.2.2 _ (.inr (.inl rfl)) _ hq rfl
  have hn' : readNode (setLeft x.2.mem p x.1) p = ⟨t.1.ptr, r.ptr, h, k.size, k.addr⟩ := by
    rw [readNode_setLeft hx, hy.frame.readNode hpA, hn, hy.root]
  have hr₁ : Rep x.2.mem r := hy.frame.rep hS (by simp +contextual) (by simp +contextual)
    (by intro q hq hqA; have := hmem q; grind) hr
  have hr' := hf.rep hS (by simp) (by simp +contextual)
    (List.disjoint_singleton.mpr hnd.1.2.1.1) hr₁
  have ht := hf.rep hS (by simp) (fun q hq => by simp [(hmem q).mp (.inl hq)])
    (List.disjoint_singleton.mpr fun hq => hnd.1.2.2 p hq p (.inl rfl) rfl) hy.rep
  have hfl := hf.freeList hS (by simp) (fun q hq => by simp [(hmem q).mp (.inr hq)])
    (List.disjoint_singleton.mpr fun hq => hnd.2.2 p (.inr (.inl rfl)) p hq rfl) hy.freeList
  -- the rebalancing
  obtain ⟨y, hrun, hlv⟩ := hfix { x.2 with mem := setLeft x.2.mem p x.1 } hy.flag
    ⟨hp, hn', ht, hr'⟩ hPt
  refine ⟨y, hrun, hlv.root, hlv.rep, hlv.flag, hlv.free.trans hy.free, ?_,
    hlv.status.trans hy.status, ?_, ?_⟩
  · refine hlv.frame.freeList hP'.slots (by simp; grind) (by simp +contextual) ?_ hfl
    intro q hq hqt
    simp only [AvlTree.labels_node, List.mem_append, List.mem_cons] at hqt
    grind
  · rw [ht']
    exact hperm
  · refine (hy.frame.mono (by simp +contextual)).trans ((hf.mono (by simp)).trans
      (hlv.frame.mono fun q hq => ?_))
    simp only [AvlTree.labels_node, List.mem_append, List.mem_cons] at hq ⊢
    have := hmem q
    tauto

/-! ## Insertion -/

theorem compareHole_eq_zero {s₁ a₁ s₂ a₂ : ℕ} :
    compareHole s₁ a₁ s₂ a₂ = 0 ↔ s₁ = s₂ ∧ a₁ = a₂ := by
  unfold compareHole
  split_ifs <;> simp <;> omega

theorem compareHole_pos {k k' : Hole} :
    compareHole k.size k.addr k'.size k'.addr > 0 ↔ k' < k := by
  have hlt : k' < k ↔ k'.size < k.size ∨ k'.size = k.size ∧ k'.addr < k.addr :=
    hole_lt_hole (s := k'.size)
  rw [hlt]
  unfold compareHole
  split_ifs <;> constructor <;> intro <;> omega

theorem compareHole_neg {k k' : Hole} :
    compareHole k.size k.addr k'.size k'.addr < 0 ↔ k < k' := by
  have hlt : k < k' ↔ k.size < k'.size ∨ k.size = k'.size ∧ k.addr < k'.addr :=
    hole_lt_hole (s := k.size)
  rw [hlt]
  unfold compareHole
  split_ifs <;> constructor <;> intro <;> omega

theorem compareHole_eq_zero' {k k' : Hole} :
    compareHole k.size k.addr k'.size k'.addr = 0 ↔ k = k' :=
  compareHole_eq_zero.trans (hole_inj (s := k.size)).symm

theorem compareHole_self (s a : ℕ) : compareHole s a s a = 0 :=
  compareHole_eq_zero.mpr ⟨rfl, rfl⟩

/-- The first key of a node taken from the pool. -/
theorem leaf_rep {c : ℕ} (hc : c ≠ 0) (hs : k.size < 4294967296) (ha : k.addr < 4294967296) :
    Rep (setHeight (setRight (setLeft (setHoleSize (setHoleAddr m c k.addr) c k.size) c 0) c 0) c 1)
      (.node c 1 k .nil .nil) := by
  refine ⟨hc, ?_, trivial, trivial⟩
  rw [readNode_setHeight (by omega) (by omega), readNode_setRight (by omega),
    readNode_setLeft (by omega), readNode_setHoleSize hs, readNode_setHoleAddr ha]
  rfl

/-- `insert_internal` for a key that is not there. -/
theorem insertInternal_rep {c : ℕ} (hks : k.size < 4294967296) (hka : k.addr < 4294967296) :
    ∀ {fuel : ℕ} {t : HoleTree} {s : AvlState}, t.height < fuel →
      Pool base (t.labels ++ c :: fl) → Rep s.mem t → s.free = c →
      FreeList s.mem 0 (c :: fl) → t.Balanced → k ∉ t.keys →
      ∃ x, insertInternal fuel s t.ptr k.size k.addr = .ok x ∧
        Yields s (t.labels ++ c :: fl) fl (t.insert c k) x
  | 0, _, _, hfuel, _, _, _, _, _, _ => absurd hfuel (Nat.not_lt_zero _)
  | fuel + 1, .nil, s, _, hP, _, hs, hfl, _, _ => by
    obtain ⟨m', hrun, hfl', hf⟩ := getFreeNode_rep hP hs hfl
    have hc : c ≠ 0 := hP.pos c (by simp)
    have hcfl : c ∉ fl := (List.nodup_cons.mp hP.nodup).1
    have hw : Frame m' (setHeight (setRight (setLeft (setHoleSize (setHoleAddr m' c k.addr) c k.size)
        c 0) c 0) c 1) [c] :=
      ((((frame_setHoleAddr m' c _).trans (frame_setHoleSize _ c _)).trans
        (frame_setLeft _ c 0)).trans (frame_setRight _ c 0)).trans (frame_setHeight _ c 1)
    unfold insertInternal
    rw [AvlTree.ptr_nil, if_pos rfl, hrun, ok_bind]
    dsimp only
    rw [if_neg hc]
    refine ⟨_, rfl, rfl, leaf_rep hc hks hka, rfl, rfl, ?_, rfl, List.Perm.refl _, ?_⟩
    · exact hw.freeList hP.slots (by simp) (by simp +contextual)
        (List.disjoint_singleton.mpr hcfl) hfl'
    · exact (hf.mono (by simp +contextual)).trans (hw.mono (by simp))
  | fuel + 1, .node p h k' l r, s, hfuel, hP, hR, hs, hfl, ⟨hh, h₁, h₂, hl, hr⟩, hk => by
    obtain ⟨hp, hn, hrl, hrr⟩ := id hR
    simp only [AvlTree.keys_node, List.mem_append, List.mem_cons, not_or] at hk
    obtain ⟨hkl, hkk, hkr⟩ := hk
    rw [AvlTree.height_node] at hfuel
    obtain ⟨hsize, haddr, hleft, hright⟩ := readNode_fields hn
    unfold insertInternal AvlTree.insert
    dsimp only
    rw [AvlTree.ptr_node, if_neg hp, hsize, haddr, hleft, hright,
      assert_of_true (mt compareHole_eq_zero'.mp hkk), ok_bind]
    rcases lt_or_gt_of_ne hkk with hlt | hlt
    · -- to the left
      have hPl : Pool base (l.labels ++ c :: fl) := hP.sublist (by simp)
      obtain ⟨x, hrun, hy⟩ :=
        insertInternal_rep hks hka (show l.height < fuel by omega) hPl hrl hs hfl hl hkl
      have hgr := AvlTree.insert_grown c k hl
      have hperm : ((l.labels ++ c :: fl) ++ p :: r.labels).Perm
          ((AvlTree.node p h k' l r).labels ++ c :: fl) := by
        rw [AvlTree.labels_node, List.append_assoc, List.append_assoc]
        exact List.perm_append_comm.append_left _
      obtain ⟨y, hfix, hy'⟩ := hy.left insertFixLeft (hP.perm hperm.symm) hR
        AvlTree.labels_growLeft fun s' hflag hrep hpool =>
          insertFixLeft_rep hpool hrep hflag hgr hr hh h₁ h₂
      rw [if_neg (mt compareHole_pos.mp hlt.asymm), if_pos (compareHole_neg.mpr hlt), hrun, ok_bind,
        if_neg hlt.asymm]
      exact ⟨y, hfix, hy'.of_perm hperm⟩
    · -- to the right
      have hPr : Pool base (r.labels ++ c :: fl) := hP.sublist (by simp)
      obtain ⟨x, hrun, hy⟩ :=
        insertInternal_rep hks hka (show r.height < fuel by omega) hPr hrr hs hfl hr hkr
      have hgr := AvlTree.insert_grown c k hr
      have hperm : (l.labels ++ p :: (r.labels ++ c :: fl)).Perm
          ((AvlTree.node p h k' l r).labels ++ c :: fl) := by simp
      obtain ⟨y, hfix, hy'⟩ := hy.right insertFixRight (hP.perm hperm.symm) hR
        AvlTree.labels_growRight fun s' hflag hrep hpool =>
          insertFixRight_rep hpool hrep hflag hl hgr hh h₁ h₂
      rw [if_pos (compareHole_pos.mpr hlt), hrun, ok_bind, if_pos hlt]
      exact ⟨y, hfix, hy'.of_perm hperm⟩

/-- Why an insertion stops when all nodes are in use. -/
def poolExhausted : Panic := .assertFailed "kalloc_avl: no free node available"

/-- `insert_internal` for a key that is not there, without a free node. -/
theorem insertInternal_full :
    ∀ {fuel : ℕ} {t : HoleTree} {s : AvlState}, t.height < fuel → Rep s.mem t → s.free = 0 →
      k ∉ t.keys → insertInternal fuel s t.ptr k.size k.addr = .error poolExhausted
  | 0, _, _, hfuel, _, _, _ => absurd hfuel (Nat.not_lt_zero _)
  | fuel + 1, .nil, s, _, _, hs, _ => by
    unfold insertInternal getFreeNode
    dsimp only
    rw [AvlTree.ptr_nil, if_pos rfl, hs]
    rfl
  | fuel + 1, .node p h k' l r, s, hfuel, ⟨hp, hn, hl, hr⟩, hs, hk => by
    simp only [AvlTree.keys_node, List.mem_append, List.mem_cons, not_or] at hk
    obtain ⟨hkl, hkk, hkr⟩ := hk
    rw [AvlTree.height_node] at hfuel
    obtain ⟨hsize, haddr, hleft, hright⟩ := readNode_fields hn
    unfold insertInternal
    dsimp only
    rw [AvlTree.ptr_node, if_neg hp, hsize, haddr, hleft, hright,
      assert_of_true (mt compareHole_eq_zero'.mp hkk), ok_bind,
      insertInternal_full (show l.height < fuel by omega) hl hs hkl,
      insertInternal_full (show r.height < fuel by omega) hr hs hkr]
    rcases lt_or_gt_of_ne hkk with hlt | hlt
    · rw [if_neg (mt compareHole_pos.mp hlt.asymm), if_pos (compareHole_neg.mpr hlt)]
      rfl
    · rw [if_pos (compareHole_pos.mpr hlt)]
      rfl

/-! ## Removal -/

theorem Yields.of_frame {s' : AvlState} (hy : Yields s' A fl t x) (hf : Frame s.mem s'.mem A)
    (hs : s'.status = s.status) : Yields s A fl t x where
  root := hy.root
  rep := hy.rep
  flag := hy.flag
  free := hy.free
  freeList := hy.freeList
  status := hy.status.trans hs
  perm := hy.perm
  frame := hf.trans hy.frame

/-- The loop of `find_predecessor` ends at the last node in order. -/
theorem findPredecessorLoop_rep (d : Hole) :
    ∀ {fuel : ℕ} {t : HoleTree}, t.height ≤ fuel → t ≠ .nil → Rep m t →
      ∃ q ∈ t.labels, findPredecessorLoop m fuel t.ptr = .ok q ∧
        nodeHoleSize m q = (t.rightmost d).size ∧ nodeHoleAddr m q = (t.rightmost d).addr
  | _, .nil, _, ht, _ => absurd rfl ht
  | 0, .node p h k l r, hfuel, _, _ => absurd hfuel (by simp)
  | fuel + 1, .node p h k l r, hfuel, _, ⟨hp, hn, hl, hr⟩ => by
    have hright : nodeRight m p = r.ptr := congrArg AvlNode.right hn
    rw [AvlTree.height_node] at hfuel
    unfold findPredecessorLoop
    rw [AvlTree.ptr_node, hright]
    by_cases hr0 : r = .nil
    · subst hr0
      exact ⟨p, by simp, rfl, congrArg AvlNode.holeSize hn, congrArg AvlNode.holeAddr hn⟩
    · obtain ⟨q, hq, hrun, hsize, haddr⟩ :=
        findPredecessorLoop_rep k (show r.height ≤ fuel by omega) hr0 hr
      rw [if_pos (mt hr.ptr_eq_zero.mp hr0)]
      exact ⟨q, by simp [hq], hrun, hsize, haddr⟩

/-- The node takes the key of its only child, which goes to the free list. -/
theorem removePromote_rep {c lp rp ks ka : ℕ} {clear : Mem → Mem} (hP : Pool base (p :: c :: fl))
    (hn : readNode s.mem p = ⟨lp, rp, h, ks, ka⟩)
    (hc : readNode s.mem c = ⟨0, 0, 1, k.size, k.addr⟩)
    (hfree : s.free = fl.headD 0) (hfl : FreeList s.mem 0 fl)
    (hclear : ∀ m, readNode m p = ⟨lp, rp, h, k.size, k.addr⟩ →
      readNode (clear m) p = ⟨0, 0, h, k.size, k.addr⟩)
    (hframe : ∀ m, Frame m (clear m) [p]) (h₀ : 1 ≤ h) (h₁ : h < 2147483648) :
    ∃ x, removePromote s p c clear = .ok x ∧
      Yields s (p :: c :: fl) (c :: fl) (.node p (h - 1) k .nil .nil, true) x := by
  have hnd := hP.nodup
  simp only [List.nodup_cons, List.mem_cons, not_or] at hnd
  obtain ⟨⟨hpc, hpfl⟩, hcfl, -⟩ := hnd
  have hApart : Apart p c := hP.slots.apart (by simp) (by simp) hpc
  have hsize : nodeHoleSize s.mem c = k.size := congrArg AvlNode.holeSize hc
  have hks : k.size < 4294967296 := hsize ▸ load32_lt _ _
  have haddr : nodeHoleAddr (setHoleSize s.mem p k.size) c = k.addr :=
    (congrArg AvlNode.holeAddr (readNode_setHoleSize_of_apart hApart.symm)).trans
      (congrArg AvlNode.holeAddr hc)
  have hka : k.addr < 4294967296 := haddr ▸ load32_lt _ _
  -- the copy of the key
  obtain ⟨m₁, hm₁⟩ : ∃ m₁, m₁ = setHoleAddr (setHoleSize s.mem p k.size) p k.addr := ⟨_, rfl⟩
  have hf₁ : Frame s.mem m₁ [p] :=
    hm₁ ▸ (frame_setHoleSize s.mem p k.size).trans (frame_setHoleAddr _ p k.addr)
  have hn₁ : readNode m₁ p = ⟨lp, rp, h, k.size, k.addr⟩ := by
    rw [hm₁, readNode_setHoleAddr hka, readNode_setHoleSize hks, hn]
  have hfl₁ : FreeList m₁ 0 fl := hf₁.freeList hP.slots (by simp) (by simp +contextual)
    (List.disjoint_singleton.mpr hpfl) hfl
  -- the child is freed
  have hPc : Pool base (c :: fl) := hP.sublist (List.sublist_cons_self p _)
  obtain ⟨m₂, hput, hfl₂, hf₂⟩ := putFreeNode_rep (s := { s with mem := m₁ }) hPc hfree hfl₁
  have hn₂ : readNode m₂ p = ⟨lp, rp, h, k.size, k.addr⟩ := by
    rw [hf₂.readNode fun q hq => ?_]
    · exact hn₁
    · exact hP.slots.apart (by simp) (by simp [hq]) (by rintro rfl; simp [hpc, hpfl] at hq)
  -- the pointer to it is cleared and the height updated
  have hn₃ := hclear m₂ hn₂
  have hheight : nodeHeight (clear m₂) p = h := congrArg AvlNode.height hn₃
  have hf₄ : Frame m₂ (setHeight (clear m₂) p (h - 1)) [p] :=
    (hframe m₂).trans (frame_setHeight _ p _)
  have hn₄ : readNode (setHeight (clear m₂) p (h - 1)) p = ⟨0, 0, h - 1, k.size, k.addr⟩ := by
    rw [readNode_setHeight (by omega) (by omega), hn₃]
  unfold removePromote
  dsimp only
  rw [hsize, haddr, ← hm₁, hput, ok_bind]
  dsimp only
  rw [hheight]
  refine ⟨_, rfl, rfl, ⟨hP.pos p (by simp), hn₄, trivial, trivial⟩, rfl, rfl, ?_, rfl,
    List.Perm.refl _, ?_⟩
  · exact hf₄.freeList hP.slots (by simp) (by simp +contextual)
      (List.disjoint_singleton.mpr (by simp [hpc, hpfl])) hfl₂
  · exact (hf₁.mono (by simp)).trans ((hf₂.mono (by simp +contextual)).trans (hf₄.mono (by simp)))

/-- Replacing the key of the root by that of a node below it. -/
theorem setKey_rep (hP : Pool base (AvlTree.node p h k l r).labels)
    (hR : Rep m (.node p h k l r)) {y : Hole} (hq : q ∈ l.labels)
    (hsize : nodeHoleSize m q = y.size) (haddr : nodeHoleAddr m q = y.addr) :
    nodeHoleAddr (setHoleSize m p y.size) q = y.addr ∧
      Rep (setHoleAddr (setHoleSize m p y.size) p y.addr) (.node p h y l r) ∧
      Frame m (setHoleAddr (setHoleSize m p y.size) p y.addr) [p] := by
  obtain ⟨hp, hn, hl, hr⟩ := hR
  have hnd := hP.nodup
  simp only [AvlTree.labels_node, List.nodup_append, List.nodup_cons, List.mem_cons] at hnd
  have hqp : Apart q p := hP.slots.apart (by simp [hq]) (by simp) (hnd.2.2 q hq p (.inl rfl))
  have hys : y.size < 4294967296 := hsize ▸ load32_lt _ _
  have hya : y.addr < 4294967296 := haddr ▸ load32_lt _ _
  have hf := (frame_setHoleSize m p y.size).trans (frame_setHoleAddr _ p y.addr)
  refine ⟨?_, ⟨hp, ?_, ?_, ?_⟩, hf⟩
  · exact (congrArg AvlNode.holeAddr (readNode_setHoleSize_of_apart hqp)).trans haddr
  · rw [readNode_setHoleAddr hya, readNode_setHoleSize hys, hn]
  · exact hf.rep hP.slots (by simp) (by simp +contextual)
      (List.disjoint_singleton.mpr fun hm => hnd.2.2 p hm p (.inl rfl) rfl) hl
  · exact hf.rep hP.slots (by simp) (by simp +contextual)
      (List.disjoint_singleton.mpr hnd.2.1.1) hr

/-- `remove_internal` takes `k` out of `t`. -/
def RemovesKey (base : ℕ) (fl : List ℕ) (k : Hole) (t : HoleTree) : Prop :=
  ∀ {fuel : ℕ} {s : AvlState}, t.height < fuel → Pool base (t.labels ++ fl) → Rep s.mem t →
    s.free = fl.headD 0 → FreeList s.mem 0 fl →
    ∃ x, removeInternal fuel s t.ptr k.size k.addr = .ok x ∧
      Yields s (t.labels ++ fl) ((t.remove k).2 ++ fl) (t.remove k).1 x

/-- A leaf goes to the free list. -/
theorem removesKey_leaf : RemovesKey base fl k (.node p 1 k .nil .nil) := by
  rintro fuel s hfuel hP ⟨hp, hn, -⟩ hs hfl
  obtain ⟨fuel, rfl⟩ : ∃ n, fuel = n + 1 := ⟨fuel - 1, by simp at hfuel; omega⟩
  obtain ⟨hsize, haddr, hleft, hright⟩ := readNode_fields hn
  obtain ⟨m', hput, hfl', hf⟩ := putFreeNode_rep (p := p) (hP.perm (by simp)) hs hfl
  rw [AvlTree.remove_root_nil_left]
  unfold removeInternal
  dsimp only
  rw [AvlTree.ptr_node, if_neg hp, hsize, haddr, hleft, hright, compareHole_self, if_pos rfl,
    if_pos ⟨rfl, rfl⟩, hput, ok_bind]
  exact ⟨_, rfl, rfl, trivial, rfl, rfl, hfl', rfl, List.Perm.refl _, hf.mono (by simp)⟩

theorem removesKey_onlyRight {c : ℕ} {k' : Hole} (hh : h = 2) :
    RemovesKey base fl k (.node p h k .nil (.node c 1 k' .nil .nil)) := by
  rintro fuel s hfuel hP ⟨hp, hn, -, hc, hnc, -⟩ hs hfl
  obtain ⟨fuel, rfl⟩ : ∃ n, fuel = n + 1 := ⟨fuel - 1, by simp at hfuel; omega⟩
  obtain ⟨hsize, haddr, hleft, hright⟩ := readNode_fields hn
  rw [AvlTree.ptr_nil] at hleft
  rw [AvlTree.ptr_node] at hright
  obtain ⟨x, hrun, hy⟩ := removePromote_rep (hP.perm (by simp)) hn hnc hs hfl
    (fun m hm => by rw [readNode_setRight (by omega), hm]; rfl)
    (fun m => frame_setRight m p 0) (by omega) (by omega)
  rw [AvlTree.remove_root_nil_left]
  unfold removeInternal
  dsimp only
  rw [AvlTree.ptr_node, if_neg hp, hsize, haddr, hleft, hright, compareHole_self, if_pos rfl,
    if_neg (fun h => hc h.2), if_pos rfl]
  exact ⟨x, hrun, hy.of_perm (by simp)⟩

theorem removesKey_onlyLeft {c : ℕ} {k' : Hole} (hh : h = 2) :
    RemovesKey base fl k (.node p h k (.node c 1 k' .nil .nil) .nil) := by
  rintro fuel s hfuel hP ⟨hp, hn, ⟨hc, hnc, -⟩, -⟩ hs hfl
  obtain ⟨fuel, rfl⟩ : ∃ n, fuel = n + 1 := ⟨fuel - 1, by simp at hfuel; omega⟩
  obtain ⟨hsize, haddr, hleft, hright⟩ := readNode_fields hn
  rw [AvlTree.ptr_node] at hleft
  rw [AvlTree.ptr_nil] at hright
  obtain ⟨x, hrun, hy⟩ := removePromote_rep (hP.perm (List.Perm.swap p c fl)) hn hnc hs hfl
    (fun m hm => by rw [readNode_setLeft (by omega), hm]; rfl)
    (fun m => frame_setLeft m p 0) (by omega) (by omega)
  rw [AvlTree.remove_root_nil_right]
  unfold removeInternal
  dsimp only
  rw [AvlTree.ptr_node, if_neg hp, hsize, haddr, hleft, hright, compareHole_self, if_pos rfl,
    if_neg (fun h => hc h.1), if_neg hc, if_pos rfl]
  exact ⟨x, hrun, hy.of_perm (List.Perm.swap c p fl)⟩

/-- The root takes the key of its predecessor, which is removed below. -/
theorem removesKey_root (hl : l ≠ .nil) (hr : r ≠ .nil) (hA : (AvlTree.node p h k l r).IsAvl)
    (ih : RemovesKey base fl (l.rightmost k) l) : RemovesKey base fl k (.node p h k l r) := by
  rintro fuel s hfuel hP hR hs hfl
  obtain ⟨hh, h₁, h₂, hlb, hrb⟩ := hA.balanced
  obtain ⟨fuel, rfl⟩ : ∃ n, fuel = n + 1 := ⟨fuel - 1, by omega⟩
  obtain ⟨hp, hn, hrl, hrr⟩ := id hR
  rw [AvlTree.height_node] at hfuel
  obtain ⟨hsize, haddr, hleft, hright⟩ := readNode_fields hn
  have hlen := hP.length
  have hlh := l.height_le_length_labels
  simp only [AvlTree.labels_node, List.length_append, List.length_cons] at hlen
  obtain ⟨q, hq, hpred, hqs, hqa⟩ :=
    findPredecessorLoop_rep k (show l.height ≤ avlFuel by unfold avlFuel; omega) hl hrl
  have hymem := AvlTree.rightmost_mem k hl
  have hyk : l.rightmost k < k := hA.ordered.1 _ hymem
  have hysh := AvlTree.remove_shrunk hA.left hymem
  obtain ⟨hqa', hR', hf⟩ := setKey_rep hP.left hR hq hqs hqa
  rw [AvlTree.remove_root hl hr]
  generalize l.rightmost k = y at *
  obtain ⟨m', hm'⟩ : ∃ m', m' = setHoleAddr (setHoleSize s.mem p y.size) p y.addr := ⟨_, rfl⟩
  rw [← hm'] at hR' hf
  have hleft' : nodeLeft m' p = l.ptr := congrArg AvlNode.left hR'.2.1
  have hPl : Pool base (l.labels ++ fl) := hP.sublist (by simp)
  have hnd := hP.nodup
  simp only [AvlTree.labels_node, List.nodup_append, List.nodup_cons, List.mem_append,
    List.mem_cons] at hnd
  have hfl' : FreeList m' 0 fl := hf.freeList hP.slots (by simp) (by simp +contextual)
    (List.disjoint_singleton.mpr fun hm => hnd.2.2 p (.inr (.inl rfl)) p hm rfl) hfl
  -- the predecessor's key is removed below
  obtain ⟨x, hrun, hy⟩ := ih (s := { s with mem := m' }) (show l.height < fuel by omega) hPl
    hR'.2.2.1 hs hfl'
  have hperm : ((l.labels ++ fl) ++ p :: r.labels).Perm
      ((AvlTree.node p h k l r).labels ++ fl) := by
    rw [AvlTree.labels_node, List.append_assoc, List.append_assoc]
    exact List.perm_append_comm.append_left _
  obtain ⟨z, hfix, hz⟩ := hy.left removeFixLeft (hP.perm hperm.symm) hR' AvlTree.labels_shrinkLeft
    fun s' hflag hrep hpool =>
      removeFixLeft_rep hpool hrep hflag hysh.lowered hrb (by omega) hh.le h₁ h₂
  unfold removeInternal
  dsimp only
  rw [AvlTree.ptr_node, if_neg hp, hsize, haddr, hleft, hright, compareHole_self, if_pos rfl,
    if_neg (fun h => hl (hrl.ptr_eq_zero.mp h.1)), if_neg (mt hrl.ptr_eq_zero.mp hl),
    if_neg (mt hrr.ptr_eq_zero.mp hr)]
  unfold findPredecessor
  rw [hleft, hpred, ok_bind, hqs, hqa, hqa', if_neg (mt compareHole_pos.mp hyk.asymm), ← hm',
    hleft', hrun, ok_bind]
  exact ⟨z, hfix, (hz.of_perm hperm).of_frame (hf.mono (by simp)) rfl⟩

theorem removesKey_right {k' : Hole} (hlt : k' < k) (hkr : k ∈ r.keys)
    (hA : (AvlTree.node p h k' l r).IsAvl) (ih : RemovesKey base fl k r) :
    RemovesKey base fl k (.node p h k' l r) := by
  rintro fuel s hfuel hP hR hs hfl
  obtain ⟨hh, h₁, h₂, hlb, hrb⟩ := hA.balanced
  obtain ⟨fuel, rfl⟩ : ∃ n, fuel = n + 1 := ⟨fuel - 1, by omega⟩
  obtain ⟨hp, hn, hrl, hrr⟩ := id hR
  rw [AvlTree.height_node] at hfuel
  obtain ⟨hsize, haddr, -, hright⟩ := readNode_fields hn
  have hPr : Pool base (r.labels ++ fl) := hP.sublist (by simp)
  obtain ⟨x, hrun, hy⟩ := ih (show r.height < fuel by omega) hPr hrr hs hfl
  have hsh := AvlTree.remove_shrunk hA.right hkr
  have hperm : (l.labels ++ p :: (r.labels ++ fl)).Perm
      ((AvlTree.node p h k' l r).labels ++ fl) := by simp
  obtain ⟨z, hfix, hz⟩ := hy.right removeFixRight (hP.perm hperm.symm) hR
    AvlTree.labels_shrinkRight fun s' hflag hrep hpool =>
      removeFixRight_rep hpool hrep hflag hlb hsh.lowered (by omega) hh.le h₁ h₂
  rw [AvlTree.remove_right hlt]
  unfold removeInternal
  dsimp only
  rw [AvlTree.ptr_node, if_neg hp, hsize, haddr, if_neg (mt compareHole_eq_zero'.mp hlt.ne'),
    if_pos (compareHole_pos.mpr hlt), hright, hrun, ok_bind]
  exact ⟨z, hfix, hz.of_perm hperm⟩

theorem removesKey_left {k' : Hole} (hlt : k < k') (hkl : k ∈ l.keys)
    (hA : (AvlTree.node p h k' l r).IsAvl) (ih : RemovesKey base fl k l) :
    RemovesKey base fl k (.node p h k' l r) := by
  rintro fuel s hfuel hP hR hs hfl
  obtain ⟨hh, h₁, h₂, hlb, hrb⟩ := hA.balanced
  obtain ⟨fuel, rfl⟩ : ∃ n, fuel = n + 1 := ⟨fuel - 1, by omega⟩
  obtain ⟨hp, hn, hrl, hrr⟩ := id hR
  rw [AvlTree.height_node] at hfuel
  obtain ⟨hsize, haddr, hleft, -⟩ := readNode_fields hn
  have hPl : Pool base (l.labels ++ fl) := hP.sublist (by simp)
  obtain ⟨x, hrun, hy⟩ := ih (show l.height < fuel by omega) hPl hrl hs hfl
  have hsh := AvlTree.remove_shrunk hA.left hkl
  have hperm : ((l.labels ++ fl) ++ p :: r.labels).Perm
      ((AvlTree.node p h k' l r).labels ++ fl) := by
    rw [AvlTree.labels_node, List.append_assoc, List.append_assoc]
    exact List.perm_append_comm.append_left _
  obtain ⟨z, hfix, hz⟩ := hy.left removeFixLeft (hP.perm hperm.symm) hR AvlTree.labels_shrinkLeft
    fun s' hflag hrep hpool =>
      removeFixLeft_rep hpool hrep hflag hsh.lowered hrb (by omega) hh.le h₁ h₂
  rw [AvlTree.remove_left hlt]
  unfold removeInternal
  dsimp only
  rw [AvlTree.ptr_node, if_neg hp, hsize, haddr, if_neg (mt compareHole_eq_zero'.mp hlt.ne),
    if_neg (mt compareHole_pos.mp hlt.asymm), hleft, hrun, ok_bind]
  exact ⟨z, hfix, hz.of_perm hperm⟩

/-- `remove_internal` for a key that is there. -/
theorem removeInternal_rep {t : HoleTree} (ht : t.IsAvl) (hk : k ∈ t.keys) :
    ∀ {fuel : ℕ} {s : AvlState}, t.height < fuel → Pool base (t.labels ++ fl) → Rep s.mem t →
      s.free = fl.headD 0 → FreeList s.mem 0 fl →
      ∃ x, removeInternal fuel s t.ptr k.size k.addr = .ok x ∧
        Yields s (t.labels ++ fl) ((t.remove k).2 ++ fl) (t.remove k).1 x := by
  have hb := ht.balanced
  revert hb
  refine AvlTree.remove_induction (P := fun k t => t.Balanced → RemovesKey base fl k t)
    ?leaf ?onlyRight ?onlyLeft ?root ?right ?left ht hk
  case leaf => exact fun p k _ => removesKey_leaf
  case onlyRight => exact fun p h k c k' ⟨hh, _⟩ => removesKey_onlyRight (by simpa using hh)
  case onlyLeft => exact fun p h k c k' ⟨hh, _⟩ => removesKey_onlyLeft (by simpa using hh)
  case root =>
    exact fun p h k l r hl hr _ hA ih _ => removesKey_root hl hr hA (ih hA.balanced.2.2.2.1)
  case right =>
    exact fun p h k k' l r hlt hkr hA ih _ => removesKey_right hlt hkr hA (ih hA.balanced.2.2.2.2)
  case left =>
    exact fun p h k k' l r hlt hkl hA ih _ => removesKey_left hlt hkl hA (ih hA.balanced.2.2.2.1)

/-! ## Search -/

/-- The test of `hole_has_alignment_space` on a hole. -/
def Hole.fits (k : Hole) (wantedSize alignment : ℕ) : Prop :=
  k.size ≥ u32 (wantedSize + u32Sub (getAlignedAddress k.addr alignment) k.addr)

instance (k : Hole) (wantedSize alignment : ℕ) : Decidable (k.fits wantedSize alignment) :=
  inferInstanceAs (Decidable (_ ≥ _))

/-- The address that the search finds, `0` if it finds none. -/
def AvlTree.findHole (wantedSize alignment : ℕ) : HoleTree → ℕ
  | .nil => 0
  | .node _ _ k l r =>
    if wantedSize > k.size ∨ ¬ k.fits wantedSize alignment then r.findHole wantedSize alignment
    else if l.findHole wantedSize alignment ≠ 0 then l.findHole wantedSize alignment
    else k.addr

theorem avlFindHoleInternal_rep {wantedSize alignment : ℕ} :
    ∀ {fuel : ℕ} {t : HoleTree}, t.height < fuel → Rep m t →
      avlFindHoleInternal m fuel t.ptr wantedSize alignment =
        .ok (t.findHole wantedSize alignment)
  | 0, _, hfuel, _ => absurd hfuel (Nat.not_lt_zero _)
  | fuel + 1, .nil, _, _ => rfl
  | fuel + 1, .node p h k l r, hfuel, ⟨hp, hn, hl, hr⟩ => by
    rw [AvlTree.height_node] at hfuel
    obtain ⟨hsize, haddr, hleft, hright⟩ := readNode_fields hn
    have hcmp : compareHoleSize wantedSize k.size > 0 ↔ wantedSize > k.size := by
      unfold compareHoleSize
      split_ifs <;> simp <;> omega
    have hfits : holeHasAlignmentSpace m p wantedSize alignment ↔ k.fits wantedSize alignment := by
      unfold holeHasAlignmentSpace Hole.fits
      rw [hsize, haddr]
    unfold avlFindHoleInternal AvlTree.findHole
    dsimp only
    rw [AvlTree.ptr_node, if_neg hp, hsize, haddr, hleft, hright,
      avlFindHoleInternal_rep (show l.height < fuel by omega) hl,
      avlFindHoleInternal_rep (show r.height < fuel by omega) hr]
    simp only [hcmp, hfits, ok_bind]
    split_ifs <;> rfl

/-- What is found is the address of a large enough hole that passes the test. -/
theorem AvlTree.findHole_mem {wantedSize alignment : ℕ} :
    ∀ {t : HoleTree}, t.findHole wantedSize alignment ≠ 0 →
      ∃ k ∈ t.keys, k.addr = t.findHole wantedSize alignment ∧ wantedSize ≤ k.size ∧
        k.fits wantedSize alignment
  | .nil, h => absurd rfl h
  | .node p h k l r, hne => by
    unfold findHole at hne ⊢
    split_ifs at hne ⊢ with h₁ h₂
    · obtain ⟨k', hk', hrest⟩ := findHole_mem hne
      exact ⟨k', by simp [hk'], hrest⟩
    · obtain ⟨k', hk', hrest⟩ := findHole_mem hne
      exact ⟨k', by simp [hk'], hrest⟩
    · rw [not_or, not_not, not_lt] at h₁
      exact ⟨k, by simp, rfl, h₁⟩

end

end RawOS
