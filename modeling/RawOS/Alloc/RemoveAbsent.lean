import RawOS.Alloc.AvlRun

/-!
# Removing a hole that is not there

`remove_internal` sets the flag `subtree_height_changed` where it takes a node out, and nowhere
else on the way down. When the key is not found, the nodes on the path read what
`kalloc_avl_remove` left in the flag. If that is zero nothing happens
(`removeInternal_of_flag_zero`); otherwise they rebalance as if the empty subtree at the end of
the search had become lower, which gives the tree `AvlTree.fade` (`removeInternal_fade`). A node
without children at the end of the search then stores the height 0.
-/

namespace RawOS

namespace AvlTree

variable {α β : Type}

/-- The tree and the flag after a search for the key `k`, with the flag set at its end. -/
def fade [LinearOrder α] (k : α) : AvlTree β α → AvlTree β α × Bool
  | nil => (nil, true)
  | node b h x l r =>
    if x < k then shrinkRight b h x l (fade k r) else shrinkLeft b h x (fade k l) r

/-- The search for `k` ends at a node without children. -/
def EndsAtLeaf [LinearOrder α] (k : α) : AvlTree β α → Prop
  | nil => False
  | node _ _ x l r => l = nil ∧ r = nil ∨ if x < k then EndsAtLeaf k r else EndsAtLeaf k l

/-- Some node stores the height 0. -/
def Flat : AvlTree β α → Prop
  | nil => False
  | node _ h _ l r => h = 0 ∨ Flat l ∨ Flat r

section

variable {b : β} {h : ℤ} {k x : α} {l r t : AvlTree β α} {p : AvlTree β α × Bool} {n : ℕ}

/-! ## The heights that are seen -/

theorem bounded_node (h₀ : 0 ≤ h) (h₁ : h ≤ l.labels.length + r.labels.length + 1) :
    (node b h k l r).Bounded where
  nonneg := h₀
  le := by
    rw [labels_node, List.length_append, List.length_cons]
    exact h₁.trans (by push_cast; omega)

/-- What the flag reads off a tree that was rotated: it leans to the side `z`, or it is lower. -/
theorem lowered_of_balanceFactor {z : ℤ} (ht : t.Bounded)
    (h₁ : t.balanceFactor = z → t.ht = n) (h₂ : t.balanceFactor ≠ z → t.ht + 1 = n) :
    Lowered n (t, decide (t.balanceFactor ≠ z)) := by
  refine ⟨ht, ?_⟩
  by_cases hz : t.balanceFactor = z
  · simpa [hz] using h₁ hz
  · simpa [hz] using h₂ hz

theorem rotateRight_lowered (hl : l.Balanced) (hr : r.Bounded) (hlr : (l.height : ℤ) = r.ht + 2)
    (hb : l.balanceFactor ≠ 1) :
    Lowered (l.height + 1) ((node b h k l r).rotateRight,
      decide ((node b h k l r).rotateRight.balanceFactor ≠ 1)) := by
  have hr₀ := hr.nonneg
  rcases l with _ | ⟨b', h', k', l', r'⟩
  · rw [height_nil] at hlr
    omega
  obtain ⟨-, h₁, h₂, hl', hr'⟩ := hl
  rw [balanceFactor_node, hl'.ht_eq, hr'.ht_eq] at hb
  rw [height_node] at hlr ⊢
  rw [rotateRight_node]
  apply lowered_of_balanceFactor (bounded_mk hl'.bounded (bounded_mk hr'.bounded hr))
  all_goals
    simp only [mk, ht_node, balanceFactor_node, hl'.ht_eq, hr'.ht_eq]
    omega

theorem doubleRotateRight_lowered (hl : l.Balanced) (hr : r.Bounded)
    (hlr : (l.height : ℤ) = r.ht + 2) (hb : l.balanceFactor = 1) :
    Lowered (l.height + 1) ((node b h k l r).doubleRotateRight,
      decide ((node b h k l r).doubleRotateRight.balanceFactor ≠ 1)) := by
  have hr₀ := hr.nonneg
  rcases l with _ | ⟨b', h', k', l', r'⟩
  · rw [height_nil] at hlr
    omega
  obtain ⟨-, h₁, h₂, hl', hr'⟩ := hl
  rw [balanceFactor_node, hl'.ht_eq, hr'.ht_eq] at hb
  rcases r' with _ | ⟨b'', h'', k'', l'', r''⟩
  · rw [height_nil] at hb
    omega
  obtain ⟨-, h₃, h₄, hl'', hr''⟩ := hr'
  rw [height_node] at h₁ h₂ hb
  rw [height_node, height_node] at hlr ⊢
  rw [doubleRotateRight_node]
  apply lowered_of_balanceFactor
    (bounded_mk (bounded_mk hl'.bounded hl''.bounded) (bounded_mk hr''.bounded hr))
  all_goals
    simp only [mk, ht_node, balanceFactor_node, hl'.ht_eq, hl''.ht_eq, hr''.ht_eq]
    omega

theorem shrinkRight_lowered (hl : l.Balanced) (hp : Lowered n p)
    (hh : h = (max l.height n + 1 : ℕ)) (h₁ : l.height ≤ n + 1) (h₂ : n ≤ l.height + 1) :
    Lowered (max l.height n + 1) (shrinkRight b h k l p) := by
  obtain ⟨hr, hn⟩ := hp
  obtain ⟨hr₀, hr₁⟩ := id hr
  have hlen := l.height_le_length_labels
  unfold shrinkRight
  rw [hl.ht_eq]
  split_ifs with hc h0 h1 hb
  · rw [hc, Bool.toNat_false] at hn
    refine ⟨bounded_node (by omega) (by omega), ?_⟩
    rw [ht_node, hh, Bool.toNat_false]
    omega
  all_goals
    rw [Bool.not_eq_false] at hc
    rw [hc, Bool.toNat_true] at hn
  · refine ⟨bounded_node (by omega) (by omega), ?_⟩
    rw [ht_node, hh, Bool.toNat_true]
    omega
  · refine ⟨bounded_node (by omega) (by omega), ?_⟩
    rw [ht_node, hh, Bool.toNat_false]
    omega
  · have := doubleRotateRight_lowered (b := b) (h := h) (k := k) hl hr (by omega) hb
    rwa [show max l.height n = l.height by omega]
  · have := rotateRight_lowered (b := b) (h := h) (k := k) hl hr (by omega) hb
    rwa [show max l.height n = l.height by omega]

theorem rotateLeft_lowered (hl : l.Bounded) (hr : r.Balanced) (hlr : (r.height : ℤ) = l.ht + 2)
    (hb : r.balanceFactor ≠ -1) :
    Lowered (r.height + 1) ((node b h k l r).rotateLeft,
      decide ((node b h k l r).rotateLeft.balanceFactor ≠ -1)) := by
  have hl₀ := hl.nonneg
  rcases r with _ | ⟨b', h', k', l', r'⟩
  · rw [height_nil] at hlr
    omega
  obtain ⟨-, h₁, h₂, hl', hr'⟩ := hr
  rw [balanceFactor_node, hl'.ht_eq, hr'.ht_eq] at hb
  rw [height_node] at hlr ⊢
  rw [rotateLeft_node]
  apply lowered_of_balanceFactor (bounded_mk (bounded_mk hl hl'.bounded) hr'.bounded)
  all_goals
    simp only [mk, ht_node, balanceFactor_node, hl'.ht_eq, hr'.ht_eq]
    omega

theorem doubleRotateLeft_lowered (hl : l.Bounded) (hr : r.Balanced)
    (hlr : (r.height : ℤ) = l.ht + 2) (hb : r.balanceFactor = -1) :
    Lowered (r.height + 1) ((node b h k l r).doubleRotateLeft,
      decide ((node b h k l r).doubleRotateLeft.balanceFactor ≠ -1)) := by
  have hl₀ := hl.nonneg
  rcases r with _ | ⟨b', h', k', l', r'⟩
  · rw [height_nil] at hlr
    omega
  obtain ⟨-, h₁, h₂, hl', hr'⟩ := hr
  rw [balanceFactor_node, hl'.ht_eq, hr'.ht_eq] at hb
  rcases l' with _ | ⟨b'', h'', k'', l'', r''⟩
  · rw [height_nil] at hb
    omega
  obtain ⟨-, h₃, h₄, hl'', hr''⟩ := hl'
  rw [height_node] at h₁ h₂ hb
  rw [height_node, height_node] at hlr ⊢
  rw [doubleRotateLeft_node]
  apply lowered_of_balanceFactor
    (bounded_mk (bounded_mk hl hl''.bounded) (bounded_mk hr''.bounded hr'.bounded))
  all_goals
    simp only [mk, ht_node, balanceFactor_node, hr'.ht_eq, hl''.ht_eq, hr''.ht_eq]
    omega

theorem shrinkLeft_lowered (hp : Lowered n p) (hr : r.Balanced)
    (hh : h = (max n r.height + 1 : ℕ)) (h₁ : n ≤ r.height + 1) (h₂ : r.height ≤ n + 1) :
    Lowered (max n r.height + 1) (shrinkLeft b h k p r) := by
  obtain ⟨hl, hn⟩ := hp
  obtain ⟨hl₀, hl₁⟩ := id hl
  have hlen := r.height_le_length_labels
  unfold shrinkLeft
  rw [hr.ht_eq]
  split_ifs with hc h0 h1 hb
  · rw [hc, Bool.toNat_false] at hn
    refine ⟨bounded_node (by omega) (by omega), ?_⟩
    rw [ht_node, hh, Bool.toNat_false]
    omega
  all_goals
    rw [Bool.not_eq_false] at hc
    rw [hc, Bool.toNat_true] at hn
  · refine ⟨bounded_node (by omega) (by omega), ?_⟩
    rw [ht_node, hh, Bool.toNat_true]
    omega
  · refine ⟨bounded_node (by omega) (by omega), ?_⟩
    rw [ht_node, hh, Bool.toNat_false]
    omega
  · have := doubleRotateLeft_lowered (b := b) (h := h) (k := k) hl hr (by omega) hb
    rwa [show max n r.height = r.height by omega]
  · have := rotateLeft_lowered (b := b) (h := h) (k := k) hl hr (by omega) hb
    rwa [show max n r.height = r.height by omega]

/-! ## The end of the search -/

/-- Below the last node of the search there is nothing: a node with one child is left alone, one
without children becomes lower. -/
theorem shrinkRight_nil (hl : l.Balanced) (hle : l.height ≤ 1) :
    shrinkRight b h k l (nil, true) = (node b (h - 1 + l.height) k l nil, decide (l.height = 0)) := by
  unfold shrinkRight
  rw [if_neg Bool.noConfusion, ht_nil, hl.ht_eq]
  obtain h0 | h1 : l.height = 0 ∨ l.height = 1 := by omega
  · simp [h0]
  · simp [h1]

theorem shrinkLeft_nil (hr : r.Balanced) (hle : r.height ≤ 1) :
    shrinkLeft b h k (nil, true) r = (node b (h - 1 + r.height) k nil r, decide (r.height = 0)) := by
  unfold shrinkLeft
  rw [if_neg Bool.noConfusion, ht_nil, hr.ht_eq]
  obtain h0 | h1 : r.height = 0 ∨ r.height = 1 := by omega
  · simp [h0]
  · simp [h1]

theorem height_eq_zero : t.height = 0 ↔ t = nil := by
  cases t with
  | nil => simp
  | node => simp

theorem Balanced.not_flat : ∀ {t : AvlTree β α}, t.Balanced → ¬ t.Flat
  | nil, _ => id
  | node b h x l r, ⟨hh, _, _, hl, hr⟩ => by
    rintro (h0 | hf | hf)
    · omega
    · exact hl.not_flat hf
    · exact hr.not_flat hf

/-- The rotations move the returned subtree as a whole. -/
theorem Flat.shrinkRight (hp : p.1.Flat) : (shrinkRight b h k l p).1.Flat := by
  unfold AvlTree.shrinkRight
  split_ifs
  · exact .inr (.inr hp)
  · exact .inr (.inr hp)
  · exact .inr (.inr hp)
  · rcases l with _ | ⟨b', h', k', l', _ | ⟨b'', h'', k'', l'', r''⟩⟩
    · exact .inr (.inr hp)
    · exact .inr (.inr hp)
    · exact .inr (.inr (.inr (.inr hp)))
  · rcases l with _ | ⟨b', h', k', l', r'⟩
    · exact .inr (.inr hp)
    · exact .inr (.inr (.inr (.inr hp)))

theorem Flat.shrinkLeft (hp : p.1.Flat) : (shrinkLeft b h k p r).1.Flat := by
  unfold AvlTree.shrinkLeft
  split_ifs
  · exact .inr (.inl hp)
  · exact .inr (.inl hp)
  · exact .inr (.inl hp)
  · rcases r with _ | ⟨b', h', k', _ | ⟨b'', h'', k'', l'', r''⟩, r'⟩
    · exact .inr (.inl hp)
    · exact .inr (.inl hp)
    · exact .inr (.inl (.inr (.inl hp)))
  · rcases r with _ | ⟨b', h', k', l', r'⟩
    · exact .inr (.inl hp)
    · exact .inr (.inl (.inr (.inl hp)))

variable [LinearOrder α]

/-- The nodes above see a tree that has become lower, the empty one at the end too. -/
theorem fade_lowered : ∀ {t : AvlTree β α}, t.Balanced → Lowered (max 1 t.height) (t.fade k)
  | nil, _ => ⟨⟨le_rfl, le_rfl⟩, rfl⟩
  | node b h x l r, ⟨hh, h₁, h₂, hl, hr⟩ => by
    have ihl := fade_lowered hl
    have ihr := fade_lowered hr
    have hlen := l.height_le_length_labels
    have hlen' := r.height_le_length_labels
    rw [height_node, Nat.max_eq_right (by omega)]
    unfold fade
    split_ifs
    · rcases eq_or_ne r nil with rfl | hne
      · rw [height_nil] at h₁
        rw [fade, shrinkRight_nil hl h₁]
        refine ⟨bounded_node (by omega) (by omega), ?_⟩
        obtain h0 | h1 : l.height = 0 ∨ l.height = 1 := by omega
        · simp [hh, h0]
        · simp [hh, h1]
      · have := mt height_eq_zero.mp hne
        rw [Nat.max_eq_right (by omega)] at ihr
        exact shrinkRight_lowered hl ihr hh h₁ h₂
    · rcases eq_or_ne l nil with rfl | hne
      · rw [height_nil] at h₂
        rw [fade, shrinkLeft_nil hr h₂]
        refine ⟨bounded_node (by omega) (by omega), ?_⟩
        obtain h0 | h1 : r.height = 0 ∨ r.height = 1 := by omega
        · simp [hh, h0]
        · simp [hh, h1]
      · have := mt height_eq_zero.mp hne
        rw [Nat.max_eq_right (by omega)] at ihl
        exact shrinkLeft_lowered ihl hr hh h₁ h₂

@[simp] theorem labels_fade : ∀ t : AvlTree β α, (t.fade k).1.labels = t.labels
  | nil => rfl
  | node b h x l r => by
    unfold fade
    split_ifs
    · rw [labels_shrinkRight, labels_fade r, labels_node]
    · rw [labels_shrinkLeft, labels_fade l, labels_node]

/-- Where the last node has a child, the flag is reset there. -/
theorem fade_of_not_endsAtLeaf :
    ∀ {t : AvlTree β α}, t.Balanced → t ≠ nil → ¬ t.EndsAtLeaf k → t.fade k = (t, false)
  | nil, _, hne, _ => absurd rfl hne
  | node b h x l r, ⟨_, h₁, h₂, hl, hr⟩, _, hend => by
    obtain ⟨hleaf, hend⟩ := not_or.mp hend
    unfold fade
    split_ifs at hend ⊢
    · rcases eq_or_ne r nil with rfl | hne
      · have : l.height ≠ 0 := fun h0 => hleaf ⟨height_eq_zero.mp h0, rfl⟩
        rw [height_nil] at h₁
        have h1 : l.height = 1 := by omega
        rw [fade, shrinkRight_nil hl h₁, h1]
        simp
      · rw [fade_of_not_endsAtLeaf hr hne hend]
        exact if_pos rfl
    · rcases eq_or_ne l nil with rfl | hne
      · have : r.height ≠ 0 := fun h0 => hleaf ⟨rfl, height_eq_zero.mp h0⟩
        rw [height_nil] at h₂
        have h1 : r.height = 1 := by omega
        rw [fade, shrinkLeft_nil hr h₂, h1]
        simp
      · rw [fade_of_not_endsAtLeaf hl hne hend]
        exact if_pos rfl

theorem EndsAtLeaf.ne_nil (ht : t.EndsAtLeaf k) : t ≠ nil := by
  rintro rfl
  exact ht

/-- A node without children at the end of the search is left with the height 0. -/
theorem EndsAtLeaf.flat : ∀ {t : AvlTree β α}, t.Balanced → t.EndsAtLeaf k → (t.fade k).1.Flat
  | node b h x l r, ⟨hh, _, _, hl, hr⟩, hend => by
    unfold fade
    rcases hend with ⟨rfl, rfl⟩ | hend
    · have h1 : h = 1 := hh
      split_ifs
      · rw [fade, shrinkRight_nil hl (Nat.zero_le 1)]
        exact .inl (by simp [h1])
      · rw [fade, shrinkLeft_nil hr (Nat.zero_le 1)]
        exact .inl (by simp [h1])
    · split_ifs at hend ⊢
      · exact (hend.flat hr).shrinkRight
      · exact (hend.flat hl).shrinkLeft

end

end AvlTree

open AvlTree (IsAvl Lowered)

section

variable {base : ℕ} {fl : List ℕ} {k : Hole} {s : AvlState} {u : ℤ}

/-! ## The run -/

/-- Storing the word that is there changes nothing. -/
theorem store32_load32 (m : Mem) (a : ℕ) : store32 m a (load32 m a) = m := by
  have h₀ := (m a).toNat_lt
  have h₁ := (m (a + 1)).toNat_lt
  have h₂ := (m (a + 2)).toNat_lt
  have h₃ := (m (a + 3)).toNat_lt
  have key : ∀ {y w : ℕ}, w % 256 = (m y).toNat → UInt8.ofNat w = m y := fun hw =>
    UInt8.toNat_inj.mp (by rw [UInt8.toNat_ofNat']; exact hw)
  funext x
  unfold store32 load32
  split_ifs with hx hx hx hx
  · rw [hx]
    exact key (by omega)
  · rw [hx]
    exact key (by omega)
  · rw [hx]
    exact key (by omega)
  · rw [hx]
    exact key (by omega)
  · rfl

theorem removeInternal_of_flag_zero {t : HoleTree} :
    ∀ {fuel : ℕ} {s : AvlState}, t.height < fuel → Rep s.mem t → k ∉ t.keys →
      s.subtreeHeightChanged = 0 →
      removeInternal fuel s t.ptr k.size k.addr = .ok (t.ptr, { s with status := 1 }) := by
  induction t with
  | nil =>
    intro fuel s hfuel _ _ _
    obtain ⟨fuel, rfl⟩ : ∃ n, fuel = n + 1 := ⟨fuel - 1, by simp at hfuel; omega⟩
    exact if_pos rfl
  | node p h x l r ihl ihr =>
    intro fuel s hfuel ⟨hp, hn, hrl, hrr⟩ hk hflag
    obtain ⟨fuel, rfl⟩ : ∃ n, fuel = n + 1 := ⟨fuel - 1, by omega⟩
    rw [AvlTree.height_node] at hfuel
    rw [AvlTree.keys_node, List.mem_append, List.mem_cons] at hk
    push Not at hk
    obtain ⟨hsize, haddr, hleft, hright⟩ := readNode_fields hn
    have hsetl : setLeft s.mem p l.ptr = s.mem := hleft ▸ store32_load32 s.mem p
    have hsetr : setRight s.mem p r.ptr = s.mem := hright ▸ store32_load32 s.mem (p + 4)
    unfold removeInternal
    dsimp only
    rw [AvlTree.ptr_node, if_neg hp, hsize, haddr, hleft, hright,
      if_neg (mt compareHole_eq_zero'.mp hk.2.1)]
    split_ifs
    · rw [ihr (by omega) hrr hk.2.2 hflag, ok_bind]
      dsimp only
      rw [hsetr]
      unfold removeFixRight
      rw [if_neg (not_not.mpr hflag)]
      rfl
    · rw [ihl (by omega) hrl hk.1 hflag, ok_bind]
      dsimp only
      rw [hsetl]
      unfold removeFixLeft
      rw [if_neg (not_not.mpr hflag)]
      rfl

/-- Which value a set flag has does not matter. -/
theorem removeFixRight_flag (s : AvlState) (p : ℕ) (hu : u ≠ 0) :
    removeFixRight { s with subtreeHeightChanged := u } p =
      removeFixRight { s with subtreeHeightChanged := 1 } p := by
  unfold removeFixRight
  dsimp only
  rw [if_pos hu, if_pos Int.one_ne_zero]
  generalize getBalanceFactor s.mem p = bf
  by_cases hbf : bf ≥ -2 ∧ bf ≤ 0
  · rw [assert_of_true hbf, ok_bind, ok_bind]
    obtain rfl | rfl | rfl : bf = 0 ∨ bf = -1 ∨ bf = -2 := by omega
    · rfl
    · rfl
    · rfl
  · rw [assert, if_neg hbf]
    rfl

theorem removeFixLeft_flag (s : AvlState) (p : ℕ) (hu : u ≠ 0) :
    removeFixLeft { s with subtreeHeightChanged := u } p =
      removeFixLeft { s with subtreeHeightChanged := 1 } p := by
  unfold removeFixLeft
  dsimp only
  rw [if_pos hu, if_pos Int.one_ne_zero]
  generalize getBalanceFactor s.mem p = bf
  by_cases hbf : bf ≥ 0 ∧ bf ≤ 2
  · rw [assert_of_true hbf, ok_bind, ok_bind]
    obtain rfl | rfl | rfl : bf = 0 ∨ bf = 1 ∨ bf = 2 := by omega
    · rfl
    · rfl
    · rfl
  · rw [assert, if_neg hbf]
    rfl

/-- A set flag at the end of the search: the tree is the one of `AvlTree.fade`, and no assertion
fails. -/
theorem removeInternal_fade {t : HoleTree} (ht : t.Balanced) (hk : k ∉ t.keys) :
    ∀ {fuel : ℕ} {s : AvlState}, t.height < fuel → Pool base (t.labels ++ fl) → Rep s.mem t →
      s.free = fl.headD 0 → FreeList s.mem 0 fl → s.subtreeHeightChanged = 1 →
      ∃ x, removeInternal fuel s t.ptr k.size k.addr = .ok x ∧
        Yields { s with status := 1 } (t.labels ++ fl) fl (t.fade k) x := by
  induction t with
  | nil =>
    intro fuel s hfuel _ _ hs hfl hflag
    obtain ⟨fuel, rfl⟩ : ∃ n, fuel = n + 1 := ⟨fuel - 1, by simp at hfuel; omega⟩
    exact ⟨_, if_pos rfl, rfl, trivial, hflag, hs, hfl, rfl, List.Perm.refl _, Frame.refl _ _⟩
  | node p h x l r ihl ihr =>
    obtain ⟨hh, h₁, h₂, hl, hr⟩ := ht
    rw [AvlTree.keys_node, List.mem_append, List.mem_cons] at hk
    push Not at hk
    intro fuel s hfuel hP hR hs hfl hflag
    obtain ⟨fuel, rfl⟩ : ∃ n, fuel = n + 1 := ⟨fuel - 1, by omega⟩
    obtain ⟨hp, hn, hrl, hrr⟩ := id hR
    rw [AvlTree.height_node] at hfuel
    obtain ⟨hsize, haddr, hleft, hright⟩ := readNode_fields hn
    unfold removeInternal AvlTree.fade
    dsimp only
    rw [AvlTree.ptr_node, if_neg hp, hsize, haddr, hleft, hright,
      if_neg (mt compareHole_eq_zero'.mp hk.2.1)]
    by_cases hlt : x < k
    · rw [if_pos (compareHole_pos.mpr hlt), if_pos hlt]
      obtain ⟨y, hrun, hy⟩ := @ihr hr hk.2.2 fuel s (by omega) (hP.sublist (by simp)) hrr hs
        hfl hflag
      have hperm : (l.labels ++ p :: (r.labels ++ fl)).Perm
          ((AvlTree.node p h x l r).labels ++ fl) := by simp
      obtain ⟨z, hfix, hz⟩ := hy.right (s := { s with status := 1 }) removeFixRight
        (hP.perm hperm.symm) hR AvlTree.labels_shrinkRight fun s' hflag hrep hpool =>
          removeFixRight_rep hpool hrep hflag hl (AvlTree.fade_lowered hr) (by omega) (by omega)
            (by omega) (by omega)
      rw [hrun, ok_bind]
      exact ⟨z, hfix, hz.of_perm hperm⟩
    · rw [if_neg (mt compareHole_pos.mp hlt), if_neg hlt]
      obtain ⟨y, hrun, hy⟩ := @ihl hl hk.1 fuel s (by omega) (hP.sublist (by simp)) hrl hs
        hfl hflag
      have hperm : ((l.labels ++ fl) ++ p :: r.labels).Perm
          ((AvlTree.node p h x l r).labels ++ fl) := by
        rw [AvlTree.labels_node, List.append_assoc, List.append_assoc]
        exact List.perm_append_comm.append_left _
      obtain ⟨z, hfix, hz⟩ := hy.left (s := { s with status := 1 }) removeFixLeft
        (hP.perm hperm.symm) hR AvlTree.labels_shrinkLeft fun s' hflag hrep hpool =>
          removeFixLeft_rep hpool hrep hflag (AvlTree.fade_lowered hl) hr (by omega) (by omega)
            (by omega) (by omega)
      rw [hrun, ok_bind]
      exact ⟨z, hfix, hz.of_perm hperm⟩

/-- Any set flag is the flag 1. -/
theorem removeInternal_flag {t : HoleTree} (hne : t ≠ .nil) (hk : k ∉ t.keys) (hu : u ≠ 0) :
    ∀ {fuel : ℕ} {s : AvlState}, t.height < fuel → Rep s.mem t →
      removeInternal fuel { s with subtreeHeightChanged := u } t.ptr k.size k.addr =
        removeInternal fuel { s with subtreeHeightChanged := 1 } t.ptr k.size k.addr := by
  induction t with
  | nil => exact absurd rfl hne
  | node p h x l r ihl ihr =>
    rw [AvlTree.keys_node, List.mem_append, List.mem_cons] at hk
    push Not at hk
    intro fuel s hfuel ⟨hp, hn, hrl, hrr⟩
    obtain ⟨fuel, rfl⟩ : ∃ n, fuel = n + 1 := ⟨fuel - 1, by omega⟩
    rw [AvlTree.height_node] at hfuel
    obtain ⟨fuel, rfl⟩ : ∃ n, fuel = n + 1 := ⟨fuel - 1, by omega⟩
    obtain ⟨hsize, haddr, hleft, hright⟩ := readNode_fields hn
    have hc : compareHole k.size k.addr x.size x.addr ≠ 0 := mt compareHole_eq_zero'.mp hk.2.1
    rw [AvlTree.ptr_node, removeInternal, removeInternal]
    simp only [if_neg hp, hsize, haddr, hleft, hright, if_neg hc]
    split_ifs
    · rcases eq_or_ne r .nil with rfl | hr
      · exact removeFixRight_flag { s with mem := setRight s.mem p 0, status := 1 } p hu
      · rw [ihr hr hk.2.2 (by omega) hrr]
    · rcases eq_or_ne l .nil with rfl | hl
      · exact removeFixLeft_flag { s with mem := setLeft s.mem p 0, status := 1 } p hu
      · rw [ihl hl hk.1 (by omega) hrl]

end

/-! ## `kalloc_avl_remove` -/

section

variable {data n : ℕ} {t : HoleTree} {fl : List ℕ} {avl : KallocAVL} {m : Mem} {k : Hole}

/-- A tree is read back from memory in one way. -/
theorem Rep.unique : ∀ {t t' : HoleTree}, Rep m t → Rep m t' → t.ptr = t'.ptr → t = t'
  | .nil, .nil, _, _, _ => rfl
  | .nil, .node _ _ _ _ _, _, h', hptr => absurd hptr.symm h'.1
  | .node _ _ _ _ _, .nil, h, _, hptr => absurd hptr h.1
  | .node p h k l r, .node p' h' k' l' r', ⟨_, hn, hl, hr⟩, ⟨_, hn', hl', hr'⟩, hptr => by
    obtain rfl : p = p' := hptr
    obtain ⟨hlp, hrp, rfl, hks, hka⟩ := AvlNode.mk.inj (hn.symm.trans hn')
    rw [hl.unique hl' hlp, hr.unique hr' hrp, show k = k' from (hole_inj (s := k.size)).mpr ⟨hks, hka⟩]

/-- With a set flag the call returns 1, and the tree that is left is the one of `AvlTree.fade`. -/
theorem AvlInv.remove_fade (hI : AvlInv data n t fl avl m) (hk : k ∉ t.keys) {uninit : ℤ}
    (hu : uninit ≠ 0) :
    ∃ m', kallocAvlRemove uninit m avl k.size k.addr =
        .ok (1, { avl with root := (t.fade k).1.ptr }, m') ∧
      Rep m' (t.fade k).1 ∧ FreeList m' 0 fl := by
  rcases eq_or_ne t .nil with rfl | hne
  · refine ⟨m, ?_, trivial, hI.freeList⟩
    unfold kallocAvlRemove
    rw [hI.root]
    rfl
  · obtain ⟨x, hrun, hy⟩ := removeInternal_fade (s := ⟨m, avl.free, 1, 0⟩) hI.isAvl.balanced hk
      hI.height_lt hI.pool hI.rep hI.free hI.freeList rfl
    refine ⟨x.2.mem, ?_, hy.rep, hy.freeList⟩
    unfold kallocAvlRemove
    dsimp only
    rw [hI.root, removeInternal_flag (s := ⟨m, avl.free, uninit, 0⟩) hne hk hu hI.height_lt hI.rep,
      hrun, ok_bind, hy.status, hy.free, hy.root, hI.free]
    rfl

/-- What a removal of a key that is not there is to do: report it, fail no assertion, and leave
the tree and the free list. -/
def ReportsAbsent (t : HoleTree) (fl : List ℕ) (avl : KallocAVL)
    (result : Except Panic (ℤ × KallocAVL × Mem)) : Prop :=
  ∃ m', result = .ok (1, avl, m') ∧ Rep m' t ∧ FreeList m' 0 fl

/-- It does so exactly if the uninitialised flag is zero or the search ends at a node that has a
child, where the flag is reset before it does harm. -/
theorem kallocAvlRemove_absent_iff (hI : AvlInv data n t fl avl m) (hk : k ∉ t.keys)
    (uninit : ℤ) :
    ReportsAbsent t fl avl (kallocAvlRemove uninit m avl k.size k.addr) ↔
      uninit = 0 ∨ ¬ t.EndsAtLeaf k := by
  constructor
  · rintro ⟨m', hrun, hrep, -⟩
    refine or_iff_not_imp_left.mpr fun hu hend => ?_
    obtain ⟨m'', hrun', hrep', -⟩ := hI.remove_fade hk hu
    rw [hrun'] at hrun
    injection hrun with hrun
    injection hrun with _ hrun
    injection hrun with havl hm
    have hptr : (t.fade k).1.ptr = t.ptr := (congrArg KallocAVL.root havl).trans hI.root
    have heq := Rep.unique (hm ▸ hrep') hrep hptr
    exact hI.isAvl.balanced.not_flat (heq ▸ hend.flat hI.isAvl.balanced)
  · intro h
    by_cases hu : uninit = 0
    · refine ⟨m, ?_, hI.rep, hI.freeList⟩
      unfold kallocAvlRemove
      dsimp only
      rw [hI.root, removeInternal_of_flag_zero (s := ⟨m, avl.free, uninit, 0⟩) hI.height_lt hI.rep
        hk hu, ok_bind, ← hI.root]
      rfl
    · have hend := h.resolve_left hu
      have hfade : (t.fade k).1 = t := by
        rcases eq_or_ne t .nil with rfl | hne
        · rfl
        · rw [AvlTree.fade_of_not_endsAtLeaf hI.isAvl.balanced hne hend]
      obtain ⟨m', hrun, hrep, hfl⟩ := hI.remove_fade hk hu
      rw [hfade, ← hI.root] at hrun
      exact ⟨m', hrun, hfade ▸ hrep, hfl⟩

/-! ### One hole -/

/-- A pool of one node at 16, which holds a hole of 8 bytes at 64. -/
def oneHole : Mem := fun x => if x = 24 then 1 else if x = 28 then 8 else if x = 32 then 64 else 0

/-- The tree of that hole. -/
def oneHoleTree : HoleTree := .node 16 1 (hole 8 64) .nil .nil

theorem oneHole_inv : AvlInv 16 1 oneHoleTree [] { free := 0, root := 16 } oneHole where
  root := rfl
  free := rfl
  rep := ⟨by decide, rfl, trivial, trivial⟩
  freeList := trivial
  isAvl := ⟨⟨by simp, by simp, trivial, trivial⟩, rfl, by simp, by simp, trivial, trivial⟩
  slots := List.Perm.refl _
  data_ne_zero := by decide
  fits := by decide

theorem kallocAvlRemove_absent_oneHole :
    ReportsAbsent oneHoleTree [] { free := 0, root := 16 }
        (kallocAvlRemove 0 oneHole { free := 0, root := 16 } 4 64) ↔
      (0 : ℤ) = 0 ∨ ¬ oneHoleTree.EndsAtLeaf (hole 4 64) :=
  kallocAvlRemove_absent_iff oneHole_inv (k := hole 4 64) (by decide) 0

/-- The search for the absent hole ends at the node of the only hole, which is left with the
height 0. -/
theorem not_reportsAbsent_oneHole :
    ¬ ∀ {data n : ℕ} {t : HoleTree} {fl : List ℕ} {avl : KallocAVL} {m : Mem} {k : Hole}
      (uninit : ℤ), AvlInv data n t fl avl m → k ∉ t.keys →
        ReportsAbsent t fl avl (kallocAvlRemove uninit m avl k.size k.addr) := by
  intro h
  have hk : hole 4 64 ∉ oneHoleTree.keys := by decide
  obtain ⟨m', hrun, hrep, -⟩ := h 1 oneHole_inv hk
  obtain ⟨m'', hrun', hrep', -⟩ := oneHole_inv.remove_fade hk (by decide : (1 : ℤ) ≠ 0)
  rw [hrun'] at hrun
  injection hrun with hrun
  injection hrun with _ hrun
  injection hrun with _ hm
  have heq : (oneHoleTree.fade (hole 4 64)).1 = oneHoleTree := Rep.unique (hm ▸ hrep') hrep rfl
  exact absurd heq (by decide)

end

end RawOS
