import RawOS.Alloc.HeapAlloc

/-!
# Which hole the search finds

A hole that is too short is passed to the right, where all are longer. A hole whose address is
badly aligned is passed to the right too, and with it goes everything on its left, which may be
shorter and well aligned. `kallocAvlFindHole_smallest_iff`: the search finds the smallest hole
that holds the request if and only if none of the holes it leaves behind in this way holds it.
-/

namespace RawOS

/-- The first address from `addr` on that a request with that alignment can have. -/
def alignUp (addr alignment : ℕ) : ℕ :=
  if alignment = 0 then addr else (addr + alignment - 1) / alignment * alignment

/-- The hole holds a request, from its first aligned address on. -/
def Hole.Holds (k : Hole) (size alignment : ℕ) : Prop :=
  alignUp k.addr alignment + size ≤ k.addr + k.size

instance (k : Hole) (size alignment : ℕ) : Decidable (k.Holds size alignment) :=
  inferInstanceAs (Decidable (_ ≤ _))

section

variable {k : Hole} {size alignment : ℕ}

theorem alignUp_eq {addr : ℕ} (h : 0 < alignment) : alignUp addr alignment =
    if addr % alignment = 0 then addr else addr - addr % alignment + alignment := by
  unfold alignUp
  rw [if_neg h.ne']
  obtain ⟨q, hq⟩ : ∃ q, q = addr / alignment := ⟨_, rfl⟩
  obtain ⟨r, hr⟩ : ∃ r, r = addr % alignment := ⟨_, rfl⟩
  have haddr : addr = alignment * q + r := by
    rw [hq, hr]
    exact (Nat.div_add_mod addr alignment).symm
  have hlt : r < alignment := hr ▸ Nat.mod_lt _ h
  rw [← hr]
  split_ifs with h0
  · have hdiv : (addr + alignment - 1) / alignment = q := by
      rw [haddr, h0, Nat.add_zero, Nat.add_sub_assoc h, Nat.mul_add_div h,
        Nat.div_eq_of_lt (Nat.sub_lt h Nat.one_pos), Nat.add_zero]
    rw [hdiv, haddr, h0, Nat.add_zero, Nat.mul_comm]
  · have hdiv : (addr + alignment - 1) / alignment = q + 1 := by
      have hsum : addr + alignment - 1 = alignment * (q + 1) + (r - 1) := by
        rw [haddr, Nat.mul_succ]
        omega
      rw [hsum, Nat.mul_add_div h, Nat.div_eq_of_lt (by omega), Nat.add_zero]
    rw [hdiv, haddr, Nat.succ_mul, Nat.add_sub_cancel, Nat.mul_comm]

theorem le_alignUp (addr alignment : ℕ) : addr ≤ alignUp addr alignment := by
  rcases Nat.eq_zero_or_pos alignment with rfl | h
  · exact le_rfl
  · have hlt := Nat.mod_lt addr h
    have hle := Nat.mod_le addr alignment
    rw [alignUp_eq h]
    split_ifs <;> omega

theorem Hole.Holds.size_le (h : k.Holds size alignment) : size ≤ k.size := by
  have hle := le_alignUp k.addr alignment
  unfold Hole.Holds at h
  omega

/-- A hole that holds the request passes the test. -/
theorem Hole.Holds.fits (h : k.Holds size alignment) (hv : ValidAlignment alignment)
    (hs : k.size < 4294967296) (ha : k.addr < 4294967296) : k.fits size alignment := by
  unfold Hole.fits
  rcases hv with rfl | ⟨i, hi, rfl⟩
  · have hle := h.size_le
    have haddr : getAlignedAddress k.addr 0 = k.addr := rfl
    rw [haddr, u32Sub_of_le le_rfl ha, Nat.sub_self, Nat.add_zero, u32_of_lt (by omega)]
    exact hle
  · have hpos : 0 < 2 ^ i := Nat.two_pow_pos i
    have hle := Nat.mod_le k.addr (2 ^ i)
    have hlt := Nat.mod_lt k.addr hpos
    unfold Hole.Holds at h
    rw [alignUp_eq hpos] at h
    rw [getAlignedAddress_eq ha hi]
    generalize 2 ^ i = A at h hle hlt ⊢
    generalize k.addr % A = r at h hle hlt ⊢
    split_ifs at h ⊢ with h0
    · rw [u32Sub_of_le le_rfl ha, Nat.sub_self, Nat.add_zero, u32_of_lt (by omega)]
      omega
    · -- the next multiple may be `2 ^ 32`
      have hpad : u32Sub (u32 (k.addr - r + A)) k.addr = A - r := by
        unfold u32Sub u32
        omega
      rw [hpad, u32_of_lt (by omega)]
      omega

end

/-! ## The search -/

/-- The holes on the left of a long enough hole that is badly aligned. -/
def AvlTree.discarded (size alignment : ℕ) : HoleTree → List Hole
  | .nil => []
  | .node _ _ k l r =>
    if size > k.size then r.discarded size alignment
    else if ¬ k.fits size alignment then l.keys ++ r.discarded size alignment
    else l.discarded size alignment

/-- The address `p` is that of the smallest hole that holds the request, or 0 if there is none. -/
structure SmallestHole (t : HoleTree) (size alignment p : ℕ) : Prop where
  none : p = 0 → ∀ h ∈ t.keys, ¬ h.Holds size alignment
  smallest : p ≠ 0 → ∃ k ∈ t.keys, k.addr = p ∧ ∀ h ∈ t.keys, h.Holds size alignment → k ≤ h

section

variable {t : HoleTree} {size alignment : ℕ} {k : Hole}

theorem AvlTree.discarded_subset : ∀ {t : HoleTree}, ∀ h ∈ t.discarded size alignment, h ∈ t.keys
  | .nil, _, hh => hh
  | .node _ _ k l r, h, hh => by
    unfold discarded at hh
    rw [keys_node, List.mem_append, List.mem_cons]
    split_ifs at hh with h₁ h₂
    · exact .inr (.inr (discarded_subset h hh))
    · exact .inl (discarded_subset h hh)
    · rcases List.mem_append.mp hh with hh | hh
      · exact .inl hh
      · exact .inr (.inr (discarded_subset h hh))

/-- A hole that is left behind is smaller than the one found. -/
theorem AvlTree.lt_of_discarded : ∀ {t : HoleTree}, t.Ordered → t.findHole size alignment ≠ 0 →
    ∃ k ∈ t.keys, k.addr = t.findHole size alignment ∧ ∀ h ∈ t.discarded size alignment, h < k
  | .nil, _, hne => absurd rfl hne
  | .node _ _ k l r, ⟨hl, hr, hol, hor⟩, hne => by
    unfold findHole at hne ⊢
    unfold discarded
    by_cases hsize : size > k.size
    · rw [if_pos (.inl hsize)] at hne ⊢
      rw [if_pos hsize]
      obtain ⟨k', hk', haddr, hlt⟩ := lt_of_discarded hor hne
      exact ⟨k', by simp [hk'], haddr, hlt⟩
    · by_cases hfits : k.fits size alignment
      · rw [if_neg (not_or.mpr ⟨hsize, not_not.mpr hfits⟩)] at hne ⊢
        rw [if_neg hsize, if_neg (not_not.mpr hfits)]
        by_cases hleft : l.findHole size alignment = 0
        · rw [if_neg (not_not.mpr hleft)]
          exact ⟨k, by simp, rfl, fun h hh => hl h (discarded_subset h hh)⟩
        · rw [if_pos hleft]
          obtain ⟨k', hk', haddr, hlt⟩ := lt_of_discarded hol hleft
          exact ⟨k', by simp [hk'], haddr, hlt⟩
      · rw [if_pos (.inr hfits)] at hne ⊢
        rw [if_neg hsize, if_pos hfits]
        obtain ⟨k', hk', haddr, hlt⟩ := lt_of_discarded hor hne
        refine ⟨k', by simp [hk'], haddr, fun h hh => ?_⟩
        rcases List.mem_append.mp hh with hh | hh
        · exact (hl h hh).trans (hr k' hk')
        · exact hlt h hh

/-- If nothing that holds the request is left behind, the smallest such hole is found. -/
theorem AvlTree.findHole_smallest : ∀ {t : HoleTree}, t.Ordered → ValidAlignment alignment →
    (∀ k ∈ t.keys, k.size < 4294967296 ∧ k.addr < 4294967296) → (∀ k ∈ t.keys, k.addr ≠ 0) →
    (∀ h ∈ t.discarded size alignment, ¬ h.Holds size alignment) →
    SmallestHole t size alignment (t.findHole size alignment)
  | .nil, _, _, _, _, _ => ⟨fun _ h hh => absurd hh List.not_mem_nil, fun hne => absurd rfl hne⟩
  | .node _ _ k l r, ⟨hl, hr, hol, hor⟩, hv, hlt, hne, hd => by
    simp only [keys_node, List.mem_append, List.mem_cons] at hlt hne
    unfold discarded at hd
    -- everything on the left is out of question
    have hright : (∀ h ∈ l.keys, ¬ h.Holds size alignment) → ¬ k.Holds size alignment →
        (∀ h ∈ r.discarded size alignment, ¬ h.Holds size alignment) →
        SmallestHole (.node ‹_› ‹_› k l r) size alignment (r.findHole size alignment) := by
      intro hleft hk hdr
      obtain ⟨hnone, hsmall⟩ := findHole_smallest hor hv (fun k' hk' => hlt k' (.inr (.inr hk')))
        (fun k' hk' => hne k' (.inr (.inr hk'))) hdr
      constructor
      · intro h0 h hh
        rw [keys_node, List.mem_append, List.mem_cons] at hh
        rcases hh with hh | rfl | hh
        · exact hleft h hh
        · exact hk
        · exact hnone h0 h hh
      · intro h0
        obtain ⟨k', hk', haddr, hmin⟩ := hsmall h0
        refine ⟨k', by simp [hk'], haddr, fun h hh hholds => ?_⟩
        rw [keys_node, List.mem_append, List.mem_cons] at hh
        rcases hh with hh | rfl | hh
        · exact absurd hholds (hleft h hh)
        · exact absurd hholds hk
        · exact hmin h hh hholds
    unfold findHole
    by_cases hsize : size > k.size
    · rw [if_pos hsize] at hd
      rw [if_pos (.inl hsize)]
      refine hright (fun h hh hholds => ?_) (fun hholds => ?_) hd
      · have hle : h.size ≤ k.size := by
          rcases hole_lt_hole.mp (hl h hh) with hlt' | ⟨heq, -⟩
          · exact hlt'.le
          · exact heq.le
        exact absurd hholds.size_le (by omega)
      · exact absurd hholds.size_le (by omega)
    · by_cases hfits : k.fits size alignment
      · rw [if_neg hsize, if_neg (not_not.mpr hfits)] at hd
        rw [if_neg (not_or.mpr ⟨hsize, not_not.mpr hfits⟩)]
        obtain ⟨hnone, hsmall⟩ := findHole_smallest hol hv (fun k' hk' => hlt k' (.inl hk'))
          (fun k' hk' => hne k' (.inl hk')) hd
        by_cases hleft : l.findHole size alignment = 0
        · rw [if_neg (not_not.mpr hleft)]
          refine ⟨fun h0 => absurd h0 (hne k (.inr (.inl rfl))), fun _ => ⟨k, by simp, rfl,
            fun h hh hholds => ?_⟩⟩
          rw [keys_node, List.mem_append, List.mem_cons] at hh
          rcases hh with hh | rfl | hh
          · exact absurd hholds (hnone hleft h hh)
          · exact le_rfl
          · exact (hr h hh).le
        · rw [if_pos hleft]
          refine ⟨fun h0 => absurd h0 hleft, fun _ => ?_⟩
          obtain ⟨k', hk', haddr, hmin⟩ := hsmall hleft
          refine ⟨k', by simp [hk'], haddr, fun h hh hholds => ?_⟩
          rw [keys_node, List.mem_append, List.mem_cons] at hh
          rcases hh with hh | rfl | hh
          · exact hmin h hh hholds
          · exact (hl k' hk').le
          · exact ((hl k' hk').trans (hr h hh)).le
      · rw [if_neg hsize, if_pos hfits] at hd
        rw [if_pos (.inr hfits)]
        have hk := hlt k (.inr (.inl rfl))
        exact hright (fun h hh => hd h (List.mem_append_left _ hh))
          (fun hholds => hfits (hholds.fits hv hk.1 hk.2))
          fun h hh => hd h (List.mem_append_right _ hh)

/-! ## In memory -/

/-- A tree of holes in memory, with a hole at most once at each address and none at the null
pointer. -/
structure HoleAvl (data n : ℕ) (t : HoleTree) (fl : List ℕ) (avl : KallocAVL) (m : Mem) : Prop where
  inv : AvlInv data n t fl avl m
  addr_ne : ∀ k ∈ t.keys, k.addr ≠ 0
  addr_inj : ∀ k ∈ t.keys, ∀ k' ∈ t.keys, k.addr = k'.addr → k = k'

theorem Rep.key_lt {m : Mem} : ∀ {t : HoleTree}, Rep m t → ∀ k ∈ t.keys,
    k.size < 4294967296 ∧ k.addr < 4294967296
  | .nil, _, _, hk => absurd hk List.not_mem_nil
  | .node p _ k' _ _, ⟨_, hn, hl, hr⟩, k, hk => by
    rw [AvlTree.keys_node, List.mem_append, List.mem_cons] at hk
    rcases hk with hk | rfl | hk
    · exact hl.key_lt k hk
    · have hsize : nodeHoleSize m p = k.size := congrArg AvlNode.holeSize hn
      have haddr : nodeHoleAddr m p = k.addr := congrArg AvlNode.holeAddr hn
      rw [← hsize, ← haddr]
      exact ⟨load32_lt _ _, load32_lt _ _⟩
    · exact hr.key_lt k hk

variable {data n : ℕ} {fl : List ℕ} {avl : KallocAVL} {m : Mem}

/-- The search finds the smallest hole that holds the request if and only if none of the holes that
it leaves behind with a badly aligned one holds it. -/
theorem kallocAvlFindHole_smallest_iff (h : HoleAvl data n t fl avl m)
    (hv : ValidAlignment alignment) :
    (∃ p, kallocAvlFindHole m avl size alignment = .ok p ∧ SmallestHole t size alignment p) ↔
      ∀ k ∈ t.discarded size alignment, ¬ k.Holds size alignment := by
  rw [h.inv.findHole]
  constructor
  · rintro ⟨p, hp, hnone, hsmall⟩ k hk hholds
    obtain rfl := Except.ok.inj hp
    by_cases h0 : t.findHole size alignment = 0
    · exact hnone h0 k (AvlTree.discarded_subset k hk) hholds
    · obtain ⟨k₁, hk₁, haddr₁, hmin⟩ := hsmall h0
      obtain ⟨k₂, hk₂, haddr₂, hlt⟩ := AvlTree.lt_of_discarded h.inv.isAvl.ordered h0
      obtain rfl := h.addr_inj k₁ hk₁ k₂ hk₂ (haddr₁.trans haddr₂.symm)
      exact absurd (hmin k (AvlTree.discarded_subset k hk) hholds) (not_le.mpr (hlt k hk))
  · intro hd
    exact ⟨_, rfl, AvlTree.findHole_smallest h.inv.isAvl.ordered hv h.inv.rep.key_lt h.addr_ne hd⟩

/-- Two holes for a page, the longer of which is badly aligned. -/
def twoHoles : HoleTree := .node 20 2 (hole 5000 0x1001) (.node 40 1 (hole 4096 0x10000) .nil .nil) .nil

theorem exists_twoHoles : ∃ avl m, HoleAvl 20 2 twoHoles [] avl m := by
  obtain ⟨avl₀, m₀, -, h₀, -⟩ := @kallocAvlInit_spec 20 (fun _ => 0) 40 (by decide) (by decide)
    (by decide)
  have hslots : poolSlots 20 (40 / 20) = [20, 40] := by decide
  rw [hslots] at h₀
  obtain ⟨avl₁, m₁, -, h₁, -⟩ := h₀.insert (k := hole 5000 0x1001) 0 (by decide) (by decide)
    List.not_mem_nil
  obtain ⟨avl₂, m₂, -, h₂, -⟩ := h₁.insert (k := hole 4096 0x10000) 0 (by decide) (by decide)
    (by decide)
  have htree : (((AvlTree.nil : HoleTree).insert 20 (hole 5000 0x1001)).1.insert 40
      (hole 4096 0x10000)).1 = twoHoles := by decide
  rw [htree] at h₂
  refine ⟨avl₂, m₂, h₂, by decide, by decide⟩

/-- The search finds no hole for a page although there is one. -/
theorem not_smallestHole_twoHoles : ∃ avl m, HoleAvl 20 2 twoHoles [] avl m ∧
    kallocAvlFindHole m avl 4096 0x1000 = .ok 0 ∧ ¬ SmallestHole twoHoles 4096 0x1000 0 := by
  obtain ⟨avl, m, h⟩ := exists_twoHoles
  have hrun : kallocAvlFindHole m avl 4096 0x1000 = .ok 0 := h.inv.findHole 4096 0x1000
  refine ⟨avl, m, h, hrun, fun hs => ?_⟩
  exact hs.none rfl (hole 4096 0x10000) (by decide) (by decide)

theorem kallocAvlFindHole_smallest_twoHoles : ∃ avl m, HoleAvl 20 2 twoHoles [] avl m ∧
    ∃ p, kallocAvlFindHole m avl 4096 0 = .ok p ∧ SmallestHole twoHoles 4096 0 p := by
  obtain ⟨avl, m, h⟩ := exists_twoHoles
  exact ⟨avl, m, h, (kallocAvlFindHole_smallest_iff h (.inl rfl)).mpr (by decide)⟩

end

end RawOS
