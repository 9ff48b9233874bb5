import RawOS.Alloc.HeapPool

/-!
# The order of releases

Blocks that tile an interval, with no two holes next to each other, are known from the used ones
among them (`Tiles.eq_of_used`). A release only takes its block from the used ones, so the order of
several releases does not matter (`freeAll_confluent`).
-/

namespace RawOS

/-! ## The used blocks decide -/

section

variable {a e : ℕ} {b c : Block} {bs cs : List Block}

/-- A hole of the one list ends no sooner than the hole of the other at the same address. -/
theorem Tiles.next_le_of_hole (hb : Tiles a (b :: bs) e) (hc : Tiles a (c :: cs) e)
    (hsep : Separated (b :: bs)) (hused : ∀ x : Block, x.used = true → x ∈ b :: bs → x ∈ c :: cs)
    (hbu : b.used = false) : c.next ≤ b.next := by
  by_contra hlt
  rw [not_le] at hlt
  have hce := (hc.mem List.mem_cons_self).2
  cases bs with
  | nil =>
    have := hb.2
    rw [tiles_nil] at this
    omega
  | cons d bs =>
    -- the block after the hole is in use, and lies inside `c`
    have hda : b.next = d.addr := hb.2.1.symm
    have hdu : d.used = true := by
      rcases hsep b List.mem_cons_self d (by simp) hda with h | h
      · rw [hbu] at h
        exact Bool.noConfusion h
      · exact h
    have hd := hused d hdu (by simp)
    have hin := hc.not_inside List.mem_cons_self hd (by
      rw [hc.1, ← hb.1, ← hda]
      unfold Block.next
      omega)
    omega

theorem Separated.tail (h : Separated (b :: bs)) : Separated bs :=
  fun x hx y hy => h x (List.mem_cons_of_mem _ hx) y (List.mem_cons_of_mem _ hy)

/-- Two lists with the same used blocks start with the same block. -/
theorem Tiles.head_eq (hb : Tiles a (b :: bs) e) (hc : Tiles a (c :: cs) e)
    (hbs : Separated (b :: bs)) (hcs : Separated (c :: cs))
    (hused : ∀ x : Block, x.used = true → (x ∈ b :: bs ↔ x ∈ c :: cs)) : b = c := by
  have haddr : b.addr = c.addr := hb.1.trans hc.1.symm
  cases hbu : b.used with
  | true => exact hc.eq_of_addr ((hused b hbu).mp List.mem_cons_self) List.mem_cons_self haddr
  | false =>
    cases hcu : c.used with
    | true =>
      exact hb.eq_of_addr List.mem_cons_self ((hused c hcu).mpr List.mem_cons_self) haddr
    | false =>
      have h₁ := hb.next_le_of_hole hc hbs (fun x hx => (hused x hx).mp) hbu
      have h₂ := hc.next_le_of_hole hb hcs (fun x hx => (hused x hx).mpr) hcu
      refine Block.ext haddr ?_ (hbu.trans hcu.symm)
      unfold Block.next at h₁ h₂
      omega

/-- The used blocks decide where the holes are. -/
theorem Tiles.eq_of_used (hb : Tiles a bs e) (hc : Tiles a cs e) (hbs : Separated bs)
    (hcs : Separated cs) (hused : ∀ x : Block, x.used = true → (x ∈ bs ↔ x ∈ cs)) : bs = cs := by
  induction bs generalizing a cs with
  | nil =>
    cases cs with
    | nil => rfl
    | cons c cs =>
      have h₁ := (hc.mem List.mem_cons_self).2
      have h₂ := hc.1
      rw [tiles_nil] at hb
      unfold Block.next at h₁
      omega
  | cons b bs ih =>
    cases cs with
    | nil =>
      have h₁ := (hb.mem List.mem_cons_self).2
      have h₂ := hb.1
      rw [tiles_nil] at hc
      unfold Block.next at h₁
      omega
    | cons c cs =>
      obtain rfl := hb.head_eq hc hbs hcs hused
      congr 1
      refine ih hb.2 hc.2 hbs.tail hcs.tail fun x hx => ?_
      -- the first block is not in the rest
      have hb' : b ∉ bs := fun h => by
        have := (hb.2.mem h).1
        unfold Block.next at this
        omega
      have hc' : b ∉ cs := fun h => by
        have := (hc.2.mem h).1
        unfold Block.next at this
        omega
      have h := hused x hx
      rw [List.mem_cons, List.mem_cons] at h
      constructor
      · intro hxb
        exact (h.mp (.inr hxb)).resolve_left fun heq => hb' (heq ▸ hxb)
      · intro hxc
        exact (h.mpr (.inr hxc)).resolve_left fun heq => hc' (heq ▸ hxc)

end

/-! ## Releases -/

section

variable {σ : Type}

/-- Releases in the order of the list. -/
def freeAll (env : PageEnv σ) : List Live → HeapState σ → Except Panic (HeapState σ)
  | [], s => .ok s
  | l :: ls, s => do
    let s ← kallocHeapFree env s l.ptr
    freeAll env ls s

/-- The walk over the heap finds the blocks `bs`, and the tree has the holes among them. -/
structure Layout (heap : KallocHeap) (m : Mem) (bs : List Block) : Prop where
  walk : Walk heap m bs
  tree : ∃ t : HoleTree, heap.avl.root = t.ptr ∧ Rep m t ∧ t.keys.Perm (holes bs)

variable {env : PageEnv σ} {base : ℕ} {s s' : HeapState σ} {bs bs' : List Block}
  {live ls ls' : List Live} {l : Live}

theorem HeapInv.layout (h : HeapInv base bs s.heap s.mem) : Layout s.heap s.mem bs := by
  obtain ⟨t, fl, hI, hk⟩ := h.shape.avl
  exact ⟨⟨h.shape.tiles, h.shape.stands⟩, t, hI.root, hI.rep, hk⟩

/-- What releases leave: the used blocks that were not released. -/
structure AllFreed (base : ℕ) (bs : List Block) (ls : List Live) (s s' : HeapState σ)
    (bs' : List Block) : Prop where
  inv : HeapInv base bs' s'.heap s'.mem
  heapSize : s'.heap.size = s.heap.size
  used : ∀ x : Block, x.used = true → (x ∈ bs' ↔ x ∈ bs ∧ ∀ l ∈ ls, x.user ≠ l.ptr)
  count : (holes bs').length ≤ (holes bs).length + ls.length

theorem freeAll_spec (hi : LiveInv base bs live s.heap s.mem) (hsub : ∀ l ∈ ls, l ∈ live)
    (hnodup : ls.Nodup) :
    Ends (freeAll env ls s) (fun s' => ∃ bs', AllFreed base bs ls s s' bs') fun e =>
      e = poolExhausted ∧ heapNodes < (holes bs).length + ls.length := by
  induction ls generalizing s bs live with
  | nil =>
    exact ⟨bs, hi.heap, rfl, fun x hx => ⟨fun h => ⟨h, fun l hl => absurd hl List.not_mem_nil⟩,
      fun h => h.1⟩, Nat.le_add_right _ _⟩
  | cons l ls ih =>
    obtain ⟨b, hb, hbu, hbp, -⟩ := hi.held l (hsub l List.mem_cons_self)
    rw [List.nodup_cons] at hnodup
    unfold freeAll
    rw [← hbp]
    refine ((kallocHeapFree_spec hi.heap hb hbu).mono (fun _ h => h) ?_).bind ?_
    · rintro e ⟨⟨he, hfull⟩, -⟩
      exact ⟨he, by rw [List.length_cons]; omega⟩
    · rintro s₁ ⟨bs₁, hf⟩
      have hi₁ := hi.free (hsub l List.mem_cons_self) hbp hf
      have hcount := hf.count_le
      refine (ih hi₁ (fun l' hl' => ?_) hnodup.2).mono ?_ ?_
      · have hne : l' ≠ l := fun heq => hnodup.1 (heq ▸ hl')
        exact (List.mem_erase_of_ne hne).mpr (hsub l' (.tail _ hl'))
      · rintro s' ⟨bs', ha⟩
        refine ⟨bs', ha.inv, ha.heapSize.trans hf.heapSize, fun x hx => ?_, ?_⟩
        · rw [ha.used x hx, hf.used x hx, List.forall_mem_cons, ← hbp, and_assoc]
          refine and_congr_right fun hxb => and_congr_left fun _ => not_congr ?_
          constructor
          · rintro rfl
            rfl
          · intro heq
            refine hi.heap.shape.tiles.eq_of_addr hxb hb ?_
            unfold Block.user at heq
            omega
        · have := ha.count
          rw [List.length_cons]
          omega
      · rintro e ⟨he, hlt⟩
        exact ⟨he, by rw [List.length_cons]; omega⟩

/-- The order does not matter to the blocks. -/
theorem AllFreed.blocks_eq {s₁ s₂ : HeapState σ} {bs₁ bs₂ : List Block}
    (h₁ : AllFreed base bs ls s s₁ bs₁) (h₂ : AllFreed base bs ls' s s₂ bs₂) (hperm : ls.Perm ls') :
    bs₁ = bs₂ := by
  have hinit : s₁.heap.initialAddr = s₂.heap.initialAddr :=
    h₁.inv.shape.initialAddr.trans h₂.inv.shape.initialAddr.symm
  have ht := h₂.inv.shape.tiles
  rw [← hinit, h₂.heapSize, ← h₁.heapSize] at ht
  refine h₁.inv.shape.tiles.eq_of_used ht h₁.inv.separated h₂.inv.separated fun x hx => ?_
  rw [h₁.used x hx, h₂.used x hx]
  exact and_congr_right fun _ => forall_congr' fun l => by rw [hperm.mem_iff]

/-- Without used blocks the heap is one hole. -/
theorem HeapInv.single (h : HeapInv base bs s.heap s.mem) (hnone : ∀ x ∈ bs, x.used = false) :
    bs = [⟨s.heap.initialAddr, s.heap.size - 20, false⟩] := by
  have ht := h.shape.tiles
  have hpos := h.shape.nonempty
  have hmod := h.shape.size_mod
  have hinit := h.shape.initialAddr
  cases bs with
  | nil =>
    rw [tiles_nil] at ht
    omega
  | cons b bs =>
    have hle := (ht.mem List.mem_cons_self).2
    have hb := ht.1
    unfold Block.next at hle
    refine ht.eq_of_used ⟨rfl, ?_⟩ h.separated ?_ fun x hx => ?_
    · rw [tiles_nil]
      unfold Block.next
      dsimp only
      omega
    · intro x hx y hy hxy
      rw [List.mem_singleton] at hx hy
      rw [hx, hy] at hxy
      unfold Block.next at hxy
      dsimp only at hxy
      omega
    · constructor
      · intro hmem
        rw [hnone x hmem] at hx
        exact Bool.noConfusion hx
      · intro hmem
        rw [List.mem_singleton.mp hmem] at hx
        exact Bool.noConfusion hx

/-- Two orders of the same releases end with the same blocks and holes, unless the pool of nodes
runs out, for which there must be more holes and releases than nodes. With everything released the
heap is one hole. -/
theorem freeAll_confluent (hK : KeepsHeap env base) (h : HeapRun env base s live)
    (hsub : ∀ l ∈ ls, l ∈ live) (hnodup : ls.Nodup) (hperm : ls.Perm ls') :
    Ends (freeAll env ls s) (fun s₁ =>
      Ends (freeAll env ls' s) (fun s₂ => ∃ bs, Layout s₁.heap s₁.mem bs ∧ Layout s₂.heap s₂.mem bs)
        (· = poolExhausted) ∧
      ((∀ l ∈ live, l ∈ ls) →
        Layout s₁.heap s₁.mem [⟨s₁.heap.initialAddr, s.heap.size - 20, false⟩]))
      (fun e => e = poolExhausted ∧
        ∀ bs, Walk s.heap s.mem bs → heapNodes < (holes bs).length + ls.length) := by
  obtain ⟨bs, hi, hused⟩ := h.used_live hK
  refine (freeAll_spec hi hsub hnodup).mono ?_ ?_
  · rintro s₁ ⟨bs₁, h₁⟩
    constructor
    · refine (freeAll_spec hi (fun l hl => hsub l (hperm.mem_iff.mpr hl))
        (hperm.nodup_iff.mp hnodup)).mono ?_ fun e he => he.1
      rintro s₂ ⟨bs₂, h₂⟩
      obtain rfl := h₁.blocks_eq h₂ hperm
      exact ⟨bs₁, h₁.inv.layout, h₂.inv.layout⟩
    · intro hall
      rw [← h₁.heapSize]
      refine h₁.inv.single (fun x hx => ?_) ▸ h₁.inv.layout
      by_contra hxu
      rw [Bool.not_eq_false] at hxu
      obtain ⟨hxb, hne⟩ := (h₁.used x hxu).mp hx
      obtain ⟨l, hl, hxl⟩ := hused x hxb hxu
      exact hne l (hall l hl) hxl
  · rintro e ⟨he, hlt⟩
    refine ⟨he, fun bs' hw => ?_⟩
    rwa [walk_unique hw.tiles hi.heap.shape.tiles hw.stands hi.heap.shape.stands]

theorem freeAll_confluent_bytes : ∃ s s₁ s₂ bs,
    HeapRun flatEnv 0x500000 s [⟨0x510021, 1, 0⟩, ⟨0x51000C, 1, 0⟩] ∧
    freeAll flatEnv [⟨0x510021, 1, 0⟩, ⟨0x51000C, 1, 0⟩] s = .ok s₁ ∧
    freeAll flatEnv [⟨0x51000C, 1, 0⟩, ⟨0x510021, 1, 0⟩] s = .ok s₂ ∧
    Layout s₁.heap s₁.mem bs ∧ Layout s₂.heap s₂.mem bs := by
  obtain ⟨s₀, h₀, hinv₀⟩ := exists_flatRun (show 0 < 1 by decide) (by decide)
  obtain ⟨s, h, hinv⟩ := @exists_flatByte [⟨0x510000, 1, true⟩] _ _ _ _ h₀ hinv₀ (by simp) (by decide)
  have hw := hinv.layout.walk
  have h₁ := freeAll_confluent (flatEnv_keepsHeap _) h (fun l hl => hl) (by decide)
    (List.Perm.swap _ _ [])
  have h₂ : Ends (freeAll flatEnv [⟨0x51000C, 1, 0⟩, ⟨0x510021, 1, 0⟩] s) _ _ :=
    freeAll_confluent (flatEnv_keepsHeap _) h (by simp) (by decide) (.refl _)
  cases hrun₁ : freeAll flatEnv [⟨0x510021, 1, 0⟩, ⟨0x51000C, 1, 0⟩] s with
  | error e =>
    rw [hrun₁] at h₁
    exact absurd (h₁.2 _ hw) (by decide)
  | ok s₁ =>
    cases hrun₂ : freeAll flatEnv [⟨0x51000C, 1, 0⟩, ⟨0x510021, 1, 0⟩] s with
    | error e =>
      rw [hrun₂] at h₂
      exact absurd (h₂.2 _ hw) (by decide)
    | ok s₂ =>
      rw [hrun₁, hrun₂] at h₁
      obtain ⟨⟨bs, hl₁, hl₂⟩, -⟩ := h₁
      exact ⟨s, s₁, s₂, bs, h, hrun₁, hrun₂, hl₁, hl₂⟩

end

end RawOS
