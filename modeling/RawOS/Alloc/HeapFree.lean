import RawOS.Alloc.HeapGrow

/-!
# `kalloc_heap_free` keeps the heap

`mergePrevious_spec` and `mergeNext_spec` merge the released block with a hole before it and a
hole after it; `kallocHeapFree_spec` puts the merged hole into the tree. The bytes of the other
used blocks stay.
-/

namespace RawOS

section

variable {σ : Type} {env : PageEnv σ} {base : ℕ} {s : HeapState σ} {xs ys : List Block}
  {b : Block}

/-- The block `b` between `xs` and `ys` became part of `c`. -/
structure Merged (base : ℕ) (xs : List Block) (b : Block) (ys : List Block) (s s' : HeapState σ)
    (xs' : List Block) (c : Block) (ys' : List Block) : Prop where
  shape : HeapShape base (xs' ++ c :: ys') (holes xs' ++ holes ys') s'.heap s'.mem
  size : s'.heap.size = s.heap.size
  sys : s'.sys = s.sys
  used : ∀ x : Block, x.used = true → (x ∈ xs' ++ ys' ↔ x ∈ xs ++ ys)
  sub : ∀ x ∈ xs' ++ ys', x ∈ xs ++ ys
  lo : c.addr ≤ b.addr
  hi : b.next ≤ c.next
  frame : ∀ x, x < base ∨ base + 65536 ≤ x → x < c.addr ∨ c.next ≤ x → s'.mem x = s.mem x
  keys : (xs' = xs ∧ c = b ∧ ys' = ys) ∨ FreeNeighbour (xs ++ ys) b ∧
    (holes xs' ++ holes ys').length < (holes xs ++ holes ys).length

/-- A call that changes nothing. -/
theorem Merged.refl (h : HeapShape base (xs ++ b :: ys) (holes xs ++ holes ys) s.heap s.mem) :
    Merged base xs b ys s s xs b ys :=
  ⟨h, rfl, rfl, fun _ _ => Iff.rfl, fun _ hx => hx, le_rfl, le_rfl, fun _ _ _ => rfl,
    .inl ⟨rfl, rfl, rfl⟩⟩

/-- A block takes the one after it. -/
theorem HeapShape.fuse {heap : KallocHeap} {m : Mem} {ks : List Hole} {p c : Block}
    (h : HeapShape base (xs ++ p :: b :: ys) ks heap m) (hca : c.addr = p.addr)
    (hcz : c.size = p.size + b.size + 20) (hcu : c.used = p.used) :
    HeapShape base (xs ++ c :: ys) ks heap
        (setFooterHeader (setHeaderSize m p.addr (p.size + b.size + 20)) b.footer p.addr) ∧
      ∀ x, x < p.addr ∨ b.next ≤ x →
        setFooterHeader (setHeaderSize m p.addr (p.size + b.size + 20)) b.footer p.addr x = m x := by
  have hpst := h.stands p (by simp)
  have hst := h.stands b (by simp)
  have hbd := h.next_le (b := b) (by simp)
  have hfits := h.fits
  have hpb : p.addr + p.size + 20 = b.addr := by
    obtain ⟨-, hys⟩ := h.tiles.around
    exact hys.1.symm
  have hbf : b.footer = b.addr + 12 + b.size := rfl
  have hbn : b.next = b.addr + b.size + 20 := rfl
  have hcf : c.footer = b.footer := by unfold Block.footer; omega
  have hcn : c.next = b.next := by unfold Block.next; omega
  obtain ⟨m₁, hm₁⟩ : ∃ m₁, m₁ = setHeaderSize m p.addr (p.size + b.size + 20) := ⟨_, rfl⟩
  obtain ⟨m₂, hm₂⟩ : ∃ m₂, m₂ = setFooterHeader m₁ b.footer p.addr := ⟨_, rfl⟩
  have hfr₁ : ∀ x, x < p.addr ∨ p.addr + 12 ≤ x → m₁ x = m x := fun x hx => by
    rw [hm₁, setHeaderSize_of_outside hx]
  have hfr₂ : ∀ x, x < b.footer ∨ b.footer + 8 ≤ x → m₂ x = m₁ x := fun x hx => by
    rw [hm₂, setFooterHeader_of_outside hx]
  have hfr : ∀ x, x < p.addr ∨ b.next ≤ x → m₂ x = m x := fun x hx =>
    (hfr₂ x (by omega)).trans (hfr₁ x (by omega))
  have hcs : c.Stands m₂ := by
    constructor
    · have hh : HeaderAt m₁ p.addr (p.size + b.size + 20) p.used :=
        hm₁ ▸ hpst.header.setSize (by omega)
      rw [hca, hcz, hcu]
      exact hh.congr fun x _ _ => hfr₂ x (by omega)
    · have hf : FooterAt m₁ b.footer b.addr := hst.footer.congr fun x _ _ => hfr₁ x (by omega)
      rw [hcf, hca, hm₂]
      exact hf.setHeader (by omega)
  rw [← hm₁, ← hm₂]
  refine ⟨?_, hfr⟩
  have h' : HeapShape base (xs ++ [p, b] ++ ys) ks heap m := by simpa using h
  have h'' := h'.replace (show Tiles p.addr [p, b] b.next from ⟨rfl, hpb.symm, rfl⟩) (by simp)
    (show Tiles p.addr [c] b.next from ⟨hca, hcn⟩) (by simpa using hcs) hfr
  simpa using h''

theorem mergePrevious_spec (env : PageEnv σ)
    (h : HeapShape base (xs ++ b :: ys) (holes xs ++ holes ys) s.heap s.mem)
    (hsep : Separated (xs ++ ys)) :
    ∃ s' xs' c, mergePrevious env s b.addr b.footer = .ok (c.addr, s') ∧
      Merged base xs b ys s s' xs' c ys ∧ c.next = b.next ∧
      ∀ x ∈ xs', x.next = c.addr → x.used = true := by
  have hst := h.stands b (by simp)
  have hbd := h.next_le (b := b) (by simp)
  have hb0 := h.mem_bounds (b := b) (by simp)
  have h0 := h.initialAddr
  obtain ⟨hxs, hys⟩ := h.tiles.around
  have hbf : b.footer = b.addr + 12 + b.size := rfl
  have hbn : b.next = b.addr + b.size + 20 := rfl
  unfold mergePrevious
  by_cases hfirst : b.addr = s.heap.initialAddr
  · -- no block before
    rw [if_neg (not_not.mpr hfirst)]
    refine ⟨s, xs, b, rfl, .refl h, rfl, fun x hx _ => ?_⟩
    have := hxs.mem hx
    unfold Block.next at this
    omega
  rw [if_pos hfirst]
  obtain ⟨xs₀, p, rfl, hxs₀, hpn⟩ := hxs.last (by omega)
  have hpst := h.stands p (by simp)
  have hpn' : p.addr + p.size + 20 = b.addr := hpn
  have hpf : p.footer = p.addr + 12 + p.size := rfl
  have hprev : u32Sub b.addr 8 = p.footer := by
    rw [u32Sub_of_le (by omega) (by omega)]
    omega
  simp only [sizeofFooter, sizeofHeader, hprev, hpst.footer.header]
  cases hpu : p.used with
  | true =>
    -- a used block before
    rw [if_neg (by rw [hpst.header.used, hpu]; decide)]
    refine ⟨s, xs₀ ++ [p], b, rfl, .refl h, rfl, fun x hx hxn => ?_⟩
    rcases List.mem_append.mp hx with hx | hx
    · have := hxs₀.mem hx
      unfold Block.next at this hxn
      omega
    · rw [List.mem_singleton.mp hx, hpu]
  | false =>
    -- a hole before
    rw [if_pos (by rw [hpst.header.used, hpu]; rfl)]
    have hkeys : (holes (xs₀ ++ [p]) ++ holes ys).Perm (p.key :: (holes xs₀ ++ holes ys)) := by
      rw [holes_append, holes_cons_free hpu, holes_nil, List.append_assoc]
      exact List.perm_middle
    obtain ⟨avl, m₁, hrem, hS₁, hf₁⟩ := (h.perm_keys hkeys).remove env
    have hpst₁ := hS₁.stands p (by simp)
    have hst₁ := hS₁.stands b (by simp)
    obtain ⟨c, hca, hcz, hcu⟩ : ∃ c : Block, c.addr = p.addr ∧ c.size = p.size + b.size + 20 ∧
        c.used = p.used := ⟨⟨p.addr, p.size + b.size + 20, p.used⟩, rfl, rfl, rfl⟩
    have hcn : c.next = b.next := by unfold Block.next; omega
    rw [List.append_assoc] at hS₁
    obtain ⟨hS₂, hfr⟩ := hS₁.fuse hca hcz hcu
    obtain ⟨m₂, hm₂⟩ : ∃ m₂, m₂ = setFooterHeader (setHeaderSize m₁ p.addr (p.size + b.size + 20))
      b.footer p.addr := ⟨_, rfl⟩
    rw [← hm₂] at hS₂ hfr
    have hp12 : u32 (p.addr + 12) = p.addr + 12 := u32_of_lt (by omega)
    have hsum : u32 (p.size + (b.size + 12 + 8)) = p.size + b.size + 20 := by
      rw [u32_of_lt (by omega)]
      omega
    have hrem' : heapAvlRemove env s p.size (p.addr + 12) =
        .ok ⟨{ s.heap with avl := avl }, m₁, s.sys⟩ :=
      hrem
    rw [hpst.header.size, hp12, hrem', ok_bind]
    simp only [hpst₁.header.size, hst₁.header.size, hsum]
    rw [← hm₂]
    refine ⟨⟨{ s.heap with avl := avl }, m₂, s.sys⟩, xs₀, c, by rw [hca]; rfl,
      ⟨hS₂, rfl, rfl, fun x hx => ?_, fun x hx => ?_, by omega, hcn.ge, fun x hx hx' => ?_,
        .inr ⟨⟨p, by simp, hpu, .inl hpn⟩, ?_⟩⟩, hcn, ?_⟩
    · have hxp : x ≠ p := by rintro rfl; simp [hpu] at hx
      simp [hxp]
    · simp only [List.mem_append] at hx ⊢
      exact hx.imp_left .inl
    · exact (hfr x (by omega)).trans (hf₁ x hx)
    · rw [hkeys.length_eq, List.length_cons]
      exact Nat.lt_succ_self _
    · intro x hx hxn
      have hxp := hsep x (by simp [hx]) p (by simp) (hxn.trans hca)
      simpa [hpu] using hxp

theorem mergeNext_spec (env : PageEnv σ)
    (h : HeapShape base (xs ++ b :: ys) (holes xs ++ holes ys) s.heap s.mem)
    (hsep : Separated (xs ++ ys)) :
    ∃ s' c ys', mergeNext env s b.addr b.footer = .ok s' ∧ Merged base xs b ys s s' xs c ys' ∧
      c.addr = b.addr ∧ ∀ y ∈ ys', c.next = y.addr → y.used = true := by
  have hst := h.stands b (by simp)
  have hbd := h.next_le (b := b) (by simp)
  have hb0 := h.mem_bounds (b := b) (by simp)
  have h0 := h.initialAddr
  have hfits := h.fits
  obtain ⟨hxs, hys⟩ := h.tiles.around
  have hbf : b.footer = b.addr + 12 + b.size := rfl
  have hbn : b.next = b.addr + b.size + 20 := rfl
  unfold mergeNext sizeofFooter
  rw [u32Sub_u32 (by omega) hfits (by omega)]
  cases ys with
  | nil =>
    -- no block after
    rw [tiles_nil] at hys
    rw [if_neg (by omega)]
    exact ⟨s, b, [], rfl, .refl h, rfl, fun y hy => absurd hy List.not_mem_nil⟩
  | cons n ys =>
    obtain ⟨hna, hys⟩ := hys
    have hnst := h.stands n (by simp)
    have hnd := h.next_le (b := n) (by simp)
    have hnb := h.mem_bounds (b := n) (by simp)
    have hnf : n.footer = n.addr + 12 + n.size := rfl
    have hnn : n.next = n.addr + n.size + 20 := rfl
    have hnext : u32 (b.footer + 8) = n.addr := by
      rw [u32_of_lt (by omega)]
      omega
    rw [if_pos (by omega)]
    simp only [sizeofHeader, hnext]
    cases hnu : n.used with
    | true =>
      -- a used block after
      rw [if_neg (by rw [hnst.header.used, hnu]; decide)]
      refine ⟨s, b, n :: ys, rfl, .refl h, rfl, fun y hy hyn => ?_⟩
      rcases List.mem_cons.mp hy with rfl | hy
      · exact hnu
      · have := hys.mem hy
        omega
    | false =>
      -- a hole after
      rw [if_pos (by rw [hnst.header.used, hnu]; rfl)]
      have hkeys : (holes xs ++ holes (n :: ys)).Perm (n.key :: (holes xs ++ holes ys)) := by
        rw [holes_cons_free hnu]
        exact List.perm_middle
      obtain ⟨avl, m₁, hrem, hS₁, hf₁⟩ := (h.perm_keys hkeys).remove env
      have hst₁ := hS₁.stands b (by simp)
      have hnst₁ := hS₁.stands n (by simp)
      obtain ⟨c, hca, hcz, hcu⟩ : ∃ c : Block, c.addr = b.addr ∧ c.size = b.size + n.size + 20 ∧
          c.used = b.used := ⟨⟨b.addr, b.size + n.size + 20, b.used⟩, rfl, rfl, rfl⟩
      have hcn : c.next = n.next := by unfold Block.next; omega
      obtain ⟨hS₂, hfr⟩ := hS₁.fuse hca hcz hcu
      obtain ⟨m₂, hm₂⟩ : ∃ m₂, m₂ = setFooterHeader (setHeaderSize m₁ b.addr (b.size + n.size + 20))
        n.footer b.addr := ⟨_, rfl⟩
      rw [← hm₂] at hS₂ hfr
      have hn12 : u32 (n.addr + 12) = n.addr + 12 := u32_of_lt (by omega)
      have hnf' : u32 (n.addr + 12 + n.size) = n.footer := u32_of_lt (by omega)
      have hsum : u32 (b.size + (n.size + 12 + 8)) = b.size + n.size + 20 := by
        rw [u32_of_lt (by omega)]
        omega
      have hrem' : heapAvlRemove env s n.size (n.addr + 12) =
          .ok ⟨{ s.heap with avl := avl }, m₁, s.sys⟩ := hrem
      rw [hnst.header.size, hn12, hrem', ok_bind]
      simp only [hst₁.header.size, hnst₁.header.size, hsum, hnf']
      rw [← hm₂]
      refine ⟨⟨{ s.heap with avl := avl }, m₂, s.sys⟩, c, ys, rfl,
        ⟨hS₂, rfl, rfl, fun x hx => ?_, fun x hx => ?_, hca.le, by omega, fun x hx hx' => ?_,
          .inr ⟨⟨n, by simp, hnu, .inr hna.symm⟩, ?_⟩⟩, hca, ?_⟩
      · have hxn : x ≠ n := by rintro rfl; simp [hnu] at hx
        simp [hxn]
      · simp only [List.mem_append, List.mem_cons] at hx ⊢
        exact hx.imp_right .inr
      · exact (hfr x (by omega)).trans (hf₁ x hx)
      · rw [hkeys.length_eq, List.length_cons]
        exact Nat.lt_succ_self _
      · intro y hy hyn
        have hny := hsep n (by simp) y (by simp [hy]) (hcn.symm.trans hyn)
        simpa [hnu] using hny

/-- What the release of the used block `b` ends with: the other used blocks stay. -/
structure Freed (base : ℕ) (bs : List Block) (b : Block) (s s' : HeapState σ)
    (bs' : List Block) : Prop where
  inv : HeapInv base bs' s'.heap s'.mem
  used : ∀ x : Block, x.used = true → (x ∈ bs' ↔ x ∈ bs ∧ x ≠ b)
  heapSize : s'.heap.size = s.heap.size
  sys : s'.sys = s.sys
  frame : ∀ x, (x < base ∨ s.heap.initialAddr + s.heap.size ≤ x ∨
    ∃ c ∈ bs, c ≠ b ∧ c.used = true ∧ c.user ≤ x ∧ x < c.footer) → s'.mem x = s.mem x
  count : ¬ FreeNeighbour bs b → (holes bs').length = (holes bs).length + 1
  count_le : (holes bs').length ≤ (holes bs).length + 1

/-- The released block, once its header says so. -/
theorem HeapShape.unuse {heap : KallocHeap} {m : Mem} {ks : List Hole} {f : Block}
    (h : HeapShape base (xs ++ b :: ys) ks heap m) (hfa : f.addr = b.addr) (hfz : f.size = b.size)
    (hfu : f.used = false) : HeapShape base (xs ++ f :: ys) ks heap (setHeaderUsed m b.addr 0) ∧
      headerSize (setHeaderUsed m b.addr 0) b.addr = f.size := by
  have hst := h.stands b (by simp)
  have hbf : b.footer = b.addr + 12 + b.size := rfl
  have hbn : b.next = b.addr + b.size + 20 := rfl
  have hff : f.footer = b.footer := by unfold Block.footer; omega
  have hfn : f.next = b.next := by unfold Block.next; omega
  have hfs : f.Stands (setHeaderUsed m b.addr 0) := by
    constructor
    · rw [hfa, hfz, hfu]
      exact hst.header.setUsed false
    · rw [hff, hfa]
      exact hst.footer.congr fun x _ _ => setHeaderUsed_of_outside (by omega)
  have h' : HeapShape base (xs ++ [b] ++ ys) ks heap m := by
    simpa using h
  have h'' := h'.replace (show Tiles b.addr [b] b.next from ⟨rfl, rfl⟩) (by simp)
    (show Tiles b.addr [f] b.next from ⟨hfa, hfn⟩) (by simpa using hfs)
    fun x hx => setHeaderUsed_of_outside (by omega)
  have hsize := hfs.header.size
  rw [hfa] at hsize
  exact ⟨by simpa using h'', hsize⟩

/-- Without a merge no hole touches the block, and a merge gives a node back. -/
theorem Merged.count {s₁ s₂ : HeapState σ} {xs₁ ys₂ : List Block} {c d : Block}
    (hm₁ : Merged base xs b ys s s₁ xs₁ c ys) (hm₂ : Merged base xs₁ c ys s₁ s₂ xs₁ d ys₂)
    (hbu : b.used = true) {o e : ℕ} (hxs : Tiles o xs b.addr) (hys : Tiles b.next ys e)
    (hleft : ∀ x ∈ xs₁, x.next = c.addr → x.used = true)
    (hright : ∀ y ∈ ys₂, d.next = y.addr → y.used = true) :
    (xs₁ = xs ∧ d = b ∧ ys₂ = ys ∧ ¬ FreeNeighbour (xs ++ b :: ys) b) ∨
      FreeNeighbour (xs ++ b :: ys) b ∧
        (holes xs₁ ++ holes ys₂).length < (holes (xs ++ b :: ys)).length := by
  have hsub : FreeNeighbour (xs ++ ys) b → FreeNeighbour (xs ++ b :: ys) b := by
    rintro ⟨n, hn, hn'⟩
    refine ⟨n, ?_, hn'⟩
    simp only [List.mem_append, List.mem_cons] at hn ⊢
    exact hn.imp_right .inr
  rw [holes_append, holes_cons_used hbu]
  rcases hm₁.keys with ⟨rfl, rfl, -⟩ | ⟨hnb, hlt⟩
  · rcases hm₂.keys with ⟨-, rfl, rfl⟩ | ⟨hnb, hlt⟩
    · refine .inl ⟨rfl, rfl, rfl, ?_⟩
      rintro ⟨n, hn, hnu, hnb⟩
      have hne : n ≠ d := by
        rintro rfl
        rw [hbu] at hnu
        exact Bool.noConfusion hnu
      have hn' : n ∈ xs₁ ∨ n ∈ ys₂ := by
        simpa [hne] using hn
      rcases hn' with hn' | hn'
      · have hlo := (hxs.mem hn').2
        have hused := hleft n hn' (by unfold Block.next at *; omega)
        rw [hnu] at hused
        exact Bool.noConfusion hused
      · have hhi := (hys.mem hn').1
        have hused := hright n hn' (by unfold Block.next at *; omega)
        rw [hnu] at hused
        exact Bool.noConfusion hused
    · exact .inr ⟨hsub hnb, hlt⟩
  · refine .inr ⟨hsub hnb, lt_of_le_of_lt ?_ hlt⟩
    rcases hm₂.keys with ⟨-, -, rfl⟩ | ⟨-, hlt₂⟩
    · exact le_refl _
    · exact hlt₂.le

/-- After both merges the used blocks are the others. -/
theorem Merged.others {s₁ s₂ : HeapState σ} {xs₁ ys₂ : List Block} {c d : Block}
    (hm₁ : Merged base xs b ys s s₁ xs₁ c ys) (hm₂ : Merged base xs₁ c ys s₁ s₂ xs₁ d ys₂)
    {o e : ℕ} (hxs : Tiles o xs b.addr) (hys : Tiles b.next ys e) {x : Block} (hx : x.used = true) :
    x ∈ xs₁ ++ ys₂ ↔ x ∈ xs ++ b :: ys ∧ x ≠ b := by
  have hbn : b.next = b.addr + b.size + 20 := rfl
  rw [hm₂.used x hx, hm₁.used x hx]
  simp only [List.mem_append, List.mem_cons]
  constructor
  · intro hx'
    refine ⟨hx'.imp_right .inr, ?_⟩
    rintro rfl
    rcases hx' with hx' | hx'
    · have hlo := (hxs.mem hx').2
      omega
    · have hhi := (hys.mem hx').1
      omega
  · rintro ⟨hx' | hx' | hx', hne⟩
    · exact .inl hx'
    · exact absurd hx' hne
    · exact .inr hx'

/-- `kalloc_heap_free` of a used block. It needs a node unless the block merges with a hole. -/
theorem kallocHeapFree_spec {bs : List Block} (h : HeapInv base bs s.heap s.mem) (hb : b ∈ bs)
    (hbu : b.used = true) :
    Ends (kallocHeapFree env s b.user) (fun s' => ∃ bs', Freed base bs b s s' bs')
      (fun e => PoolFull (holes bs).length e ∧ ¬ FreeNeighbour bs b) := by
  have hpool := h.holes_le
  obtain ⟨hS, hsep⟩ := h
  have hst := hS.stands b hb
  have hbd := hS.next_le hb
  have hb0 := hS.mem_bounds hb
  obtain ⟨xs, ys, rfl, hxs, hys⟩ := hS.tiles.split hb
  have hbf : b.footer = b.addr + 12 + b.size := rfl
  have hbn : b.next = b.addr + b.size + 20 := rfl
  have hbu12 : b.user = b.addr + 12 := rfl
  have hsep' : Separated (xs ++ ys) := fun x hx y hy hxy => by
    have hsub : ∀ x ∈ xs ++ ys, x ∈ xs ++ b :: ys := fun x hx => by
      simp only [List.mem_append, List.mem_cons] at hx ⊢
      exact hx.imp_right .inr
    exact hsep x (hsub x hx) y (hsub y hy) hxy
  have hS' : HeapShape base (xs ++ b :: ys) (holes xs ++ holes ys) s.heap s.mem := by
    refine hS.perm_keys ?_
    rw [holes_append, holes_cons_used hbu]
  -- the two merges
  obtain ⟨s₁, xs₁, c, hrun₁, hm₁, hcn, hleft⟩ := mergePrevious_spec env hS' hsep'
  have hsep₁ : Separated (xs₁ ++ ys) := fun x hx y hy hxy =>
    hsep' x (hm₁.sub x hx) y (hm₁.sub y hy) hxy
  have hcf : c.footer = b.footer := by
    unfold Block.next Block.footer at *
    omega
  obtain ⟨s₂, d, ys₂, hrun₂, hm₂, hda, hright⟩ := mergeNext_spec env hm₁.shape hsep₁
  have hS₂ := hm₂.shape
  have hdd := hS₂.next_le (b := d) (by simp)
  have hd0 := hS₂.mem_bounds (b := d) (by simp)
  have hdf : d.footer = d.addr + 12 + d.size := rfl
  have hdn : d.next = d.addr + d.size + 20 := rfl
  obtain ⟨hxs₂, hys₂⟩ := hS₂.tiles.around
  -- the hole
  obtain ⟨f, hfa, hfz, hfu⟩ : ∃ f : Block, f.addr = d.addr ∧ f.size = d.size ∧ f.used = false :=
    ⟨⟨d.addr, d.size, false⟩, rfl, rfl, rfl⟩
  have hfn : f.next = d.next := by unfold Block.next; omega
  obtain ⟨m₃, hm₃⟩ : ∃ m₃, m₃ = setHeaderUsed s₂.mem d.addr 0 := ⟨_, rfl⟩
  have hfr₃ : ∀ x, x < d.addr ∨ d.addr + 12 ≤ x → m₃ x = s₂.mem x := fun x hx => by
    rw [hm₃, setHeaderUsed_of_outside hx]
  obtain ⟨hS₃, hsize₃⟩ := hS₂.unuse hfa hfz hfu
  rw [← hm₃] at hS₃ hsize₃
  have hkey : f.key ∉ holes xs₁ ++ holes ys₂ := by
    rw [List.mem_append, not_or]
    exact ⟨HeapShape.key_not_mem hxs₂ (.inr hfa.ge),
      HeapShape.key_not_mem hys₂ (.inl (by omega))⟩
  have hins := hS₃.insert env (s := ⟨s₂.heap, m₃, s₂.sys⟩) (k := f.key)
    (by rw [Block.key_size]; omega) (by rw [Block.key_addr]; omega) hkey
  -- the run
  have hhead : u32Sub b.user 12 = b.addr := by
    rw [u32Sub_of_le (by omega) (by omega)]
    omega
  have hfoot : u32 (b.user + b.size) = b.footer := by
    rw [u32_of_lt (by omega)]
    omega
  have hd12 : u32 (d.addr + 12) = d.addr + 12 := u32_of_lt (by omega)
  unfold kallocHeapFree
  simp only [sizeofHeader, hhead, hst.header.size, hfoot]
  rw [assert_of_true (by rw [hst.header.used, hbu]; rfl), ok_bind, hrun₁, ok_bind]
  dsimp only
  rw [← hcf, hrun₂, ok_bind]
  simp only [← hda, ← hm₃]
  rw [hsize₃, hd12, ← hfa]
  have hcount := hm₁.count hm₂ hbu hxs hys hleft hright
  refine hins.mono ?_ fun e he => ?_
  rotate_left
  · rcases hcount with ⟨rfl, -, rfl, hnb⟩ | ⟨-, hlt⟩
    · rw [holes_append, holes_cons_used hbu]
      exact ⟨he, hnb⟩
    · have := he.2
      omega
  rintro _ ⟨avl, m₄, rfl, hsh, hf⟩
  have hlength : (holes (xs₁ ++ f :: ys₂)).length = (holes xs₁ ++ holes ys₂).length + 1 := by
    rw [holes_append, holes_cons_free hfu]
    simp only [List.length_append, List.length_cons]
    omega
  refine ⟨xs₁ ++ f :: ys₂, ⟨hsh.perm_keys ?_, ?_⟩, ?_, ?_, ?_, ?_, fun hnb => ?_, ?_⟩
  · rw [holes_append, holes_cons_free hfu]
    exact List.perm_middle.symm
  · refine separated_hole (hfa ▸ hxs₂) (hfn ▸ hys₂) (fun x hx y hy => ?_)
      (fun x hx hxf => hleft x hx (hxf.trans (hfa.trans hda)))
      fun y hy hfy => hright y hy (hfn.symm.trans hfy)
    exact hsep' x (hm₁.sub x (hm₂.sub x hx)) y (hm₁.sub y (hm₂.sub y hy))
  · intro x hx
    rw [← hm₁.others hm₂ hxs hys hx]
    have hxf : x ≠ f := by rintro rfl; simp [hfu] at hx
    simp [hxf]
  · exact hm₂.size.trans hm₁.size
  · exact hm₂.sys.trans hm₁.sys
  · intro x hx
    have hlo := hm₂.hi
    have hlo' := hS₂.initialAddr
    have hend : s₂.heap.size = s.heap.size := hm₂.size.trans hm₁.size
    have h0 := hS.initialAddr
    have hout : (x < base ∨ base + 65536 ≤ x) ∧ (x < d.addr ∨ d.next ≤ x) := by
      rcases hx with hx | hx | ⟨q, hq, hqb, hqu, h₁, h₂⟩
      · omega
      · omega
      · have hqd := hS.mem_bounds hq
        unfold Block.user Block.footer at *
        rcases List.mem_append.mp ((hm₁.others hm₂ hxs hys hqu).mpr ⟨hq, hqb⟩) with hq' | hq'
        · have := (hxs₂.mem hq').2
          unfold Block.next at *
          omega
        · have := (hys₂.mem hq').1
          omega
    calc m₄ x = m₃ x := hf x hout.1
      _ = s₂.mem x := hfr₃ x (by omega)
      _ = s₁.mem x := hm₂.frame x hout.1 hout.2
      _ = s.mem x := hm₁.frame x hout.1 (by omega)
  · rcases hcount with ⟨rfl, -, rfl, -⟩ | ⟨hnb', -⟩
    · rw [hlength, holes_append, holes_cons_used hbu]
    · exact absurd hnb' hnb
  · rcases hcount with ⟨rfl, -, rfl, -⟩ | ⟨-, hlt⟩
    · rw [hlength, holes_append, holes_cons_used hbu]
    · rw [hlength]
      omega

/-- With a node left for the hole the release returns. -/
theorem HeapInv.free_returns {bs : List Block} {heap : KallocHeap} {m : Mem} (env : PageEnv σ)
    (sys : σ) (h : HeapInv base bs heap m) (hb : b ∈ bs) (hbu : b.used = true)
    (hfew : (holes bs).length < heapNodes) :
    ∃ s', kallocHeapFree env ⟨heap, m, sys⟩ b.user = .ok s' := by
  have hends : Ends (kallocHeapFree env ⟨heap, m, sys⟩ b.user) _ _ :=
    kallocHeapFree_spec h hb hbu
  cases hrun : kallocHeapFree env ⟨heap, m, sys⟩ b.user with
  | error e =>
    rw [hrun] at hends
    exact absurd hends.1.2 (Nat.not_le_of_lt hfew)
  | ok s' => exact ⟨s', rfl⟩

end

end RawOS
