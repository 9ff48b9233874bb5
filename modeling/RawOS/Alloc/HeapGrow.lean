import RawOS.Alloc.HeapInv

/-!
# Growing the heap

`PagesOk` is what the heap relies on when it asks for a page. `growHeap_spec` turns a new page
into a hole, or makes the hole at the end longer; `expandHeap_spec` is the whole step. The used
blocks and their bytes stay.
-/

namespace RawOS

/-! ## Pages -/

variable {σ : Type}

/-- What the heap at `base` relies on when it grows. Page 0 exists, so the heap stops at the end
of the address space. A new page leaves the heap below it alone, except for the bytes in `E`.
`I e` holds of the pages and of the memory when the heap ends at `e`, and the heap may write its
own bytes, those in `E` apart, without harm to it. -/
structure PagesOk (env : PageEnv σ) (base : ℕ) (E : Set ℕ) (I : ℕ → σ → Mem → Prop) : Prop where
  zero : ∀ {e sys m r}, I e sys m → env.createPage 0 sys m ≠ .ok r
  step : ∀ {e sys m sys' m'}, I e sys m → e % 4096 = 0 → base ≤ e → e < 4294967296 →
    env.createPage (e / 4096) sys m = .ok (sys', m') →
    I (e + 4096) sys' m' ∧ ∀ x, base ≤ x → x < e → x ∉ E → m' x = m x
  stable : ∀ {e sys m m'}, I e sys m → (∀ x, x < base ∨ e ≤ x ∨ x ∈ E → m' x = m x) → I e sys m'

/-- The failures that are not the heap's. -/
def External (env : PageEnv σ) (e : Panic) : Prop :=
  e = poolExhausted ∨ ∃ page sys m, env.createPage page sys m = .error e

section

variable {env : PageEnv σ} {base : ℕ} {E : Set ℕ} {I : ℕ → σ → Mem → Prop} {s : HeapState σ}
  {bs : List Block}

theorem PoolFull.external {n : ℕ} {e : Panic} (h : PoolFull n e) : External env e := .inl h.1

/-! ## Growth -/

/-- The end of a heap that reaches the end of the address space is 0 as a pointer. -/
theorem u32Sub_u32 {a n : ℕ} (hn : n ≤ a) (ha : a ≤ 4294967296) (hn' : 0 < n) :
    u32Sub (u32 a) n = a - n := by
  unfold u32Sub u32
  omega

/-- What growing by a page does: the used blocks and their bytes stay. -/
structure Grown (base : ℕ) (bs : List Block) (s s' : HeapState σ) : Prop where
  inv : HeapInv base (expand (s.heap.initialAddr + s.heap.size) bs) s'.heap s'.mem
  size : s'.heap.size = s.heap.size + 4096
  sys : s'.sys = s.sys
  frame : ∀ x, x < base ∨ s.heap.initialAddr + s.heap.size + 4096 ≤ x ∨ Payload bs x →
    s'.mem x = s.mem x

/-- A page after a used block becomes a hole of its own. -/
theorem growHeap_used {xs : List Block} {b : Block} (h : HeapInv base (xs ++ [b]) s.heap s.mem)
    (hb : b.used = true) (hbe : b.next = s.heap.initialAddr + s.heap.size)
    (hlt : s.heap.initialAddr + s.heap.size < 4294967296) :
    Ends (growHeap env s) (Grown base (xs ++ [b]) s) (PoolFull (holes (xs ++ [b])).length) := by
  obtain ⟨hS, hsep⟩ := h
  obtain ⟨heap, m, sys⟩ := s
  dsimp only at hS hbe hlt ⊢
  have h0 := hS.initialAddr
  have hmod := hS.size_mod
  have hst := hS.stands b (by simp)
  have hbd := hS.mem_bounds (b := b) (by simp)
  obtain ⟨e, he⟩ : ∃ e, e = heap.initialAddr + heap.size := ⟨_, rfl⟩
  rw [← he] at hbe hlt hmod
  have hfoot : e - 8 = b.footer := by
    unfold Block.next Block.footer at *
    omega
  have hlast : footerHeader m (e - 8) = b.addr := hfoot ▸ hst.footer.header
  have hused : headerUsed m b.addr = 1 := by rw [hst.header.used, hb]; rfl
  have hsize : u32 (heap.size + 4096) = heap.size + 4096 := u32_of_lt (by omega)
  -- the new hole
  obtain ⟨c, hca, hcz, hcu⟩ : ∃ c : Block, c.addr = e ∧ c.size = 4076 ∧ c.used = false :=
    ⟨⟨e, 4076, false⟩, rfl, rfl, rfl⟩
  have hcn : c.next = e + 4096 := by
    unfold Block.next
    omega
  obtain ⟨m', hm'⟩ : ∃ m', m' = setFooterHeader (setFooterMagic (setHeaderUsed (setHeaderSize
    (setHeaderMagic m e) e 4076) e 0) (e + 4088)) (e + 4088) e := ⟨_, rfl⟩
  have hfr : ∀ x, x < e ∨ e + 4096 ≤ x → m' x = m x := fun x hx => by
    rw [hm']
    simp (disch := omega) only [setFooterHeader_of_outside, setFooterMagic_of_outside,
      setHeaderUsed_of_outside, setHeaderSize_of_outside, setHeaderMagic_of_outside]
  have hcs : c.Stands m' := by
    constructor
    · rw [hm', hca, hcz, hcu]
      refine (headerAt_set (v := 4076) m e (by omega) false).congr fun x _ _ => ?_
      simp (disch := omega) only [setFooterHeader_of_outside, setFooterMagic_of_outside]
      rfl
    · rw [hm', hca, show c.footer = e + 4088 by unfold Block.footer; omega]
      exact footerAt_set _ _ hlt
  have hshape : HeapShape base ((xs ++ [b]) ++ [c]) (holes (xs ++ [b]))
      { heap with size := heap.size + 4096 } m' := by
    have hS' : HeapShape base ((xs ++ [b]) ++ []) (holes (xs ++ [b])) heap m := by
      rw [List.append_nil]
      exact hS
    refine hS'.grow (he ▸ hS.tiles) rfl (by omega) ⟨hca, ?_⟩ (by simpa using hcs)
      (fun x _ hx => hfr x (.inl hx)) (hS.avl.congr fun x _ hx => hfr x (by omega))
    rw [hcn, tiles_nil]
    omega
  have hkey : c.key ∉ holes (xs ++ [b]) :=
    HeapShape.key_not_mem hS.tiles (.inr (by rw [hca, ← he]))
  have hins := hshape.insert env (s := ⟨{ heap with size := heap.size + 4096 }, m', sys⟩)
    (k := c.key) (by rw [Block.key_size]; omega) (by rw [Block.key_addr]; omega) hkey
  have hcsize : headerSize m' e = 4076 := by rw [← hca, hcs.header.size, hcz]
  -- the run
  unfold growHeap
  simp only [sizeofFooter, sizeofHeader, pageSize, ← he]
  rw [u32Sub_u32 (by omega) (by omega) (by omega), hlast, hused, if_pos (by decide), hsize,
    Nat.sub_add_cancel (by omega), u32_of_lt hlt, u32Sub_u32 (by omega) (by omega) (by omega)]
  have hm4 : e + 4096 - 8 = e + 4088 := by omega
  have ha12 : u32 (e + 12) = e + 12 := u32_of_lt (by omega)
  have hz : (4096 - 12 - 8 : ℕ) = 4076 := rfl
  rw [hm4, ha12, hz, ← hm', hcsize, ← hcz, ← hca]
  refine hins.mono ?_ fun _ h => h
  rintro _ ⟨avl, m₂, rfl, hsh, hf⟩
  have hexp : expand e (xs ++ [b]) = (xs ++ [b]) ++ [c] := by
    have hc : c = ⟨e, 4076, false⟩ := Block.ext hca hcz hcu
    rw [expand_used hb, hc]
  refine ⟨⟨?_, ?_⟩, rfl, rfl, fun x hx => ?_⟩
  · rw [← he, hexp]
    refine hsh.perm_keys ?_
    rw [show holes ((xs ++ [b]) ++ [c]) = holes (xs ++ [b]) ++ holes [c] from holes_append,
      holes_cons_free hcu]
    exact (List.perm_append_singleton _ _).symm
  · -- the block before the new hole is the last one
    rw [← he, hexp]
    refine separated_hole (hca ▸ he ▸ hS.tiles) (tiles_nil.mpr rfl) (by simpa using hsep)
      (fun x hx hxn => ?_) fun y hy => absurd hy List.not_mem_nil
    rcases hS.tiles.apart hx (c := b) (by simp) with rfl | h | h
    · exact hb
    all_goals
      unfold Block.next at *
      omega
  · have hx' : x < base ∨ e + 4096 ≤ x ∨ Payload (xs ++ [b]) x := he ▸ hx
    have hout : (x < base ∨ base + 65536 ≤ x) ∧ (x < e ∨ e + 4096 ≤ x) := by
      rcases hx' with h | h | h
      · omega
      · omega
      · have := hS.tiles.payload h
        omega
    exact (hf x hout.1).trans (hfr x hout.2)

/-- A page after a hole makes it longer. Its node goes back to the pool, so there is one for the new
key. -/
theorem growHeap_free (env : PageEnv σ) {xs : List Block} {b : Block}
    (h : HeapInv base (xs ++ [b]) s.heap s.mem) (hb : b.used = false)
    (hbe : b.next = s.heap.initialAddr + s.heap.size)
    (hlt : s.heap.initialAddr + s.heap.size < 4294967296) :
    ∃ s', growHeap env s = .ok s' ∧ Grown base (xs ++ [b]) s s' := by
  have hpool := h.holes_le
  obtain ⟨hS, hsep⟩ := h
  obtain ⟨heap, m, sys⟩ := s
  dsimp only at hS hbe hlt ⊢
  have h0 := hS.initialAddr
  have hmod := hS.size_mod
  have hst := hS.stands b (by simp)
  have hbd := hS.mem_bounds (b := b) (by simp)
  obtain ⟨hxs, -⟩ := hS.tiles.around
  obtain ⟨e, he⟩ : ∃ e, e = heap.initialAddr + heap.size := ⟨_, rfl⟩
  rw [← he] at hbe hlt hmod hbd
  have hbn : b.addr + b.size + 20 = e := hbe
  have hfoot : e - 8 = b.footer := by
    unfold Block.footer
    omega
  have hlast : footerHeader m (e - 8) = b.addr := hfoot ▸ hst.footer.header
  have hused : headerUsed m b.addr = 0 := by rw [hst.header.used, hb]; rfl
  have hsize : u32 (heap.size + 4096) = heap.size + 4096 := u32_of_lt (by omega)
  obtain ⟨c, hca, hcz, hcu⟩ : ∃ c : Block, c.addr = b.addr ∧ c.size = b.size + 4096 ∧
      c.used = false := ⟨⟨b.addr, b.size + 4096, false⟩, rfl, rfl, rfl⟩
  have hcn : c.next = e + 4096 := by
    unfold Block.next
    omega
  have hcf : c.footer = e + 4088 := by
    unfold Block.footer
    omega
  -- the new footer
  obtain ⟨m₁, hm₁⟩ : ∃ m₁, m₁ = setFooterHeader (setFooterMagic m (e + 4088)) (e + 4088) b.addr :=
    ⟨_, rfl⟩
  have hfr₁ : ∀ x, x < e + 4088 ∨ e + 4096 ≤ x → m₁ x = m x := fun x hx => by
    rw [hm₁]
    simp (disch := omega) only [setFooterHeader_of_outside, setFooterMagic_of_outside]
  have hhead₁ : HeaderAt m₁ b.addr b.size b.used := hst.header.congr fun x _ _ =>
    hfr₁ x (by omega)
  -- the old key
  have hkeys : (holes (xs ++ [b])).Perm (b.key :: holes xs) := by
    rw [holes_append, holes_cons_free hb]
    exact List.perm_append_singleton _ _
  rw [hkeys.length_eq, List.length_cons] at hpool
  obtain ⟨avl, m₂, hrem, havl, hfr₂⟩ := ((hS.avl.of_perm hkeys).congr fun x _ hx =>
    hfr₁ x (by omega)).remove env (s := ⟨{ heap with size := heap.size + 4096 }, m₁, sys⟩)
  dsimp only at hrem hfr₂
  have hhead₂ : HeaderAt m₂ b.addr b.size b.used := hhead₁.congr fun x _ _ => hfr₂ x (by omega)
  -- the new size
  obtain ⟨m₃, hm₃⟩ : ∃ m₃, m₃ = setHeaderSize m₂ b.addr (b.size + 4096) := ⟨_, rfl⟩
  have hfr₃ : ∀ x, x < b.addr ∨ b.addr + 12 ≤ x → m₃ x = m₂ x := fun x hx => by
    rw [hm₃, setHeaderSize_of_outside hx]
  have hcs : c.Stands m₃ := by
    constructor
    · rw [hm₃, hca, hcz, hcu, ← hb]
      exact hhead₂.setSize (by omega)
    · rw [hcf, hca]
      have hf₁ : FooterAt m₁ (e + 4088) b.addr := hm₁ ▸ footerAt_set _ _ (by omega)
      exact hf₁.congr fun x _ _ => (hfr₃ x (by omega)).trans (hfr₂ x (by omega))
  have hshape : HeapShape base (xs ++ [c]) (holes xs)
      { heap with size := heap.size + 4096, avl := avl } m₃ := by
    refine hS.grow hxs rfl (by omega) ⟨hca, ?_⟩ (by simpa using hcs) (fun x h₁ h₂ => ?_)
      (havl.congr fun x _ hx => hfr₃ x (by omega))
    · rw [hcn, tiles_nil]
      omega
    · rw [hfr₃ x (by omega), hfr₂ x (by omega), hfr₁ x (by omega)]
  have hkey : c.key ∉ holes xs := HeapShape.key_not_mem hxs (.inr hca.ge)
  have hins := hshape.insert env
    (s := ⟨{ heap with size := heap.size + 4096, avl := avl }, m₃, sys⟩) (k := c.key)
    (by rw [Block.key_size]; omega) (by rw [Block.key_addr]; omega) hkey
  -- the run
  unfold growHeap
  simp only [sizeofFooter, sizeofHeader, pageSize, ← he]
  have hend : heap.initialAddr + (heap.size + 4096) = e + 4096 := by omega
  have hm4 : e + 4096 - 8 = e + 4088 := by omega
  have hb12 : u32 (b.addr + 12) = b.addr + 12 := u32_of_lt (by omega)
  have hb4 : u32 (b.size + 4096) = b.size + 4096 := u32_of_lt (by omega)
  rw [u32Sub_u32 (by omega) (by omega) (by omega), hlast, hused, if_neg (by simp), hsize, hend,
    u32Sub_u32 (by omega) (by omega) (by omega), hm4, ← hm₁, hhead₁.size, hb12]
  have hkb : heapAvlRemove env ⟨{ heap with size := heap.size + 4096 }, m₁, sys⟩ b.size
      (b.addr + 12) = _ := hrem
  rw [hkb, ok_bind]
  dsimp only
  rw [hhead₂.size, hb4, ← hm₃, show headerSize m₃ b.addr = c.size by
    rw [← hca]; exact hcs.header.size, ← hca]
  obtain ⟨_, hins, avl', m₄, rfl, hsh, hf⟩ := hins.exists_ok fun e h => absurd h.2 (by omega)
  refine ⟨_, hins, ?_⟩
  have hexp : expand e (xs ++ [b]) = xs ++ [c] := by
    have hc : c = { b with size := b.size + 4096 } := Block.ext hca hcz (hcu.trans hb.symm)
    rw [expand_free hb, hc]
  refine ⟨⟨?_, ?_⟩, rfl, rfl, fun x hx => ?_⟩
  · rw [← he, hexp]
    refine hsh.perm_keys ?_
    rw [holes_append, holes_cons_free hcu]
    exact (List.perm_append_singleton _ _).symm
  · -- the block before the hole is used, as it was
    rw [← he, hexp]
    refine separated_hole (hca ▸ hxs) (tiles_nil.mpr rfl) (fun x hx y hy => ?_) (fun x hx hxn => ?_)
      fun y hy => absurd hy List.not_mem_nil
    · rw [List.append_nil] at hx hy
      exact hsep x (by simp [hx]) y (by simp [hy])
    · simpa [hb] using hsep x (by simp [hx]) b (by simp) (hxn.trans hca)
  · have hx' : x < base ∨ e + 4096 ≤ x ∨ Payload (xs ++ [b]) x := he ▸ hx
    have hout : (x < base ∨ base + 65536 ≤ x) ∧ (x < b.addr ∨ e + 4096 ≤ x) := by
      rcases hx' with h | h | h
      · omega
      · omega
      · have h₁ := hS.tiles.payload h
        have h₂ := hS.tiles.payload_apart (b := b) (by simp) hb h
        omega
    calc m₄ x = m₃ x := hf x hout.1
      _ = m₂ x := hfr₃ x (by omega)
      _ = m₁ x := hfr₂ x hout.1
      _ = m x := hfr₁ x (by omega)

/-- The tree has no node left, and the block at the end of the heap is in use. -/
def GrowthFull (bs : List Block) (heap : KallocHeap) (e : Panic) : Prop :=
  PoolFull (holes bs).length e ∧
    ∀ b ∈ bs, b.next = heap.initialAddr + heap.size → b.used = true

/-- Growing by a page, where the page is there. -/
theorem growHeap_spec (h : HeapInv base bs s.heap s.mem)
    (hlt : s.heap.initialAddr + s.heap.size < 4294967296) :
    Ends (growHeap env s) (Grown base bs s) (GrowthFull bs s.heap) := by
  have hpos := h.shape.nonempty
  obtain ⟨xs, b, rfl, hxs, hbe⟩ := h.shape.tiles.last (by omega)
  cases hb : b.used with
  | true =>
    refine (growHeap_used h hb hbe hlt).mono (fun _ h => h) fun e he => ⟨he, fun c hc hce => ?_⟩
    rcases h.shape.tiles.apart hc (c := b) (by simp) with rfl | hcb | hcb
    · exact hb
    all_goals
      unfold Block.next at *
      omega
  | false =>
    obtain ⟨s', hrun, hg⟩ := growHeap_free env h hb hbe hlt
    rw [hrun]
    exact hg

/-- What the expansion of the heap does. -/
structure Expanded (base : ℕ) (E : Set ℕ) (I : ℕ → σ → Mem → Prop) (bs : List Block)
    (s s' : HeapState σ) : Prop where
  inv : HeapInv base (expand (s.heap.initialAddr + s.heap.size) bs) s'.heap s'.mem
  size : s'.heap.size = s.heap.size + 4096
  pages : I (s'.heap.initialAddr + s'.heap.size) s'.sys s'.mem
  frame : ∀ x, Payload bs x → x ∉ E → s'.mem x = s.mem x

theorem expandHeap_spec (hP : PagesOk env base E I) (h : HeapInv base bs s.heap s.mem)
    (hI : I (s.heap.initialAddr + s.heap.size) s.sys s.mem) (hE : ∀ x ∈ E, Payload bs x) :
    Ends (expandHeap env s) (Expanded base E I bs s) (fun e => GrowthFull bs s.heap e ∨
      env.createPage (u32 (s.heap.initialAddr + s.heap.size) / 4096) s.sys s.mem = .error e) := by
  obtain ⟨heap, m, sys⟩ := s
  dsimp only at h hI hE ⊢
  have h0 := h.shape.initialAddr
  have hmod := h.shape.size_mod
  unfold expandHeap
  cases hcr : env.createPage (u32 (heap.initialAddr + heap.size) / pageSize) sys m with
  | error e => exact .inr hcr
  | ok r =>
    obtain ⟨sys', m₁⟩ := r
    have hlt : heap.initialAddr + heap.size < 4294967296 := by
      refine lt_of_le_of_ne h.shape.fits fun heq => ?_
      rw [heq] at hcr
      exact hP.zero hI hcr
    rw [u32_of_lt hlt] at hcr
    obtain ⟨hI', hfr⟩ := hP.step hI hmod (by omega) hlt hcr
    have h₁ : HeapInv base bs heap m₁ :=
      ⟨h.shape.congr fun x h₁ h₂ hp => hfr x h₁ h₂ fun hx => hp (hE x hx), h.separated⟩
    refine (growHeap_spec (s := ⟨heap, m₁, sys'⟩) h₁ hlt).mono ?_ fun _ h => .inl h
    intro s' hg
    refine ⟨hg.inv, hg.size, ?_, fun x hx hxe => ?_⟩
    · rw [hg.inv.shape.initialAddr, hg.size, hg.sys, ← h0, ← Nat.add_assoc]
      exact hP.stable hI' fun x hx => hg.frame x (hx.imp_right fun h => h.imp_right (hE x))
    · have hbd := h.shape.tiles.payload hx
      rw [hg.frame x (.inr (.inr hx))]
      exact hfr x (by omega) hbd.2 hxe

end

end RawOS
