import RawOS.Alloc.HeapGrow
import Mathlib.Data.Nat.Bitwise

/-!
# `kalloc_heap_alloc` keeps the heap

1. `alignedAddress_fits`: where a hole passes the test of `hole_has_alignment_space`, the aligned
   address lies in it. The test adds in 32 bits, so the block may still be too short: this needs
   a size and an alignment of more than `2 ^ 32` together.
2. `splitHole_exact`, `splitHole_split`: a hole becomes a block, and perhaps a smaller hole.
3. `alignHole_spec`: the space before the aligned address goes to the previous block.
4. `kallocHeapAlloc_spec`: all of it. The only failures are those of the pages and of the pool.
-/

namespace RawOS

/-! ## Alignment -/

/-- No alignment, or a power of two. -/
def ValidAlignment (alignment : ℕ) : Prop := alignment = 0 ∨ ∃ i < 32, alignment = 2 ^ i

theorem and_mask {a i : ℕ} (ha : a < 4294967296) (hi : i < 32) :
    a &&& (4294967295 - (2 ^ i - 1)) = a - a % 2 ^ i := by
  have hmask : 4294967295 - (2 ^ i - 1) = (2 ^ (32 - i) - 1) <<< i := by
    rw [Nat.shiftLeft_eq, Nat.sub_mul, ← pow_add, Nat.sub_add_cancel hi.le]
    have := Nat.pow_le_pow_right (show 0 < 2 by omega) hi.le
    have := Nat.two_pow_pos i
    omega
  have hsub : a - a % 2 ^ i = (a / 2 ^ i) <<< i := by
    rw [Nat.shiftLeft_eq]
    have := Nat.div_add_mod' a (2 ^ i)
    omega
  rw [hmask, hsub]
  refine Nat.eq_of_testBit_eq fun j => ?_
  rw [Nat.testBit_and, Nat.testBit_shiftLeft, Nat.testBit_shiftLeft, Nat.testBit_two_pow_sub_one,
    Nat.testBit_div_two_pow]
  by_cases hj : i ≤ j
  · rw [Nat.sub_add_cancel hj]
    by_cases hj' : j < 32
    · simp [hj, show j - i < 32 - i by omega]
    · have hbit : a.testBit j = false := Nat.testBit_lt_two_pow <|
        lt_of_lt_of_le ha (Nat.pow_le_pow_right (n := 2) (by omega) (show 32 ≤ j by omega))
      simp [hbit]
  · simp [hj]

theorem getAlignedAddress_eq {a i : ℕ} (ha : a < 4294967296) (hi : i < 32) :
    getAlignedAddress a (2 ^ i) = if a % 2 ^ i = 0 then a else u32 (a - a % 2 ^ i + 2 ^ i) := by
  unfold getAlignedAddress
  rw [if_pos (Nat.two_pow_pos i).ne', Nat.and_two_pow_sub_one_eq_mod, and_mask ha hi]
  split_ifs <;> simp_all

/-- Where a hole passes the test, the aligned address lies in it. -/
theorem alignedAddress_fits {k : Hole} {wanted alignment : ℕ} (hv : ValidAlignment alignment)
    (hw : wanted ≤ k.size) (hend : k.addr + k.size + 8 ≤ 4294967296)
    (hf : k.fits wanted alignment) :
    ∃ d, getAlignedAddress k.addr alignment = k.addr + d ∧ d ≤ k.size ∧
      (alignment ≠ 0 → alignment ∣ k.addr + d) ∧ (d ≠ 0 → alignment ≠ 0) ∧
      (wanted + d ≤ k.size ∨ alignment ≠ 0 ∧ 4294967296 < wanted + alignment) := by
  unfold Hole.fits at hf
  rcases hv with rfl | ⟨i, hi, rfl⟩
  · exact ⟨0, rfl, by omega, fun h => absurd rfl h, fun h => absurd rfl h, .inl hw⟩
  have hA : 2 ^ i ≤ 2 ^ 31 := Nat.pow_le_pow_right (by omega) (by omega)
  have hA0 : 0 < 2 ^ i := Nat.two_pow_pos i
  have hmod : k.addr % 2 ^ i < 2 ^ i := Nat.mod_lt _ hA0
  have hdiv : 2 ^ i ∣ k.addr - k.addr % 2 ^ i := Nat.dvd_sub_mod _
  have hle : k.addr % 2 ^ i ≤ k.addr := Nat.mod_le _ _
  rw [getAlignedAddress_eq (by omega) hi] at hf ⊢
  generalize hA' : 2 ^ i = A at *
  by_cases hr : k.addr % A = 0
  · exact ⟨0, if_pos hr, by omega, fun _ => Nat.dvd_of_mod_eq_zero hr, fun h => absurd rfl h,
      .inl hw⟩
  rw [if_neg hr] at hf ⊢
  -- the next multiple is at most `2 ^ 32`, which is one
  have hnext : k.addr - k.addr % A + A ≤ 4294967296 := by
    obtain ⟨x, hx⟩ := hdiv
    obtain ⟨y, hy⟩ : A ∣ 4294967296 :=
      hA' ▸ Nat.pow_dvd_pow 2 hi.le
    rw [hx, hy, ← Nat.mul_succ]
    refine Nat.mul_le_mul_left A (Nat.lt_of_mul_lt_mul_left (a := A) ?_)
    omega
  by_cases hlt : k.addr - k.addr % A + A < 4294967296
  · have hsub := u32Sub_of_le (show k.addr ≤ k.addr - k.addr % A + A by omega) hlt
    rw [u32_of_lt hlt, hsub] at hf
    refine ⟨A - k.addr % A, by rw [u32_of_lt hlt]; omega, ?_, fun _ => ?_, fun _ => hA0.ne', ?_⟩
    · unfold u32 at hf
      omega
    · rw [show k.addr + (A - k.addr % A) = k.addr - k.addr % A + A by omega]
      exact Nat.dvd_add hdiv (Nat.dvd_refl A)
    · unfold u32 at hf
      omega
  · exfalso
    rw [show k.addr - k.addr % A + A = 4294967296 by omega] at hf
    unfold u32Sub u32 at hf
    omega

section

variable {σ : Type} {env : PageEnv σ} {base : ℕ} {E : Set ℕ} {I : ℕ → σ → Mem → Prop}
  {s : HeapState σ} {bs xs ys : List Block} {b : Block} {size alignment : ℕ}

/-! ## Taking a hole -/

/-- The hole `b` between `xs` and `ys` became a block for `size` bytes. -/
structure Taken (base : ℕ) (xs : List Block) (b : Block) (ys : List Block) (size : ℕ)
    (s s' : HeapState σ) : Prop where
  inv : HeapInv base (xs ++ b.take size ++ ys) s'.heap s'.mem
  heapSize : s'.heap.size = s.heap.size
  sys : s'.sys = s.sys
  frame : ∀ x, x < base ∨ base + 65536 ≤ x → x < b.addr ∨ b.next ≤ x → s'.mem x = s.mem x

theorem splitHole_exact (env : PageEnv σ)
    (h : HeapShape base (xs ++ b :: ys) (holes xs ++ holes ys) s.heap s.mem)
    (hsep : Separated (xs ++ b :: ys)) (hb : b.used = false) (hsize : size + 20 < 4294967296)
    (hno : ¬ size + 20 < b.size) :
    ∃ s', splitHole env s b.addr b.size size = .ok s' ∧ Taken base xs b ys size s s' := by
  have hst := h.stands b (by simp)
  obtain ⟨c, hca, hcz, hcu⟩ : ∃ c : Block, c.addr = b.addr ∧ c.size = b.size ∧ c.used = true :=
    ⟨⟨b.addr, b.size, true⟩, rfl, rfl, rfl⟩
  have htake : b.take size = [c] := by
    rw [Block.take, if_neg hno, show c = ⟨b.addr, b.size, true⟩ from Block.ext hca hcz hcu]
  have hfr : ∀ x, x < b.addr ∨ b.addr + 12 ≤ x → setHeaderUsed s.mem b.addr 1 x = s.mem x :=
    fun x hx => setHeaderUsed_of_outside hx
  have hcs : c.Stands (setHeaderUsed s.mem b.addr 1) := by
    constructor
    · rw [hca, hcz, hcu]
      exact hst.header.setUsed true
    · rw [hca, show c.footer = b.footer by unfold Block.footer; rw [hca, hcz]]
      refine hst.footer.congr fun x hx _ => hfr x (.inr ?_)
      unfold Block.footer at hx
      omega
  have hshape : HeapShape base (xs ++ b.take size ++ ys) (holes xs ++ holes ys) s.heap
      (setHeaderUsed s.mem b.addr 1) := by
    have h' : HeapShape base (xs ++ [b] ++ ys) (holes xs ++ holes ys) s.heap s.mem := by
      simpa using h
    refine h'.replace (show Tiles b.addr [b] b.next from ⟨rfl, rfl⟩) (by simp) tiles_take
      (by simpa [htake] using hcs) fun x hx => hfr x ?_
    unfold Block.next at hx
    omega
  refine ⟨⟨s.heap, setHeaderUsed s.mem b.addr 1, s.sys⟩, ?_, ⟨hshape.perm_keys ?_,
    separated_take h.tiles hsep hb⟩, rfl, rfl, fun x _ hx => hfr x ?_⟩
  · unfold splitHole sizeofHeader sizeofFooter
    rw [hst.header.size, u32_of_lt hsize, if_neg hno]
  · rw [holes_append, holes_append, holes_take, if_neg hno, List.append_nil]
  · unfold Block.next at hx
    omega

theorem splitHole_split (h : HeapShape base (xs ++ b :: ys) (holes xs ++ holes ys) s.heap s.mem)
    (hsep : Separated (xs ++ b :: ys)) (hb : b.used = false) (hsize : size + 20 < b.size) :
    Ends (splitHole env s b.addr b.size size) (Taken base xs b ys size s)
      (PoolFull (holes xs ++ holes ys).length) := by
  have hst := h.stands b (by simp)
  have hbd := h.next_le (b := b) (by simp)
  have hb0 := h.mem_bounds (b := b) (by simp)
  obtain ⟨hxs, hys⟩ := h.tiles.around
  -- the block and the hole after it
  obtain ⟨c, hca, hcz, hcu⟩ : ∃ c : Block, c.addr = b.addr ∧ c.size = size ∧ c.used = true :=
    ⟨⟨b.addr, size, true⟩, rfl, rfl, rfl⟩
  obtain ⟨d, hda, hdz, hdu⟩ : ∃ d : Block, d.addr = b.addr + size + 20 ∧
      d.size = b.size - size - 20 ∧ d.used = false :=
    ⟨⟨b.addr + size + 20, b.size - size - 20, false⟩, rfl, rfl, rfl⟩
  have htake : b.take size = [c, d] := by
    rw [Block.take, if_pos hsize, show c = ⟨b.addr, size, true⟩ from Block.ext hca hcz hcu,
      show d = ⟨b.addr + size + 20, b.size - size - 20, false⟩ from Block.ext hda hdz hdu]
  have hcf : c.footer = b.addr + 12 + size := by unfold Block.footer; omega
  have hdf : d.footer = b.footer := by unfold Block.footer; omega
  have hbf : b.footer = b.addr + 12 + b.size := rfl
  have hbn : b.next = b.addr + b.size + 20 := rfl
  obtain ⟨m₁, hm₁⟩ : ∃ m₁, m₁ = setHeaderUsed (setHeaderSize s.mem b.addr size) b.addr 1 :=
    ⟨_, rfl⟩
  obtain ⟨m₂, hm₂⟩ : ∃ m₂, m₂ = setFooterHeader (setFooterMagic m₁ c.footer) c.footer b.addr :=
    ⟨_, rfl⟩
  obtain ⟨m₃, hm₃⟩ : ∃ m₃, m₃ = setHeaderUsed (setHeaderSize (setHeaderMagic m₂ d.addr) d.addr
      d.size) d.addr 0 := ⟨_, rfl⟩
  obtain ⟨m₄, hm₄⟩ : ∃ m₄, m₄ = setFooterHeader m₃ b.footer d.addr := ⟨_, rfl⟩
  have hfr₁ : ∀ x, x < b.addr ∨ b.addr + 12 ≤ x → m₁ x = s.mem x := fun x hx => by
    rw [hm₁, setHeaderUsed_of_outside hx, setHeaderSize_of_outside hx]
  have hfr₂ : ∀ x, x < c.footer ∨ c.footer + 8 ≤ x → m₂ x = m₁ x := fun x hx => by
    rw [hm₂, setFooterHeader_of_outside hx, setFooterMagic_of_outside hx]
  have hfr₃ : ∀ x, x < d.addr ∨ d.addr + 12 ≤ x → m₃ x = m₂ x := fun x hx => by
    rw [hm₃, setHeaderUsed_of_outside hx, setHeaderSize_of_outside hx, setHeaderMagic_of_outside hx]
  have hfr₄ : ∀ x, x < b.footer ∨ b.footer + 8 ≤ x → m₄ x = m₃ x := fun x hx => by
    rw [hm₄, setFooterHeader_of_outside hx]
  have hfr : ∀ x, x < b.addr ∨ b.next ≤ x → m₄ x = s.mem x := fun x hx =>
    calc m₄ x = m₃ x := hfr₄ x (by omega)
      _ = m₂ x := hfr₃ x (by omega)
      _ = m₁ x := hfr₂ x (by omega)
      _ = s.mem x := hfr₁ x (by omega)
  have hcs : c.Stands m₄ := by
    have hh : HeaderAt m₁ b.addr size true := hm₁ ▸ (hst.header.setSize (by omega)).setUsed true
    have hf : FooterAt m₂ c.footer b.addr := hm₂ ▸ footerAt_set _ _ (by omega)
    constructor
    · rw [hca, hcz, hcu]
      refine hh.congr fun x _ _ => ?_
      rw [hfr₄ x (by omega), hfr₃ x (by omega), hfr₂ x (by omega)]
    · rw [hca]
      refine hf.congr fun x _ _ => ?_
      rw [hfr₄ x (by omega), hfr₃ x (by omega)]
  have hds : d.Stands m₄ := by
    have hh : HeaderAt m₃ d.addr d.size false := hm₃ ▸ headerAt_set _ _ (by omega) false
    have hf : FooterAt m₃ b.footer b.addr := by
      refine hst.footer.congr fun x _ _ => ?_
      rw [hfr₃ x (by omega), hfr₂ x (by omega), hfr₁ x (by omega)]
    constructor
    · rw [hdu]
      exact hh.congr fun x _ _ => hfr₄ x (by omega)
    · rw [hdf, hm₄]
      exact hf.setHeader (by omega)
  have hshape : HeapShape base (xs ++ b.take size ++ ys) (holes xs ++ holes ys) s.heap m₄ := by
    have h' : HeapShape base (xs ++ [b] ++ ys) (holes xs ++ holes ys) s.heap s.mem := by
      simpa using h
    exact h'.replace (show Tiles b.addr [b] b.next from ⟨rfl, rfl⟩) (by simp) tiles_take
      (by simp [htake, hcs, hds]) hfr
  have hkey : d.key ∉ holes xs ++ holes ys := by
    rw [List.mem_append, not_or]
    exact ⟨HeapShape.key_not_mem hxs (.inr (by omega)),
      HeapShape.key_not_mem hys (.inl (by omega))⟩
  have hins := hshape.insert env (s := ⟨s.heap, m₄, s.sys⟩) (k := d.key)
    (by rw [Block.key_size]; omega) (by rw [Block.key_addr]; omega) hkey
  -- the run
  unfold splitHole
  simp only [sizeofHeader, sizeofFooter, hst.header.size]
  have h20 : u32 (size + 12 + 8) = size + 20 := u32_of_lt (by omega)
  have hcf' : u32 (b.addr + 12 + size) = c.footer := by rw [hcf]; exact u32_of_lt (by omega)
  have hda' : u32 (c.footer + 8) = d.addr := by rw [u32_of_lt (by omega)]; omega
  have hbf' : u32 (b.addr + 12 + b.size) = b.footer := u32_of_lt (by omega)
  have hdz' : u32Sub (u32Sub (u32Sub b.size size) 12) 8 = d.size := by
    unfold u32Sub
    omega
  have hd12 : u32 (d.addr + 12) = d.addr + 12 := u32_of_lt (by omega)
  rw [h20, if_pos hsize, hcf', hda', hbf', hdz', ← hm₁, ← hm₂, ← hm₃, ← hm₄, hds.header.size, hd12]
  refine hins.mono ?_ fun _ h => h
  rintro _ ⟨avl, m', rfl, hsh, hf⟩
  refine ⟨⟨hsh.perm_keys ?_, separated_take h.tiles hsep hb⟩, rfl, rfl, fun x hx hx' => ?_⟩
  · rw [htake, holes_append, holes_append, holes_cons_used hcu, holes_cons_free hdu]
    simpa using List.perm_middle.symm
  · exact (hf x hx).trans (hfr x hx')

theorem splitHole_spec (env : PageEnv σ) (size : ℕ)
    (h : HeapShape base (xs ++ b :: ys) (holes xs ++ holes ys) s.heap s.mem)
    (hsep : Separated (xs ++ b :: ys)) (hb : b.used = false) (hsize : size + 20 < 4294967296) :
    Ends (splitHole env s b.addr b.size size) (Taken base xs b ys size s)
      (PoolFull (holes xs ++ holes ys).length) := by
  by_cases hlt : size + 20 < b.size
  · exact splitHole_split h hsep hb hlt
  · obtain ⟨s', hrun, ht⟩ := splitHole_exact env h hsep hb hsize hlt
    rw [hrun]
    exact ht

/-! ## Alignment of a hole -/

/-- The space before the aligned address goes to the previous block `p`: its header and its
footer, and the footer of the hole `b`, are rewritten. -/
theorem alignHole_spec {m : Mem} {initialAddr d : ℕ} {p b : Block} (hp : p.Stands m)
    (hb : b.Stands m) (hpb : p.next = b.addr) (hbn : b.next ≤ 4294967296)
    (hfirst : b.addr ≠ initialAddr) (hd : 0 < d) (hdb : d ≤ b.size) :
    ∃ m', alignHole m initialAddr b.addr b.user (b.user + d) b.size = .ok (m', b.size - d) ∧
      HeaderAt m' p.addr (p.size + d) p.used ∧ FooterAt m' (b.addr + d - 8) p.addr ∧
      FooterAt m' b.footer (b.addr + d) ∧
      ∀ x, (x < p.addr ∨ p.addr + 12 ≤ x) → (x < b.addr + d - 8 ∨ b.addr + d ≤ x) →
        (x < b.footer ∨ b.footer + 8 ≤ x) → m' x = m x := by
  unfold Block.next at hpb hbn
  have hpf : p.footer = b.addr - 8 := by unfold Block.footer; omega
  have hbf : b.footer = b.addr + 12 + b.size := rfl
  have hbu : b.user = b.addr + 12 := rfl
  obtain ⟨m₁, hm₁⟩ : ∃ m₁, m₁ = setHeaderSize m p.addr (p.size + d) := ⟨_, rfl⟩
  obtain ⟨m₂, hm₂⟩ : ∃ m₂, m₂ = setFooterMagic (setFooterHeader m₁ (b.addr + d - 8) p.addr)
      (b.addr + d - 8) := ⟨_, rfl⟩
  obtain ⟨m₃, hm₃⟩ : ∃ m₃, m₃ = setFooterHeader m₂ b.footer (b.addr + d) := ⟨_, rfl⟩
  have hfr₁ : ∀ x, x < p.addr ∨ p.addr + 12 ≤ x → m₁ x = m x := fun x hx => by
    rw [hm₁, setHeaderSize_of_outside hx]
  have hfr₂ : ∀ x, x < b.addr + d - 8 ∨ b.addr + d ≤ x → m₂ x = m₁ x := fun x hx => by
    rw [hm₂, setFooterMagic_of_outside (by omega), setFooterHeader_of_outside (by omega)]
  have hfr₃ : ∀ x, x < b.footer ∨ b.footer + 8 ≤ x → m₃ x = m₂ x := fun x hx => by
    rw [hm₃, setFooterHeader_of_outside hx]
  refine ⟨m₃, ?_, ?_, ?_, ?_, fun x h₁ h₂ h₃ => ?_⟩
  · unfold alignHole sizeofHeader sizeofFooter
    have hfoot : u32 (b.addr + 12 + headerSize m b.addr) = b.footer := by
      rw [hb.header.size]
      exact u32_of_lt (by omega)
    have hprev : u32Sub b.addr 8 = p.footer := by rw [u32Sub_of_le (by omega) (by omega), hpf]
    have halign : u32Sub (b.user + d) 12 = b.addr + d := by
      rw [u32Sub_of_le (by omega) (by omega)]
      omega
    have hnew : u32Sub (b.addr + d) 8 = b.addr + d - 8 := u32Sub_of_le (by omega) (by omega)
    have hdiff : u32Sub (b.addr + d - 8) p.footer = d := by
      rw [u32Sub_of_le (by omega) (by omega)]
      omega
    have hdiff' : u32Sub (b.user + d) b.user = d := by
      rw [u32Sub_of_le (by omega) (by omega)]
      omega
    dsimp only
    rw [if_pos (by omega), assert_of_true hfirst, ok_bind, halign, hprev, hnew,
      assert_of_true (by omega), ok_bind,
      hp.footer.header, hp.header.size, hdiff, hfoot, hdiff', u32Sub_of_le hdb (by omega),
      u32_of_lt (show p.size + d < 4294967296 by omega), ← hm₁, ← hm₂, ← hm₃]
    rfl
  · have hh : HeaderAt m₁ p.addr (p.size + d) p.used := hm₁ ▸ hp.header.setSize (by omega)
    refine hh.congr fun x _ _ => ?_
    rw [hfr₃ x (by omega), hfr₂ x (by omega)]
  · have hf : FooterAt m₂ (b.addr + d - 8) p.addr := hm₂ ▸ footerAt_set' _ _ (by omega)
    exact hf.congr fun x _ _ => hfr₃ x (by omega)
  · have hf : FooterAt m₂ b.footer b.addr := hb.footer.congr fun x _ _ => by
      rw [hfr₂ x (by omega), hfr₁ x (by omega)]
    exact hm₃ ▸ hf.setHeader (by omega)
  · rw [hfr₃ x h₃, hfr₂ x h₂, hfr₁ x h₁]

/-- `kalloc_heap_alloc` where a hole is found, up to the split: the hole starts at the aligned
address, and the space before it goes to the block before it. -/
theorem moveHole_spec {ks : List Hole} {heap : KallocHeap} {m : Mem} {d : ℕ}
    (h : HeapShape base (xs ++ b :: ys) ks heap m) (hsep : Separated (xs ++ b :: ys))
    (hb : b.used = false) (hfirst : d ≠ 0 → b.addr ≠ heap.initialAddr) (hdb : d ≤ b.size) :
    ∃ m₁ m₂, alignHole m heap.initialAddr b.addr b.user (b.user + d) b.size =
        .ok (m₁, b.size - d) ∧
      m₂ = setHeaderSize (setHeaderUsed (setHeaderMagic m₁ (b.addr + d)) (b.addr + d) 0)
        (b.addr + d) (b.size - d) ∧
      HeapShape base (pad d xs ++ b.shift d :: ys) ks heap m₂ ∧
      Separated (pad d xs ++ b.shift d :: ys) ∧ holes (pad d xs) = holes xs ∧
      ∀ x, x < heap.initialAddr ∨ heap.initialAddr + heap.size ≤ x ∨ Payload (xs ++ b :: ys) x →
        m₂ x = m x := by
  have hst := h.stands b (by simp)
  have hbd := h.next_le (b := b) (by simp)
  have hb0 := h.tiles.mem (b := b) (by simp)
  obtain ⟨hxs, -⟩ := h.tiles.around
  obtain ⟨b', hba, hbz, hbu⟩ : ∃ b' : Block, b'.addr = b.addr + d ∧ b'.size = b.size - d ∧
      b'.used = false := ⟨⟨b.addr + d, b.size - d, false⟩, rfl, rfl, rfl⟩
  have hshift : b.shift d = b' := Eq.symm <|
    show b' = b.shift d from Block.ext hba hbz (hbu.trans hb.symm)
  have hbf' : b'.footer = b.footer := by unfold Block.footer; omega
  have hbn' : b'.next = b.next := by unfold Block.next; omega
  have hbf : b.footer = b.addr + 12 + b.size := rfl
  have hbn : b.next = b.addr + b.size + 20 := rfl
  -- the header of the hole, wherever it is
  have hset : ∀ m₁, FooterAt m₁ b.footer b'.addr → b'.Stands
      (setHeaderSize (setHeaderUsed (setHeaderMagic m₁ b'.addr) b'.addr 0) b'.addr b'.size) := by
    intro m₁ hf
    refine ⟨hbu ▸ headerAt_set' m₁ _ (by omega) false, hbf' ▸ hf.congr fun x _ _ => ?_⟩
    rw [setHeaderSize_of_outside (by omega), setHeaderUsed_of_outside (by omega),
      setHeaderMagic_of_outside (by omega)]
  have hfr : ∀ (m₁ : Mem) x, x < b'.addr ∨ b'.addr + 12 ≤ x →
      setHeaderSize (setHeaderUsed (setHeaderMagic m₁ b'.addr) b'.addr 0) b'.addr b'.size x =
        m₁ x := by
    intro m₁ x hx
    rw [setHeaderSize_of_outside hx, setHeaderUsed_of_outside hx, setHeaderMagic_of_outside hx]
  -- what must stay is not in the hole
  have hout : ∀ x, x < heap.initialAddr ∨ heap.initialAddr + heap.size ≤ x ∨
      Payload (xs ++ b :: ys) x → x < b.addr ∨ b.next ≤ x := by
    rintro x (hx | hx | hx)
    · omega
    · omega
    · exact h.tiles.payload_apart (by simp) hb hx
  rw [hshift, ← hba, ← hbz]
  rcases Nat.eq_zero_or_pos d with rfl | hd
  · -- the hole stays where it is
    obtain rfl : b = b' := hshift
    refine ⟨m, _, ?_, rfl, ?_, by rwa [pad_zero], by rw [pad_zero], fun x hx => hfr m x ?_⟩
    · unfold alignHole
      rw [if_neg (by omega)]
    · have h' : HeapShape base (xs ++ [b] ++ ys) ks heap m := by simpa using h
      have ht : Tiles b.addr [b] b.next := ⟨rfl, rfl⟩
      have h'' := h'.replace ht (by simp) ht (by simpa using hset m hst.footer)
        fun x hx => hfr m x (by omega)
      simpa using h''
    · have := hout x hx
      omega
  · -- the block before it grows
    have hne := hfirst (by omega)
    obtain ⟨xs₀, p, rfl, hxs₀, hpn⟩ := hxs.last (by omega)
    have hpst := h.stands p (by simp)
    have hpb := h.tiles.mem (b := p) (by simp)
    have hpu : p.used = true := by simpa [hb] using hsep p (by simp) b (by simp) hpn
    obtain ⟨p', hpa, hpz, hpu'⟩ : ∃ p' : Block, p'.addr = p.addr ∧ p'.size = p.size + d ∧
        p'.used = true := ⟨⟨p.addr, p.size + d, true⟩, rfl, rfl, rfl⟩
    have hpad : pad d (xs₀ ++ [p]) = xs₀ ++ [p'] := by
      rw [pad_append, show p' = { p with size := p.size + d } from
        Block.ext hpa hpz (hpu'.trans hpu.symm)]
    have hpn' : p'.next = b'.addr := by unfold Block.next at *; omega
    have hpf' : p'.footer = b.addr + d - 8 := by unfold Block.footer Block.next at *; omega
    have hpf : p.footer = b.addr - 8 := by unfold Block.footer Block.next at *; omega
    have hpn₀ : p.addr + p.size + 20 = b.addr := hpn
    obtain ⟨m₁, hrun, hhp, hfp, hfb, hfr₁⟩ :=
      alignHole_spec hpst hst hpn (by omega) hne hd hdb
    refine ⟨m₁, _, ?_, rfl, ?_, ?_, holes_pad _ (by simp [hpu]), fun x hx => ?_⟩
    · rw [hrun, hbz]
    · have h' : HeapShape base (xs₀ ++ [p, b] ++ ys) ks heap m := by simpa using h
      have hps : p'.Stands
          (setHeaderSize (setHeaderUsed (setHeaderMagic m₁ b'.addr) b'.addr 0) b'.addr b'.size) := by
        constructor
        · rw [hpa, hpz, hpu', ← hpu]
          exact hhp.congr fun x _ _ => hfr m₁ x (by omega)
        · rw [hpa, hpf']
          exact hfp.congr fun x _ _ => hfr m₁ x (by omega)
      have ht : Tiles p.addr [p, b] b.next := ⟨rfl, hpn.symm, rfl⟩
      have ht' : Tiles p.addr [p', b'] b.next := ⟨hpa, hpn'.symm, hbn'⟩
      have h'' := h'.replace ht (by simp) ht' (by simpa using ⟨hps, hset m₁ (hba ▸ hfb)⟩)
        fun x hx => (hfr m₁ x (by omega)).trans (hfr₁ x (by omega) (by omega) (by omega))
      rw [hpad]
      simpa using h''
    · rw [← hshift]
      exact separated_shift h.tiles hsep hb hpu hdb
    · have hxb := hout x hx
      have hxp : p.addr + 12 ≤ x ∧ x < p.footer ∨ x < p.addr ∨ b.addr ≤ x := by
        rcases hx with hx | hx | ⟨q, hq, -, h₁, h₂⟩
        · omega
        · omega
        · unfold Block.user Block.footer at *
          rcases h.tiles.apart hq (c := p) (by simp) with rfl | h₃ | h₃
          · omega
          all_goals
            unfold Block.next at h₃
            omega
      exact (hfr m₁ x (by omega)).trans (hfr₁ x (by omega) (by omega) (by omega))

/-! ## Allocation -/

/-- The hole `b` serves the request `(size, alignment)` from `d` bytes after its start. -/
structure Serves (b : Block) (size alignment d : ℕ) : Prop where
  address : getAlignedAddress b.user alignment = b.user + d
  le : d ≤ b.size
  aligned : alignment ≠ 0 → alignment ∣ b.user + d
  unaligned : d ≠ 0 → alignment ≠ 0
  room : size + d ≤ b.size ∨ alignment ≠ 0 ∧ 4294967296 < size + alignment

/-- The hole `b` between `xs` and `ys` served a request from `d` bytes after its start. -/
structure Served (base : ℕ) (xs : List Block) (b : Block) (ys : List Block) (size d : ℕ)
    (s : HeapState σ) (p : ℕ) (s' : HeapState σ) : Prop where
  address : p = b.user + d
  inv : HeapInv base (pad d xs ++ (b.shift d).take size ++ ys) s'.heap s'.mem
  heapSize : s'.heap.size = s.heap.size
  sys : s'.sys = s.sys
  frame : ∀ x, x < base ∨ s.heap.initialAddr + s.heap.size ≤ x ∨ Payload (xs ++ b :: ys) x →
    s'.mem x = s.mem x

theorem Block.serves_of_fits (hv : ValidAlignment alignment) (hsize : size ≤ b.size)
    (hend : b.next ≤ 4294967296) (hfits : b.key.fits size alignment) :
    ∃ d, Serves b size alignment d := by
  obtain ⟨d, hd, hdb, hdvd, hd0, hroom⟩ := alignedAddress_fits (k := b.key) hv hsize
    (by rw [Block.key_addr, Block.key_size]; unfold Block.next at hend; omega) hfits
  exact ⟨d, hd, hdb, hdvd, hd0, hroom⟩

theorem allocHole_spec {d : ℕ} (env : PageEnv σ)
    (h : HeapInv base (xs ++ b :: ys) s.heap s.mem)
    (hb : b.used = false) (hsize : size ≤ b.size) (hserve : Serves b size alignment d)
    (hfirst : alignment ≠ 0 → b.addr ≠ s.heap.initialAddr) :
    Ends (allocHole env s b.user size alignment)
      (fun r => Served base xs b ys size d s r.1 r.2)
      (PoolFull (holes xs ++ holes ys).length) := by
  obtain ⟨hS, hsep⟩ := h
  obtain ⟨heap, m, sys⟩ := s
  dsimp only at hS hfirst ⊢
  have hbd := hS.next_le (b := b) (by simp)
  have hb0 := hS.mem_bounds (b := b) (by simp)
  have h0 := hS.initialAddr
  have hst := hS.stands b (by simp)
  have hdb := hserve.le
  have hbu12 : b.user = b.addr + 12 := rfl
  have hbn : b.next = b.addr + b.size + 20 := rfl
  -- the hole leaves the tree
  have hkeys : (holes (xs ++ b :: ys)).Perm (b.key :: (holes xs ++ holes ys)) := by
    rw [holes_append, holes_cons_free hb]
    exact List.perm_middle
  obtain ⟨avl, m₁, hrem, hS₁, hf₁⟩ := (hS.perm_keys hkeys).remove env (s := ⟨heap, m, sys⟩)
  dsimp only at hrem hS₁ hf₁
  have hst₁ := hS₁.stands b (by simp)
  -- it moves to the aligned address
  obtain ⟨m₂, m₃, hmove, hm₃, hS₃, hsep₃, hpad, hf₃⟩ :=
    moveHole_spec hS₁ hsep hb (fun hd => hfirst (hserve.unaligned hd)) hdb
  dsimp only at hf₃
  rw [← hpad] at hS₃
  have hsplit := splitHole_spec (s := ⟨{ heap with avl := avl }, m₃, sys⟩) env size hS₃ hsep₃ hb
    (by omega)
  -- the run
  have hhead : u32Sub b.user 12 = b.addr := by
    rw [u32Sub_of_le (by omega) (by omega)]
    omega
  have hhead' : u32Sub (b.user + d) 12 = b.addr + d := by
    rw [u32Sub_of_le (by omega) (by omega)]
    omega
  have hrem' : heapAvlRemove env ⟨heap, m, sys⟩ b.size b.user =
      .ok ⟨{ heap with avl := avl }, m₁, sys⟩ := hrem
  unfold allocHole
  simp only [sizeofHeader, hhead]
  rw [assert_of_true (by rw [hst.header.used, hb]; rfl), ok_bind, hst.header.size, hrem', ok_bind]
  simp only [hst₁.header.size, hserve.address]
  rw [assert_of_true (by omega), ok_bind, hmove, ok_bind]
  simp only [hhead']
  rw [← hm₃]
  refine hsplit.map ?_ fun _ h => by rwa [hpad] at h
  intro s' ht
  refine ⟨rfl, ht.inv, ht.heapSize, ht.sys, fun x hx => ?_⟩
  dsimp only at hx
  -- what must stay is not in the pool, nor in the hole
  have hpool : x < base ∨ base + 65536 ≤ x := by
    rcases hx with hx | hx | hx
    · exact .inl hx
    · omega
    · have := hS.tiles.payload hx
      omega
  have hhole : x < b.addr ∨ b.next ≤ x := by
    rcases hx with hx | hx | hx
    · omega
    · omega
    · exact hS.tiles.payload_apart (by simp) hb hx
  have hshift : (b.shift d).addr = b.addr + d ∧ (b.shift d).next = b.next := by
    unfold Block.next Block.shift
    dsimp only
    omega
  calc s'.mem x = m₃ x := ht.frame x hpool (by omega)
    _ = m₁ x := hf₃ x (hx.imp_left fun h => by omega)
    _ = m x := hf₁ x hpool

/-- From the blocks `bs` to the blocks `bs'` a request `(size, alignment)` was given the pointer
`p`: the used blocks stay, perhaps longer. -/
structure Allocated (bs : List Block) (size alignment p : ℕ) (bs' : List Block) : Prop where
  block : ∃ c ∈ bs', c.used = true ∧ c.user = p ∧
    (size ≤ c.size ∨ alignment ≠ 0 ∧ 4294967296 < size + alignment)
  aligned : alignment ≠ 0 → alignment ∣ p
  old : ∀ c ∈ bs, c.used = true → c.user ≠ p ∧
    ∃ c' ∈ bs', c'.used = true ∧ c'.addr = c.addr ∧ c.size ≤ c'.size
  new : ∀ c ∈ bs', c.used = true → c.user ≠ p → ∃ c' ∈ bs, c'.used = true ∧ c'.addr = c.addr

theorem Serves.allocated {a e d : ℕ} (ht : Tiles a (xs ++ b :: ys) e) (hb : b.used = false)
    (hs : Serves b size alignment d) :
    Allocated (xs ++ b :: ys) size alignment (b.user + d)
      (pad d xs ++ (b.shift d).take size ++ ys) := by
  have hle := hs.le
  refine ⟨⟨⟨b.addr + d, (b.shift d).takenSize size, true⟩, ?_, rfl, ?_, ?_⟩, hs.aligned, ?_, ?_⟩
  · have hmem : (⟨b.addr + d, (b.shift d).takenSize size, true⟩ : Block) ∈ (b.shift d).take size :=
      (mem_take_used rfl).mpr rfl
    simp [hmem]
  · unfold Block.user
    dsimp only
    omega
  · refine hs.room.imp_left fun h => le_takenSize ?_
    show size ≤ b.size - d
    omega
  · intro c hc hcu
    have hcb : c ≠ b := by
      rintro rfl
      rw [hb] at hcu
      exact Bool.noConfusion hcu
    constructor
    · unfold Block.user
      rcases ht.apart hc (c := b) (by simp) with h | h | h
      · exact absurd h hcb
      all_goals
        unfold Block.next at h
        omega
    · rcases List.mem_append.mp hc with hc | hc
      · obtain ⟨c', hc', hu, ha, hz⟩ := mem_pad (d := d) hc
        exact ⟨c', by simp [hc'], hu.trans hcu, ha, hz⟩
      · have hcy : c ∈ ys := by simpa [hcb] using hc
        exact ⟨c, by simp [hcy], hcu, rfl, le_rfl⟩
  · intro c hc hcu hne
    rcases List.mem_append.mp hc with hc | hc
    · rcases List.mem_append.mp hc with hc | hc
      · obtain ⟨c', hc', hu, ha⟩ := mem_of_mem_pad hc
        exact ⟨c', by simp [hc'], hu.trans hcu, ha⟩
      · -- the block that was taken
        obtain rfl := (mem_take_used hcu).mp hc
        refine absurd ?_ hne
        unfold Block.user Block.shift
        dsimp only
        omega
    · exact ⟨c, by simp [hc], hcu, rfl⟩

/-- The search finds the user address of a hole that is large enough and passes the test. -/
theorem findHole_spec (h : HeapInv base bs s.heap s.mem) (size alignment : ℕ) :
    ∃ p, kallocAvlFindHole s.mem s.heap.avl size alignment = .ok p ∧
      (p ≠ 0 → ∃ b ∈ bs, b.used = false ∧ b.user = p ∧ size ≤ b.size ∧
        b.key.fits size alignment) := by
  obtain ⟨t, fl, hI, hk⟩ := h.shape.avl
  refine ⟨_, hI.findHole size alignment, fun hp => ?_⟩
  obtain ⟨k, hkt, hka, hks, hkf⟩ := AvlTree.findHole_mem hp
  obtain ⟨b, hb, hbu, rfl⟩ := mem_holes.mp (hk.mem_iff.mp hkt)
  exact ⟨b, hb, hbu, hka, hks, hkf⟩

/-- What a request on a heap of blocks `bs` ends with. -/
structure AllocDone (base : ℕ) (E : Set ℕ) (I : ℕ → σ → Mem → Prop) (bs : List Block)
    (size alignment : ℕ) (s : HeapState σ) (p : ℕ) (s' : HeapState σ) (bs' : List Block) :
    Prop where
  inv : HeapInv base bs' s'.heap s'.mem
  allocated : Allocated bs size alignment p bs'
  pages : I (s'.heap.initialAddr + s'.heap.size) s'.sys s'.mem
  size_le : s.heap.size ≤ s'.heap.size
  frame : ∀ x, Payload bs x → x ∉ E → s'.mem x = s.mem x

theorem kallocHeapAllocLoop_spec (hP : PagesOk env base E I) (hv : ValidAlignment alignment) :
    ∀ {fuel : ℕ} {s : HeapState σ} {bs : List Block}, HeapInv base bs s.heap s.mem →
      I (s.heap.initialAddr + s.heap.size) s.sys s.mem → (∀ x ∈ E, Payload bs x) →
      (alignment ≠ 0 → ∃ c ∈ bs, c.used = true ∧ c.addr = s.heap.initialAddr) →
      4294967296 < s.heap.initialAddr + s.heap.size + 4096 * fuel →
      Ends (kallocHeapAllocLoop env fuel s size alignment)
        (fun r => ∃ bs', AllocDone base E I bs size alignment s r.1 r.2 bs') (External env)
  | 0, s, bs, h, _, _, _, hfuel => by
    have := h.shape.fits
    omega
  | fuel + 1, s, bs, h, hI, hE, hfirst, hfuel => by
    obtain ⟨p, hfind, hfound⟩ := findHole_spec h size alignment
    unfold kallocHeapAllocLoop
    rw [hfind, ok_bind]
    by_cases hp : p ≠ 0
    · obtain ⟨b, hb, hbu, rfl, hsize, hfits⟩ := hfound hp
      obtain ⟨xs, ys, rfl, -, -⟩ := h.shape.tiles.split hb
      obtain ⟨d, hserve⟩ := Block.serves_of_fits hv hsize (h.shape.next_le hb) hfits
      rw [if_pos hp]
      refine (allocHole_spec env h hbu hsize hserve fun ha heq => ?_).mono ?_ fun _ h => h.external
      · obtain ⟨c, hc, hcu, hca⟩ := hfirst ha
        obtain rfl := h.shape.tiles.eq_of_addr hc hb (hca.trans heq.symm)
        rw [hbu] at hcu
        exact Bool.noConfusion hcu
      · rintro ⟨p, s'⟩ hr
        obtain rfl := hr.address
        refine ⟨_, hr.inv, hserve.allocated h.shape.tiles hbu, ?_, hr.heapSize.ge,
          fun x hx _ => hr.frame x (.inr (.inr hx))⟩
        rw [hr.sys, hr.heapSize, hr.inv.shape.initialAddr, ← h.shape.initialAddr]
        exact hP.stable hI fun x hx => hr.frame x (hx.imp_right fun h => h.imp_right (hE x))
    · rw [if_neg hp]
      refine ((expandHeap_spec hP h hI hE).mono (fun _ h => h) fun _ h =>
        h.elim (fun h => h.1.external) fun h => .inr ⟨_, _, _, h⟩).bind ?_
      intro s' he
      have haddr : s'.heap.initialAddr = s.heap.initialAddr := by
        rw [he.inv.shape.initialAddr, h.shape.initialAddr]
      -- the used blocks are the same
      have hpay : ∀ x, Payload (expand (s.heap.initialAddr + s.heap.size) bs) x ↔ Payload bs x :=
        fun x => payload_congr fun b hb => mem_expand hb
      have hfirst' : alignment ≠ 0 → ∃ c ∈ expand (s.heap.initialAddr + s.heap.size) bs,
          c.used = true ∧ c.addr = s'.heap.initialAddr := fun ha => by
        obtain ⟨c, hc, hcu, hca⟩ := hfirst ha
        exact ⟨c, (mem_expand hcu).mpr hc, hcu, hca.trans haddr.symm⟩
      refine (kallocHeapAllocLoop_spec hP hv he.inv he.pages (fun x hx => (hpay x).mpr (hE x hx))
        hfirst' (by rw [haddr, he.size]; omega)).mono ?_ fun _ h => h
      rintro r ⟨bs', ha⟩
      refine ⟨bs', ha.inv, ⟨ha.allocated.block, ha.allocated.aligned, fun c hc hcu => ?_,
        fun c hc hcu hne => ?_⟩, ha.pages, ?_, fun x hx hxe => ?_⟩
      · exact ha.allocated.old c ((mem_expand hcu).mpr hc) hcu
      · obtain ⟨c', hc', hcu', hca⟩ := ha.allocated.new c hc hcu hne
        exact ⟨c', (mem_expand hcu').mp hc', hcu', hca⟩
      · have := he.size
        have := ha.size_le
        omega
      · rw [ha.frame x ((hpay x).mpr hx) hxe, he.frame x hx hxe]

/-- `kalloc_heap_alloc` on a heap in order: it returns a block as requested, or stops because the
pages or the pool do. -/
theorem kallocHeapAlloc_spec (hP : PagesOk env base E I) (h : HeapInv base bs s.heap s.mem)
    (hI : I (s.heap.initialAddr + s.heap.size) s.sys s.mem) (hE : ∀ x ∈ E, Payload bs x)
    (hv : ValidAlignment alignment)
    (hfirst : alignment ≠ 0 → ∃ c ∈ bs, c.used = true ∧ c.addr = s.heap.initialAddr) :
    Ends (kallocHeapAlloc env s size alignment)
      (fun r => ∃ bs', AllocDone base E I bs size alignment s r.1 r.2 bs') (External env) :=
  kallocHeapAllocLoop_spec hP hv h hI hE hfirst (by unfold heapFuel; omega)

end

end RawOS
