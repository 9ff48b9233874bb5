import RawOS.Alloc.HeapRun

/-!
# The pool of the tree of holes

The tree of holes has a node for each of at most `heapNodes` holes, and `get_free_node` stops the
kernel when none is left. `heapRun_pool` says when a release needs one; `exists_fragmented` breaks
a heap of one-byte blocks up until the pool is used up.
-/

namespace RawOS

section

variable {σ : Type} {env : PageEnv σ} {base : ℕ} {s : HeapState σ} {bs : List Block} {b : Block}
  {live : List Live}

/-- The walk over the heap finds one list of blocks. -/
theorem walk_unique {m : Mem} : ∀ {bs bs' : List Block} {a e : ℕ}, Tiles a bs e → Tiles a bs' e →
    (∀ b ∈ bs, b.Stands m) → (∀ b ∈ bs', b.Stands m) → bs = bs'
  | [], [], _, _, _, _, _, _ => rfl
  | [], b :: bs', a, e, h, h', _, _ => by
    have := h'.2.le
    rw [tiles_nil] at h
    have := h'.1
    unfold Block.next at *
    omega
  | b :: bs, [], a, e, h, h', _, _ => by
    have := h.2.le
    rw [tiles_nil] at h'
    have := h.1
    unfold Block.next at *
    omega
  | b :: bs, c :: bs', a, e, h, h', hs, hs' => by
    have haddr : b.addr = c.addr := h.1.trans h'.1.symm
    have hb := (hs b List.mem_cons_self).header
    have hc := (hs' c List.mem_cons_self).header
    rw [← haddr] at hc
    have hsize : b.size = c.size := hb.size.symm.trans hc.size
    have hused : b.used = c.used := by
      have := hb.used.symm.trans hc.used
      cases hbu : b.used <;> cases hcu : c.used <;> simp [hbu, hcu] at this ⊢
    obtain rfl : b = c := Block.ext haddr hsize hused
    rw [walk_unique h.2 h'.2 (fun x hx => hs x (List.mem_cons_of_mem _ hx))
      fun x hx => hs' x (List.mem_cons_of_mem _ hx)]

theorem HeapInv.blocks_eq {bs' : List Block} (h : HeapInv base bs s.heap s.mem)
    (h' : HeapInv base bs' s.heap s.mem) : bs = bs' :=
  walk_unique h.shape.tiles h'.shape.tiles h.shape.stands h'.shape.stands

/-- A used block is released unless it needs a node and there is none. -/
theorem HeapInv.free_ok (env : PageEnv σ) (h : HeapInv base bs s.heap s.mem) (hb : b ∈ bs)
    (hbu : b.used = true) (hroom : (holes bs).length < heapNodes ∨ FreeNeighbour bs b) :
    ∃ s' bs', kallocHeapFree env s b.user = .ok s' ∧ Freed base bs b s s' bs' := by
  have hspec := @kallocHeapFree_spec _ env _ _ _ _ h hb hbu
  cases hrun : kallocHeapFree env s b.user with
  | ok s' =>
    rw [hrun] at hspec
    obtain ⟨bs', hf⟩ := hspec
    exact ⟨s', bs', rfl, hf⟩
  | error e =>
    rw [hrun] at hspec
    obtain ⟨⟨-, hfull⟩, hnb⟩ := hspec
    rcases hroom with hlt | hnb'
    · exact absurd hfull (Nat.not_le.mpr hlt)
    · exact absurd hnb' hnb

/-- Without a node for the new hole the kernel stops. -/
theorem HeapInv.free_exhausted (env : PageEnv σ) (h : HeapInv base bs s.heap s.mem) (hb : b ∈ bs)
    (hbu : b.used = true) (hfull : heapNodes ≤ (holes bs).length) (hnb : ¬ FreeNeighbour bs b) :
    kallocHeapFree env s b.user = .error poolExhausted := by
  have hspec := @kallocHeapFree_spec _ env _ _ _ _ h hb hbu
  cases hrun : kallocHeapFree env s b.user with
  | ok s' =>
    -- one hole more than the pool has nodes
    rw [hrun] at hspec
    obtain ⟨bs', hf⟩ := hspec
    have hmore := hf.count hnb
    have hle := hf.inv.holes_le
    omega
  | error e =>
    rw [hrun] at hspec
    rw [hspec.1.1]

/-- In every run there is a node for each hole, and `kalloc_heap_free` of a live pointer succeeds
exactly if a node is left or the block merges with a hole; else the assertion of `get_free_node`
fails. -/
theorem heapRun_pool (hK : KeepsHeap env base) (h : HeapRun env base s live) :
    ∃ bs, Walk s.heap s.mem bs ∧ (holes bs).length ≤ heapNodes ∧
      ∀ l ∈ live, ∃ b ∈ bs, b.user = l.ptr ∧
        ((∃ s', kallocHeapFree env s l.ptr = .ok s') ↔
          (holes bs).length < heapNodes ∨ FreeNeighbour bs b) ∧
        ∀ e, kallocHeapFree env s l.ptr = .error e → e = poolExhausted := by
  obtain ⟨bs, hi⟩ := h.inv hK
  refine ⟨bs, ⟨hi.heap.shape.tiles, hi.heap.shape.stands⟩, hi.heap.holes_le, fun l hl => ?_⟩
  obtain ⟨b, hb, hbu, hbp, -⟩ := hi.held l hl
  refine ⟨b, hb, hbp, ⟨?_, fun hroom => ?_⟩, fun e he => ?_⟩
  · rintro ⟨s', hs'⟩
    by_contra hroom
    rw [not_or, Nat.not_lt] at hroom
    rw [← hbp, hi.heap.free_exhausted env hb hbu hroom.1 hroom.2] at hs'
    cases hs'
  · obtain ⟨s', -, hrun, -⟩ := hi.heap.free_ok env hb hbu hroom
    exact ⟨s', hbp ▸ hrun⟩
  · have hspec := @kallocHeapFree_spec _ env _ _ _ _ hi.heap hb hbu
    rw [hbp, he] at hspec
    exact hspec.1.1

theorem heapRun_pool_freed :
    ∃ s, HeapRun flatEnv 0x500000 s [⟨0x511000, 100, 0x1000⟩, ⟨0x510021, 1, 0⟩] ∧
      ∃ bs, Walk s.heap s.mem bs ∧ (holes bs).length ≤ heapNodes := by
  obtain ⟨s, h⟩ := exists_freedRun
  obtain ⟨bs, hw, hle, -⟩ := heapRun_pool (flatEnv_keepsHeap _) h
  exact ⟨s, h, bs, hw, hle⟩

end

/-! ## Fragmentation -/

/-- The block of one byte in place `i` from `0x510000` on. -/
def byteBlock (i : ℕ) : Block := ⟨0x510000 + 21 * i, 1, true⟩

def byteLive (i : ℕ) : Live := ⟨0x51000C + 21 * i, 1, 0⟩

/-- `n` requests for one byte. -/
theorem exists_byteBlocks : ∀ n ≤ 6555, ∃ s live, HeapRun flatEnv 0x500000 s live ∧
    HeapInv 0x500000 ((List.range n).map byteBlock ++
      [⟨0x510000 + 21 * n, 0xFFFEC - 21 * n, false⟩]) s.heap s.mem ∧
    ∀ i < n, byteLive i ∈ live := by
  intro n
  induction n with
  | zero =>
    intro _
    obtain ⟨s, hrun, hinv⟩ := exists_flatCreate (show 0 < 0x100 by decide) (by decide)
    exact ⟨s, [], .create (by decide) hrun, hinv, fun i hi => absurd hi (Nat.not_lt_zero i)⟩
  | succ n ih =>
    intro hn
    obtain ⟨s, live, h, hinv, hlive⟩ := ih (by omega)
    obtain ⟨s', h', hinv'⟩ := exists_flatByte h hinv (by simp [byteBlock]) (by omega)
    have hptr : (⟨0x510000 + 21 * n + 12, 1, 0⟩ : Live) = byteLive n := by
      unfold byteLive
      congr 1
      omega
    rw [hptr] at h'
    refine ⟨s', _, h', ?_, fun i hi => ?_⟩
    · rw [List.range_succ, List.map_append]
      exact hinv'
    · rcases Nat.lt_succ_iff_lt_or_eq.mp hi with hlt | rfl
      · exact List.mem_cons_of_mem _ (hlive i hlt)
      · exact List.mem_cons_self

/-- Every other of the first `2 * j` byte blocks is released. -/
structure Fragmented (j : ℕ) (s : HeapState Unit) (bs : List Block) (live : List Live) : Prop where
  run : HeapRun flatEnv 0x500000 s live
  inv : LiveInv 0x500000 bs live s.heap s.mem
  holes : (holes bs).length = j + 1
  blocks : ∀ i < 6555, i % 2 = 1 ∨ 2 * j ≤ i → byteBlock i ∈ bs
  live : ∀ i < 6555, 2 * j ≤ i → byteLive i ∈ live

/-- The next block to be released is between two used ones. -/
theorem Fragmented.no_neighbour {j : ℕ} {s : HeapState Unit} {bs : List Block} {live : List Live}
    (h : Fragmented j s bs live) (hj : j < 3276) : ¬ FreeNeighbour bs (byteBlock (2 * j)) := by
  have ht := h.inv.heap.shape.tiles
  rintro ⟨c, hc, hcu, hn⟩
  have hused : ∀ i < 6555, i % 2 = 1 ∨ 2 * j ≤ i → c ≠ byteBlock i := by
    rintro i - - rfl
    cases hcu
  unfold Block.next byteBlock at hn
  dsimp only at hn
  rcases hn with hn | hn
  · rcases Nat.eq_zero_or_pos j with rfl | hpos
    · -- nothing is before the first block
      have hlo := (h.inv.heap.shape.mem_bounds hc).1
      omega
    · have hd := h.blocks (2 * j - 1) (by omega) (.inl (by omega))
      rcases ht.apart hc hd with heq | hlt | hlt
      · exact hused (2 * j - 1) (by omega) (.inl (by omega)) heq
      all_goals
        unfold Block.next byteBlock at hlt
        dsimp only at hlt
        omega
  · have hd := h.blocks (2 * j + 1) (by omega) (.inl (by omega))
    refine hused (2 * j + 1) (by omega) (.inl (by omega)) (ht.eq_of_addr hc hd ?_)
    unfold byteBlock
    dsimp only
    omega

/-- As long as there are nodes, the heap can be broken up further. -/
theorem exists_fragmented : ∀ j < 3276, ∃ s bs live, Fragmented j s bs live := by
  intro j
  induction j with
  | zero =>
    intro _
    obtain ⟨s, live, h, hinv, hlive⟩ := exists_byteBlocks 6555 le_rfl
    obtain ⟨bs, hi⟩ := h.inv (flatEnv_keepsHeap _)
    rw [hi.heap.blocks_eq hinv] at hi
    refine ⟨s, _, live, h, hi, ?_, fun i hi' _ => ?_, fun i hi' _ => hlive i hi'⟩
    · rw [holes_bump (by simp [byteBlock]) rfl]
      rfl
    · refine List.mem_append_left _ (List.mem_map.mpr ⟨i, List.mem_range.mpr hi', rfl⟩)
  | succ j ih =>
    intro hj
    obtain ⟨s, bs, live, h⟩ := ih (by omega)
    have hb := h.blocks (2 * j) (by omega) (.inr le_rfl)
    have hnb := h.no_neighbour (by omega)
    obtain ⟨s', bs', hrun, hf⟩ := h.inv.heap.free_ok flatEnv hb rfl
      (.inl (by rw [h.holes]; unfold heapNodes; omega))
    have hl := h.live (2 * j) (by omega) le_rfl
    have hptr : (byteBlock (2 * j)).user = (byteLive (2 * j)).ptr := by
      unfold Block.user byteBlock byteLive
      dsimp only
      omega
    refine ⟨s', bs', live.erase (byteLive (2 * j)), ?_, h.inv.free hl hptr hf, ?_, ?_, ?_⟩
    · exact .free h.run hl (hptr ▸ hrun)
    · rw [hf.count hnb, h.holes]
    · intro i hi hodd
      refine (hf.used (byteBlock i) rfl).mpr ⟨h.blocks i hi (by omega), fun heq => ?_⟩
      unfold byteBlock at heq
      injection heq with heq
      omega
    · intro i hi hle
      refine (List.mem_erase_of_ne fun heq => ?_).mpr (h.live i hi (by omega))
      unfold byteLive at heq
      injection heq with heq
      omega

/-- Releasing a live block stops the kernel: 3276 holes use up the pool. -/
theorem exists_free_exhausted : KeepsHeap flatEnv 0x500000 ∧
    ∃ s live l, HeapRun flatEnv 0x500000 s live ∧ l ∈ live ∧
      kallocHeapFree flatEnv s l.ptr = .error poolExhausted := by
  obtain ⟨s, bs, live, h⟩ := exists_fragmented 3275 (by decide)
  have hb := h.blocks 6550 (by decide) (.inr (by decide))
  have hexh := h.inv.heap.free_exhausted flatEnv hb rfl (by rw [h.holes]; decide)
    (h.no_neighbour (by decide))
  exact ⟨flatEnv_keepsHeap _, s, live, byteLive 6550, h.run, h.live 6550 (by decide) (by decide),
    hexh⟩

end RawOS
