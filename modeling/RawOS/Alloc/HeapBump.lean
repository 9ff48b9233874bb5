import Mathlib.Data.Set.Basic
import RawOS.Alloc.HeapAlloc

/-!
# A heap with one hole, at its end

As long as nothing is released, the heap is a row of used blocks and a hole. There a request is
served from the hole, whatever the order of the tree.
-/

namespace RawOS

theorem AvlTree.keys_eq_nil {β α : Type} {t : AvlTree β α} (h : t.keys = []) : t = .nil := by
  cases t with
  | nil => rfl
  | node p n k l r => simp at h

/-- A single hole is found exactly where it is large enough and passes the test. -/
theorem AvlTree.findHole_single {t : HoleTree} {k : Hole} (ht : t.keys = [k])
    (size alignment : ℕ) :
    t.findHole size alignment = if size ≤ k.size ∧ k.fits size alignment then k.addr else 0 := by
  cases t with
  | nil => simp at ht
  | node p n k' l r =>
    rw [AvlTree.keys_node] at ht
    have hl : l = .nil := AvlTree.keys_eq_nil <| by
      cases hk : l.keys with
      | nil => rfl
      | cons x xs => simp [hk] at ht
    subst hl
    have hr : r = .nil := AvlTree.keys_eq_nil (by simpa using congrArg List.tail ht)
    subst hr
    obtain rfl : k' = k := by simpa using ht
    unfold findHole
    by_cases h : size ≤ k'.size ∧ k'.fits size alignment
    · rw [if_neg (by rw [not_or, not_not, not_lt]; exact h), if_neg (by simp [findHole]), if_pos h]
    · rw [if_neg h, if_pos ?_]
      · rfl
      · by_contra hc
        rw [not_or, not_not, not_lt] at hc
        exact h hc

section

variable {σ : Type} {env : PageEnv σ} {base : ℕ} {s : HeapState σ} {xs : List Block} {b : Block}
  {size alignment d : ℕ}

theorem holes_eq_nil (hxs : ∀ x ∈ xs, x.used = true) : holes xs = [] := by
  unfold holes
  rw [List.map_eq_nil_iff, List.filter_eq_nil_iff]
  intro x hx
  simp [hxs x hx]

theorem holes_bump (hxs : ∀ x ∈ xs, x.used = true) (hb : b.used = false) :
    holes (xs ++ [b]) = [b.key] := by
  rw [holes_append, holes_eq_nil hxs, holes_cons_free hb, holes_nil, List.nil_append]

theorem findHole_bump (h : HeapInv base (xs ++ [b]) s.heap s.mem) (hxs : ∀ x ∈ xs, x.used = true)
    (hb : b.used = false) (size alignment : ℕ) :
    kallocAvlFindHole s.mem s.heap.avl size alignment =
      .ok (if size ≤ b.size ∧ b.key.fits size alignment then b.user else 0) := by
  obtain ⟨t, fl, hI, hk⟩ := h.shape.avl
  rw [holes_bump hxs hb] at hk
  rw [hI.findHole, AvlTree.findHole_single (List.perm_singleton.mp hk)]
  rfl

theorem serves_zero (hsize : size ≤ b.size) : Serves b size 0 0 :=
  ⟨rfl, Nat.zero_le _, fun h => absurd rfl h, fun h => absurd rfl h, .inl hsize⟩

theorem Hole.fits_zero {k : Hole} (hsize : size ≤ k.size) : k.fits size 0 := by
  have : getAlignedAddress k.addr 0 = k.addr := rfl
  unfold Hole.fits
  rw [this]
  unfold u32Sub u32
  omega

/-- A request that the hole can serve. -/
theorem kallocHeapAlloc_bump (env : PageEnv σ) (h : HeapInv base (xs ++ [b]) s.heap s.mem)
    (hxs : ∀ x ∈ xs, x.used = true) (hb : b.used = false) (hsize : size ≤ b.size)
    (hfits : b.key.fits size alignment) (hserve : Serves b size alignment d)
    (hfirst : alignment ≠ 0 → xs ≠ []) (fuel : ℕ) :
    ∃ s', kallocHeapAllocLoop env (fuel + 1) s size alignment = .ok (b.user + d, s') ∧
      Served base xs b [] size d s (b.user + d) s' := by
  have hbu : b.user ≠ 0 := by
    unfold Block.user
    omega
  have hspec := allocHole_spec env h hb hsize hserve fun ha heq => by
    -- something is before the hole
    obtain ⟨hpre, -⟩ := h.shape.tiles.around
    have := hfirst ha
    cases xs with
    | nil => exact this rfl
    | cons x xs =>
      have := hpre.2.le
      have hxa := hpre.1
      unfold Block.next at this
      omega
  unfold kallocHeapAllocLoop
  rw [findHole_bump h hxs hb, if_pos ⟨hsize, hfits⟩, ok_bind, if_pos hbu]
  cases hrun : allocHole env s b.user size alignment with
  | error e =>
    rw [hrun, holes_eq_nil hxs] at hspec
    exact absurd hspec.2 (by decide)
  | ok r =>
    rw [hrun] at hspec
    obtain ⟨p, s'⟩ := r
    obtain rfl := Served.address hspec
    exact ⟨s', rfl, hspec⟩

/-! ## Growth -/

/-- The blocks are used up to `brk`, and the rest of the heap is a hole. -/
inductive BumpHeap (base brk : ℕ) (s : HeapState σ) : Prop where
  | full {xs : List Block} : HeapInv base xs s.heap s.mem → (∀ x ∈ xs, x.used = true) →
    brk = s.heap.initialAddr + s.heap.size → BumpHeap base brk s
  | hole {xs : List Block} {z : ℕ} : HeapInv base (xs ++ [⟨brk, z, false⟩]) s.heap s.mem →
    (∀ x ∈ xs, x.used = true) → brk + z + 20 = s.heap.initialAddr + s.heap.size →
    BumpHeap base brk s

/-- The end of the page before `a`. -/
def roundUp (a : ℕ) : ℕ := (a + 4095) / 4096 * 4096

theorem le_roundUp (a : ℕ) : a ≤ roundUp a := by
  unfold roundUp
  omega

/-- A page more is not after the end of the page before `a`. -/
theorem max_roundUp {e a : ℕ} (he : e % 4096 = 0) (ha : e < a) :
    max (e + 4096) (roundUp a) = max e (roundUp a) := by
  have h : e + 4096 ≤ roundUp a := by
    unfold roundUp
    omega
  rw [max_eq_right h, max_eq_right (by omega)]

/-- On a heap used up to `brk` the request `(size, alignment)` is served at `p`. -/
structure BumpPlace (brk size alignment p : ℕ) : Prop where
  address : getAlignedAddress (brk + 12) alignment = p
  le : brk + 12 ≤ p
  valid : ValidAlignment alignment
  fits : p + size + 8 ≤ 4294967296

/-- The end of the used blocks after one of `size` bytes at `p`, in a heap that ends at `e`. -/
def bumpEnd (p size e : ℕ) : ℕ := if p + size + 28 < e then p + size + 8 else e

theorem bumpEnd_le (p size e : ℕ) : bumpEnd p size e ≤ p + size + 28 := by
  unfold bumpEnd
  split_ifs <;> omega

variable {brk p e : ℕ} {E : Set ℕ} {I : ℕ → σ → Mem → Prop}

theorem Block.fits_iff {z : ℕ} (h : BumpPlace brk size alignment p)
    (hz : brk + z + 20 ≤ 4294967296) :
    size ≤ z ∧ (⟨brk, z, false⟩ : Block).key.fits size alignment ↔ p + size + 8 ≤ brk + z + 20 := by
  obtain ⟨haddr, hle, -, hfits⟩ := h
  unfold Hole.fits
  rw [Block.key_addr, Block.key_size]
  dsimp only
  rw [haddr, u32Sub_of_le hle (by omega), u32_of_lt (by omega)]
  omega

theorem BumpHeap.le (h : BumpHeap base brk s) : brk ≤ s.heap.initialAddr + s.heap.size := by
  cases h with
  | full _ _ hend => exact hend.le
  | hole _ _ hend => omega

/-- The bytes of the used blocks are free to change. -/
theorem BumpHeap.congr {m : Mem} (h : BumpHeap base brk s)
    (hm : ∀ bs, HeapInv base bs s.heap s.mem → ∀ x, base ≤ x →
      x < s.heap.initialAddr + s.heap.size → ¬ Payload bs x → m x = s.mem x) :
    BumpHeap base brk { s with mem := m } := by
  cases h with
  | full hinv hxs hend => exact .full ⟨hinv.shape.congr (hm _ hinv), hinv.separated⟩ hxs hend
  | hole hinv hxs hend => exact .hole ⟨hinv.shape.congr (hm _ hinv), hinv.separated⟩ hxs hend

theorem BumpHeap.end_mod (h : BumpHeap base brk s) :
    (s.heap.initialAddr + s.heap.size) % 4096 = 0 := by
  cases h with
  | full hinv _ _ => exact hinv.shape.size_mod
  | hole hinv _ _ => exact hinv.shape.size_mod

/-- The search finds the hole at the end where it is long enough. -/
theorem BumpHeap.find (h : BumpHeap base brk s) (hp : BumpPlace brk size alignment p) :
    kallocAvlFindHole s.mem s.heap.avl size alignment =
      .ok (if p + size + 8 ≤ s.heap.initialAddr + s.heap.size then brk + 12 else 0) := by
  cases h with
  | full hinv hxs hend =>
    obtain ⟨t, fl, hI, hk⟩ := hinv.shape.avl
    rw [holes_eq_nil hxs, List.perm_nil] at hk
    have hle := hp.le
    rw [hI.findHole, AvlTree.keys_eq_nil hk, if_neg (by omega)]
    rfl
  | @hole xs z hinv hxs hend =>
    rw [findHole_bump hinv hxs rfl, if_congr (Block.fits_iff hp (hend ▸ hinv.shape.fits)) rfl rfl,
      hend]
    rfl

/-- A request that the heap can serve as it is. -/
theorem BumpHeap.serve (env : PageEnv σ) (h : BumpHeap base brk s) (hfirst : base + 65536 < brk)
    (hp : BumpPlace brk size alignment p)
    (hroom : p + size + 8 ≤ s.heap.initialAddr + s.heap.size) (fuel : ℕ) :
    ∃ s', kallocHeapAllocLoop env (fuel + 1) s size alignment = .ok (p, s') ∧
      BumpHeap base (bumpEnd p size (s.heap.initialAddr + s.heap.size)) s' ∧
      s'.heap.initialAddr + s'.heap.size = s.heap.initialAddr + s.heap.size ∧ s'.sys = s.sys ∧
      ∀ x, x < base ∨ s.heap.initialAddr + s.heap.size ≤ x → s'.mem x = s.mem x := by
  cases h with
  | full hinv hxs hend =>
    have hle := hp.le
    omega
  | @hole xs z hinv hxs hend =>
    obtain ⟨b, hb⟩ : ∃ b : Block, b = ⟨brk, z, false⟩ := ⟨_, rfl⟩
    have hz : brk + z + 20 ≤ 4294967296 := hend ▸ hinv.shape.fits
    obtain ⟨hsize, hfits⟩ := (Block.fits_iff hp hz).mpr (hend ▸ hroom)
    have h0 := hinv.shape.initialAddr
    have htiles := hinv.shape.tiles.around.1
    rw [← hb] at hinv hfits
    obtain ⟨d, hserve⟩ := b.serves_of_fits hp.valid (by rw [hb]; exact hsize)
      (by rw [hb]; exact hz) hfits
    have hd : b.user + d = p := hserve.address.symm.trans (by rw [hb]; exact hp.address)
    have hbu : b.user = brk + 12 := by rw [hb]; rfl
    have hne : xs ≠ [] := by
      rintro rfl
      rw [tiles_nil] at htiles
      dsimp only at htiles
      omega
    obtain ⟨s', hrun, hserved⟩ := kallocHeapAlloc_bump env hinv hxs (by rw [hb])
      (by rw [hb]; exact hsize) hfits hserve (fun _ => hne) fuel
    rw [hd] at hrun hserved
    have hadd : s'.heap.initialAddr = s.heap.initialAddr := by
      rw [hserved.inv.shape.initialAddr, h0]
    have hend' : s'.heap.initialAddr + s'.heap.size = s.heap.initialAddr + s.heap.size := by
      rw [hadd, hserved.heapSize]
    refine ⟨s', hrun, ?_, hend', hserved.sys, fun x hx => hserved.frame x (by omega)⟩
    -- the blocks before the hole, the last one longer
    have hpad : ∀ x ∈ pad d xs, x.used = true := by
      obtain ⟨ys, y, rfl⟩ := List.eq_nil_or_concat xs |>.resolve_left hne
      rw [List.concat_eq_append, pad_append]
      rw [List.concat_eq_append] at hxs
      intro x hx
      rcases List.mem_append.mp hx with hx | hx
      · exact hxs x (by simp [hx])
      · rw [List.mem_singleton] at hx
        subst hx
        exact hxs y (by simp)
    have hinv' := hserved.inv
    rw [List.append_nil] at hinv'
    have hshift : b.shift d = ⟨brk + d, z - d, false⟩ := by rw [hb]; rfl
    have hpd : p = brk + 12 + d := by omega
    unfold bumpEnd
    unfold Block.take at hinv'
    rw [hshift] at hinv'
    dsimp only at hinv'
    have hcond : size + 20 < z - d ↔ p + size + 28 < s.heap.initialAddr + s.heap.size := by omega
    rw [if_congr hcond rfl rfl] at hinv'
    have hused : ∀ w, ∀ x ∈ pad d xs ++ [(⟨brk + d, w, true⟩ : Block)], x.used = true := by
      intro w x hx
      rcases List.mem_append.mp hx with hx | hx
      · exact hpad x hx
      · rw [List.mem_singleton] at hx
        subst hx
        rfl
    split_ifs at hinv' ⊢ with hsplit
    · have hpos : brk + d + size + 20 = p + size + 8 := by omega
      rw [hpos] at hinv'
      have hinv'' : HeapInv base ((pad d xs ++ [⟨brk + d, size, true⟩]) ++
          [⟨p + size + 8, z - d - size - 20, false⟩]) s'.heap s'.mem := by
        rw [List.append_assoc]
        exact hinv'
      exact .hole hinv'' (hused _) (by omega)
    · exact .full hinv' (hused _) hend'.symm

/-- A new page at the end. -/
theorem BumpHeap.expand (hP : PagesOk env base ∅ I) (h : BumpHeap base brk s)
    (hI : I (s.heap.initialAddr + s.heap.size) s.sys s.mem)
    (hgo : ∃ r, env.createPage ((s.heap.initialAddr + s.heap.size) / 4096) s.sys s.mem = .ok r)
    (hlt : s.heap.initialAddr + s.heap.size < 4294967296) :
    ∃ s', expandHeap env s = .ok s' ∧ BumpHeap base brk s' ∧
      s'.heap.initialAddr + s'.heap.size = s.heap.initialAddr + s.heap.size + 4096 ∧
      I (s'.heap.initialAddr + s'.heap.size) s'.sys s'.mem := by
  obtain ⟨r, hr⟩ := hgo
  have key : ∀ bs, HeapInv base bs s.heap s.mem → (holes bs).length ≤ 1 →
      ∃ s', expandHeap env s = .ok s' ∧ Expanded base ∅ I bs s s' := by
    intro bs hinv hholes
    have hspec := expandHeap_spec hP hinv hI fun x hx => absurd hx (Set.notMem_empty x)
    cases hrun : expandHeap env s with
    | ok s' =>
      rw [hrun] at hspec
      exact ⟨s', rfl, hspec⟩
    | error e =>
      rw [hrun] at hspec
      rcases hspec with ⟨⟨-, hfull⟩, -⟩ | hcreate
      · exact absurd (hfull.trans hholes) (by decide)
      · rw [u32_of_lt hlt, hr] at hcreate
        cases hcreate
  cases h with
  | @full xs hinv hxs hend =>
    obtain ⟨s', hrun, he⟩ := key xs hinv (by rw [holes_eq_nil hxs]; exact Nat.zero_le 1)
    have hadd : s'.heap.initialAddr = s.heap.initialAddr := by
      rw [he.inv.shape.initialAddr, hinv.shape.initialAddr]
    have hend' : s'.heap.initialAddr + s'.heap.size = s.heap.initialAddr + s.heap.size + 4096 := by
      rw [hadd, he.size, Nat.add_assoc]
    refine ⟨s', hrun, ?_, hend', he.pages⟩
    have hpos := hinv.shape.nonempty
    obtain ⟨ys, y, rfl, -, -⟩ := hinv.shape.tiles.last (by omega)
    have hinv' := he.inv
    rw [expand_used (hxs y (by simp)), ← hend] at hinv'
    exact .hole hinv' hxs (by omega)
  | @hole xs z hinv hxs hend =>
    obtain ⟨s', hrun, he⟩ := key _ hinv (by rw [holes_bump hxs rfl]; exact le_refl 1)
    have hadd : s'.heap.initialAddr = s.heap.initialAddr := by
      rw [he.inv.shape.initialAddr, hinv.shape.initialAddr]
    have hend' : s'.heap.initialAddr + s'.heap.size = s.heap.initialAddr + s.heap.size + 4096 := by
      rw [hadd, he.size, Nat.add_assoc]
    refine ⟨s', hrun, ?_, hend', he.pages⟩
    have hinv' := he.inv
    rw [expand_free rfl] at hinv'
    have hinv'' : HeapInv base (xs ++ [⟨brk, z + 4096, false⟩]) s'.heap s'.mem := hinv'
    exact .hole hinv'' hxs (by omega)

/-- What a request on a heap used up to `brk` does. -/
structure BumpAlloc (base size p : ℕ) (I : ℕ → σ → Mem → Prop) (s s' : HeapState σ) : Prop where
  bump : BumpHeap base (bumpEnd p size (s'.heap.initialAddr + s'.heap.size)) s'
  pages : I (s'.heap.initialAddr + s'.heap.size) s'.sys s'.mem
  heapEnd : s'.heap.initialAddr + s'.heap.size =
    max (s.heap.initialAddr + s.heap.size) (roundUp (p + size + 8))

/-- The pages exist below `limit`, so a request that ends below it succeeds. -/
theorem BumpHeap.allocLoop {limit : ℕ} (hP : PagesOk env base ∅ I)
    (hgo : ∀ {e sys m}, I e sys m → e % 4096 = 0 → e < limit →
      ∃ r, env.createPage (e / 4096) sys m = .ok r)
    (hfirst : base + 65536 < brk) (hp : BumpPlace brk size alignment p)
    (hlimit : p + size + 8 ≤ limit) :
    ∀ {n fuel : ℕ} {s : HeapState σ}, BumpHeap base brk s →
      I (s.heap.initialAddr + s.heap.size) s.sys s.mem →
      p + size + 8 ≤ s.heap.initialAddr + s.heap.size + 4096 * n → n < fuel →
      ∃ s', kallocHeapAllocLoop env fuel s size alignment = .ok (p, s') ∧
        BumpAlloc base size p I s s' := by
  intro n
  induction n with
  | zero =>
    intro fuel s h hI hn hfuel
    obtain ⟨fuel, rfl⟩ := Nat.exists_eq_succ_of_ne_zero hfuel.ne'
    have hmod := h.end_mod
    obtain ⟨s', hrun, hbump, hend, hsys, hframe⟩ := h.serve env hfirst hp (by omega) fuel
    refine ⟨s', hrun, hend ▸ hbump, ?_, ?_⟩
    · rw [hend, hsys]
      exact hP.stable hI fun x hx => hframe x (by simpa using hx)
    · rw [hend]
      unfold roundUp
      omega
  | succ n ih =>
    intro fuel s h hI hn hfuel
    obtain ⟨fuel, rfl⟩ := Nat.exists_eq_succ_of_ne_zero (Nat.ne_of_gt (Nat.zero_lt_of_lt hfuel))
    have hmod := h.end_mod
    by_cases hroom : p + size + 8 ≤ s.heap.initialAddr + s.heap.size
    · obtain ⟨s', hrun, hbump, hend, hsys, hframe⟩ := h.serve env hfirst hp hroom fuel
      refine ⟨s', hrun, hend ▸ hbump, ?_, ?_⟩
      · rw [hend, hsys]
        exact hP.stable hI fun x hx => hframe x (by simpa using hx)
      · rw [hend]
        unfold roundUp
        omega
    · have hfits := hp.fits
      obtain ⟨s₁, hexpand, h₁, hend₁, hI₁⟩ := h.expand hP hI (hgo hI hmod (by omega)) (by omega)
      obtain ⟨s', hrun, ha⟩ := ih h₁ hI₁ (by omega) (by omega : n < fuel)
      refine ⟨s', ?_, ha.bump, ha.pages, ?_⟩
      · unfold kallocHeapAllocLoop
        rw [h.find hp, if_neg hroom, ok_bind, if_neg (by simp), hexpand]
        exact hrun
      · rw [ha.heapEnd, hend₁]
        exact max_roundUp hmod (not_le.mp hroom)

theorem BumpHeap.alloc {limit : ℕ} (hP : PagesOk env base ∅ I)
    (hgo : ∀ {e sys m}, I e sys m → e % 4096 = 0 → e < limit →
      ∃ r, env.createPage (e / 4096) sys m = .ok r)
    (h : BumpHeap base brk s) (hfirst : base + 65536 < brk)
    (hI : I (s.heap.initialAddr + s.heap.size) s.sys s.mem)
    (hp : BumpPlace brk size alignment p) (hlimit : p + size + 8 ≤ limit) :
    ∃ s', kallocHeapAlloc env s size alignment = .ok (p, s') ∧ BumpAlloc base size p I s s' := by
  have hfits := hp.fits
  obtain ⟨n, hn, hfuel⟩ : ∃ n, n = 1048577 ∧ n < heapFuel := ⟨_, rfl, by decide⟩
  unfold kallocHeapAlloc
  exact BumpHeap.allocLoop hP hgo hfirst hp hlimit h hI (by omega : _ ≤ _ + 4096 * n) hfuel

end

end RawOS
