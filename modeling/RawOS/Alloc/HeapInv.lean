import RawOS.Alloc.AvlRun
import RawOS.Alloc.Blocks
import RawOS.Alloc.KallocHeap

/-!
# The shape of the kernel heap

`HeapShape` says that a list of blocks stands in memory, each block between its header and its
footer (`Block.Stands`), and that the tree holds some list of keys, as it is inside an operation.
`HeapInv` asks that the keys be those of the holes and that no two holes touch.

`HeapShape.replace` is how an operation rewrites the blocks of one interval, and
`HeapShape.congr` says that the bytes of used blocks are not the heap's.
-/

namespace RawOS

/-! ## Headers and footers in memory -/

/-- The header at `h` is in place. -/
structure HeaderAt (m : Mem) (h size : ℕ) (used : Bool) : Prop where
  magic : headerMagic m h = heapHeaderMagic
  size : headerSize m h = size
  used : headerUsed m h = used.toNat

/-- The footer at `f` is in place. -/
structure FooterAt (m : Mem) (f header : ℕ) : Prop where
  magic : footerMagic m f = heapFooterMagic
  header : footerHeader m f = header

section Stores

variable {m m' : Mem} {h f v w x : ℕ} {u u' : Bool} {z : ℤ}

theorem setHeaderMagic_of_outside (hx : x < h ∨ h + 12 ≤ x) : setHeaderMagic m h x = m x :=
  store16_of_outside (by omega)

theorem setHeaderSize_of_outside (hx : x < h ∨ h + 12 ≤ x) : setHeaderSize m h v x = m x :=
  store32_of_outside (by omega)

theorem setHeaderUsed_of_outside (hx : x < h ∨ h + 12 ≤ x) : setHeaderUsed m h z x = m x :=
  storeS32_of_outside (by omega)

theorem setFooterMagic_of_outside (hx : x < f ∨ f + 8 ≤ x) : setFooterMagic m f x = m x :=
  store16_of_outside (by omega)

theorem setFooterHeader_of_outside (hx : x < f ∨ f + 8 ≤ x) : setFooterHeader m f v x = m x :=
  store32_of_outside (by omega)

theorem HeaderAt.congr (hh : HeaderAt m h v u)
    (hm : ∀ x, h ≤ x → x < h + 12 → m' x = m x) : HeaderAt m' h v u where
  magic := (load16_congr fun x _ _ => hm x (by omega) (by omega)).trans hh.magic
  size := (load32_congr fun x _ _ => hm x (by omega) (by omega)).trans hh.size
  used := (loadS32_congr fun x _ _ => hm x (by omega) (by omega)).trans hh.used

theorem FooterAt.congr (hf : FooterAt m f v)
    (hm : ∀ x, f ≤ x → x < f + 8 → m' x = m x) : FooterAt m' f v where
  magic := (load16_congr fun x _ _ => hm x (by omega) (by omega)).trans hf.magic
  header := (load32_congr fun x _ _ => hm x (by omega) (by omega)).trans hf.header

theorem HeaderAt.setSize (hh : HeaderAt m h w u) (hv : v < 4294967296) :
    HeaderAt (setHeaderSize m h v) h v u where
  magic := (load16_store32_of_disjoint (by omega)).trans hh.magic
  size := load32_store32_eq rfl hv
  used := (congrArg toS32 (load32_store32_of_disjoint (by omega))).trans hh.used

theorem HeaderAt.setUsed (hh : HeaderAt m h v u) (u' : Bool) :
    HeaderAt (setHeaderUsed m h u'.toNat) h v u' where
  magic := (load16_store32_of_disjoint (by omega)).trans hh.magic
  size := (load32_store32_of_disjoint (by omega)).trans hh.size
  used := loadS32_storeS32_eq rfl (by cases u' <;> decide) (by cases u' <;> decide)

theorem FooterAt.setHeader (hf : FooterAt m f w) (hv : v < 4294967296) :
    FooterAt (setFooterHeader m f v) f v where
  magic := (load16_store32_of_disjoint (by omega)).trans hf.magic
  header := load32_store32_eq rfl hv

/-- A new header. -/
theorem headerAt_set (m : Mem) (h : ℕ) (hv : v < 4294967296) (u : Bool) :
    HeaderAt (setHeaderUsed (setHeaderSize (setHeaderMagic m h) h v) h u.toNat) h v u where
  magic := (load16_store32_of_disjoint (by omega)).trans <|
    (load16_store32_of_disjoint (by omega)).trans (load16_store16_eq rfl (by decide))
  size := (load32_store32_of_disjoint (by omega)).trans (load32_store32_eq rfl hv)
  used := loadS32_storeS32_eq rfl (by cases u <;> decide) (by cases u <;> decide)

/-- A new header, the size last. -/
theorem headerAt_set' (m : Mem) (h : ℕ) (hv : v < 4294967296) (u : Bool) :
    HeaderAt (setHeaderSize (setHeaderUsed (setHeaderMagic m h) h u.toNat) h v) h v u where
  magic := (load16_store32_of_disjoint (by omega)).trans <|
    (load16_store32_of_disjoint (by omega)).trans (load16_store16_eq rfl (by decide))
  size := load32_store32_eq rfl hv
  used := (congrArg toS32 (load32_store32_of_disjoint (by omega))).trans <|
    loadS32_storeS32_eq rfl (by cases u <;> decide) (by cases u <;> decide)

/-- A new footer. -/
theorem footerAt_set (m : Mem) (f : ℕ) (hv : v < 4294967296) :
    FooterAt (setFooterHeader (setFooterMagic m f) f v) f v where
  magic := (load16_store32_of_disjoint (by omega)).trans (load16_store16_eq rfl (by decide))
  header := load32_store32_eq rfl hv

/-- A new footer, the magic last. -/
theorem footerAt_set' (m : Mem) (f : ℕ) (hv : v < 4294967296) :
    FooterAt (setFooterMagic (setFooterHeader m f v) f) f v where
  magic := load16_store16_eq rfl (by decide)
  header := (load32_store16_of_disjoint (by omega)).trans (load32_store32_eq rfl hv)

end Stores

/-- The header and the footer of the block are in place. -/
structure Block.Stands (m : Mem) (b : Block) : Prop where
  header : HeaderAt m b.addr b.size b.used
  footer : FooterAt m b.footer b.addr

theorem Block.Stands.congr {m m' : Mem} {b : Block} (h : b.Stands m)
    (hh : ∀ x, b.addr ≤ x → x < b.addr + 12 → m' x = m x)
    (hf : ∀ x, b.footer ≤ x → x < b.footer + 8 → m' x = m x) : b.Stands m' :=
  ⟨h.header.congr hh, h.footer.congr hf⟩

/-! ## The tree of holes -/

/-- The pool of `n` nodes at `data` holds the keys `ks`. -/
def AvlHolds (data n : ℕ) (ks : List Hole) (avl : KallocAVL) (m : Mem) : Prop :=
  ∃ t fl, AvlInv data n t fl avl m ∧ t.keys.Perm ks

/-- The nodes of the tree of holes. -/
def heapNodes : ℕ := 3276

/-- The tree has no node left for another key. -/
def PoolFull (keys : ℕ) (e : Panic) : Prop := e = poolExhausted ∧ heapNodes ≤ keys

theorem frame_pool {base : ℕ} {m m' : Mem} (h : Frame m m' (poolSlots base heapNodes)) {x : ℕ}
    (hx : x < base ∨ base + 65536 ≤ x) : m' x = m x := by
  refine h x fun q hq => ?_
  obtain ⟨j, -, hj, rfl⟩ := mem_poolFrom.mp hq
  unfold heapNodes at hj
  omega

namespace AvlHolds

variable {σ : Type} {base : ℕ} {ks : List Hole} {k : Hole} (env : PageEnv σ) {s : HeapState σ}

theorem congr {avl : KallocAVL} {m m' : Mem} (h : AvlHolds base heapNodes ks avl m)
    (hm : ∀ x, base ≤ x → x < base + 65536 → m' x = m x) : AvlHolds base heapNodes ks avl m' := by
  obtain ⟨t, fl, hI, hk⟩ := h
  exact ⟨t, fl, hI.congr fun x h₁ h₂ => hm x h₁ (by unfold heapNodes at h₂; omega), hk⟩

theorem of_perm {avl : KallocAVL} {m : Mem} {ks' : List Hole} (h : AvlHolds base heapNodes ks avl m)
    (hk : ks.Perm ks') : AvlHolds base heapNodes ks' avl m := by
  obtain ⟨t, fl, hI, hp⟩ := h
  exact ⟨t, fl, hI, hp.trans hk⟩

theorem insert (h : AvlHolds base heapNodes ks s.heap.avl s.mem) (hks : k.size < 4294967296)
    (hka : k.addr < 4294967296) (hk : k ∉ ks) :
    Ends (heapAvlInsert env s k.size k.addr)
      (fun s' => ∃ avl m', s' = ⟨{ s.heap with avl := avl }, m', s.sys⟩ ∧
        AvlHolds base heapNodes (k :: ks) avl m' ∧
        ∀ x, x < base ∨ base + 65536 ≤ x → m' x = s.mem x)
      (PoolFull ks.length) := by
  obtain ⟨t, fl, hI, hp⟩ := h
  have hkt : k ∉ t.keys := fun hm => hk (hp.mem_iff.mp hm)
  unfold heapAvlInsert
  cases fl with
  | nil =>
    rw [hI.insert_full _ hkt]
    exact ⟨rfl, by rw [← hp.length_eq, ← hI.length_keys, List.length_nil, Nat.add_zero]⟩
  | cons c fl =>
    obtain ⟨avl, m', hrun, hI', hf⟩ := hI.insert (env.uninit s.sys s.mem) hks hka hkt
    rw [hrun]
    exact ⟨avl, m', rfl, ⟨_, _, hI', (AvlTree.keys_insert c k t).trans (hp.cons k)⟩,
      fun x hx => frame_pool hf hx⟩

theorem remove (h : AvlHolds base heapNodes (k :: ks) s.heap.avl s.mem) :
    ∃ avl m', heapAvlRemove env s k.size k.addr = .ok ⟨{ s.heap with avl := avl }, m', s.sys⟩ ∧
      AvlHolds base heapNodes ks avl m' ∧
      ∀ x, x < base ∨ base + 65536 ≤ x → m' x = s.mem x := by
  obtain ⟨t, fl, hI, hp⟩ := h
  have hkt : k ∈ t.keys := hp.mem_iff.mpr List.mem_cons_self
  obtain ⟨avl, m', hrun, hI', hf⟩ := hI.remove (env.uninit s.sys s.mem) hkt
  refine ⟨avl, m', ?_, ⟨_, _, hI', ?_⟩, fun x hx => frame_pool hf hx⟩
  · unfold heapAvlRemove
    rw [hrun]
    rfl
  · exact ((AvlTree.cons_keys_remove hI.isAvl hkt).trans hp).cons_inv

end AvlHolds

/-- The bytes of the heap at `base`, the pages of the tree included, and what the heap keeps in
them: the blocks `bs`, and the keys `ks` in the tree. -/
structure HeapShape (base : ℕ) (bs : List Block) (ks : List Hole) (heap : KallocHeap) (m : Mem) :
    Prop where
  initialAddr : heap.initialAddr = base + 65536
  size_mod : (heap.initialAddr + heap.size) % 4096 = 0
  fits : heap.initialAddr + heap.size ≤ 4294967296
  tiles : Tiles heap.initialAddr bs (heap.initialAddr + heap.size)
  nonempty : 0 < heap.size
  stands : ∀ b ∈ bs, b.Stands m
  avl : AvlHolds base heapNodes ks heap.avl m

/-- The invariant of the heap between two operations. -/
structure HeapInv (base : ℕ) (bs : List Block) (heap : KallocHeap) (m : Mem) : Prop where
  shape : HeapShape base bs (holes bs) heap m
  separated : Separated bs

namespace HeapShape

variable {base lo hi : ℕ} {bs xs ys zs zs' : List Block} {ks : List Hole} {heap : KallocHeap}
  {m m' : Mem} {b c : Block}

theorem mem_bounds (h : HeapShape base bs ks heap m) (hb : b ∈ bs) :
    base + 65536 ≤ b.addr ∧ b.next ≤ heap.initialAddr + heap.size :=
  h.initialAddr ▸ h.tiles.mem hb

theorem next_le (h : HeapShape base bs ks heap m) (hb : b ∈ bs) :
    b.addr + b.size + 20 ≤ 4294967296 :=
  ((h.tiles.mem hb).2).trans h.fits

/-- Up to the order of the keys. -/
theorem perm_keys {ks' : List Hole} (h : HeapShape base bs ks heap m) (hk : ks.Perm ks') :
    HeapShape base bs ks' heap m :=
  { h with avl := h.avl.of_perm hk }

/-- The bytes of the used blocks are free to change. -/
theorem congr (h : HeapShape base bs ks heap m)
    (hm : ∀ x, base ≤ x → x < heap.initialAddr + heap.size → ¬ Payload bs x → m' x = m x) :
    HeapShape base bs ks heap m' := by
  have hmeta : ∀ b ∈ bs, ∀ x, b.addr ≤ x → x < b.next → (x < b.user ∨ b.footer ≤ x) →
      m' x = m x := fun b hb x h₁ h₂ h₃ => by
    have hbd := h.mem_bounds hb
    refine hm x (by omega) (by omega) ?_
    rintro ⟨c, hc, -, h₄, h₅⟩
    unfold Block.user Block.footer at *
    rcases h.tiles.apart hb hc with rfl | h₆ | h₆
    · omega
    all_goals
      unfold Block.next at *
      omega
  refine { h with stands := fun b hb => (h.stands b hb).congr ?_ ?_, avl := ?_ }
  · intro x h₁ h₂
    exact hmeta b hb x h₁ (by unfold Block.next; omega) (.inl h₂)
  · intro x h₁ h₂
    unfold Block.footer at h₁ h₂
    exact hmeta b hb x (by omega) (by unfold Block.next; omega) (.inr h₁)
  · have h0 := h.initialAddr
    refine h.avl.congr fun x h₁ h₂ => hm x h₁ (by omega) ?_
    rintro ⟨c, hc, -, h₃, -⟩
    have := h.mem_bounds hc
    unfold Block.user at h₃
    omega

/-- The blocks of one interval are replaced by others, and only that interval is written. -/
theorem replace (h : HeapShape base (xs ++ zs ++ ys) ks heap m) (hzs : Tiles lo zs hi)
    (hne : zs ≠ []) (hzs' : Tiles lo zs' hi) (hst : ∀ b ∈ zs', b.Stands m')
    (hm : ∀ x, x < lo ∨ hi ≤ x → m' x = m x) : HeapShape base (xs ++ zs' ++ ys) ks heap m' := by
  obtain ⟨d, hxz, hys⟩ := tiles_append.mp h.tiles
  obtain ⟨c, hxs, hz⟩ := tiles_append.mp hxz
  -- the interval is that of `zs`
  have hend : ∀ {zs : List Block} {a a' e e' : ℕ}, zs ≠ [] → Tiles a zs e → Tiles a' zs e' →
      a = a' ∧ e = e' := by
    intro zs
    induction zs with
    | nil => exact fun hne => absurd rfl hne
    | cons b zs ih =>
      intro a a' e e' _ ⟨h₁, h₂⟩ ⟨h₃, h₄⟩
      refine ⟨h₁.symm.trans h₃, ?_⟩
      cases zs with
      | nil => exact h₂.symm.trans h₄
      | cons b' zs => exact (ih (List.cons_ne_nil b' zs) h₂ h₄).2
  obtain ⟨rfl, rfl⟩ := hend hne hzs hz
  refine { h with tiles := ?_, stands := ?_, avl := ?_ }
  · exact tiles_append.mpr ⟨_, tiles_append.mpr ⟨_, hxs, hzs'⟩, hys⟩
  · intro b hb
    rcases List.mem_append.mp hb with hb | hb
    · rcases List.mem_append.mp hb with hb | hb
      · have hbd := hxs.mem hb
        unfold Block.next at hbd
        refine (h.stands b (by simp [hb])).congr (fun x _ _ => hm x (by omega)) fun x h₁ h₂ => ?_
        unfold Block.footer at h₁ h₂
        exact hm x (by omega)
      · exact hst b hb
    · have hbd := hys.mem hb
      refine (h.stands b (by simp [hb])).congr (fun x _ _ => hm x (by omega)) fun x h₁ h₂ => ?_
      unfold Block.footer at h₁ h₂
      exact hm x (by omega)
  · have h0 := h.initialAddr
    have h1 := hxs.le
    exact h.avl.congr fun x h₁ h₂ => hm x (by omega)

/-- The heap grows by a page, and the blocks at its end are replaced. -/
theorem grow {size : ℕ} {avl : KallocAVL} {ks' : List Hole}
    (h : HeapShape base (xs ++ zs) ks heap m) (hxs : Tiles heap.initialAddr xs lo)
    (hsize : size = heap.size + 4096) (hfits : heap.initialAddr + size ≤ 4294967296)
    (hzs' : Tiles lo zs' (heap.initialAddr + size)) (hst : ∀ b ∈ zs', b.Stands m')
    (hm : ∀ x, heap.initialAddr ≤ x → x < lo → m' x = m x)
    (havl : AvlHolds base heapNodes ks' avl m') :
    HeapShape base (xs ++ zs') ks' { heap with size := size, avl := avl } m' := by
  have hmod := h.size_mod
  refine ⟨h.initialAddr, ?_, hfits, tiles_append.mpr ⟨_, hxs, hzs'⟩, ?_, ?_, havl⟩
  · show (heap.initialAddr + size) % 4096 = 0
    omega
  · show 0 < size
    omega
  · intro b hb
    rcases List.mem_append.mp hb with hb | hb
    · have hbd := hxs.mem hb
      unfold Block.next at hbd
      refine (h.stands b (by simp [hb])).congr (fun x _ _ => hm x (by omega) (by omega))
        fun x h₁ h₂ => ?_
      unfold Block.footer at h₁ h₂
      exact hm x (by omega) (by omega)
    · exact hst b hb

/-- The key of a block that is not in the list is not among the holes. -/
theorem key_not_mem (ht : Tiles lo xs hi) (hb : b.addr < lo ∨ hi ≤ b.addr) :
    b.key ∉ holes xs := by
  intro hk
  obtain ⟨c, hc, -, hkey⟩ := mem_holes.mp hk
  have hbd := ht.mem hc
  have := (key_inj.mp hkey).2
  unfold Block.next at hbd
  omega

/-! ### The tree of the heap -/

theorem stands_of_frame (h : HeapShape base bs ks heap m)
    (hf : ∀ x, heap.initialAddr ≤ x → m' x = m x) : ∀ b ∈ bs, b.Stands m' := by
  intro b hb
  have hbd := h.tiles.mem hb
  refine (h.stands b hb).congr (fun x _ _ => hf x (by omega)) fun x hx _ => hf x ?_
  unfold Block.footer at hx
  omega

section Avl

variable {σ : Type} (env : PageEnv σ) {s : HeapState σ} {k : Hole}

/-- A new key goes into the tree, unless the pool is exhausted. -/
theorem insert (h : HeapShape base bs ks s.heap s.mem) (hks : k.size < 4294967296)
    (hka : k.addr < 4294967296) (hk : k ∉ ks) :
    Ends (heapAvlInsert env s k.size k.addr)
      (fun s' => ∃ avl m', s' = ⟨{ s.heap with avl := avl }, m', s.sys⟩ ∧
        HeapShape base bs (k :: ks) { s.heap with avl := avl } m' ∧
        ∀ x, x < base ∨ base + 65536 ≤ x → m' x = s.mem x)
      (PoolFull ks.length) := by
  refine (h.avl.insert env hks hka hk).mono ?_ fun _ h => h
  rintro _ ⟨avl, m', rfl, hA, hf⟩
  exact ⟨avl, m', rfl, { h with
    stands := h.stands_of_frame fun x hx => hf x (.inr (h.initialAddr ▸ hx))
    avl := hA }, hf⟩

/-- The first of the keys is removed. -/
theorem remove (h : HeapShape base bs (k :: ks) s.heap s.mem) :
    ∃ avl m', heapAvlRemove env s k.size k.addr = .ok ⟨{ s.heap with avl := avl }, m', s.sys⟩ ∧
      HeapShape base bs ks { s.heap with avl := avl } m' ∧
      ∀ x, x < base ∨ base + 65536 ≤ x → m' x = s.mem x := by
  obtain ⟨avl, m', hrun, hA, hf⟩ := h.avl.remove env
  exact ⟨avl, m', hrun, { h with
    stands := h.stands_of_frame fun x hx => hf x (.inr (h.initialAddr ▸ hx))
    avl := hA }, hf⟩

end Avl

end HeapShape

/-- The tree has a node for each hole. -/
theorem HeapInv.holes_le {base : ℕ} {bs : List Block} {heap : KallocHeap} {m : Mem}
    (h : HeapInv base bs heap m) : (holes bs).length ≤ heapNodes := by
  obtain ⟨t, fl, hI, hk⟩ := h.shape.avl
  rw [← hk.length_eq, ← hI.length_keys]
  exact Nat.le_add_right _ _

end RawOS
