import RawOS.Alloc.AvlOps
import Mathlib.Data.List.Nodup

/-!
# The tree of holes over a run

`AvlInv` is the invariant of the pool: its slots are the nodes of an AVL tree and of the free
list. `kalloc_avl_init` establishes it, `kalloc_avl_insert` and `kalloc_avl_remove` return and
keep it (`AvlInv.insert`, `AvlInv.remove`), and a store outside the pool does not matter
(`AvlInv.congr`). `avlRun_spec` and `avlRun_partition` are the results for every sequence of
operations.
-/

namespace RawOS

open AvlTree (IsAvl)

/-! ## The pool -/

/-- The slots from `i` on, `n` of them. -/
def poolFrom (data i n : ℕ) : List ℕ := (List.range' i n).map fun j => data + 20 * j

/-- The slots of a pool of `n` nodes. -/
def poolSlots (data n : ℕ) : List ℕ := poolFrom data 0 n

theorem poolFrom_succ (data i n : ℕ) :
    poolFrom data i (n + 1) = (data + 20 * i) :: poolFrom data (i + 1) n := rfl

theorem mem_poolFrom {data i n q : ℕ} :
    q ∈ poolFrom data i n ↔ ∃ j, i ≤ j ∧ j < i + n ∧ q = data + 20 * j := by
  simp only [poolFrom, List.mem_map, List.mem_range'_1, and_assoc, eq_comm]

@[simp] theorem length_poolSlots (data n : ℕ) : (poolSlots data n).length = n := by
  simp [poolSlots, poolFrom]

theorem pool_poolSlots {data n : ℕ} (h₀ : data ≠ 0) (h₁ : data + 20 * n ≤ 4294967296) :
    Pool data (poolSlots data n) where
  nodup := by
    refine List.Nodup.map (fun i j h => ?_) List.nodup_range'
    have h : data + 20 * i = data + 20 * j := h
    omega
  slots q hq := by
    obtain ⟨j, -, -, rfl⟩ := mem_poolFrom.mp hq
    exact ⟨j, rfl⟩
  pos q hq := by
    obtain ⟨j, -, -, rfl⟩ := mem_poolFrom.mp hq
    omega
  fits q hq := by
    obtain ⟨j, -, hj, rfl⟩ := mem_poolFrom.mp hq
    omega
  length := by
    rw [length_poolSlots]
    omega

/-! ## `kalloc_avl_init` -/

/-- Node `i` of the initial free list. -/
def initNode (data numNodes i : ℕ) : AvlNode :=
  ⟨if i > 0 then data + 20 * (i - 1) else 0,
    if i ≠ numNodes - 1 then data + 20 * (i + 1) else 0, 0, 0, 0⟩

section Init

variable {data n : ℕ} {m : Mem}

theorem kallocAvlInitNode_frame (m : Mem) (data n i : ℕ) :
    Frame m (kallocAvlInitNode m data n i) [data + 20 * i] :=
  ((((frame_setLeft m _ _).trans (frame_setRight _ _ _)).trans (frame_setHoleSize _ _ _)).trans
    (frame_setHoleAddr _ _ _)).trans (frame_setHeight _ _ _)

theorem readNode_kallocAvlInitNode {i : ℕ} (h₁ : data + 20 * n ≤ 4294967296) (hi : i < n) :
    readNode (kallocAvlInitNode m data n i) (data + 20 * i) = initNode data n i := by
  unfold kallocAvlInitNode initNode sizeofAvlNode
  dsimp only
  rw [readNode_setHeight (by omega) (by omega), readNode_setHoleAddr (by omega),
    readNode_setHoleSize (by omega), readNode_setRight (by split_ifs <;> omega),
    readNode_setLeft (by split_ifs <;> omega)]

theorem kallocAvlInitLoop_frame (m : Mem) (data n : ℕ) :
    ∀ i, Frame m (kallocAvlInitLoop m data n i) (poolSlots data i)
  | 0 => Frame.refl _ _
  | i + 1 => by
    refine ((kallocAvlInitLoop_frame m data n i).mono fun q hq => ?_).trans
      ((kallocAvlInitNode_frame _ data n i).mono fun q hq => ?_)
    · obtain ⟨j, h, hj, rfl⟩ := mem_poolFrom.mp hq
      exact mem_poolFrom.mpr ⟨j, h, by omega, rfl⟩
    · obtain rfl := List.mem_singleton.mp hq
      exact mem_poolFrom.mpr ⟨i, by omega, by omega, rfl⟩

theorem readNode_kallocAvlInitLoop (h₁ : data + 20 * n ≤ 4294967296) :
    ∀ {i j : ℕ}, i ≤ n → j < i →
      readNode (kallocAvlInitLoop m data n i) (data + 20 * j) = initNode data n j
  | i + 1, j, hi, hj => by
    rw [kallocAvlInitLoop]
    by_cases h : j = i
    · subst h
      exact readNode_kallocAvlInitNode h₁ (by omega)
    · rw [(kallocAvlInitNode_frame _ data n i).readNode]
      · exact readNode_kallocAvlInitLoop h₁ (by omega) (by omega)
      · intro q hq
        obtain rfl := List.mem_singleton.mp hq
        unfold Apart
        omega

/-- The nodes from `i` on are linked. -/
theorem freeList_poolFrom (hm : ∀ j < n, readNode m (data + 20 * j) = initNode data n j) :
    ∀ {k i : ℕ}, i + k = n →
      FreeList m (if i > 0 then data + 20 * (i - 1) else 0) (poolFrom data i k)
  | 0, _, _ => trivial
  | k + 1, i, hik => by
    have hi := hm i (by omega)
    rw [poolFrom_succ]
    refine ⟨congrArg AvlNode.left hi, (congrArg AvlNode.right hi).trans ?_, ?_⟩
    · show (if i ≠ n - 1 then data + 20 * (i + 1) else 0) = _
      cases k with
      | zero => exact if_neg (by omega)
      | succ k => exact if_pos (by omega)
    · have h := freeList_poolFrom hm (k := k) (i := i + 1) (by omega)
      rw [if_pos (by omega), Nat.add_sub_cancel] at h
      exact h

end Init

/-! ## The invariant -/

/-- The pool of `n` nodes at `data` holds the tree `t` and the free list `fl`. -/
structure AvlInv (data n : ℕ) (t : HoleTree) (fl : List ℕ) (avl : KallocAVL) (m : Mem) : Prop where
  root : avl.root = t.ptr
  free : avl.free = fl.headD 0
  rep : Rep m t
  freeList : FreeList m 0 fl
  isAvl : t.IsAvl
  slots : (t.labels ++ fl).Perm (poolSlots data n)
  data_ne_zero : data ≠ 0
  fits : data + 20 * n ≤ 4294967296

section Inv

variable {data n : ℕ} {t : HoleTree} {fl : List ℕ} {avl : KallocAVL} {m m' : Mem} {k : Hole}

theorem kallocAvlInit_spec {dataSize : ℕ} (h₀ : data ≠ 0) (h₁ : data + dataSize ≤ 4294967296)
    (h₂ : dataSize ≥ 20) :
    ∃ avl m', kallocAvlInit m data dataSize = .ok (avl, m') ∧
      AvlInv data (dataSize / 20) .nil (poolSlots data (dataSize / 20)) avl m' ∧
      Frame m m' (poolSlots data (dataSize / 20)) := by
  have h₃ : data + 20 * (dataSize / 20) ≤ 4294967296 := by omega
  obtain ⟨n, hn⟩ : ∃ n, dataSize / 20 = n + 1 := ⟨dataSize / 20 - 1, by omega⟩
  refine ⟨{ free := data, root := 0 }, kallocAvlInitLoop m data (dataSize / 20) (dataSize / 20),
    ?_, ⟨rfl, ?_, trivial, ?_, AvlTree.isAvl_nil, List.Perm.refl _, h₀, h₃⟩, ?_⟩
  · unfold kallocAvlInit sizeofAvlNode
    rw [assert_of_true h₂]
    rfl
  · rw [hn, poolSlots, poolFrom_succ]
    rfl
  · exact freeList_poolFrom (fun j hj => readNode_kallocAvlInitLoop h₃ le_rfl hj)
      (Nat.zero_add _)
  · exact kallocAvlInitLoop_frame m data _ _

namespace AvlInv

theorem pool (hI : AvlInv data n t fl avl m) : Pool data (t.labels ++ fl) :=
  (pool_poolSlots hI.data_ne_zero hI.fits).perm hI.slots.symm

theorem height_lt (hI : AvlInv data n t fl avl m) : t.height < avlFuel := by
  have hlen := hI.pool.length
  have hh := t.height_le_length_labels
  rw [List.length_append] at hlen
  unfold avlFuel
  omega

/-- Each node is in the tree or free. -/
theorem length_keys (hI : AvlInv data n t fl avl m) : t.keys.length + fl.length = n := by
  have h := hI.slots.length_eq
  rw [length_poolSlots, List.length_append] at h
  rw [t.length_keys, h]

theorem free_ne_zero (hI : AvlInv data n t fl avl m) : avl.free ≠ 0 ↔ fl ≠ [] := by
  rw [hI.free]
  cases fl with
  | nil => simp
  | cons c fl => simpa using hI.pool.pos c (by simp)

/-- What is outside the pool does not matter. -/
theorem congr (hI : AvlInv data n t fl avl m)
    (h : ∀ x, data ≤ x → x < data + 20 * n → m' x = m x) : AvlInv data n t fl avl m' := by
  have hn : ∀ q ∈ poolSlots data n, readNode m' q = readNode m q := fun q hq => by
    obtain ⟨j, -, hj, rfl⟩ := mem_poolFrom.mp hq
    have key : ∀ x, data + 20 * j ≤ x → x < data + 20 * j + 20 → m' x = m x :=
      fun x _ _ => h x (by omega) (by omega)
    unfold readNode nodeLeft nodeRight nodeHeight nodeHoleSize nodeHoleAddr
    rw [load32_congr fun x _ _ => key x (by omega) (by omega),
      load32_congr (a := _ + 4) fun x _ _ => key x (by omega) (by omega),
      loadS32_congr (a := _ + 8) fun x _ _ => key x (by omega) (by omega),
      load32_congr (a := _ + 12) fun x _ _ => key x (by omega) (by omega),
      load32_congr (a := _ + 16) fun x _ _ => key x (by omega) (by omega)]
  have hrep : ∀ {t : HoleTree}, (∀ q ∈ t.labels, q ∈ poolSlots data n) → Rep m t → Rep m' t := by
    intro t
    induction t with
    | nil => exact fun _ _ => trivial
    | node p h k l r ihl ihr =>
      intro ht ⟨hp, hpn, hl, hr⟩
      simp only [AvlTree.labels_node, List.mem_append, List.mem_cons] at ht
      exact ⟨hp, (hn p (ht p (.inr (.inl rfl)))).trans hpn, ihl (fun q hq => ht q (.inl hq)) hl,
        ihr (fun q hq => ht q (.inr (.inr hq))) hr⟩
  have hfl : ∀ {fl : List ℕ} {prev : ℕ}, (∀ q ∈ fl, q ∈ poolSlots data n) →
      FreeList m prev fl → FreeList m' prev fl := by
    intro fl
    induction fl with
    | nil => exact fun _ _ => trivial
    | cons p fl ih =>
      intro prev hm ⟨hl, hr, hfl⟩
      have hp := hn p (hm p List.mem_cons_self)
      exact ⟨(congrArg AvlNode.left hp).trans hl, (congrArg AvlNode.right hp).trans hr,
        ih (fun q hq => hm q (List.mem_cons_of_mem p hq)) hfl⟩
  exact { hI with
    rep := hrep (fun q hq => hI.slots.mem_iff.mp (List.mem_append_left _ hq)) hI.rep
    freeList := hfl (fun q hq => hI.slots.mem_iff.mp (List.mem_append_right _ hq)) hI.freeList }

/-- `kalloc_avl_insert` of a new key, with a free node. -/
theorem insert {c : ℕ} (hI : AvlInv data n t (c :: fl) avl m) (uninit : ℤ)
    (hks : k.size < 4294967296) (hka : k.addr < 4294967296) (hk : k ∉ t.keys) :
    ∃ avl' m', kallocAvlInsert uninit m avl k.size k.addr = .ok (0, avl', m') ∧
      AvlInv data n (t.insert c k).1 fl avl' m' ∧ Frame m m' (poolSlots data n) := by
  obtain ⟨x, hrun, hy⟩ := insertInternal_rep hks hka (s := ⟨m, avl.free, uninit, 0⟩) hI.height_lt
    hI.pool hI.rep hI.free hI.freeList hI.isAvl.balanced hk
  refine ⟨{ free := x.2.free, root := x.1 }, x.2.mem, ?_, ?_, ?_⟩
  · unfold kallocAvlInsert
    dsimp only
    rw [hI.root, hrun, ok_bind]
    simp only [hy.status]
    rfl
  · exact ⟨hy.root, hy.free, hy.rep, hy.freeList, AvlTree.insert_isAvl hI.isAvl hk,
      hy.perm.trans hI.slots, hI.data_ne_zero, hI.fits⟩
  · exact hy.frame.mono fun q hq => hI.slots.mem_iff.mp hq

/-- `kalloc_avl_insert` of a new key, without a free node. -/
theorem insert_full (hI : AvlInv data n t [] avl m) (uninit : ℤ) (hk : k ∉ t.keys) :
    kallocAvlInsert uninit m avl k.size k.addr = .error poolExhausted := by
  unfold kallocAvlInsert
  dsimp only
  rw [hI.root, insertInternal_full hI.height_lt hI.rep hI.free hk]
  rfl

/-- `kalloc_avl_remove` of a key that is there. -/
theorem remove (hI : AvlInv data n t fl avl m) (uninit : ℤ) (hk : k ∈ t.keys) :
    ∃ avl' m', kallocAvlRemove uninit m avl k.size k.addr = .ok (0, avl', m') ∧
      AvlInv data n (t.remove k).1.1 ((t.remove k).2 ++ fl) avl' m' ∧
      Frame m m' (poolSlots data n) := by
  obtain ⟨x, hrun, hy⟩ := removeInternal_rep hI.isAvl hk (s := ⟨m, avl.free, uninit, 0⟩)
    hI.height_lt hI.pool hI.rep hI.free hI.freeList
  refine ⟨{ free := x.2.free, root := x.1 }, x.2.mem, ?_, ?_, ?_⟩
  · unfold kallocAvlRemove
    dsimp only
    rw [hI.root, hrun, ok_bind]
    simp only [hy.status]
    rfl
  · exact ⟨hy.root, hy.free, hy.rep, hy.freeList, AvlTree.remove_isAvl hI.isAvl hk,
      hy.perm.trans hI.slots, hI.data_ne_zero, hI.fits⟩
  · exact hy.frame.mono fun q hq => hI.slots.mem_iff.mp hq

theorem findHole (hI : AvlInv data n t fl avl m) (holeSize alignment : ℕ) :
    kallocAvlFindHole m avl holeSize alignment = .ok (t.findHole holeSize alignment) := by
  unfold kallocAvlFindHole
  rw [hI.root]
  exact avlFindHoleInternal_rep hI.height_lt hI.rep

end AvlInv

end Inv

/-! ## Runs -/

/-- A pool and its memory after `kalloc_avl_init` and any sequence of insertions of new keys, with
a free node, and removals of present ones; `keys` are the keys inserted and not removed. Between
two operations the memory outside the pool may change. -/
inductive AvlRun (data dataSize : ℕ) : List Hole → KallocAVL → Mem → Prop where
  | init {m m' : Mem} {avl : KallocAVL} :
    kallocAvlInit m data dataSize = .ok (avl, m') → AvlRun data dataSize [] avl m'
  | insert {keys : List Hole} {avl avl' : KallocAVL} {m m' : Mem} {k : Hole} {uninit error : ℤ} :
    AvlRun data dataSize keys avl m → k ∉ keys → k.size < 4294967296 → k.addr < 4294967296 →
    avl.free ≠ 0 → kallocAvlInsert uninit m avl k.size k.addr = .ok (error, avl', m') →
    AvlRun data dataSize (k :: keys) avl' m'
  | remove {keys : List Hole} {avl avl' : KallocAVL} {m m' : Mem} {k : Hole} {uninit notFound : ℤ} :
    AvlRun data dataSize keys avl m → k ∈ keys →
    kallocAvlRemove uninit m avl k.size k.addr = .ok (notFound, avl', m') →
    AvlRun data dataSize (keys.erase k) avl' m'
  | other {keys : List Hole} {avl : KallocAVL} {m m' : Mem} :
    AvlRun data dataSize keys avl m →
    (∀ x, data ≤ x → x < data + dataSize → m' x = m x) → AvlRun data dataSize keys avl m'

section Run

variable {data dataSize : ℕ} {keys : List Hole} {avl : KallocAVL} {m : Mem}

/-- Every run keeps the invariant, and the tree holds the keys of the run. -/
theorem AvlRun.inv (h₀ : data ≠ 0) (h₁ : data + dataSize ≤ 4294967296)
    (h : AvlRun data dataSize keys avl m) :
    ∃ t fl, AvlInv data (dataSize / 20) t fl avl m ∧ t.keys.Perm keys := by
  induction h with
  | @init m m' avl hrun =>
    have h₂ : dataSize ≥ 20 := by
      unfold kallocAvlInit at hrun
      obtain ⟨_, hassert, -⟩ := bind_eq_ok.mp hrun
      exact assert_eq_ok.mp hassert
    obtain ⟨avl', m'', hrun', hI, -⟩ := kallocAvlInit_spec (m := m) h₀ h₁ h₂
    obtain ⟨rfl, rfl⟩ : avl' = avl ∧ m'' = m' := by
      rw [hrun'] at hrun
      injection hrun with hrun
      exact Prod.mk.inj hrun
    exact ⟨_, _, hI, List.Perm.refl _⟩
  | @insert keys avl avl' m m' k uninit error _ hk hks hka hfree hrun ih =>
    obtain ⟨t, fl, hI, hkeys⟩ := ih
    have hkt : k ∉ t.keys := fun hm => hk (hkeys.mem_iff.mp hm)
    rcases fl with _ | ⟨c, fl⟩
    · exact absurd rfl (hI.free_ne_zero.mp hfree)
    · obtain ⟨avl'', m'', hrun', hI', -⟩ := hI.insert uninit hks hka hkt
      obtain ⟨-, rfl, rfl⟩ : 0 = error ∧ avl'' = avl' ∧ m'' = m' := by
        rw [hrun'] at hrun
        injection hrun with hrun
        simpa only [Prod.mk.injEq] using hrun
      exact ⟨_, _, hI', (AvlTree.keys_insert c k t).trans (hkeys.cons k)⟩
  | @remove keys avl avl' m m' k uninit notFound _ hk hrun ih =>
    obtain ⟨t, fl, hI, hkeys⟩ := ih
    have hkt : k ∈ t.keys := hkeys.mem_iff.mpr hk
    obtain ⟨avl'', m'', hrun', hI', -⟩ := hI.remove uninit hkt
    obtain ⟨-, rfl, rfl⟩ : 0 = notFound ∧ avl'' = avl' ∧ m'' = m' := by
      rw [hrun'] at hrun
      injection hrun with hrun
      simpa only [Prod.mk.injEq] using hrun
    have hperm := (AvlTree.cons_keys_remove hI.isAvl hkt).trans hkeys
    exact ⟨_, _, hI', (List.cons_perm_iff_perm_erase.mp hperm).2⟩
  | other _ hm ih =>
    obtain ⟨t, fl, hI, hkeys⟩ := ih
    exact ⟨t, fl, hI.congr fun x _ _ => hm x (by omega) (by omega), hkeys⟩

/-- After every sequence of operations the memory holds a search tree of exactly the keys
inserted and not removed, with exact heights and balanced at every node, and the next operation
returns: none of the assertions on a balance factor fails. -/
theorem avlRun_spec (h₀ : data ≠ 0) (h₁ : data + dataSize ≤ 4294967296)
    (h : AvlRun data dataSize keys avl m) :
    (∃ t : HoleTree, avl.root = t.ptr ∧ Rep m t ∧ t.Ordered ∧ t.Balanced ∧ t.keys.Perm keys) ∧
      (∀ (uninit : ℤ) (k : Hole), k ∉ keys → k.size < 4294967296 → k.addr < 4294967296 →
        avl.free ≠ 0 →
        ∃ avl' m', kallocAvlInsert uninit m avl k.size k.addr = .ok (0, avl', m')) ∧
      (∀ (uninit : ℤ) (k : Hole), k ∈ keys →
        ∃ avl' m', kallocAvlRemove uninit m avl k.size k.addr = .ok (0, avl', m')) := by
  obtain ⟨t, fl, hI, hkeys⟩ := h.inv h₀ h₁
  refine ⟨⟨t, hI.root, hI.rep, hI.isAvl.ordered, hI.isAvl.balanced, hkeys⟩, ?_, ?_⟩
  · intro uninit k hk hks hka hfree
    rcases fl with _ | ⟨c, fl⟩
    · exact absurd rfl (hI.free_ne_zero.mp hfree)
    · obtain ⟨avl', m', hrun, -⟩ := hI.insert uninit hks hka fun hm => hk (hkeys.mem_iff.mp hm)
      exact ⟨avl', m', hrun⟩
  · intro uninit k hk
    obtain ⟨avl', m', hrun, -⟩ := hI.remove uninit (hkeys.mem_iff.mpr hk)
    exact ⟨avl', m', hrun⟩

/-- While a node is free, a run goes on with the insertion of a new key. -/
theorem AvlRun.exists_insert (h₀ : data ≠ 0) (h₁ : data + dataSize ≤ 4294967296)
    (h : AvlRun data dataSize keys avl m) {k : Hole} (hn : keys.length < dataSize / 20)
    (hk : k ∉ keys) (hks : k.size < 4294967296) (hka : k.addr < 4294967296) :
    ∃ avl' m', AvlRun data dataSize (k :: keys) avl' m' := by
  obtain ⟨t, fl, hI, hkeys⟩ := h.inv h₀ h₁
  have hlen := hI.length_keys
  rw [hkeys.length_eq] at hlen
  rcases fl with _ | ⟨c, fl⟩
  · rw [List.length_nil] at hlen
    omega
  · have hfree := hI.free_ne_zero.mpr (List.cons_ne_nil c fl)
    obtain ⟨avl', m', hrun, -⟩ := hI.insert 0 hks hka fun hm => hk (hkeys.mem_iff.mp hm)
    exact ⟨avl', m', h.insert hk hks hka hfree hrun⟩

/-- A run goes on with the removal of a key that is there. -/
theorem AvlRun.exists_remove (h₀ : data ≠ 0) (h₁ : data + dataSize ≤ 4294967296)
    (h : AvlRun data dataSize keys avl m) {k : Hole} (hk : k ∈ keys) :
    ∃ avl' m', AvlRun data dataSize (keys.erase k) avl' m' := by
  obtain ⟨t, fl, hI, hkeys⟩ := h.inv h₀ h₁
  obtain ⟨avl', m', hrun, -⟩ := hI.remove 0 (hkeys.mem_iff.mpr hk)
  exact ⟨avl', m', h.remove hk hrun⟩

/-- A pool of four nodes after the insertion of three keys in increasing order, which rotates the
tree, the removal of its root and the insertion of a smaller key. -/
theorem exists_avlRun :
    ∃ avl m, AvlRun 20 80 [hole 50 16384, hole 300 12288, hole 100 4096] avl m := by
  have h₀ : AvlRun 20 80 [] ⟨20, 0⟩ (kallocAvlInitLoop (fun _ => 0) 20 4 4) :=
    .init (m := fun _ => 0) rfl
  obtain ⟨_, _, h₁⟩ := h₀.exists_insert (k := hole 100 4096) (by decide) (by decide) (by decide)
    (by decide) (by decide) (by decide)
  obtain ⟨_, _, h₂⟩ := h₁.exists_insert (k := hole 200 8192) (by decide) (by decide) (by decide)
    (by decide) (by decide) (by decide)
  obtain ⟨_, _, h₃⟩ := h₂.exists_insert (k := hole 300 12288) (by decide) (by decide) (by decide)
    (by decide) (by decide) (by decide)
  obtain ⟨_, _, h₄⟩ := h₃.exists_remove (k := hole 200 8192) (by decide) (by decide) (by decide)
  exact h₄.exists_insert (by decide) (by decide) (by decide) (by decide) (by decide) (by decide)

theorem avlRun_spec_removed :
    ∃ avl m, AvlRun 20 80 [hole 50 16384, hole 300 12288, hole 100 4096] avl m ∧
      ∃ t : HoleTree, avl.root = t.ptr ∧ Rep m t ∧ t.Ordered ∧ t.Balanced ∧
        t.keys.Perm [hole 50 16384, hole 300 12288, hole 100 4096] := by
  obtain ⟨avl, m, h⟩ := exists_avlRun
  exact ⟨avl, m, h, (avlRun_spec (by decide) (by decide) h).1⟩

/-! ## Tree and free list -/

/-- The `n` nodes of the pool at `data` are split: what `root` reaches is the tree `t`, what `free`
reaches is the doubly linked list `fl`, whose head has no left neighbour, and each node of the pool
is reached exactly once. -/
structure PoolPartition (data n : ℕ) (avl : KallocAVL) (m : Mem) (t : HoleTree) (fl : List ℕ) :
    Prop where
  root : avl.root = t.ptr
  tree : Rep m t
  free : avl.free = fl.headD 0
  list : FreeList m 0 fl
  once : (t.labels ++ fl).Nodup
  all : ∀ q, q ∈ t.labels ++ fl ↔ ∃ j < n, q = data + sizeofAvlNode * j

theorem AvlInv.partition {n : ℕ} {t : HoleTree} {fl : List ℕ} (hI : AvlInv data n t fl avl m) :
    PoolPartition data n avl m t fl where
  root := hI.root
  tree := hI.rep
  free := hI.free
  list := hI.freeList
  once := hI.pool.nodup
  all q := by
    rw [hI.slots.mem_iff, poolSlots, mem_poolFrom]
    exact exists_congr fun j => by simp [sizeofAvlNode]

/-- With a free node, `get_free_node` takes it. -/
theorem AvlInv.getFreeNode {n : ℕ} {t : HoleTree} {fl : List ℕ} (hI : AvlInv data n t fl avl m)
    (hfree : avl.free ≠ 0) (flag status : ℤ) :
    ∃ s', getFreeNode ⟨m, avl.free, flag, status⟩ = .ok (avl.free, s') := by
  rcases fl with _ | ⟨c, fl⟩
  · exact absurd rfl (hI.free_ne_zero.mp hfree)
  · have hP : Pool data (c :: fl) := hI.pool.sublist (List.sublist_append_right _ _)
    obtain ⟨m', hrun, -⟩ :=
      getFreeNode_rep (s := ⟨m, avl.free, flag, status⟩) hP hI.free hI.freeList
    rw [hI.free] at hrun ⊢
    exact ⟨_, hrun⟩

/-- A node of the tree can be put on the free list. -/
theorem AvlInv.putFreeNode {n p : ℕ} {t : HoleTree} {fl : List ℕ} (hI : AvlInv data n t fl avl m)
    (hp : p ∈ t.labels) (flag status : ℤ) :
    ∃ s', putFreeNode ⟨m, avl.free, flag, status⟩ p = .ok s' := by
  have hP : Pool data (p :: fl) :=
    hI.pool.sublist ((List.singleton_sublist.mpr hp).append (List.Sublist.refl fl))
  obtain ⟨m', hrun, -⟩ :=
    putFreeNode_rep (s := ⟨m, avl.free, flag, status⟩) hP hI.free hI.freeList
  exact ⟨_, hrun⟩

/-- After every sequence of operations the pool is split into the tree and the free list, and the
assertions on the links of the free list pass: an insertion stops only for want of a free node, a
removal never. -/
theorem avlRun_partition (h₀ : data ≠ 0) (h₁ : data + dataSize ≤ 4294967296)
    (h : AvlRun data dataSize keys avl m) :
    ∃ (t : HoleTree) (fl : List ℕ), PoolPartition data (dataSize / sizeofAvlNode) avl m t fl ∧
      t.keys.Perm keys ∧
      (∀ flag status : ℤ,
        (avl.free ≠ 0 → ∃ s', getFreeNode ⟨m, avl.free, flag, status⟩ = .ok (avl.free, s')) ∧
        ∀ p ∈ t.labels, ∃ s', putFreeNode ⟨m, avl.free, flag, status⟩ p = .ok s') ∧
      (∀ (uninit : ℤ) (k : Hole), k ∉ keys → k.size < 4294967296 → k.addr < 4294967296 →
        if avl.free ≠ 0 then
          ∃ avl' m', kallocAvlInsert uninit m avl k.size k.addr = .ok (0, avl', m')
        else kallocAvlInsert uninit m avl k.size k.addr = .error poolExhausted) ∧
      (∀ (uninit : ℤ) (k : Hole), k ∈ keys →
        ∃ avl' m', kallocAvlRemove uninit m avl k.size k.addr = .ok (0, avl', m')) := by
  obtain ⟨t, fl, hI, hkeys⟩ := h.inv h₀ h₁
  refine ⟨t, fl, hI.partition, hkeys, fun flag status => ⟨fun hfree => ?_, fun p hp => ?_⟩,
    fun uninit k hk hks hka => ?_, fun uninit k hk => ?_⟩
  · exact hI.getFreeNode hfree flag status
  · exact hI.putFreeNode hp flag status
  · have hkt : k ∉ t.keys := fun hm => hk (hkeys.mem_iff.mp hm)
    rcases fl with _ | ⟨c, fl⟩
    · rw [if_neg fun hfree => hI.free_ne_zero.mp hfree rfl]
      exact hI.insert_full uninit hkt
    · rw [if_pos (hI.free_ne_zero.mpr (List.cons_ne_nil _ _))]
      obtain ⟨avl', m', hrun, -⟩ := hI.insert uninit hks hka hkt
      exact ⟨avl', m', hrun⟩
  · obtain ⟨avl', m', hrun, -⟩ := hI.remove uninit (hkeys.mem_iff.mpr hk)
    exact ⟨avl', m', hrun⟩

theorem avlRun_partition_removed :
    ∃ avl m, AvlRun 20 80 [hole 50 16384, hole 300 12288, hole 100 4096] avl m ∧
      ∃ t fl, PoolPartition 20 4 avl m t fl ∧
        t.keys.Perm [hole 50 16384, hole 300 12288, hole 100 4096] := by
  obtain ⟨avl, m, h⟩ := exists_avlRun
  obtain ⟨t, fl, hsplit, hkeys, -⟩ := avlRun_partition (by decide) (by decide) h
  exact ⟨avl, m, h, t, fl, hsplit, hkeys⟩

end Run

end RawOS
