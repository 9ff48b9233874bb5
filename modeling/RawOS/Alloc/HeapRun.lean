import RawOS.Alloc.HeapBump
import RawOS.Alloc.HeapFree
import Mathlib.Order.CompletePartialOrder
import Mathlib.Order.Interval.Set.Disjoint

/-!
# Runs of the kernel heap

`LiveInv` says that the blocks of the heap hold the live allocations. A `HeapRun` is
`kalloc_heap_create` followed by any calls of `kalloc_heap_alloc` and `kalloc_heap_free`, between
which the owners of the live allocations write into them; `HeapRun.inv` is the invariant.

1. `heapRun_wellFormed`: the heap stays in order.
2. `heapRun_exclusive_iff`: the live allocations are aligned, inside the heap, and apart from each
   other and from the headers and footers, exactly when no aligned request adds up to more than
   `2 ^ 32`.
-/

namespace RawOS

/-! ## Creation -/

section Create

variable {σ : Type} {env : PageEnv σ} {base : ℕ} {I : ℕ → σ → Mem → Prop} {E : Set ℕ}

/-- A page of the heap could not be created when the heap ended below `limit`. -/
def PageMissing (env : PageEnv σ) (base limit : ℕ) (I : ℕ → σ → Mem → Prop) (e : Panic) : Prop :=
  ∃ a sys m, I a sys m ∧ a % 4096 = 0 ∧ base ≤ a ∧ a < limit ∧
    env.createPage (a / 4096) sys m = .error e

theorem createPages_spec {limit : ℕ} (hP : PagesOk env base E I) (hmod : base % 4096 = 0) {sys : σ}
    {m : Mem} (hI : I base sys m) (hlimit : limit ≤ 4294967296) : ∀ {n : ℕ}, base + 4096 * n ≤ limit →
      Ends (createPages env (base / 4096) sys m n) (fun r => I (base + 4096 * n) r.1 r.2)
        (PageMissing env base limit I)
  | 0, _ => hI
  | n + 1, hn => by
    rw [createPages]
    refine (createPages_spec hP hmod hI hlimit (n := n) (by omega)).bind ?_
    rintro ⟨sys₁, m₁⟩ hI₁
    have hpage : u32 (base / 4096 + n) = (base + 4096 * n) / 4096 := by
      rw [u32_of_lt (by omega)]
      omega
    dsimp only
    rw [hpage]
    cases hcr : env.createPage ((base + 4096 * n) / 4096) sys₁ m₁ with
    | error e => exact ⟨_, _, _, hI₁, by omega, by omega, by omega, hcr⟩
    | ok r =>
      have hI₂ := (hP.step hI₁ (by omega) (by omega) (by omega) hcr).1
      rw [Nat.add_assoc, ← Nat.mul_succ] at hI₂
      exact hI₂

/-- `kalloc_heap_create` on a page that is not the first one: the heap is one hole. -/
theorem kallocHeapCreate_spec {sys : σ} {m : Mem} {pages : ℕ} (hP : PagesOk env base ∅ I)
    (hI : I base sys m) (hmod : base % 4096 = 0) (hbase : base ≠ 0) (hpages : 0 < pages)
    (hfits : base + (16 + pages) * 4096 ≤ 4294967296) :
    Ends (kallocHeapCreate env sys m base pages)
      (fun s => HeapInv base [⟨base + 65536, pages * 4096 - 20, false⟩] s.heap s.mem ∧
        s.heap.size = pages * 4096 ∧ I (base + 65536 + pages * 4096) s.sys s.mem)
      (PageMissing env base (base + (16 + pages) * 4096) I) := by
  have hz : u32 (pages * 4096) = pages * 4096 := u32_of_lt (by omega)
  unfold kallocHeapCreate pageSize sizeofHeader sizeofFooter numPagesReservedForAvl
  rw [assert_of_true (by omega), ok_bind, hz, assert_of_true (by omega), ok_bind,
    u32_of_lt (show 16 + pages < 4294967296 by omega)]
  refine (createPages_spec hP hmod hI hfits (n := 16 + pages) (by omega)).bind ?_
  rintro ⟨sys₁, m₁⟩ hI₁
  dsimp only at hI₁ ⊢
  obtain ⟨avl, m₂, hinit, havl, hf₂⟩ := kallocAvlInit_spec (m := m₁) hbase
    (show base + 65536 ≤ 4294967296 by omega) (by omega)
  have hinit' : kallocAvlInit m₁ base (16 * 4096) = .ok (avl, m₂) := hinit
  rw [hinit', ok_bind]
  dsimp only
  -- the only block
  obtain ⟨b, hba, hbz, hbu⟩ : ∃ b : Block, b.addr = base + 65536 ∧ b.size = pages * 4096 - 20 ∧
      b.used = false := ⟨⟨base + 65536, pages * 4096 - 20, false⟩, rfl, rfl, rfl⟩
  have hbf : b.footer = base + 65536 + pages * 4096 - 8 := by unfold Block.footer; omega
  have hbn : b.next = base + 65536 + pages * 4096 := by unfold Block.next; omega
  have hhead : u32 (base + 16 * 4096) = b.addr := by
    rw [u32_of_lt (by omega)]
    omega
  have hfoot : u32Sub (u32 (b.addr + pages * 4096)) 8 = b.footer := by
    rw [u32Sub_u32 (by omega) (by omega) (by omega)]
    omega
  have hsize : u32Sub (u32Sub (pages * 4096) 12) 8 = b.size := by
    unfold u32Sub
    omega
  have huser : u32 (b.addr + 12) = b.addr + 12 := u32_of_lt (by omega)
  obtain ⟨m₃, hm₃⟩ : ∃ m₃, m₃ = setHeaderUsed (setHeaderSize (setHeaderMagic m₂ b.addr) b.addr
      b.size) b.addr 0 := ⟨_, rfl⟩
  obtain ⟨m₄, hm₄⟩ : ∃ m₄, m₄ = setFooterMagic (setFooterHeader m₃ b.footer b.addr) b.footer :=
    ⟨_, rfl⟩
  have hfr₃ : ∀ x, x < b.addr ∨ b.addr + 12 ≤ x → m₃ x = m₂ x := fun x hx => by
    rw [hm₃, setHeaderUsed_of_outside hx, setHeaderSize_of_outside hx, setHeaderMagic_of_outside hx]
  have hfr₄ : ∀ x, x < b.footer ∨ b.footer + 8 ≤ x → m₄ x = m₃ x := fun x hx => by
    rw [hm₄, setFooterMagic_of_outside hx, setFooterHeader_of_outside hx]
  have hbs : b.Stands m₄ := by
    have hh : HeaderAt m₃ b.addr b.size false := hm₃ ▸ headerAt_set _ _ (by omega) false
    constructor
    · rw [hbu]
      exact hh.congr fun x _ _ => hfr₄ x (by omega)
    · rw [hm₄]
      exact footerAt_set' _ _ (by omega)
  obtain ⟨heap, hheap⟩ : ∃ heap : KallocHeap, heap = ⟨base, b.addr, pages * 4096, avl⟩ := ⟨_, rfl⟩
  have hi : heap.initialAddr = b.addr := by rw [hheap]
  have hs : heap.size = pages * 4096 := by rw [hheap]
  have hshape : HeapShape base [b] [] heap m₄ := by
    have hA : AvlHolds base heapNodes [] avl m₂ := ⟨.nil, _, havl, List.Perm.nil⟩
    refine ⟨hi.trans hba, by omega, by omega, ⟨hi.symm, by rw [tiles_nil]; omega⟩, by omega,
      by simpa using hbs, ?_⟩
    rw [hheap]
    exact hA.congr fun x _ _ => (hfr₄ x (by omega)).trans (hfr₃ x (by omega))
  have hins := hshape.insert env (s := ⟨heap, m₄, sys₁⟩) (k := b.key)
    (by rw [Block.key_size]; omega) (by rw [Block.key_addr]; omega) List.not_mem_nil
  rw [hhead, hfoot, hsize, ← hm₃, ← hm₄, hbs.header.size, huser, ← hheap]
  refine hins.mono ?_ ?_
  · rintro _ ⟨avl', m₅, rfl, hsh, hf₅⟩
    rw [← hba, ← hbz, ← hbu]
    refine ⟨⟨hsh.perm_keys ?_, ?_⟩, hs, ?_⟩
    · rw [show Block.mk b.addr b.size b.used = b from rfl, holes_cons_free hbu, holes_nil]
    · rintro x hx y hy hxy
      obtain rfl := List.mem_singleton.mp hx
      obtain rfl := List.mem_singleton.mp hy
      unfold Block.next at hxy
      dsimp only at hxy
      omega
    · have hend : base + 4096 * (16 + pages) = b.addr + pages * 4096 := by omega
      rw [hend] at hI₁
      refine hP.stable hI₁ fun x hx => ?_
      have hx' : x < base ∨ b.addr + pages * 4096 ≤ x :=
        hx.imp_right fun h => h.resolve_right (Set.notMem_empty x)
      calc m₅ x = m₄ x := hf₅ x (by omega)
        _ = m₃ x := hfr₄ x (by omega)
        _ = m₂ x := hfr₃ x (by omega)
        _ = m₁ x := frame_pool hf₂ (by omega)
  · rintro e ⟨-, hfull⟩
    exact absurd hfull (by decide)

/-- A heap that was created is as `kallocHeapCreate_spec` says. -/
theorem kallocHeapCreate_inv {sys : σ} {m : Mem} {pages : ℕ} {s : HeapState σ}
    (hP : PagesOk env base ∅ I) (hI : I base sys m)
    (hfits : base + (16 + pages) * 4096 ≤ 4294967296)
    (hrun : kallocHeapCreate env sys m base pages = .ok s) :
    HeapInv base [⟨base + 65536, pages * 4096 - 20, false⟩] s.heap s.mem ∧
      s.heap.size = pages * 4096 ∧ I (base + 65536 + pages * 4096) s.sys s.mem := by
  have hz : u32 (pages * 4096) = pages * 4096 := u32_of_lt (by omega)
  obtain ⟨_, hmod, hrun'⟩ := bind_eq_ok.mp hrun
  obtain ⟨_, hpos, hrun'⟩ := bind_eq_ok.mp hrun'
  rw [assert_eq_ok] at hmod hpos
  unfold pageSize sizeofFooter sizeofHeader at hpos
  have hbase : base ≠ 0 := by
    -- page 0 exists
    rintro rfl
    obtain ⟨r, hpages, -⟩ := bind_eq_ok.mp hrun'
    have hno : ∀ n r, createPages env (0 / pageSize) sys m (n + 1) ≠ .ok r := by
      intro n
      induction n with
      | zero => exact fun r => hP.zero hI
      | succ n ih =>
        intro r hr
        obtain ⟨r', hr', -⟩ := bind_eq_ok.mp hr
        exact ih r' hr'
    obtain ⟨n, hn⟩ : ∃ n, u32 (numPagesReservedForAvl + pages) = n + 1 := by
      refine ⟨15 + pages, ?_⟩
      unfold numPagesReservedForAvl
      rw [u32_of_lt (by omega)]
      omega
    rw [hn] at hpages
    exact hno n r hpages
  exact (kallocHeapCreate_spec hP hI hmod hbase (by omega) hfits).of_ok hrun

end Create

/-! ## Live allocations -/

/-- An allocation: what was returned, and for which request. -/
structure Live where
  ptr : ℕ
  size : ℕ
  alignment : ℕ
  deriving DecidableEq

namespace Live

/-- The bytes that were asked for. -/
def range (l : Live) : Set ℕ := Set.Ico l.ptr (l.ptr + l.size)

/-- A used block starts at the pointer, and it is long enough unless the request overflows. -/
def Held (bs : List Block) (l : Live) : Prop :=
  ∃ b ∈ bs, b.used = true ∧ b.user = l.ptr ∧
    (l.size ≤ b.size ∨ l.alignment ≠ 0 ∧ 4294967296 < l.size + l.alignment)

/-- A byte that was asked for, and is in the block. -/
def Owns (m : Mem) (l : Live) (x : ℕ) : Prop :=
  l.ptr ≤ x ∧ x < l.ptr + l.size ∧ x < l.ptr + headerSize m (l.ptr - 12)

end Live

/-- The blocks `bs` of a heap in order hold the allocations `live`. -/
structure LiveInv (base : ℕ) (bs : List Block) (live : List Live) (heap : KallocHeap) (m : Mem) :
    Prop where
  heap : HeapInv base bs heap m
  held : ∀ l ∈ live, l.Held bs
  aligned : ∀ l ∈ live, l.alignment ≠ 0 → l.alignment ∣ l.ptr
  nodup : (live.map Live.ptr).Nodup

section Live

variable {σ : Type} {env : PageEnv σ} {base : ℕ} {E : Set ℕ} {I : ℕ → σ → Mem → Prop}
  {s s' : HeapState σ} {bs bs' : List Block} {live : List Live} {l : Live}

theorem Live.Owns.payload (h : LiveInv base bs live s.heap s.mem) (hl : l ∈ live) {x : ℕ}
    (hx : l.Owns s.mem x) : Payload bs x := by
  obtain ⟨b, hb, hbu, hbp, -⟩ := h.held l hl
  obtain ⟨h₁, -, h₂⟩ := hx
  have hhead : l.ptr - 12 = b.addr := by
    unfold Block.user at hbp
    omega
  rw [hhead, (h.heap.shape.stands b hb).header.size] at h₂
  refine ⟨b, hb, hbu, by omega, ?_⟩
  unfold Block.footer
  unfold Block.user at hbp
  omega

namespace LiveInv

/-- `kalloc_heap_alloc` adds an allocation. -/
theorem alloc {size alignment p : ℕ} (h : LiveInv base bs live s.heap s.mem)
    (ha : AllocDone base E I bs size alignment s p s' bs') :
    LiveInv base bs' (⟨p, size, alignment⟩ :: live) s'.heap s'.mem := by
  refine ⟨ha.inv, ?_, ?_, ?_⟩
  · intro l hl
    rcases List.mem_cons.mp hl with rfl | hl
    · exact ha.allocated.block
    · obtain ⟨b, hb, hbu, hbp, hroom⟩ := h.held l hl
      obtain ⟨-, c, hc, hcu, hca, hcz⟩ := ha.allocated.old b hb hbu
      refine ⟨c, hc, hcu, ?_, hroom.imp_left fun h => h.trans hcz⟩
      rw [← hbp, Block.user, Block.user, hca]
  · intro l hl
    rcases List.mem_cons.mp hl with rfl | hl
    · exact ha.allocated.aligned
    · exact h.aligned l hl
  · rw [List.map_cons, List.nodup_cons]
    refine ⟨fun hp => ?_, h.nodup⟩
    obtain ⟨l, hl, hlp⟩ := List.mem_map.mp hp
    obtain ⟨b, hb, hbu, hbp, -⟩ := h.held l hl
    exact (ha.allocated.old b hb hbu).1 (hbp.trans hlp)

/-- Two allocations with one pointer are the same. -/
theorem ptr_inj (h : LiveInv base bs live s.heap s.mem) {l' : Live} (hl : l ∈ live)
    (hl' : l' ∈ live) (heq : l.ptr = l'.ptr) : l = l' :=
  List.inj_on_of_nodup_map h.nodup hl hl' heq

/-- `kalloc_heap_free` of a live allocation, which is held by the block `b`. -/
theorem free {b : Block} (h : LiveInv base bs live s.heap s.mem) (hl : l ∈ live)
    (hbp : b.user = l.ptr) (hf : Freed base bs b s s' bs') :
    LiveInv base bs' (live.erase l) s'.heap s'.mem := by
  refine ⟨hf.inv, ?_, fun l' hl' => h.aligned l' (List.mem_of_mem_erase hl'), ?_⟩
  · intro l' hl'
    have hne : l' ≠ l := ((List.Nodup.mem_erase_iff h.nodup.of_map).mp hl').1
    have hmem := List.mem_of_mem_erase hl'
    obtain ⟨c, hc, hcu, hcp, hroom⟩ := h.held l' hmem
    refine ⟨c, (hf.used c hcu).mpr ⟨hc, ?_⟩, hcu, hcp, hroom⟩
    rintro rfl
    exact hne (h.ptr_inj hmem hl (hcp.symm.trans hbp))
  · exact h.nodup.sublist (List.erase_sublist.map Live.ptr)

/-- The bytes that were asked for without an alignment are the owner's. -/
theorem owns (h : LiveInv base bs live s.heap s.mem) (hl : l ∈ live) (h0 : l.alignment = 0) {x : ℕ}
    (h₁ : l.ptr ≤ x) (h₂ : x < l.ptr + l.size) : l.Owns s.mem x := by
  obtain ⟨b, hb, -, hbp, hroom | ⟨ha, -⟩⟩ := h.held l hl
  · have hhead : l.ptr - 12 = b.addr := by
      unfold Block.user at hbp
      omega
    refine ⟨h₁, h₂, ?_⟩
    rw [hhead, (h.heap.shape.stands b hb).header.size]
    omega
  · exact absurd h0 ha

/-- The bytes of the used blocks are free to change. -/
theorem congr {m' : Mem} (h : LiveInv base bs live s.heap s.mem)
    (hm : ∀ x, base ≤ x → x < s.heap.initialAddr + s.heap.size → ¬ Payload bs x →
      m' x = s.mem x) : LiveInv base bs live s.heap m' :=
  { h with heap := ⟨h.heap.shape.congr hm, h.heap.separated⟩ }

end LiveInv

end Live

/-! ## Runs -/

/-- Page 0 exists, and creating a page touches no byte of a heap that lies below it. -/
structure KeepsHeap {σ : Type} (env : PageEnv σ) (base : ℕ) : Prop where
  zero : ∀ sys m r, env.createPage 0 sys m ≠ .ok r
  frame : ∀ {page sys m sys' m'}, env.createPage page sys m = .ok (sys', m') →
    ∀ x, base ≤ x → x < page * 4096 → m' x = m x

theorem KeepsHeap.pagesOk {σ : Type} {env : PageEnv σ} {base : ℕ} (h : KeepsHeap env base)
    (E : Set ℕ) : PagesOk env base E fun _ _ _ => True where
  zero := fun _ => h.zero _ _ _
  step := fun _ hmod _ _ hrun => ⟨trivial, fun x h₁ h₂ _ => h.frame hrun x h₁ (by omega)⟩
  stable := fun _ _ => trivial

/-- A heap at `base` after `kalloc_heap_create` and any sequence of allocations, with first block
in use for aligned ones, and releases of live allocations; the live allocations. Between two calls
their owners may write into them, and all else outside the heap may change. -/
inductive HeapRun {σ : Type} (env : PageEnv σ) (base : ℕ) : HeapState σ → List Live → Prop where
  | create {sys : σ} {m : Mem} {pages : ℕ} {s : HeapState σ} :
    base + (16 + pages) * 4096 ≤ 4294967296 → kallocHeapCreate env sys m base pages = .ok s →
    HeapRun env base s []
  | alloc {s s' : HeapState σ} {live : List Live} {size alignment p : ℕ} :
    HeapRun env base s live → ValidAlignment alignment →
    (alignment ≠ 0 → headerUsed s.mem s.heap.initialAddr ≠ 0) →
    kallocHeapAlloc env s size alignment = .ok (p, s') →
    HeapRun env base s' (⟨p, size, alignment⟩ :: live)
  | free {s s' : HeapState σ} {live : List Live} {l : Live} :
    HeapRun env base s live → l ∈ live → kallocHeapFree env s l.ptr = .ok s' →
    HeapRun env base s' (live.erase l)
  | write {s : HeapState σ} {live : List Live} {m : Mem} {sys : σ} :
    HeapRun env base s live →
    (∀ x, base ≤ x → x < s.heap.initialAddr + s.heap.size → (∀ l ∈ live, ¬ l.Owns s.mem x) →
      m x = s.mem x) →
    HeapRun env base ⟨s.heap, m, sys⟩ live

section Run

variable {σ : Type} {env : PageEnv σ} {base : ℕ} {s : HeapState σ} {bs : List Block}
  {live : List Live}

/-- The first block, where its header says that it is in use. -/
theorem HeapInv.first_used (h : HeapInv base bs s.heap s.mem)
    (hu : headerUsed s.mem s.heap.initialAddr ≠ 0) :
    ∃ b ∈ bs, b.used = true ∧ b.addr = s.heap.initialAddr := by
  have hpos := h.shape.nonempty
  cases bs with
  | nil =>
    have := h.shape.tiles
    rw [tiles_nil] at this
    omega
  | cons b bs =>
    have hba := h.shape.tiles.1
    refine ⟨b, List.mem_cons_self, ?_, hba⟩
    rw [← hba, (h.shape.stands b List.mem_cons_self).header.used] at hu
    cases hb : b.used with
    | true => rfl
    | false => simp [hb] at hu

/-- Every run keeps the invariant, and every used block is a live allocation. -/
theorem HeapRun.used_live (hK : KeepsHeap env base) (h : HeapRun env base s live) :
    ∃ bs, LiveInv base bs live s.heap s.mem ∧
      ∀ b ∈ bs, b.used = true → ∃ l ∈ live, b.user = l.ptr := by
  induction h with
  | create hfits hrun =>
    have hinv := (kallocHeapCreate_inv (hK.pagesOk ∅) trivial hfits hrun).1
    refine ⟨_, ⟨hinv, fun l hl => absurd hl List.not_mem_nil,
      fun l hl => absurd hl List.not_mem_nil, List.nodup_nil⟩, fun b hb hbu => ?_⟩
    rw [List.mem_singleton.mp hb] at hbu
    exact Bool.noConfusion hbu
  | @alloc s s' live size alignment p _ hv hfirst hrun ih =>
    obtain ⟨bs, hi, hused⟩ := ih
    obtain ⟨bs', ha⟩ := (kallocHeapAlloc_spec (hK.pagesOk ∅) hi.heap trivial
      (fun x hx => absurd hx (Set.notMem_empty x)) hv
      fun ha => hi.heap.first_used (hfirst ha)).of_ok hrun
    refine ⟨bs', hi.alloc ha, fun b hb hbu => ?_⟩
    by_cases hbp : b.user = p
    · exact ⟨_, List.mem_cons_self, hbp⟩
    · obtain ⟨c, hc, hcu, hca⟩ := ha.allocated.new b hb hbu hbp
      obtain ⟨l, hl, hcl⟩ := hused c hc hcu
      refine ⟨l, .tail _ hl, ?_⟩
      rw [← hcl, Block.user, Block.user, hca]
  | @free s s' live l _ hl hrun ih =>
    obtain ⟨bs, hi, hused⟩ := ih
    obtain ⟨b, hb, hbu, hbp, -⟩ := hi.held _ hl
    rw [← hbp] at hrun
    obtain ⟨bs', hf⟩ := (kallocHeapFree_spec hi.heap hb hbu).of_ok hrun
    refine ⟨bs', hi.free hl hbp hf, fun c hc hcu => ?_⟩
    obtain ⟨hc', hcb⟩ := (hf.used c hcu).mp hc
    obtain ⟨l', hl', hcl⟩ := hused c hc' hcu
    refine ⟨l', (List.mem_erase_of_ne ?_).mpr hl', hcl⟩
    rintro rfl
    refine hcb (hi.heap.shape.tiles.eq_of_addr hc' hb ?_)
    unfold Block.user at hcl hbp
    omega
  | write _ hm ih =>
    obtain ⟨bs, hi, hused⟩ := ih
    exact ⟨bs, hi.congr fun x h₁ h₂ hx => hm x h₁ h₂ fun l hl ho => hx (ho.payload hi hl), hused⟩

theorem HeapRun.inv (hK : KeepsHeap env base) (h : HeapRun env base s live) :
    ∃ bs, LiveInv base bs live s.heap s.mem := by
  obtain ⟨bs, hi, -⟩ := h.used_live hK
  exact ⟨bs, hi⟩

/-- The blocks that the walk over the heap finds, by the sizes in the headers. -/
structure Walk (heap : KallocHeap) (m : Mem) (bs : List Block) : Prop where
  tiles : Tiles heap.initialAddr bs (heap.initialAddr + heap.size)
  stands : ∀ b ∈ bs, b.Stands m

/-- The heap is in order: its blocks fill it, no two neighbours are free, and the tree is a search
tree of the free blocks. -/
def WellFormed (heap : KallocHeap) (m : Mem) : Prop :=
  ∃ (bs : List Block) (t : HoleTree), Walk heap m bs ∧ Separated bs ∧ heap.avl.root = t.ptr ∧
    Rep m t ∧ t.IsAvl ∧ t.keys.Perm (holes bs) ∧ t.keys.Nodup

theorem HeapInv.wellFormed (h : HeapInv base bs s.heap s.mem) : WellFormed s.heap s.mem := by
  obtain ⟨t, fl, hI, hk⟩ := h.shape.avl
  exact ⟨bs, t, ⟨h.shape.tiles, h.shape.stands⟩, h.separated, hI.root, hI.rep, hI.isAvl, hk,
    hI.isAvl.ordered.nodup_keys⟩

/-- In every run the heap stays in order. -/
theorem heapRun_wellFormed (hK : KeepsHeap env base) (h : HeapRun env base s live) :
    WellFormed s.heap s.mem := by
  obtain ⟨bs, hi⟩ := h.inv hK
  exact hi.heap.wellFormed

/-- Pages that cost nothing: every page but the first can be created, and nothing is written. -/
def flatEnv : PageEnv Unit where
  createPage page sys m :=
    if page = 0 then .error (.assertFailed "page 0 exists") else .ok (sys, m)
  uninit _ _ := 0

theorem flatEnv_keepsHeap (base : ℕ) : KeepsHeap flatEnv base where
  zero := fun sys m r => by simp [flatEnv]
  frame := fun {page sys m sys' m'} h x _ _ => by
    unfold flatEnv at h
    dsimp only at h
    split_ifs at h
    cases h
    rfl

/-- A heap of `pages` pages at `0x500000`. -/
theorem exists_flatCreate {pages : ℕ} (h₀ : 0 < pages) (h₁ : pages ≤ 0xA0000) :
    ∃ s, kallocHeapCreate flatEnv () (fun _ => 0) 0x500000 pages = .ok s ∧
      HeapInv 0x500000 [⟨0x510000, pages * 4096 - 20, false⟩] s.heap s.mem := by
  have hcreate : Ends (kallocHeapCreate flatEnv () (fun _ => 0) 0x500000 pages) _ _ :=
    kallocHeapCreate_spec ((flatEnv_keepsHeap 0x500000).pagesOk ∅) trivial (by omega) (by omega) h₀
      (by omega)
  cases hrun : kallocHeapCreate flatEnv () (fun _ => 0) 0x500000 pages with
  | error e =>
    rw [hrun] at hcreate
    obtain ⟨a, sys, m, -, -, hpage, -, herr⟩ := hcreate
    unfold flatEnv at herr
    dsimp only at herr
    rw [if_neg (by omega)] at herr
    cases herr
  | ok s =>
    rw [hrun] at hcreate
    exact ⟨s, rfl, hcreate.1⟩

/-- A request on a heap of used blocks and one last hole. -/
theorem kallocHeapAlloc_flat {xs : List Block} {a z size : ℕ} {s : HeapState Unit}
    (hinv : HeapInv 0x500000 (xs ++ [⟨a, z, false⟩]) s.heap s.mem) (hxs : ∀ x ∈ xs, x.used = true)
    (hz : size + 20 < z) :
    ∃ s', kallocHeapAlloc flatEnv s size 0 = .ok (a + 12, s') ∧
      HeapInv 0x500000 (xs ++ [⟨a, size, true⟩] ++ [⟨a + size + 20, z - size - 20, false⟩]) s'.heap
        s'.mem := by
  obtain ⟨b, hb⟩ : ∃ b : Block, b = ⟨a, z, false⟩ := ⟨_, rfl⟩
  have hbz : size + 20 < b.size := by
    rw [hb]
    exact hz
  rw [← hb] at hinv
  obtain ⟨s', hrun', hserved⟩ := kallocHeapAlloc_bump flatEnv hinv hxs (by rw [hb]) (by omega)
    (Hole.fits_zero (show size ≤ b.size by omega)) (serves_zero (by omega)) (fun h => absurd rfl h)
    1048577
  have hp : b.user + 0 = a + 12 := by rw [hb]; rfl
  rw [hp] at hrun'
  refine ⟨s', hrun', ?_⟩
  have hinv₁ := hserved.inv
  have htake : b.take size = [⟨a, size, true⟩] ++ [⟨a + size + 20, z - size - 20, false⟩] := by
    rw [Block.take, if_pos hbz, hb]
    rfl
  rw [shift_zero, htake, pad_zero, List.append_nil, ← List.append_assoc] at hinv₁
  exact hinv₁

theorem exists_flatByte {xs : List Block} {a z : ℕ} {s : HeapState Unit} {live : List Live}
    (h : HeapRun flatEnv 0x500000 s live)
    (hinv : HeapInv 0x500000 (xs ++ [⟨a, z, false⟩]) s.heap s.mem) (hxs : ∀ x ∈ xs, x.used = true)
    (hz : 21 < z) :
    ∃ s', HeapRun flatEnv 0x500000 s' (⟨a + 12, 1, 0⟩ :: live) ∧
      HeapInv 0x500000 (xs ++ [⟨a, 1, true⟩] ++ [⟨a + 21, z - 21, false⟩]) s'.heap s'.mem := by
  obtain ⟨s', hrun, hinv'⟩ := kallocHeapAlloc_flat hinv hxs (show 1 + 20 < z by omega)
  exact ⟨s', .alloc h (.inl rfl) (fun h => absurd rfl h) hrun, hinv'⟩

/-- A heap of `pages` pages at `0x500000`, after a request for one byte. -/
theorem exists_flatRun {pages : ℕ} (h₀ : 0 < pages) (h₁ : pages ≤ 0xA0000) :
    ∃ s, HeapRun flatEnv 0x500000 s [⟨0x51000C, 1, 0⟩] ∧
      HeapInv 0x500000 [⟨0x510000, 1, true⟩, ⟨0x510015, pages * 4096 - 41, false⟩] s.heap s.mem := by
  obtain ⟨s, hrun, hinv⟩ := exists_flatCreate h₀ h₁
  exact @exists_flatByte [] _ _ _ _ (.create (by omega) hrun) hinv
    (fun x hx => absurd hx List.not_mem_nil) (show 21 < pages * 4096 - 20 by omega)

/-- The header of the first block says that it is in use. -/
theorem HeapInv.headerUsed_first {σ : Type} {base : ℕ} {s : HeapState σ} {c : Block}
    {bs : List Block} (h : HeapInv base (c :: bs) s.heap s.mem) (hc : c.used = true) :
    headerUsed s.mem s.heap.initialAddr ≠ 0 := by
  have hst := h.shape.stands c List.mem_cons_self
  have hca : c.addr = s.heap.initialAddr := h.shape.tiles.1
  rw [← hca, hst.header.used, hc]
  decide

/-- On a heap of four pages: two requests for one byte, a request for 100 bytes on a page boundary,
which makes the second block longer, and the release of the first byte. -/
theorem exists_freedRun :
    ∃ s, HeapRun flatEnv 0x500000 s [⟨0x511000, 100, 0x1000⟩, ⟨0x510021, 1, 0⟩] := by
  obtain ⟨s₀, h₀, hinv₀⟩ := exists_flatRun (show 0 < 4 by decide) (by decide)
  obtain ⟨s₁, h₁, hinv₁⟩ :=
    @exists_flatByte [⟨0x510000, 1, true⟩] _ _ _ _ h₀ hinv₀ (by simp) (by decide)
  obtain ⟨b, hb⟩ : ∃ b : Block, b = ⟨0x51002A, 16322, false⟩ := ⟨_, rfl⟩
  obtain ⟨xs, hxs⟩ : ∃ xs : List Block, xs = [⟨0x510000, 1, true⟩, ⟨0x510015, 1, true⟩] := ⟨_, rfl⟩
  have hinv : HeapInv 0x500000 (xs ++ [b]) s₁.heap s₁.mem := by
    rw [hxs, hb]
    exact hinv₁
  have hserve : Serves b 100 0x1000 0xFCA := by
    rw [hb]
    exact ⟨by decide, by decide, by decide, by decide, .inl (by decide)⟩
  obtain ⟨s₂, hrun₂, hserved⟩ := kallocHeapAlloc_bump flatEnv hinv (by simp [hxs]) (by rw [hb])
    (by rw [hb]; decide) (by rw [hb]; decide) hserve (by simp [hxs]) 1048577
  have hp : b.user + 0xFCA = 0x511000 := by rw [hb]; rfl
  rw [hp] at hrun₂
  have h₂ : HeapRun flatEnv 0x500000 s₂
      [⟨0x511000, 100, 0x1000⟩, ⟨0x510021, 1, 0⟩, ⟨0x51000C, 1, 0⟩] :=
    .alloc h₁ (.inr ⟨12, by decide, rfl⟩) (fun _ => hinv₁.headerUsed_first rfl) hrun₂
  obtain ⟨c, hc⟩ : ∃ c : Block, c = ⟨0x510000, 1, true⟩ := ⟨_, rfl⟩
  have hinv₂ := hserved.inv
  have hmem : c ∈ pad 0xFCA xs ++ (b.shift 0xFCA).take 100 ++ [] := by
    rw [hc, hxs]
    exact List.mem_cons_self
  obtain ⟨s₃, hrun₃⟩ := hinv₂.free_returns flatEnv s₂.sys hmem (by rw [hc]) (by
    rw [hb, hxs]
    decide)
  have hcu : c.user = 0x51000C := by rw [hc]; rfl
  rw [hcu] at hrun₃
  exact ⟨s₃, h₂.free (l := ⟨0x51000C, 1, 0⟩) (by decide) hrun₃⟩

theorem heapRun_wellFormed_freed :
    ∃ s, HeapRun flatEnv 0x500000 s [⟨0x511000, 100, 0x1000⟩, ⟨0x510021, 1, 0⟩] ∧
      WellFormed s.heap s.mem := by
  obtain ⟨s, h⟩ := exists_freedRun
  exact ⟨s, h, heapRun_wellFormed (flatEnv_keepsHeap _) h⟩

/-! ## Exclusive allocations -/

/-- The allocation is aligned, lies in the heap, and is apart from every header and footer. -/
structure Live.Placed (heap : KallocHeap) (bs : List Block) (l : Live) : Prop where
  aligned : l.alignment ≠ 0 → l.alignment ∣ l.ptr
  inside : l.range ⊆ Set.Ico heap.initialAddr (heap.initialAddr + heap.size)
  header : ∀ b ∈ bs, Disjoint l.range (Set.Ico b.addr (b.addr + 12))
  footer : ∀ b ∈ bs, Disjoint l.range (Set.Ico b.footer (b.footer + 8))

/-- The allocations are placed as requested, and apart from each other. -/
def Exclusive (heap : KallocHeap) (m : Mem) (live : List Live) : Prop :=
  ∃ bs, Walk heap m bs ∧ (∀ l ∈ live, l.Placed heap bs) ∧
    live.Pairwise fun l l' => Disjoint l.range l'.range

theorem disjoint_Ico {a b c d : ℕ} (h : b ≤ c ∨ d ≤ a) : Disjoint (Set.Ico a b) (Set.Ico c d) := by
  rw [Set.disjoint_left]
  intro x hx hx'
  have := Set.mem_Ico.mp hx
  have := Set.mem_Ico.mp hx'
  omega

namespace LiveInv

/-- A request that does not overflow is served in full. -/
theorem exists_block (h : LiveInv base bs live s.heap s.mem) {l : Live} (hl : l ∈ live)
    (hroom : l.alignment ≠ 0 → l.size + l.alignment ≤ 4294967296) :
    ∃ b ∈ bs, b.used = true ∧ b.user = l.ptr ∧ l.size ≤ b.size := by
  obtain ⟨b, hb, hbu, hbp, hfit | ⟨ha, hover⟩⟩ := h.held l hl
  · exact ⟨b, hb, hbu, hbp, hfit⟩
  · have := hroom ha
    omega

theorem placed (h : LiveInv base bs live s.heap s.mem) {l : Live} (hl : l ∈ live)
    (hroom : l.alignment ≠ 0 → l.size + l.alignment ≤ 4294967296) : l.Placed s.heap bs := by
  obtain ⟨b, hb, -, hbp, hfit⟩ := h.exists_block hl hroom
  have hbd := h.heap.shape.tiles.mem hb
  unfold Block.user at hbp
  unfold Block.next at hbd
  -- the block is between the headers and the footers
  have hout : ∀ c ∈ bs, l.ptr + l.size ≤ c.addr ∨ c.addr + 12 ≤ l.ptr ∧ l.ptr + l.size ≤ c.footer ∨
      c.footer + 8 ≤ l.ptr := by
    intro c hc
    unfold Block.footer
    rcases h.heap.shape.tiles.apart hb hc with rfl | h | h
    · omega
    all_goals
      unfold Block.next at h
      omega
  refine ⟨h.aligned l hl, fun x hx => ?_, fun c hc => disjoint_Ico ?_, fun c hc => disjoint_Ico ?_⟩
  · have := Set.mem_Ico.mp hx
    exact Set.mem_Ico.mpr (by omega)
  all_goals
    have := hout c hc
    unfold Block.footer at *
    omega

/-- Two live allocations that were served in full are apart. -/
theorem disjoint (h : LiveInv base bs live s.heap s.mem) {l l' : Live} (hl : l ∈ live)
    (hl' : l' ∈ live) (hroom : l.alignment ≠ 0 → l.size + l.alignment ≤ 4294967296)
    (hroom' : l'.alignment ≠ 0 → l'.size + l'.alignment ≤ 4294967296) (hne : l.ptr ≠ l'.ptr) :
    Disjoint l.range l'.range := by
  obtain ⟨b, hb, -, hbp, hfit⟩ := h.exists_block hl hroom
  obtain ⟨c, hc, -, hcp, hfit'⟩ := h.exists_block hl' hroom'
  apply disjoint_Ico
  rcases h.heap.shape.tiles.apart hb hc with rfl | h | h
  · exact absurd (hbp.symm.trans hcp) hne
  all_goals
    unfold Block.next at h
    unfold Block.user at hbp hcp
    omega

theorem pairwise_disjoint (h : LiveInv base bs live s.heap s.mem)
    (hroom : ∀ l ∈ live, l.alignment ≠ 0 → l.size + l.alignment ≤ 4294967296) :
    live.Pairwise fun l l' => Disjoint l.range l'.range := by
  refine List.Pairwise.imp_of_mem ?_ (List.pairwise_map.mp h.nodup)
  intro l l' hl hl' hne
  exact h.disjoint hl hl' (hroom l hl) (hroom l' hl') hne

/-- An overflowing request reaches beyond the end of the address space. -/
theorem not_placed (h : LiveInv base bs live s.heap s.mem) {l : Live} (hl : l ∈ live)
    (ha : l.alignment ≠ 0) (hover : 4294967296 < l.size + l.alignment) (hsize : l.size ≠ 0) :
    ¬ l.range ⊆ Set.Ico s.heap.initialAddr (s.heap.initialAddr + s.heap.size) := by
  intro hsub
  obtain ⟨b, -, -, hbp, -⟩ := h.held l hl
  have hpos : 0 < l.ptr := by
    unfold Block.user at hbp
    omega
  have hle := Nat.le_of_dvd hpos (h.aligned l hl ha)
  have hlast : l.ptr + l.size - 1 ∈ l.range := Set.mem_Ico.mpr (by omega)
  have := Set.mem_Ico.mp (hsub hlast)
  have := h.heap.shape.fits
  omega

end LiveInv

/-- The alignment of a live allocation is an alignment. -/
theorem HeapRun.validAlignment (h : HeapRun env base s live) :
    ∀ l ∈ live, ValidAlignment l.alignment := by
  induction h with
  | create _ _ => exact fun l hl => absurd hl List.not_mem_nil
  | alloc _ hv _ _ ih =>
    intro l hl
    rcases List.mem_cons.mp hl with rfl | hl
    · exact hv
    · exact ih l hl
  | free _ _ _ ih => exact fun l hl => ih l (List.mem_of_mem_erase hl)
  | write _ _ ih => exact ih

/-- In every state of a run the live allocations are exclusive exactly where no aligned request
overflows. -/
theorem heapRun_exclusive_iff (hK : KeepsHeap env base) (h : HeapRun env base s live) :
    Exclusive s.heap s.mem live ↔
      ∀ l ∈ live, l.alignment ≠ 0 → l.size + l.alignment ≤ 4294967296 := by
  obtain ⟨bs, hi⟩ := h.inv hK
  constructor
  · rintro ⟨bs', -, hplaced, -⟩ l hl ha
    by_contra hover
    have hsize : l.size ≠ 0 := by
      rcases h.validAlignment l hl with h0 | ⟨i, hi, hpow⟩
      · exact absurd h0 ha
      · have : 2 ^ i ≤ 2 ^ 31 := Nat.pow_le_pow_right (by omega) (by omega)
        omega
    exact hi.not_placed hl ha (by omega) hsize (hplaced l hl).inside
  · intro hroom
    exact ⟨bs, ⟨hi.heap.shape.tiles, hi.heap.shape.stands⟩,
      fun l hl => hi.placed hl (hroom l hl), hi.pairwise_disjoint hroom⟩

/-- On a heap of `0xA0000` pages the request `(0x80510021, 0x80000000)` is served at
`0x80000000`: the size and the `0x7FAEFFDF` bytes before the aligned address add up to `2 ^ 32`,
which is 0. -/
theorem exists_overflowRun : ∃ s, HeapRun flatEnv 0x500000 s
    [⟨0x80000000, 0x80510021, 0x80000000⟩, ⟨0x51000C, 1, 0⟩] := by
  obtain ⟨s, h, hinv⟩ := exists_flatRun (show 0 < 0xA0000 by decide) (by decide)
  obtain ⟨b, hb⟩ : ∃ b : Block, b = ⟨0x510015, 0xA0000 * 4096 - 41, false⟩ := ⟨_, rfl⟩
  obtain ⟨c, hc⟩ : ∃ c : Block, c = ⟨0x510000, 1, true⟩ := ⟨_, rfl⟩
  have hinv' : HeapInv 0x500000 ([c] ++ [b]) s.heap s.mem := by
    rw [hb, hc]
    exact hinv
  have hserve : Serves b 0x80510021 0x80000000 0x7FAEFFDF := by
    rw [hb]
    exact ⟨by decide, by decide, by decide, by decide, .inr (by decide)⟩
  obtain ⟨s', hrun, -⟩ := kallocHeapAlloc_bump flatEnv hinv' (by simp [hc]) (by rw [hb])
    (by rw [hb]; decide) (by rw [hb]; decide) hserve (by simp) 1048577
  have hp : b.user + 0x7FAEFFDF = 0x80000000 := by rw [hb]; rfl
  rw [hp] at hrun
  exact ⟨s', .alloc h (.inr ⟨31, by decide, by decide⟩)
    (fun _ => hinv.headerUsed_first rfl) hrun⟩

theorem heapRun_exclusive_freed :
    ∃ s, HeapRun flatEnv 0x500000 s [⟨0x511000, 100, 0x1000⟩, ⟨0x510021, 1, 0⟩] ∧
      Exclusive s.heap s.mem [⟨0x511000, 100, 0x1000⟩, ⟨0x510021, 1, 0⟩] := by
  obtain ⟨s, h⟩ := exists_freedRun
  exact ⟨s, h, (heapRun_exclusive_iff (flatEnv_keepsHeap _) h).mpr (by decide)⟩

theorem not_exclusive_overflow : KeepsHeap flatEnv 0x500000 ∧
    ∃ s, HeapRun flatEnv 0x500000 s [⟨0x80000000, 0x80510021, 0x80000000⟩, ⟨0x51000C, 1, 0⟩] ∧
      ¬ Exclusive s.heap s.mem [⟨0x80000000, 0x80510021, 0x80000000⟩, ⟨0x51000C, 1, 0⟩] := by
  obtain ⟨s, h⟩ := exists_overflowRun
  refine ⟨flatEnv_keepsHeap _, s, h, ?_⟩
  rintro ⟨bs, -, hplaced, -⟩
  obtain ⟨bs', hi⟩ := h.inv (flatEnv_keepsHeap _)
  exact hi.not_placed List.mem_cons_self (by decide) (by decide) (by decide)
    (hplaced _ List.mem_cons_self).inside

end Run

end RawOS
