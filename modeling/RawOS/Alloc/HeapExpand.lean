import RawOS.Alloc.HeapRun

/-!
# The pages that an allocation adds

`kalloc_heap_alloc` adds a page and calls itself as long as the search finds no hole, and the
search can miss a hole that would do. It does not miss a hole that is long enough wherever its
address is rounded up to (`AvlTree.findHole_ne_zero`): such a hole is above every hole that the
search passes. Each page makes the hole at the end of the heap longer, so after `growthPages` pages
it is such a hole (`Room`), and `kallocHeapAllocLoop_go` is the induction over them.
-/

namespace RawOS

section Search

variable {size alignment : ℕ} {k : Hole}

/-- The bytes that hold the request wherever they start. -/
def roomFor (size alignment : ℕ) : ℕ := size + max alignment 1 - 1

theorem Hole.fits_of_room (hv : ValidAlignment alignment) (hsize : roomFor size alignment ≤ k.size)
    (hend : k.addr + k.size + 8 ≤ 4294967296) : size ≤ k.size ∧ k.fits size alignment := by
  unfold roomFor at hsize
  rcases hv with rfl | ⟨i, hi, rfl⟩
  · exact ⟨by omega, Hole.fits_zero (by omega)⟩
  · have hpos := Nat.two_pow_pos i
    have hmod := Nat.mod_lt k.addr hpos
    have hle := Nat.mod_le k.addr (2 ^ i)
    refine ⟨by omega, ?_⟩
    unfold Hole.fits
    rw [getAlignedAddress_eq (by omega) hi]
    generalize 2 ^ i = a at *
    split_ifs
    · rw [u32Sub_of_le le_rfl (by omega), Nat.sub_self, u32_of_lt (by omega)]
      omega
    · rw [u32_of_lt (n := k.addr - k.addr % a + a) (by omega), u32Sub_of_le (by omega) (by omega),
        u32_of_lt (by omega)]
      omega

/-- A hole that is long enough in any case is not missed: the search passes smaller holes only. -/
theorem AvlTree.findHole_ne_zero (hv : ValidAlignment alignment) : ∀ {t : HoleTree}, t.Ordered →
    (∀ h ∈ t.keys, h.addr ≠ 0) → (∀ h ∈ t.keys, h.addr + h.size + 8 ≤ 4294967296) →
    k ∈ t.keys → roomFor size alignment ≤ k.size → t.findHole size alignment ≠ 0
  | .nil, _, _, _, hk, _ => absurd hk List.not_mem_nil
  | .node p n x l r, ⟨hl, hr, hol, hor⟩, hne, hend, hk, hsize => by
    simp only [keys_node, List.mem_append, List.mem_cons] at hne hend hk
    unfold findHole
    split_ifs with hpass hleft
    · -- the hole that is passed is smaller
      have hlt : x.size < k.size := by
        by_contra hge
        obtain ⟨h₁, h₂⟩ := Hole.fits_of_room hv (hsize.trans (not_lt.mp hge))
          (hend x (.inr (.inl rfl)))
        exact hpass.elim (not_lt.mpr h₁) (not_not.mpr h₂)
      have hxk : x < k := hole_lt_hole.mpr (.inl hlt)
      refine findHole_ne_zero hv hor (fun h hh => hne h (.inr (.inr hh)))
        (fun h hh => hend h (.inr (.inr hh))) ?_ hsize
      rcases hk with hk | rfl | hk
      · exact absurd (hl k hk) hxk.asymm
      · exact absurd hxk (lt_irrefl k)
      · exact hk
    · exact hleft
    · exact hne x (.inr (.inl rfl))

end Search

section

variable {σ : Type} {env : PageEnv σ} {base : ℕ} {I : ℕ → σ → Mem → Prop} {s s' : HeapState σ}
  {bs : List Block} {b : Block} {size alignment n need a e : ℕ}

theorem HeapInv.find_ne_zero (h : HeapInv base bs s.heap s.mem) (hv : ValidAlignment alignment)
    (hb : b ∈ bs) (hbu : b.used = false) (hsize : roomFor size alignment ≤ b.size) :
    kallocAvlFindHole s.mem s.heap.avl size alignment ≠ .ok 0 := by
  obtain ⟨t, fl, hI, hk⟩ := h.shape.avl
  rw [hI.findHole]
  refine fun hfind => AvlTree.findHole_ne_zero hv hI.isAvl.ordered (fun k hkt => ?_)
    (fun k hkt => ?_) (hk.mem_iff.mpr (mem_holes.mpr ⟨b, hb, hbu, rfl⟩)) hsize (Except.ok.inj hfind)
  all_goals obtain ⟨c, hc, -, rfl⟩ := mem_holes.mp (hk.mem_iff.mp hkt)
  · rw [Block.key_addr]
    omega
  · have hle := h.shape.next_le hc
    rw [Block.key_addr, Block.key_size]
    omega

/-- A hole that was found serves the request: its own node is there for what is left of it. -/
theorem HeapInv.allocHole_go (env : PageEnv σ) (h : HeapInv base bs s.heap s.mem)
    (hv : ValidAlignment alignment) (hb : b ∈ bs) (hbu : b.used = false) (hsize : size ≤ b.size)
    (hfits : b.key.fits size alignment)
    (hfirst : alignment ≠ 0 → ∃ c ∈ bs, c.used = true ∧ c.addr = s.heap.initialAddr) :
    ∃ p s', allocHole env s b.user size alignment = .ok (p, s') ∧ p ≠ 0 ∧
      s'.heap.size = s.heap.size := by
  have hpool := h.holes_le
  obtain ⟨xs, ys, rfl, -, -⟩ := h.shape.tiles.split hb
  obtain ⟨d, hserve⟩ := Block.serves_of_fits hv hsize (h.shape.next_le hb) hfits
  rw [holes_append, holes_cons_free hbu, List.length_append, List.length_cons] at hpool
  have hspec := allocHole_spec env h hbu hsize hserve fun ha heq => by
    obtain ⟨c, hc, hcu, hca⟩ := hfirst ha
    obtain rfl := h.shape.tiles.eq_of_addr hc hb (hca.trans heq.symm)
    rw [hbu] at hcu
    exact Bool.noConfusion hcu
  obtain ⟨⟨p, s'⟩, hrun, hserved⟩ := hspec.exists_ok fun e hfull => by
    have hle := hfull.2
    rw [List.length_append] at hle
    omega
  refine ⟨p, s', hrun, ?_, hserved.heapSize⟩
  have hp : p = b.user + d := hserved.address
  unfold Block.user at hp
  omega

/-! ## Growth -/

/-- The next `n` pages from `page` on can be created one after the other, whatever is in memory. -/
def PagesAvailable (env : PageEnv σ) : ℕ → ℕ → σ → Prop
  | 0, _, _ => True
  | n + 1, page, sys => ∀ m, ∃ sys' m', env.createPage page sys m = .ok (sys', m') ∧
      PagesAvailable env n (page + 1) sys'

theorem heapAvlInsert_kept {holeSize holeAddr : ℕ}
    (h : heapAvlInsert env s holeSize holeAddr = .ok s') :
    s'.sys = s.sys ∧ s'.heap.size = s.heap.size ∧ s'.heap.initialAddr = s.heap.initialAddr := by
  obtain ⟨r, -, h⟩ := bind_eq_ok.mp h
  cases h
  exact ⟨rfl, rfl, rfl⟩

theorem heapAvlRemove_kept {holeSize holeAddr : ℕ}
    (h : heapAvlRemove env s holeSize holeAddr = .ok s') :
    s'.sys = s.sys ∧ s'.heap.size = s.heap.size ∧ s'.heap.initialAddr = s.heap.initialAddr := by
  obtain ⟨r, -, h⟩ := bind_eq_ok.mp h
  cases h
  exact ⟨rfl, rfl, rfl⟩

/-- The heap is a page longer, and the pages are those that
`paging_create_kernel_page_with_any_frame` leaves. -/
theorem expandHeap_page (h : expandHeap env s = .ok s') :
    s'.heap.size = u32 (s.heap.size + pageSize) ∧ ∃ m,
      env.createPage (u32 (s.heap.initialAddr + s.heap.size) / pageSize) s.sys s.mem =
        .ok (s'.sys, m) := by
  obtain ⟨⟨sys, m⟩, hcreate, h⟩ := bind_eq_ok.mp h
  unfold growHeap at h
  dsimp only at h
  split_ifs at h
  · obtain ⟨hsys, hsize, -⟩ := heapAvlInsert_kept h
    refine ⟨hsize, m, ?_⟩
    rw [hcreate, hsys]
  · obtain ⟨s₁, hremove, h⟩ := bind_eq_ok.mp h
    obtain ⟨hsys, hsize, -⟩ := heapAvlInsert_kept h
    obtain ⟨hsys₁, hsize₁, -⟩ := heapAvlRemove_kept hremove
    dsimp only at hsys hsys₁ hsize hsize₁
    refine ⟨hsize.trans hsize₁, m, ?_⟩
    rw [hcreate, hsys, hsys₁]

/-- A hole at the end of the heap. -/
def EndHole (bs : List Block) (e : ℕ) (b : Block) : Prop := b ∈ bs ∧ b.used = false ∧ b.next = e

/-- A page is added where it can be created and there is a node for it, which a hole at the end
already has. -/
theorem HeapInv.expandHeap_go (hP : PagesOk env base ∅ I) (h : HeapInv base bs s.heap s.mem)
    (hI : I (s.heap.initialAddr + s.heap.size) s.sys s.mem)
    (hlt : s.heap.initialAddr + s.heap.size < 4294967296)
    (hpages : PagesAvailable env (n + 1) ((s.heap.initialAddr + s.heap.size) / 4096) s.sys)
    (hnode : (holes bs).length < heapNodes ∨ ∃ b, EndHole bs (s.heap.initialAddr + s.heap.size) b) :
    ∃ s', expandHeap env s = .ok s' ∧ Expanded base ∅ I bs s s' ∧
      PagesAvailable env n ((s.heap.initialAddr + s.heap.size) / 4096 + 1) s'.sys := by
  obtain ⟨sys', m', hcreate, hnext⟩ := hpages s.mem
  have hspec := expandHeap_spec hP h hI fun x hx => absurd hx (Set.notMem_empty x)
  obtain ⟨s', hrun, he⟩ := hspec.exists_ok fun e herr => by
    rcases herr with ⟨⟨-, hfull⟩, hused⟩ | herr
    · rcases hnode with hlt | ⟨b, hb, hbu, hbe⟩
      · omega
      · rw [hused b hb hbe] at hbu
        exact Bool.noConfusion hbu
    · rw [u32_of_lt hlt, hcreate] at herr
      cases herr
  obtain ⟨-, m, hsys⟩ := expandHeap_page hrun
  unfold pageSize at hsys
  rw [u32_of_lt hlt, hcreate] at hsys
  refine ⟨s', hrun, he, ?_⟩
  cases hsys
  exact hnext

/-- With `n` pages more there is a hole of `need` bytes at the end. -/
def Room (need n : ℕ) (bs : List Block) (e : ℕ) : Prop :=
  need + 20 ≤ 4096 * n ∨ ∃ b, EndHole bs e b ∧ need ≤ b.size + 4096 * n

theorem EndHole.eq_last {xs : List Block} {c : Block} (hc : EndHole (xs ++ [b]) e c)
    (ht : Tiles a (xs ++ [b]) e) (hbe : b.next = e) : c = b := by
  obtain ⟨hc, -, hce⟩ := hc
  rcases ht.apart hc (c := b) (by simp) with heq | hcb | hcb
  · exact heq
  all_goals
    unfold Block.next at *
    omega

theorem Room.expand (h : Room need (n + 1) bs e) (ht : Tiles a bs e) (hlt : a < e) :
    ∃ b, EndHole (expand e bs) (e + 4096) b ∧ need ≤ b.size + 4096 * n := by
  obtain ⟨xs, b, rfl, -, hbe⟩ := ht.last hlt
  cases hbu : b.used with
  | true =>
    rw [expand_used hbu]
    refine ⟨⟨e, 4076, false⟩, ⟨by simp, rfl, rfl⟩, ?_⟩
    rcases h with h | ⟨c, hc, -⟩
    · dsimp only
      omega
    · have hcu := hc.2.1
      rw [hc.eq_last ht hbe, hbu] at hcu
      exact Bool.noConfusion hcu
  | false =>
    rw [expand_free hbu]
    refine ⟨{ b with size := b.size + 4096 }, ⟨by simp, hbu, ?_⟩, ?_⟩
    · unfold Block.next at hbe ⊢
      dsimp only
      omega
    · dsimp only
      rcases h with h | ⟨c, hc, hneed⟩
      · omega
      · rw [hc.eq_last ht hbe] at hneed
        omega

/-- The induction over the pages that are added. -/
theorem kallocHeapAllocLoop_go (hP : PagesOk env base ∅ I) (hv : ValidAlignment alignment) :
    ∀ {n fuel : ℕ} {s : HeapState σ} {bs : List Block}, HeapInv base bs s.heap s.mem →
      I (s.heap.initialAddr + s.heap.size) s.sys s.mem →
      (alignment ≠ 0 → ∃ c ∈ bs, c.used = true ∧ c.addr = s.heap.initialAddr) →
      ((holes bs).length < heapNodes ∨
        ∃ b, EndHole bs (s.heap.initialAddr + s.heap.size) b) →
      PagesAvailable env n ((s.heap.initialAddr + s.heap.size) / 4096) s.sys →
      s.heap.initialAddr + s.heap.size + 4096 * n ≤ 4294967296 →
      Room (roomFor size alignment) n bs (s.heap.initialAddr + s.heap.size) → n < fuel →
      ∃ p s', kallocHeapAllocLoop env fuel s size alignment = .ok (p, s') ∧ p ≠ 0 ∧
        s'.heap.size ≤ s.heap.size + 4096 * n := by
  intro n
  induction n with
  | zero =>
    intro fuel s bs h _ hfirst _ _ _ hroom hfuel
    obtain ⟨fuel, rfl⟩ := Nat.exists_eq_succ_of_ne_zero hfuel.ne'
    obtain ⟨p, hfind, hfound⟩ := findHole_spec h size alignment
    have hp : p ≠ 0 := by
      rintro rfl
      rcases hroom with hroom | ⟨b, ⟨hb, hbu, -⟩, hsize⟩
      · omega
      · exact h.find_ne_zero hv hb hbu hsize hfind
    obtain ⟨b, hb, hbu, rfl, hsize, hfits⟩ := hfound hp
    obtain ⟨q, s', hrun, hq, hkept⟩ := h.allocHole_go env hv hb hbu hsize hfits hfirst
    unfold kallocHeapAllocLoop
    rw [hfind, ok_bind, if_pos hp]
    exact ⟨q, s', hrun, hq, hkept.le⟩
  | succ n ih =>
    intro fuel s bs h hI hfirst hnode hpages hfits hroom hfuel
    obtain ⟨fuel, rfl⟩ := Nat.exists_eq_succ_of_ne_zero (Nat.ne_of_gt (Nat.zero_lt_of_lt hfuel))
    obtain ⟨p, hfind, hfound⟩ := findHole_spec h size alignment
    unfold kallocHeapAllocLoop
    rw [hfind, ok_bind]
    by_cases hp : p ≠ 0
    · obtain ⟨b, hb, hbu, rfl, hsize, hbfits⟩ := hfound hp
      obtain ⟨q, s', hrun, hq, hkept⟩ := h.allocHole_go env hv hb hbu hsize hbfits hfirst
      rw [if_pos hp]
      exact ⟨q, s', hrun, hq, by omega⟩
    · obtain ⟨s₁, hexpand, he, hpages₁⟩ := h.expandHeap_go hP hI (by omega) hpages hnode
      have hpos := h.shape.nonempty
      have haddr : s₁.heap.initialAddr = s.heap.initialAddr := by
        rw [he.inv.shape.initialAddr, h.shape.initialAddr]
      have hend : s₁.heap.initialAddr + s₁.heap.size =
          s.heap.initialAddr + s.heap.size + 4096 := by
        rw [haddr, he.size, Nat.add_assoc]
      obtain ⟨b, hb, hsize⟩ := hroom.expand h.shape.tiles (by omega)
      have hfirst₁ : alignment ≠ 0 → ∃ c ∈ expand (s.heap.initialAddr + s.heap.size) bs,
          c.used = true ∧ c.addr = s₁.heap.initialAddr := fun ha => by
        obtain ⟨c, hc, hcu, hca⟩ := hfirst ha
        exact ⟨c, (mem_expand hcu).mpr hc, hcu, hca.trans haddr.symm⟩
      have hpage : (s.heap.initialAddr + s.heap.size) / 4096 + 1 =
          (s₁.heap.initialAddr + s₁.heap.size) / 4096 := by omega
      rw [hpage] at hpages₁
      rw [← hend] at hb
      obtain ⟨q, s', hrun, hq, hle⟩ := ih he.inv he.pages hfirst₁ (.inr ⟨b, hb⟩) hpages₁
        (by omega) (.inr ⟨b, hb, hsize⟩) (by omega : n < fuel)
      have hsize₁ := he.size
      rw [if_neg hp, hexpand, ok_bind]
      exact ⟨q, s', hrun, hq, by omega⟩

/-- The pages that are enough for a request, whatever the heap looks like. -/
def growthPages (size alignment : ℕ) : ℕ := (size + max alignment 1 - 1 + 20 + 4095) / 4096

/-- The hole at the end of the heap that `kalloc_heap_alloc` makes longer, if there is one. -/
def endHoleSize (s : HeapState σ) : Option ℕ :=
  let lastHeader :=
    footerHeader s.mem (u32Sub (u32 (s.heap.initialAddr + s.heap.size)) sizeofFooter)
  if headerUsed s.mem lastHeader ≠ 0 then none else some (headerSize s.mem lastHeader)

/-- The pages after which the hole at the end of the heap is long enough for a request. -/
def morePages (s : HeapState σ) (size alignment : ℕ) : ℕ :=
  match endHoleSize s with
  | none => growthPages size alignment
  | some n => (roomFor size alignment - n + 4095) / 4096

theorem morePages_le (s : HeapState σ) (size alignment : ℕ) :
    morePages s size alignment ≤ growthPages size alignment := by
  unfold morePages
  cases endHoleSize s with
  | none => exact le_rfl
  | some n =>
    unfold growthPages roomFor
    dsimp only
    omega

theorem HeapInv.room_morePages (h : HeapInv base bs s.heap s.mem) (size alignment : ℕ) :
    Room (roomFor size alignment) (morePages s size alignment) bs
      (s.heap.initialAddr + s.heap.size) := by
  have hpos := h.shape.nonempty
  obtain ⟨xs, b, rfl, -, hbe⟩ := h.shape.tiles.last (by omega)
  have hst := h.shape.stands b (by simp)
  have hbd := h.shape.next_le (b := b) (by simp)
  have hlast : footerHeader s.mem
      (u32Sub (u32 (s.heap.initialAddr + s.heap.size)) sizeofFooter) = b.addr := by
    unfold Block.next at hbe hbd
    have hfoot : s.heap.initialAddr + s.heap.size - 8 = b.footer := by
      unfold Block.footer
      omega
    unfold sizeofFooter
    rw [u32Sub_u32 (by omega) (by omega) (by omega), hfoot]
    exact hst.footer.header
  unfold morePages endHoleSize
  dsimp only
  rw [hlast, hst.header.used, hst.header.size]
  cases hbu : b.used with
  | true =>
    left
    show _ ≤ 4096 * growthPages size alignment
    unfold growthPages roomFor
    omega
  | false =>
    refine .inr ⟨b, ⟨by simp, hbu, hbe⟩, ?_⟩
    show _ ≤ _ + 4096 * ((roomFor size alignment - b.size + 4095) / 4096)
    omega

theorem splitHole_kept {header holeSize : ℕ}
    (h : splitHole env s header holeSize size = .ok s') :
    s'.heap.size = s.heap.size ∧ s'.heap.initialAddr = s.heap.initialAddr := by
  unfold splitHole at h
  split_ifs at h
  · exact (heapAvlInsert_kept h).2
  · cases h
    exact ⟨rfl, rfl⟩

/-- A hole that serves a request leaves the place of the heap. -/
theorem allocHole_kept {userSpace ptr : ℕ}
    (h : allocHole env s userSpace size alignment = .ok (ptr, s')) :
    s'.heap.size = s.heap.size ∧ s'.heap.initialAddr = s.heap.initialAddr := by
  unfold allocHole at h
  obtain ⟨_, -, h⟩ := bind_eq_ok.mp h
  obtain ⟨s₁, hremove, h⟩ := bind_eq_ok.mp h
  obtain ⟨_, -, h⟩ := bind_eq_ok.mp h
  obtain ⟨⟨m, n⟩, -, h⟩ := bind_eq_ok.mp h
  obtain ⟨s₂, hsplit, h⟩ := bind_eq_ok.mp h
  cases h
  obtain ⟨hsize, haddr⟩ := splitHole_kept hsplit
  obtain ⟨-, hsize₁, haddr₁⟩ := heapAvlRemove_kept hremove
  exact ⟨hsize.trans hsize₁, haddr.trans haddr₁⟩

/-- No more pages are added than the hole at the end needs. -/
theorem kallocHeapAllocLoop_le (hP : PagesOk env base ∅ I) (hv : ValidAlignment alignment) :
    ∀ {n fuel : ℕ} {s : HeapState σ} {bs : List Block} {ptr : ℕ}, HeapInv base bs s.heap s.mem →
      I (s.heap.initialAddr + s.heap.size) s.sys s.mem →
      Room (roomFor size alignment) n bs (s.heap.initialAddr + s.heap.size) →
      kallocHeapAllocLoop env fuel s size alignment = .ok (ptr, s') →
      s'.heap.size ≤ s.heap.size + 4096 * n
  | n, 0, s, bs, ptr, _, _, _, hrun => nomatch hrun
  | n, fuel + 1, s, bs, ptr, h, hI, hroom, hrun => by
    unfold kallocHeapAllocLoop at hrun
    obtain ⟨userSpace, hfind, hrun⟩ := bind_eq_ok.mp hrun
    split_ifs at hrun with hzero
    · rw [(allocHole_kept hrun).1]
      exact Nat.le_add_right _ _
    · obtain ⟨s₁, hexpand, hrun⟩ := bind_eq_ok.mp hrun
      rw [not_not.mp hzero] at hfind
      cases n with
      | zero =>
        rcases hroom with hroom | ⟨b, ⟨hb, hbu, -⟩, hsize⟩
        · omega
        · exact absurd hfind (h.find_ne_zero hv hb hbu hsize)
      | succ n =>
        have he := (expandHeap_spec hP h hI fun x hx => absurd hx (Set.notMem_empty x)).of_ok hexpand
        have hpos := h.shape.nonempty
        have hend : s₁.heap.initialAddr + s₁.heap.size =
            s.heap.initialAddr + s.heap.size + 4096 := by
          rw [he.inv.shape.initialAddr.trans h.shape.initialAddr.symm, he.size, Nat.add_assoc]
        obtain ⟨b, hb, hsize⟩ := hroom.expand h.shape.tiles (by omega)
        rw [← hend] at hb
        have hle := kallocHeapAllocLoop_le hP hv he.inv he.pages (.inr ⟨b, hb, hsize⟩) hrun
        have hgrown := he.size
        omega

/-- `kalloc_heap_alloc` on a heap in order, with pages and a node to grow: it returns. -/
theorem HeapInv.alloc_go (hP : PagesOk env base ∅ I) (h : HeapInv base bs s.heap s.mem)
    (hI : I (s.heap.initialAddr + s.heap.size) s.sys s.mem) (hv : ValidAlignment alignment)
    (hfirst : alignment ≠ 0 → ∃ c ∈ bs, c.used = true ∧ c.addr = s.heap.initialAddr)
    (hnode : (holes bs).length < heapNodes)
    (hpages : PagesAvailable env (growthPages size alignment)
      ((s.heap.initialAddr + s.heap.size) / 4096) s.sys)
    (hfits : s.heap.initialAddr + s.heap.size + 4096 * growthPages size alignment ≤ 4294967296) :
    ∃ p s', kallocHeapAlloc env s size alignment = .ok (p, s') ∧ p ≠ 0 ∧
      s'.heap.size ≤ s.heap.size + 4096 * growthPages size alignment := by
  refine kallocHeapAllocLoop_go hP hv h hI hfirst (.inl hnode) hpages hfits (.inl ?_) ?_
  · unfold roomFor growthPages
    omega
  · unfold heapFuel
    omega

/-- On every heap that a run reaches, a request returns a pointer that is not null after at most
`growthPages` pages, provided that they fit and can be created, that a node is left, and that the
first block is in use for an aligned one. -/
theorem heapRun_allocReturns {live : List Live} (hK : KeepsHeap env base)
    (h : HeapRun env base s live) (hv : ValidAlignment alignment)
    (hfirst : alignment ≠ 0 → headerUsed s.mem s.heap.initialAddr ≠ 0)
    (hnode : s.heap.avl.free ≠ 0)
    (hpages : PagesAvailable env (growthPages size alignment)
      ((s.heap.initialAddr + s.heap.size) / 4096) s.sys)
    (hfits : s.heap.initialAddr + s.heap.size + 4096 * growthPages size alignment ≤ 4294967296) :
    ∃ p s', kallocHeapAlloc env s size alignment = .ok (p, s') ∧ p ≠ 0 ∧
      s'.heap.size ≤ s.heap.size + 4096 * growthPages size alignment := by
  obtain ⟨bs, hi⟩ := h.inv hK
  refine hi.heap.alloc_go (hK.pagesOk ∅) trivial hv (fun ha => hi.heap.first_used (hfirst ha)) ?_
    hpages hfits
  obtain ⟨t, fl, hI, hk⟩ := hi.heap.shape.avl
  have hlen := hI.length_keys
  have hpos := List.length_pos_iff.mpr (hI.free_ne_zero.mp hnode)
  rw [← hk.length_eq]
  omega

/-- Pages that cost nothing are there. -/
theorem flatEnv_pagesAvailable : ∀ n {page : ℕ}, page ≠ 0 → PagesAvailable flatEnv n page ()
  | 0, _, _ => trivial
  | n + 1, page, hpage => fun m =>
    ⟨(), m, if_neg hpage, flatEnv_pagesAvailable n (Nat.succ_ne_zero page)⟩

/-- A page-aligned request on a heap of one page. -/
theorem heapRun_allocReturns_byte : ∃ s, HeapRun flatEnv 0x500000 s [⟨0x51000C, 1, 0⟩] ∧
    ∃ p s', kallocHeapAlloc flatEnv s 5000 0x1000 = .ok (p, s') ∧ p ≠ 0 ∧
      s'.heap.size ≤ s.heap.size + 4096 * growthPages 5000 0x1000 := by
  obtain ⟨s, h, hinv⟩ := exists_flatRun (show 0 < 1 by decide) (by decide)
  have hend : s.heap.initialAddr + s.heap.size = 0x511000 := hinv.shape.tiles.2.2.symm
  have hg : growthPages 5000 0x1000 = 3 := rfl
  refine ⟨s, h, heapRun_allocReturns (flatEnv_keepsHeap _) h (.inr ⟨12, by decide, rfl⟩)
    (fun _ => hinv.headerUsed_first rfl) ?_ (flatEnv_pagesAvailable _ (by rw [hend]; decide))
    (by rw [hend, hg]; decide)⟩
  obtain ⟨t, fl, hI, hk⟩ := hinv.shape.avl
  have hlen := hI.length_keys
  refine hI.free_ne_zero.mpr fun hfl => ?_
  rw [hk.length_eq, hfl] at hlen
  exact absurd hlen (by decide)

end

end RawOS
