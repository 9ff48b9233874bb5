import RawOS.Alloc.HeapPool
import RawOS.HeapLimit
import RawOS.KallocRun

/-!
# The bytes of the allocations

What the calls of `kalloc.c` do to the allocations of others. `kernelRun_keepsBytes`: the bytes
that were asked for stay, and of the directories all entries but those of the tables that the
kernel gets when its heap grows. `kalloc_realloc` copies the bytes of the old block.
-/

namespace RawOS

/-- The request is not one that overflows. -/
def Live.Fits (l : Live) : Prop := l.alignment ≠ 0 → l.size + l.alignment ≤ 4294967296

/-- The allocations that someone has: the byte of `kalloc_init`, the directories `D` of the
processes, their tables, and `own`. -/
inductive Reached (D : Set ℕ) (own : Set Live) (p : Paging) : Live → Prop where
  | first : Reached D own p firstByte
  | directory {d : ℕ} : d ∈ D → d ≠ p.kernelPageDirectory → Reached D own p (directoryAt d)
  | table {d i : ℕ} : d ∈ D → i < 1024 → kernelHeapAddress ≤ (p.directories d).tables i →
    Reached D own p (tableAt ((p.directories d).tables i))
  | own {l : Live} : l ∈ own → Reached D own p l

/-- What is allocated: these, and every other block in use, such as a table whose entry was linked
to a table of the kernel. -/
inductive Allocation (D : Set ℕ) (own : Set Live) (s : Kernel) : Live → Prop where
  | reached {l : Live} : Reached D own s.sys l → Allocation D own s l
  | lost {bs : List Block} {b : Block} : Walk s.heap s.mem bs → b ∈ bs → b.used = true →
    (∀ l, Reached D own s.sys l → l.ptr ≠ b.user) → Allocation D own s ⟨b.user, b.size, 0⟩

/-- Entry `i` of both arrays of `d` stays. -/
def EntryKept (p p' : Paging) (d i : ℕ) : Prop :=
  (p'.directories d).tables i = (p.directories d).tables i ∧
    (p'.directories d).tablesX86Representation i = (p.directories d).tablesX86Representation i

/-- The kernel got its table `i`, and `d` has it. -/
structure KernelTableLinked (p p' : Paging) (d i : ℕ) : Prop where
  none : p.kernel.tables i = 0
  new : p'.kernel.tables i ≠ 0
  links : LinksKernel p' d i

/-- The bytes of `l` stay, but for the entries in `link` if it is a directory. -/
structure BytesKept (link : ℕ → ℕ → Prop) (s s' : Kernel) (l : Live) : Prop where
  memory : ∀ x ∈ l.range, s'.mem x = s.mem x
  entries : ∀ i, EntryKept s.sys s'.sys l.ptr i ∨ link l.ptr i
  table : s'.sys.tables l.ptr = s.sys.tables l.ptr

section

variable {uninit : Paging → Mem → ℤ} {D T : Set ℕ} {own : Set Live} {bs : List Block}
  {live : List Live} {s s' s'' : Kernel} {p : Paging} {link link' : ℕ → ℕ → Prop} {l l' : Live}
  {size alignment ptr newSize : ℕ}

theorem BytesKept.trans (h : BytesKept link s s' l) (h' : BytesKept (fun _ _ => False) s' s'' l)
    (hlink : ∀ i, link l.ptr i → EntryKept s'.sys s''.sys l.ptr i → link' l.ptr i) :
    BytesKept link' s s'' l where
  memory := fun x hx => (h'.memory x hx).trans (h.memory x hx)
  entries := fun i => by
    obtain ⟨h₁, h₂⟩ := (h'.entries i).resolve_right id
    rcases h.entries i with ⟨h₃, h₄⟩ | hl
    · exact .inl ⟨h₁.trans h₃, h₂.trans h₄⟩
    · exact .inr (hlink i hl ⟨h₁, h₂⟩)
  table := h'.table.trans h.table

/-- The allocations that someone has are those of the invariant. -/
theorem Reached.mem_live (h : Reached D own s.sys l) (hinv : KernelInv D T bs live s)
    (hown : OwnApart D T live own) : l ∈ live := by
  cases h with
  | first => exact hinv.first
  | directory hd hk => exact hinv.directories _ hd hk
  | table hd hi hle =>
    apply hinv.tables
    have hne : (s.sys.directories _).tables _ ≠ 0 := (lt_of_lt_of_le (by decide) hle).ne'
    exact (hinv.pages.inv.inUse_bounds (hinv.pages.inv.inUse_linked hd hi hne)).2.2.2.mpr hle
  | own hl => exact hown.live _ hl

/-- A block in use takes the place of the live allocation that starts there, if there is one. -/
theorem LiveInv.adopt {heap : KallocHeap} {m : Mem} {b : Block}
    (h : LiveInv kernelHeapAddress bs live heap m) (hb : b ∈ bs) (hbu : b.used = true) :
    LiveInv kernelHeapAddress bs (⟨b.user, b.size, 0⟩ :: live.filter (·.ptr ≠ b.user)) heap m := by
  refine ⟨h.heap, ?_, ?_, ?_⟩
  · intro l hl
    rcases List.mem_cons.mp hl with rfl | hl
    · exact ⟨b, hb, hbu, rfl, .inl le_rfl⟩
    · exact h.held l (List.mem_of_mem_filter hl)
  · intro l hl h0
    rcases List.mem_cons.mp hl with rfl | hl
    · exact absurd rfl h0
    · exact h.aligned l (List.mem_of_mem_filter hl) h0
  · rw [List.map_cons, List.nodup_cons]
    refine ⟨fun hp => ?_, h.nodup.sublist (List.filter_sublist.map Live.ptr)⟩
    obtain ⟨l, hl, hlp⟩ := List.mem_map.mp hp
    exact of_decide_eq_true (List.mem_filter.mp hl).2 hlp

/-- A block in use that nobody has can stand among the live allocations. -/
theorem KernelInv.adopt {b : Block} (h : KernelInv D T bs live s) (hb : b ∈ bs)
    (hbu : b.used = true) (hlost : ∀ l, Reached D own s.sys l → l.ptr ≠ b.user) :
    ∃ T' live', KernelInv D T' bs live' s ∧ ⟨b.user, b.size, 0⟩ ∈ live' ∧
      ∀ l ∈ live, l.ptr ≠ b.user → l ∈ live' := by
  have hkeep : ∀ l ∈ live, l.ptr ≠ b.user →
      l ∈ (⟨b.user, b.size, 0⟩ : Live) :: live.filter (·.ptr ≠ b.user) := fun l hl hne =>
    .tail _ (List.mem_filter.mpr ⟨hl, decide_eq_true hne⟩)
  -- the block is no table of a directory
  have hno : ∀ d ∈ D, ∀ i < 1024, (s.sys.directories d).tables i ≠ b.user := by
    intro d hd i hi heq
    obtain ⟨hlow, -⟩ := h.heap.heap.shape.mem_bounds hb
    refine hlost _ (.table hd hi ?_) heq
    rw [heq]
    exact (Nat.le_add_right _ _).trans (hlow.trans (Nat.le_add_right _ _))
  refine ⟨T \ {b.user}, _, ⟨h.heap.adopt hb hbu, ?_, ?_, ?_, ?_, h.below⟩, List.mem_cons_self, hkeep⟩
  · exact h.pages.of_kept (h.pages.inv.removeTable hno) (.refl _)
  · exact hkeep _ h.first (hlost _ .first)
  · exact fun d hd hk => hkeep _ (h.directories d hd hk) (hlost _ (.directory hd hk))
  · exact fun t ht => hkeep _ (h.tables t ht.1) ht.2

/-- Any two allocations are live at once. -/
theorem Allocation.live_two (hl : Allocation D own s l) (hl' : Allocation D own s l')
    (hinv : KernelInv D T bs live s) (hown : OwnApart D T live own) :
    ∃ T' live', KernelInv D T' bs live' s ∧ l ∈ live' ∧ l' ∈ live' := by
  have hblocks : ∀ {bs'}, Walk s.heap s.mem bs' → bs' = bs := fun hw =>
    walk_unique hw.tiles hinv.heap.heap.shape.tiles hw.stands hinv.heap.heap.shape.stands
  cases hl with
  | reached hl =>
    cases hl' with
    | reached hl' => exact ⟨T, live, hinv, hl.mem_live hinv hown, hl'.mem_live hinv hown⟩
    | lost hw hb hbu hlost =>
      obtain rfl := hblocks hw
      obtain ⟨T', live', hinv', hmem, hkeep⟩ := hinv.adopt hb hbu hlost
      exact ⟨T', live', hinv', hkeep _ (hl.mem_live hinv hown) (hlost _ hl), hmem⟩
  | @lost _ b hw hb hbu hlost =>
    obtain rfl := hblocks hw
    obtain ⟨T', live', hinv', hmem, hkeep⟩ := hinv.adopt hb hbu hlost
    cases hl' with
    | reached hl' => exact ⟨T', live', hinv', hmem, hkeep _ (hl'.mem_live hinv hown) (hlost _ hl')⟩
    | @lost _ c hw' hc hcu hlost' =>
      obtain rfl := hblocks hw'
      obtain ⟨T₂, live₂, hinv₂, hmem₂, hkeep₂⟩ := hinv'.adopt hc hcu hlost'
      refine ⟨T₂, live₂, hinv₂, ?_, hmem₂⟩
      by_cases heq : b.user = c.user
      · have haddr : b.addr = c.addr := by
          unfold Block.user at heq
          omega
        obtain rfl := hinv.heap.heap.shape.tiles.eq_of_addr hb hc haddr
        exact hmem₂
      · exact hkeep₂ _ hmem heq

/-- What was asked for is the owner's. -/
theorem LiveInv.owns_of_fits {heap : KallocHeap} {m : Mem}
    (h : LiveInv kernelHeapAddress bs live heap m)
    (hl : l ∈ live) (hfits : l.Fits) {x : ℕ} (hx : x ∈ l.range) : l.Owns m x := by
  obtain ⟨b, hb, -, hbp, hle⟩ := LiveInv.exists_block (s := ⟨heap, m, ()⟩) h hl hfits
  obtain ⟨h₁, h₂⟩ := Set.mem_Ico.mp hx
  unfold Block.user at hbp
  have hhead : l.ptr - 12 = b.addr := by omega
  refine ⟨h₁, h₂, ?_⟩
  rw [hhead, (h.heap.shape.stands b hb).header.size]
  omega

/-! ## `kalloc_alloc` and `kalloc_alloc_aligned` -/

theorem KernelInv.alloc_memory (h : KernelInv D T bs live s) (hv : ValidAlignment alignment)
    (hrun : kallocAllocAligned uninit s size alignment = .ok (ptr, s')) (hl : l ∈ live)
    (hfits : l.Fits) : ∀ x ∈ l.range, s'.mem x = s.mem x := by
  intro x hx
  obtain ⟨bs', ha⟩ := (kallocHeapAlloc_spec (pagingEnv_pagesOk uninit D T (heapEnd s) s.sys)
    h.heap.heap (h.pages.heapPages _) (fun x hx => absurd hx (Set.notMem_empty x)) hv
    fun _ => h.first_used).of_ok hrun
  exact ha.frame x ((h.heap.owns_of_fits hl hfits hx).payload h.heap hl) (Set.notMem_empty x)

theorem KernelInv.alloc_bytesKept (h : KernelInv D T bs live s) (hv : ValidAlignment alignment)
    (hrun : kallocAllocAligned uninit s size alignment = .ok (ptr, s')) (hl : l ∈ live)
    (hfits : l.Fits) : BytesKept (KernelTableLinked s.sys s'.sys) s s' l := by
  have hgrown := (kallocHeapAlloc_ok h hv hrun).grown
  refine ⟨h.alloc_memory hv hrun hl hfits, fun i => ?_, ?_⟩
  · refine (hgrown.directories l.ptr i).imp_right ?_
    rintro ⟨-, -, -, hnone, hnew, hne, hlinks⟩
    exact ⟨hnone, hnew ▸ hne, hlinks⟩
  · refine (hgrown.tables l.ptr).resolve_right ?_
    rintro ⟨i, hi, heq, -⟩
    have hle := h.le_ptr hl
    rw [heq, kernelPageTable_eq hi] at hle
    unfold kernelHeapAddress at hle
    omega

/-! ## `kalloc_free` -/

theorem LiveInv.free_memory (h : LiveInv kernelHeapAddress bs live s.heap s.mem)
    (hrun : kallocHeapFree (pagingEnv uninit) s l.ptr = .ok s') (hl : l ∈ live) (hl' : l' ∈ live)
    (hne : l' ≠ l) (hfits : l'.Fits) : s'.sys = s.sys ∧ ∀ x ∈ l'.range, s'.mem x = s.mem x := by
  obtain ⟨b, hb, hbu, hbp, -⟩ := h.held l hl
  obtain ⟨c, hc, hcu, hcp, hle⟩ := LiveInv.exists_block (s := s) h hl' hfits
  rw [← hbp] at hrun
  obtain ⟨bs', hf⟩ := (kallocHeapFree_spec h.heap hb hbu).of_ok hrun
  refine ⟨hf.sys, fun x hx => hf.frame x (.inr (.inr ⟨c, hc, ?_, hcu, ?_⟩))⟩
  · rintro rfl
    exact hne (h.ptr_inj hl' hl (hcp.symm.trans hbp))
  · obtain ⟨h₁, h₂⟩ := Set.mem_Ico.mp hx
    unfold Block.user at hcp
    unfold Block.user Block.footer
    omega

theorem LiveInv.free_bytesKept (h : LiveInv kernelHeapAddress bs live s.heap s.mem)
    (hrun : kallocHeapFree (pagingEnv uninit) s l.ptr = .ok s') (hl : l ∈ live) (hl' : l' ∈ live)
    (hne : l' ≠ l) (hfits : l'.Fits) : BytesKept (fun _ _ => False) s s' l' := by
  obtain ⟨hsys, hmem⟩ := h.free_memory hrun hl hl' hne hfits
  refine ⟨hmem, fun i => .inl ?_, ?_⟩
  · rw [hsys]
    exact ⟨rfl, rfl⟩
  · rw [hsys]

/-! ## `kalloc_realloc` -/

/-- A larger block: it is allocated, the bytes are copied, and the old block is released. -/
theorem KernelInv.realloc (h : KernelInv D T bs live s) (hlt : l.size < newSize)
    (hrun : kallocRealloc (pagingEnv uninit) s l.ptr l.size newSize = .ok (ptr, s')) :
    ∃ s₁ s₂ bs', kallocAllocAligned uninit s newSize 0 = .ok (ptr, s₁) ∧
      s₂ = { s₁ with mem := memcpy s₁.mem ptr l.ptr l.size } ∧
      LiveInv kernelHeapAddress bs' (⟨ptr, newSize, 0⟩ :: live) s₂.heap s₂.mem ∧
      (∀ l' ∈ live, l'.ptr ≠ ptr) ∧ kallocHeapFree (pagingEnv uninit) s₂ l.ptr = .ok s' := by
  unfold kallocRealloc at hrun
  rw [if_neg (not_le.mpr hlt)] at hrun
  obtain ⟨⟨q, s₁⟩, halloc, hrun⟩ := bind_eq_ok.mp hrun
  obtain ⟨s₂, hfree, hrun⟩ := bind_eq_ok.mp hrun
  cases hrun
  have ha := kallocHeapAlloc_ok h (.inl rfl) halloc
  obtain ⟨bs', hinv⟩ := ha.inv
  refine ⟨s₁, _, bs', halloc, rfl, hinv.heap.congr fun x _ _ hx => memcpy_of_outside ?_, ha.fresh,
    hfree⟩
  by_contra hin
  refine hx (Live.Owns.payload hinv.heap List.mem_cons_self ?_)
  refine hinv.heap.owns_of_fits List.mem_cons_self (fun h0 => absurd rfl h0) ?_
  unfold Live.range
  rw [Set.mem_Ico]
  dsimp only
  omega

/-- The copy is in the new block. -/
theorem LiveInv.memcpy_memory
    (h : LiveInv kernelHeapAddress bs (⟨ptr, newSize, 0⟩ :: live) s.heap s.mem)
    (hfresh : ∀ l' ∈ live, l'.ptr ≠ ptr) (hle : size ≤ newSize) (hl : l ∈ live) (hfits : l.Fits)
    {m : Mem} {src : ℕ} : ∀ x ∈ l.range, memcpy m ptr src size x = m x := by
  intro x hx
  have hdisjoint := LiveInv.disjoint (s := s) h (.tail _ hl) List.mem_cons_self hfits
    (fun h0 => absurd rfl h0) (hfresh l hl)
  have hout : x ∉ Set.Ico ptr (ptr + newSize) := Set.disjoint_left.mp hdisjoint hx
  rw [Set.mem_Ico] at hout
  exact memcpy_of_outside (by omega)

theorem KernelInv.realloc_bytesKept (h : KernelInv D T bs live s) (hl : l ∈ live)
    (hrun : kallocRealloc (pagingEnv uninit) s l.ptr l.size newSize = .ok (ptr, s')) (hl' : l' ∈ live)
    (hne : l' ≠ l) (hfits : l'.Fits) : BytesKept (KernelTableLinked s.sys s'.sys) s s' l' := by
  by_cases hlt : l.size < newSize
  · obtain ⟨s₁, s₂, bs', halloc, hs₂, hinv, hfresh, hfree⟩ := h.realloc hlt hrun
    have hkept₁ := h.alloc_bytesKept (.inl rfl) halloc hl' hfits
    have hkept₂ : BytesKept (KernelTableLinked s.sys s₁.sys) s s₂ l' := by
      rw [hs₂]
      refine ⟨fun x hx => ?_, hkept₁.entries, hkept₁.table⟩
      rw [← hkept₁.memory x hx]
      exact hinv.memcpy_memory hfresh hlt.le hl' hfits x hx
    have hkept₃ := hinv.free_bytesKept hfree (.tail _ hl) (.tail _ hl') hne hfits
    have hsys : s'.sys = s₁.sys := by
      rw [(hinv.free_memory hfree (.tail _ hl) (.tail _ hl') hne hfits).1, hs₂]
    rw [hsys]
    exact hkept₂.trans hkept₃ fun i hlink _ => hlink
  · unfold kallocRealloc at hrun
    rw [if_pos (not_lt.mp hlt)] at hrun
    cases hrun
    exact ⟨fun _ _ => rfl, fun _ => .inl ⟨rfl, rfl⟩, rfl⟩

theorem KernelInv.realloc_copies (h : KernelInv D T bs live s) (hl : l ∈ live) (hfits : l.Fits)
    (hrun : kallocRealloc (pagingEnv uninit) s l.ptr l.size newSize = .ok (ptr, s')) :
    ∀ i < min l.size newSize, s'.mem (ptr + i) = s.mem (l.ptr + i) := by
  intro i hi
  by_cases hlt : l.size < newSize
  · obtain ⟨s₁, s₂, bs', halloc, hs₂, hinv, hfresh, hfree⟩ := h.realloc hlt hrun
    have hnew : (⟨ptr, newSize, 0⟩ : Live) ∈ (⟨ptr, newSize, 0⟩ : Live) :: live := List.mem_cons_self
    have hne : (⟨ptr, newSize, 0⟩ : Live) ≠ l := fun heq => hfresh l hl (congrArg Live.ptr heq).symm
    have hdisjoint := LiveInv.disjoint (s := s₂) hinv (.tail _ hl) hnew hfits
      (fun h0 => absurd rfl h0) (hfresh l hl)
    have hfreed := (hinv.free_memory hfree (.tail _ hl) hnew hne fun h0 => absurd rfl h0).2
    have happart : ptr + l.size ≤ l.ptr ∨ l.ptr + l.size ≤ ptr := by
      have h₁ : l.ptr ∉ Set.Ico ptr (ptr + newSize) :=
        Set.disjoint_left.mp hdisjoint (Set.mem_Ico.mpr (by omega))
      have h₂ : ptr ∉ Set.Ico l.ptr (l.ptr + l.size) :=
        Set.disjoint_right.mp hdisjoint (Set.mem_Ico.mpr (by dsimp only; omega))
      rw [Set.mem_Ico] at h₁ h₂
      omega
    calc s'.mem (ptr + i) = s₂.mem (ptr + i) := hfreed _ (Set.mem_Ico.mpr (by dsimp only; omega))
      _ = s₁.mem (l.ptr + i) := by
        rw [hs₂]
        exact memcpy_of_inside happart (by omega)
      _ = s.mem (l.ptr + i) := h.alloc_memory (.inl rfl) halloc hl hfits _
        (Set.mem_Ico.mpr (by omega))
  · unfold kallocRealloc at hrun
    rw [if_pos (not_lt.mp hlt)] at hrun
    cases hrun
    rfl

/-- A run goes on after `kalloc_realloc`. -/
theorem KernelRun.realloc (h : KernelRun uninit s D own) (hl : l ∈ own) (hlt : l.size < newSize)
    (hrun : kallocRealloc (pagingEnv uninit) s l.ptr l.size newSize = .ok (ptr, s')) :
    KernelRun uninit s' D (insert ⟨ptr, newSize, 0⟩ own \ {l}) := by
  obtain ⟨T, bs, live, hinv, hown⟩ := h.inv
  have hlow := hinv.le_ptr (hown.live l hl)
  obtain ⟨s₁, s₂, bs', halloc, rfl, -, -, hfree⟩ := hinv.realloc hlt hrun
  have h₁ := h.alloc (.inl rfl) halloc
  obtain ⟨T₁, bs₁, live₁, hinv₁, hown₁⟩ := h₁.inv
  have hnew := hown₁.live _ (.inl rfl)
  have h₂ : KernelRun uninit { s₁ with mem := memcpy s₁.mem ptr l.ptr l.size } D
      (insert ⟨ptr, newSize, 0⟩ own) := by
    show KernelRun uninit ⟨s₁.heap, _, { s₁.sys with frames := s₁.sys.frames }⟩ D _
    refine h₁.write fun x _ _ hx => memcpy_of_outside ?_
    by_contra hin
    refine hx _ (.inl rfl) (hinv₁.heap.owns_of_fits hnew (fun h0 => absurd rfl h0) ?_)
    unfold Live.range
    rw [Set.mem_Ico]
    dsimp only
    omega
  refine h₂.free (.inr hl) ?_
  unfold kallocFree
  rw [if_neg (not_lt.mpr hlow)]
  exact hfree

/-! ## Cloning -/

theorem clonePage_directories {source t i j : ℕ} {p p' : Paging}
    (hrun : clonePage source t i j p = .ok p') :
    p'.directories = p.directories ∧ p'.kernelPageDirectory = p.kernelPageDirectory := by
  unfold clonePage at hrun
  dsimp only at hrun
  split_ifs at hrun
  · obtain ⟨⟨f, q⟩, halloc, hrun⟩ := bind_eq_ok.mp hrun
    cases hrun
    obtain ⟨f', -, halloc⟩ := bind_eq_ok.mp halloc
    obtain ⟨b, -, halloc⟩ := bind_eq_ok.mp halloc
    cases halloc
    exact ⟨rfl, rfl⟩
  · cases hrun
    exact ⟨rfl, rfl⟩

theorem copyLoop_directories {source t i n : ℕ} {p p' : Paging}
    (hrun : forLoop (clonePage source t i) n p = .ok p') :
    p'.directories = p.directories ∧ p'.kernelPageDirectory = p.kernelPageDirectory := by
  refine forLoop_ok (P := fun _ r => r.directories = p.directories ∧
    r.kernelPageDirectory = p.kernelPageDirectory) ⟨rfl, rfl⟩ ?_ hrun
  rintro j - r r' ⟨h₁, h₂⟩ hstep
  obtain ⟨h₃, h₄⟩ := clonePage_directories hstep
  exact ⟨h₃.trans h₁, h₄.trans h₂⟩

/-- What every allocation keeps, and every change of pages but those of the directories `D`, the
clone of a directory keeps. -/
theorem pagingClone_keeps {P : Kernel → Prop} {source c : ℕ} (h : KernelInv D T bs live s)
    (hsource : source ∈ D) (hstart : P s)
    (halloc : ∀ D' T' bs' live' s₁ s₂ size ptr, KernelInv D' T' bs' live' s₁ → (∀ l ∈ live, l ∈ live') →
      P s₁ → kallocAllocAligned uninit s₁ size 0x1000 = .ok (ptr, s₂) → P s₂)
    (hpages : ∀ s₁ p', P s₁ → p'.kernelPageDirectory = s₁.sys.kernelPageDirectory →
      (∀ d ∈ D, p'.directories d = s₁.sys.directories d) → P { s₁ with sys := p' })
    (hrun : pagingClonePageDirectoryForNewProcess uninit s source = .ok (c, s')) : P s' := by
  unfold pagingClonePageDirectoryForNewProcess at hrun
  obtain ⟨⟨c', s₀⟩, hdirectory, hrun⟩ := bind_eq_ok.mp hrun
  obtain ⟨s₁, hcopy, hrun⟩ := bind_eq_ok.mp hrun
  obtain ⟨p, hlink, hrun⟩ := bind_eq_ok.mp hrun
  cases hrun
  obtain ⟨hc, hstart'⟩ := @DirectoryCopied.alloc _ _ _ _ _ _ source _ h
    (kallocHeapAlloc_ok h validAlignment_page hdirectory)
  have hne : ∀ d ∈ D, d ≠ c := fun d hd heq => hc (heq ▸ hd)
  have hzero : P { s₀ with sys := s₀.sys.zeroDirectory c } :=
    hpages s₀ _ (halloc D T bs live s s₀ _ _ h (fun l hl => hl) hstart hdirectory) rfl
      fun d hd => Function.update_of_ne (hne d hd) ..
  have hloop : (∃ T' live', DirectoryCopied D T live source c (256 + (1024 - 1024 / 4)) s T' live' s₁) ∧
      P s₁ := by
    refine forLoop_ok (P := fun n q =>
      (∃ T' live', DirectoryCopied D T live source c (256 + n) s T' live' q) ∧ P q)
      ⟨⟨T, _, hstart'⟩, hzero⟩ ?_ hcopy
    rintro i hi q q' ⟨⟨T₁, live₁, hq⟩, hP⟩ hstep
    refine ⟨hq.step h hsource hc (by omega) (by omega) hstep, ?_⟩
    obtain ⟨bs₁, hinv₁⟩ := hq.inv
    unfold cloneTable at hstep
    split_ifs at hstep
    · obtain ⟨⟨t, s₂⟩, htable, hstep⟩ := bind_eq_ok.mp hstep
      obtain ⟨p₂, hinner, hstep⟩ := bind_eq_ok.mp hstep
      obtain ⟨address, -, hstep⟩ := bind_eq_ok.mp hstep
      cases hstep
      obtain ⟨hdirs, hkernel⟩ := copyLoop_directories hinner
      refine hpages s₂ _ (halloc _ _ _ _ _ _ _ _ hinv₁ hq.old hP htable) hkernel fun d hd => ?_
      rw [Paging.setDirectoryEntry_of_ne (hne d hd), hdirs]
      rfl
    · cases hstep
      exact hP
  obtain ⟨⟨T₁, live₁, hcopied⟩, hP⟩ := hloop
  obtain ⟨bs₁, hinv₁⟩ := hcopied.inv
  have hck : c ≠ s₁.sys.kernelPageDirectory := by
    rw [hcopied.kernel]
    exact (hne _ h.pages.inv.kernel).symm
  obtain ⟨hlow, -⟩ := linkLoop_ok hinv₁ (.inr hsource) (.inl rfl) hck (hne source hsource) hlink
  exact hpages s₁ p hP hlow.kernel fun d hd => hlow.others d (hne d hd)

/-- The clone of a directory leaves the bytes of the others alone. -/
theorem pagingClone_memory {source c : ℕ} (h : KernelInv D T bs live s) (hsource : source ∈ D)
    (hl : l ∈ live) (hfits : l.Fits)
    (hrun : pagingClonePageDirectoryForNewProcess uninit s source = .ok (c, s')) :
    ∀ x ∈ l.range, s'.mem x = s.mem x := by
  refine pagingClone_keeps (P := fun q => ∀ x ∈ l.range, q.mem x = s.mem x) h hsource (fun _ _ => rfl)
    (fun D' T' bs' live' s₁ s₂ size ptr hinv hlive hP halloc x hx => ?_) (fun _ _ hP _ _ => hP) hrun
  rw [hinv.alloc_memory validAlignment_page halloc (hlive l hl) hfits x hx]
  exact hP x hx

/-- The kernel gets no table above the end of its heap. -/
theorem pagingClone_kernelTables {source c i : ℕ} (h : KernelInv D T bs live s) (hsource : source ∈ D)
    (hnone : s.sys.kernel.tables i = 0)
    (hrun : pagingClonePageDirectoryForNewProcess uninit s source = .ok (c, s'))
    (hend : heapEnd s' ≤ i * 0x400000) : s'.sys.kernel.tables i = 0 := by
  refine pagingClone_keeps (P := fun q => q.sys.kernelPageDirectory ∈ D ∧
    (heapEnd q ≤ i * 0x400000 → q.sys.kernel.tables i = 0)) h hsource
    ⟨h.pages.inv.kernel, fun _ => hnone⟩
    ?_ ?_ hrun |>.2 hend
  · rintro D' T' bs' live' s₁ s₂ size ptr hinv - ⟨hk, hP⟩ halloc
    have ha := kallocHeapAlloc_ok hinv validAlignment_page halloc
    refine ⟨ha.grown.kernel ▸ hk, fun hle => ?_⟩
    have hnone₁ := hP (ha.le.trans hle)
    rcases ha.grown.directories s₁.sys.kernelPageDirectory i with ⟨hsame, -⟩ | ⟨-, hlt, -⟩
    · unfold Paging.kernel
      rw [ha.grown.kernel, hsame]
      exact hnone₁
    · omega
  · rintro s₁ p' ⟨hk, hP⟩ hkernel hdirs
    refine ⟨hkernel ▸ hk, fun hle => ?_⟩
    have hnone₁ := hP hle
    unfold Paging.kernel at hnone₁ ⊢
    dsimp only
    rw [hkernel, hdirs _ hk]
    exact hnone₁

/-! ## Every call -/

/-- What the next call of `kalloc.c` leaves alone. -/
structure KeepsBytes (uninit : Paging → Mem → ℤ) (D : Set ℕ) (own : Set Live) (s : Kernel)
    (link : Paging → ℕ → ℕ → Prop) : Prop where
  alloc : ∀ size alignment ptr s', ValidAlignment alignment →
    kallocAllocAligned uninit s size alignment = .ok (ptr, s') →
    ∀ l, Allocation D own s l → l.Fits → BytesKept (link s'.sys) s s' l
  free : ∀ l s', Allocation D own s l → kallocFree uninit s l.ptr = .ok s' →
    ∀ l', Allocation D own s l' → l' ≠ l → l'.Fits → BytesKept (link s'.sys) s s' l'
  realloc : ∀ l newSize ptr s', Allocation D own s l →
    kallocRealloc (pagingEnv uninit) s l.ptr l.size newSize = .ok (ptr, s') →
    ∀ l', Allocation D own s l' → l' ≠ l → l'.Fits → BytesKept (link s'.sys) s s' l'
  copies : ∀ l newSize ptr s', Allocation D own s l → l.Fits →
    kallocRealloc (pagingEnv uninit) s l.ptr l.size newSize = .ok (ptr, s') →
    ∀ i < min l.size newSize, s'.mem (ptr + i) = s.mem (l.ptr + i)

/-- In every state of the kernel the calls leave alone what others asked for without an overflow,
but for the directory entries of the tables that the kernel gets. -/
theorem kernelRun_keepsBytes (h : KernelRun uninit s D own) :
    KeepsBytes uninit D own s (KernelTableLinked s.sys) := by
  obtain ⟨T, bs, live, hinv, hown⟩ := h.inv
  refine ⟨?_, ?_, ?_, ?_⟩
  · intro size alignment ptr s' hv hrun l hl hfits
    obtain ⟨T', live', hinv', hmem, -⟩ := hl.live_two hl hinv hown
    exact hinv'.alloc_bytesKept hv hrun hmem hfits
  · intro l s' hl hrun l' hl' hne hfits
    unfold kallocFree at hrun
    split_ifs at hrun
    obtain ⟨T', live', hinv', hmem, hmem'⟩ := hl.live_two hl' hinv hown
    obtain ⟨hm, he, ht⟩ := hinv'.heap.free_bytesKept hrun hmem hmem' hne hfits
    exact ⟨hm, fun i => (he i).imp_right False.elim, ht⟩
  · intro l newSize ptr s' hl hrun l' hl' hne hfits
    obtain ⟨T', live', hinv', hmem, hmem'⟩ := hl.live_two hl' hinv hown
    exact hinv'.realloc_bytesKept hmem hrun hmem' hne hfits
  · intro l newSize ptr s' hl hfits hrun
    obtain ⟨T', live', hinv', hmem, -⟩ := hl.live_two hl hinv hown
    exact hinv'.realloc_copies hmem hfits hrun

theorem kernelRun_keepsBytes_grown : ∃ s D own, KernelRun (fun _ _ => 0) s D own ∧
    (∃ d ∈ D, d ≠ s.sys.kernelPageDirectory ∧ ∃ e, s.sys.pageOf d 0x40000 = some e) ∧
    (∃ l ∈ own, l.size = 0x200000) ∧ KeepsBytes (fun _ _ => 0) D own s (KernelTableLinked s.sys) := by
  obtain ⟨s, ptr, h, hne, hpage, -⟩ := exists_limitedRun
  exact ⟨s, _, _, h.kernelRun, ⟨_, .inl rfl, hne, hpage⟩, ⟨_, rfl, rfl⟩,
    kernelRun_keepsBytes h.kernelRun⟩

/-- A request that makes the heap grow past 8 MB writes to the directory of the first process. -/
theorem not_keepsBytes_grown : ¬ ∀ s D own, KernelRun (fun _ _ => 0) s D own →
    KeepsBytes (fun _ _ => 0) D own s fun _ _ _ => False := by
  intro hall
  obtain ⟨p, s₀, -, -, hboot, hinit⟩ := exists_kallocInit (fun _ _ => 0)
    (show 0x800000 ≤ 0x40400000 by decide) (by decide) (by decide)
    (show 7168 + (0x40400000 - kernelHeapAddress) / 4096 * 2 ≤ 783360 by decide)
  obtain ⟨s₁, hclone, hle, brk, hbrk, hfirst⟩ := hboot.clone (by decide)
  obtain ⟨size, s, halloc, hend, hrun, -⟩ := hfirst.fill hle (hbrk.trans (by decide))
  -- the kernel has no table for the third 4 MB before the request
  have hnone : s₁.sys.kernel.tables 2 = 0 := by
    obtain ⟨bs, hinv⟩ := hboot.inv
    refine pagingClone_kernelTables hinv rfl ?_ hclone hle
    by_contra hne
    have htable := hinit 2 (by decide) hne
    unfold InitTable at htable
    omega
  obtain ⟨T, bs, live, hinv, -⟩ := hfirst.run.inv
  have ha := kallocHeapAlloc_ok hinv (.inl rfl) halloc
  obtain ⟨bs', hinv'⟩ := ha.inv
  have hnew : s.sys.kernel.tables 2 ≠ 0 := by
    obtain ⟨f, hf⟩ := hinv'.pages.mapped 0x800 (by decide) (by rw [hend]; decide)
    exact hf.table
  have hnk : 0x511000 ≠ s₁.sys.kernelPageDirectory := fun heq => by
    have hbelow := hinv.below
    dsimp only at hbelow
    rw [← heq] at hbelow
    exact absurd hbelow (by decide)
  have hkeeps := (hall _ _ _ hfirst.run).alloc size 0 _ s (.inl rfl) halloc (directoryAt 0x511000)
    (.reached (.directory (.inl rfl) hnk)) fun _ => by decide
  obtain ⟨hsame, -⟩ := (hkeeps.entries 2).resolve_right id
  -- the directory of the process has the new table
  obtain ⟨d, hd, hlinks⟩ :=
    ha.grown.linked 2 hnone hnew _ (by rw [hfirst.processes]; exact List.mem_cons_self)
  obtain rfl := Option.some.inj hd
  have hold := hsame.symm.trans hlinks.tables
  rcases hinv.pages.inv.linked _ (.inl rfl) 2 (by decide) (hold ▸ hnew) with hT | hk
  · -- a table of the kernel is not in the heap
    have hle := (hinv.pages.inv.heap _ hT).2.1
    have hwindow := hold.trans (hinv'.pages.inv.window 2 (by decide) hnew).1
    exact absurd (hle.trans_eq hwindow) (by decide)
  · exact hnew (hold.symm.trans (hk.trans hnone))

end

end RawOS
