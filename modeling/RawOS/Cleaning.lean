import RawOS.KernelInv

/-!
# Cleaning a page directory

`cleanTable_ok` and `pagingClean_ok` say what
`paging_clean_all_non_kernel_pages_from_page_directory` does: the pages above 1 GB that are not
the kernel's stack lose their frames, and the tables that are empty then are released.
-/

namespace RawOS

/-- The first `n` pages of the table `t`, which is table `i`, were cleaned. -/
structure TableCleaned (i t n : ℕ) (p p' : Paging) : Prop where
  directories : p'.directories = p.directories
  kernel : p'.kernelPageDirectory = p.kernelPageDirectory
  processes : p'.processes = p.processes
  frames : p'.frames = p.frames
  others : ∀ t', t' ≠ t → p'.tables t' = p.tables t'
  kept : ∀ j, n ≤ j ∨ isPagePartOfKernelStack (i * 1024 + j) → p'.tables t j = p.tables t j
  removed : ∀ j < n, ¬ isPagePartOfKernelStack (i * 1024 + j) → (p'.tables t j).present = false
  has : ∀ k, p'.availableFrames.Has k ↔ p.availableFrames.Has k ∧
    ∀ j < n, Maps p t j k → isPagePartOfKernelStack (i * 1024 + j)

/-- One page: it is not present, it is kept, or it is removed. -/
theorem cleanPage_ok {i t j : ℕ} {b b' : Bool} {p p' : Paging}
    (hrun : cleanPage i t j (b, p) = .ok (b', p')) :
    (p.tables t j).present = false ∧ b' = b ∧ p' = p ∨
    (p.tables t j).present = true ∧ isPagePartOfKernelStack (i * 1024 + j) ∧ b' = false ∧ p' = p ∨
    (p.tables t j).present = true ∧ ¬ isPagePartOfKernelStack (i * 1024 + j) ∧ b' = b ∧
      ∃ a, bitmapClear p.availableFrames (p.tables t j).frameAddress20Bits = .ok a ∧
        p' = { p with availableFrames := a }.setEntry t j PageEntry.zero := by
  unfold cleanPage at hrun
  dsimp only at hrun
  cases hpres : (p.tables t j).present with
  | false =>
    rw [hpres] at hrun
    cases hrun
    exact .inl ⟨rfl, rfl, rfl⟩
  | true =>
    rw [hpres, if_pos rfl] at hrun
    obtain ⟨_, -, hrun⟩ := bind_eq_ok.mp hrun
    obtain ⟨_, -, hrun⟩ := bind_eq_ok.mp hrun
    by_cases hstack : isPagePartOfKernelStack (i * 1024 + j)
    · rw [if_neg (not_not.mpr hstack)] at hrun
      cases hrun
      exact .inr (.inl ⟨rfl, hstack, rfl, rfl⟩)
    · rw [if_pos hstack] at hrun
      obtain ⟨a, ha, hrun⟩ := bind_eq_ok.mp hrun
      cases hrun
      exact .inr (.inr ⟨rfl, hstack, rfl, a, ha, rfl⟩)

section

variable {D T : Set ℕ} {bs : List Block} {live : List Live} {i t n d : ℕ} {p p' : Paging}
  {s s' : Kernel} {b : Bool} {uninit : Paging → Mem → ℤ}

theorem TableCleaned.refl (i t : ℕ) (p : Paging) : TableCleaned i t 0 p p where
  directories := rfl
  kernel := rfl
  processes := rfl
  frames := rfl
  others := fun _ _ => rfl
  kept := fun _ _ => rfl
  removed := fun _ h => absurd h (Nat.not_lt_zero _)
  has := fun _ => ⟨fun h => ⟨h, fun _ hj => absurd hj (Nat.not_lt_zero _)⟩, And.left⟩

/-- A page that was cleaned. -/
theorem TableCleaned.step {p₁ : Paging} {b b' : Bool} (h : TableCleaned i t n p p₁)
    (hrun : cleanPage i t n (b, p₁) = .ok (b', p')) : TableCleaned i t (n + 1) p p' := by
  have hn : p₁.tables t n = p.tables t n := h.kept n (.inl le_rfl)
  rcases cleanPage_ok hrun with ⟨hpres, -, rfl⟩ | ⟨hpres, hstack, -, rfl⟩ |
    ⟨hpres, hstack, -, a, ha, hp'⟩
  · -- the page is not present
    refine { h with
      kept := fun j hj => h.kept j (hj.imp_left fun h => by omega)
      removed := ?_
      has := ?_ }
    · intro j hj hs
      by_cases hjn : j = n
      · subst hjn
        exact hpres
      · exact h.removed j (by omega) hs
    · intro k
      rw [h.has]
      refine and_congr_right fun _ => ⟨fun hall j hj hm => ?_, fun hall j hj => hall j (by omega)⟩
      by_cases hjn : j = n
      · subst hjn
        rw [hn, hm.present] at hpres
        exact Bool.noConfusion hpres
      · exact hall j (by omega) hm
  · -- the page is part of the stack
    refine { h with
      kept := fun j hj => h.kept j (hj.imp_left fun h => by omega)
      removed := ?_
      has := ?_ }
    · intro j hj hs
      exact h.removed j (by
        refine lt_of_le_of_ne (by omega) ?_
        rintro rfl
        exact hs hstack) hs
    · intro k
      rw [h.has]
      refine and_congr_right fun _ => ⟨fun hall j hj hm => ?_, fun hall j hj => hall j (by omega)⟩
      by_cases hjn : j = n
      · subst hjn
        exact hstack
      · exact hall j (by omega) hm
  · have hself : p'.tables t n = PageEntry.zero := hp' ▸ Paging.setEntry_self
    have hother : ∀ t' j', t' ≠ t ∨ j' ≠ n → p'.tables t' j' = p₁.tables t' j' := fun t' j' hne => by
      rw [hp', Paging.setEntry_of_ne hne]
    refine ⟨?_, ?_, ?_, ?_, ?_, ?_, ?_, ?_⟩
    · rw [hp']
      exact h.directories
    · rw [hp']
      exact h.kernel
    · rw [hp']
      exact h.processes
    · rw [hp']
      exact h.frames
    · intro t' ht'
      rw [← h.others t' ht']
      funext j
      exact hother t' j (.inl ht')
    · intro j hj
      have hjn : j ≠ n := by
        rintro rfl
        rcases hj with hj | hj
        · omega
        · exact hstack hj
      rw [hother t j (.inr hjn)]
      exact h.kept j (hj.imp_left fun h => by omega)
    · intro j hj hs
      by_cases hjn : j = n
      · subst hjn
        rw [hself]
        rfl
      · rw [hother t j (.inr hjn)]
        exact h.removed j (by omega) hs
    · intro k
      have hbits : p'.availableFrames = a := by rw [hp']; rfl
      rw [hbits, has_bitmapClear ha, h.has]
      constructor
      · rintro ⟨hne, hk, hall⟩
        refine ⟨hk, fun j hj hm => ?_⟩
        by_cases hjn : j = n
        · subst hjn
          rw [hn] at hne
          exact absurd hm.frame.symm hne
        · exact hall j (by omega) hm
      · rintro ⟨hk, hall⟩
        refine ⟨?_, hk, fun j hj => hall j (by omega)⟩
        rintro rfl
        rw [hn] at hpres hall
        exact hstack (hall n (by omega) ⟨hpres, rfl⟩)

/-- The kernel's pages that lie in a table above its stack. -/
theorem PagingInv.cleanable (h : PagingInv D T p) (hi : i < 1024)
    (ht : t ∈ T ∨ t ≠ 0 ∧ t = p.kernel.tables i ∧ 958 ≤ i) {j : ℕ} :
    ∀ n ≤ kernelStackFirstPage, p.kernel.tables (n / 1024) = t → n % 1024 ≠ j := by
  have hstack : kernelStackFirstPage = 0xBF801 := rfl
  intro n hn heq
  rcases ht with hT | ⟨hne, hk, hle⟩
  · have hlow := (h.heap t hT).2.1
    unfold kernelHeapAddress at hlow
    have hw := (h.window (n / 1024) (by omega) (by omega)).1
    rw [heq, kernelPageTable_eq (by omega)] at hw
    omega
  · have hsame := h.window_inj hi (show n / 1024 < 1024 by omega) (hk ▸ hne) (heq.trans hk)
    omega

/-- A page of a table above the kernel's stack. -/
theorem cleanPage_inv {j : ℕ} {b' : Bool} (h : PagingInv D T p) (hi : i < 1024) (hj : j < 1024)
    (ht : t ∈ T ∨ t ≠ 0 ∧ t = p.kernel.tables i ∧ 958 ≤ i)
    (hrun : cleanPage i t j (b, p) = .ok (b', p')) : PagingInv D T p' := by
  have hinUse : InUse T p t := by
    rcases ht with ht | ⟨h0, hk, -⟩
    · exact .inl ht
    · exact .inr ⟨h0, i, hi, hk.symm⟩
  rcases cleanPage_ok hrun with ⟨-, -, rfl⟩ | ⟨-, -, -, rfl⟩ | ⟨hpres, -, -, e, he, rfl⟩
  · exact h
  · exact h
  · exact h.unmapEntry hj hinUse ⟨hpres, rfl⟩ (bitmapClear_size he) (fun k => has_bitmapClear he)
      (h.cleanable hi ht)

/-- The inner loop. The table stays only if it has a page of the stack. -/
theorem cleanLoop_cleaned (hrun : forLoop (cleanPage i t) 1024 (true, p) = .ok (b, p')) :
    TableCleaned i t 1024 p p' ∧
      if b then ∀ j < 1024, (p.tables t j).present = true → ¬ isPagePartOfKernelStack (i * 1024 + j)
      else ∃ j < 1024, (p.tables t j).present = true ∧ isPagePartOfKernelStack (i * 1024 + j) := by
  refine forLoop_ok (P := fun n r => TableCleaned i t n p r.2 ∧
    if r.1 then ∀ j < n, (p.tables t j).present = true → ¬ isPagePartOfKernelStack (i * 1024 + j)
    else ∃ j < n, (p.tables t j).present = true ∧ isPagePartOfKernelStack (i * 1024 + j))
    ⟨.refl i t p, fun _ hj => absurd hj (Nat.not_lt_zero _)⟩ ?_ hrun
  rintro n hn ⟨a, q⟩ ⟨a', q'⟩ ⟨hc, hflag⟩ hstep
  have hq : q.tables t n = p.tables t n := hc.kept n (.inl le_rfl)
  dsimp only at hflag ⊢
  refine ⟨hc.step hstep, ?_⟩
  rcases cleanPage_ok hstep with ⟨hpres, rfl, -⟩ | ⟨hpres, hstack, rfl, -⟩ | ⟨hpres, hstack, rfl, -⟩
  · rw [hq] at hpres
    split_ifs at hflag ⊢
    · intro j hj hp
      by_cases hjn : j = n
      · subst hjn
        rw [hpres] at hp
        exact Bool.noConfusion hp
      · exact hflag j (by omega) hp
    · obtain ⟨j, hj, hr⟩ := hflag
      exact ⟨j, by omega, hr⟩
  · rw [hq] at hpres
    exact ⟨n, by omega, hpres, hstack⟩
  · split_ifs at hflag ⊢
    · intro j hj hp
      by_cases hjn : j = n
      · subst hjn
        exact hstack
      · exact hflag j (by omega) hp
    · obtain ⟨j, hj, hr⟩ := hflag
      exact ⟨j, by omega, hr⟩

/-- The inner loop keeps the invariant, in a table above the kernel's stack. -/
theorem cleanLoop_inv (h : PagingInv D T p) (hi : i < 1024)
    (ht : t ∈ T ∨ t ≠ 0 ∧ t = p.kernel.tables i ∧ 958 ≤ i)
    (hrun : forLoop (cleanPage i t) 1024 (true, p) = .ok (b, p')) : PagingInv D T p' := by
  refine (forLoop_ok (P := fun n r => TableCleaned i t n p r.2 ∧ PagingInv D T r.2)
    ⟨.refl i t p, h⟩ ?_ hrun).2
  rintro n hn ⟨a, q⟩ ⟨a', q'⟩ ⟨hc, hinv⟩ hstep
  have hkernel : q.kernel = p.kernel := by
    unfold Paging.kernel
    rw [hc.directories, hc.kernel]
  exact ⟨hc.step hstep, cleanPage_inv hinv hi hn (by rwa [hkernel]) hstep⟩

/-- The pages up to the kernel's stack are none of those. -/
theorem TableCleaned.kernelKept (hc : TableCleaned i t n p p') (h : PagingInv D T p) (hi : i < 1024)
    (ht : t ∈ T ∨ t ≠ 0 ∧ t = p.kernel.tables i ∧ 958 ≤ i) : KernelKept p p' := by
  intro m hm f hf
  have hkernel : p'.kernel = p.kernel := by
    unfold Paging.kernel
    rw [hc.directories, hc.kernel]
  refine hf.congr (by rw [hkernel]) ?_
  rw [hc.others]
  exact fun heq => h.cleanable hi ht m hm heq rfl

/-- The release of a live allocation. -/
theorem kallocFree_ok {l : Live} (h : LiveInv kernelHeapAddress bs live s.heap s.mem) (hl : l ∈ live)
    (hrun : kallocFree uninit s l.ptr = .ok s') :
    ∃ bs', LiveInv kernelHeapAddress bs' (live.erase l) s'.heap s'.mem ∧ s'.sys = s.sys ∧
      heapEnd s' = heapEnd s := by
  unfold kallocFree at hrun
  split_ifs at hrun
  obtain ⟨b, hb, hbu, hbp, -⟩ := h.held l hl
  rw [← hbp] at hrun
  obtain ⟨bs', hf⟩ := (kallocHeapFree_spec h.heap hb hbu).of_ok hrun
  refine ⟨bs', h.free hl hbp hf, hf.sys, ?_⟩
  unfold heapEnd
  rw [hf.heapSize, hf.inv.shape.initialAddr, h.heap.shape.initialAddr]

/-- A table that `d` alone has is released. -/
theorem PagingInv.dropTable (h : PagingInv D T p) (hd : d ∈ D) (hk : d ≠ p.kernelPageDirectory)
    (hi : i < 1024) (hle : 256 ≤ i) (ht : (p.directories d).tables i ∈ T) :
    PagingInv D (T \ {(p.directories d).tables i}) (p.setDirectoryEntry d i 0 0) := by
  have h0 : 0 ∉ T := fun h0 => absurd (h.heap 0 h0).2.1 (by decide)
  refine (h.setDirectoryEntry hd hk (.inl ⟨rfl, rfl⟩) fun hT => absurd hT h0).removeTable ?_
  intro d' hd' i' hi' heq
  by_cases hslot : d' ≠ d ∨ i' ≠ i
  · rw [Paging.setDirectoryEntry_tables_of_ne hslot] at heq
    have := h.owned d hd i hi hle ht d' hd' i' hi' heq
    omega
  · obtain ⟨rfl, rfl⟩ : d' = d ∧ i' = i := by omega
    rw [Paging.setDirectoryEntry_tables_self] at heq
    exact h0 (heq ▸ ht)

/-- What the outer loop does to the address spaces with table `i`. -/
def TableDone (d i : ℕ) (p p' : Paging) : Prop :=
  (p.directories d).tables i = 0 ∧ p' = p ∨
  (p.directories d).tables i ≠ 0 ∧ ∃ q, TableCleaned i ((p.directories d).tables i) 1024 p q ∧
    ((∀ j < 1024, (p.tables ((p.directories d).tables i) j).present = true →
        ¬ isPagePartOfKernelStack (i * 1024 + j)) ∧ p' = q.setDirectoryEntry d i 0 0 ∨
      (∃ j < 1024, (p.tables ((p.directories d).tables i) j).present = true ∧
        isPagePartOfKernelStack (i * 1024 + j)) ∧ p' = q)

/-- What the outer loop does with a table. -/
structure EntryCleaned (D T : Set ℕ) (live : List Live) (d i : ℕ) (s s' : Kernel) : Prop where
  inv : ∃ T' bs live', KernelInv D T' bs live' s' ∧ T' ⊆ T ∧ live' ⊆ live ∧
    ∀ l ∈ live, l ∉ live' → ∃ t ∈ T, l = tableAt t
  heapEnd : heapEnd s' = heapEnd s
  result : (s.sys.directories d).tables i = 0 ∧ s' = s ∨
    (s.sys.directories d).tables i ≠ 0 ∧
    ∃ p, TableCleaned i ((s.sys.directories d).tables i) 1024 s.sys p ∧
      ((∀ j < 1024, (s.sys.tables ((s.sys.directories d).tables i) j).present = true →
          ¬ isPagePartOfKernelStack (i * 1024 + j)) ∧ s'.sys = p.setDirectoryEntry d i 0 0 ∨
        (∃ j < 1024, (s.sys.tables ((s.sys.directories d).tables i) j).present = true ∧
          isPagePartOfKernelStack (i * 1024 + j)) ∧ s'.sys = p)

theorem cleanTable_ok (h : KernelInv D T bs live s) (hd : d ∈ D) (hk : d ≠ s.sys.kernelPageDirectory)
    (hi : i < 1024) (hle : 256 ≤ i) (hrun : cleanTable uninit d i s = .ok s') :
    EntryCleaned D T live d i s s' := by
  unfold cleanTable at hrun
  dsimp only at hrun
  by_cases h0 : (s.sys.directories d).tables i = 0
  · rw [if_neg (not_not.mpr h0)] at hrun
    cases hrun
    exact ⟨⟨T, bs, live, h, subset_rfl, List.Subset.refl _, fun l hl hn => absurd hl hn⟩, rfl,
      .inl ⟨h0, rfl⟩⟩
  · rw [if_pos h0] at hrun
    obtain ⟨⟨b, p⟩, hloop, hrun⟩ := bind_eq_ok.mp hrun
    dsimp only at hrun
    obtain ⟨t, ht⟩ : ∃ t, t = (s.sys.directories d).tables i := ⟨_, rfl⟩
    rw [← ht] at hloop hrun h0
    have hlink := h.pages.inv.linked d hd i hi (ht ▸ h0)
    rw [← ht] at hlink
    obtain ⟨hc, hflag⟩ := cleanLoop_cleaned hloop
    have hinv : t ∈ T ∨ 958 ≤ i → PagingInv D T p := fun hs => by
      refine cleanLoop_inv h.pages.inv hi ?_ hloop
      rcases hlink with hT | heq
      · exact .inl hT
      · exact hs.imp_right fun hle => ⟨h0, heq, hle⟩
    have hsafe : t ∈ T ∨ 958 ≤ i → KernelKept s.sys p := fun hs => by
      refine hc.kernelKept h.pages.inv hi ?_
      rcases hlink with hT | heq
      · exact .inl hT
      · exact hs.imp_right fun hle => ⟨h0, heq, hle⟩
    have hk' : d ≠ p.kernelPageDirectory := by
      rw [hc.kernel]
      exact hk
    have htp : (p.directories d).tables i = t := by rw [hc.directories, ht]
    cases b with
    | true =>
      rw [if_pos rfl] at hrun hflag
      obtain ⟨s₂, hfree, hrun⟩ := bind_eq_ok.mp hrun
      cases hrun
      -- a table of the kernel is no block of the heap
      have hT : t ∈ T := by
        unfold kallocFree at hfree
        split_ifs at hfree with hlow
        exact (h.pages.inv.inUse_bounds (ht ▸ h.pages.inv.inUse_linked hd hi (ht ▸ h0))).2.2.2.mpr
          (not_lt.mp hlow)
      have hmem := h.tables t hT
      obtain ⟨bs', hlive, hsys, hend⟩ := kallocFree_ok (s := { s with sys := p })
        (l := tableAt t) h.heap hmem hfree
      have hdrop := (hinv (.inl hT)).dropTable hd hk' hi hle (htp ▸ hT)
      rw [htp] at hdrop
      have hend' : heapEnd s₂ = heapEnd s := hend
      have hkept : KernelKept s.sys (p.setDirectoryEntry d i 0 0) :=
        (hsafe (.inl hT)).trans (.of_eq (Paging.setDirectoryEntry_of_ne hk'.symm) fun _ _ _ => rfl)
      refine ⟨⟨T \ {t}, bs', live.erase (tableAt t), ⟨hlive, ?_, ?_, ?_, ?_, ?_⟩, Set.sdiff_subset,
        List.erase_subset, ?_⟩, hend, .inr ⟨ht ▸ h0, p, ht ▸ hc, .inl ⟨ht ▸ hflag, ?_⟩⟩⟩
      · show PagesAt D (T \ {t}) (heapEnd s₂) (s₂.sys.setDirectoryEntry d i 0 0)
        rw [hend', hsys]
        exact h.pages.of_kept hdrop hkept
      · refine (List.mem_erase_of_ne fun heq => ?_).mpr h.first
        have hsize : 1 = sizeofPageTable := congrArg Live.size heq
        exact absurd hsize (by decide)
      · intro d' hd' hne
        refine (List.mem_erase_of_ne ?_).mpr (h.directories d' hd' ?_)
        · intro heq
          have hsize : sizeofPageDirectory = sizeofPageTable := congrArg Live.size heq
          exact absurd hsize (by decide)
        · rw [← hc.kernel]
          have hkk : (s₂.sys.setDirectoryEntry d i 0 0).kernelPageDirectory =
            p.kernelPageDirectory := by
            rw [hsys]
            rfl
          rw [← hkk]
          exact hne
      · intro t' ht'
        refine (List.mem_erase_of_ne ?_).mpr (h.tables t' ht'.1)
        exact fun heq => ht'.2 (congrArg Live.ptr heq)
      · show s₂.sys.kernelPageDirectory < kernelHeapAddress
        rw [hsys]
        exact hc.kernel ▸ h.below
      · intro l hl hnot
        refine ⟨t, hT, ?_⟩
        by_contra hne
        exact hnot ((List.mem_erase_of_ne hne).mpr hl)
      · show s₂.sys.setDirectoryEntry d i 0 0 = _
        rw [hsys]
    | false =>
      rw [if_neg Bool.false_ne_true] at hrun hflag
      cases hrun
      have hsafe' : t ∈ T ∨ 958 ≤ i := by
        obtain ⟨j, hj, -, hstack⟩ := hflag
        unfold isPagePartOfKernelStack kernelStackLastPage at hstack
        omega
      refine ⟨⟨T, bs, live, ⟨h.heap, h.pages.of_kept (hinv hsafe') (hsafe hsafe'), h.first, ?_,
        h.tables, hc.kernel ▸ h.below⟩, subset_rfl, List.Subset.refl _,
        fun l hl hn => absurd hl hn⟩, rfl,
        .inr ⟨ht ▸ h0, p, ht ▸ hc, .inr ⟨ht ▸ hflag, rfl⟩⟩⟩
      intro d' hd' hne
      refine h.directories d' hd' ?_
      rw [← hc.kernel]
      exact hne

/-- What the kernel's address spaces look like when table `i` was cleaned. -/
structure EntryEffects (d i : ℕ) (p p' : Paging) : Prop where
  kernel : p'.kernelPageDirectory = p.kernelPageDirectory
  processes : p'.processes = p.processes
  frames : p'.frames = p.frames
  directories : ∀ d', d' ≠ d → p'.directories d' = p.directories d'
  entries : ∀ i', i' ≠ i → (p'.directories d).tables i' = (p.directories d).tables i' ∧
    (p'.directories d).tablesX86Representation i' = (p.directories d).tablesX86Representation i'
  tables : ∀ t, t ≠ (p.directories d).tables i → p'.tables t = p.tables t
  pages : ∀ k, k / 1024 = i →
    p'.pageOf d k = if isPagePartOfKernelStack k then p.pageOf d k else none
  has : ∀ f, p'.availableFrames.Has f ↔ p.availableFrames.Has f ∧
    ∀ k, k / 1024 = i → ∀ e, p.pageOf d k = some e → e.frameAddress20Bits = f →
      isPagePartOfKernelStack k

theorem TableDone.effects (h : TableDone d i p p') : EntryEffects d i p p' := by
  obtain ⟨t, ht⟩ : ∃ t, t = (p.directories d).tables i := ⟨_, rfl⟩
  have hblock : ∀ k, k / 1024 = i → i * 1024 + k % 1024 = k ∧ k % 1024 < 1024 := by
    intro k hk
    omega
  rcases h with ⟨h0, rfl⟩ | ⟨h0, q, hc, hres⟩
  · have hnone : ∀ k, k / 1024 = i → p'.pageOf d k = none := fun k hk =>
      Paging.pageOf_eq_none (.inl (hk ▸ h0))
    refine ⟨rfl, rfl, rfl, fun _ _ => rfl, fun _ _ => ⟨rfl, rfl⟩, fun _ _ => rfl, fun k hk => ?_,
      fun f => ⟨fun hf => ⟨hf, fun k hk e he => ?_⟩, And.left⟩⟩
    · rw [hnone k hk, ite_self]
    · rw [hnone k hk] at he
      cases he
  · rw [← ht] at h0 hc hres
    -- a page of the table is an entry of it
    have hpage : ∀ k, k / 1024 = i → ∀ e, p.pageOf d k = some e ↔
        (p.tables t (k % 1024)).present = true ∧ p.tables t (k % 1024) = e := by
      intro k hk e
      rw [Paging.pageOf_eq_some, hk, ← ht]
      exact ⟨fun h => h.2, fun h => ⟨h0, h⟩⟩
    have hhas : ∀ f, q.availableFrames.Has f ↔ p.availableFrames.Has f ∧
        ∀ k, k / 1024 = i → ∀ e, p.pageOf d k = some e → e.frameAddress20Bits = f →
          isPagePartOfKernelStack k := by
      intro f
      rw [hc.has]
      refine and_congr_right fun _ => ⟨fun hall k hk e he hf => ?_, fun hall j hj hm => ?_⟩
      · obtain ⟨hpres, rfl⟩ := (hpage k hk e).mp he
        obtain ⟨h₁, h₂⟩ := hblock k hk
        rw [← h₁]
        exact hall (k % 1024) h₂ ⟨hpres, hf⟩
      · have hk : (i * 1024 + j) / 1024 = i := by omega
        refine hall (i * 1024 + j) hk _ ((hpage _ hk _).mpr ⟨?_, rfl⟩) ?_
        · rw [show (i * 1024 + j) % 1024 = j by omega]
          exact hm.present
        · rw [show (i * 1024 + j) % 1024 = j by omega]
          exact hm.frame
    rcases hres with ⟨hnone, hp'⟩ | ⟨-, hp'⟩
    · rw [hp']
      have hentry : ∀ i', i' ≠ i →
          ((q.setDirectoryEntry d i 0 0).directories d).tables i' = (p.directories d).tables i' ∧
          ((q.setDirectoryEntry d i 0 0).directories d).tablesX86Representation i' =
            (p.directories d).tablesX86Representation i' := by
        intro i' hne
        rw [Paging.setDirectoryEntry_tables_of_ne (.inr hne),
          Paging.setDirectoryEntry_x86_of_ne (.inr hne), hc.directories]
        exact ⟨rfl, rfl⟩
      refine ⟨hc.kernel, hc.processes, hc.frames, fun d' hd' => ?_, hentry,
        fun t' ht' => hc.others t' (ht ▸ ht'), fun k hk => ?_, hhas⟩
      · rw [Paging.setDirectoryEntry_of_ne hd', hc.directories]
      · have hq' : (q.setDirectoryEntry d i 0 0).pageOf d k = none :=
          Paging.pageOf_eq_none (.inl (by rw [hk]; exact Paging.setDirectoryEntry_tables_self))
        rw [hq']
        split_ifs with hstack
        · -- no page of the stack is there
          symm
          refine Paging.pageOf_eq_none (.inr ?_)
          rw [hk, ← ht, ← Bool.not_eq_true]
          intro hpres
          obtain ⟨h₁, h₂⟩ := hblock k hk
          exact hnone (k % 1024) h₂ hpres (h₁.symm ▸ hstack)
        · rfl
    · rw [hp']
      refine ⟨hc.kernel, hc.processes, hc.frames, fun d' _ => by rw [hc.directories],
        fun i' _ => by rw [hc.directories]; exact ⟨rfl, rfl⟩, fun t' ht' => hc.others t' (ht ▸ ht'),
        fun k hk => ?_, hhas⟩
      obtain ⟨h₁, h₂⟩ := hblock k hk
      have htab : (q.directories d).tables (k / 1024) = t := by rw [hc.directories, hk, ht]
      split_ifs with hstack
      · refine Paging.pageOf_congr (by rw [hc.directories]) fun _ => ?_
        rw [hk, ← ht]
        exact hc.kept _ (.inr (h₁.symm ▸ hstack))
      · refine Paging.pageOf_eq_none (.inr ?_)
        rw [htab]
        exact hc.removed _ h₂ (h₁.symm ▸ hstack)

theorem EntryCleaned.done (h : EntryCleaned D T live d i s s') : TableDone d i s.sys s'.sys := by
  rcases h.result with ⟨h0, rfl⟩ | hdone
  · exact .inl ⟨h0, rfl⟩
  · exact .inr hdone

theorem EntryCleaned.effects (h : EntryCleaned D T live d i s s') :
    EntryEffects d i s.sys s'.sys := h.done.effects

/-- Two entries above 1 GB of a directory have different tables. -/
theorem PagingInv.tables_inj {i' : ℕ} (h : PagingInv D T p) (hd : d ∈ D) (hi : i < 1024)
    (hle : 256 ≤ i) (hi' : i' < 1024) (hne : (p.directories d).tables i ≠ 0)
    (heq : (p.directories d).tables i' = (p.directories d).tables i) : i' = i := by
  rcases h.linked d hd i hi hne with hT | hk
  · exact (h.owned d hd i hi hle hT d hd i' hi' heq).2
  · rcases h.linked d hd i' hi' (heq ▸ hne) with hT' | hk'
    · have hlow := (h.heap _ hT').2.1
      have hw := (h.window i hi (hk ▸ hne)).1
      rw [kernelPageTable_eq hi] at hw
      unfold kernelHeapAddress at hlow
      omega
    · exact h.window_inj hi hi' (hk ▸ hne) (hk'.symm.trans (heq.trans hk))

/-- Every entry above 1 GB has a table of its own. -/
def OwnTables (p : Paging) (d : ℕ) : Prop :=
  ∀ i < 1024, 256 ≤ i → ∀ i' < 1024, 256 ≤ i' → (p.directories d).tables i ≠ 0 →
    (p.directories d).tables i' = (p.directories d).tables i → i' = i

theorem PagingInv.ownTables (h : PagingInv D T p) (hd : d ∈ D) : OwnTables p d :=
  fun _ hi hle _ hi' _ => h.tables_inj hd hi hle hi'

/-- What the outer loop does to the address spaces with the tables from 256 up to `n`. -/
structure SpaceCleaned (d n : ℕ) (p p' : Paging) : Prop where
  kernel : p'.kernelPageDirectory = p.kernelPageDirectory
  processes : p'.processes = p.processes
  frames : p'.frames = p.frames
  directories : ∀ d', d' ≠ d → p'.directories d' = p.directories d'
  entries : ∀ i, i < 256 ∨ n ≤ i →
    (p'.directories d).tables i = (p.directories d).tables i ∧
    (p'.directories d).tablesX86Representation i = (p.directories d).tablesX86Representation i
  tables : ∀ t, (∀ i < n, 256 ≤ i → (p.directories d).tables i ≠ t) → p'.tables t = p.tables t
  pages : ∀ k < n * 1024, 256 * 1024 ≤ k →
    p'.pageOf d k = if isPagePartOfKernelStack k then p.pageOf d k else none
  has : ∀ f, p'.availableFrames.Has f ↔ p.availableFrames.Has f ∧
    ∀ k < n * 1024, 256 * 1024 ≤ k → ∀ e, p.pageOf d k = some e →
      e.frameAddress20Bits = f → isPagePartOfKernelStack k

theorem SpaceCleaned.refl (d : ℕ) (p : Paging) : SpaceCleaned d 256 p p where
  kernel := rfl
  processes := rfl
  frames := rfl
  directories := fun _ _ => rfl
  entries := fun _ _ => ⟨rfl, rfl⟩
  tables := fun _ _ => rfl
  pages := fun k hk hle => absurd hle (by omega)
  has := fun f => ⟨fun h => ⟨h, fun k hk hle => absurd hle (by omega)⟩, And.left⟩

theorem lt_succ_mul_iff {k : ℕ} : k < (i + 1) * 1024 ↔ k < i * 1024 ∨ k / 1024 = i := by
  rw [← Nat.div_lt_iff_lt_mul (by decide), ← Nat.div_lt_iff_lt_mul (by decide)]
  omega

namespace SpaceCleaned

/-- The pages of the tables that are still to be cleaned. -/
theorem later {k : ℕ} (h : SpaceCleaned d n p p') (hown : OwnTables p d) (hle : 256 ≤ n)
    (hk : n ≤ k / 1024) (hk' : k / 1024 < 1024) : p'.pageOf d k = p.pageOf d k := by
  refine Paging.pageOf_congr (h.entries _ (.inr hk)).1 fun hne => ?_
  refine congrFun (h.tables _ fun i hi hle' heq => ?_) _
  have hsame := hown _ hk' (by omega) i (by omega) hle' hne heq
  omega

theorem step {p₁ : Paging} (h : SpaceCleaned d i p p₁) (hown : OwnTables p d)
    (hown₁ : OwnTables p₁ d) (hi : i < 1024) (hle : 256 ≤ i) (he : EntryEffects d i p₁ p') :
    SpaceCleaned d (i + 1) p p' := by
  obtain ⟨t, ht⟩ : ∃ t, t = (p.directories d).tables i := ⟨_, rfl⟩
  have ht₁ : (p₁.directories d).tables i = t := (h.entries i (.inr le_rfl)).1.trans ht.symm
  -- the pages of the table are as they were
  have hpage : ∀ k, k / 1024 = i → p₁.pageOf d k = p.pageOf d k := fun k hk =>
    h.later hown hle (by omega) (by omega)
  refine ⟨he.kernel.trans h.kernel, he.processes.trans h.processes, he.frames.trans h.frames,
    fun d' hd' => (he.directories d' hd').trans (h.directories d' hd'),
    fun i' hi' => ?_, fun t' ht' => ?_, fun k hk' hle' => ?_, fun f => ?_⟩
  · obtain ⟨h₁, h₂⟩ := he.entries i' (by omega)
    obtain ⟨h₃, h₄⟩ := h.entries i' (by omega)
    exact ⟨h₁.trans h₃, h₂.trans h₄⟩
  · rw [he.tables t', h.tables t' fun i' hi' => ht' i' (by omega)]
    rw [ht₁, ht]
    exact fun heq => ht' i (by omega) hle heq.symm
  · by_cases hki : k / 1024 = i
    · rw [he.pages k hki, hpage k hki]
    · have hsame : p'.pageOf d k = p₁.pageOf d k := by
        refine Paging.pageOf_congr (he.entries _ hki).1 fun hne => ?_
        refine congrFun (he.tables _ fun heq => hki ?_) _
        exact hown₁ i hi hle _ (by omega) (by omega) (heq ▸ hne) heq
      rw [hsame]
      exact h.pages k ((lt_succ_mul_iff.mp hk').resolve_right hki) hle'
  · rw [he.has, h.has, and_assoc]
    refine and_congr_right fun _ => ⟨?_, ?_⟩
    · rintro ⟨h₁, h₂⟩ k hk' hle' e hpe hf
      by_cases hki : k / 1024 = i
      · exact h₂ k hki e ((hpage k hki).trans hpe) hf
      · exact h₁ k ((lt_succ_mul_iff.mp hk').resolve_right hki) hle' e hpe hf
    · intro hall
      refine ⟨fun k hlt => ?_, fun k hki e hpe hf => ?_⟩
      · exact hall k (lt_succ_mul_iff.mpr (.inl hlt))
      · exact hall k (lt_succ_mul_iff.mpr (.inr hki)) (by omega) e ((hpage k hki).symm.trans hpe) hf

end SpaceCleaned

/-- The tables from 256 up to `n` were cleaned. -/
structure DirectoryCleaned (D T : Set ℕ) (live : List Live) (d n : ℕ) (s s' : Kernel) : Prop where
  inv : ∃ T' bs live', KernelInv D T' bs live' s' ∧ T' ⊆ T ∧ live' ⊆ live ∧
    ∀ l ∈ live, l ∉ live' → ∃ t ∈ T, l = tableAt t
  heapEnd : heapEnd s' = heapEnd s
  kernel : s'.sys.kernelPageDirectory = s.sys.kernelPageDirectory
  processes : s'.sys.processes = s.sys.processes
  frames : s'.sys.frames = s.sys.frames
  directories : ∀ d', d' ≠ d → s'.sys.directories d' = s.sys.directories d'
  entries : ∀ i, i < 256 ∨ n ≤ i →
    (s'.sys.directories d).tables i = (s.sys.directories d).tables i ∧
    (s'.sys.directories d).tablesX86Representation i =
      (s.sys.directories d).tablesX86Representation i
  tables : ∀ t, (∀ i < n, 256 ≤ i → (s.sys.directories d).tables i ≠ t) →
    s'.sys.tables t = s.sys.tables t
  pages : ∀ k < n * 1024, 256 * 1024 ≤ k →
    s'.sys.pageOf d k = if isPagePartOfKernelStack k then s.sys.pageOf d k else none
  has : ∀ f, s'.sys.availableFrames.Has f ↔ s.sys.availableFrames.Has f ∧
    ∀ k < n * 1024, 256 * 1024 ≤ k → ∀ e, s.sys.pageOf d k = some e →
      e.frameAddress20Bits = f → isPagePartOfKernelStack k

theorem DirectoryCleaned.space (h : DirectoryCleaned D T live d n s s') :
    SpaceCleaned d n s.sys s'.sys :=
  ⟨h.kernel, h.processes, h.frames, h.directories, h.entries, h.tables, h.pages, h.has⟩

theorem SpaceCleaned.directoryCleaned (h : SpaceCleaned d n s.sys s'.sys)
    (hend : heapEnd s' = heapEnd s)
    (hinv : ∃ T' bs live', KernelInv D T' bs live' s' ∧ T' ⊆ T ∧ live' ⊆ live ∧
      ∀ l ∈ live, l ∉ live' → ∃ t ∈ T, l = tableAt t) : DirectoryCleaned D T live d n s s' :=
  ⟨hinv, hend, h.kernel, h.processes, h.frames, h.directories, h.entries, h.tables, h.pages, h.has⟩

theorem DirectoryCleaned.refl (h : KernelInv D T bs live s) :
    DirectoryCleaned D T live d 256 s s :=
  (SpaceCleaned.refl d s.sys).directoryCleaned rfl
    ⟨T, bs, live, h, subset_rfl, List.Subset.refl _, fun _ hl hn => absurd hl hn⟩

theorem DirectoryCleaned.step {s₁ : Kernel} (h : DirectoryCleaned D T live d i s s₁)
    (hinv : KernelInv D T bs live s) (hd : d ∈ D) (hk : d ≠ s.sys.kernelPageDirectory)
    (hi : i < 1024) (hle : 256 ≤ i) (hrun : cleanTable uninit d i s₁ = .ok s') :
    DirectoryCleaned D T live d (i + 1) s s' := by
  obtain ⟨T₁, bs₁, live₁, hinv₁, hT₁, hlive₁, hgone₁⟩ := h.inv
  have hk₁ : d ≠ s₁.sys.kernelPageDirectory := by
    rw [h.kernel]
    exact hk
  have hc := cleanTable_ok hinv₁ hd hk₁ hi hle hrun
  obtain ⟨T₂, bs₂, live₂, hinv₂, hT₂, hlive₂, hgone₂⟩ := hc.inv
  have hspace := h.space.step (hinv.pages.inv.ownTables hd) (hinv₁.pages.inv.ownTables hd) hi hle
    hc.effects
  refine hspace.directoryCleaned (hc.heapEnd.trans h.heapEnd)
    ⟨T₂, bs₂, live₂, hinv₂, hT₂.trans hT₁, fun _ hl => hlive₁ (hlive₂ hl), fun l hl hn => ?_⟩
  by_cases hl₁ : l ∈ live₁
  · obtain ⟨t', ht', heq⟩ := hgone₂ l hl₁ hn
    exact ⟨t', hT₁ ht', heq⟩
  · exact hgone₁ l hl hl₁

/-- `paging_clean_all_non_kernel_pages_from_page_directory`. -/
theorem pagingClean_ok (h : KernelInv D T bs live s) (hd : d ∈ D)
    (hk : d ≠ s.sys.kernelPageDirectory)
    (hrun : pagingCleanAllNonKernelPagesFromPageDirectory uninit s d = .ok s') :
    DirectoryCleaned D T live d 1024 s s' := by
  refine forLoop_ok (P := fun n s' => DirectoryCleaned D T live d (256 + n) s s') (.refl h) ?_ hrun
  intro i hi s₁ s₂ hc hstep
  exact hc.step h hd hk (by omega) (by omega) hstep

/-! ## Any directory -/

/-- The tables of `d` above 1 GB are blocks of the heap, and the pages there have used frames of
their own. -/
structure OwnedSpace (live : List Live) (d : ℕ) (p : Paging) : Prop where
  own : OwnTables p d
  live : ∀ i < 1024, 256 ≤ i → (p.directories d).tables i ≠ 0 →
    tableAt ((p.directories d).tables i) ∈ live
  used : ∀ k < 1024 * 1024, 256 * 1024 ≤ k → ∀ e, p.pageOf d k = some e →
    bitmapGet p.availableFrames e.frameAddress20Bits = .ok 1
  distinct : ∀ k < 1024 * 1024, 256 * 1024 ≤ k → ∀ k' < 1024 * 1024, 256 * 1024 ≤ k' →
    ∀ e e', p.pageOf d k = some e → p.pageOf d k' = some e' →
      e.frameAddress20Bits = e'.frameAddress20Bits → k' = k

/-- None of the pages of table `i` is to be kept. -/
def Emptied (keep : ℕ → Prop) (p : Paging) (d i : ℕ) : Prop :=
  (p.directories d).tables i ≠ 0 ∧ ∀ k, k / 1024 = i → keep k → p.pageOf d k = none

/-- The live allocations without the tables from 256 up to `n` that are emptied. -/
def TablesReleased (keep : ℕ → Prop) (live : List Live) (d n : ℕ) (s s' : Kernel) : Prop :=
  ∃ bs live', LiveInv kernelHeapAddress bs live' s'.heap s'.mem ∧ ∀ l, l ∈ live' ↔ l ∈ live ∧
    ∀ i < n, 256 ≤ i → Emptied keep s.sys d i → l ≠ tableAt ((s.sys.directories d).tables i)

/-- Table `i` is released if it is emptied, and stays otherwise. -/
structure EntryUpdated (keep : ℕ → Prop) (d i : ℕ) (p p' : Paging) : Prop where
  released : Emptied keep p d i → (p'.directories d).tables i = 0 ∧
    (p'.directories d).tablesX86Representation i = 0
  linked : ¬ Emptied keep p d i → (p'.directories d).tables i = (p.directories d).tables i ∧
    (p'.directories d).tablesX86Representation i = (p.directories d).tablesX86Representation i

theorem Emptied.congr {keep : ℕ → Prop} (h : (p'.directories d).tables i = (p.directories d).tables i)
    (hp : ∀ k, k / 1024 = i → p'.pageOf d k = p.pageOf d k) :
    Emptied keep p' d i ↔ Emptied keep p d i := by
  unfold Emptied
  rw [h]
  refine and_congr_right fun _ => forall_congr' fun k => ?_
  exact forall_congr' fun hk => by rw [hp k hk]

/-- The flag of the inner loop. -/
theorem emptied_iff (h0 : (p.directories d).tables i ≠ 0) : Emptied isPagePartOfKernelStack p d i ↔
    ∀ j < 1024, (p.tables ((p.directories d).tables i) j).present = true →
      ¬ isPagePartOfKernelStack (i * 1024 + j) := by
  constructor
  · intro hempty j hj hpres hstack
    have hblock : (i * 1024 + j) / 1024 = i := by omega
    have hnone := hempty.2 _ hblock hstack
    rw [Paging.pageOf_eq_some.mpr ⟨hblock.symm ▸ h0, ?_, rfl⟩] at hnone
    · cases hnone
    · rw [hblock, show (i * 1024 + j) % 1024 = j by omega]
      exact hpres
  · intro hall
    refine ⟨h0, fun k hk hstack => Paging.pageOf_eq_none (.inr ?_)⟩
    rw [hk, ← Bool.not_eq_true]
    intro hpres
    refine hall (k % 1024) (by omega) hpres ?_
    rwa [show i * 1024 + k % 1024 = k by omega]

theorem TableDone.entry (h : TableDone d i p p') :
    EntryUpdated isPagePartOfKernelStack d i p p' := by
  rcases h with ⟨h0, rfl⟩ | ⟨h0, q, hc, ⟨hnone, rfl⟩ | ⟨⟨j, hj, hpres, hstack⟩, rfl⟩⟩
  · exact ⟨fun he => absurd h0 he.1, fun _ => ⟨rfl, rfl⟩⟩
  · refine ⟨fun _ => ⟨Paging.setDirectoryEntry_tables_self, Paging.setDirectoryEntry_x86_self⟩,
      fun hne => absurd ((emptied_iff h0).mpr hnone) hne⟩
  · refine ⟨fun he => absurd hstack ((emptied_iff h0).mp he j hj hpres), fun _ => ?_⟩
    rw [hc.directories]
    exact ⟨rfl, rfl⟩

/-- A step of the outer loop, for a table that is a block of the heap. -/
theorem cleanTable_done (h : LiveInv kernelHeapAddress bs live s.heap s.mem)
    (ht : (s.sys.directories d).tables i ≠ 0 → tableAt ((s.sys.directories d).tables i) ∈ live)
    (hrun : cleanTable uninit d i s = .ok s') :
    TableDone d i s.sys s'.sys ∧ ∃ bs' live', LiveInv kernelHeapAddress bs' live' s'.heap s'.mem ∧
      ∀ l, l ∈ live' ↔ l ∈ live ∧ (Emptied isPagePartOfKernelStack s.sys d i →
        l ≠ tableAt ((s.sys.directories d).tables i)) := by
  unfold cleanTable at hrun
  dsimp only at hrun
  by_cases h0 : (s.sys.directories d).tables i = 0
  · rw [if_neg (not_not.mpr h0)] at hrun
    cases hrun
    exact ⟨.inl ⟨h0, rfl⟩, bs, live, h, fun l => ⟨fun hl => ⟨hl, fun he => absurd h0 he.1⟩, And.left⟩⟩
  · rw [if_pos h0] at hrun
    obtain ⟨⟨b, p⟩, hloop, hrun⟩ := bind_eq_ok.mp hrun
    dsimp only at hrun
    obtain ⟨hc, hflag⟩ := cleanLoop_cleaned hloop
    cases b with
    | true =>
      rw [if_pos rfl] at hrun hflag
      obtain ⟨s₂, hfree, hrun⟩ := bind_eq_ok.mp hrun
      cases hrun
      obtain ⟨bs', hlive, hsys, -⟩ := kallocFree_ok (s := { s with sys := p })
        (l := tableAt ((s.sys.directories d).tables i)) h (ht h0) hfree
      refine ⟨.inr ⟨h0, p, hc, .inl ⟨hflag, by dsimp only; rw [hsys]⟩⟩, bs', _, hlive, fun l => ?_⟩
      have hempty := (emptied_iff h0).mpr hflag
      rw [(List.Nodup.of_map _ h.nodup).mem_erase_iff, and_comm]
      exact and_congr_right fun _ => ⟨fun hne _ => hne, fun hne => hne hempty⟩
    | false =>
      rw [if_neg Bool.false_ne_true] at hrun hflag
      cases hrun
      refine ⟨.inr ⟨h0, p, hc, .inr ⟨hflag, rfl⟩⟩, bs, live, h, fun l =>
        ⟨fun hl => ⟨hl, fun he => ?_⟩, And.left⟩⟩
      obtain ⟨j, hj, hpres, hstack⟩ := hflag
      exact absurd hstack ((emptied_iff h0).mp he j hj hpres)

/-- The tables from 256 up to `n` were cleaned, and the empty ones released. -/
structure OwnedCleaned (live : List Live) (d n : ℕ) (s s' : Kernel) : Prop where
  space : SpaceCleaned d n s.sys s'.sys
  heap : TablesReleased isPagePartOfKernelStack live d n s s'
  entries : ∀ i < n, 256 ≤ i → EntryUpdated isPagePartOfKernelStack d i s.sys s'.sys

namespace OwnedCleaned

theorem refl (h : LiveInv kernelHeapAddress bs live s.heap s.mem) :
    OwnedCleaned live d 256 s s where
  space := .refl d s.sys
  heap := ⟨bs, live, h, fun l => ⟨fun hl => ⟨hl, fun i hi hle => absurd hle (by omega)⟩, And.left⟩⟩
  entries := fun i hi hle => absurd hle (by omega)

/-- The tables that are left are owned. -/
theorem ownTables (h : OwnedCleaned live d n s s') (hown : OwnTables s.sys d) :
    OwnTables s'.sys d := by
  have hentry : ∀ i, (s'.sys.directories d).tables i = 0 ∨
      (s'.sys.directories d).tables i = (s.sys.directories d).tables i := fun i => by
    by_cases hi : i < 256 ∨ n ≤ i
    · exact .inr (h.space.entries i hi).1
    · have hupdated := h.entries i (by omega) (by omega)
      by_cases hempty : Emptied isPagePartOfKernelStack s.sys d i
      · exact .inl (hupdated.released hempty).1
      · exact .inr (hupdated.linked hempty).1
  intro i hi hle i' hi' hle' hne heq
  have h₁ := (hentry i).resolve_left hne
  have h₂ := (hentry i').resolve_left (heq ▸ hne)
  exact hown i hi hle i' hi' hle' (h₁ ▸ hne) (h₂.symm.trans (heq.trans h₁))

/-- What the next table was, it still is. -/
theorem next (h : OwnedCleaned live d i s s') (hown : OwnedSpace live d s.sys) (hi : i < 1024)
    (hle : 256 ≤ i) : (s'.sys.directories d).tables i = (s.sys.directories d).tables i ∧
    ∀ k, k / 1024 = i → s'.sys.pageOf d k = s.sys.pageOf d k :=
  ⟨(h.space.entries i (.inr le_rfl)).1, fun _ hk => h.space.later hown.own hle (by omega) (by omega)⟩

/-- The next table is still allocated. -/
theorem next_live (hown : OwnedSpace live d s.sys) (hi : i < 1024) (hle : 256 ≤ i)
    {live' : List Live} (hmem : ∀ l, l ∈ live' ↔ l ∈ live ∧ ∀ i' < i, 256 ≤ i' →
      Emptied isPagePartOfKernelStack s.sys d i' → l ≠ tableAt ((s.sys.directories d).tables i'))
    (hne : (s.sys.directories d).tables i ≠ 0) :
    tableAt ((s.sys.directories d).tables i) ∈ live' := by
  refine (hmem _).mpr ⟨hown.live i hi hle hne, fun i' hi' hle' _ heq => ?_⟩
  have hsame := hown.own i hi hle i' (by omega) hle' hne (congrArg Live.ptr heq).symm
  omega

theorem step {s₁ : Kernel} (h : OwnedCleaned live d i s s₁) (hown : OwnedSpace live d s.sys)
    (hi : i < 1024) (hle : 256 ≤ i) (hrun : cleanTable uninit d i s₁ = .ok s') :
    OwnedCleaned live d (i + 1) s s' := by
  obtain ⟨htable, hpages⟩ := h.next hown hi hle
  obtain ⟨bs₁, live₁, hlive₁, hmem₁⟩ := h.heap
  obtain ⟨hdone, bs', live', hlive', hmem'⟩ := cleanTable_done hlive₁
    (fun hne => htable ▸ next_live hown hi hle hmem₁ (htable ▸ hne)) hrun
  have hempty : Emptied isPagePartOfKernelStack s₁.sys d i ↔
      Emptied isPagePartOfKernelStack s.sys d i := Emptied.congr htable hpages
  refine ⟨h.space.step hown.own (h.ownTables hown.own) hi hle hdone.effects,
    ⟨bs', live', hlive', fun l => ?_⟩, fun i' hi' hle' => ?_⟩
  · rw [hmem', hmem₁, hempty, htable, and_assoc]
    refine and_congr_right fun _ => ⟨fun ⟨h₁, h₂⟩ i' hi' hle' => ?_, fun hall =>
      ⟨fun i' hi' => hall i' (by omega), hall i (by omega) hle⟩⟩
    rcases Nat.lt_succ_iff_lt_or_eq.mp hi' with hlt | rfl
    · exact h₁ i' hlt hle'
    · exact h₂
  · rcases Nat.lt_succ_iff_lt_or_eq.mp hi' with hlt | rfl
    · -- an earlier entry
      obtain ⟨h₁, h₂⟩ := hdone.effects.entries i' (by omega)
      have hold := h.entries i' hlt hle'
      exact ⟨fun he => (hold.released he).imp h₁.trans h₂.trans,
        fun hne => (hold.linked hne).imp h₁.trans h₂.trans⟩
    · have hupdated := hdone.entry
      refine ⟨fun he => hupdated.released (hempty.mpr he), fun hne => ?_⟩
      obtain ⟨h₁, h₂⟩ := hupdated.linked fun he => hne (hempty.mp he)
      exact ⟨h₁.trans htable, h₂.trans (h.space.entries i' (.inr le_rfl)).2⟩

end OwnedCleaned

/-- `paging_clean_all_non_kernel_pages_from_page_directory`, for a directory that owns its space. -/
theorem pagingClean_cleaned (h : LiveInv kernelHeapAddress bs live s.heap s.mem)
    (hown : OwnedSpace live d s.sys)
    (hrun : pagingCleanAllNonKernelPagesFromPageDirectory uninit s d = .ok s') :
    OwnedCleaned live d 1024 s s' := by
  refine forLoop_ok (P := fun n s' => OwnedCleaned live d (256 + n) s s') (.refl h) ?_ hrun
  intro i hi s₁ s₂ hc hstep
  exact hc.step hown (by omega) (by omega) hstep

/-- The tables that have no page of the stack are gone. -/
theorem pagingClean_noTables (h : KernelInv D T bs live s) (hd : d ∈ D)
    (hk : d ≠ s.sys.kernelPageDirectory)
    (hrun : pagingCleanAllNonKernelPagesFromPageDirectory uninit s d = .ok s') :
    ∀ i < 1024, 256 ≤ i → (∀ k, k / 1024 = i → ¬ isPagePartOfKernelStack k) →
      (s'.sys.directories d).tables i = 0 := by
  refine (forLoop_ok (P := fun n s' => DirectoryCleaned D T live d (256 + n) s s' ∧
    ∀ i < 256 + n, 256 ≤ i → (∀ k, k / 1024 = i → ¬ isPagePartOfKernelStack k) →
      (s'.sys.directories d).tables i = 0)
    ⟨.refl h, fun i hi hle => absurd hle (by omega)⟩ ?_ hrun).2
  rintro n hn s₁ s₂ ⟨hc, hgone⟩ hstep
  refine ⟨hc.step h hd hk (by omega) (by omega) hstep, fun i hi hle hstack => ?_⟩
  obtain ⟨T₁, bs₁, live₁, h₁, -⟩ := hc.inv
  have hdone := (cleanTable_ok h₁ hd (by rw [hc.kernel]; exact hk) (by omega) (by omega) hstep).done
  by_cases hin : i = 256 + n
  · subst hin
    by_cases h0 : (s₁.sys.directories d).tables (256 + n) = 0
    · exact (hdone.entry.linked fun he => he.1 h0).1.trans h0
    · exact (hdone.entry.released ⟨h0, fun k hk' hs => absurd hs (hstack k hk')⟩).1
  · rw [(hdone.effects.entries i hin).1]
    exact hgone i (by omega) hle hstack

end

end RawOS
