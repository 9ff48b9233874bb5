import RawOS.Alloc.HeapExpand
import RawOS.Cloning

/-!
# The states in which the heap grows

`kalloc_heap_alloc` adds a page and searches again. `Growths` is a condition on the states before
each page that a request adds; `KernelInv.alloc_le_iff` and `KernelInv.clone_le_iff` say what it
means for the end of the heap, for a request and for the clone of a directory.
-/

namespace RawOS

section Growth

variable {σ : Type} (env : PageEnv σ)

/-- In `kalloc_heap_alloc`, growing the heap less than `fuel` times, the branch that adds a page is
only taken in states that satisfy `Q`. -/
def Growths (Q : HeapState σ → Prop) : ℕ → HeapState σ → ℕ → ℕ → Prop
  | 0, _, _, _ => True
  | fuel + 1, s, size, alignment =>
    kallocAvlFindHole s.mem s.heap.avl size alignment = .ok 0 →
      Q s ∧ ∀ s', expandHeap env s = .ok s' → Growths Q fuel s' size alignment

variable {env} {base size alignment : ℕ} {E : Set ℕ} {I : ℕ → σ → Mem → Prop}
  {Q R : HeapState σ → Prop}

theorem Growths.imp₂ {S : HeapState σ → Prop} (h : ∀ s, Q s → R s → S s) :
    ∀ {fuel : ℕ} {s : HeapState σ}, Growths env Q fuel s size alignment →
      Growths env R fuel s size alignment → Growths env S fuel s size alignment
  | 0, _, _, _ => trivial
  | _ + 1, s, hQ, hR => fun hfind => by
    obtain ⟨hs, hnext⟩ := hQ hfind
    obtain ⟨hs', hnext'⟩ := hR hfind
    exact ⟨h s hs hs', fun s' hexpand => (hnext s' hexpand).imp₂ h (hnext' s' hexpand)⟩

/-- The states of a heap in order. -/
theorem growths_of_inv (hP : PagesOk env base ∅ I)
    (hQ : ∀ s : HeapState σ, I (s.heap.initialAddr + s.heap.size) s.sys s.mem → Q s) :
    ∀ {fuel : ℕ} {s : HeapState σ} {bs : List Block}, HeapInv base bs s.heap s.mem →
      I (s.heap.initialAddr + s.heap.size) s.sys s.mem → Growths env Q fuel s size alignment
  | 0, _, _, _, _ => trivial
  | _ + 1, s, _, h, hI => fun _ => by
    refine ⟨hQ s hI, fun s' hexpand => ?_⟩
    have he := (expandHeap_spec hP h hI fun x hx => absurd hx (Set.notMem_empty x)).of_ok hexpand
    exact growths_of_inv hP hQ he.inv he.pages

/-- A request that returns adds each of its pages below the end that it leaves. -/
theorem kallocHeapAllocLoop_growths (hP : PagesOk env base ∅ I) :
    ∀ {fuel : ℕ} {s s' : HeapState σ} {bs : List Block} {ptr : ℕ}, HeapInv base bs s.heap s.mem →
      I (s.heap.initialAddr + s.heap.size) s.sys s.mem →
      kallocHeapAllocLoop env fuel s size alignment = .ok (ptr, s') →
      s'.heap.initialAddr = s.heap.initialAddr ∧ s.heap.size ≤ s'.heap.size ∧
        Growths env (fun t => t.heap.initialAddr + t.heap.size + pageSize ≤
          s'.heap.initialAddr + s'.heap.size) fuel s size alignment
  | 0, s, s', bs, ptr, _, _, hrun => nomatch hrun
  | fuel + 1, s, s', bs, ptr, h, hI, hrun => by
    unfold kallocHeapAllocLoop at hrun
    obtain ⟨userSpace, hfind, hrun⟩ := bind_eq_ok.mp hrun
    split_ifs at hrun with hzero
    · obtain ⟨hsize, haddr⟩ := allocHole_kept hrun
      refine ⟨haddr, hsize.ge, fun hnone => ?_⟩
      rw [hnone] at hfind
      exact absurd (Except.ok.inj hfind).symm hzero
    · obtain ⟨s₁, hexpand, hrun⟩ := bind_eq_ok.mp hrun
      have he := (expandHeap_spec hP h hI fun x hx => absurd hx (Set.notMem_empty x)).of_ok hexpand
      obtain ⟨haddr', hle, hnext⟩ := kallocHeapAllocLoop_growths hP he.inv he.pages hrun
      have haddr := he.inv.shape.initialAddr.trans h.shape.initialAddr.symm
      have hsize := he.size
      refine ⟨haddr'.trans haddr, by omega, fun _ => ⟨?_, fun s₂ hexpand₂ => ?_⟩⟩
      · unfold pageSize
        omega
      · rw [hexpand] at hexpand₂
        cases hexpand₂
        exact hnext

/-- Pages that are only added where they end at or below `e`. -/
theorem kallocHeapAllocLoop_bound (hP : PagesOk env base ∅ I) {e : ℕ} :
    ∀ {fuel : ℕ} {s s' : HeapState σ} {bs : List Block} {ptr : ℕ}, HeapInv base bs s.heap s.mem →
      I (s.heap.initialAddr + s.heap.size) s.sys s.mem →
      Growths env (fun t => t.heap.initialAddr + t.heap.size + pageSize ≤ e) fuel s size alignment →
      kallocHeapAllocLoop env fuel s size alignment = .ok (ptr, s') →
      s'.heap.initialAddr + s'.heap.size ≤ max (s.heap.initialAddr + s.heap.size) e
  | 0, s, s', bs, ptr, _, _, _, hrun => nomatch hrun
  | fuel + 1, s, s', bs, ptr, h, hI, hg, hrun => by
    unfold kallocHeapAllocLoop at hrun
    obtain ⟨userSpace, hfind, hrun⟩ := bind_eq_ok.mp hrun
    split_ifs at hrun with hzero
    · obtain ⟨hsize, haddr⟩ := allocHole_kept hrun
      rw [haddr, hsize]
      exact le_max_left _ _
    · obtain ⟨s₁, hexpand, hrun⟩ := bind_eq_ok.mp hrun
      rw [not_not.mp hzero] at hfind
      obtain ⟨hle, hnext⟩ := hg hfind
      have he := (expandHeap_spec hP h hI fun x hx => absurd hx (Set.notMem_empty x)).of_ok hexpand
      have hend := kallocHeapAllocLoop_bound hP he.inv he.pages (hnext s₁ hexpand) hrun
      have haddr := he.inv.shape.initialAddr.trans h.shape.initialAddr.symm
      have hsize := he.size
      unfold pageSize at hle
      omega

end Growth

section Requests

variable (uninit : Paging → Mem → ℤ) (Q : Kernel → Prop)

/-- A request grows the heap in states that satisfy `Q` only. -/
def AllocGrowths (s : Kernel) (size alignment : ℕ) : Prop :=
  Growths (pagingEnv uninit) Q heapFuel s size alignment

/-- `paging_create_process_page_with_any_frame`, for a table that is missing. -/
def CreateGrowths (s : Kernel) (d n : ℕ) : Prop :=
  (s.sys.directories d).tables (n / 1024) = 0 → AllocGrowths uninit Q s sizeofPageTable 0x1000

/-- `paging_clone_page_directory_for_new_process`: the directory, and a table in each round of its
loop that copies one. -/
structure CloneGrowths (s : Kernel) (source : ℕ) : Prop where
  directory : AllocGrowths uninit Q s sizeofPageDirectory 0x1000
  table : ∀ c s₁ i s₂, kallocAllocAligned uninit s sizeofPageDirectory 0x1000 = .ok (c, s₁) →
    i < 1024 - 1024 / 4 →
    forLoop (fun i => cloneTable uninit source c (1024 / 4 + i)) i
      { s₁ with sys := s₁.sys.zeroDirectory c } = .ok s₂ →
    (s₂.sys.directories source).tables (1024 / 4 + i) ≠ 0 →
    AllocGrowths uninit Q s₂ sizeofPageTable 0x1000

end Requests

section

variable {uninit : Paging → Mem → ℤ} {D T : Set ℕ} {bs : List Block} {live : List Live}
  {s s' : Kernel} {Q : Kernel → Prop} {source c e i size alignment ptr : ℕ}

/-- The states in which a request grows the heap. -/
theorem KernelInv.allocGrowths (h : KernelInv D T bs live s)
    (hQ : ∀ s', HeapPages D T (heapEnd s) s.sys (heapEnd s') s'.sys s'.mem → Q s') :
    AllocGrowths uninit Q s size alignment :=
  growths_of_inv (pagingEnv_pagesOk uninit D T (heapEnd s) s.sys) hQ h.heap.heap
    (h.pages.heapPages _)

theorem KernelInv.alloc_growths (h : KernelInv D T bs live s)
    (hrun : kallocAllocAligned uninit s size alignment = .ok (ptr, s')) :
    heapEnd s ≤ heapEnd s' ∧
      AllocGrowths uninit (fun t => heapEnd t + pageSize ≤ heapEnd s') s size alignment := by
  obtain ⟨haddr, hle, hg⟩ := kallocHeapAllocLoop_growths
    (pagingEnv_pagesOk uninit D T (heapEnd s) s.sys) h.heap.heap (h.pages.heapPages _) hrun
  refine ⟨?_, hg⟩
  unfold heapEnd
  omega

/-- The heap ends at or below `e`, or where it did, exactly if no page is added above `e`. -/
theorem KernelInv.alloc_le_iff (h : KernelInv D T bs live s)
    (hrun : kallocAllocAligned uninit s size alignment = .ok (ptr, s')) :
    heapEnd s' ≤ max (heapEnd s) e ↔
      AllocGrowths uninit (fun t => heapEnd t + pageSize ≤ e) s size alignment := by
  constructor
  · intro hend
    obtain ⟨-, hg⟩ := h.alloc_growths hrun
    refine hg.imp₂ (fun t ht hle => ?_) (h.allocGrowths (Q := fun t => heapEnd s ≤ heapEnd t)
      fun _ ht => ht.le)
    unfold pageSize at *
    have ht' : heapEnd t + 4096 ≤ heapEnd s' := ht
    omega
  · intro hg
    exact kallocHeapAllocLoop_bound (pagingEnv_pagesOk uninit D T (heapEnd s) s.sys) h.heap.heap
      (h.pages.heapPages _) hg hrun

/-- The request of a round of the loop that clones tables. -/
theorem cloneTable_request (hrun : cloneTable uninit source c i s = .ok s') :
    (s.sys.directories source).tables i = 0 ∧ s' = s ∨
    (s.sys.directories source).tables i ≠ 0 ∧ ∃ t s₁,
      kallocAllocAligned uninit s sizeofPageTable 0x1000 = .ok (t, s₁) ∧ heapEnd s' = heapEnd s₁ := by
  unfold cloneTable at hrun
  split_ifs at hrun with htable
  · obtain ⟨⟨t, s₁⟩, halloc, hrun⟩ := bind_eq_ok.mp hrun
    obtain ⟨p, -, hrun⟩ := bind_eq_ok.mp hrun
    obtain ⟨address, -, hrun⟩ := bind_eq_ok.mp hrun
    cases hrun
    exact .inr ⟨htable, t, s₁, halloc, rfl⟩
  · cases hrun
    exact .inl ⟨not_not.mp htable, rfl⟩

/-- The first `n` rounds, from `s`: the heap grows from one request to the next. -/
theorem cloneLoop_requests : ∀ {n : ℕ} {s' : Kernel},
    (∀ i < n, ∀ s₂, forLoop (fun i => cloneTable uninit source c (1024 / 4 + i)) i s = .ok s₂ →
      ∃ D' T' bs' live', KernelInv D' T' bs' live' s₂) →
    forLoop (fun i => cloneTable uninit source c (1024 / 4 + i)) n s = .ok s' →
    heapEnd s ≤ heapEnd s' ∧ ∀ i < n, ∀ s₂,
      forLoop (fun i => cloneTable uninit source c (1024 / 4 + i)) i s = .ok s₂ →
      (s₂.sys.directories source).tables (1024 / 4 + i) ≠ 0 → ∃ t s₃,
        kallocAllocAligned uninit s₂ sizeofPageTable 0x1000 = .ok (t, s₃) ∧
        heapEnd s ≤ heapEnd s₂ ∧ heapEnd s₃ ≤ heapEnd s'
  | 0, s', _, hrun => by
    cases hrun
    exact ⟨le_rfl, fun i hi => absurd hi (Nat.not_lt_zero i)⟩
  | n + 1, s', hinv, hrun => by
    unfold forLoop at hrun
    obtain ⟨s₁, hfirst, hstep⟩ := bind_eq_ok.mp hrun
    obtain ⟨hle, hold⟩ := cloneLoop_requests (fun i hi => hinv i (Nat.lt_succ_of_lt hi)) hfirst
    obtain ⟨D', T', bs', live', hinv₁⟩ := hinv n (Nat.lt_succ_self n) s₁ hfirst
    have hgrown : heapEnd s₁ ≤ heapEnd s' := by
      rcases cloneTable_request hstep with ⟨-, rfl⟩ | ⟨-, t, s₂, halloc, hend⟩
      · exact le_rfl
      · rw [hend]
        exact (hinv₁.alloc_growths halloc).1
    refine ⟨hle.trans hgrown, fun i hi s₂ hfirst₂ hne => ?_⟩
    rcases Nat.lt_or_eq_of_le (Nat.le_of_lt_succ hi) with hlt | rfl
    · obtain ⟨t, s₃, halloc, hle₂, hle₃⟩ := hold i hlt s₂ hfirst₂ hne
      exact ⟨t, s₃, halloc, hle₂, hle₃.trans hgrown⟩
    · rw [hfirst] at hfirst₂
      cases hfirst₂
      rcases cloneTable_request hstep with ⟨hzero, -⟩ | ⟨-, t, s₃, halloc, hend⟩
      · exact absurd hzero hne
      · exact ⟨t, s₃, halloc, hle, hend.ge⟩

/-- The same for the requests of a clone. -/
theorem KernelInv.clone_le_iff (h : KernelInv D T bs live s) (hsource : source ∈ D)
    (hrun : pagingClonePageDirectoryForNewProcess uninit s source = .ok (c, s')) :
    heapEnd s' ≤ max (heapEnd s) e ↔
      CloneGrowths uninit (fun t => heapEnd t + pageSize ≤ e) s source := by
  unfold pagingClonePageDirectoryForNewProcess at hrun
  obtain ⟨⟨c', s₀⟩, halloc, hrun⟩ := bind_eq_ok.mp hrun
  obtain ⟨s₁, hloop, hrun⟩ := bind_eq_ok.mp hrun
  obtain ⟨p, -, hrun⟩ := bind_eq_ok.mp hrun
  cases hrun
  have hle₀ := (h.alloc_growths halloc).1
  have hround : ∀ i < 1024 - 1024 / 4, ∀ s₂,
      forLoop (fun i => cloneTable uninit source c (1024 / 4 + i)) i
        { s₀ with sys := s₀.sys.zeroDirectory c } = .ok s₂ →
      ∃ D' T' bs' live', KernelInv D' T' bs' live' s₂ := fun i hi s₂ hfirst => by
    obtain ⟨-, T', live', hd⟩ := cloneLoop_ok h hsource halloc hi.le hfirst
    obtain ⟨bs', hinv⟩ := hd.inv
    exact ⟨_, T', bs', live', hinv⟩
  constructor
  · intro hend
    have hend₁ : heapEnd s₁ ≤ max (heapEnd s) e := hend
    obtain ⟨hle₁, htables⟩ := cloneLoop_requests hround hloop
    refine ⟨(h.alloc_le_iff halloc).mp (hle₁.trans hend₁), fun c₂ s₂ i s₃ halloc₂ hi hfirst hne => ?_⟩
    rw [halloc] at halloc₂
    cases halloc₂
    obtain ⟨t, s₄, halloc₄, hle₃, hle₄⟩ := htables i hi s₃ hfirst hne
    obtain ⟨D', T', bs', live', hinv⟩ := hround i hi s₃ hfirst
    exact (hinv.alloc_le_iff halloc₄).mp
      (hle₄.trans (hend₁.trans (max_le_max_right _ (hle₀.trans hle₃))))
  · intro hg
    refine (forLoop_ok (P := fun n q => heapEnd q ≤ max (heapEnd s) e ∧
      forLoop (fun i => cloneTable uninit source c (1024 / 4 + i)) n
        { s₀ with sys := s₀.sys.zeroDirectory c } = .ok q) ?_ ?_ hloop).1
    · exact ⟨(h.alloc_le_iff halloc).mpr hg.directory, rfl⟩
    · rintro n hn q q' ⟨hle, hfirst⟩ hstep
      obtain ⟨D', T', bs', live', hinv⟩ := hround n hn q hfirst
      refine ⟨?_, by unfold forLoop; rw [hfirst, ok_bind, hstep]⟩
      rcases cloneTable_request hstep with ⟨-, rfl⟩ | ⟨hne, t, s₂, halloc₂, hend₂⟩
      · exact hle
      · rw [hend₂]
        refine ((hinv.alloc_le_iff halloc₂).mpr (hg.table c s₀ n q halloc hn hfirst hne)).trans ?_
        exact max_le hle (le_max_right _ _)

end

end RawOS
