import RawOS.ProcessStart

/-!
# The pages that a cleaned directory keeps

`rawx_load` makes 2048 pages for a kernel stack.
`is_page_part_of_kernel_stack_in_process_address_space` holds of these and of the page below them.
`pagingClean_stack_iff` says that this page makes the difference: a directory without it is left
with the pages of `rawx_load`, and one that has it keeps it.
-/

namespace RawOS

/-- The pages of the loop that creates a kernel stack in `rawx_load`. -/
def KernelStackPage (n : ℕ) : Prop :=
  ∃ i < kernelStackReservedPagesInProcessAddressSpace,
    n = u32Sub (kernelStackAddressInProcessAddressSpace / 0x1000) i

/-- The directory `d` has the pages above 1 GB that are to be kept, and no others; the frames and
tables of the others are given back, and nothing else is touched. -/
structure CleanedTo (keep : ℕ → Prop) (live : List Live) (d : ℕ) (s s' : Kernel) : Prop where
  kept : ∀ k < 1024 * 1024, 256 * 1024 ≤ k → keep k → s'.sys.pageOf d k = s.sys.pageOf d k
  removed : ∀ k < 1024 * 1024, 256 * 1024 ≤ k → ¬ keep k → s'.sys.pageOf d k = none
  bitmap : ∀ f, s'.sys.availableFrames.Has f ↔ s.sys.availableFrames.Has f ∧
    ¬ ∃ k < 1024 * 1024, 256 * 1024 ≤ k ∧ ¬ keep k ∧
      ∃ e, s.sys.pageOf d k = some e ∧ e.frameAddress20Bits = f
  heap : TablesReleased keep live d 1024 s s'
  entries : ∀ i < 1024, 256 ≤ i → EntryUpdated keep d i s.sys s'.sys
  low : ∀ i < 256, (s'.sys.directories d).tables i = (s.sys.directories d).tables i ∧
    (s'.sys.directories d).tablesX86Representation i =
      (s.sys.directories d).tablesX86Representation i
  directories : ∀ d', d' ≠ d → s'.sys.directories d' = s.sys.directories d'
  tables : ∀ t, (∀ i < 1024, 256 ≤ i → (s.sys.directories d).tables i ≠ t) →
    s'.sys.tables t = s.sys.tables t

/-! ## The two ranges -/

section Range

variable {n : ℕ}

theorem kernelStackPage_iff : KernelStackPage n ↔ InKernelStack n := by
  unfold KernelStackPage InKernelStack kernelStackReservedPagesInProcessAddressSpace
    kernelStackAddressInProcessAddressSpace kernelStackLastPage
  constructor
  · rintro ⟨i, hi, rfl⟩
    rw [u32Sub_of_le (by omega) (by omega)]
    omega
  · rintro ⟨hlo, hhi⟩
    refine ⟨0xF0000000 / 0x1000 - n, by omega, ?_⟩
    rw [u32Sub_of_le (by omega) (by omega)]
    omega

/-- One page more. -/
theorem isPagePartOfKernelStack_iff :
    isPagePartOfKernelStack n ↔ KernelStackPage n ∨ n = kernelStackLastPage - 2048 := by
  rw [kernelStackPage_iff]
  unfold isPagePartOfKernelStack InKernelStack kernelStackLastPage
  omega

theorem not_kernelStackPage_below : ¬ KernelStackPage (kernelStackLastPage - 2048) := by
  rw [kernelStackPage_iff]
  intro h
  obtain ⟨hlo, -⟩ := h.bounds
  exact absurd hlo (by decide)

end Range

section

variable {uninit : Paging → Mem → ℤ} {keep keep' : ℕ → Prop} {live : List Live} {d i : ℕ}
  {s s' : Kernel} {p p' : Paging}

theorem OwnedCleaned.cleanedTo (h : OwnedCleaned live d 1024 s s') :
    CleanedTo isPagePartOfKernelStack live d s s' where
  kept := fun k hk hle hkeep => by rw [h.space.pages k hk hle, if_pos hkeep]
  removed := fun k hk hle hkeep => by rw [h.space.pages k hk hle, if_neg hkeep]
  bitmap := fun f => by
    rw [h.space.has]
    refine and_congr_right fun _ => ⟨fun hall hex => ?_, fun hno k hk hle e he hf => ?_⟩
    · obtain ⟨k, hk, hle, hkeep, e, he, hf⟩ := hex
      exact hkeep (hall k hk hle e he hf)
    · by_contra hkeep
      exact hno ⟨k, hk, hle, hkeep, e, he, hf⟩
  heap := h.heap
  entries := h.entries
  low := fun i hi => h.space.entries i (.inl hi)
  directories := h.space.directories
  tables := h.space.tables

/-- Two ranges with the same present pages. -/
theorem emptied_congr_keep (hi : i < 1024) (hle : 256 ≤ i)
    (hsame : ∀ k < 1024 * 1024, 256 * 1024 ≤ k → ∀ e, p.pageOf d k = some e → (keep k ↔ keep' k)) :
    Emptied keep p d i ↔ Emptied keep' p d i := by
  refine and_congr_right fun _ => forall_congr' fun k => forall_congr' fun hk => ?_
  cases he : p.pageOf d k with
  | none => exact ⟨fun _ _ => rfl, fun _ _ => rfl⟩
  | some e =>
    have hiff := hsame k (by omega) (by omega) e he
    exact ⟨fun hno hkeep => hno (hiff.mpr hkeep), fun hno hkeep => hno (hiff.mp hkeep)⟩

theorem CleanedTo.congr (h : CleanedTo keep live d s s')
    (hsame : ∀ k < 1024 * 1024, 256 * 1024 ≤ k → ∀ e, s.sys.pageOf d k = some e →
      (keep k ↔ keep' k)) : CleanedTo keep' live d s s' where
  kept := fun k hk hle hkeep => by
    cases he : s.sys.pageOf d k with
    | none =>
      by_cases hold : keep k
      · rw [h.kept k hk hle hold, he]
      · exact h.removed k hk hle hold
    | some e => rw [h.kept k hk hle ((hsame k hk hle e he).mpr hkeep), he]
  removed := fun k hk hle hkeep => by
    by_cases hold : keep k
    · rw [h.kept k hk hle hold]
      cases he : s.sys.pageOf d k with
      | none => rfl
      | some e => exact absurd ((hsame k hk hle e he).mp hold) hkeep
    · exact h.removed k hk hle hold
  bitmap := fun f => by
    rw [h.bitmap]
    refine and_congr_right fun _ => not_congr (exists_congr fun k => and_congr_right fun hk =>
      and_congr_right fun hle => ?_)
    constructor
    · rintro ⟨hkeep, e, he, hf⟩
      exact ⟨fun hk' => hkeep ((hsame k hk hle e he).mpr hk'), e, he, hf⟩
    · rintro ⟨hkeep, e, he, hf⟩
      exact ⟨fun hk' => hkeep ((hsame k hk hle e he).mp hk'), e, he, hf⟩
  heap := by
    obtain ⟨bs, live', hlive, hmem⟩ := h.heap
    refine ⟨bs, live', hlive, fun l => ?_⟩
    rw [hmem]
    refine and_congr_right fun _ => forall_congr' fun i => forall_congr' fun hi =>
      forall_congr' fun hle => ?_
    rw [emptied_congr_keep hi hle hsame]
  entries := fun i hi hle => by
    obtain ⟨hreleased, hlinked⟩ := h.entries i hi hle
    have hiff := emptied_congr_keep hi hle hsame
    exact ⟨fun he => hreleased (hiff.mpr he), fun hne => hlinked fun he => hne (hiff.mp he)⟩
  low := h.low
  directories := h.directories
  tables := h.tables

/-! ## The kernel stack -/

/-- The directory is left with the pages of `rawx_load`, exactly if it has no page below them. -/
theorem pagingClean_stack_iff {bs : List Block}
    (h : LiveInv kernelHeapAddress bs live s.heap s.mem) (hown : OwnedSpace live d s.sys) :
    (∀ s', pagingCleanAllNonKernelPagesFromPageDirectory uninit s d = .ok s' →
      (CleanedTo KernelStackPage live d s s' ↔
        s.sys.pageOf d (kernelStackLastPage - 2048) = none)) ∧
    ∀ n, HolesLe n s → n + 768 ≤ heapNodes →
      ∃ s', pagingCleanAllNonKernelPagesFromPageDirectory uninit s d = .ok s' := by
  constructor
  · intro s' hrun
    have hcleaned := (pagingClean_cleaned h hown hrun).cleanedTo
    constructor
    · intro hstack
      -- the code keeps the page, and the range of `rawx_load` does not have it
      rw [← hcleaned.kept _ (by decide) (by decide) (isPagePartOfKernelStack_iff.mpr (.inr rfl))]
      exact hstack.removed _ (by decide) (by decide) not_kernelStackPage_below
    · intro hnone
      refine hcleaned.congr fun k _ _ e he => ?_
      rw [isPagePartOfKernelStack_iff]
      refine ⟨fun hor => hor.resolve_right ?_, .inl⟩
      rintro rfl
      rw [hnone] at he
      cases he
  · intro n hn hroom
    obtain ⟨s', hrun, -⟩ := pagingClean_returns uninit h hown hn hroom
    exact ⟨s', hrun⟩

/-- The directory of the child of the first process. -/
theorem pagingClean_stack_child : ∃ (s s' : Kernel) (live : List Live) (d : ℕ),
    pagingCleanAllNonKernelPagesFromPageDirectory bareEnv.uninit s d = .ok s' ∧
    (CleanedTo KernelStackPage live d s s' ↔
      s.sys.pageOf d (kernelStackLastPage - 2048) = none) := by
  obtain ⟨sys, own, src, a, pid, d, a', pid', c, D, all, brk, -, -, -, -, hring, hcleanable,
    hspace⟩ := exists_child bareEnv bareKeyboard
  obtain ⟨T, bs, live, hinv, -⟩ := hspace.run.inv
  have hc : c ∈ D := hspace.run.processes ⟨a', pid', some c⟩ (by rw [hring]; simp) c rfl
  have hown := hinv.ownedSpace hc hcleanable
  obtain ⟨s', hrun⟩ : ∃ s', pagingCleanAllNonKernelPagesFromPageDirectory bareEnv.uninit _ c = .ok s' :=
    (pagingClean_stack_iff hinv.heap hown).2 1 hspace.ready.bump.holesLe (by decide)
  exact ⟨_, s', live, c, hrun, (pagingClean_stack_iff hinv.heap hown).1 s' hrun⟩

/-- A directory that has the page below the stack as well. -/
theorem exists_pageBelowStack : ∃ (s : Kernel) (D : Set ℕ) (all : Set Live) (c : ℕ), c ∈ D ∧
    KernelRun bareEnv.uninit s D all ∧ Cleanable s.sys c ∧ HolesLe 1 s ∧
    s.sys.pageOf c (kernelStackLastPage - 2048) ≠ none := by
  obtain ⟨sys, own, src, a, pid, d, a', pid', c, D, all, brk, hbrk, hrun, -, -, hring, hcleanable,
    hspace⟩ := exists_child bareEnv bareKeyboard
  obtain ⟨T, bs, live, hinv, -⟩ := hspace.run.inv
  have hcD : c ∈ D := hspace.run.processes ⟨a', pid', some c⟩ (by rw [hring]; simp) c rfl
  have hmem : (⟨a', pid', some c⟩ : Process) ∈ sys.kernel.sys.processes := by rw [hring]; simp
  by_cases hnone : sys.kernel.sys.pageOf c (kernelStackLastPage - 2048) = none
  · obtain ⟨n, hn⟩ : ∃ n, n = kernelStackLastPage - 2048 := ⟨_, rfl⟩
    have hval : n = 0xEF800 := hn
    rw [← hn] at hnone ⊢
    obtain ⟨D', all', -, -, -, hlive⟩ := hrun.inv
    have hk : c ≠ sys.kernel.sys.kernelPageDirectory := by
      rintro rfl
      exact hlive.own _ hmem rfl
    -- the stack has the table already
    obtain ⟨c', hc', hstack⟩ := hlive.stack _ hmem
    obtain rfl := Option.some.inj hc'
    obtain ⟨e, he, -⟩ := hstack 0xEF801 ⟨by decide, by decide⟩
    have htable : (sys.kernel.sys.directories c).tables (n / 1024) ≠ 0 := by
      rw [show n / 1024 = 0xEF801 / 1024 by omega]
      exact (Paging.pageOf_eq_some.mp he).1
    have hT := hinv.pages.inv.mem_of_heap hcD (by omega) htable
      (hcleanable.tables _ (by omega) (by omega) htable)
    obtain ⟨f, s', hcreate, brk', -, hready⟩ := pagingCreateProcessPage_go (u := 0) hinv hspace.ready
      hcD hk hnone (.inr hT) (by decide) fun h0 => absurd h0 htable
    have hrun' := hspace.run.processPage hcD hk (by omega) hcreate
    obtain ⟨s₁, T', bs', live', bitmap, -, hm, -, ⟨rfl, -⟩ | ⟨h0, -⟩⟩ :=
      pagingCreateProcessPage_ok hinv hcD hk hcreate
    · obtain ⟨e', he', hentry⟩ := hm.pageOf
      refine ⟨s', D, all, c, hcD, hrun', ⟨fun k hk' hle e hek => ?_, ?_⟩, hready.bump.holesLe,
        fun h0 => ?_⟩
      · by_cases hkn : k = n
        · rw [hkn, he'] at hek
          cases hek
          exact hentry.2
        · rw [hm.others hinv.pages.inv hcD (by omega) (by omega) hk' hkn] at hek
          exact hcleanable.frames k hk' hle e hek
      · rw [show s'.sys.directories = sys.kernel.sys.directories by rw [hm.result]; rfl]
        exact hcleanable.tables
      · rw [he'] at h0
        cases h0
    · exact absurd h0 htable
  · exact ⟨_, D, all, c, hcD, hspace.run, hcleanable, hspace.ready.bump.holesLe, hnone⟩

/-- The cleaned directory keeps a page that is none of the stack's. -/
theorem not_cleanedTo_stack : ∃ (s s' : Kernel) (live : List Live) (bs : List Block) (d : ℕ),
    LiveInv kernelHeapAddress bs live s.heap s.mem ∧ OwnedSpace live d s.sys ∧
    pagingCleanAllNonKernelPagesFromPageDirectory bareEnv.uninit s d = .ok s' ∧
    ¬ CleanedTo KernelStackPage live d s s' ∧
    s'.sys.pageOf d (kernelStackLastPage - 2048) ≠ none := by
  obtain ⟨s, D, all, c, hc, hrun, hcleanable, hn, hpage⟩ := exists_pageBelowStack
  obtain ⟨T, bs, live, hinv, -⟩ := hrun.inv
  have hown := hinv.ownedSpace hc hcleanable
  obtain ⟨s', hclean, -⟩ := pagingClean_returns bareEnv.uninit hinv.heap hown hn (by decide)
  have hkept := (pagingClean_cleaned hinv.heap hown hclean).cleanedTo.kept _ (by decide) (by decide)
    (isPagePartOfKernelStack_iff.mpr (.inr rfl))
  refine ⟨s, s', live, bs, c, hinv.heap, hown, hclean, fun hstack => hpage ?_, hkept ▸ hpage⟩
  rw [← hkept]
  exact hstack.removed _ (by decide) (by decide) not_kernelStackPage_below

end

end RawOS
