import RawOS.HeapLimit

/-!
# What the pages keep in every state

In every state after `paging_init` no two pages have one frame, the bitmap has the frame of every
page, and the two arrays of every directory agree.
-/

namespace RawOS

/-- The pages and directories of a state after `paging_init`. -/
inductive PagingReached (uninit : Paging → Mem → ℤ) : Paging → Set ℕ → Prop where
  | booted {p : Paging} {m : Mem} : Booted p m → PagingReached uninit p {p.kernelPageDirectory}
  | running {s : Kernel} {D : Set ℕ} {own : Set Live} :
    KernelRun uninit s D own → PagingReached uninit s.sys D

/-- Entry `j` of the table `t`, which a directory has, is a page with frame `f`. -/
structure Slot (D : Set ℕ) (p : Paging) (t j f : ℕ) : Prop where
  linked : ∃ d ∈ D, ∃ i < 1024, (p.directories d).tables i = t
  table : t ≠ 0
  index : j < 1024
  maps : Maps p t j f

section

variable {uninit : Paging → Mem → ℤ} {D T : Set ℕ} {p : Paging} {d t j i f : ℕ}

theorem PagingReached.inv (h : PagingReached uninit p D) : ∃ T, PagingInv D T p := by
  cases h with
  | booted hb => exact ⟨∅, hb.inv.inv⟩
  | running hr =>
    obtain ⟨T, _, _, hk, _⟩ := hr.inv
    exact ⟨T, hk.pages.inv⟩

theorem Slot.inUse (h : Slot D p t j f) (hinv : PagingInv D T p) : InUse T p t := by
  obtain ⟨⟨d, hd, i, hi, rfl⟩, hne, -, -⟩ := h
  exact hinv.inUse_linked hd hi hne

/-- No two pages in different entries have one frame, and the bitmap has the frame of every page as
far as it goes. -/
structure FramesApart (D : Set ℕ) (p : Paging) : Prop where
  distinct : ∀ t t' j j' f, Slot D p t j f → Slot D p t' j' f → t = t' ∧ j = j'
  used : ∀ t j f, Slot D p t j f → f < availableFramesNum → p.availableFrames.Has f

/-- In every state the frames of the pages are apart, and used. -/
theorem pagingReached_framesApart (h : PagingReached uninit p D) : FramesApart D p := by
  obtain ⟨T, hinv⟩ := h.inv
  refine ⟨fun t t' j j' f hs hs' => ?_, fun t j f hs hf => ?_⟩
  · exact hinv.frames.distinct t t' j j' f (hs.inUse hinv) (hs'.inUse hinv) hs.index hs'.index
      hs.maps hs'.maps
  · exact hinv.frames.used t j f (hs.inUse hinv) hs.index hs.maps hf

/-- In the run of `exists_limitedRun` the kernel and a process have pages above and below 1 GB. -/
theorem pagingReached_framesApart_grown : ∃ p D, PagingReached (fun _ _ => 0) p D ∧
    (∃ d ∈ D, d ≠ p.kernelPageDirectory ∧ ∃ e, p.pageOf d 0x40000 = some e) ∧ FramesApart D p := by
  obtain ⟨s, ptr, h, hne, hpage, -⟩ := exists_limitedRun
  have hr : PagingReached (fun _ _ => 0) s.sys _ := .running h.kernelRun
  exact ⟨s.sys, _, hr, ⟨_, .inl rfl, hne, hpage⟩, pagingReached_framesApart hr⟩

/-- The two arrays of a directory agree on entry `i`. -/
structure ViewsAgree (p : Paging) (directory : PageDirectory) (i : ℕ) : Prop where
  zero : directory.tables i = 0 ↔ directory.tablesX86Representation i = 0
  address : directory.tables i ≠ 0 → ∃ a,
    getPhysicalAddressOfVirtualAddress p p.kernelPageDirectory (directory.tables i) = .ok a ∧
    directory.tablesX86Representation i = a ||| 0x7

theorem or_seven_ne_zero (a : ℕ) : a ||| 0x7 ≠ 0 := by
  intro h
  have hbit : (a ||| 0x7).testBit 0 = true := by
    rw [Nat.testBit_or]
    exact Bool.or_true _
  rw [h] at hbit
  exact Bool.noConfusion hbit

theorem PagingInv.viewsAgree (h : PagingInv D T p) (hd : d ∈ D) (hi : i < 1024) :
    ViewsAgree p (p.directories d) i := by
  rcases h.synced d hd i hi with ⟨ht, hx⟩ | ⟨hne, f, hf, hx⟩
  · exact ⟨⟨fun _ => hx, fun _ => ht⟩, fun hne => absurd ht hne⟩
  · refine ⟨⟨fun h0 => absurd h0 hne, fun h0 => absurd (hx.symm.trans h0) (or_seven_ne_zero _)⟩,
      fun _ => ⟨u32 (f * 0x1000), ?_, hx⟩⟩
    -- a table is at the start of its page
    have hmod := (h.inUse_bounds (h.inUse_linked hd hi hne)).2.2.1
    rw [getPhysicalAddress_kernel hf, hmod, Nat.add_zero]

/-- In every state the two arrays of every directory agree. -/
theorem pagingReached_synced (h : PagingReached uninit p D) :
    ∀ d ∈ D, ∀ i < 1024, ViewsAgree p (p.directories d) i := by
  obtain ⟨T, hinv⟩ := h.inv
  exact fun d hd i hi => hinv.viewsAgree hd hi

theorem pagingReached_synced_grown : ∃ p D, PagingReached (fun _ _ => 0) p D ∧
    (∃ d ∈ D, d ≠ p.kernelPageDirectory ∧ ∃ e, p.pageOf d 0x40000 = some e) ∧
    ∀ d ∈ D, ∀ i < 1024, ViewsAgree p (p.directories d) i := by
  obtain ⟨s, ptr, h, hne, hpage, -⟩ := exists_limitedRun
  have hr : PagingReached (fun _ _ => 0) s.sys _ := .running h.kernelRun
  exact ⟨s.sys, _, hr, ⟨_, .inl rfl, hne, hpage⟩, pagingReached_synced hr⟩

end

end RawOS
