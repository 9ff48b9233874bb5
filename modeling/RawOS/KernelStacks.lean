import RawOS.ClonedSpace

/-!
# The kernel stacks of the processes

The pages of `KERNEL_STACK_ADDRESS_IN_PROCESS_ADDRESS_SPACE` lie in tables that the heap of the
kernel cannot come to, so nothing changes them once they are there (`StacksKept`). A clone has
copies of them, all in user mode.
-/

namespace RawOS

/-- The pages that `rawx_load` creates for a kernel stack. -/
def InKernelStack (n : ℕ) : Prop := kernelStackLastPage - 2047 ≤ n ∧ n ≤ kernelStackLastPage

theorem InKernelStack.bounds {n : ℕ} (h : InKernelStack n) : 0xEF801 ≤ n ∧ n ≤ 0xF0000 := h

theorem InKernelStack.part {n : ℕ} (h : InKernelStack n) : isPagePartOfKernelStack n := by
  obtain ⟨h₁, h₂⟩ := h.bounds
  unfold isPagePartOfKernelStack kernelStackLastPage
  omega

/-- A page with this `user_mode`, and with a frame of the bitmap. -/
def StackEntry (userMode : Bool) (e : PageEntry) : Prop :=
  e.userMode = userMode ∧ e.frameAddress20Bits < availableFramesNum

/-- The process with the directory `d` has a kernel stack, all its pages with this `user_mode`. -/
def HasKernelStack (userMode : Bool) (p : Paging) (d : ℕ) : Prop :=
  ∀ n, InKernelStack n → ∃ e, p.pageOf d n = some e ∧ StackEntry userMode e

/-- The kernel has no table above its stack. -/
def NoTablesAbove (p : Paging) : Prop := ∀ i < 1024, 769 ≤ i → p.kernel.tables i = 0

/-- The kernel stacks of the directories `D` stay, and the kernel gets no table there. -/
structure StacksKept (D : Set ℕ) (p p' : Paging) : Prop where
  kernel : p'.kernelPageDirectory = p.kernelPageDirectory
  tables : ∀ i < 1024, 769 ≤ i → p'.kernel.tables i = p.kernel.tables i
  pages : ∀ d ∈ D, ∀ n, InKernelStack n → ∀ e, p.pageOf d n = some e → p'.pageOf d n = some e

section

variable {uninit : Paging → Mem → ℤ} {D D' T T' : Set ℕ} {bs : List Block} {live live' : List Live}
  {s s' : Kernel} {p p' p'' : Paging} {source c d n f u size alignment ptr : ℕ} {b : Bool}

namespace StacksKept

theorem refl (D : Set ℕ) (p : Paging) : StacksKept D p p :=
    ⟨rfl, fun _ _ _ => rfl, fun _ _ _ _ _ h => h⟩

theorem trans (h : StacksKept D p p') (h' : StacksKept D' p' p'') (hD : D ⊆ D') :
    StacksKept D p p'' where
  kernel := h'.kernel.trans h.kernel
  tables := fun i hi hle => (h'.tables i hi hle).trans (h.tables i hi hle)
  pages := fun d hd n hn e he => h'.pages d (hD hd) n hn e (h.pages d hd n hn e he)

/-- The frames, the bitmap and the ring do not matter. -/
theorem of_eq (hk : p'.kernelPageDirectory = p.kernelPageDirectory)
    (hd : p'.directories = p.directories) (ht : p'.tables = p.tables) : StacksKept D p p' := by
  refine ⟨hk, fun i _ _ => ?_, fun d _ n _ e he => ?_⟩
  · unfold Paging.kernel
    rw [hd, hk]
  · rw [← he]
    exact Paging.pageOf_congr (by rw [hd]) fun _ => by rw [ht]

theorem has (h : StacksKept D p p') (hd : d ∈ D) (hs : HasKernelStack b p d) :
    HasKernelStack b p' d := by
  intro n hn
  obtain ⟨e, he, hb⟩ := hs n hn
  exact ⟨e, h.pages d hd n hn e he, hb⟩

theorem noTables (h : StacksKept D p p') (hp : NoTablesAbove p) : NoTablesAbove p' :=
  fun i hi hle => (h.tables i hi hle).trans (hp i hi hle)

end StacksKept

/-- Tables from 3 GB on are above the heap. -/
theorem AboveKept.stacksKept (h : AboveKept 768 D T p p') (hinv : PagingInv D T p)
    (hk : p'.kernelPageDirectory = p.kernelPageDirectory) : StacksKept D p p' := by
  refine ⟨hk, fun i hi hle => ?_, fun d hd n hn e he => ?_⟩
  · unfold Paging.kernel
    rw [hk]
    exact (h.entries _ hinv.kernel i hi (by omega)).1
  · obtain ⟨h₁, h₂⟩ := hn.bounds
    rw [← he]
    exact h.pageOf hinv hd (by omega) (by omega)

/-- The heap ends below 3 GB. -/
theorem KernelInv.heapEnd_le (h : KernelInv D T bs live s) : heapEnd s ≤ 768 * 0x400000 :=
  le_trans h.pages.le (by decide)

theorem KernelAlloc.stacksKept (ha : KernelAlloc D T live size alignment s ptr s')
    (h : KernelInv D T bs live s) : StacksKept D s.sys s'.sys := by
  obtain ⟨bs', h'⟩ := ha.inv
  exact (ha.aboveKept h.pages.inv (by decide) (le_max_of_le_right h'.heapEnd_le)).stacksKept
    h.pages.inv ha.grown.kernel

/-! ## Cloning -/

theorem DirectoryCloned.stacksKept (hc : DirectoryCloned D T live source s c T' live' s')
    (h : KernelInv D T bs live s) : StacksKept D s.sys s'.sys := by
  obtain ⟨bs', h'⟩ := hc.inv
  obtain ⟨habove, -⟩ := hc.kept 768 (by decide) (le_max_of_le_right h'.heapEnd_le)
  exact habove.stacksKept h.pages.inv hc.kernel

/-- The kernel stack of a clone is in user mode. -/
theorem DirectoryCloned.hasKernelStack (hc : DirectoryCloned D T live source s c T' live' s')
    (hs : HasKernelStack b s.sys source) : HasKernelStack true s'.sys c := by
  obtain ⟨bs', h'⟩ := hc.inv
  obtain ⟨-, hcopied⟩ := hc.kept 768 (by decide) (le_max_of_le_right h'.heapEnd_le)
  intro n hn
  obtain ⟨h₁, h₂⟩ := hn.bounds
  obtain ⟨e, he, -⟩ := hs n hn
  have hentry := hcopied (n / 1024) (by omega) (by omega)
  obtain ⟨hT, -⟩ := hentry.fresh (Paging.pageOf_eq_some.mp he).1
  obtain ⟨e', he', hcopy⟩ := hentry.pageOf he (h'.pages.inv.inUse_bounds (.inl hT)).1
  refine ⟨e', he', ?_, hcopy.lt⟩
  rw [hcopy.eq]

/-! ## Pages -/

/-- An entry that was not present is set. -/
theorem PageMapped.stacksKept {bitmap : Bitmap} (h : PageMapped d n u s f bitmap s') :
    StacksKept D s.sys s'.sys := by
  obtain ⟨-, hnew, -, rfl⟩ := h
  refine ⟨rfl, fun _ _ _ => rfl, fun d' _ k _ e he => ?_⟩
  obtain ⟨hne, hpres, rfl⟩ := Paging.pageOf_eq_some.mp he
  rw [← he]
  refine Paging.pageOf_congr rfl fun _ => Paging.setEntry_of_ne ?_
  by_contra hsame
  obtain ⟨ht, hj⟩ := not_or.mp hsame
  rw [not_not] at ht hj
  rw [ht, hj, hnew] at hpres
  exact Bool.false_ne_true hpres

/-- The page that was created. -/
theorem PageMapped.pageOf {bitmap : Bitmap} (h : PageMapped d n u s f bitmap s') :
    ∃ e, s'.sys.pageOf d n = some e ∧ StackEntry (decide (u % 2 = 1)) e := by
  obtain ⟨hne, -, hclaimed, rfl⟩ := h
  have hself : ({ s.sys with availableFrames := bitmap }.setEntry
      ((s.sys.directories d).tables (n / 1024)) (n % 1024) (newPageEntry u f
        (s.sys.tables ((s.sys.directories d).tables (n / 1024)) (n % 1024)))).tables
      ((s.sys.directories d).tables (n / 1024)) (n % 1024) = newPageEntry u f
        (s.sys.tables ((s.sys.directories d).tables (n / 1024)) (n % 1024)) := Paging.setEntry_self
  have hpres := congrArg PageEntry.present hself
  exact ⟨_, Paging.pageOf_eq_some.mpr ⟨hne, hpres, hself⟩, rfl,
    (Nat.mod_le f 0x100000).trans_lt hclaimed.lt⟩

theorem TableLinked.stacksKept {i t x : ℕ} {s₁ : Kernel} (hl : TableLinked D T live d i s t s₁ x)
    (h : KernelInv D T bs live s) (hk : d ≠ s.sys.kernelPageDirectory)
    (hnone : (s.sys.directories d).tables i = 0) :
    StacksKept D s.sys ((s₁.sys.zeroTable t).setDirectoryEntry d i t x) := by
  have hkept := hl.alloc.stacksKept h
  have hk₁ : s₁.sys.kernelPageDirectory ≠ d := by
    rw [hkept.kernel]
    exact hk.symm
  have hkernel : ((s₁.sys.zeroTable t).setDirectoryEntry d i t x).kernel = s₁.sys.kernel :=
    Paging.setDirectoryEntry_of_ne hk₁
  obtain ⟨bs₁, h₁⟩ := hl.alloc.inv
  refine ⟨hkept.kernel, fun i' hi' hle => ?_, fun d' hd' n hn e he => ?_⟩
  · rw [hkernel]
    exact hkept.tables i' hi' hle
  · obtain ⟨hlo, hhi⟩ := hn.bounds
    have hpage := hkept.pages d' hd' n hn e he
    have hne := (Paging.pageOf_eq_some.mp hpage).1
    -- the entry that is set was empty
    have hother : d' ≠ d ∨ n / 1024 ≠ i := by
      by_contra hsame
      obtain ⟨hdd, hni⟩ := not_or.mp hsame
      rw [not_not] at hdd hni
      rw [hdd] at he
      exact (Paging.pageOf_eq_some.mp he).1 (hni ▸ hnone)
    rw [← hpage]
    refine Paging.pageOf_congr (Paging.setDirectoryEntry_tables_of_ne hother) fun _ => ?_
    refine congrFun (Paging.zeroTable_of_ne ?_) _
    rintro heq
    exact hl.unused (heq ▸ h₁.pages.inv.inUse_linked hd' (by omega) hne)

theorem pagingCreateProcessPage_stacksKept (h : KernelInv D T bs live s) (hd : d ∈ D)
    (hk : d ≠ s.sys.kernelPageDirectory)
    (hrun : pagingCreateProcessPageWithAnyFrame uninit s d n u = .ok (f, s')) :
    StacksKept D s.sys s'.sys ∧
      ∃ e, s'.sys.pageOf d n = some e ∧ StackEntry (decide (u % 2 = 1)) e := by
  obtain ⟨s₁, T', bs', live', bitmap, -, hm, -, hcase⟩ := pagingCreateProcessPage_ok h hd hk hrun
  obtain ⟨e, he, hmode⟩ := hm.pageOf
  refine ⟨?_, e, he, hmode⟩
  rcases hcase with ⟨rfl, -, -⟩ | ⟨hnone, t, s₀, x, hl, -, -, rfl⟩
  · exact hm.stacksKept
  · exact (hl.stacksKept h hk hnone).trans hm.stacksKept subset_rfl

/-! ## Cleaning -/

theorem DirectoryCleaned.stacksKept (hc : DirectoryCleaned D T live d 1024 s s')
    (h : KernelInv D T bs live s) (hd : d ∈ D) (hk : d ≠ s.sys.kernelPageDirectory)
    (hlow : NoTablesAbove s.sys) : StacksKept D s.sys s'.sys := by
  refine ⟨hc.kernel, fun i _ _ => ?_, fun d' hd' n hn e he => ?_⟩
  · unfold Paging.kernel
    rw [hc.kernel, hc.directories _ hk.symm]
  · obtain ⟨hlo, hhi⟩ := hn.bounds
    by_cases hdd : d' = d
    · subst hdd
      rw [hc.pages n (by omega) (by omega), if_pos hn.part]
      exact he
    · rw [← he]
      have hne := (Paging.pageOf_eq_some.mp he).1
      -- the table is of `d'` alone
      have hT : (s.sys.directories d').tables (n / 1024) ∈ T := by
        refine (h.pages.inv.linked d' hd' _ (by omega) hne).resolve_right fun heq => hne ?_
        rw [heq]
        exact hlow _ (by omega) (by omega)
      refine Paging.pageOf_congr (by rw [hc.directories d' hdd]) fun _ => ?_
      refine congrFun (hc.tables _ fun i hi hle heq => hdd ?_) _
      exact (h.pages.inv.owned d' hd' _ (by omega) (by omega) hT d hd i hi heq).1.symm

end

end RawOS
