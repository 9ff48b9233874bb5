import RawOS.Paging
import Mathlib.Data.Set.Insert

/-!
# The invariant of the pages

`PagingInv D T p` says that the directories `D` and the tables are in order, where `T` are the
tables in the heap: no two pages have one frame, the frames of pages are used, and both arrays of a
directory name the same tables. There is one lemma for each thing that the code does to the tables
and directories.
-/

namespace RawOS

/-- The lowest page of the kernel's stack. -/
def kernelStackFirstPage : ℕ := kernelStackAddress / 0x1000 - (kernelStackReservedPages - 1)

/-- Entry `j` of the table `t` is a page with frame `f`. -/
structure Maps (p : Paging) (t j f : ℕ) : Prop where
  present : (p.tables t j).present = true
  frame : (p.tables t j).frameAddress20Bits = f

/-- The kernel has the page `n`, with frame `f`. -/
structure KernelPage (p : Paging) (n f : ℕ) : Prop where
  table : p.kernel.tables (n / 1024) ≠ 0
  maps : Maps p (p.kernel.tables (n / 1024)) (n % 1024) f

/-- A table of the heap, or one of the kernel's. -/
def InUse (T : Set ℕ) (p : Paging) (t : ℕ) : Prop :=
  t ∈ T ∨ t ≠ 0 ∧ ∃ i < 1024, p.kernel.tables i = t

/-- The frames of the pages are apart, and used as far as the bitmap knows them. -/
structure FramesInv (T : Set ℕ) (p : Paging) : Prop where
  size : p.availableFrames.size = availableFramesNum / 8
  used : ∀ t j f, InUse T p t → j < 1024 → Maps p t j f → f < availableFramesNum →
    p.availableFrames.Has f
  distinct : ∀ t t' j j' f, InUse T p t → InUse T p t' → j < 1024 → j' < 1024 →
    Maps p t j f → Maps p t' j' f → t = t' ∧ j = j'

/-- Entry `i` of both arrays of a directory: no table, or the address of a table and the physical
address at which the kernel has it. -/
def Synced (p : Paging) (directory : PageDirectory) (i : ℕ) : Prop :=
  directory.tables i = 0 ∧ directory.tablesX86Representation i = 0 ∨
  directory.tables i ≠ 0 ∧ ∃ f, KernelPage p (directory.tables i / 4096) f ∧
    directory.tablesX86Representation i = u32 (f * 0x1000) ||| 0x7

structure PagingInv (D T : Set ℕ) (p : Paging) : Prop where
  frames : FramesInv T p
  kernel : p.kernelPageDirectory ∈ D
  processes : ∀ q ∈ p.processes, ∀ d, q.pageDirectory = some d → d ∈ D
  window : ∀ i < 1024, p.kernel.tables i ≠ 0 → p.kernel.tables i = kernelPageTable i ∧
    ∃ f, KernelPage p (kernelPageTable i / 4096) f
  low : ∀ i < 2, p.kernel.tables i ≠ 0
  first : ∃ f, KernelPage p 0 f
  stack : ∃ f, KernelPage p kernelStackFirstPage f
  heap : ∀ t ∈ T, t % 4096 = 0 ∧ kernelHeapAddress ≤ t ∧ t / 4096 < kernelStackFirstPage ∧
    ∃ f, KernelPage p (t / 4096) f
  linked : ∀ d ∈ D, ∀ i < 1024, (p.directories d).tables i ≠ 0 →
    (p.directories d).tables i ∈ T ∨ (p.directories d).tables i = p.kernel.tables i
  synced : ∀ d ∈ D, ∀ i < 1024, Synced p (p.directories d) i
  -- a table above 1 GB is that of one directory, which may release it
  owned : ∀ d ∈ D, ∀ i < 1024, 256 ≤ i → (p.directories d).tables i ∈ T →
    ∀ d' ∈ D, ∀ i' < 1024, (p.directories d').tables i' = (p.directories d).tables i →
      d' = d ∧ i' = i

/-- The kernel keeps its pages, those above its stack apart. -/
def KernelKept (p p' : Paging) : Prop :=
  ∀ n ≤ kernelStackFirstPage, ∀ f, KernelPage p n f → KernelPage p' n f

section

variable {D T : Set ℕ} {p p' : Paging} {d t i j f n x : ℕ} {b : Bitmap} {e : PageEntry}

theorem kernelPageTable_eq (hi : i < 1024) : kernelPageTable i = 0x100000 + i * 4096 := by
  unfold kernelPageTable kernelPageTablesAddress
  exact u32_of_lt (by omega)

theorem Maps.unique {g : ℕ} (h : Maps p t j f) (h' : Maps p t j g) : f = g :=
  h.frame.symm.trans h'.frame

theorem KernelPage.unique {g : ℕ} (h : KernelPage p n f) (h' : KernelPage p n g) : f = g :=
  h.maps.unique h'.maps

theorem KernelPage.inUse (h : KernelPage p n f) (hn : n < 0x100000) :
    InUse T p (p.kernel.tables (n / 1024)) := .inr ⟨h.table, _, by omega, rfl⟩

/-- Only the pages of the tables matter. -/
theorem KernelPage.congr (h : KernelPage p n f) (hk : p'.kernel.tables (n / 1024) =
    p.kernel.tables (n / 1024)) (ht : p'.tables (p.kernel.tables (n / 1024)) (n % 1024) =
    p.tables (p.kernel.tables (n / 1024)) (n % 1024)) : KernelPage p' n f := by
  constructor
  · rw [hk]
    exact h.table
  · rw [hk]
    exact ⟨ht ▸ h.maps.present, ht ▸ h.maps.frame⟩

theorem KernelKept.refl (p : Paging) : KernelKept p p := fun _ _ _ h => h

theorem KernelKept.trans {p'' : Paging} (h : KernelKept p p') (h' : KernelKept p' p'') :
    KernelKept p p'' := fun n hn f hf => h' n hn f (h n hn f hf)

theorem Synced.kept {directory : PageDirectory} (h : Synced p directory i) (hk : KernelKept p p')
    (hle : directory.tables i / 4096 ≤ kernelStackFirstPage) : Synced p' directory i := by
  rcases h with h | ⟨hne, g, hg, hx⟩
  · exact .inl h
  · exact .inr ⟨hne, g, hk _ hle g hg, hx⟩

theorem Synced.congr {directory directory' : PageDirectory} (h : Synced p directory i)
    (ht : directory'.tables i = directory.tables i)
    (hx : directory'.tablesX86Representation i = directory.tablesX86Representation i) :
    Synced p directory' i := by
  unfold Synced
  rw [ht, hx]
  exact h

/-- The bitmap stays, and the tables in use have no new page. -/
theorem FramesInv.of_maps {T' : Set ℕ} (h : FramesInv T p)
    (hbits : p'.availableFrames = p.availableFrames)
    (hmaps : ∀ t j f, InUse T' p' t → Maps p' t j f → InUse T p t ∧ Maps p t j f) :
    FramesInv T' p' where
  size := hbits ▸ h.size
  used := by
    intro t j f ht hj hm hf
    obtain ⟨ht', hm'⟩ := hmaps t j f ht hm
    rw [hbits]
    exact h.used t j f ht' hj hm' hf
  distinct := by
    intro t₁ t₂ j₁ j₂ f ht₁ ht₂ hj₁ hj₂ hm₁ hm₂
    obtain ⟨ht₁', hm₁'⟩ := hmaps t₁ j₁ f ht₁ hm₁
    obtain ⟨ht₂', hm₂'⟩ := hmaps t₂ j₂ f ht₂ hm₂
    exact h.distinct t₁ t₂ j₁ j₂ f ht₁' ht₂' hj₁ hj₂ hm₁' hm₂'

namespace PagingInv

theorem inUse_linked (h : PagingInv D T p) (hd : d ∈ D) (hi : i < 1024)
    (hne : (p.directories d).tables i ≠ 0) : InUse T p ((p.directories d).tables i) :=
  (h.linked d hd i hi hne).imp_right fun heq => ⟨hne, i, hi, heq.symm⟩

/-- Where a table in use can be. -/
theorem inUse_bounds (h : PagingInv D T p) (ht : InUse T p t) :
    t ≠ 0 ∧ t / 4096 < kernelStackFirstPage ∧ t % 4096 = 0 ∧ (t ∈ T ↔ kernelHeapAddress ≤ t) := by
  rcases ht with ht | ⟨hne, i, hi, hk⟩
  · obtain ⟨hmod, hle, hlt, -⟩ := h.heap t ht
    unfold kernelHeapAddress at hle
    exact ⟨by omega, hlt, hmod, fun _ => hle, fun _ => ht⟩
  · have hw := (h.window i hi (hk ▸ hne)).1
    rw [hk, kernelPageTable_eq hi] at hw
    have hlow : ¬ kernelHeapAddress ≤ t := by
      unfold kernelHeapAddress
      omega
    refine ⟨hne, ?_, by omega, fun ht => (h.heap t ht).2.1, fun hle => absurd hle hlow⟩
    unfold kernelStackFirstPage kernelStackAddress kernelStackReservedPages
    omega

/-- Two tables of the kernel are the same only if their numbers are. -/
theorem window_inj (h : PagingInv D T p) {i' : ℕ} (hi : i < 1024) (hi' : i' < 1024)
    (hne : p.kernel.tables i ≠ 0) (heq : p.kernel.tables i' = p.kernel.tables i) : i' = i := by
  have h₁ := (h.window i hi hne).1
  have h₂ := (h.window i' hi' (heq ▸ hne)).1
  rw [kernelPageTable_eq hi] at h₁
  rw [kernelPageTable_eq hi'] at h₂
  omega

/-! ### What the kernel needs -/

theorem window_kept (h : PagingInv D T p) (hkept : KernelKept p p') (hi : i < 1024)
    (hne : p.kernel.tables i ≠ 0) :
    p.kernel.tables i = kernelPageTable i ∧ ∃ f, KernelPage p' (kernelPageTable i / 4096) f := by
  obtain ⟨hw, f, hf⟩ := h.window i hi hne
  refine ⟨hw, f, hkept _ ?_ f hf⟩
  rw [kernelPageTable_eq hi]
  unfold kernelStackFirstPage kernelStackAddress kernelStackReservedPages
  omega

theorem first_kept (h : PagingInv D T p) (hkept : KernelKept p p') : ∃ f, KernelPage p' 0 f := by
  obtain ⟨f, hf⟩ := h.first
  exact ⟨f, hkept 0 (Nat.zero_le _) f hf⟩

theorem stack_kept (h : PagingInv D T p) (hkept : KernelKept p p') :
    ∃ f, KernelPage p' kernelStackFirstPage f := by
  obtain ⟨f, hf⟩ := h.stack
  exact ⟨f, hkept _ le_rfl f hf⟩

theorem heap_kept (h : PagingInv D T p) (hkept : KernelKept p p') (ht : t ∈ T) :
    t % 4096 = 0 ∧ kernelHeapAddress ≤ t ∧ t / 4096 < kernelStackFirstPage ∧
      ∃ f, KernelPage p' (t / 4096) f := by
  obtain ⟨hmod, hle, hlt, f, hf⟩ := h.heap t ht
  exact ⟨hmod, hle, hlt, f, hkept _ hlt.le f hf⟩

theorem synced_kept (h : PagingInv D T p) (hkept : KernelKept p p') (hd : d ∈ D) (hi : i < 1024) :
    Synced p' (p.directories d) i := by
  refine (h.synced d hd i hi).kept hkept ?_
  by_cases hne : (p.directories d).tables i = 0
  · rw [hne]
    exact Nat.zero_le _
  · exact (h.inUse_bounds (h.inUse_linked hd hi hne)).2.1.le

/-- The directories stay, and so do the pages that the kernel needs. -/
theorem of_tables (h : PagingInv D T p) (hd : p'.directories = p.directories)
    (hk : p'.kernelPageDirectory = p.kernelPageDirectory) (hq : p'.processes = p.processes)
    (hf : FramesInv T p') (hkept : KernelKept p p') : PagingInv D T p' := by
  have hkernel : p'.kernel = p.kernel := by
    unfold Paging.kernel
    rw [hd, hk]
  refine ⟨hf, hk ▸ h.kernel, hq ▸ h.processes, ?_, ?_, h.first_kept hkept, h.stack_kept hkept,
    fun t ht => h.heap_kept hkept ht, ?_, ?_, ?_⟩
  · intro i hi hne
    rw [hkernel] at hne ⊢
    exact h.window_kept hkept hi hne
  · rw [hkernel]
    exact h.low
  · rw [hd, hkernel]
    exact h.linked
  · intro d hdD i hi
    rw [hd]
    exact h.synced_kept hkept hdD hi
  · rw [hd]
    exact h.owned

end PagingInv

/-! ## Frames -/

/-- The bitmap `b'` has the frame `f`, the first one that `b` does not have. -/
structure Claimed (b b' : Bitmap) (f : ℕ) : Prop where
  size : b'.size = b.size
  lt : f < availableFramesNum
  clear : ¬ b.Has f
  least : ∀ k < f, b.Has k
  has : ∀ k, b'.Has k ↔ k = f ∨ b.Has k

theorem allocFrame_spec (h : p.availableFrames.size = availableFramesNum / 8) :
    Ends (allocFrame p)
      (fun r => ∃ b, Claimed p.availableFrames b r.1 ∧ r.2 = { p with availableFrames := b })
      (fun e => e = .panic "Bitmap full!" ∧ ∀ k < availableFramesNum, p.availableFrames.Has k) := by
  have hsize : 8 * p.availableFrames.size = availableFramesNum := by
    rw [h]
    decide
  have hwrap : p.availableFrames.size * 8 < 4294967296 := by
    unfold availableFramesNum physicalRamSize at hsize
    omega
  have hfirst := bitmapGetFirstClear_spec hwrap.le
  rw [hsize] at hfirst
  unfold allocFrame
  refine hfirst.bind ?_
  rintro f ⟨hlt, hclear, hleast⟩
  have hguard : bitmapGuard p.availableFrames f := bitmapGuard_of_lt hwrap (by omega)
  have hset := bitmapSet_eq_ok.mpr ⟨hguard, rfl⟩
  rw [hset, ok_bind]
  exact ⟨_, ⟨bitmapSet_size hset, hlt, hclear, hleast, fun k => has_bitmapSet hset⟩, rfl⟩

/-! ## What the code does -/

namespace PagingInv

/-- A frame that was claimed becomes that of a page. -/
theorem mapEntry (h : PagingInv D T p) (hb : Claimed p.availableFrames b f) (hj : j < 1024)
    (hnew : (p.tables t j).present = false) (he : e.frameAddress20Bits = f) :
    PagingInv D T ({ p with availableFrames := b }.setEntry t j e) := by
  obtain ⟨p', hp'⟩ : ∃ p', p' = { p with availableFrames := b }.setEntry t j e := ⟨_, rfl⟩
  have hself : p'.tables t j = e := hp' ▸ Paging.setEntry_self
  have hother : ∀ t' j', t' ≠ t ∨ j' ≠ j → p'.tables t' j' = p.tables t' j' := fun t' j' hne => by
    rw [hp', Paging.setEntry_of_ne hne]
  have hk : p'.kernel = p.kernel := hp' ▸ rfl
  have hinUse : ∀ t, InUse T p' t → InUse T p t := by
    intro t
    unfold InUse
    rw [hk]
    exact id
  have hslot : ∀ t' j' g, Maps p' t' j' g → t' = t ∧ j' = j ∧ g = f ∨ Maps p t' j' g := by
    intro t' j' g hm
    by_cases hne : t' ≠ t ∨ j' ≠ j
    · exact .inr ⟨hother t' j' hne ▸ hm.present, hother t' j' hne ▸ hm.frame⟩
    · obtain ⟨rfl, rfl⟩ : t' = t ∧ j' = j := by omega
      refine .inl ⟨rfl, rfl, ?_⟩
      rw [← hm.frame, hself, he]
  -- who had the frame had it used
  have hfresh : ∀ t' j' g, InUse T p t' → j' < 1024 → Maps p t' j' g → g ≠ f := by
    rintro t' j' g ht' hj' hm rfl
    exact hb.clear (h.frames.used t' j' g ht' hj' hm hb.lt)
  rw [← hp']
  refine h.of_tables (hp' ▸ rfl) (hp' ▸ rfl) (hp' ▸ rfl) ⟨?_, ?_, ?_⟩ ?_
  · rw [← h.frames.size, ← hb.size, hp']
    rfl
  · intro t' j' g ht' hj' hm hg
    have hbits : p'.availableFrames = b := hp' ▸ rfl
    rw [hbits, hb.has]
    rcases hslot t' j' g hm with ⟨-, -, rfl⟩ | hm'
    · exact .inl rfl
    · exact .inr (h.frames.used t' j' g (hinUse t' ht') hj' hm' hg)
  · intro t₁ t₂ j₁ j₂ g ht₁ ht₂ hj₁ hj₂ hm₁ hm₂
    rcases hslot t₁ j₁ g hm₁ with ⟨rfl, rfl, rfl⟩ | hm₁'
    · rcases hslot t₂ j₂ g hm₂ with ⟨rfl, rfl, -⟩ | hm₂'
      · exact ⟨rfl, rfl⟩
      · exact absurd rfl (hfresh t₂ j₂ g (hinUse t₂ ht₂) hj₂ hm₂')
    · rcases hslot t₂ j₂ g hm₂ with ⟨rfl, rfl, rfl⟩ | hm₂'
      · exact absurd rfl (hfresh t₁ j₁ g (hinUse t₁ ht₁) hj₁ hm₁')
      · exact h.frames.distinct t₁ t₂ j₁ j₂ g (hinUse t₁ ht₁) (hinUse t₂ ht₂) hj₁ hj₂ hm₁' hm₂'
  · intro n hn g hg
    refine hg.congr (by rw [hk]) (hother _ _ ?_)
    by_contra hne
    obtain ⟨rfl, rfl⟩ : p.kernel.tables (n / 1024) = t ∧ n % 1024 = j := by omega
    rw [hg.maps.present] at hnew
    exact Bool.noConfusion hnew

/-- A page that the kernel does not need is removed, and its frame is released. -/
theorem unmapEntry (h : PagingInv D T p) (hj : j < 1024) (ht : InUse T p t) (hm : Maps p t j f)
    (hsize : b.size = p.availableFrames.size)
    (hb : ∀ k, b.Has k ↔ k ≠ f ∧ p.availableFrames.Has k)
    (hsafe : ∀ n ≤ kernelStackFirstPage, p.kernel.tables (n / 1024) = t → n % 1024 ≠ j) :
    PagingInv D T ({ p with availableFrames := b }.setEntry t j PageEntry.zero) := by
  obtain ⟨p', hp'⟩ : ∃ p', p' = { p with availableFrames := b }.setEntry t j PageEntry.zero :=
    ⟨_, rfl⟩
  have hself : p'.tables t j = PageEntry.zero := hp' ▸ Paging.setEntry_self
  have hother : ∀ t' j', t' ≠ t ∨ j' ≠ j → p'.tables t' j' = p.tables t' j' := fun t' j' hne => by
    rw [hp', Paging.setEntry_of_ne hne]
  have hk : p'.kernel = p.kernel := hp' ▸ rfl
  have hinUse : ∀ t, InUse T p' t → InUse T p t := by
    intro t
    unfold InUse
    rw [hk]
    exact id
  have hslot : ∀ t' j' g, Maps p' t' j' g → (t' ≠ t ∨ j' ≠ j) ∧ Maps p t' j' g := by
    intro t' j' g hm'
    by_cases hne : t' ≠ t ∨ j' ≠ j
    · exact ⟨hne, hother t' j' hne ▸ hm'.present, hother t' j' hne ▸ hm'.frame⟩
    · obtain ⟨rfl, rfl⟩ : t' = t ∧ j' = j := by omega
      have hpres := hm'.present
      rw [hself] at hpres
      exact Bool.noConfusion hpres
  rw [← hp']
  refine h.of_tables (hp' ▸ rfl) (hp' ▸ rfl) (hp' ▸ rfl) ⟨?_, ?_, ?_⟩ ?_
  · rw [← h.frames.size, ← hsize, hp']
    rfl
  · intro t' j' g ht' hj' hm' hg
    have hbits : p'.availableFrames = b := hp' ▸ rfl
    obtain ⟨hne, hold⟩ := hslot t' j' g hm'
    rw [hbits, hb]
    refine ⟨?_, h.frames.used t' j' g (hinUse t' ht') hj' hold hg⟩
    rintro rfl
    obtain ⟨rfl, rfl⟩ := h.frames.distinct t' t j' j g (hinUse t' ht') ht hj' hj hold hm
    omega
  · intro t₁ t₂ j₁ j₂ g ht₁ ht₂ hj₁ hj₂ hm₁ hm₂
    exact h.frames.distinct t₁ t₂ j₁ j₂ g (hinUse t₁ ht₁) (hinUse t₂ ht₂) hj₁ hj₂
      (hslot t₁ j₁ g hm₁).2 (hslot t₂ j₂ g hm₂).2
  · intro n hn g hg
    refine hg.congr (by rw [hk]) (hother _ _ ?_)
    by_cases heq : p.kernel.tables (n / 1024) = t
    · exact .inr (hsafe n hn heq)
    · exact .inl heq

/-- Entry `i` of the directory of a process is set: to no table, or to one that no entry above 1 GB
has, nor any other if `i` is above 1 GB. -/
theorem setDirectoryEntry (h : PagingInv D T p) (hd : d ∈ D) (hk : d ≠ p.kernelPageDirectory)
    (ht : t = 0 ∧ x = 0 ∨ (t ∈ T ∨ t ≠ 0 ∧ t = p.kernel.tables i) ∧
      ∃ f, KernelPage p (t / 4096) f ∧ x = u32 (f * 0x1000) ||| 0x7)
    (hown : t ∈ T → ∀ d' ∈ D, ∀ i' < 1024, 256 ≤ i ∨ 256 ≤ i' → d' ≠ d ∨ i' ≠ i →
      (p.directories d').tables i' ≠ t) : PagingInv D T (p.setDirectoryEntry d i t x) := by
  obtain ⟨p', hp'⟩ : ∃ p', p' = p.setDirectoryEntry d i t x := ⟨_, rfl⟩
  have hkernel : p'.kernel = p.kernel := by
    rw [hp']
    exact Paging.setDirectoryEntry_of_ne hk.symm
  have hother : ∀ d' i', d' ≠ d ∨ i' ≠ i →
      (p'.directories d').tables i' = (p.directories d').tables i' ∧
      (p'.directories d').tablesX86Representation i' =
        (p.directories d').tablesX86Representation i' := fun d' i' hne => by
    rw [hp']
    exact ⟨Paging.setDirectoryEntry_tables_of_ne hne, Paging.setDirectoryEntry_x86_of_ne hne⟩
  have hself : (p'.directories d).tables i = t ∧ (p'.directories d).tablesX86Representation i = x := by
    rw [hp']
    exact ⟨Paging.setDirectoryEntry_tables_self, Paging.setDirectoryEntry_x86_self⟩
  have hinUse : ∀ t, InUse T p' t ↔ InUse T p t := by
    intro t
    unfold InUse
    rw [hkernel]
  have hpage : ∀ n f, KernelPage p n f → KernelPage p' n f := fun n f hf =>
    hf.congr (by rw [hkernel]) (by rw [hp']; rfl)
  have hkept : KernelKept p p' := fun n _ f hf => hpage n f hf
  rw [← hp']
  refine ⟨h.frames.of_maps (by rw [hp']; rfl) fun t j f ht' hm => ⟨(hinUse t).mp ht', ?_⟩, ?_, ?_,
    ?_, ?_,
    h.first_kept hkept, h.stack_kept hkept, fun t' ht' => h.heap_kept hkept ht', ?_, ?_, ?_⟩
  · rw [hp'] at hm
    exact ⟨hm.present, hm.frame⟩
  · rw [hp']
    exact h.kernel
  · rw [hp']
    exact h.processes
  · intro i' hi' hne
    rw [hkernel] at hne ⊢
    exact h.window_kept hkept hi' hne
  · rw [hkernel]
    exact h.low
  · intro d' hd' i' hi' hne
    by_cases hslot : d' ≠ d ∨ i' ≠ i
    · rw [(hother d' i' hslot).1] at hne ⊢
      rw [hkernel]
      exact h.linked d' hd' i' hi' hne
    · obtain ⟨rfl, rfl⟩ : d' = d ∧ i' = i := by omega
      rw [hself.1] at hne
      rw [hself.1, hkernel]
      exact (ht.resolve_left fun h0 => hne h0.1).1.imp_right And.right
  · intro d' hd' i' hi'
    by_cases hslot : d' ≠ d ∨ i' ≠ i
    · obtain ⟨h₁, h₂⟩ := hother d' i' hslot
      exact (h.synced_kept hkept hd' hi').congr h₁ h₂
    · obtain ⟨rfl, rfl⟩ : d' = d ∧ i' = i := by omega
      rcases ht with ⟨h₁, h₂⟩ | ⟨h₁, f, hf, h₂⟩
      · exact .inl ⟨hself.1.trans h₁, hself.2.trans h₂⟩
      · refine .inr ⟨?_, f, ?_, hself.2.trans h₂⟩
        · rw [hself.1]
          rcases h₁ with h₁ | h₁
          · exact (h.inUse_bounds (.inl h₁)).1
          · exact h₁.1
        · rw [hself.1]
          exact hpage _ f hf
  · intro d₁ hd₁ i₁ hi₁ hle hin d₂ hd₂ i₂ hi₂ heq
    by_cases hs₁ : d₁ ≠ d ∨ i₁ ≠ i
    · rw [(hother d₁ i₁ hs₁).1] at hin heq
      by_cases hs₂ : d₂ ≠ d ∨ i₂ ≠ i
      · rw [(hother d₂ i₂ hs₂).1] at heq
        exact h.owned d₁ hd₁ i₁ hi₁ hle hin d₂ hd₂ i₂ hi₂ heq
      · obtain ⟨rfl, rfl⟩ : d₂ = d ∧ i₂ = i := by omega
        rw [hself.1] at heq
        exact absurd heq.symm (hown (heq ▸ hin) d₁ hd₁ i₁ hi₁ (.inr hle) hs₁)
    · obtain ⟨rfl, rfl⟩ : d₁ = d ∧ i₁ = i := by omega
      rw [hself.1] at hin heq
      by_cases hs₂ : d₂ ≠ d₁ ∨ i₂ ≠ i₁
      · rw [(hother d₂ i₂ hs₂).1] at heq
        exact absurd heq (hown hin d₂ hd₂ i₂ hi₂ (.inl hle) hs₂)
      · omega

/-- A table is allocated on the heap. -/
theorem addTable (h : PagingInv D T p) (hmod : t % 4096 = 0) (hle : kernelHeapAddress ≤ t)
    (hlt : t / 4096 < kernelStackFirstPage) (hf : ∃ f, KernelPage p (t / 4096) f) (ht : t ∉ T) :
    PagingInv D (insert t T) (p.zeroTable t) := by
  have hnot : ¬ InUse T p t := fun hin => ht ((h.inUse_bounds hin).2.2.2.mpr hle)
  have hother : ∀ t', InUse T p t' → (p.zeroTable t).tables t' = p.tables t' := fun t' ht' =>
    Paging.zeroTable_of_ne fun heq => hnot (heq ▸ ht')
  have hmaps : ∀ t' j f, InUse (insert t T) (p.zeroTable t) t' → Maps (p.zeroTable t) t' j f →
      InUse T p t' ∧ Maps p t' j f := by
    rintro t' j f ht' hm
    by_cases heq : t' = t
    · subst heq
      have hpres := hm.present
      rw [Paging.zeroTable_self] at hpres
      exact Bool.noConfusion hpres
    · have ht'' : InUse T p t' := by
        rcases ht' with hT | hk
        · exact .inl (hT.resolve_left heq)
        · exact .inr hk
      exact ⟨ht'', hother t' ht'' ▸ hm.present, hother t' ht'' ▸ hm.frame⟩
  have hkept : KernelKept p (p.zeroTable t) := fun n hn f hf => hf.congr rfl (by
    have hstack : kernelStackFirstPage < 0x100000 := by decide
    rw [hother _ (hf.inUse (by omega))])
  refine ⟨h.frames.of_maps rfl hmaps, h.kernel, h.processes, fun i hi hne => h.window_kept hkept hi hne,
    h.low, h.first_kept hkept, h.stack_kept hkept, ?_,
    fun d hd i hi hne => (h.linked d hd i hi hne).imp_left .inr,
    fun d hd i hi => h.synced_kept hkept hd hi, ?_⟩
  · intro t' ht'
    rcases ht' with rfl | ht'
    · obtain ⟨f, hf⟩ := hf
      exact ⟨hmod, hle, hlt, f, hkept _ hlt.le f hf⟩
    · exact h.heap_kept hkept ht'
  · intro d hd i hi hle' hin d' hd' i' hi' heq
    refine h.owned d hd i hi hle' (hin.resolve_left fun heq' => hnot ?_) d' hd' i' hi' heq
    have hne : (p.directories d).tables i ≠ 0 := by
      intro h0
      unfold kernelHeapAddress at hle
      have : (p.directories d).tables i = t := heq'
      omega
    exact heq' ▸ h.inUse_linked hd hi hne

/-- A directory is allocated. -/
theorem addDirectory (h : PagingInv D T p) (hd : d ∉ D) :
    PagingInv (insert d D) T (p.zeroDirectory d) := by
  have hother : ∀ d' ∈ D, (p.zeroDirectory d).directories d' = p.directories d' := by
    intro d' hd'
    have hne : d' ≠ d := by
      rintro rfl
      exact hd hd'
    exact Function.update_of_ne hne ..
  have hself : (p.zeroDirectory d).directories d = PageDirectory.zero := Function.update_self ..
  have hkernel : (p.zeroDirectory d).kernel = p.kernel := hother _ h.kernel
  have hinUse : ∀ t, InUse T (p.zeroDirectory d) t ↔ InUse T p t := by
    intro t
    unfold InUse
    rw [hkernel]
  have hkept : KernelKept p (p.zeroDirectory d) := fun n _ f hf => hf.congr (by rw [hkernel]) rfl
  refine ⟨h.frames.of_maps rfl fun t j f ht hm => ⟨(hinUse t).mp ht, hm.present, hm.frame⟩,
    .inr h.kernel, fun q hq d' hd' => .inr (h.processes q hq d' hd'), ?_, ?_, h.first_kept hkept,
    h.stack_kept hkept, fun t ht => h.heap_kept hkept ht, ?_, ?_, ?_⟩
  · intro i hi hne
    rw [hkernel] at hne ⊢
    exact h.window_kept hkept hi hne
  · rw [hkernel]
    exact h.low
  · intro d' hd' i hi hne
    rcases hd' with rfl | hd'
    · rw [hself] at hne
      exact absurd rfl hne
    · rw [hother d' hd'] at hne ⊢
      rw [hkernel]
      exact h.linked d' hd' i hi hne
  · intro d' hd' i hi
    rcases hd' with rfl | hd'
    · rw [hself]
      exact .inl ⟨rfl, rfl⟩
    · rw [hother d' hd']
      exact h.synced_kept hkept hd' hi
  · have hzero : ∀ i, ((p.zeroDirectory d).directories d).tables i ∉ T := by
      intro i hin
      rw [hself] at hin
      have hle : kernelHeapAddress ≤ 0 := (h.heap _ hin).2.1
      exact absurd hle (by decide)
    intro d₁ hd₁ i₁ hi₁ hle hin d₂ hd₂ i₂ hi₂ heq
    rcases hd₁ with rfl | hd₁
    · exact absurd hin (hzero i₁)
    · rcases hd₂ with rfl | hd₂
      · exact absurd (heq ▸ hin) (hzero i₂)
      · rw [hother d₁ hd₁] at hin heq
        rw [hother d₂ hd₂] at heq
        exact h.owned d₁ hd₁ i₁ hi₁ hle hin d₂ hd₂ i₂ hi₂ heq

/-- A table that no directory has is released. -/
theorem removeTable (h : PagingInv D T p)
    (hno : ∀ d ∈ D, ∀ i < 1024, (p.directories d).tables i ≠ t) : PagingInv D (T \ {t}) p := by
  have hinUse : ∀ t', InUse (T \ {t}) p t' → InUse T p t' := fun t' ht' => ht'.imp_left And.left
  refine ⟨h.frames.of_maps rfl fun t' j f ht' hm => ⟨hinUse t' ht', hm⟩, h.kernel, h.processes,
    h.window,
    h.low, h.first, h.stack, fun t' ht' => h.heap t' ht'.1, ?_, h.synced, fun d hd i hi hle hin =>
      h.owned d hd i hi hle hin.1⟩
  intro d hd i hi hne
  exact (h.linked d hd i hi hne).imp_left fun hin => ⟨hin, hno d hd i hi⟩

/-- The place of a missing table is free. -/
theorem not_inUse_missing (h : PagingInv D T p) (hi : i < 1024) (hnone : p.kernel.tables i = 0) :
    ¬ InUse T p (kernelPageTable i) := by
  have haddr := kernelPageTable_eq hi
  rintro (hT | ⟨hne, i', hi', heq⟩)
  · have hle := (h.heap _ hT).2.1
    unfold kernelHeapAddress at hle
    omega
  · have hw := (h.window i' hi' (heq ▸ hne)).1
    rw [heq, haddr, kernelPageTable_eq hi'] at hw
    obtain rfl : i' = i := by omega
    omega

/-- The kernel gets table `i`, whose page it has. -/
theorem addKernelTable (h : PagingInv D T p) (hi : i < 1024) (hnone : p.kernel.tables i = 0)
    (hf : KernelPage p (kernelPageTable i / 4096) f) :
    PagingInv D T ((p.setDirectoryEntry p.kernelPageDirectory i (kernelPageTable i)
      (u32 (f * 0x1000) ||| 0x7)).zeroTable (kernelPageTable i)) := by
  obtain ⟨a, ha⟩ : ∃ a, a = kernelPageTable i := ⟨_, rfl⟩
  obtain ⟨x, hx⟩ : ∃ x, x = u32 (f * 0x1000) ||| 0x7 := ⟨_, rfl⟩
  obtain ⟨p', hp'⟩ : ∃ p', p' = (p.setDirectoryEntry p.kernelPageDirectory i a x).zeroTable a :=
    ⟨_, rfl⟩
  have haddr : a = 0x100000 + i * 4096 := ha.trans (kernelPageTable_eq hi)
  have hnot : ¬ InUse T p a := ha ▸ h.not_inUse_missing hi hnone
  have hother : ∀ t, InUse T p t → p'.tables t = p.tables t := by
    intro t ht
    rw [hp']
    exact Paging.zeroTable_of_ne fun heq => hnot (heq ▸ ht)
  have hkself : p'.kernel.tables i = a := by
    rw [hp']
    exact Paging.setDirectoryEntry_tables_self
  have hkother : ∀ i', i' ≠ i → p'.kernel.tables i' = p.kernel.tables i' := by
    intro i' hne
    rw [hp']
    exact Paging.setDirectoryEntry_tables_of_ne (.inr hne)
  have hinUse : ∀ t, InUse T p' t → t = a ∨ InUse T p t := by
    rintro t (hT | ⟨hne, i', hi', heq⟩)
    · exact .inr (.inl hT)
    · by_cases hii : i' = i
      · subst hii
        exact .inl (heq.symm.trans hkself)
      · rw [hkother i' hii] at heq
        exact .inr (.inr ⟨hne, i', hi', heq⟩)
  have hmaps : ∀ t j g, InUse T p' t → Maps p' t j g → InUse T p t ∧ Maps p t j g := by
    intro t j g ht hm
    rcases hinUse t ht with rfl | ht'
    · have hpres := hm.present
      rw [hp', Paging.zeroTable_self] at hpres
      exact Bool.noConfusion hpres
    · exact ⟨ht', hother t ht' ▸ hm.present, hother t ht' ▸ hm.frame⟩
  have hpage : ∀ n g, n < 0x100000 → KernelPage p n g → KernelPage p' n g := by
    intro n g hn hg
    refine hg.congr (hkother _ ?_) (by rw [hother _ (hg.inUse hn)])
    intro heq
    exact hg.table (heq ▸ hnone)
  have hkept : KernelKept p p' := fun n hn g hg => hpage n g (hn.trans_lt (by decide)) hg
  rw [← ha, ← hx, ← hp']
  have hdir : ∀ d ∈ D, ∀ i' < 1024, (d = p.kernelPageDirectory ∧ i' = i) ∨
      ((p'.directories d).tables i' = (p.directories d).tables i' ∧
      (p'.directories d).tablesX86Representation i' =
        (p.directories d).tablesX86Representation i') := by
    intro d _ i' _
    by_cases hslot : d ≠ p.kernelPageDirectory ∨ i' ≠ i
    · refine .inr ?_
      rw [hp']
      exact ⟨Paging.setDirectoryEntry_tables_of_ne hslot, Paging.setDirectoryEntry_x86_of_ne hslot⟩
    · exact .inl (by omega)
  have hknew : (p'.directories p.kernelPageDirectory).tables i = a := by
    rw [hp']
    exact Paging.setDirectoryEntry_tables_self
  have hxnew : (p'.directories p.kernelPageDirectory).tablesX86Representation i = x := by
    rw [hp']
    exact Paging.setDirectoryEntry_x86_self
  refine ⟨h.frames.of_maps (by rw [hp']; rfl) hmaps, ?_, ?_, ?_, ?_, h.first_kept hkept,
    h.stack_kept hkept, fun t ht => h.heap_kept hkept ht, ?_, ?_, ?_⟩
  · rw [hp']
    exact h.kernel
  · rw [hp']
    exact h.processes
  · intro i' hi' hne
    by_cases hii : i' = i
    · subst hii
      exact ⟨hkself.trans ha, f, hpage _ f (by omega) hf⟩
    · rw [hkother i' hii] at hne ⊢
      exact h.window_kept hkept hi' hne
  · intro i' hi'
    by_cases hii : i' = i
    · subst hii
      rw [hkself]
      omega
    · rw [hkother i' hii]
      exact h.low i' hi'
  · intro d hd i' hi' hne
    rcases hdir d hd i' hi' with ⟨rfl, rfl⟩ | ⟨h₁, -⟩
    · exact .inr (hknew.trans hkself.symm)
    · rw [h₁] at hne ⊢
      refine (h.linked d hd i' hi' hne).imp_right fun heq => ?_
      rw [hkother i', heq]
      rintro rfl
      exact hne (heq.trans hnone)
  · intro d hd i' hi'
    rcases hdir d hd i' hi' with ⟨rfl, rfl⟩ | ⟨h₁, h₂⟩
    · refine .inr ⟨?_, f, ?_, ?_⟩
      · rw [hknew]
        omega
      · rw [hknew, ha]
        exact hpage _ f (by omega) hf
      · rw [hxnew, hx]
    · exact (h.synced_kept hkept hd hi').congr h₁ h₂
  · have haT : a ∉ T := fun hT => hnot (.inl hT)
    intro d₁ hd₁ i₁ hi₁ hle hin d₂ hd₂ i₂ hi₂ heq
    rcases hdir d₁ hd₁ i₁ hi₁ with ⟨rfl, rfl⟩ | ⟨h₁, -⟩
    · rw [hknew] at hin
      exact absurd hin haT
    · rcases hdir d₂ hd₂ i₂ hi₂ with ⟨rfl, rfl⟩ | ⟨h₂, -⟩
      · rw [hknew] at heq
        exact absurd (heq ▸ hin) haT
      · rw [h₁] at hin heq
        rw [h₂] at heq
        exact h.owned d₁ hd₁ i₁ hi₁ hle hin d₂ hd₂ i₂ hi₂ heq

/-- Table `i` of the kernel is linked to the processes. -/
theorem linkKernelTable (hi : i < 1024) (ht : t ≠ 0) {q : List Process} :
    ∀ {p p' : Paging}, PagingInv D T p → (∀ r ∈ q, ∀ d, r.pageDirectory = some d → d ∈ D) →
      p.kernel.tables i = t → p.kernel.tablesX86Representation i = x →
      linkKernelTable t i x q p = .ok p' → PagingInv D T p' := by
  induction q with
  | nil =>
    intro p p' h _ _ _ hrun
    obtain rfl := Except.ok.inj hrun
    exact h
  | cons r q ih =>
    intro p p' h hq hk hx hrun
    unfold RawOS.linkKernelTable at hrun
    cases hr : r.pageDirectory with
    | none =>
      rw [hr] at hrun
      cases hrun
    | some d =>
      rw [hr] at hrun
      dsimp only at hrun
      have hd := hq r List.mem_cons_self d hr
      have hq' : ∀ r ∈ q, ∀ d, r.pageDirectory = some d → d ∈ D := fun r' hr' =>
        hq r' (List.mem_cons_of_mem r hr')
      by_cases hdk : d = p.kernelPageDirectory
      · subst hdk
        rw [Paging.setDirectoryEntry_eq_self hk hx] at hrun
        exact ih h hq' hk hx hrun
      · have hkd : (p.setDirectoryEntry d i t x).kernel = p.kernel :=
          Paging.setDirectoryEntry_of_ne fun heq => hdk heq.symm
        refine ih (h.setDirectoryEntry hd hdk (.inr ⟨.inr ⟨ht, hk.symm⟩, ?_⟩) ?_) hq' (hkd ▸ hk)
          (hkd ▸ hx) hrun
        · rcases h.synced p.kernelPageDirectory h.kernel i hi with ⟨h₁, -⟩ | ⟨-, f, hf, hfx⟩
          · exact absurd (hk.symm.trans h₁) ht
          · exact ⟨f, hk ▸ hf, hx.symm.trans hfx⟩
        · -- no table of the kernel is in the heap
          intro hT
          have hle := (h.heap t hT).2.1
          have hw := (h.window i hi (hk ▸ ht)).1
          rw [hk, kernelPageTable_eq hi] at hw
          unfold kernelHeapAddress at hle
          omega

end PagingInv

theorem PageDirectory.set_set (directory : PageDirectory) (i t x t' x' : ℕ) :
    (directory.set i t x).set i t' x' = directory.set i t' x' := by
  unfold PageDirectory.set
  rw [Function.update_idem, Function.update_idem]

/-- Every process has a directory, and that has the table. -/
theorem linkKernelTable_eq {q : List Process} :
    ∀ {p p' : Paging}, linkKernelTable t i x q p = .ok p' →
      (∀ r ∈ q, r.pageDirectory ≠ none) ∧
      p' = { p with directories := fun d =>
        if (some d) ∈ q.map Process.pageDirectory then (p.directories d).set i t x
        else p.directories d } := by
  induction q with
  | nil =>
    intro p p' hrun
    obtain rfl := Except.ok.inj hrun
    exact ⟨fun r hr => absurd hr List.not_mem_nil, rfl⟩
  | cons r q ih =>
    intro p p' hrun
    unfold linkKernelTable at hrun
    cases hr : r.pageDirectory with
    | none =>
      rw [hr] at hrun
      cases hrun
    | some d =>
      rw [hr] at hrun
      obtain ⟨hall, rfl⟩ := ih hrun
      refine ⟨?_, ?_⟩
      · intro r' hr'
        rcases List.mem_cons.mp hr' with rfl | hr'
        · rw [hr]
          exact Option.some_ne_none d
        · exact hall r' hr'
      · unfold Paging.setDirectoryEntry
        congr 1
        funext d'
        have hmem : some d' ∈ (r :: q).map Process.pageDirectory ↔
            d' = d ∨ some d' ∈ q.map Process.pageDirectory := by
          rw [List.map_cons, List.mem_cons, hr, Option.some.injEq]
        simp only [hmem]
        by_cases hd : d' = d
        · subst hd
          rw [Function.update_self, PageDirectory.set_set, ite_self, if_pos (.inl rfl)]
        · rw [Function.update_of_ne hd]
          simp only [hd, false_or]

end

end RawOS
