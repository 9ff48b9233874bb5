import Mathlib.Data.Finset.Card
import RawOS.PagingInv

/-!
# Tables of the kernel

`pagingCreateKernelPage_spec`: where the tables of the kernel stand in the window, a page of the
kernel gets a frame, and a table that is missing gets one for its page in the window.
-/

namespace RawOS

/-- The directory of the kernel, or that of a process in the ring. -/
def Active (p : Paging) (d : ℕ) : Prop :=
  d = p.kernelPageDirectory ∨ some d ∈ p.processes.map Process.pageDirectory

/-- Entry `i` of the directory is that of the kernel. -/
structure LinksKernel (p : Paging) (d i : ℕ) : Prop where
  tables : (p.directories d).tables i = p.kernel.tables i
  x86 : (p.directories d).tablesX86Representation i = p.kernel.tablesX86Representation i

/-- The number of clear frames. -/
def Bitmap.room (b : Bitmap) : ℕ := ((Finset.range availableFramesNum).filter fun k => ¬ b.Has k).card

/-- The kernel does not have the page `n`. -/
def NoPage (p : Paging) (n : ℕ) : Prop := ∀ f, ¬ KernelPage p n f

/-- The tables of the kernel stand in the window, and those of the window are there. -/
structure KernelTables (p : Paging) : Prop where
  low : ∀ i < 2, p.kernel.tables i ≠ 0
  window : ∀ i < 1024, p.kernel.tables i ≠ 0 → p.kernel.tables i = kernelPageTable i

/-- The entry of the page `n` of the kernel was absent, and got the clear frame `f`. -/
structure EntryAdded (n f : ℕ) (b : Bitmap) (p p' : Paging) : Prop where
  claimed : Claimed p.availableFrames b f
  absent : (p.tables (p.kernel.tables (n / 1024)) (n % 1024)).present = false
  eq : p' = { p with availableFrames := b }.setEntry (p.kernel.tables (n / 1024)) (n % 1024)
    (newPageEntry 0 f (p.tables (p.kernel.tables (n / 1024)) (n % 1024)))

/-- The kernel got the page `n` with the frame `f`, and no other. -/
structure PageGained (n f : ℕ) (p p' : Paging) : Prop where
  kernel : p'.kernel = p.kernel
  pages : ∀ k < 0x100000, ∀ g, KernelPage p' k g ↔ KernelPage p k g ∨ k = n ∧ g = f

/-- The table `i` is new, and `f` the frame of its page in the window. -/
structure TableAdded (i f : ℕ) (b : Bitmap) (p p' : Paging) : Prop where
  kernel : p'.kernelPageDirectory = p.kernelPageDirectory
  processes : p'.processes = p.processes
  bits : p'.availableFrames = b
  table : p'.kernel.tables i = kernelPageTable i
  zero : p'.tables (kernelPageTable i) = PageTable.zero
  stays : ∀ j, j ≠ i → p'.kernel.tables j = p.kernel.tables j
  pages : ∀ k < 0x100000, ∀ g, KernelPage p' k g ↔
    KernelPage p k g ∨ k = kernelPageTable i / 4096 ∧ g = f

section

variable {b b' : Bitmap} {p p' q : Paging} {n f t u i : ℕ} {m m' : Mem}

/-! ## Frames -/

theorem Claimed.room (h : Claimed b b' f) : b.room = b'.room + 1 := by
  have hlt := h.lt
  unfold Bitmap.room
  generalize availableFramesNum = frames at hlt ⊢
  have hnot : f ∉ (Finset.range frames).filter fun k => ¬ b'.Has k := by
    rw [Finset.mem_filter, not_and, not_not]
    exact fun _ => (h.has f).mpr (.inl rfl)
  have hset : ((Finset.range frames).filter fun k => ¬ b.Has k) =
      insert f ((Finset.range frames).filter fun k => ¬ b'.Has k) := by
    ext k
    rw [Finset.mem_insert, Finset.mem_filter, Finset.mem_filter, Finset.mem_range, h.has]
    constructor
    · rintro ⟨hk, hclear⟩
      by_cases hkf : k = f
      · exact .inl hkf
      · exact .inr ⟨hk, not_or.mpr ⟨hkf, hclear⟩⟩
    · rintro (rfl | ⟨hk, hclear⟩)
      · exact ⟨hlt, h.clear⟩
      · exact ⟨hk, fun hb => hclear (.inr hb)⟩
  rw [hset, Finset.card_insert_of_notMem hnot]

theorem Bitmap.room_eq_zero (h : ∀ k < availableFramesNum, b.Has k) : b.room = 0 := by
  refine Finset.card_eq_zero.mpr (Finset.filter_eq_empty_iff.mpr fun k hk hclear => ?_)
  exact hclear (h k (Finset.mem_range.mp hk))

/-- The page gets a clear frame, unless it exists or there is none. -/
theorem mapPage_spec (hsize : p.availableFrames.size = availableFramesNum / 8) :
    Ends (mapPage t n u p)
      (fun r => (p.tables t (n % 1024)).present = false ∧ ∃ b, Claimed p.availableFrames b r.1 ∧
        r.2 = { p with availableFrames := b }.setEntry t (n % 1024)
          (newPageEntry u r.1 (p.tables t (n % 1024))))
      (fun e => e = .assertFailed pageExistsMessage ∧ (p.tables t (n % 1024)).present = true ∨
        e = .panic "Bitmap full!" ∧ p.availableFrames.room = 0) := by
  unfold mapPage
  dsimp only
  by_cases hnew : (p.tables t (n % 1024)).present = false
  · rw [assert_of_true hnew, ok_bind]
    refine (allocFrame_spec hsize).map ?_ fun e he => .inr ⟨he.1, Bitmap.room_eq_zero he.2⟩
    rintro ⟨f, p₁⟩ ⟨b, hb, hp₁⟩
    dsimp only at hb hp₁ ⊢
    subst hp₁
    exact ⟨hnew, b, hb, rfl⟩
  · rw [assert, if_neg hnew]
    exact .inl ⟨rfl, Bool.eq_true_of_not_eq_false hnew⟩

theorem mapPage_ok (hsize : p.availableFrames.size = availableFramesNum / 8)
    (hrun : mapPage t n u p = .ok (f, p')) :
    (p.tables t (n % 1024)).present = false ∧ ∃ b, Claimed p.availableFrames b f ∧
      p' = { p with availableFrames := b }.setEntry t (n % 1024)
        (newPageEntry u f (p.tables t (n % 1024))) :=
  (mapPage_spec hsize).of_ok hrun

theorem newPageEntry_frame (hf : f < availableFramesNum) (e : PageEntry) :
    (newPageEntry u f e).frameAddress20Bits = f := by
  unfold availableFramesNum physicalRamSize at hf
  exact Nat.mod_eq_of_lt (by omega)

/-! ## Links -/

/-- Every process of the ring has a directory, and there is one. -/
def RingAssigned (p : Paging) : Prop :=
  p.processes ≠ [] ∧ ∀ q ∈ p.processes, q.pageDirectory ≠ none

theorem linkKernelTable_go {x : ℕ} {q : List Process} (hq : ∀ r ∈ q, r.pageDirectory ≠ none) :
    ∃ p', linkKernelTable t i x q p = .ok p' := by
  induction q generalizing p with
  | nil => exact ⟨p, rfl⟩
  | cons r q ih =>
    obtain ⟨d, hd⟩ := Option.ne_none_iff_exists'.mp (hq r List.mem_cons_self)
    unfold linkKernelTable
    rw [hd]
    exact ih fun r' hr' => hq r' (List.mem_cons_of_mem r hr')

/-- Why a table cannot be linked. -/
def LinkFails (e : Panic) : Prop :=
  e = .assertFailed "Can't link kernel table to all address spaces: there is no active process." ∨
  e = .undefined "process_link_kernel_table_to_all_address_spaces: page directory not assigned"

theorem linkKernelTable_error {x : ℕ} {q : List Process} {e : Panic}
    (hrun : linkKernelTable t i x q p = .error e) : LinkFails e := by
  induction q generalizing p with
  | nil => cases hrun
  | cons r q ih =>
    unfold linkKernelTable at hrun
    cases hd : r.pageDirectory with
    | none =>
      rw [hd] at hrun
      cases hrun
      exact .inr rfl
    | some d =>
      rw [hd] at hrun
      exact ih hrun

/-- The links are made exactly in a ring whose processes have directories. -/
theorem processLink_spec {x : ℕ} : Ends (processLinkKernelTableToAllAddressSpaces t i x p)
    (fun p' => linkKernelTable t i x p.processes p = .ok p')
    (fun e => LinkFails e ∧ ¬ RingAssigned p) := by
  unfold processLinkKernelTableToAllAddressSpaces
  by_cases hring : p.processes ≠ []
  · rw [assert_of_true hring, ok_bind]
    cases hrun : linkKernelTable t i x p.processes p with
    | ok p' => rfl
    | error e =>
      refine ⟨linkKernelTable_error hrun, fun hq => ?_⟩
      obtain ⟨p', hrun'⟩ := @linkKernelTable_go p t i x p.processes hq.2
      rw [hrun] at hrun'
      cases hrun'
  · rw [assert, if_neg hring]
    exact ⟨.inl rfl, fun hq => hring hq.1⟩

theorem setDirectoryEntry_kernel_of_ne {d j x : ℕ} (h : j ≠ i) :
    (p.setDirectoryEntry d i t x).kernel.tables j = p.kernel.tables j :=
  Paging.setDirectoryEntry_tables_of_ne (.inr h)

theorem setDirectoryEntry_twice {d t' x x' : ℕ} :
    (p.setDirectoryEntry d i t x).setDirectoryEntry d i t' x' = p.setDirectoryEntry d i t' x' := by
  unfold Paging.setDirectoryEntry
  dsimp only
  rw [Function.update_self, Function.update_idem, PageDirectory.set_set]

/-- Entry `i` of the active directories, and of no other, became the table `t`. -/
structure EntryLinked (i t x : ℕ) (p p' : Paging) : Prop where
  kernel : p'.kernelPageDirectory = p.kernelPageDirectory
  changed : ∀ d, Active p d → p'.directories d = (p.directories d).set i t x
  same : ∀ d, ¬ Active p d → p'.directories d = p.directories d

namespace EntryLinked

variable {x d i' : ℕ} (h : EntryLinked i t x p p')
include h

theorem entry (hd : Active p d) : (p'.directories d).tables i = t ∧
    (p'.directories d).tablesX86Representation i = x := by
  rw [h.changed d hd]
  exact ⟨Function.update_self .., Function.update_self ..⟩

theorem stays (hne : i' ≠ i) : (p'.directories d).tables i' = (p.directories d).tables i' ∧
    (p'.directories d).tablesX86Representation i' =
      (p.directories d).tablesX86Representation i' := by
  by_cases hd : Active p d
  · rw [h.changed d hd]
    exact ⟨Function.update_of_ne hne .., Function.update_of_ne hne ..⟩
  · rw [h.same d hd]
    exact ⟨rfl, rfl⟩

theorem kernelEntry : p'.kernel.tables i = t ∧ p'.kernel.tablesX86Representation i = x := by
  unfold Paging.kernel
  rw [h.kernel]
  exact h.entry (.inl rfl)

theorem kernelStays (hne : i' ≠ i) : p'.kernel.tables i' = p.kernel.tables i' := by
  unfold Paging.kernel
  rw [h.kernel]
  exact (h.stays hne).1

theorem linksKernel (hd : Active p d) : LinksKernel p' d i := by
  obtain ⟨h₁, h₂⟩ := h.entry hd
  obtain ⟨h₃, h₄⟩ := h.kernelEntry
  exact ⟨h₁.trans h₃.symm, h₂.trans h₄.symm⟩

end EntryLinked

/-- The directory of the kernel gets the table, then those of the ring. -/
theorem linkKernelTable_linked {x : ℕ} (hlink : linkKernelTable t i x p.processes
      ((p.setDirectoryEntry p.kernelPageDirectory i t x).zeroTable t) = .ok p') :
    EntryLinked i t x p p' := by
  obtain ⟨-, rfl⟩ := linkKernelTable_eq hlink
  refine ⟨rfl, fun d hd => ?_, fun d hd => ?_⟩
  all_goals
    unfold Active at hd
    show ite _ _ _ = _
    rw [show (((p.setDirectoryEntry p.kernelPageDirectory i t x).zeroTable t).directories d) =
      (p.setDirectoryEntry p.kernelPageDirectory i t x).directories d from rfl]
  · by_cases hk : d = p.kernelPageDirectory
    · rw [hk, Paging.setDirectoryEntry_self]
      split_ifs
      · rw [PageDirectory.set_set]
      · rfl
    · rw [if_pos (hd.resolve_left hk), Paging.setDirectoryEntry_of_ne hk]
  · obtain ⟨hk, hring⟩ := not_or.mp hd
    rw [if_neg hring, Paging.setDirectoryEntry_of_ne hk]

/-! ## Pages -/

/-- The window is in the first two tables. -/
theorem window_table (hi : i < 1024) : kernelPageTable i / 4096 / 1024 < 2 := by
  rw [kernelPageTable_eq hi]
  omega

theorem NoPage.present (h : NoPage p n) (hk : p.kernel.tables (n / 1024) ≠ 0) :
    (p.tables (p.kernel.tables (n / 1024)) (n % 1024)).present = false := by
  rw [← Bool.not_eq_true]
  exact fun hp => h _ ⟨hk, hp, rfl⟩

/-- `pagingCreateKernelPageNested` where the table exists. -/
theorem pagingCreateKernelPageNested_eq {fuel : ℕ} (hk : p.kernel.tables (n / 1024) ≠ 0) :
    pagingCreateKernelPageNested (fuel + 1) n p m =
      mapPage (p.kernel.tables (n / 1024)) n 0 p >>= fun r =>
        .ok (r.1, r.2, store8 m (n * 0x1000) 0xAB) := by
  unfold pagingCreateKernelPageNested
  rw [if_neg hk]
  rfl

theorem pagingCreateKernelPageNested_mapped {fuel : ℕ} (hk : p.kernel.tables (n / 1024) ≠ 0)
    (hrun : pagingCreateKernelPageNested (fuel + 1) n p m = .ok (f, p', m')) :
    mapPage (p.kernel.tables (n / 1024)) n 0 p = .ok (f, p') ∧ m' = store8 m (n * 0x1000) 0xAB := by
  rw [pagingCreateKernelPageNested_eq hk] at hrun
  obtain ⟨⟨f', p₁⟩, hmap, hrun⟩ := bind_eq_ok.mp hrun
  cases hrun
  exact ⟨hmap, rfl⟩

/-- The table `i` at its place in the window, in the directory of the kernel. -/
def Paging.placeTable (q : Paging) (i x : ℕ) : Paging :=
  (q.setDirectoryEntry q.kernelPageDirectory i (kernelPageTable i) x).zeroTable (kernelPageTable i)

/-- Where the table exists only its page can be there already. -/
theorem mapKernelPage_spec (hk : p.kernel.tables (n / 1024) ≠ 0)
    (hsize : p.availableFrames.size = availableFramesNum / 8) :
    Ends (mapPage (p.kernel.tables (n / 1024)) n 0 p) (fun r => ∃ b, EntryAdded n r.1 b p r.2)
      (fun e => e = .assertFailed pageExistsMessage ∧ ¬ NoPage p n ∨
        e = .panic "Bitmap full!" ∧ p.availableFrames.room = 0) := by
  refine (mapPage_spec hsize).mono (fun r ⟨hnew, b, hb, hr⟩ => ⟨b, hb, hnew, hr⟩) fun e he => ?_
  refine he.imp_left fun ⟨heq, hpres⟩ => ⟨heq, fun hno => ?_⟩
  rw [hno.present hk] at hpres
  exact Bool.noConfusion hpres

/-- The recursive call for the page of the table `i`, whose entry `x` is not that of the page yet.
-/
theorem createWindowPage_spec {fuel x : ℕ} (h : KernelTables p) (hi : i < 1024)
    (hnone : p.kernel.tables i = 0) (hsize : p.availableFrames.size = availableFramesNum / 8) :
    Ends (pagingCreateKernelPageNested (fuel + 1) (kernelPageTable i / 0x1000)
        (p.setDirectoryEntry p.kernelPageDirectory i (kernelPageTable i) x) m)
      (fun r => ∃ b q, EntryAdded (kernelPageTable i / 4096) r.1 b p q ∧
        r.2.1 = q.setDirectoryEntry q.kernelPageDirectory i (kernelPageTable i) x ∧
        r.2.2 = store8 m (kernelPageTable i) 0xAB)
      (fun e => e = .assertFailed pageExistsMessage ∧ ¬ NoPage p (kernelPageTable i / 4096) ∨
        e = .panic "Bitmap full!" ∧ p.availableFrames.room = 0) := by
  obtain ⟨w, hw⟩ : ∃ w, w = kernelPageTable i / 4096 := ⟨_, rfl⟩
  rw [← hw]
  have hwlow : w / 1024 < 2 := hw ▸ window_table hi
  have hwi : w / 1024 ≠ i := fun heq => h.low _ hwlow (heq ▸ hnone)
  have hwx : w * 0x1000 = kernelPageTable i := by
    rw [hw, kernelPageTable_eq hi]
    omega
  obtain ⟨p₁, hp₁⟩ : ∃ p₁, p₁ = p.setDirectoryEntry p.kernelPageDirectory i (kernelPageTable i) x :=
    ⟨_, rfl⟩
  have hk₁ : p₁.kernel.tables (w / 1024) = p.kernel.tables (w / 1024) := by
    rw [hp₁, setDirectoryEntry_kernel_of_ne hwi]
  have htab₁ : p₁.tables = p.tables := by rw [hp₁]; rfl
  have hbits₁ : p₁.availableFrames = p.availableFrames := by rw [hp₁]; rfl
  have hmap := mapKernelPage_spec (hk₁ ▸ h.low _ hwlow) (hbits₁ ▸ hsize)
  rw [← hp₁, pagingCreateKernelPageNested_eq (hk₁ ▸ h.low _ hwlow), hwx]
  refine hmap.map (fun ⟨f, p₂⟩ ⟨b, hb, hnew, hp₂⟩ => ?_) fun e he => ?_
  · dsimp only at hb hnew hp₂ ⊢
    rw [hbits₁] at hb
    rw [hk₁, htab₁] at hnew
    refine ⟨b, _, ⟨hb, hnew, rfl⟩, ?_, rfl⟩
    rw [hp₂, hk₁, hp₁]
    rfl
  · rw [hbits₁] at he
    refine he.imp_left fun ⟨heq, hpage⟩ => ⟨heq, fun hno => hpage fun f hf => hno f ?_⟩
    exact hf.congr hk₁.symm (by rw [htab₁])

/-- The page of the table, the table, and its links. -/
theorem createKernelTable_spec {fuel : ℕ} (h : KernelTables p) (hi : i < 1024)
    (hnone : p.kernel.tables i = 0) (hsize : p.availableFrames.size = availableFramesNum / 8) :
    Ends (createKernelTable (pagingCreateKernelPageNested (fuel + 1)) i p m)
      (fun r => ∃ f b q, EntryAdded (kernelPageTable i / 4096) f b p q ∧
        linkKernelTable (kernelPageTable i) i (u32 (f * 0x1000) ||| 0x7) p.processes
          (q.placeTable i (u32 (f * 0x1000) ||| 0x7)) = .ok r.1 ∧
        r.2 = store8 m (kernelPageTable i) 0xAB)
      (fun e => e = .assertFailed pageExistsMessage ∧ ¬ NoPage p (kernelPageTable i / 4096) ∨
        e = .panic "Bitmap full!" ∧ p.availableFrames.room = 0 ∨
        LinkFails e ∧ ¬ RingAssigned p) := by
  unfold createKernelTable
  dsimp only
  refine ((createWindowPage_spec h hi hnone hsize).mono (fun _ hr => hr) fun e he =>
    he.imp_right .inl).bind ?_
  rintro ⟨f, p₂, m₂⟩ ⟨b, q, hentry, hp₂, hm₂⟩
  dsimp only at hentry hp₂ hm₂ ⊢
  have hk₂ : p₂.kernel.tables i = kernelPageTable i := by
    rw [hp₂]
    exact Paging.setDirectoryEntry_tables_self
  have hkq : q.kernelPageDirectory = p.kernelPageDirectory := by rw [hentry.eq]; rfl
  have hring : ((q.setDirectoryEntry q.kernelPageDirectory i (kernelPageTable i)
      (u32 (f * 0x1000) ||| 0x7)).zeroTable (kernelPageTable i)).processes = p.processes := by
    rw [hentry.eq]
    rfl
  have hself : (q.setDirectoryEntry q.kernelPageDirectory i (kernelPageTable i)
      (u32 (f * 0x1000) ||| 0x7)).kernel.tables i = kernelPageTable i :=
    Paging.setDirectoryEntry_tables_self
  rw [hk₂, hp₂, ← hkq, setDirectoryEntry_twice, hself]
  refine processLink_spec.map (fun p' hlink => ?_) fun e he => ?_
  · rw [hring] at hlink
    exact ⟨f, b, q, hentry, hlink, hm₂⟩
  · refine .inr (.inr ⟨he.1, fun hq => he.2 ?_⟩)
    unfold RingAssigned at hq ⊢
    rw [hring]
    exact hq

/-! ## What the kernel has -/

theorem KernelTables.inj (h : KernelTables p) {j : ℕ} (hi : i < 1024) (hj : j < 1024)
    (hne : p.kernel.tables i ≠ 0) (heq : p.kernel.tables i = p.kernel.tables j) : i = j := by
  have hj' := h.window j hj (heq ▸ hne)
  rw [h.window i hi hne, hj', kernelPageTable_eq hi, kernelPageTable_eq hj] at heq
  omega

theorem EntryAdded.pageGained (h : EntryAdded n f b p q) (ht : KernelTables p) (hn : n < 0x100000)
    (hk : p.kernel.tables (n / 1024) ≠ 0) : PageGained n f p q := by
  have hkernel : q.kernel = p.kernel := by rw [h.eq]; rfl
  refine ⟨hkernel, fun k hkn g => ?_⟩
  by_cases hkk : k = n
  · subst hkk
    have hentry : q.tables (q.kernel.tables (k / 1024)) (k % 1024) =
        newPageEntry 0 f (p.tables (p.kernel.tables (k / 1024)) (k % 1024)) := by
      rw [hkernel, h.eq]
      exact Paging.setEntry_self
    have hframe := newPageEntry_frame (u := 0) h.claimed.lt
      (p.tables (p.kernel.tables (k / 1024)) (k % 1024))
    constructor
    · intro hg
      refine .inr ⟨rfl, ?_⟩
      rw [← hg.maps.frame, hentry, hframe]
    · rintro (hg | ⟨-, rfl⟩)
      · have hpres := hg.maps.present
        rw [h.absent] at hpres
        exact Bool.noConfusion hpres
      · refine ⟨hkernel ▸ hk, ?_, ?_⟩
        · rw [hentry]
          rfl
        · rw [hentry, hframe]
  · have hsame : p.kernel.tables (k / 1024) ≠ 0 →
        q.tables (p.kernel.tables (k / 1024)) (k % 1024) =
          p.tables (p.kernel.tables (k / 1024)) (k % 1024) := by
      intro hne
      rw [h.eq]
      refine Paging.setEntry_of_ne ?_
      by_contra hboth
      have hidx := ht.inj (show k / 1024 < 1024 by omega) (show n / 1024 < 1024 by omega) hne (by omega)
      omega
    constructor
    · intro hg
      have hne : p.kernel.tables (k / 1024) ≠ 0 := hkernel ▸ hg.table
      refine .inl (hg.congr (by rw [hkernel]) ?_)
      rw [hkernel]
      exact (hsame hne).symm
    · rintro (hg | ⟨heq, -⟩)
      · exact hg.congr (by rw [hkernel]) (hsame hg.table)
      · exact absurd heq hkk

/-- The page of the table, then the empty table and its links. -/
theorem EntryAdded.tableAdded {x : ℕ} (h : EntryAdded (kernelPageTable i / 4096) f b p q)
    (ht : KernelTables p) (hi : i < 1024) (hnone : p.kernel.tables i = 0)
    (hlink : linkKernelTable (kernelPageTable i) i x p.processes (q.placeTable i x) = .ok p') :
    TableAdded i f b p p' := by
  have hlow := window_table hi
  have haddr := kernelPageTable_eq hi
  have hmapped := h.pageGained ht (by omega) (ht.low _ hlow)
  have hring : q.processes = p.processes := by rw [h.eq]; rfl
  have hbits : q.availableFrames = b := by rw [h.eq]; rfl
  have hdir : q.kernelPageDirectory = p.kernelPageDirectory := by rw [h.eq]; rfl
  have hl : EntryLinked i (kernelPageTable i) x q p' := linkKernelTable_linked (hring ▸ hlink)
  obtain ⟨-, hp'⟩ := linkKernelTable_eq hlink
  have htable : p'.tables = (q.placeTable i x).tables := by rw [hp']
  have hstays : ∀ j, j ≠ i → p'.kernel.tables j = p.kernel.tables j := fun j hj => by
    rw [hl.kernelStays hj, hmapped.kernel]
  have hzero : p'.tables (kernelPageTable i) = PageTable.zero := by
    rw [htable]
    exact Function.update_self ..
  refine ⟨hl.kernel.trans hdir, ?_, ?_, hl.kernelEntry.1, hzero, hstays, fun k hk g => ?_⟩
  · rw [hp']
    exact hring
  · rw [hp']
    exact hbits
  · rw [← hmapped.pages k hk g]
    by_cases hki : k / 1024 = i
    · -- the new table is empty
      constructor
      · intro hg
        have hpres := hg.maps.present
        rw [hki, hl.kernelEntry.1, hzero] at hpres
        exact Bool.noConfusion hpres
      · intro hg
        exact absurd (hki ▸ hmapped.kernel ▸ hnone) hg.table
    · have hkk : p'.kernel.tables (k / 1024) = q.kernel.tables (k / 1024) := hl.kernelStays hki
      have hsame : q.kernel.tables (k / 1024) ≠ 0 → p'.tables (q.kernel.tables (k / 1024)) =
          q.tables (q.kernel.tables (k / 1024)) := by
        intro hne
        rw [htable]
        refine Paging.zeroTable_of_ne ?_
        rw [hmapped.kernel] at hne ⊢
        rw [ht.window _ (by omega) hne, kernelPageTable_eq (by omega), haddr]
        omega
      constructor
      · intro hg
        refine hg.congr hkk.symm ?_
        rw [hkk, hsame (hkk ▸ hg.table)]
      · intro hg
        exact hg.congr hkk (by rw [hsame hg.table])

/-- `createKernelTable_spec`, by what the kernel has then. -/
theorem createKernelTable_added {fuel : ℕ} (h : KernelTables p) (hi : i < 1024)
    (hnone : p.kernel.tables i = 0) (hsize : p.availableFrames.size = availableFramesNum / 8) :
    Ends (createKernelTable (pagingCreateKernelPageNested (fuel + 1)) i p m)
      (fun r => ∃ f b, Claimed p.availableFrames b f ∧ TableAdded i f b p r.1)
      (fun e => e = .assertFailed pageExistsMessage ∧ ¬ NoPage p (kernelPageTable i / 4096) ∨
        e = .panic "Bitmap full!" ∧ p.availableFrames.room = 0 ∨
        LinkFails e ∧ ¬ RingAssigned p) := by
  refine (createKernelTable_spec h hi hnone hsize).mono ?_ fun e he => he
  rintro ⟨p', m'⟩ ⟨f, b, q, hentry, hlink, -⟩
  exact ⟨f, b, hentry.claimed, hentry.tableAdded h hi hnone hlink⟩

/-- One table more. -/
theorem KernelTables.added (h : KernelTables p) (hi : i < 1024)
    (htable : p'.kernel.tables i = kernelPageTable i)
    (hstays : ∀ j, j ≠ i → p'.kernel.tables j = p.kernel.tables j) : KernelTables p' := by
  have hne : kernelPageTable i ≠ 0 := by
    rw [kernelPageTable_eq hi]
    omega
  constructor
  · intro j hj
    by_cases hji : j = i
    · rw [hji, htable]
      exact hne
    · rw [hstays j hji]
      exact h.low j hj
  · intro j hj hset
    by_cases hji : j = i
    · rw [hji, htable]
    · rw [hstays j hji] at hset ⊢
      exact h.window j hj hset

/-- The frames that the page `n` needs. -/
def framesNeeded (p : Paging) (n : ℕ) : ℕ := if p.kernel.tables (n / 1024) = 0 then 2 else 1

/-- The page `n` is new, with the frame `f`, and its table if that was missing. -/
structure PageCreated (n f : ℕ) (p p' : Paging) : Prop where
  fresh : NoPage p n
  page : KernelPage p' n f
  claimed : ¬ p.availableFrames.Has f ∧ p'.availableFrames.Has f
  size : p'.availableFrames.size = p.availableFrames.size
  room : p.availableFrames.room = p'.availableFrames.room + framesNeeded p n
  processes : p'.processes = p.processes
  table : p'.kernel.tables (n / 1024) = kernelPageTable (n / 1024)
  stays : ∀ i, i ≠ n / 1024 → p'.kernel.tables i = p.kernel.tables i
  kept : ∀ k < 0x100000, ∀ g, KernelPage p k g → KernelPage p' k g
  window : p.kernel.tables (n / 1024) = 0 →
    ∃ g, KernelPage p' (kernelPageTable (n / 1024) / 4096) g
  pages : ∀ k < 0x100000, ∀ g, KernelPage p' k g → KernelPage p k g ∨ k = n ∨
    p.kernel.tables (n / 1024) = 0 ∧ k = kernelPageTable (n / 1024) / 4096

/-- Why the page `n` cannot be created. -/
def CreateFails (p : Paging) (n : ℕ) (e : Panic) : Prop :=
  e = .assertFailed pageExistsMessage ∧ (¬ NoPage p n ∨
    p.kernel.tables (n / 1024) = 0 ∧ ¬ NoPage p (kernelPageTable (n / 1024) / 4096)) ∨
  e = .panic "Bitmap full!" ∧ p.availableFrames.room < framesNeeded p n ∨
  LinkFails e ∧ p.kernel.tables (n / 1024) = 0 ∧ ¬ RingAssigned p

/-- The page of a table that exists. -/
theorem EntryAdded.pageCreated (h : EntryAdded n f b p q) (ht : KernelTables p) (hn : n < 0x100000)
    (hk : p.kernel.tables (n / 1024) ≠ 0) : PageCreated n f p q := by
  have hmapped := h.pageGained ht hn hk
  have hbits : q.availableFrames = b := by rw [h.eq]; rfl
  refine ⟨fun g hg => ?_, (hmapped.pages n hn f).mpr (.inr ⟨rfl, rfl⟩), ⟨h.claimed.clear, ?_⟩,
    by rw [hbits, h.claimed.size], ?_, by rw [h.eq]; rfl, ?_, fun i _ => by rw [hmapped.kernel],
    fun k hkn g hg => (hmapped.pages k hkn g).mpr (.inl hg), fun hnone => absurd hnone hk,
    fun k hkn g hg => ?_⟩
  · have hpres := hg.maps.present
    rw [h.absent] at hpres
    exact Bool.noConfusion hpres
  · rw [hbits, h.claimed.has]
    exact .inl rfl
  · unfold framesNeeded
    rw [if_neg hk, hbits]
    exact h.claimed.room
  · rw [hmapped.kernel]
    exact ht.window _ (by omega) hk
  · exact ((hmapped.pages k hkn g).mp hg).imp_right fun hnew => .inl hnew.1

/-- The page of a new table. -/
theorem TableAdded.pageCreated {f' : ℕ} (h : TableAdded (n / 1024) f' b p p') (hn : n < 0x100000)
    (hnone : p.kernel.tables (n / 1024) = 0) (hb : Claimed p.availableFrames b f')
    (hc : PageCreated n f p' q) : PageCreated n f p q := by
  have hk : p'.kernel.tables (n / 1024) ≠ 0 := by
    rw [h.table, kernelPageTable_eq (by omega)]
    omega
  refine ⟨fun g hg => hg.table hnone, hc.page, ⟨fun hf => ?_, hc.claimed.2⟩, ?_, ?_,
    hc.processes.trans h.processes, hc.table, fun i hi => (hc.stays i hi).trans (h.stays i hi),
    fun k hkn g hg => hc.kept k hkn g ((h.pages k hkn g).mpr (.inl hg)), fun _ => ⟨f', ?_⟩,
    fun k hkn g hg => ?_⟩
  · refine hc.claimed.1 ?_
    rw [h.bits, hb.has]
    exact .inr hf
  · rw [hc.size, h.bits, hb.size]
  · have hroom := hc.room
    unfold framesNeeded at hroom ⊢
    rw [if_neg hk, h.bits] at hroom
    rw [if_pos hnone, hb.room, hroom]
  · have hw := window_table (show n / 1024 < 1024 by omega)
    exact hc.kept _ (by omega) f' ((h.pages _ (by omega) f').mpr (.inr ⟨rfl, rfl⟩))
  · rcases hc.pages k hkn g hg with hg | heq | ⟨hne, -⟩
    · exact ((h.pages k hkn g).mp hg).imp_right fun hnew => .inr ⟨hnone, hnew.1⟩
    · exact .inr (.inl heq)
    · exact absurd hne hk

/-- The calls nest twice at most. -/
theorem pagingCreateKernelPage_spec {fuel : ℕ} (h : KernelTables p) (hn : n < 0x100000)
    (hsize : p.availableFrames.size = availableFramesNum / 8) :
    Ends (pagingCreateKernelPageNested (fuel + 2) n p m) (fun r => PageCreated n r.1 p r.2.1)
      (CreateFails p n) := by
  by_cases hk : p.kernel.tables (n / 1024) = 0
  · unfold pagingCreateKernelPageNested
    rw [if_pos hk]
    refine ((createKernelTable_added h (by omega) hk hsize).mono (fun _ hr => hr) fun e he => ?_).bind
      ?_
    · rcases he with ⟨heq, hpage⟩ | ⟨heq, hroom⟩ | ⟨hlink, hring⟩
      · exact .inl ⟨heq, .inr ⟨hk, hpage⟩⟩
      · refine .inr (.inl ⟨heq, ?_⟩)
        unfold framesNeeded
        rw [if_pos hk, hroom]
        decide
      · exact .inr (.inr ⟨hlink, hk, hring⟩)
    · rintro ⟨p₁, m₁⟩ ⟨f', b, hb, hadded⟩
      dsimp only at hadded ⊢
      have ht₁ := h.added (by omega) hadded.table hadded.stays
      have hk₁ : p₁.kernel.tables (n / 1024) ≠ 0 := by
        rw [hadded.table, kernelPageTable_eq (by omega)]
        omega
      have hsize₁ : p₁.availableFrames.size = availableFramesNum / 8 := by
        rw [hadded.bits, hb.size, hsize]
      refine (mapKernelPage_spec hk₁ hsize₁).map (fun ⟨f, p₂⟩ ⟨b', hentry⟩ => ?_) fun e he => ?_
      · exact hadded.pageCreated hn hk hb (hentry.pageCreated ht₁ hn hk₁)
      · rcases he with ⟨heq, hpage⟩ | ⟨heq, hroom⟩
        · -- the new table is empty
          refine absurd (fun g hg => ?_) hpage
          have hpres := hg.maps.present
          rw [hadded.table, hadded.zero] at hpres
          exact Bool.noConfusion hpres
        · refine .inr (.inl ⟨heq, ?_⟩)
          unfold framesNeeded
          rw [if_pos hk, hb.room, ← hadded.bits, hroom]
          decide
  · rw [pagingCreateKernelPageNested_eq hk]
    refine (mapKernelPage_spec hk hsize).map (fun ⟨f, p₁⟩ ⟨b, hentry⟩ => hentry.pageCreated h hn hk)
      fun e he => ?_
    rcases he with ⟨heq, hpage⟩ | ⟨heq, hroom⟩
    · exact .inl ⟨heq, .inl hpage⟩
    · refine .inr (.inl ⟨heq, ?_⟩)
      unfold framesNeeded
      rw [if_neg hk, hroom]
      decide

/-- The recursive call needs no other. -/
theorem pagingCreateKernelPageNested_stable {fuel : ℕ} (h : KernelTables p) (hn : n < 0x100000) :
    pagingCreateKernelPageNested (fuel + 2) n p m = pagingCreateKernelPageNested 2 n p m := by
  by_cases hk : p.kernel.tables (n / 1024) = 0
  · obtain ⟨i, hi⟩ : ∃ i, i = n / 1024 := ⟨_, rfl⟩
    rw [← hi] at hk
    have hlow := h.low _ (window_table (show i < 1024 by omega))
    have hwi : kernelPageTable i / 4096 / 1024 ≠ i := fun heq => hlow (heq.symm ▸ hk)
    have hset : (p.setDirectoryEntry p.kernelPageDirectory i (kernelPageTable i)
        (p.kernel.tablesX86Representation i)).kernel.tables (kernelPageTable i / 4096 / 1024) ≠ 0 := by
      rw [setDirectoryEntry_kernel_of_ne hwi]
      exact hlow
    have hcreate : createKernelTable (pagingCreateKernelPageNested (fuel + 1)) i p m =
        createKernelTable (pagingCreateKernelPageNested 1) i p m := by
      unfold createKernelTable
      dsimp only
      rw [pagingCreateKernelPageNested_eq hset, pagingCreateKernelPageNested_eq hset]
    unfold pagingCreateKernelPageNested
    rw [← hi, if_pos hk, if_pos hk, hcreate]
  · rw [pagingCreateKernelPageNested_eq hk, pagingCreateKernelPageNested_eq hk]

end

end RawOS
