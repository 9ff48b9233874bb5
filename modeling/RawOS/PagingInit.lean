import RawOS.KernelInv

/-!
# What `paging_init` leaves

The tables of the kernel stand in the window, and its pages are identity mapped: `Identity`.
`pagingInit_spec` says that `paging_init` ends for an image that lies below the window, and what it
leaves is in order.
-/

namespace RawOS

/-- A page that `create_pre_paging_mapping` creates. -/
def identityEntry (n : ℕ) : PageEntry :=
  { PageEntry.zero with present := true, writable := true, frameAddress20Bits := n }

/-- The page `n` is mapped. -/
def Mapped (p : Paging) (n : ℕ) : Prop :=
  p.kernel.tables (n / 1024) ≠ 0 ∧ (p.tables (kernelPageTable (n / 1024)) (n % 1024)).present = true

/-- The tables of the directory `k` are in the window, and the pages are those of their numbers. -/
structure Identity (k : ℕ) (p : Paging) : Prop where
  directory : p.kernelPageDirectory = k
  size : p.availableFrames.size = availableFramesNum / 8
  tables : ∀ i < 1024, p.kernel.tables i = 0 ∧ p.kernel.tablesX86Representation i = 0 ∨
    p.kernel.tables i = kernelPageTable i ∧
      p.kernel.tablesX86Representation i = kernelPageTable i ||| 0x7
  pages : ∀ n < 0x100000, Mapped p n →
    p.tables (kernelPageTable (n / 1024)) (n % 1024) = identityEntry n ∧ p.availableFrames.Has n

/-- The page `n` was mapped, and perhaps the table `t` is new. -/
structure MappedTo (k n t : ℕ) (p p' : Paging) : Prop where
  inv : Identity k p'
  page : Mapped p' n
  pages : ∀ m < 0x100000, Mapped p m → Mapped p' m
  new : ∀ m < 0x100000, Mapped p' m → Mapped p m ∨ m = n ∨ m = 0x100 + t
  tables : ∀ i < 1024, p.kernel.tables i ≠ 0 → p'.kernel.tables i ≠ 0
  window : ∀ i < 1024, p'.kernel.tables i ≠ 0 →
    p.kernel.tables i ≠ 0 ∨ i = t ∧ Mapped p' (0x100 + i)
  has : ∀ f, p'.availableFrames.Has f → p.availableFrames.Has f ∨ f = n ∨ f = 0x100 + t
  processes : p'.processes = p.processes
  frames : p'.frames = p.frames

section

variable {k n t i fuel final : ℕ} {p p' : Paging}

theorem Identity.kernel_tables (h : Identity k p) (hi : i < 1024) (hne : p.kernel.tables i ≠ 0) :
    p.kernel.tables i = kernelPageTable i := by
  rcases h.tables i hi with h | h
  · exact absurd h.1 hne
  · exact h.1

/-- The page `n` where the table exists. -/
theorem createPrePagingMapping_mapped (h : Identity k p) (hn : n < 0x100000)
    (ht : p.kernel.tables (n / 1024) ≠ 0) :
    ∃ p', createPrePagingMapping (fuel + 1) p n n = .ok p' ∧ MappedTo k n t p p' ∧
      p'.kernel = p.kernel := by
  have hguard : bitmapGuard p.availableFrames n := by
    unfold bitmapGuard
    rw [h.size]
    have hsize : u32 (availableFramesNum / 8 * 8) = 0xC0000 := rfl
    rw [hsize]
    omega
  obtain ⟨b, hb⟩ : ∃ b, bitmapSet p.availableFrames n = .ok b := ⟨_, bitmapSet_eq_ok.mpr ⟨hguard, rfl⟩⟩
  have htable := h.kernel_tables (by omega) ht
  obtain ⟨p', hp'⟩ : ∃ p', p' = { p with availableFrames := b }.setEntry
      (p.kernel.tables (n / 1024)) (n % 1024) (identityEntry n) := ⟨_, rfl⟩
  have hrun : createPrePagingMapping (fuel + 1) p n n = .ok p' := by
    unfold createPrePagingMapping
    dsimp only
    rw [if_neg ht, ok_bind, hb, ok_bind, hp', Nat.mod_eq_of_lt (show n < 0x100000 from hn)]
    rfl
  have hk : p'.kernel = p.kernel := by
    rw [hp']
    rfl
  have hbits : p'.availableFrames = b := by
    rw [hp']
    rfl
  have hself : p'.tables (kernelPageTable (n / 1024)) (n % 1024) = identityEntry n := by
    rw [hp', htable]
    exact Paging.setEntry_self
  have hother : ∀ m < 0x100000, m ≠ n → p'.tables (kernelPageTable (m / 1024)) (m % 1024) =
      p.tables (kernelPageTable (m / 1024)) (m % 1024) := by
    intro m hm hne
    rw [hp', htable]
    refine Paging.setEntry_of_ne ?_
    rw [kernelPageTable_eq (by omega), kernelPageTable_eq (by omega)]
    omega
  have hmapped : ∀ m < 0x100000, Mapped p' m ↔ m = n ∨ Mapped p m := by
    intro m hm
    unfold Mapped
    rw [hk]
    by_cases hmn : m = n
    · subst hmn
      rw [hself]
      exact ⟨fun _ => .inl rfl, fun _ => ⟨ht, rfl⟩⟩
    · rw [hother m hm hmn]
      exact ⟨.inr, fun h => h.resolve_left hmn⟩
  refine ⟨p', hrun, ⟨⟨?_, ?_, ?_, ?_⟩, (hmapped n hn).mpr (.inl rfl),
    fun m hm h => (hmapped m hm).mpr (.inr h), fun m hm h => ?_, fun i _ => ?_, fun i _ hne => ?_,
    fun f => ?_, ?_, ?_⟩, hk⟩
  · rw [hp']
    exact h.directory
  · rw [hbits, bitmapSet_size hb]
    exact h.size
  · rw [hk]
    exact h.tables
  · intro m hm hpage
    rw [hbits, has_bitmapSet hb]
    by_cases hmn : m = n
    · subst hmn
      exact ⟨hself, .inl rfl⟩
    · obtain ⟨h₁, h₂⟩ := h.pages m hm (((hmapped m hm).mp hpage).resolve_left hmn)
      exact ⟨(hother m hm hmn).trans h₁, .inr h₂⟩
  · rcases (hmapped m hm).mp h with h | h
    · exact .inr (.inl h)
    · exact .inl h
  · rw [hk]
    exact id
  · exact .inl (hk ▸ hne)
  · rw [hbits, has_bitmapSet hb]
    rintro (h | h)
    · exact .inr (.inl h)
    · exact .inl h
  · rw [hp']
    rfl
  · rw [hp']
    rfl

/-- A table whose page is in a table that exists by then. -/
theorem createPrePagingPageTable_spec (h : Identity k p) (hi : i < 1024)
    (hnone : p.kernel.tables i = 0) (hlow : i = 0 ∨ p.kernel.tables ((0x100 + i) / 1024) ≠ 0) :
    ∃ p', createPrePagingPageTable (createPrePagingMapping (fuel + 1)) p i = .ok p' ∧
      MappedTo k (0x100 + i) i p p' ∧ p'.kernel.tables i ≠ 0 := by
  have haddr := kernelPageTable_eq hi
  obtain ⟨a, ha⟩ : ∃ a, a = kernelPageTable i := ⟨_, rfl⟩
  obtain ⟨p₁, hp₁⟩ : ∃ p₁,
      p₁ = (p.setDirectoryEntry p.kernelPageDirectory i a (a ||| 0x7)).zeroTable a :=
    ⟨_, rfl⟩
  have hself : p₁.kernel.tables i = a ∧ p₁.kernel.tablesX86Representation i = a ||| 0x7 := by
    rw [hp₁]
    exact ⟨Paging.setDirectoryEntry_tables_self, Paging.setDirectoryEntry_x86_self⟩
  have hother : ∀ i', i' ≠ i → p₁.kernel.tables i' = p.kernel.tables i' ∧
      p₁.kernel.tablesX86Representation i' = p.kernel.tablesX86Representation i' := by
    intro i' hne
    rw [hp₁]
    exact ⟨Paging.setDirectoryEntry_tables_of_ne (.inr hne),
      Paging.setDirectoryEntry_x86_of_ne (.inr hne)⟩
  have hmapped : ∀ m < 0x100000, Mapped p₁ m ↔ Mapped p m := by
    intro m hm
    unfold Mapped
    by_cases hmi : m / 1024 = i
    · rw [hmi, hnone, hp₁, ← ha, Paging.zeroTable_self]
      constructor
      · rintro ⟨-, hpres⟩
        exact Bool.noConfusion hpres
      · rintro ⟨hne, -⟩
        exact absurd rfl hne
    · rw [(hother _ hmi).1, hp₁, Paging.zeroTable_of_ne]
      · rfl
      · rw [ha, haddr, kernelPageTable_eq (by omega)]
        omega
  have hinv : Identity k p₁ := by
    refine ⟨?_, ?_, fun i' hi' => ?_, fun m hm hpage => ?_⟩
    · rw [hp₁]
      exact h.directory
    · rw [hp₁]
      exact h.size
    · by_cases hii : i' = i
      · subst hii
        rw [hself.1, hself.2, ha]
        exact .inr ⟨rfl, rfl⟩
      · rw [(hother i' hii).1, (hother i' hii).2]
        exact h.tables i' hi'
    · have hpage' := (hmapped m hm).mp hpage
      obtain ⟨h₁, h₂⟩ := h.pages m hm hpage'
      have hmi : m / 1024 ≠ i := fun heq => hpage'.1 (heq ▸ hnone)
      have hbits : p₁.availableFrames = p.availableFrames := by
        rw [hp₁]
        rfl
      rw [hbits]
      refine ⟨?_, h₂⟩
      rw [← h₁, hp₁, Paging.zeroTable_of_ne]
      · rfl
      · rw [ha, haddr, kernelPageTable_eq (by omega)]
        omega
  have hw : a / 0x1000 = 0x100 + i := by omega
  have htable : p₁.kernel.tables ((0x100 + i) / 1024) ≠ 0 := by
    by_cases hii : (0x100 + i) / 1024 = i
    · rw [hii, hself.1]
      omega
    · rw [(hother _ hii).1]
      exact hlow.resolve_left (by omega)
  obtain ⟨p', hrun, hm, hk⟩ := @createPrePagingMapping_mapped _ _ i fuel _ hinv
    (show 0x100 + i < 0x100000 by omega) htable
  refine ⟨p', ?_, ⟨hm.inv, hm.page, fun m hm' hpage => hm.pages m hm' ((hmapped m hm').mpr hpage),
    fun m hm' hpage => (hm.new m hm' hpage).imp_left (hmapped m hm').mp, fun i' _ hne => ?_,
    fun i' _ hne => ?_, fun f hf => ?_, hm.processes.trans ?_, hm.frames.trans ?_⟩, ?_⟩
  · unfold createPrePagingPageTable
    dsimp only
    rw [← ha, hw, ← hp₁]
    exact hrun
  · rw [hk]
    by_cases hii : i' = i
    · subst hii
      exact absurd hnone hne
    · rw [(hother i' hii).1]
      exact hne
  · by_cases hii : i' = i
    · subst hii
      exact .inr ⟨rfl, hm.page⟩
    · rw [hk, (hother i' hii).1] at hne
      exact .inl hne
  · refine (hm.has f hf).imp_left ?_
    rw [hp₁]
    exact id
  · rw [hp₁]
    rfl
  · rw [hp₁]
    rfl
  · rw [hk, hself.1]
    omega

/-- One thing after another. -/
theorem MappedTo.trans {m : ℕ} {p'' : Paging} (h : MappedTo k m t p p') (h' : MappedTo k n t p' p'')
    (hm : m = 0x100 + t) : MappedTo k n t p p'' where
  inv := h'.inv
  page := h'.page
  pages := fun x hx hp => h'.pages x hx (h.pages x hx hp)
  new := fun x hx hp => by
    rcases h'.new x hx hp with hp | hp
    · rcases h.new x hx hp with hp | rfl | hp
      · exact .inl hp
      · exact .inr (.inr hm)
      · exact .inr (.inr hp)
    · exact .inr hp
  tables := fun i hi hne => h'.tables i hi (h.tables i hi hne)
  window := fun i hi hne => by
    rcases h'.window i hi hne with hne | hp
    · exact (h.window i hi hne).imp_right fun hp => ⟨hp.1, h'.pages _ (by omega) hp.2⟩
    · exact .inr hp
  has := fun f hf => by
    rcases h'.has f hf with hf | hf
    · rcases h.has f hf with hf | rfl | hf
      · exact .inl hf
      · exact .inr (.inr hm)
      · exact .inr (.inr hf)
    · exact .inr hf
  processes := h'.processes.trans h.processes
  frames := h'.frames.trans h.frames

/-- The page `n`, once the tables of the window exist. -/
theorem createPrePagingMapping_spec (h : Identity k p) (hn : n < 0x100000)
    (hlow : ∀ i < 2, p.kernel.tables i ≠ 0) :
    ∃ p', createPrePagingMapping tableDepth p n n = .ok p' ∧ MappedTo k n (n / 1024) p p' := by
  by_cases ht : p.kernel.tables (n / 1024) = 0
  · obtain ⟨p₁, hrun₁, hm₁, hne⟩ := @createPrePagingPageTable_spec _ _ 2 _ h
      (show n / 1024 < 1024 by omega) ht (.inr (hlow _ (by omega)))
    obtain ⟨p₂, hrun₂, hm₂, -⟩ := @createPrePagingMapping_mapped _ _ (n / 1024) 3 _ hm₁.inv hn hne
    refine ⟨p₂, ?_, hm₁.trans hm₂ rfl⟩
    rw [← hrun₂]
    unfold tableDepth createPrePagingMapping
    dsimp only
    rw [if_pos ht, if_neg hne, hrun₁]
  · obtain ⟨p', hrun, hm, -⟩ := @createPrePagingMapping_mapped _ _ (n / 1024) 3 _ h hn ht
    exact ⟨p', hrun, hm⟩

/-! ## `paging_init` -/

/-- The tables that `paging_init` creates. -/
def InitTable (i : ℕ) : Prop := i < 2 ∨ 766 ≤ i ∧ i ≤ 768

/-- The pages that `paging_init` may create, and the frames it uses. -/
def InitPage (n : ℕ) : Prop :=
  n < 0x102 ∨ 0x3FE ≤ n ∧ n ≤ 0x400 ∨ kernelStackFirstPage ≤ n ∧ n ≤ 0xC0000

/-- What holds in `paging_init` from the first page on, where `b` is the bitmap before. -/
structure InitInv (b : Bitmap) (k : ℕ) (p₀ p : Paging) : Prop where
  inv : Identity k p
  low : ∀ i < 2, p.kernel.tables i ≠ 0
  window : ∀ i < 1024, p.kernel.tables i ≠ 0 → InitTable i ∧ Mapped p (0x100 + i)
  pages : ∀ n < 0x100000, Mapped p n → InitPage n
  has : ∀ f, p.availableFrames.Has f → b.Has f ∨ InitPage f
  processes : p.processes = p₀.processes
  frames : p.frames = p₀.frames

theorem InitInv.step {b : Bitmap} {p₀ : Paging} (h : InitInv b k p₀ p) (hn : n < 0x100000)
    (hpage : InitPage n) :
    ∃ p', createPrePagingMapping tableDepth p n n = .ok p' ∧ InitInv b k p₀ p' ∧ Mapped p' n ∧
      ∀ m < 0x100000, Mapped p m → Mapped p' m := by
  obtain ⟨p', hrun, hm⟩ := createPrePagingMapping_spec h.inv hn h.low
  have htable : InitTable (n / 1024) := by
    unfold InitPage kernelStackFirstPage kernelStackAddress kernelStackReservedPages at hpage
    unfold InitTable
    omega
  have hwindow : InitPage (0x100 + n / 1024) := by
    unfold InitTable at htable
    unfold InitPage
    omega
  refine ⟨p', hrun, ⟨hm.inv, fun i hi => hm.tables i (by omega) (h.low i hi), fun i hi hne => ?_,
    fun m hm' hp => ?_, fun f hf => ?_, hm.processes.trans h.processes, hm.frames.trans h.frames⟩,
    hm.page, hm.pages⟩
  · rcases hm.window i hi hne with hne | ⟨rfl, hp⟩
    · exact (h.window i hi hne).imp_right (hm.pages _ (by omega))
    · exact ⟨htable, hp⟩
  · rcases hm.new m hm' hp with hp | rfl | hp
    · exact h.pages m hm' hp
    · exact hpage
    · exact hp ▸ hwindow
  · rcases hm.has f hf with hf | rfl | hf
    · exact h.has f hf
    · exact .inr hpage
    · exact .inr (hf ▸ hwindow)

/-- A loop of `paging_init` over the pages `page 0`, `page 1` and so on. -/
theorem InitInv.loop {b : Bitmap} {p₀ : Paging} {page : ℕ → ℕ} (h : InitInv b k p₀ p) {count : ℕ}
    (hpage : ∀ i < count, page i < 0x100000 ∧ InitPage (page i)) :
    ∃ p', forLoop (fun i p => createPrePagingMapping tableDepth p (page i) (page i)) count p = .ok p' ∧
      InitInv b k p₀ p' ∧ (∀ i < count, Mapped p' (page i)) ∧
      ∀ m < 0x100000, Mapped p m → Mapped p' m := by
  induction count with
  | zero => exact ⟨p, rfl, h, fun i hi => absurd hi (Nat.not_lt_zero i), fun _ _ h => h⟩
  | succ count ih =>
    obtain ⟨p₁, hrun₁, h₁, hmapped₁, hkept₁⟩ := ih fun i hi => hpage i (by omega)
    obtain ⟨hlt, hinit⟩ := hpage count (by omega)
    obtain ⟨p₂, hrun₂, h₂, hmapped₂, hkept₂⟩ := h₁.step hlt hinit
    refine ⟨p₂, ?_, h₂, fun i hi => ?_, fun m hm hp => hkept₂ m hm (hkept₁ m hm hp)⟩
    · rw [forLoop, hrun₁, ok_bind]
      exact hrun₂
    · by_cases hic : i = count
      · subst hic
        exact hmapped₂
      · exact hkept₂ _ (hpage i (by omega)).1 (hmapped₁ i (by omega))

/-- The last loop of `paging_init`. -/
theorem InitInv.reserve {b : Bitmap} {p₀ : Paging} (h : InitInv b k p₀ p) {count : ℕ}
    (hcount : count ≤ 0x102) :
    ∃ p', forLoop (fun i p => do
        let availableFrames ← bitmapSet p.availableFrames i
        return { p with availableFrames := availableFrames }) count p = .ok p' ∧
      InitInv b k p₀ p' ∧ (∀ m, Mapped p m → Mapped p' m) ∧
      ∀ f < count, p'.availableFrames.Has f := by
  induction count with
  | zero => exact ⟨p, rfl, h, fun _ h => h, fun f hf => absurd hf (Nat.not_lt_zero f)⟩
  | succ count ih =>
    obtain ⟨p₁, hrun, h₁, hkept, hlow⟩ := ih (by omega)
    have hguard : bitmapGuard p₁.availableFrames count := by
      unfold bitmapGuard
      rw [h₁.inv.size]
      have hsize : u32 (availableFramesNum / 8 * 8) = 0xC0000 := rfl
      rw [hsize]
      omega
    obtain ⟨a, ha⟩ : ∃ a, bitmapSet p₁.availableFrames count = .ok a :=
      ⟨_, bitmapSet_eq_ok.mpr ⟨hguard, rfl⟩⟩
    refine ⟨{ p₁ with availableFrames := a }, ?_, ⟨⟨h₁.inv.directory, ?_, h₁.inv.tables,
      fun n hn hp => ⟨(h₁.inv.pages n hn hp).1, ?_⟩⟩, h₁.low, h₁.window, h₁.pages, fun f hf => ?_,
      h₁.processes, h₁.frames⟩, hkept, fun f hf => (has_bitmapSet ha).mpr ?_⟩
    · rw [forLoop, hrun, ok_bind, ha]
      rfl
    · rw [← h₁.inv.size]
      exact bitmapSet_size ha
    · exact (has_bitmapSet ha).mpr (.inr (h₁.inv.pages n hn hp).2)
    · rcases (has_bitmapSet ha).mp hf with rfl | hf
      · exact .inr (.inl (by omega))
      · exact h₁.has f hf
    · rcases Nat.lt_succ_iff_lt_or_eq.mp hf with hf | rfl
      · exact .inr (hlow f hf)
      · exact .inl rfl

theorem Mapped.kernelPage (h : Mapped p n) (hinv : Identity k p) (hn : n < 0x100000) :
    KernelPage p n n := by
  have htable := hinv.kernel_tables (show n / 1024 < 1024 by omega) h.1
  obtain ⟨hentry, -⟩ := hinv.pages n hn h
  refine ⟨h.1, ?_, ?_⟩
  · rw [htable]
    exact h.2
  · rw [htable, hentry]
    rfl

theorem KernelPage.mapped {f : ℕ} (h : KernelPage p n f) (hinv : Identity k p) (hn : n < 0x100000) :
    Mapped p n := by
  have htable := hinv.kernel_tables (show n / 1024 < 1024 by omega) h.table
  refine ⟨h.table, ?_⟩
  rw [← htable]
  exact h.maps.present

/-- The pages are in order. -/
theorem InitInv.pagingInv {b : Bitmap} {p₀ : Paging} (h : InitInv b k p₀ p) (hq : p₀.processes = [])
    (h0 : Mapped p 0) (hstack : Mapped p kernelStackFirstPage) : PagingInv {k} ∅ p := by
  have hinv := h.inv
  have hkernel : ∀ d ∈ ({k} : Set ℕ), p.directories d = p.kernel := by
    rintro d rfl
    unfold Paging.kernel
    rw [hinv.directory]
  -- a page of a table in use is the page of its number
  have hslot : ∀ t j f, InUse ∅ p t → j < 1024 → Maps p t j f → ∃ i < 1024, t = kernelPageTable i ∧
      f = i * 1024 + j ∧ p.availableFrames.Has f := by
    rintro t j f (ht | ⟨hne, i, hi, ht⟩) hj hm
    · exact absurd ht (Set.notMem_empty t)
    · have htable := hinv.kernel_tables hi (ht ▸ hne)
      have hdiv : (i * 1024 + j) / 1024 = i := by omega
      have hmod : (i * 1024 + j) % 1024 = j := by omega
      have hmapped : Mapped p (i * 1024 + j) := by
        unfold Mapped
        rw [hdiv, hmod, ← htable, ht]
        exact ⟨hne, hm.present⟩
      obtain ⟨hentry, hhas⟩ := hinv.pages _ (by omega) hmapped
      rw [hdiv, hmod, ← htable, ht] at hentry
      have hf : f = i * 1024 + j := by
        rw [← hm.frame, hentry]
        rfl
      exact ⟨i, hi, ht.symm.trans htable, hf, hf ▸ hhas⟩
  have hwindow : ∀ i < 1024, p.kernel.tables i ≠ 0 →
      KernelPage p (kernelPageTable i / 4096) (0x100 + i) := by
    intro i hi hne
    have haddr : kernelPageTable i / 4096 = 0x100 + i := by
      rw [kernelPageTable_eq hi]
      omega
    rw [haddr]
    exact (h.window i hi hne).2.kernelPage hinv (by omega)
  refine ⟨⟨hinv.size, fun t j f ht hj hm _ => ?_, fun t t' j j' f ht ht' hj hj' hm hm' => ?_⟩,
    hinv.directory, fun q hq' => ?_, fun i hi hne => ⟨hinv.kernel_tables hi hne, _, hwindow i hi hne⟩,
    h.low, ⟨0, h0.kernelPage hinv (by decide)⟩, ⟨_, hstack.kernelPage hinv (by decide)⟩,
    fun t ht => absurd ht (Set.notMem_empty t), fun d hd i _ _ => ?_, fun d hd i hi => ?_,
    fun d _ i _ _ ht => absurd ht (Set.notMem_empty _)⟩
  · obtain ⟨-, -, -, -, hhas⟩ := hslot t j f ht hj hm
    exact hhas
  · obtain ⟨i, -, rfl, hf, -⟩ := hslot t j f ht hj hm
    obtain ⟨i', -, rfl, hf', -⟩ := hslot t' j' f ht' hj' hm'
    obtain ⟨rfl, rfl⟩ : i = i' ∧ j = j' := by omega
    exact ⟨rfl, rfl⟩
  · rw [h.processes, hq] at hq'
    exact absurd hq' List.not_mem_nil
  · rw [hkernel d hd]
    exact .inr rfl
  · rw [hkernel d hd]
    rcases hinv.tables i hi with hz | ⟨ht, hx⟩
    · exact .inl hz
    · have hne : p.kernel.tables i ≠ 0 := by
        rw [ht, kernelPageTable_eq hi]
        omega
      refine .inr ⟨hne, 0x100 + i, ht ▸ hwindow i hi hne, ?_⟩
      rw [hx, kernelPageTable_eq hi, u32_of_lt (by omega)]
      congr 1
      omega

/-- What `paging_init` leaves. -/
structure Initialised (p₀ p : Paging) : Prop where
  inv : PagingInv {p.kernelPageDirectory} ∅ p
  below : p.kernelPageDirectory < kernelHeapAddress
  processes : p.processes = p₀.processes
  frames : p.frames = p₀.frames
  tables : ∀ i < 1024, p.kernel.tables i ≠ 0 → InitTable i
  pages : ∀ n < 0x100000, ∀ f, KernelPage p n f → InitPage n
  has : ∀ f, p.availableFrames.Has f → p₀.availableFrames.Has f ∨ InitPage f
  used : ∀ f, f < 0x102 ∨ f = 0x3FE → p.availableFrames.Has f
  exist : ∀ i < 1024, InitTable i → p.kernel.tables i ≠ 0

/-- The first two tables, which hold the window. -/
theorem initInv_tables (p : Paging) (d : ℕ) :
    ∃ p', forLoop (fun i p => createPrePagingPageTable (createPrePagingMapping tableDepth) p
        (kernelPageTablesAddress / 0x1000 / 1024 + i)) ((kernelPageTablesAddress + 0x400000) / 0x1000 /
        1024 + 1 - kernelPageTablesAddress / 0x1000 / 1024) (({ p with
          availableFrames := bitmapInit p.availableFrames.data (availableFramesNum / 8),
          kernelPageDirectory := d } : Paging).zeroDirectory d) = .ok p' ∧
      InitInv p.availableFrames d p p' := by
  obtain ⟨p₀, hp₀⟩ : ∃ p₀, p₀ = ({ p with
    availableFrames := bitmapInit p.availableFrames.data (availableFramesNum / 8),
    kernelPageDirectory := d } : Paging).zeroDirectory d := ⟨_, rfl⟩
  have hk₀ : p₀.kernel = PageDirectory.zero := by
    rw [hp₀]
    exact Function.update_self ..
  have hnone₀ : ∀ i, p₀.kernel.tables i = 0 := fun i => by rw [hk₀]; rfl
  have hinv₀ : Identity d p₀ := by
    refine ⟨by rw [hp₀]; rfl, by rw [hp₀]; rfl, fun i _ => ?_, fun n _ hp => ?_⟩
    · rw [hk₀]
      exact .inl ⟨rfl, rfl⟩
    · exact absurd (hnone₀ _) hp.1
  obtain ⟨p₁, hrun₁, hm₁, hne₁⟩ := @createPrePagingPageTable_spec _ _ 3 _ hinv₀
    (show 0 < 1024 by decide) (hnone₀ 0) (.inl rfl)
  have hnone₁ : p₁.kernel.tables 1 = 0 := by
    by_contra hne
    rcases hm₁.window 1 (by decide) hne with h | ⟨h, -⟩
    · exact h (hnone₀ 1)
    · exact absurd h (by decide)
  obtain ⟨p₂, hrun₂, hm₂, hne₂⟩ := @createPrePagingPageTable_spec _ _ 3 _ hm₁.inv
    (show 1 < 1024 by decide) hnone₁ (.inr hne₁)
  rw [← hp₀]
  refine ⟨p₂, ?_, hm₂.inv, fun i hi => ?_, fun i hi hne => ?_, fun n hn hp => ?_, fun f hf => ?_, ?_,
    ?_⟩
  · show (do
      let a ← (do
        let a ← Except.ok p₀
        createPrePagingPageTable (createPrePagingMapping 4) a 0)
      createPrePagingPageTable (createPrePagingMapping 4) a 1) = _
    rw [ok_bind, hrun₁, ok_bind, hrun₂]
  · obtain rfl | rfl : i = 0 ∨ i = 1 := by omega
    · exact hm₂.tables 0 (by decide) hne₁
    · exact hne₂
  · rcases hm₂.window i hi hne with hne | ⟨rfl, hp⟩
    · rcases hm₁.window i hi hne with hne | ⟨rfl, hp⟩
      · exact absurd (hnone₀ i) hne
      · exact ⟨.inl (by decide), hm₂.pages _ (by decide) hp⟩
    · exact ⟨.inl (by decide), hp⟩
  · rcases hm₂.new n hn hp with hp | rfl | hp
    · rcases hm₁.new n hn hp with hp | rfl | hp
      · exact absurd (hnone₀ _) hp.1
      · exact .inl (by decide)
      · exact .inl (by omega)
    · exact .inl (by decide)
    · exact .inl (by omega)
  · rcases hm₂.has f hf with hf | rfl | hf
    · rcases hm₁.has f hf with hf | rfl | hf
      · refine .inl ?_
        rw [hp₀] at hf
        exact hf
      · exact .inr (.inl (by decide))
      · exact .inr (.inl (by omega))
    · exact .inr (.inl (by decide))
    · exact .inr (.inl (by omega))
  · rw [hm₂.processes, hm₁.processes, hp₀]
    rfl
  · rw [hm₂.frames, hm₁.frames, hp₀]
    rfl

/-- What `paging_init` leaves in the state `p` of the kernel with the directory `d`. -/
structure InitPages (d : ℕ) (p₀ p : Paging) : Prop where
  inv : InitInv p₀.availableFrames d p₀ p
  first : Mapped p 0
  stack : ∀ j < kernelStackReservedPages, Mapped p (kernelStackAddress / 0x1000 - j)
  reserved : ∀ f < 0x100, p.availableFrames.Has f

/-- The page directory follows the image. -/
theorem reserve_bounds (hfinal : final < kernelPageTablesAddress) :
    (reservePrePagingAlignedSpace final sizeofPageDirectory).1 ≤ final + 0x1000 ∧
      (reservePrePagingAlignedSpace final sizeofPageDirectory).2 =
        (reservePrePagingAlignedSpace final sizeofPageDirectory).1 + 0x2000 := by
  unfold kernelPageTablesAddress at hfinal
  have hmask : final &&& 0xFFFFF000 ≤ final := Nat.and_le_left
  unfold reservePrePagingAlignedSpace sizeofPageDirectory
  dsimp only
  split_ifs
  · rw [u32_of_lt (by omega), u32_of_lt (by omega)]
    omega
  · rw [u32_of_lt (by omega)]
    omega

/-- `paging_init` where the image and the page directory after it end below the window. -/
theorem pagingInit_pages (hfinal : final < kernelPageTablesAddress)
    (hroom : (reservePrePagingAlignedSpace final sizeofPageDirectory).1 + sizeofPageDirectory ≤
      kernelPageTablesAddress) :
    ∃ p', pagingInit final p = .ok p' ∧
      InitPages (reservePrePagingAlignedSpace final sizeofPageDirectory).1 p p' := by
  obtain ⟨-, hend⟩ := reserve_bounds hfinal
  obtain ⟨d, hd⟩ : ∃ d, d = (reservePrePagingAlignedSpace final sizeofPageDirectory).1 := ⟨_, rfl⟩
  obtain ⟨e, he⟩ : ∃ e, e = (reservePrePagingAlignedSpace final sizeofPageDirectory).2 := ⟨_, rfl⟩
  have hpair : reservePrePagingAlignedSpace final sizeofPageDirectory = (d, e) := by rw [hd, he]
  rw [← hd] at hroom hend ⊢
  rw [← he] at hend
  unfold kernelPageTablesAddress sizeofPageDirectory at hroom
  have hapart : directoryOutsideWindow d = .ok () :=
    if_neg fun h => absurd h.2 (by unfold kernelPageTablesAddress sizeofPageDirectory; omega)
  obtain ⟨p₂, htables, hinit⟩ := initInv_tables p d
  -- the stack, the video memory and the image
  have hstackPages : ∀ i < kernelStackReservedPages,
      kernelStackAddress / 0x1000 - i < 0x100000 ∧ InitPage (kernelStackAddress / 0x1000 - i) := by
    unfold InitPage kernelStackFirstPage kernelStackReservedPages kernelStackAddress
    intro i hi
    omega
  obtain ⟨p₃, hrun₃, h₃, hmapped₃, -⟩ := hinit.loop hstackPages
  have hvideoPages : ∀ i < 0x20000 / 0x1000,
      0xA0000 / 0x1000 + i < 0x100000 ∧ InitPage (0xA0000 / 0x1000 + i) := by
    unfold InitPage
    intro i hi
    omega
  obtain ⟨p₄, hrun₄, h₄, -, hkept₄⟩ := h₃.loop hvideoPages
  have himagePages : ∀ i < (e + 0xFFF) / 0x1000, i < 0x100000 ∧ InitPage i := by
    unfold InitPage
    intro i hi
    omega
  obtain ⟨p₅, hrun₅, h₅, hmapped₅, hkept₅⟩ := @InitInv.loop _ _ _ _ (fun i => i) h₄ _ himagePages
  obtain ⟨p₆, hrun₆, h₆, hkept₆, hlow₆⟩ := h₅.reserve (show 0x100000 / 0x1000 ≤ 0x102 by decide)
  refine ⟨p₆, ?_, h₆, hkept₆ 0 (hmapped₅ 0 (by omega)), fun j hj => ?_, hlow₆⟩
  · unfold pagingInit
    dsimp only
    rw [hpair]
    dsimp only
    rw [hapart, ok_bind, assert_of_true (by decide), ok_bind, htables, ok_bind, hrun₃, ok_bind, hrun₄,
      ok_bind, hrun₅, ok_bind]
    exact hrun₆
  · have hlt := (hstackPages j hj).1
    exact hkept₆ _ (hkept₅ _ hlt (hkept₄ _ hlt (hmapped₃ j hj)))

theorem InitPages.table {d : ℕ} (h : InitPages d p₀ p) (hi : InitTable i) :
    p.kernel.tables i ≠ 0 := by
  rcases hi with hlow | ⟨hle, hle'⟩
  · exact h.inv.low i hlow
  · -- the tables of the stack
    obtain rfl | rfl | rfl : i = 766 ∨ i = 767 ∨ i = 768 := by omega
    · exact (h.stack 2047 (by decide)).1
    · exact (h.stack 1024 (by decide)).1
    · exact (h.stack 0 (by decide)).1

/-- Where `paging_init` returns, the directory lies below the window. -/
theorem reserve_below (hfinal : final < kernelPageTablesAddress) (hrun : pagingInit final p = .ok p') :
    (reservePrePagingAlignedSpace final sizeofPageDirectory).1 + sizeofPageDirectory ≤
      kernelPageTablesAddress := by
  obtain ⟨hbound, -⟩ := reserve_bounds hfinal
  by_contra hroom
  have hinside : directoryOutsideWindow (reservePrePagingAlignedSpace final sizeofPageDirectory).1 =
      .error (.undefined "paging_init: the page tables are written over the page directory") := by
    refine if_pos ⟨?_, by omega⟩
    unfold kernelPageTablesAddress at *
    omega
  unfold pagingInit at hrun
  dsimp only at hrun
  rw [hinside] at hrun
  cases hrun

/-- `paging_init` where the image ends below the window, with room for the directory. -/
theorem pagingInit_spec (hfits : final + 0x3000 ≤ kernelPageTablesAddress) (hq : p.processes = []) :
    ∃ p', pagingInit final p = .ok p' ∧ Initialised p p' := by
  unfold kernelPageTablesAddress at hfits
  have hfinal : final < kernelPageTablesAddress := by
    unfold kernelPageTablesAddress
    omega
  obtain ⟨hbound, -⟩ := reserve_bounds hfinal
  obtain ⟨p', hrun, hpages⟩ := @pagingInit_pages final p hfinal (by
    unfold kernelPageTablesAddress sizeofPageDirectory at *
    omega)
  have h := hpages.inv
  have hpinv := h.pagingInv hq hpages.first (hpages.stack 2047 (by decide))
  refine ⟨p', hrun, ?_, ?_, h.processes, h.frames, fun i hi hne => (h.window i hi hne).1,
    fun n hn f hf => h.pages n hn (hf.mapped h.inv hn), h.has, fun f hf => ?_,
    fun i _ hinit => hpages.table hinit⟩
  · rw [h.inv.directory]
    exact hpinv
  · rw [h.inv.directory]
    unfold kernelHeapAddress
    omega
  · -- the pages of the tables that there are
    have hw : ∀ i < 1024, p'.kernel.tables i ≠ 0 → p'.availableFrames.Has (0x100 + i) :=
      fun i hi hne => (h.inv.pages _ (by omega) (h.window i hi hne).2).2
    by_cases hf' : f < 0x100
    · exact hpages.reserved f hf'
    · have hfw := hw (f - 0x100) (by omega) (hpages.table (by unfold InitTable; omega))
      rwa [Nat.add_sub_cancel' (not_lt.mp hf')] at hfw

end

end RawOS
