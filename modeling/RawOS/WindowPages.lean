import RawOS.Boot

/-!
# The window of the page tables

A page of the window is there exactly when its table is: `paging_init` leaves it so, and creating
pages outside the window keeps it. So a call never meets a page of the window that exists, and what
it creates is new: `pageRun_window`.
-/

namespace RawOS

/-- The page is not one of the page tables. -/
def OutsideWindow (n : ℕ) : Prop :=
  n < kernelPageTablesAddress / 0x1000 ∨ (kernelPageTablesAddress + 0x400000) / 0x1000 ≤ n

/-- The window has the pages of the tables that there are. -/
structure WindowInv (p : Paging) : Prop where
  size : p.availableFrames.size = availableFramesNum / 8
  tables : KernelTables p
  window : ∀ i < 1024,
    (∃ f, KernelPage p (kernelPageTable i / 4096) f) ↔ p.kernel.tables i ≠ 0

section

variable {created : List ℕ} {p p' p₀ : Paging} {final n f i : ℕ} {m m' : Mem}

/-! ## After `paging_init` -/

theorem InitPages.windowInv {d : ℕ} (h : InitPages d p₀ p) : WindowInv p where
  size := h.inv.inv.size
  tables := ⟨h.inv.low, fun i hi hne => h.inv.inv.kernel_tables hi hne⟩
  window := by
    intro i hi
    have haddr := kernelPageTable_eq hi
    constructor
    · rintro ⟨f, hf⟩
      have hpage := h.inv.pages _ (by omega) (hf.mapped h.inv.inv (by omega))
      refine h.table ?_
      unfold InitPage kernelStackFirstPage kernelStackAddress kernelStackReservedPages at hpage
      unfold InitTable
      omega
    · intro hne
      have hmapped := (h.inv.window i hi hne).2
      rw [show kernelPageTable i / 4096 = 0x100 + i by omega]
      exact ⟨_, hmapped.kernelPage h.inv.inv (by omega)⟩

theorem pagingInit_windowInv (hfinal : final < kernelPageTablesAddress)
    (hrun : pagingInit final p₀ = .ok p) : WindowInv p := by
  obtain ⟨p', hrun', h⟩ := @pagingInit_pages final p₀ hfinal (reserve_below hfinal hrun)
  rw [hrun] at hrun'
  obtain rfl := Except.ok.inj hrun'
  exact h.windowInv

/-! ## A call -/

/-- The new table gets its page, and no other table does. -/
theorem WindowInv.create (h : WindowInv p) (hn : n < 0x100000) (hout : OutsideWindow n)
    (hc : PageCreated n f p p') : WindowInv p' where
  size := hc.size.trans h.size
  tables := h.tables.added (show n / 1024 < 1024 by omega) hc.table hc.stays
  window := by
    intro i hi
    have haddr := kernelPageTable_eq hi
    unfold OutsideWindow kernelPageTablesAddress at hout
    constructor
    · rintro ⟨g, hg⟩
      by_cases hin : i = n / 1024
      · rw [hin, hc.table, kernelPageTable_eq (by omega)]
        omega
      · rw [hc.stays i hin]
        rcases hc.pages _ (by omega) g hg with hold | heq | ⟨-, heq⟩
        · exact (h.window i hi).mp ⟨g, hold⟩
        · omega
        · rw [haddr, kernelPageTable_eq (by omega)] at heq
          omega
    · intro hne
      by_cases hin : i = n / 1024 ∧ p.kernel.tables i = 0
      · obtain ⟨rfl, hnone⟩ := hin
        exact hc.window hnone
      · have hold : p.kernel.tables i ≠ 0 := by
          by_cases heq : i = n / 1024
          · exact fun hnone => hin ⟨heq, hnone⟩
          · rw [← hc.stays i heq]
            exact hne
        obtain ⟨g, hg⟩ := (h.window i hi).mpr hold
        exact ⟨g, hc.kept _ (by omega) g hg⟩

/-- Why a call for a page that is not there can stop: the frames do not suffice, or there is a table
to link and the ring cannot take it. -/
def CreateStops (p : Paging) (n : ℕ) (e : Panic) : Prop :=
  e = .panic "Bitmap full!" ∧ p.availableFrames.room < framesNeeded p n ∨
  LinkFails e ∧ p.kernel.tables (n / 1024) = 0 ∧ ¬ RingAssigned p

/-- The page of a missing table is missing, so no page is met that exists. -/
theorem WindowInv.create_spec (h : WindowInv p) (hn : n < 0x100000) (hnew : NoPage p n) :
    Ends (pagingCreateKernelPageWithAnyFrame n p m) (fun r => PageCreated n r.1 p r.2.1)
      (CreateStops p n) := by
  refine (pagingCreateKernelPage_spec h.tables hn h.size).mono (fun _ hr => hr) fun e he => ?_
  refine he.resolve_left ?_
  rintro ⟨-, hpage | ⟨hnone, hpage⟩⟩
  · exact hpage hnew
  · exact hpage fun g hg => (h.window (n / 1024) (by omega)).mp ⟨g, hg⟩ hnone

/-! ## Runs -/

/-- The pages of the kernel and the number of frames stay. The links, the ring, the address spaces
and which frames are in use may change. -/
structure KernelStays (p p' : Paging) : Prop where
  kernel : p'.kernel = p.kernel
  tables : ∀ i < 1024, p'.tables (kernelPageTable i) = p.tables (kernelPageTable i)
  size : p'.availableFrames.size = p.availableFrames.size

/-- The tables that there are. -/
def tablesOf (p : Paging) : List ℕ := (List.range 1024).filter fun i => p.kernel.tables i ≠ 0

/-- The table that a call for the page `n` creates. -/
def tableCreated (p : Paging) (n : ℕ) : List ℕ :=
  if p.kernel.tables (n / 1024) = 0 then [n / 1024] else []

/-- `paging_init`, then calls for pages outside the window that are not there, and between them what
leaves the pages of the kernel alone. The list has the tables that were created. -/
inductive PageRun (final : ℕ) : List ℕ → Paging → Mem → Prop
  | init {p₀ p : Paging} {m : Mem} (hrun : pagingInit final p₀ = .ok p) :
      PageRun final (tablesOf p) p m
  | create {created : List ℕ} {p p' : Paging} {m m' : Mem} {n f : ℕ} (h : PageRun final created p m)
      (hn : n < 0x100000) (hout : OutsideWindow n) (hnew : NoPage p n)
      (hrun : pagingCreateKernelPageWithAnyFrame n p m = .ok (f, p', m')) :
      PageRun final (tableCreated p n ++ created) p' m'
  | other {created : List ℕ} {p p' : Paging} {m m' : Mem} (h : PageRun final created p m)
      (hstays : KernelStays p p') : PageRun final created p' m'

theorem KernelStays.kernelPage (h : KernelStays p p') (ht : KernelTables p) (hn : n < 0x100000) :
    KernelPage p' n f ↔ KernelPage p n f := by
  have htable : p.kernel.tables (n / 1024) ≠ 0 →
      p'.tables (p.kernel.tables (n / 1024)) = p.tables (p.kernel.tables (n / 1024)) := by
    intro hne
    rw [ht.window _ (by omega) hne]
    exact h.tables _ (by omega)
  constructor
  · intro hf
    have hne : p.kernel.tables (n / 1024) ≠ 0 := h.kernel ▸ hf.table
    exact hf.congr (by rw [h.kernel]) (by rw [h.kernel, htable hne])
  · intro hf
    exact hf.congr (by rw [h.kernel]) (by rw [htable hf.table])

theorem KernelStays.windowInv (h : KernelStays p p') (hp : WindowInv p) : WindowInv p' where
  size := h.size.trans hp.size
  tables := ⟨h.kernel ▸ hp.tables.low, h.kernel ▸ hp.tables.window⟩
  window := by
    intro i hi
    have haddr := kernelPageTable_eq hi
    rw [h.kernel, ← hp.window i hi]
    exact exists_congr fun g => h.kernelPage hp.tables (by omega)

/-- The tables that were created are those that there are. -/
structure TablesListed (created : List ℕ) (p : Paging) : Prop where
  nodup : created.Nodup
  mem : ∀ i, i ∈ created ↔ i < 1024 ∧ p.kernel.tables i ≠ 0

theorem tablesListed_tablesOf (p : Paging) : TablesListed (tablesOf p) p where
  nodup := List.nodup_range.filter _
  mem := by
    intro i
    unfold tablesOf
    rw [List.mem_filter, List.mem_range, decide_eq_true_iff]

theorem TablesListed.create (h : TablesListed created p) (hn : n < 0x100000)
    (hc : PageCreated n f p p') : TablesListed (tableCreated p n ++ created) p' := by
  have hne : p'.kernel.tables (n / 1024) ≠ 0 := by
    rw [hc.table, kernelPageTable_eq (by omega)]
    omega
  have hstays : ∀ i, i ≠ n / 1024 → (p'.kernel.tables i ≠ 0 ↔ p.kernel.tables i ≠ 0) := fun i hi => by
    rw [hc.stays i hi]
  unfold tableCreated
  split_ifs with hnone
  · refine ⟨List.nodup_cons.mpr ⟨fun hmem => ((h.mem _).mp hmem).2 hnone, h.nodup⟩, fun i => ?_⟩
    show i ∈ n / 1024 :: created ↔ _
    rw [List.mem_cons, h.mem]
    by_cases hi : i = n / 1024
    · exact ⟨fun _ => ⟨by omega, hi ▸ hne⟩, fun _ => .inl hi⟩
    · rw [hstays i hi]
      exact or_iff_right hi
  · refine ⟨h.nodup, fun i => ?_⟩
    show i ∈ created ↔ _
    rw [h.mem]
    by_cases hi : i = n / 1024
    · exact and_congr_right fun _ => ⟨fun _ => hi ▸ hne, fun _ => hi ▸ hnone⟩
    · rw [hstays i hi]

theorem PageRun.inv (hfinal : final < kernelPageTablesAddress) (h : PageRun final created p m) :
    WindowInv p ∧ TablesListed created p := by
  induction h with
  | init hrun => exact ⟨pagingInit_windowInv hfinal hrun, tablesListed_tablesOf _⟩
  | create _ hn hout hnew hrun ih =>
    have hc := (ih.1.create_spec hn hnew).of_ok hrun
    exact ⟨ih.1.create hn hout hc, ih.2.create hn hc⟩
  | other _ hstays ih =>
    exact ⟨hstays.windowInv ih.1, ih.2.nodup, fun i => by rw [hstays.kernel, ih.2.mem]⟩

/-- A page of the window is there exactly when its table is, no table was created twice, and the
next call nests at most once, does not find its pages there, and maps the page to the frame it
returns. -/
theorem pageRun_window (hfinal : final < kernelPageTablesAddress) (h : PageRun final created p m) :
    (∀ i < 1024, (∃ f, KernelPage p (kernelPageTable i / 4096) f) ↔ p.kernel.tables i ≠ 0) ∧
    created.Nodup ∧ (∀ i, i ∈ created ↔ i < 1024 ∧ p.kernel.tables i ≠ 0) ∧
    ∀ n < 0x100000, OutsideWindow n → NoPage p n →
      (∀ fuel, pagingCreateKernelPageNested (fuel + 2) n p m =
        pagingCreateKernelPageWithAnyFrame n p m) ∧
      Ends (pagingCreateKernelPageWithAnyFrame n p m) (fun r => PageCreated n r.1 p r.2.1)
        (CreateStops p n) := by
  obtain ⟨hinv, hlisted⟩ := h.inv hfinal
  refine ⟨hinv.window, hlisted.nodup, hlisted.mem, fun n hn _ hnew => ⟨fun fuel => ?_, ?_⟩⟩
  · rw [pagingCreateKernelPageNested_stable hinv.tables hn]
    exact (@pagingCreateKernelPageNested_stable p n m 2 hinv.tables hn).symm
  · exact hinv.create_spec hn hnew

/-- After the boot a process enters the ring, and a page is created that needs a table. -/
theorem exists_pageRun_grown : ∃ created p m, PageRun 0x30000 created p m ∧ 2 ∈ created ∧
    NoPage p 0x801 := by
  obtain ⟨p₀, hinit, hinitialised⟩ := exists_pagingInit
  have hrun₀ := PageRun.init (m := fun _ => 0) hinit
  have hinv₀ := (hrun₀.inv (by decide)).1
  obtain ⟨p, hp⟩ : ∃ p, p = { p₀ with processes := [⟨0, 0, some 0x511000⟩] } := ⟨_, rfl⟩
  have hstays : KernelStays p₀ p := by
    rw [hp]
    exact ⟨rfl, fun _ _ => rfl, rfl⟩
  have hrun : PageRun 0x30000 (tablesOf p₀) p fun _ => 0 := hrun₀.other hstays
  have hinv := hstays.windowInv hinv₀
  have hnew : ∀ n < 0x100000, ¬ InitPage n → NoPage p n := fun n hn hpage f hf =>
    hpage (hinitialised.pages n hn f ((hstays.kernelPage hinv₀.tables hn).mp hf))
  have h0x800 : NoPage p 0x800 := hnew _ (by decide) (by unfold InitPage; decide)
  have hmissing : p.kernel.tables 2 = 0 := by
    by_contra hne
    have htable := hinitialised.tables 2 (by decide) (hstays.kernel ▸ hne)
    unfold InitTable at htable
    omega
  have hroom : 783360 ≤ p.availableFrames.room := by
    rw [hp]
    exact hinitialised.room
  obtain ⟨⟨f, p', m'⟩, hcreate, hc⟩ := (@WindowInv.create_spec p 0x800 (fun _ => 0) hinv (by decide)
    h0x800).exists_ok fun e he => by
      rcases he with ⟨-, hfull⟩ | ⟨-, -, hring⟩
      · unfold framesNeeded at hfull
        split_ifs at hfull <;> omega
      · refine hring ⟨by rw [hp]; exact List.cons_ne_nil _ _, fun q hq => ?_⟩
        rw [hp] at hq
        obtain rfl := List.mem_singleton.mp hq
        exact Option.some_ne_none _
  refine ⟨_, p', m', hrun.create (by decide) (.inr (by decide)) h0x800 hcreate, ?_, fun g hg => ?_⟩
  · unfold tableCreated
    rw [if_pos hmissing]
    exact List.mem_cons_self
  · rcases hc.pages _ (by decide) g hg with hold | heq | ⟨-, heq⟩
    · exact hnew _ (by decide) (by unfold InitPage; decide) g hold
    · exact absurd heq (by decide)
    · exact absurd heq (by decide)

theorem pageRun_window_grown : ∃ created p m, PageRun 0x30000 created p m ∧ 2 ∈ created ∧
    created.Nodup ∧ (∃ f, KernelPage p (kernelPageTable 2 / 4096) f) ∧
    Ends (pagingCreateKernelPageWithAnyFrame 0x801 p m) (fun r => PageCreated 0x801 r.1 p r.2.1)
      (CreateStops p 0x801) := by
  obtain ⟨created, p, m, hrun, htwo, hnew⟩ := exists_pageRun_grown
  obtain ⟨hwindow, hnodup, hmem, hcall⟩ := pageRun_window (by decide) hrun
  exact ⟨created, p, m, hrun, htwo, hnodup, (hwindow 2 (by decide)).mpr ((hmem 2).mp htwo).2,
    (hcall 0x801 (by decide) (.inr (by decide)) hnew).2⟩

end

end RawOS
