import RawOS.ClonedSpace

/-!
# When the tables of the kernel are linked

A kernel table that is missing is created inside a request to the heap, and then linked into the
directories of all processes. `LinkCall` is such a call; `pageLinks_right` says that it finds the
ring in order and leaves it so, if every process has its directory. A clone is made while one does
not.
-/

namespace RawOS

/-! ## Calls -/

/-- A call of `process_link_kernel_table_to_all_address_spaces`, in the state `pages`. -/
structure LinkCall where
  pageTableVirtualAddress : ℕ
  pageTableIndex : ℕ
  pageTableX86Representation : ℕ
  pages : Paging

def LinkCall.run (l : LinkCall) : Except Panic Paging :=
  processLinkKernelTableToAllAddressSpaces l.pageTableVirtualAddress l.pageTableIndex
    l.pageTableX86Representation l.pages

/-- `createKernelTable`, up to the call. -/
def linkCall (create : ℕ → Paging → Mem → Except Panic (ℕ × Paging × Mem)) (pageTableIndex : ℕ)
    (p : Paging) (m : Mem) : Except Panic (LinkCall × Mem) := do
  let k := p.kernelPageDirectory
  let virtualPageAddress := kernelPageTable pageTableIndex
  let p := p.setDirectoryEntry k pageTableIndex virtualPageAddress
    (p.kernel.tablesX86Representation pageTableIndex)
  let (allocdFrame, p, m) ← create (virtualPageAddress / 0x1000) p m
  let x86 := u32 (allocdFrame * 0x1000) ||| 0x7
  let p := p.setDirectoryEntry k pageTableIndex (p.kernel.tables pageTableIndex) x86
  let p := p.zeroTable (p.kernel.tables pageTableIndex)
  return (⟨virtualPageAddress, pageTableIndex, x86, p⟩, m)

/-- The directory of each process that has one has the kernel's entries below 1 GB. -/
def LinksRing (p : Paging) : Prop :=
  ∀ q ∈ p.processes, ∀ d, q.pageDirectory = some d → ∀ i < 256, LinksKernel p d i

/-- Every process of the ring has its directory when the table is linked, and all have the
kernel's entries below 1 GB then. -/
structure LinkCall.Right (l : LinkCall) : Prop where
  assigned : ∀ q ∈ l.pages.processes, q.pageDirectory ≠ none
  linked : ∀ p, l.run = .ok p → p.processes = l.pages.processes ∧ LinksRing p

/-- Every call that `paging_create_kernel_page_with_any_frame` makes for the page `n`, down to
depth `fuel`, satisfies `P`. -/
def PageLinks (P : LinkCall → Prop) : ℕ → ℕ → Paging → Mem → Prop
  | 0, _, _, _ => True
  | fuel + 1, n, p, m => p.kernel.tables (n / 1024) = 0 →
    PageLinks P fuel (kernelPageTable (n / 1024) / 0x1000)
        (p.setDirectoryEntry p.kernelPageDirectory (n / 1024) (kernelPageTable (n / 1024))
          (p.kernel.tablesX86Representation (n / 1024))) m ∧
      ∀ l m', linkCall (pagingCreateKernelPageNested fuel) (n / 1024) p m = .ok (l, m') → P l

/-! ## Requests -/

/-- Every call made for the page at the end of the heap satisfies `P`. -/
def GrowthLinks (P : LinkCall → Prop) (s : Kernel) : Prop :=
  PageLinks P tableDepth (u32 (heapEnd s) / pageSize) s.sys s.mem

/-- The page at the end of the heap needs no new table: the kernel has it, or there is no frame
for one. -/
def NoNewTable (s : Kernel) : Prop :=
  s.sys.kernel.tables (u32 (heapEnd s) / pageSize / 1024) ≠ 0 ∨ s.sys.availableFrames.room = 0

section

variable {uninit : Paging → Mem → ℤ} {D T : Set ℕ} {bs : List Block} {live : List Live}
  {s s' : Kernel} {p p' : Paging} {m m' : Mem} {q : List Process} {l : LinkCall}
  {P : LinkCall → Prop} {Q R : Kernel → Prop} {source c d i n lo hi size alignment ptr u f fuel : ℕ}

theorem createKernelTable_linkCall
    {create : ℕ → Paging → Mem → Except Panic (ℕ × Paging × Mem)} :
    createKernelTable create i p m =
      linkCall create i p m >>= fun r => r.1.run >>= fun p => .ok (p, r.2) := by
  unfold createKernelTable linkCall
  dsimp only
  rw [bind_assoc]
  rfl

/-! ## The ring -/

/-- The entries of the directories below 1 GB and the ring stay. -/
theorem LinksRing.congr (h : LinksRing p) (hk : p'.kernelPageDirectory = p.kernelPageDirectory)
    (hq : p'.processes = p.processes)
    (hd : ∀ d, Active p d → ∀ i < 256, (p'.directories d).tables i = (p.directories d).tables i ∧
      (p'.directories d).tablesX86Representation i = (p.directories d).tablesX86Representation i) :
    LinksRing p' := by
  intro r hr d hrd i hi
  rw [hq] at hr
  obtain ⟨ht, hx⟩ := h r hr d hrd i hi
  obtain ⟨h₁, h₂⟩ := hd d (.inr (List.mem_map.mpr ⟨r, hr, hrd⟩)) i hi
  obtain ⟨h₃, h₄⟩ := hd p.kernelPageDirectory (.inl rfl) i hi
  constructor
  · unfold Paging.kernel
    rw [hk, h₁, h₃]
    exact ht
  · unfold Paging.kernel
    rw [hk, h₂, h₄]
    exact hx

/-- A table that is new was linked, and the others stay. -/
theorem KernelGrown.linksRing (h : KernelGrown lo hi p p') (hl : LinksRing p) : LinksRing p' := by
  intro r hr d hd i hi'
  rw [h.processes] at hr
  by_cases hnone : p.kernel.tables i = 0
  · by_cases hnone' : p'.kernel.tables i = 0
    · have hsame : ∀ d', (p'.directories d').tables i = (p.directories d').tables i ∧
          (p'.directories d').tablesX86Representation i =
            (p.directories d').tablesX86Representation i := fun d' =>
        (h.directories d' i).resolve_right fun hnew =>
          hnew.2.2.2.2.2.1 (hnew.2.2.2.2.1.symm.trans hnone')
      obtain ⟨ht, hx⟩ := hl r hr d hd i hi'
      constructor
      · unfold Paging.kernel
        rw [h.kernel, (hsame d).1, (hsame _).1]
        exact ht
      · unfold Paging.kernel
        rw [h.kernel, (hsame d).2, (hsame _).2]
        exact hx
    · obtain ⟨d', hd', hlinks⟩ := h.linked i hnone hnone' r hr
      obtain rfl := Option.some.inj (hd.symm.trans hd')
      exact hlinks
  · exact h.linksKernel (hl r hr d hd i hi') hnone

/-- A table that is missing after the last page stays so. -/
theorem KernelGrown.tables_eq_zero (h : KernelGrown lo hi p p') (hle : hi ≤ i * 1024)
    (hnone : p.kernel.tables i = 0) : p'.kernel.tables i = 0 := by
  unfold Paging.kernel at hnone ⊢
  rw [h.kernel]
  rcases h.directories p.kernelPageDirectory i with ⟨hsame, -⟩ | ⟨-, hlt, -⟩
  · exact hsame.trans hnone
  · omega

/-! ## The page of a table -/

/-- The call comes after the page of the table got its frame, with the ring as it was. -/
theorem linkCall_spec (h : KernelTables p) (hi : i < 1024) (hnone : p.kernel.tables i = 0)
    (hsize : p.availableFrames.size = availableFramesNum / 8)
    (hrun : linkCall (pagingCreateKernelPageNested (fuel + 1)) i p m = .ok (l, m')) :
    0 < p.availableFrames.room ∧ l.pages.processes = p.processes := by
  obtain ⟨⟨f, p₁, m₁⟩, hcreate, hrun⟩ := bind_eq_ok.mp hrun
  obtain ⟨b, q, hentry, hp₁, -⟩ := (createWindowPage_spec h hi hnone hsize).of_ok hcreate
  cases hrun
  dsimp only at hentry hp₁ ⊢
  have hroom := hentry.claimed.room
  refine ⟨by omega, ?_⟩
  rw [hp₁, hentry.eq]
  rfl

/-- The page of the table can be created, so the call is made. -/
theorem linkCall_go (h : KernelTables p) (hi : i < 1024) (hnone : p.kernel.tables i = 0)
    (hsize : p.availableFrames.size = availableFramesNum / 8) (hroom : 0 < p.availableFrames.room)
    (hnew : NoPage p (kernelPageTable i / 4096)) :
    ∃ l m', linkCall (pagingCreateKernelPageNested (fuel + 1)) i p m = .ok (l, m') := by
  have hspec : Ends (pagingCreateKernelPageNested (fuel + 1) (kernelPageTable i / 0x1000)
      (p.setDirectoryEntry p.kernelPageDirectory i (kernelPageTable i)
        (p.kernel.tablesX86Representation i)) m) _ _ := createWindowPage_spec h hi hnone hsize
  obtain ⟨⟨f, p₁, m₁⟩, hcreate, -⟩ := hspec.exists_ok fun e he => by
    rcases he with ⟨-, hpage⟩ | ⟨-, hfull⟩
    · exact hpage hnew
    · omega
  unfold linkCall
  dsimp only
  rw [hcreate]
  exact ⟨_, _, rfl⟩

/-- The page of the table needs no other table. -/
theorem pageLinks_of (h : KernelTables p) (hn : n < 0x100000)
    (hP : p.kernel.tables (n / 1024) = 0 → ∀ l m',
      linkCall (pagingCreateKernelPageNested (fuel + 1)) (n / 1024) p m = .ok (l, m') → P l) :
    PageLinks P (fuel + 2) n p m := by
  intro hnone
  refine ⟨fun hwindow => ?_, hP hnone⟩
  have hlow := window_table (show n / 1024 < 1024 by omega)
  have hne := h.low _ hlow
  refine absurd ?_ hne
  have hother : kernelPageTable (n / 1024) / 4096 / 1024 ≠ n / 1024 := fun heq =>
    hne (heq.symm ▸ hnone)
  rw [← hwindow]
  exact (setDirectoryEntry_kernel_of_ne hother).symm

/-- With a directory for each process, the tables are linked as they should be. -/
theorem pageLinks_right (h : PagingInv D T p) (hn : n < 0x100000)
    (hq : ∀ r ∈ p.processes, r.pageDirectory ≠ none) (hl : LinksRing p) :
    PageLinks LinkCall.Right tableDepth n p m := by
  refine pageLinks_of h.kernelTables hn fun hnone l m' hrun => ?_
  obtain ⟨-, hring⟩ := linkCall_spec h.kernelTables (by omega) hnone h.frames.size hrun
  refine ⟨fun r hr => hq r (hring ▸ hr), fun p' hlink => ?_⟩
  have hcreate : createKernelTable (pagingCreateKernelPageNested 3) (n / 1024) p m =
      .ok (p', m') := by
    rw [createKernelTable_linkCall, hrun, ok_bind, hlink, ok_bind]
  obtain ⟨hc, -⟩ := createKernelTable_ok h (by omega) hnone hcreate
  exact ⟨hc.grown.processes.trans hring.symm, hc.grown.linksRing hl⟩

/-! ## The page at the end of the heap -/

theorem PagesAt.end_lt (h : PagesAt D T (heapEnd s) s.sys) :
    u32 (heapEnd s) = heapEnd s ∧ heapEnd s / pageSize < 0x100000 := by
  have hle := h.le
  unfold kernelStackFirstPage kernelStackAddress kernelStackReservedPages at hle
  unfold pageSize
  exact ⟨u32_of_lt (by omega), by omega⟩

theorem growthLinks_right (h : PagesAt D T (heapEnd s) s.sys)
    (hq : ∀ r ∈ s.sys.processes, r.pageDirectory ≠ none) (hl : LinksRing s.sys) :
    GrowthLinks LinkCall.Right s := by
  obtain ⟨hend, hlt⟩ := h.end_lt
  unfold GrowthLinks
  rw [hend]
  exact pageLinks_right h.inv hlt hq hl

/-- A new table is linked although a process has no directory. -/
theorem not_growthLinks_right (h : PagesAt D T (heapEnd s) s.sys)
    (hnone : s.sys.kernel.tables (heapEnd s / pageSize / 1024) = 0)
    (hroom : 0 < s.sys.availableFrames.room)
    (hnew : NoPage s.sys (kernelPageTable (heapEnd s / pageSize / 1024) / 4096)) {r : Process}
    (hr : r ∈ s.sys.processes) (hr' : r.pageDirectory = none) :
    ¬ GrowthLinks LinkCall.Right s := by
  obtain ⟨hend, hlt⟩ := h.end_lt
  have hi : heapEnd s / pageSize / 1024 < 1024 := by omega
  intro hlinks
  unfold GrowthLinks at hlinks
  rw [hend] at hlinks
  obtain ⟨l, m', hcall⟩ : ∃ l m', linkCall (pagingCreateKernelPageNested 3)
      (heapEnd s / pageSize / 1024) s.sys s.mem = .ok (l, m') :=
    linkCall_go h.inv.kernelTables hi hnone h.inv.frames.size hroom hnew
  obtain ⟨-, hring⟩ := linkCall_spec h.inv.kernelTables hi hnone h.inv.frames.size hcall
  exact ((hlinks hnone).2 l m' hcall).assigned r (hring ▸ hr) hr'

/-- Without a new table nothing is linked. -/
theorem NoNewTable.growthLinks (hs : NoNewTable s) (h : PagesAt D T (heapEnd s) s.sys) :
    GrowthLinks P s := by
  obtain ⟨hend, hlt⟩ := h.end_lt
  unfold NoNewTable at hs
  unfold GrowthLinks
  rw [hend] at hs ⊢
  refine pageLinks_of h.inv.kernelTables hlt fun hnone l m' hrun => ?_
  obtain ⟨hroom, -⟩ := linkCall_spec h.inv.kernelTables (by omega) hnone h.inv.frames.size hrun
  rcases hs with hne | hfull
  · exact absurd hnone hne
  · omega

/-! ## Requests -/

theorem KernelInv.allocGrowths_right (h : KernelInv D T bs live s)
    (hq : ∀ r ∈ s.sys.processes, r.pageDirectory ≠ none) (hl : LinksRing s.sys) :
    AllocGrowths uninit (GrowthLinks LinkCall.Right) s size alignment :=
  h.allocGrowths fun _ hs' => growthLinks_right hs'.pages
    (fun r hr => hq r (hs'.grown.processes ▸ hr)) (hs'.grown.linksRing hl)

theorem KernelInv.allocGrowths_noLink (h : KernelInv D T bs live s)
    (hs : AllocGrowths uninit NoNewTable s size alignment) :
    AllocGrowths uninit (GrowthLinks P) s size alignment :=
  hs.imp₂ (R := fun s' => PagesAt D T (heapEnd s') s'.sys) (fun _ hnew hat => hnew.growthLinks hat)
    (h.allocGrowths fun _ hs' => hs'.pages)

/-- A clone that needs no table links none. -/
theorem KernelInv.cloneGrowths_noLink (h : KernelInv D T bs live s) (hsource : source ∈ D)
    (hs : CloneGrowths uninit NoNewTable s source) :
    CloneGrowths uninit (GrowthLinks P) s source := by
  refine ⟨h.allocGrowths_noLink hs.directory, fun c s₁ i s₂ halloc hi hloop hne => ?_⟩
  obtain ⟨-, T', live', hd⟩ := cloneLoop_ok h hsource halloc hi.le hloop
  obtain ⟨bs', hinv⟩ := hd.inv
  exact hinv.allocGrowths_noLink (hs.table c s₁ i s₂ halloc hi hloop hne)

/-! ## Below 8 MB -/

/-- The kernel has the table of the start of the heap, which ends at 8 MB. -/
theorem PagesAt.noNewTable (h : PagesAt D T (heapEnd s) s.sys)
    (hlo : kernelHeapAddress + 65536 ≤ heapEnd s) (hle : heapEnd s + pageSize ≤ 0x800000) :
    NoNewTable s := by
  obtain ⟨hend, -⟩ := h.end_lt
  unfold kernelHeapAddress pageSize at *
  obtain ⟨f, hf⟩ := h.mapped 0x500 (by unfold kernelHeapAddress; omega) (by omega)
  have hindex : heapEnd s / 4096 / 1024 = 0x500 / 1024 := by omega
  unfold NoNewTable pageSize
  rw [hend, hindex]
  exact .inl hf.table

theorem KernelInv.le_heapEnd (h : KernelInv D T bs live s) :
    kernelHeapAddress + 65536 ≤ heapEnd s := by
  unfold heapEnd
  rw [h.heap.heap.shape.initialAddr]
  exact Nat.le_add_right _ _

theorem KernelInv.allocGrowths_below (h : KernelInv D T bs live s)
    (hs : AllocGrowths uninit (fun t => heapEnd t + pageSize ≤ 0x800000) s size alignment) :
    AllocGrowths uninit NoNewTable s size alignment :=
  hs.imp₂ (R := fun t => PagesAt D T (heapEnd t) t.sys ∧ kernelHeapAddress + 65536 ≤ heapEnd t)
    (fun _ hle hat => hat.1.noNewTable hat.2 hle)
    (h.allocGrowths fun _ ht => ⟨ht.pages, h.le_heapEnd.trans ht.le⟩)

/-- A request that leaves the heap below 8 MB needs no new table. -/
theorem KernelInv.alloc_noNewTable (h : KernelInv D T bs live s)
    (hrun : kallocAllocAligned uninit s size alignment = .ok (ptr, s'))
    (hend : heapEnd s' ≤ 0x800000) : AllocGrowths uninit NoNewTable s size alignment :=
  h.allocGrowths_below ((h.alloc_le_iff hrun).mp (le_max_of_le_right hend))

theorem KernelInv.clone_noNewTable (h : KernelInv D T bs live s) (hsource : source ∈ D)
    (hrun : pagingClonePageDirectoryForNewProcess uninit s source = .ok (c, s'))
    (hend : heapEnd s' ≤ 0x800000) : CloneGrowths uninit NoNewTable s source := by
  have hs := (h.clone_le_iff hsource hrun).mp (le_max_of_le_right hend)
  refine ⟨h.allocGrowths_below hs.directory, fun c s₁ i s₂ halloc hi hloop hne => ?_⟩
  obtain ⟨-, T', live', hd⟩ := cloneLoop_ok h hsource halloc hi.le hloop
  obtain ⟨bs', hinv⟩ := hd.inv
  exact hinv.allocGrowths_below (hs.table c s₁ i s₂ halloc hi hloop hne)

/-! ## The clone -/

theorem LinksRing.zeroDirectory (h : LinksRing p) (hc : ¬ Active p c) :
    LinksRing (p.zeroDirectory c) := by
  refine h.congr rfl rfl fun d hd i _ => ?_
  have hne : d ≠ c := fun heq => hc (heq ▸ hd)
  have hsame : (p.zeroDirectory c).directories d = p.directories d := Function.update_of_ne hne ..
  rw [hsame]
  exact ⟨rfl, rfl⟩

/-- An entry above 1 GB is set. -/
theorem LinksRing.setDirectoryEntry {t x : ℕ} (h : LinksRing p) (hi : 256 ≤ i) :
    LinksRing (p.setDirectoryEntry d i t x) := by
  refine h.congr rfl rfl fun d' _ i' hi' => ?_
  have hne : i' ≠ i := by omega
  exact ⟨Paging.setDirectoryEntry_tables_of_ne (.inr hne),
    Paging.setDirectoryEntry_x86_of_ne (.inr hne)⟩

theorem cloneTable_linksRing (h : KernelInv D T bs live s) (hl : LinksRing s.sys)
    (hsource : source ∈ D) (hc : c ∈ D) (hk : c ≠ s.sys.kernelPageDirectory) (hi : i < 1024)
    (hle : 256 ≤ i) (hrun : cloneTable uninit source c i s = .ok s') : LinksRing s'.sys := by
  rcases cloneTable_ok h hsource hc hk hi hrun with ⟨-, rfl⟩ | ⟨-, t, s₁, q, x, htc⟩
  · exact hl
  · rw [htc.result]
    have hcopied := htc.copied
    have hq : LinksRing q := by
      refine (htc.alloc.grown.linksRing hl).congr hcopied.kernel hcopied.processes fun d _ i _ => ?_
      rw [hcopied.directories]
      exact ⟨rfl, rfl⟩
    exact hq.setDirectoryEntry hle

/-- The clone of an active directory has the kernel's entries below 1 GB. -/
theorem pagingClone_linksRing (h : KernelInv D T bs live s) (hl : LinksRing s.sys)
    (hsource : Active s.sys source)
    (hrun : pagingClonePageDirectoryForNewProcess uninit s source = .ok (c, s')) :
    LinksRing s'.sys ∧ ∀ i < 256, LinksKernel s'.sys c i := by
  have hmem := h.pages.inv.active hsource
  obtain ⟨T', live', hcloned⟩ := pagingClone_ok h hmem hrun
  obtain ⟨⟨c', s₀⟩, halloc, hrun⟩ := bind_eq_ok.mp hrun
  obtain ⟨s₁, hcopy, hrun⟩ := bind_eq_ok.mp hrun
  obtain ⟨p, hlink, hrun⟩ := bind_eq_ok.mp hrun
  cases hrun
  have hc := hcloned.new
  have hactive : ∀ {p : Paging}, p.kernelPageDirectory = s.sys.kernelPageDirectory →
      p.processes = s.sys.processes → ¬ Active p c := fun hk hq hact => by
    unfold Active at hact
    rw [hk, hq] at hact
    exact hc (h.pages.inv.active hact)
  have hgrown := (kallocHeapAlloc_ok h validAlignment_page halloc).grown
  -- the ring has none of what the clone writes
  have hcopied : (∃ T' live',
      DirectoryCopied D T live source c (256 + (1024 - 1024 / 4)) s T' live' s₁) ∧
      LinksRing s₁.sys := by
    refine forLoop_ok (P := fun n q => (∃ T' live',
      DirectoryCopied D T live source c (256 + n) s T' live' q) ∧ LinksRing q.sys) ⟨?_, ?_⟩ ?_ hcopy
    · exact (cloneLoop_ok (n := 0) h hmem halloc (Nat.zero_le _) rfl).2
    · exact (hgrown.linksRing hl).zeroDirectory (hactive hgrown.kernel hgrown.processes)
    · rintro i hi q q' ⟨⟨T₁, live₁, hq⟩, hlq⟩ hstep
      obtain ⟨bs₁, hinv₁⟩ := hq.inv
      have hck : c ≠ q.sys.kernelPageDirectory := by
        rw [hq.kernel]
        rintro rfl
        exact hc h.pages.inv.kernel
      exact ⟨hq.step h hmem hc (by omega) (by omega) hstep,
        cloneTable_linksRing hinv₁ hlq (.inr hmem) (.inl rfl) hck (by omega) (by omega) hstep⟩
  obtain ⟨⟨T₁, live₁, hd⟩, hl₁⟩ := hcopied
  obtain ⟨bs₁, hinv₁⟩ := hd.inv
  have hck : c ≠ s₁.sys.kernelPageDirectory := by
    rw [hd.kernel]
    rintro rfl
    exact hc h.pages.inv.kernel
  obtain ⟨hlow, -⟩ := linkLoop_ok hinv₁ (.inr hmem) (.inl rfl) hck (fun heq => hc (heq ▸ hmem)) hlink
  have hl' : LinksRing p := by
    refine hl₁.congr hlow.kernel hlow.processes fun d hact i _ => ?_
    rw [hlow.others d fun heq => hactive hd.kernel hd.processes (heq ▸ hact)]
    exact ⟨rfl, rfl⟩
  refine ⟨hl', fun i hi => ?_⟩
  have hsrc : LinksKernel p source i := by
    rcases hsource with rfl | hring
    · have hk : p.kernelPageDirectory = s.sys.kernelPageDirectory := hcloned.kernel
      rw [← hk]
      exact ⟨rfl, rfl⟩
    · obtain ⟨r, hr, hrd⟩ := List.mem_map.mp hring
      have hq : p.processes = s.sys.processes := hcloned.processes
      exact hl' r (hq ▸ hr) source hrd i hi
  obtain ⟨ht, hx⟩ := hcloned.linked i hi
  exact ⟨ht.trans hsrc.tables, hx.trans hsrc.x86⟩

/-! ## Pages of a process -/

/-- The page `n` is above 1 GB, or the directory `d` has its table. -/
def Placed (d n : ℕ) (s : Kernel) : Prop :=
  n < 0x40000 → (s.sys.directories d).tables (n / 1024) ≠ 0

theorem pagingCreateProcessPage_linksRing (h : KernelInv D T bs live s) (hl : LinksRing s.sys)
    (hd : d ∈ D) (hk : d ≠ s.sys.kernelPageDirectory) (hn : Placed d n s)
    (hrun : pagingCreateProcessPageWithAnyFrame uninit s d n u = .ok (f, s')) :
    LinksRing s'.sys := by
  obtain ⟨s₁, T', bs', live', b, -, hm, -, hcase⟩ := pagingCreateProcessPage_ok h hd hk hrun
  have hl₁ : LinksRing s₁.sys := by
    rcases hcase with ⟨rfl, -⟩ | ⟨hnone, t, s₀, x, ht, -, -, rfl⟩
    · exact hl
    · have hle : 256 ≤ n / 1024 := by
        by_contra hlt
        exact hn (by omega) hnone
      have hzero : LinksRing (s₀.sys.zeroTable t) :=
        (ht.alloc.grown.linksRing hl).congr rfl rfl fun _ _ _ _ => ⟨rfl, rfl⟩
      exact hzero.setDirectoryEntry hle
  rw [hm.result]
  exact hl₁.congr rfl rfl fun _ _ _ _ => ⟨rfl, rfl⟩

theorem pagingClean_linksRing (h : KernelInv D T bs live s) (hl : LinksRing s.sys)
    (hd : d ∈ D) (hk : d ≠ s.sys.kernelPageDirectory)
    (hrun : pagingCleanAllNonKernelPagesFromPageDirectory uninit s d = .ok s') :
    LinksRing s'.sys := by
  have hc := pagingClean_ok h hd hk hrun
  refine hl.congr hc.kernel hc.processes fun d' _ i hi => ?_
  by_cases hdd : d' = d
  · rw [hdd]
    exact hc.entries i (.inl hi)
  · rw [hc.directories d' hdd]
    exact ⟨rfl, rfl⟩

end

end RawOS
