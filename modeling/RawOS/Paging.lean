import RawOS.Bitmap
import RawOS.Alloc.KallocHeap

/-!
# `paging.c`

Page directories and page tables are values at the addresses that `kalloc_alloc_aligned`, or the
window of the kernel's page tables, gives them. The bytes of the heap are the memory of
`HeapState`; the pages above 1 GB have theirs in the frames.

Every frame below `AVAILABLE_FRAMES_NUM` is RAM: the byte that is written to a new page to test its
frame is read back.
-/

namespace RawOS

def kernelStackReservedPages : ℕ := 2048
def kernelStackAddress : ℕ := 0xC0000000
def physicalRamSize : ℕ := 0xC0000000
def availableFramesNum : ℕ := physicalRamSize / 0x1000
def kernelPageTablesAddress : ℕ := 0x00100000
def kernelHeapAddress : ℕ := 0x00500000
/-- `sizeof(Page_Table)`. -/
def sizeofPageTable : ℕ := 4096
/-- `sizeof(Page_Directory)`. -/
def sizeofPageDirectory : ℕ := 8192

/-! ## State -/

/-- `Page_Entry`. -/
structure PageEntry where
  present : Bool
  writable : Bool
  userMode : Bool
  reserved : ℕ
  accessed : Bool
  dirty : Bool
  reserved2 : ℕ
  available : ℕ
  frameAddress20Bits : ℕ
  deriving DecidableEq

/-- An entry after `memset`. -/
def PageEntry.zero : PageEntry := ⟨false, false, false, 0, false, false, 0, 0, 0⟩

/-- `Page_Table`. -/
abbrev PageTable := ℕ → PageEntry

/-- `Page_Directory`. A table is an address, and 0 says that there is none. -/
structure PageDirectory where
  tables : ℕ → ℕ
  tablesX86Representation : ℕ → ℕ

def PageTable.zero : PageTable := fun _ => PageEntry.zero

def PageDirectory.zero : PageDirectory := ⟨fun _ => 0, fun _ => 0⟩

/-- Entry `i` of both arrays. -/
def PageDirectory.set (directory : PageDirectory) (i table x86 : ℕ) : PageDirectory where
  tables := Function.update directory.tables i table
  tablesX86Representation := Function.update directory.tablesX86Representation i x86

/-- What the pages need of a `Process`: its address, its number, and its page directory, which is
`none` until it is assigned. -/
structure Process where
  address : ℕ
  pid : ℕ
  pageDirectory : Option ℕ

/-- `Paging`, the directories, tables and frames it works on, and the processes from
`active_process` on along `next`. -/
structure Paging where
  availableFrames : Bitmap
  kernelPageDirectory : ℕ
  directories : ℕ → PageDirectory
  tables : ℕ → PageTable
  frames : ℕ → ℕ → UInt8
  processes : List Process

namespace Paging

def kernel (p : Paging) : PageDirectory := p.directories p.kernelPageDirectory

/-- `page_directory->tables[i] = table` and `page_directory->tables_x86_representation[i] = x86`. -/
def setDirectoryEntry (p : Paging) (d i table x86 : ℕ) : Paging :=
  { p with directories := Function.update p.directories d ((p.directories d).set i table x86) }

/-- `memset` of a table. -/
def zeroTable (p : Paging) (t : ℕ) : Paging :=
  { p with tables := Function.update p.tables t PageTable.zero }

/-- `memset` of a directory. -/
def zeroDirectory (p : Paging) (d : ℕ) : Paging :=
  { p with directories := Function.update p.directories d PageDirectory.zero }

/-- Page `n` of the address space of `d`. -/
def pageOf (p : Paging) (d n : ℕ) : Option PageEntry :=
  let table := (p.directories d).tables (n / 1024)
  if table ≠ 0 ∧ (p.tables table (n % 1024)).present then some (p.tables table (n % 1024)) else none

def setEntry (p : Paging) (t j : ℕ) (entry : PageEntry) : Paging :=
  { p with tables := Function.update p.tables t (Function.update (p.tables t) j entry) }

variable {p p' : Paging} {d d' i i' t t' j j' x n : ℕ} {entry : PageEntry}

theorem pageOf_eq_some : p.pageOf d n = some entry ↔ (p.directories d).tables (n / 1024) ≠ 0 ∧
    (p.tables ((p.directories d).tables (n / 1024)) (n % 1024)).present = true ∧
    p.tables ((p.directories d).tables (n / 1024)) (n % 1024) = entry := by
  unfold pageOf
  dsimp only
  split_ifs with h
  · rw [Option.some.injEq]
    exact ⟨fun he => ⟨h.1, h.2, he⟩, fun he => he.2.2⟩
  · constructor
    · intro he
      cases he
    · exact fun he => absurd ⟨he.1, he.2.1⟩ h

theorem pageOf_eq_none (h : (p.directories d).tables (n / 1024) = 0 ∨
    (p.tables ((p.directories d).tables (n / 1024)) (n % 1024)).present = false) :
    p.pageOf d n = none := by
  refine if_neg fun hpres => ?_
  rcases h with h | h
  · exact hpres.1 h
  · exact Bool.false_ne_true (h.symm.trans hpres.2)

/-- A page is the entry of its table. -/
theorem pageOf_congr (hd : (p'.directories d').tables (n / 1024) = (p.directories d).tables (n / 1024))
    (ht : (p.directories d).tables (n / 1024) ≠ 0 →
      p'.tables ((p.directories d).tables (n / 1024)) (n % 1024) =
        p.tables ((p.directories d).tables (n / 1024)) (n % 1024)) :
    p'.pageOf d' n = p.pageOf d n := by
  unfold pageOf
  dsimp only
  rw [hd]
  by_cases h : (p.directories d).tables (n / 1024) = 0
  · rw [h]
    rfl
  · rw [ht h]

theorem setEntry_self : (p.setEntry t j entry).tables t j = entry := by
  unfold setEntry
  dsimp only
  rw [Function.update_self, Function.update_self]

theorem setEntry_of_ne (h : t' ≠ t ∨ j' ≠ j) :
    (p.setEntry t j entry).tables t' j' = p.tables t' j' := by
  unfold setEntry
  dsimp only
  by_cases ht : t' = t
  · subst ht
    rw [Function.update_self, Function.update_of_ne (h.resolve_left fun h => h rfl)]
  · rw [Function.update_of_ne ht]

theorem zeroTable_self : (p.zeroTable t).tables t j = PageEntry.zero := by
  unfold zeroTable
  dsimp only
  rw [Function.update_self]
  rfl

theorem zeroTable_of_ne (h : t' ≠ t) : (p.zeroTable t).tables t' = p.tables t' := by
  unfold zeroTable
  exact Function.update_of_ne h ..

theorem setDirectoryEntry_self :
    (p.setDirectoryEntry d i t x).directories d = (p.directories d).set i t x := by
  unfold setDirectoryEntry
  exact Function.update_self ..

theorem setDirectoryEntry_of_ne (h : d' ≠ d) :
    (p.setDirectoryEntry d i t x).directories d' = p.directories d' := by
  unfold setDirectoryEntry
  exact Function.update_of_ne h ..

/-- An entry that is not set stays, whatever the directory. -/
theorem setDirectoryEntry_tables_of_ne (h : d' ≠ d ∨ i' ≠ i) :
    ((p.setDirectoryEntry d i t x).directories d').tables i' = (p.directories d').tables i' := by
  by_cases hd : d' = d
  · subst hd
    rw [setDirectoryEntry_self]
    exact Function.update_of_ne (h.resolve_left fun h => h rfl) ..
  · rw [setDirectoryEntry_of_ne hd]

theorem setDirectoryEntry_x86_of_ne (h : d' ≠ d ∨ i' ≠ i) :
    ((p.setDirectoryEntry d i t x).directories d').tablesX86Representation i' =
      (p.directories d').tablesX86Representation i' := by
  by_cases hd : d' = d
  · subst hd
    rw [setDirectoryEntry_self]
    exact Function.update_of_ne (h.resolve_left fun h => h rfl) ..
  · rw [setDirectoryEntry_of_ne hd]

theorem setDirectoryEntry_tables_self :
    ((p.setDirectoryEntry d i t x).directories d).tables i = t := by
  rw [setDirectoryEntry_self]
  exact Function.update_self ..

theorem setDirectoryEntry_x86_self :
    ((p.setDirectoryEntry d i t x).directories d).tablesX86Representation i = x := by
  rw [setDirectoryEntry_self]
  exact Function.update_self ..

/-- To set what is there changes nothing. -/
theorem setDirectoryEntry_eq_self (ht : (p.directories d).tables i = t)
    (hx : (p.directories d).tablesX86Representation i = x) : p.setDirectoryEntry d i t x = p := by
  subst ht
  subst hx
  unfold setDirectoryEntry PageDirectory.set
  rw [Function.update_eq_self, Function.update_eq_self, Function.update_eq_self]

end Paging

/-- `for (u32 i = 0; i < n; ++i)`. -/
def forLoop {α : Type} (body : ℕ → α → Except Panic α) : ℕ → α → Except Panic α
  | 0, a => .ok a
  | n + 1, a => do
    let a ← forLoop body n a
    body n a

/-- What the body of a loop keeps. -/
theorem forLoop_ok {α : Type} {body : ℕ → α → Except Panic α} {P : ℕ → α → Prop} {a : α}
    (h₀ : P 0 a) : ∀ {n : ℕ} {a' : α},
      (∀ i < n, ∀ b b', P i b → body i b = .ok b' → P (i + 1) b') → forLoop body n a = .ok a' →
      P n a'
  | 0, a', _, hrun => by
    obtain rfl := Except.ok.inj hrun
    exact h₀
  | n + 1, a', hstep, hrun => by
    obtain ⟨b, hb, hrun⟩ := bind_eq_ok.mp hrun
    exact hstep n (by omega) b a' (forLoop_ok h₀ (fun i hi => hstep i (by omega)) hb) hrun

/-- A loop returns if its body does. -/
theorem forLoop_go {α : Type} {body : ℕ → α → Except Panic α} {P : ℕ → α → Prop} {a : α}
    (h₀ : P 0 a) : ∀ {n : ℕ},
      (∀ i < n, ∀ b, P i b → ∃ b', body i b = .ok b' ∧ P (i + 1) b') →
      ∃ a', forLoop body n a = .ok a' ∧ P n a'
  | 0, _ => ⟨a, rfl, h₀⟩
  | n + 1, hstep => by
    obtain ⟨b, hb, hP⟩ := forLoop_go h₀ fun i hi => hstep i (Nat.lt_succ_of_lt hi)
    obtain ⟨b', hb', hP'⟩ := hstep n (Nat.lt_succ_self n) b hP
    refine ⟨b', ?_, hP'⟩
    unfold forLoop
    rw [hb, ok_bind, hb']

/-! ## `paging_init` -/

/-- The address of the kernel's page table `i`. -/
def kernelPageTable (i : ℕ) : ℕ := u32 (kernelPageTablesAddress + i * 0x1000)

/-- `create_pre_paging_page_table`, with `mapping` for `create_pre_paging_mapping`. -/
def createPrePagingPageTable (mapping : Paging → ℕ → ℕ → Except Panic Paging) (p : Paging)
    (pageTableIndex : ℕ) : Except Panic Paging :=
  let pageAddress := kernelPageTable pageTableIndex
  let pageNum := pageAddress / 0x1000
  let p := p.setDirectoryEntry p.kernelPageDirectory pageTableIndex pageAddress (pageAddress ||| 0x7)
  mapping (p.zeroTable pageAddress) pageNum pageNum

/-- `create_pre_paging_mapping`, down to depth `fuel`. -/
def createPrePagingMapping : ℕ → Paging → ℕ → ℕ → Except Panic Paging
  | 0, _, _, _ => .error .outOfFuel
  | fuel + 1, p, pageNum, frameNum => do
    let pageTableIndex := pageNum / 1024
    let p ← if p.kernel.tables pageTableIndex = 0 then
        createPrePagingPageTable (createPrePagingMapping fuel) p pageTableIndex
      else .ok p
    let availableFrames ← bitmapSet p.availableFrames frameNum
    let entry := { PageEntry.zero with
      present := true, writable := true, frameAddress20Bits := frameNum % 0x100000 }
    return { p with availableFrames := availableFrames }.setEntry (p.kernel.tables pageTableIndex)
      (pageNum % 1024) entry

/-- A table may need the table of its own page, and that one itself. -/
def tableDepth : ℕ := 4

/-- `reserve_pre_paging_aligned_space`: the address, and `final_kernel_code_data_addr` after it. -/
def reservePrePagingAlignedSpace (finalKernelCodeDataAddr size : ℕ) : ℕ × ℕ :=
  let addr := if finalKernelCodeDataAddr &&& 0xFFFFF000 ≠ 0
    then u32 ((finalKernelCodeDataAddr &&& 0xFFFFF000) + 0x1000) else finalKernelCodeDataAddr
  (addr, u32 (addr + size))

/-- The page tables are written to the window: a page directory that lies there is overwritten. -/
def directoryOutsideWindow (directory : ℕ) : Except Panic Unit :=
  if directory < kernelPageTablesAddress + 0x400000 ∧
      kernelPageTablesAddress < directory + sizeofPageDirectory
  then .error (.undefined "paging_init: the page tables are written over the page directory")
  else .ok ()

/-- `paging_init` for a kernel that ends at `finalKernelCodeDataAddr`. -/
def pagingInit (finalKernelCodeDataAddr : ℕ) (p : Paging) : Except Panic Paging := do
  let availableFrames := bitmapInit p.availableFrames.data (availableFramesNum / 8)
  let (directory, final) :=
    reservePrePagingAlignedSpace finalKernelCodeDataAddr sizeofPageDirectory
  directoryOutsideWindow directory
  let p := { p with availableFrames := availableFrames, kernelPageDirectory := directory }
  let p := p.zeroDirectory directory
  assert (kernelPageTablesAddress % 0x1000 = 0)
    "The virtual address of kernel page tables must be multiple of 0x1000!"
  let firstPageTableIndex := kernelPageTablesAddress / 0x1000 / 1024
  let lastPageTableIndex := (kernelPageTablesAddress + 0x400000) / 0x1000 / 1024
  let p ← forLoop (fun i p => createPrePagingPageTable (createPrePagingMapping tableDepth) p
    (firstPageTableIndex + i)) (lastPageTableIndex + 1 - firstPageTableIndex) p
  let identity := fun pageNum p => createPrePagingMapping tableDepth p pageNum pageNum
  let p ← forLoop (fun i => identity (kernelStackAddress / 0x1000 - i)) kernelStackReservedPages p
  let p ← forLoop (fun i => identity (0xA0000 / 0x1000 + i)) (0x20000 / 0x1000) p
  let p ← forLoop identity ((final + 0xFFF) / 0x1000) p
  forLoop (fun i p => do
    let availableFrames ← bitmapSet p.availableFrames i
    return { p with availableFrames := availableFrames }) (0x100000 / 0x1000) p

/-! ## Frames -/

/-- `bitmap_get_first_clear` and `bitmap_set`: a frame that becomes used. -/
def allocFrame (p : Paging) : Except Panic (ℕ × Paging) := do
  let allocdFrame ← bitmapGetFirstClear p.availableFrames
  let availableFrames ← bitmapSet p.availableFrames allocdFrame
  return (allocdFrame, { p with availableFrames := availableFrames })

/-- The entry of a new page. -/
def newPageEntry (userMode allocdFrame : ℕ) (entry : PageEntry) : PageEntry :=
  { entry with
    present := true
    userMode := userMode % 2 = 1
    writable := true
    frameAddress20Bits := allocdFrame % 0x100000 }

def pageExistsMessage : String := "Trying to create page that already exists (%u) (0x%x)!"

/-- The end of `paging_create_process_page_with_any_frame` and
`paging_create_kernel_page_with_any_frame`: the page `pageNum`, entry `pageNum % 1024` of the table
`t`, gets a frame. -/
def mapPage (t pageNum userMode : ℕ) (p : Paging) : Except Panic (ℕ × Paging) := do
  let pageEntry := p.tables t (pageNum % 1024)
  assert (pageEntry.present = false) pageExistsMessage
  let (allocdFrame, p) ← allocFrame p
  return (allocdFrame, p.setEntry t (pageNum % 1024) (newPageEntry userMode allocdFrame pageEntry))

/-! ## Pages of the kernel -/

/-- The loop of `process_link_kernel_table_to_all_address_spaces`. A process without a page
directory has an arbitrary pointer for it. -/
def linkKernelTable (pageTableVirtualAddress pageTableIndex pageTableX86Representation : ℕ) :
    List Process → Paging → Except Panic Paging
  | [], p => .ok p
  | process :: processes, p =>
    match process.pageDirectory with
    | none => .error (.undefined
        "process_link_kernel_table_to_all_address_spaces: page directory not assigned")
    | some d =>
      linkKernelTable pageTableVirtualAddress pageTableIndex pageTableX86Representation processes
        (p.setDirectoryEntry d pageTableIndex pageTableVirtualAddress pageTableX86Representation)

def processLinkKernelTableToAllAddressSpaces
    (pageTableVirtualAddress pageTableIndex pageTableX86Representation : ℕ) (p : Paging) :
    Except Panic Paging := do
  assert (p.processes ≠ [])
    "Can't link kernel table to all address spaces: there is no active process."
  linkKernelTable pageTableVirtualAddress pageTableIndex pageTableX86Representation p.processes p

/-- `paging_create_kernel_page_with_any_frame` where the table is missing, with `create` for the
recursive call. -/
def createKernelTable (create : ℕ → Paging → Mem → Except Panic (ℕ × Paging × Mem))
    (pageTableIndex : ℕ) (p : Paging) (m : Mem) : Except Panic (Paging × Mem) := do
  let k := p.kernelPageDirectory
  let virtualPageAddress := kernelPageTable pageTableIndex
  let p := p.setDirectoryEntry k pageTableIndex virtualPageAddress
    (p.kernel.tablesX86Representation pageTableIndex)
  let (allocdFrame, p, m) ← create (virtualPageAddress / 0x1000) p m
  let x86 := u32 (allocdFrame * 0x1000) ||| 0x7
  let p := p.setDirectoryEntry k pageTableIndex (p.kernel.tables pageTableIndex) x86
  let p := p.zeroTable (p.kernel.tables pageTableIndex)
  let p ← processLinkKernelTableToAllAddressSpaces virtualPageAddress pageTableIndex x86 p
  return (p, m)

/-- `paging_create_kernel_page_with_any_frame`, down to depth `fuel`. -/
def pagingCreateKernelPageNested : ℕ → ℕ → Paging → Mem → Except Panic (ℕ × Paging × Mem)
  | 0, _, _, _ => .error .outOfFuel
  | fuel + 1, pageNum, p, m => do
    let pageTableIndex := pageNum / 1024
    let (p, m) ← if p.kernel.tables pageTableIndex = 0 then
        createKernelTable (pagingCreateKernelPageNested fuel) pageTableIndex p m
      else .ok (p, m)
    let (allocdFrame, p) ← mapPage (p.kernel.tables pageTableIndex) pageNum 0 p
    return (allocdFrame, p, store8 m (pageNum * 0x1000) 0xAB)

def pagingCreateKernelPageWithAnyFrame (pageNum : ℕ) (p : Paging) (m : Mem) :
    Except Panic (ℕ × Paging × Mem) :=
  pagingCreateKernelPageNested tableDepth pageNum p m

/-- The pages that the heap runs on. `uninit` gives the values of uninitialised locals. -/
def pagingEnv (uninit : Paging → Mem → ℤ) : PageEnv Paging where
  createPage pageNum p m := do
    let (_, p, m) ← pagingCreateKernelPageWithAnyFrame pageNum p m
    return (p, m)
  uninit := uninit

/-! ## Address spaces -/

/-- The kernel: its heap and its pages. -/
abbrev Kernel := HeapState Paging

def getPhysicalAddressOfVirtualAddress (p : Paging) (d virtualAddr : ℕ) : Except Panic ℕ :=
  let pageNum := virtualAddr / 4096
  let pageOffset := virtualAddr % 4096
  let table := (p.directories d).tables (pageNum / 1024)
  if table = 0 then
    .error (.undefined "get_physical_address_of_virtual_address: there is no page table")
  else .ok (u32 ((p.tables table (pageNum % 1024)).frameAddress20Bits * 0x1000 + pageOffset))

def pagingGetPageFrameAddress (p : Paging) (d pageNum : ℕ) : Except Panic ℕ :=
  getPhysicalAddressOfVirtualAddress p d (u32 (pageNum * 0x1000))

def pagingGetPageDirectoryX86TablesFrameAddress (p : Paging) (d : ℕ) : Except Panic ℕ := do
  let address ← getPhysicalAddressOfVirtualAddress p p.kernelPageDirectory d
  return u32 (address + 4096)

/-- `paging_copy_frame`, by the numbers of the frames. -/
def pagingCopyFrame (dst src : ℕ) (p : Paging) : Paging :=
  { p with frames := Function.update p.frames dst (p.frames src) }

section

variable (uninit : Paging → Mem → ℤ)

/-- `kalloc_init`. -/
def kallocInit (initialPages : ℕ) (p : Paging) (m : Mem) : Except Panic Kernel := do
  let s ← kallocHeapCreate (pagingEnv uninit) p m kernelHeapAddress initialPages
  let (_, s) ← kallocHeapAlloc (pagingEnv uninit) s 1 0
  return s

/-- `kalloc_alloc_aligned`. -/
def kallocAllocAligned (s : Kernel) (size alignment : ℕ) : Except Panic (ℕ × Kernel) :=
  kallocHeapAlloc (pagingEnv uninit) s size alignment

/-- `kalloc_alloc`. -/
def kallocAlloc (s : Kernel) (size : ℕ) : Except Panic (ℕ × Kernel) :=
  kallocHeapAlloc (pagingEnv uninit) s size 0

/-- `kalloc_free`. A page table of the kernel is no block of the heap. -/
def kallocFree (s : Kernel) (ptr : ℕ) : Except Panic Kernel :=
  if ptr < kernelHeapAddress then .error (.undefined "kalloc_free: not a block of the heap")
  else kallocHeapFree (pagingEnv uninit) s ptr

/-- `paging_create_process_page_with_any_frame` where the table is missing. -/
def createProcessTable (s : Kernel) (d pageTableIndex : ℕ) : Except Panic Kernel := do
  let (t, s) ← kallocAllocAligned uninit s sizeofPageTable 0x1000
  let p := s.sys.zeroTable t
  let frameAddress ← pagingGetPageFrameAddress p p.kernelPageDirectory (t / 0x1000)
  let p := p.setDirectoryEntry d pageTableIndex t (frameAddress ||| 0x7)
  return { s with sys := p.zeroTable t }

/-- `paging_create_process_page_with_any_frame`. The address space of `d` is the active one: the
byte that tests the page goes to its frame. -/
def pagingCreateProcessPageWithAnyFrame (s : Kernel) (d pageNum userMode : ℕ) :
    Except Panic (ℕ × Kernel) := do
  let pageTableIndex := pageNum / 1024
  let s ← if (s.sys.directories d).tables pageTableIndex = 0 then
      createProcessTable uninit s d pageTableIndex
    else .ok s
  let (allocdFrame, p) ←
    mapPage ((s.sys.directories d).tables pageTableIndex) pageNum userMode s.sys
  let p := { p with
    frames := Function.update p.frames allocdFrame
      (Function.update (p.frames allocdFrame) 0 0xAB) }
  return (allocdFrame, { s with sys := p })

/-! ## Cloning -/

/-- The inner loop of `paging_clone_page_directory_for_new_process`: page `j` of the table `i`. -/
def clonePage (source copied i : ℕ) (j : ℕ) (p : Paging) : Except Panic Paging :=
  let currentPageEntry := p.tables ((p.directories source).tables i) j
  if currentPageEntry.present then do
    let (allocdFrame, p) ← allocFrame p
    let p := pagingCopyFrame allocdFrame currentPageEntry.frameAddress20Bits p
    return p.setEntry copied j { currentPageEntry with
      frameAddress20Bits := allocdFrame % 0x100000, userMode := true }
  else .ok p

/-- The outer loop: table `i`. -/
def cloneTable (source cloned i : ℕ) (s : Kernel) : Except Panic Kernel :=
  if (s.sys.directories source).tables i ≠ 0 then do
    let (copied, s) ← kallocAllocAligned uninit s sizeofPageTable 0x1000
    let p ← forLoop (clonePage source copied i) 1024 (s.sys.zeroTable copied)
    let address ← getPhysicalAddressOfVirtualAddress p p.kernelPageDirectory copied
    return { s with sys := p.setDirectoryEntry cloned i copied (address ||| 0x7) }
  else .ok s

/-- The loop that links the kernel. -/
def cloneLink (source cloned i : ℕ) (p : Paging) : Paging :=
  if (p.directories source).tables i ≠ 0 then
    p.setDirectoryEntry cloned i ((p.directories source).tables i)
      ((p.directories source).tablesX86Representation i)
  else p

def pagingClonePageDirectoryForNewProcess (s : Kernel) (source : ℕ) :
    Except Panic (ℕ × Kernel) := do
  let (cloned, s) ← kallocAllocAligned uninit s sizeofPageDirectory 0x1000
  let s := { s with sys := s.sys.zeroDirectory cloned }
  let s ← forLoop (fun i => cloneTable uninit source cloned (1024 / 4 + i)) (1024 - 1024 / 4) s
  let p ← forLoop (fun i p => .ok (cloneLink source cloned i p)) (1024 / 4) s.sys
  return (cloned, { s with sys := p })

/-! ## Cleaning -/

/-- `KERNEL_STACK_ADDRESS_IN_PROCESS_ADDRESS_SPACE`. -/
def kernelStackLastPage : ℕ := 0xF0000000 / 0x1000

/-- `is_page_part_of_kernel_stack_in_process_address_space`. -/
def isPagePartOfKernelStack (pageNum : ℕ) : Prop :=
  pageNum ≥ kernelStackLastPage - 2048 ∧ pageNum ≤ kernelStackLastPage

instance (pageNum : ℕ) : Decidable (isPagePartOfKernelStack pageNum) :=
  inferInstanceAs (Decidable (_ ∧ _))

/-- The inner loop of `paging_clean_all_non_kernel_pages_from_page_directory`: page `j` of the table
`t`, with `should_table_be_destroyed`. -/
def cleanPage (i t j : ℕ) : Bool × Paging → Except Panic (Bool × Paging)
  | (shouldTableBeDestroyed, p) => do
    let pageEntry := p.tables t j
    let pageNum := i * 1024 + j
    if pageEntry.present then
      let used ← bitmapGet p.availableFrames pageEntry.frameAddress20Bits
      assert (used ≠ 0) "Page %u (0x%x) is present, but its frame (0x%x) is not allocd!"
      if ¬ isPagePartOfKernelStack pageNum then
        let availableFrames ← bitmapClear p.availableFrames pageEntry.frameAddress20Bits
        return (shouldTableBeDestroyed,
          { p with availableFrames := availableFrames }.setEntry t j PageEntry.zero)
      else return (false, p)
    else return (shouldTableBeDestroyed, p)

/-- The outer loop: table `i`. -/
def cleanTable (d i : ℕ) (s : Kernel) : Except Panic Kernel :=
  let currentTable := (s.sys.directories d).tables i
  if currentTable ≠ 0 then do
    let (shouldTableBeDestroyed, p) ← forLoop (cleanPage i currentTable) 1024 (true, s.sys)
    let s := { s with sys := p }
    if shouldTableBeDestroyed then
      let s ← kallocFree uninit s currentTable
      return { s with sys := s.sys.setDirectoryEntry d i 0 0 }
    else return s
  else .ok s

def pagingCleanAllNonKernelPagesFromPageDirectory (s : Kernel) (d : ℕ) : Except Panic Kernel :=
  forLoop (fun i => cleanTable uninit d (1024 / 4 + i)) (1024 - 1024 / 4) s

end

end RawOS
