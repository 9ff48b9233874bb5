import RawOS.HashMap

/-!
# `rawx.c`

`rawx_load` reads an image of the RawX format and fills the address space of a process. The file
is a memory of its own, addressed from `data` on: its offsets wrap at `2 ^ 32` as pointers do, and
the loader writes call addresses into it. The address space of the process is another memory.
`paging_create_process_page_with_any_frame` is a parameter (`LoaderEnv`).
-/

namespace RawOS

def rawxLoadAddressMinimum : ℕ := 1024 * 1024 * 1024
def rawxStackAddress : ℕ := 0xC0000000
def rawxStackAddressMaxReservedPages : ℕ := 2048
def rawxImportDataMaxReservedPages : ℕ := 2048
def rawxSectionAddressMaximum : ℕ :=
  rawxStackAddress - rawxStackAddressMaxReservedPages * 0x1000 -
    rawxImportDataMaxReservedPages * 0x1000
/-- `RAWX_KERNEL_LIB_NAME`. -/
def rawxKernelLibName : List Char := ['k', 'e', 'r', 'n', 'e', 'l']
def kernelStackAddressInProcessAddressSpace : ℕ := 0xF0000000
def kernelStackReservedPagesInProcessAddressSpace : ℕ := 2048

/-! ## The file -/

/-- The byte of the file at pointer offset `p`. -/
def fileByte (data : Mem) (p : ℕ) : UInt8 := data (u32 p)

def file16 (data : Mem) (p : ℕ) : ℕ := load16 (fileByte data) p

def file32 (data : Mem) (p : ℕ) : ℕ := load32 (fileByte data) p

/-- A store through a pointer into the file. -/
def setFile32 (data : Mem) (p v : ℕ) : Mem :=
  let data := store8 data (u32 p) (UInt8.ofNat v)
  let data := store8 data (u32 (p + 1)) (UInt8.ofNat (v / 256))
  let data := store8 data (u32 (p + 2)) (UInt8.ofNat (v / 65536))
  store8 data (u32 (p + 3)) (UInt8.ofNat (v / 16777216))

/-- `sizeof(RawX_Header)`. -/
def sizeofRawxHeader : ℕ := 28
/-- `sizeof(RawX_Section)`. -/
def sizeofRawxSection : ℕ := 20
/-- `sizeof(RawX_Import_Table)`. -/
def sizeofRawxImportTable : ℕ := 4
/-- `sizeof(RawX_Import_Address)`. -/
def sizeofRawxImportAddress : ℕ := 12

def headerVersion (data : Mem) : ℕ := file16 data 4
def headerFlags (data : Mem) : ℕ := file32 data 8
def headerLoadAddress (data : Mem) : ℕ := file32 data 12
def headerEntryPointOffset (data : Mem) : ℕ := file32 data 16
def headerStackSize (data : Mem) : ℕ := file32 data 20
def headerSectionCount (data : Mem) : ℕ := file32 data 24

/-- Where section `i` stands in the section table. -/
def sectionOffset (i : ℕ) : ℕ := sizeofRawxHeader + i * sizeofRawxSection

def sectionSizeBytes (data : Mem) (i : ℕ) : ℕ := file32 data (sectionOffset i + 8)
def sectionVirtualAddress (data : Mem) (i : ℕ) : ℕ := file32 data (sectionOffset i + 12)
def sectionFilePtrToData (data : Mem) (i : ℕ) : ℕ := file32 data (sectionOffset i + 16)

/-- `header->load_address + sec->virtual_address`. -/
def sectionAddress (data : Mem) (i : ℕ) : ℕ :=
  u32 (headerLoadAddress data + sectionVirtualAddress data i)

/-- `strcmp` of the string at `s1` and the string of the characters `s2`: 1 if they differ, 0 if
they are equal. -/
def strcmp (s1 : ℕ → UInt8) : List Char → ℕ
  | [] => if s1 0 = 0 then 0 else 1
  | c :: cs => if s1 0 = 0 ∨ s1 0 ≠ c.toUInt8 then 1 else strcmp (fun i => s1 (i + 1)) cs

/-- The string at pointer offset `p` of the file. -/
def fileString (data : Mem) (p : ℕ) : ℕ → UInt8 := fun i => fileByte data (p + i)

def codeName : List Char := ['.', 'c', 'o', 'd', 'e']
def dataName : List Char := ['.', 'd', 'a', 't', 'a']
def importName : List Char := ['.', 'i', 'm', 'p', 'o', 'r', 't']

/-- `!strcmp(sec->name, name)`. -/
def sectionHasName (data : Mem) (i : ℕ) (name : List Char) : Prop :=
  strcmp (fileString data (sectionOffset i)) name = 0

instance (data : Mem) (i : ℕ) (name : List Char) : Decidable (sectionHasName data i name) :=
  inferInstanceAs (Decidable (_ = _))

/-! ## State -/

/-- `Syscall_Stub_Information`. -/
structure SyscallStubInformation where
  syscallStubAddress : ℕ
  syscallStubSize : ℕ

/-- What the loader runs on: the pages of the process, the stubs of `syscall.c` by their name, and
the code of the kernel, which holds the stubs. -/
structure LoaderEnv (σ : Type) where
  createProcessPage : ℕ → ℕ → σ → Except Panic σ
  syscallStubs : HashMap (ℕ → UInt8) SyscallStubInformation
  code : Mem

/-- `RawX_Load_Information`. A field is `none` until it is written. -/
structure RawxLoadInformation where
  codeAddress : Option ℕ
  dataAddress : Option ℕ
  stackAddress : Option ℕ
  entrypoint : Option ℕ

/-- The pages, the memory of the process and the file. `sectionPages` records the pages that were
created for the data of sections; the loader does not read it. -/
structure Loader (σ : Type) where
  pages : σ
  mem : Mem
  data : Mem
  sectionPages : List ℕ

/-- `memcpy` from one memory to another, through pointers that wrap. -/
def memcpyFrom (mem : Mem) (dst : ℕ) (other : Mem) (src : ℕ) : ℕ → Mem
  | 0 => mem
  | size + 1 =>
    store8 (memcpyFrom mem dst other src size) (u32 (dst + size)) (other (u32 (src + size)))

section

variable {σ : Type} (env : LoaderEnv σ)

/-- `paging_create_process_page_with_any_frame` on the directory of the process, with the byte that
it writes to the page. -/
def createProcessPage (l : Loader σ) (pageNum userMode : ℕ) : Except Panic (Loader σ) := do
  let pages ← env.createProcessPage pageNum userMode l.pages
  return { l with pages := pages, mem := store8 l.mem (pageNum * 0x1000) 0xAB }

/-- `syscall_stub_get`. -/
def syscallStubGet (syscallName : ℕ → UInt8) :
    Except Panic (ℤ × Option SyscallStubInformation) :=
  hashMapGet env.syscallStubs syscallName

/-! ## Sections -/

/-- The loop that copies the data of a section, from `i` on. -/
def copySection (address sectionData sizeBytes : ℕ) : ℕ → ℕ → Loader σ → Except Panic (Loader σ)
  | 0, _, _ => .error .outOfFuel
  | fuel + 1, i, l =>
    if i < sizeBytes then do
      let targetAddress := u32 (address + i)
      let pageNum := targetAddress / 0x1000
      let dataChunkSize := min 0x1000 (sizeBytes - i)
      let l ← createProcessPage env l pageNum 1
      let mem := memcpyFrom l.mem targetAddress l.data sectionData dataChunkSize
      copySection address sectionData sizeBytes fuel (u32 (i + 0x1000))
        { l with mem := mem, sectionPages := l.sectionPages ++ [pageNum] }
    else .ok l

/-- Every page of the address space, and one more: a section that ends above
`2 ^ 32 - 0x1000` comes back to its first page, which exists by then. -/
def copyFuel : ℕ := 1048577

/-- The address of the entry `i` of the import table at `start`. -/
def importAddress (start i : ℕ) : ℕ := start + sizeofRawxImportTable + i * sizeofRawxImportAddress

/-- The loop of an import section over its first `n` symbols, with the address that follows the
last stub. -/
def importSymbols (start pageAddr : ℕ) (l : Loader σ) : ℕ → Except Panic (Loader σ × ℕ)
  | 0 => .ok (l, pageAddr)
  | n + 1 => do
    let (l, currentAddr) ← importSymbols start pageAddr l n
    let imp := importAddress start n
    let symbolName := fileString l.data (start + file32 l.data imp)
    let libName := fileString l.data (start + file32 l.data (imp + 4))
    assert (strcmp libName rawxKernelLibName = 0)
      "Error loading RawX: import has unknown lib (%s)."
    let (status, ssi) ← syscallStubGet env symbolName
    assert (status = 0) "Error loading RawX: import has unknown symbol (%s)."
    match ssi with
    | none => .error (.undefined "syscall_stub_get: no stub")
    | some ssi =>
      assert (u32 (currentAddr + ssi.syscallStubSize) < u32 (pageAddr + 0x1000))
        "Error loading RawX: more than one page needed for imports! go fix it!"
      let mem := memcpyFrom l.mem currentAddr env.code ssi.syscallStubAddress ssi.syscallStubSize
      return ({ l with mem := mem, data := setFile32 l.data (imp + 8) currentAddr },
        u32 (currentAddr + ssi.syscallStubSize))

/-- One pass of the loop over the sections. -/
def loadSection (i : ℕ) (rli : RawxLoadInformation) (l : Loader σ) :
    Except Panic (RawxLoadInformation × Loader σ) := do
  let address := sectionAddress l.data i
  let sectionData := sectionFilePtrToData l.data i
  let sizeBytes := sectionSizeBytes l.data i
  assert (address % 0x1000 = 0)
    "Error loading RawX: section address needs to be 0x1000 aligned, but got 0x%x."
  assert (u32 (address + sizeBytes) < rawxSectionAddressMaximum)
    "Error loading RawX: (section address + size in bytes) is too high! Got 0x%x but can't be greater than 0x%x."
  if sectionHasName l.data i codeName then
    let l ← copySection env address sectionData sizeBytes copyFuel 0 l
    return ({ rli with codeAddress := some address }, l)
  else if sectionHasName l.data i dataName then
    let l ← copySection env address sectionData sizeBytes copyFuel 0 l
    return ({ rli with dataAddress := some address }, l)
  else if sectionHasName l.data i importName then
    let symbolCount := toS32 (file32 l.data sectionData)
    let pageAddr := rawxSectionAddressMaximum
    let l ← createProcessPage env l (pageAddr / 0x1000) 1
    let (l, _) ← importSymbols env sectionData pageAddr l symbolCount.toNat
    -- `sec->size_bytes` is read again: a call address may have been written over it
    let l ← copySection env address sectionData (sectionSizeBytes l.data i) copyFuel 0 l
    return (rli, l)
  else return (rli, l)

/-- The loop over the sections, from section `i` on. -/
def loadSections : ℕ → ℕ → RawxLoadInformation → Loader σ →
    Except Panic (RawxLoadInformation × Loader σ)
  | 0, _, _, _ => .error .outOfFuel
  | fuel + 1, i, rli, l =>
    if i < headerSectionCount l.data then do
      let (rli, l) ← loadSection env i rli l
      loadSections fuel (i + 1) rli l
    else .ok (rli, l)

/-- `section_count` is a `u32`. -/
def sectionFuel : ℕ := 4294967296

/-! ## `rawx_load` -/

/-- The loops that create a stack: `n` pages from `address` downwards. -/
def createStackPages (address userMode : ℕ) (l : Loader σ) : ℕ → Except Panic (Loader σ)
  | 0 => .ok l
  | n + 1 => do
    let l ← createStackPages address userMode l n
    createProcessPage env l (u32Sub (address / 0x1000) n) userMode

/-- `if (create_stack)`. -/
def createStack (flag : Bool) (rli : RawxLoadInformation) (l : Loader σ) :
    Except Panic (RawxLoadInformation × Loader σ) :=
  if flag then do
    let stackSize := headerStackSize l.data
    assert (stackSize > 0) "Error loading RawX: stack size must be greater than 0 (got 0x%x)"
    assert (stackSize % 0x1000 = 0)
      "Error loading RawX: stack size must be 0x1000 aligned (got 0x%x)"
    let stackPages := stackSize / 0x1000
    assert (stackPages ≤ rawxStackAddressMaxReservedPages)
      "Error loading RawX: stack is too big! Got %u needed pages, but max is %u!"
    let l ← createStackPages env rawxStackAddress 1 l stackPages
    return ({ rli with stackAddress := some rawxStackAddress }, l)
  else .ok (rli, l)

/-- `if (create_kernel_stack)`. -/
def createKernelStack (flag : Bool) (l : Loader σ) : Except Panic (Loader σ) :=
  if flag then
    createStackPages env kernelStackAddressInProcessAddressSpace 0 l
      kernelStackReservedPagesInProcessAddressSpace
  else .ok l

/-- The checks of the header. -/
def checkHeader (data : Mem) (length : ℤ) : Except Panic Unit := do
  if length < sizeofRawxHeader then
    throw (.panic "Fatal parse error: end of file within header\n")
  let length := length - sizeofRawxHeader
  assert (fileByte data 0 = 'R'.toUInt8 ∧ fileByte data 1 = 'A'.toUInt8 ∧
      fileByte data 2 = 'W'.toUInt8 ∧ fileByte data 3 = 'X'.toUInt8)
    "Error loading RawX: RAW magic not present"
  assert (headerVersion data = 0) "Error loading RawX: Version %u not supported"
  assert (headerFlags data % 2 = 1) "Error loading RawX: x86 architecture is mandatory"
  assert (u32 (headerSectionCount data * sizeofRawxSection) ≤ length)
    "Error loading RawX: End of file within section table"
  assert (rawxLoadAddressMinimum ≤ headerLoadAddress data)
    "Error loading RawX: Load address is too short. Needs to be at least 0x%x, but got 0x%x."

/-- `rawx_load`, with its two flags. -/
def rawxLoad (length : ℤ) (stack kernelStack : Bool) (l : Loader σ) :
    Except Panic (RawxLoadInformation × Loader σ) := do
  checkHeader l.data length
  let (rli, l) ← loadSections env sectionFuel 0 ⟨none, none, none, none⟩ l
  let (rli, l) ← createStack env stack rli l
  let l ← createKernelStack env kernelStack l
  let entrypoint := u32 (headerLoadAddress l.data + headerEntryPointOffset l.data)
  return ({ rli with entrypoint := some entrypoint }, l)

end

end RawOS
