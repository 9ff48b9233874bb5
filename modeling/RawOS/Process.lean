import RawOS.Fs.Vfs
import RawOS.ProcessRing
import RawOS.Rawx

/-!
# `process.c`

The calls that start, copy, replace, end and switch processes. The processes are the ring of
`Paging` from `active_process` on; the registers that a process is resumed with are left out, and
its file descriptors are not those of `Descriptors`: only their allocation is here. A call that
goes to user mode or to another process does not return; `Outcome` says how it ends.

`rawx_load` works on the address space of the active process, whose bytes are in the frames.
-/

namespace RawOS

/-- The bytes that `hash_map_create` allocates in `process_init`. -/
def fileDescriptorsBytes : ℕ := tableBytes 16 4 4

/-! ## State -/

/-- What the calls run on and do not change: the values of uninitialised locals, the stubs of
`syscall.c` with the code that holds them, and the place of the local of `dev_read` on the stack. -/
structure ProcessEnv where
  uninit : Paging → Mem → ℤ
  syscallStubs : HashMap (ℕ → UInt8) SyscallStubInformation
  code : Mem
  kerb : ℕ

/-- The kernel with its files. -/
structure System where
  kernel : Kernel
  initrd : Initrd
  keyboard : KeyboardState
  currentPid : ℕ

/-- How a call ends. -/
inductive Outcome where
  | returned (value : ℤ)
  | userMode (esp eip : ℕ)
  | switched
  | waiting
  | halted
  deriving DecidableEq

/-- A pointer of a process that was assigned. -/
def assigned {α : Type} (what : String) : Option α → Except Panic α
  | none => .error (.undefined what)
  | some a => .ok a

/-- `active_process`. -/
def activeProcess (s : Kernel) : Except Panic Process :=
  assigned "active_process is null" s.sys.processes.head?

/-- `process->page_directory`. -/
def Process.directory (process : Process) : Except Panic ℕ :=
  assigned "page_directory was not assigned" process.pageDirectory

/-- A store into the process at `address`. -/
def Paging.setProcess (p : Paging) (address : ℕ) (f : Process → Process) : Paging :=
  { p with processes := p.processes.map fun process =>
      if process.address = address then f process else process }

/-! ## The memory of a process -/

/-- The bytes of the address space of `d`. -/
def processMemory (p : Paging) (d : ℕ) : Mem := fun x =>
  match p.pageOf d (x / 0x1000) with
  | none => 0
  | some entry => p.frames entry.frameAddress20Bits (x % 0x1000)

/-- The first page of `d` that has the frame `f`. -/
def pageWithFrame (p : Paging) (d f : ℕ) : Option ℕ :=
  (List.range 0x100000).find? fun n => (p.pageOf d n).map PageEntry.frameAddress20Bits = some f

/-- The frames when the pages of `d` hold `m`. -/
def storedFrames (p : Paging) (d : ℕ) (m : Mem) : ℕ → ℕ → UInt8 := fun f o =>
  match pageWithFrame p d f with
  | none => p.frames f o
  | some n => if o < 0x1000 then m (n * 0x1000 + o) else p.frames f o

/-- The pages of `d` hold `m`. -/
def storeMemory (p : Paging) (d : ℕ) (m : Mem) : Paging := { p with frames := storedFrames p d m }

section

variable (env : ProcessEnv)

/-! ## Loading an image -/

/-- What `rawx_load` uses. -/
def loaderEnv (d : ℕ) : LoaderEnv Kernel where
  createProcessPage pageNum userMode s := do
    let (_, s) ← pagingCreateProcessPageWithAnyFrame env.uninit s d pageNum userMode
    return s
  syscallStubs := env.syscallStubs
  code := env.code

/-- The file at `buffer`. -/
def imageFile (s : Kernel) (buffer : ℕ) : Mem := fun x => s.mem (u32 (buffer + x))

/-- `rawx_load` of the `size` bytes at `buffer` into the address space of `d`. The pages do not
depend on the memory of the process: they are those of a first run, and the bytes are those of a
second one that starts from what the frames of the new pages hold. -/
def loadImage (s : Kernel) (d buffer size : ℕ) (stack kernelStack : Bool) :
    Except Panic (RawxLoadInformation × Kernel) := do
  let data := imageFile s buffer
  let (_, l) ← rawxLoad (loaderEnv env d) (toS32 size) stack kernelStack ⟨s, fun _ => 0, data, []⟩
  let (rli, l) ← rawxLoad (loaderEnv env d) (toS32 size) stack kernelStack
    ⟨s, processMemory l.pages.sys d, data, []⟩
  let mem := fun x => if buffer ≤ x ∧ x < buffer + size then l.data (x - buffer) else l.pages.mem x
  return (rli, { l.pages with mem := mem, sys := storeMemory l.pages.sys d l.mem })

/-- `kalloc_alloc` of a buffer and `vfs_read` of the whole file into it: the buffer, and the state
after the read, `none` if it waits for a key. Interrupts are off. -/
def readImage (sys : System) (ref : NodeRef) (node : VfsNode) :
    Except Panic (ℕ × Kernel × Option (KeyboardState × Mem)) := do
  let (buffer, s) ← kallocAlloc env.uninit sys.kernel node.size
  let r ← vfsRead sys.initrd ref sys.keyboard s.mem env.kerb [] 0 node.size buffer
  return (buffer, s, r.map Prod.snd)

/-! ## `process_init` -/

/-- `INITIAL_PROCESS`. -/
def initialProcess : List UInt8 :=
  literal ['s', 'h', 'e', 'l', 'l', '.', 'r', 'a', 'w', 'x']

/-- The two lookups of `process_init`. -/
def initialNode (initrd : Initrd) : Except Panic (NodeRef × VfsNode) := do
  let initrdNode ← vfsLookup initrd .vfsRoot initrdName
  assert (initrdNode ≠ none) "Unable to initialize first process! initrd folder not found!"
  let initrdNode ← assigned "initrd_node is null" initrdNode
  let rawxNode ← vfsLookup initrd initrdNode initialProcess
  assert (rawxNode ≠ none) "Unable to initialize first process! File %s was not found!"
  let rawxNode ← assigned "rawx_node is null" rawxNode
  let node ← assigned "not a node" (initrd.node rawxNode)
  return (rawxNode, node)

/-- What `process_init` allocates for the first process: its record, the slots of its file
descriptors, and its page directory. -/
structure InitialProcess where
  address : ℕ
  slots : ℕ
  directory : ℕ

/-- The first process and its address space. -/
def createInitialProcess (s : Kernel) (pid : ℕ) : Except Panic (InitialProcess × Kernel) := do
  let (address, s) ← kallocAlloc env.uninit s sizeofProcess
  -- its fields hold what was in the heap
  let s := { s with sys := { s.sys with processes := [⟨address, 0, none⟩] } }
  let (slots, s) ← kallocAlloc env.uninit s fileDescriptorsBytes
  let s := { s with sys := s.sys.setProcess address fun q => { q with pid := pid } }
  let (d, s) ← pagingClonePageDirectoryForNewProcess env.uninit s s.sys.kernelPageDirectory
  let s := { s with sys := s.sys.setProcess address fun q => { q with pageDirectory := some d } }
  let _ ← pagingGetPageDirectoryX86TablesFrameAddress s.sys d
  return (⟨address, slots, d⟩, s)

/-- `process_init`. -/
def processInit (sys : System) : Except Panic (Outcome × System) := do
  let (ref, node) ← initialNode sys.initrd
  let (process, s) ← createInitialProcess env sys.kernel sys.currentPid
  let sys := { sys with kernel := s, currentPid := u32 (sys.currentPid + 1) }
  let (buffer, s, r) ← readImage env sys ref node
  match r with
  | none => return (.waiting, { sys with kernel := s })
  | some (keyboard, m) =>
    let (rli, s) ← loadImage env { s with mem := m } process.directory buffer node.size false true
    let eip ← assigned "rli.entrypoint was not written" rli.entrypoint
    return (.userMode kernelStackAddress eip, { sys with kernel := s, keyboard := keyboard })

/-! ## `process_fork` -/

/-- The loop that copies the kernel stack. -/
def copyKernelStack (source new : ℕ) (p : Paging) : Except Panic Paging :=
  forLoop (fun i p => do
    let pageNum := kernelStackAddressInProcessAddressSpace / 0x1000 - i
    let frameDstAddr ← pagingGetPageFrameAddress p new pageNum
    let frameSrcAddr ← pagingGetPageFrameAddress p source pageNum
    return pagingCopyFrame (frameDstAddr / 0x1000) (frameSrcAddr / 0x1000) p)
    kernelStackReservedPagesInProcessAddressSpace p

/-- `process_fork`, up to its return in the parent. -/
def processFork (sys : System) : Except Panic (Outcome × System) := do
  let (address, s) ← kallocAlloc env.uninit sys.kernel sizeofProcess
  let active ← activeProcess s
  -- the new process is the last one before `active_process`
  let s := { s with sys := { s.sys with processes := s.sys.processes ++ [⟨address, 0, none⟩] } }
  let source ← active.directory
  let (d, s) ← pagingClonePageDirectoryForNewProcess env.uninit s source
  let s := { s with sys := s.sys.setProcess address fun q => { q with pageDirectory := some d } }
  let p ← copyKernelStack source d s.sys
  let p := p.setProcess address fun q => { q with pid := sys.currentPid }
  return (.returned (toS32 sys.currentPid),
    { sys with kernel := { s with sys := p }, currentPid := u32 (sys.currentPid + 1) })

/-! ## `process_execve` -/

/-- `process_execve` for a file that was found. -/
def execveNode (sys : System) (ref : NodeRef) (node : VfsNode) :
    Except Panic (Outcome × System) := do
  let (buffer, s, r) ← readImage env sys ref node
  match r with
  | none => return (.waiting, { sys with kernel := s })
  | some (keyboard, m) =>
    let active ← activeProcess s
    let d ← active.directory
    let s ← pagingCleanAllNonKernelPagesFromPageDirectory env.uninit { s with mem := m } d
    let (rli, s) ← loadImage env s d buffer node.size true false
    let esp ← assigned "rli.stack_address was not written" rli.stackAddress
    let eip ← assigned "rli.entrypoint was not written" rli.entrypoint
    return (.userMode esp eip, { sys with kernel := s, keyboard := keyboard })

/-- `process_execve`. -/
def processExecve (sys : System) (imagePath : List UInt8) : Except Panic (Outcome × System) := do
  match ← fsUtilGetNodeByPath sys.initrd imagePath with
  | none => return (.returned (-1), sys)
  | some ref =>
    let node ← assigned "not a node" (sys.initrd.node ref)
    execveNode env sys ref node

/-! ## `process_exit` and `process_switch` -/

/-- The switch to the process that has become active. -/
def switchContext (s : Kernel) : Except Panic Unit := do
  let active ← activeProcess s
  let d ← active.directory
  let _ ← pagingGetPageDirectoryX86TablesFrameAddress s.sys d

/-- `process_exit`. The last process leaves the kernel halted. -/
def processExit (sys : System) : Except Panic (Outcome × System) := do
  let active ← activeProcess sys.kernel
  let d ← active.directory
  let s ← pagingCleanAllNonKernelPagesFromPageDirectory env.uninit sys.kernel d
  let s := { s with sys := { s.sys with processes := s.sys.processes.tail } }
  let s ← kallocFree env.uninit s active.address
  if s.sys.processes = [] then return (.halted, { sys with kernel := s })
  switchContext s
  return (.switched, { sys with kernel := s })

/-- `process_switch`. Without a process it returns. -/
def System.processSwitch (sys : System) : Except Panic (Outcome × System) :=
  if sys.kernel.sys.processes = [] then .ok (.returned 0, sys)
  else do
    let s := { sys.kernel with sys := { sys.kernel.sys with
      processes := sys.kernel.sys.processes.rotate 1 } }
    switchContext s
    return (.switched, { sys with kernel := s })

end

end RawOS
