import RawOS.Descriptors
import RawOS.Fs.FileReads
import RawOS.Fs.Ramdisk
import RawOS.PrintfSpec
import RawOS.Simulation
import RawOS.Syscall

/-!
# The system calls

`syscall_handler` on the files of a process, the screen and the keyboard. `FileMachine` is what the
calls are for: processes with numbered files of fixed contents, a keyboard, and a terminal.
`syscallRun_refines` says that every run of the calls is one of the machine.
-/

namespace RawOS

/-! ## `syscall.c` -/

/-- A call, as `syscall_handler` takes it from the registers. -/
inductive Request where
  | print (str : ℕ)
  | exit (ret : ℕ)
  | posCursor (x y : ℕ)
  | clearScreen
  | execve (imagePath : ℕ)
  | fork
  | «open» (path : ℕ)
  | read (fd buf count : ℕ)
  | write (fd buf count : ℕ)
  | close (fd : ℕ)
  deriving DecidableEq

/-- The `switch` of `syscall_handler`. -/
def syscallRequest (eax ebx ecx edx : ℕ) : Option Request :=
  match eax with
  | 0 => some (.print ebx)
  | 1 => some (.exit ebx)
  | 2 => some (.posCursor ebx ecx)
  | 3 => some .clearScreen
  | 4 => some (.execve ebx)
  | 5 => some .fork
  | 6 => some (.open ebx)
  | 7 => some (.read ebx ecx edx)
  | 8 => some (.write ebx ecx edx)
  | 9 => some (.close ebx)
  | _ => none

/-- The bytes from `a` on. -/
def memBytes (m : Mem) (a n : ℕ) : List UInt8 := (List.range n).map fun i => m (a + i)

/-- The files of the ramdisk, the addresses of the nodes, and that of the local of `dev_read`. The
files, the screen and the local lie apart. -/
structure SyscallEnv where
  initrd : Initrd
  image : Mem
  initrdData : ℕ
  address : NodeRef → ℕ
  nodeAt : ℕ → NodeRef
  kerb : ℕ
  initrd_eq : initrdInit image initrdData = .ok initrd
  address_ne_zero : ∀ ref, address ref ≠ 0
  nodeAt_address : ∀ ref, nodeAt (address ref) = ref
  kerb_screen : ApartFrom kerb 16 0xB8000 4000
  files_apart : ∀ (i : ℕ) (node : VfsNode) (data : ℕ), initrd.filesNodes[i]? = some node →
    initrd.filesData[i]? = some data → data + node.size ≤ 4294967296 ∧
      ApartFrom data node.size 0xB8000 4000 ∧ ApartFrom data node.size kerb 16

/-- The memory as the active process sees it, with the screen in it, the keyboard, the descriptors of
the processes, their pids, and `current_pid`. -/
structure SyscallState where
  screen : Screen
  keyboard : KeyboardState
  files : FdState
  pid : ℕ → UInt32
  currentPid : UInt32

def SyscallState.mem (s : SyscallState) : Mem := s.screen.mem

def SyscallState.setMem (s : SyscallState) (m : Mem) : SyscallState :=
  { s with screen := { s.screen with mem := m } }

/-- The field `write` of a node. -/
inductive VfsWrite where
  | devWrite
  deriving DecidableEq

/-- What `vfs_init` and the functions it calls set the fields `write` to. -/
def NodeRef.write : NodeRef → Option VfsWrite
  | .screenNode => some .devWrite
  | _ => none

/-- `dev_write`. The buffer is not in the video memory. -/
def devWrite (node : NodeRef) (s : Screen) (size buf : ℕ) : ℤ × Screen :=
  if node = .screenNode then (0, screenPrintWithLen s (memBytes s.mem buf size)) else (0, s)

/-- `vfs_write`. -/
def vfsWrite (initrd : Initrd) (ref : NodeRef) (s : Screen) (_offset size buf : ℕ) :
    Except Panic (ℤ × Screen) :=
  match initrd.node ref with
  | none => .error (.undefined "vfs_write: not a node")
  | some _ =>
    match ref.write with
    | some .devWrite => .ok (devWrite ref s size buf)
    | none => .ok (0, s)

/-- The bytes of a literal. -/
def formatString (text : String) : List UInt8 := text.toList.map Char.toUInt8 ++ [0]

/-- `printf`. -/
def printf (s : Screen) (format : List UInt8) (args : List PrintArg) : Except Panic Screen := do
  let calls ← vprintf format args
  return calls.foldl screenPrintWithLen s

/-- `printf("%s", str)`. -/
def printfString (s : Screen) (str : ℕ) : Except Panic Screen :=
  match stringAt s.mem str stringFuel with
  | none => .error (.undefined "printf: the string has no terminator")
  | some text => printf s (formatString "%s") [.str (text ++ [0])]

/-- The message of `fs_util_get_node_by_path`. -/
def absolutePathsOnly : List UInt8 := formatString
  "fsutil: Only absolute paths are supported for now. Path needs to start with slash (/), but got %s.\n"

/-- What `fs_util_get_node_by_path` prints. -/
def fsUtilGetNodeByPathPrint (s : Screen) (path : List UInt8) : Except Panic Screen :=
  if path.head? ≠ some '/'.toUInt8 then printf s absolutePathsOnly [.str (path ++ [0])] else .ok s

/-- The message of `process_exit`. -/
def exitingFromProcess : List UInt8 :=
  formatString "Exiting from process %u with return value %u...\n"

/-- What `process_exit` prints. -/
def processExitPrint (s : Screen) (pid ret : UInt32) : Except Panic Screen :=
  printf s exitingFromProcess [.word pid, .word ret]

/-- How a call ends: it returns, with what it stores to `eax`, if anything; it waits for a key; or
`process_exit`, `process_execve` or `process_fork` take over. -/
inductive Handled where
  | returns (eax : Option ℤ) (s : SyscallState)
  | waits
  | process

/-- `syscall_handler`. If the table of the descriptors grows, `new` is the address of its slots; the
keys `scanCodes` come while the call waits. The nodes have no `open` and no `close`. -/
def syscallHandler (env : SyscallEnv) (s : SyscallState) (new : ℕ) (scanCodes : List UInt8) :
    Request → Except Panic Handled
  | .print str => do
    let screen ← printfString s.screen str
    return .returns none { s with screen := screen }
  | .exit _ => .ok .process
  | .posCursor x y => do
    let screen ← screenPosCursor s.screen x y
    return .returns none { s with screen := screen }
  | .clearScreen => .ok (.returns none { s with screen := screenClear s.screen })
  | .execve _ => .ok .process
  | .fork => .ok .process
  | .open path =>
    match stringAt s.mem path stringFuel with
    | none => .error (.undefined "fs_util_get_node_by_path: the path has no terminator")
    | some path => do
      let screen ← fsUtilGetNodeByPathPrint s.screen path
      match ← fsUtilGetNodeByPath env.initrd path with
      | none => return .returns (some (-1)) { s with screen := screen }
      | some ref =>
        let (fd, files) ← processAddFd s.files (env.address ref) new
        return .returns (some (toS32 fd)) { s with screen := screen, files := files }
  | .read fd buf count => do
    let node ← processGetNodeOfFd s.files s.files.activeProcess fd
    if node = 0 then return .returns (some (-1)) s
    else
      match ← vfsRead env.initrd (env.nodeAt node) s.keyboard s.mem env.kerb scanCodes 0 count buf with
      | none => return .waits
      | some (r, keyboard, mem) => return .returns (some r) { s.setMem mem with keyboard := keyboard }
  | .write fd buf count => do
    let node ← processGetNodeOfFd s.files s.files.activeProcess fd
    if node = 0 then return .returns (some (-1)) s
    else
      let (r, screen) ← vfsWrite env.initrd (env.nodeAt node) s.screen 0 count buf
      return .returns (some r) { s with screen := screen }
  | .close fd => do
    let node ← processGetNodeOfFd s.files s.files.activeProcess fd
    if node = 0 then return .returns (some (-1)) s else return .returns (some 0) s

/-! ## Runs -/

/-- A byte of the screen. -/
def ScreenByte (x : ℕ) : Prop := 0xB8000 ≤ x ∧ x < 0xB8000 + 4000

/-- A byte of a file of the ramdisk. -/
def SyscallEnv.FileByte (env : SyscallEnv) (x : ℕ) : Prop :=
  ∃ (i : ℕ) (node : VfsNode) (data : ℕ), env.initrd.filesNodes[i]? = some node ∧
    env.initrd.filesData[i]? = some data ∧ data ≤ x ∧ x < data + node.size

/-- A byte of the local of `dev_read`. -/
def SyscallEnv.KerbByte (env : SyscallEnv) (x : ℕ) : Prop := env.kerb ≤ x ∧ x < env.kerb + 16

/-- The memory of the kernel that the calls use. -/
def SyscallEnv.Uses (env : SyscallEnv) (x : ℕ) : Prop :=
  ScreenByte x ∨ env.KerbByte x ∨ env.FileByte x

/-- The process points to memory of its own: there is a byte for the keyboard in any buffer. -/
def Request.Own (env : SyscallEnv) (m : Mem) : Request → Prop
  | .print str => ∀ text, stringAt m str stringFuel = some text →
    ∀ i ≤ text.length, ¬ env.Uses (str + i)
  | .open path => ∀ text, stringAt m path stringFuel = some text →
    ∀ i ≤ text.length, ¬ env.Uses (path + i)
  | .read _ buf count => buf < 4294967296 ∧ ∀ i < max count 1, ¬ env.Uses (buf + i)
  | .write _ buf count => ∀ i < count, ¬ env.Uses (buf + i)
  | _ => True

/-- The slots of the active process are its own, and its `fd_next` is none of its descriptors. A
process that was not forked has the latter always. -/
def OpensFresh (s : FdState) : Prop :=
  Unshared s ∧ ∀ p, s.processes s.activeProcess = some p →
    processGetNodeOfFd s s.activeProcess p.fdNext = .ok 0

/-- What happens: a call, with the keys that come meanwhile and what it stores to `eax`; a fork; a
switch to or an exit into a process, which sees the memory `m`; stores of the process, or a new image
of it; a key; and a message, which is what the rest of the kernel prints. A call that waits for a key
is one event: there is no switch meanwhile. -/
inductive SyscallEvent where
  | call (r : Request) (scanCodes : List UInt8) (eax : Option ℤ)
  | fork (child : ℕ)
  | switch (process : ℕ) (m : Mem)
  | exit (ret : UInt32) (next : ℕ) (m : Mem)
  | store (m : Mem)
  | key (scanCode : UInt8)
  | message (text : List UInt8)

/-- A step. -/
inductive SyscallStep (env : SyscallEnv) (s : SyscallState) : SyscallEvent → SyscallState → Prop where
  | call {r : Request} {new : ℕ} {scanCodes : List UInt8} {eax : Option ℤ} {s' : SyscallState} :
    r.Own env s.mem → s.files.tables new = none → (∀ path, r = .open path → OpensFresh s.files) →
    syscallHandler env s new scanCodes r = .ok (.returns eax s') →
    SyscallStep env s (.call r scanCodes eax) s'
  | fork {child fdNext : ℕ} {files : FdState} : fdNext < 4294967296 →
    FdStep s.files (.fork child fdNext) 0 files →
    SyscallStep env s (.fork child) { s with
      files := files
      pid := Function.update s.pid child s.currentPid
      currentPid := s.currentPid + 1 }
  | switch {process : ℕ} {files : FdState} {m : Mem} : FdStep s.files (.switch process) 0 files →
    (∀ x, env.Uses x → m x = s.mem x) →
    SyscallStep env s (.switch process m) { s.setMem m with files := files }
  | exit {ret : UInt32} {next : ℕ} {files : FdState} {screen : Screen} {m : Mem} :
    processExitPrint s.screen (s.pid s.files.activeProcess) ret = .ok screen →
    FdStep s.files (.exit next) 0 files → (∀ x, env.Uses x → m x = screen.mem x) →
    SyscallStep env s (.exit ret next m) { s with screen := { screen with mem := m }, files := files }
  | store {m : Mem} : (∀ x, env.Uses x → m x = s.mem x) → SyscallStep env s (.store m) (s.setMem m)
  | key {scanCode : UInt8} {k : KeyboardState} {m : Mem} :
    keyboardInterruptHandler s.keyboard s.mem scanCode = (k, m) →
    SyscallStep env s (.key scanCode) { s.setMem m with keyboard := k }
  | message {text : List UInt8} :
    SyscallStep env s (.message text) { s with screen := screenPrintWithLen s.screen text }

/-- After `process_init`, with something on the screen. -/
inductive SyscallBooted (env : SyscallEnv) : SyscallState → Terminal UInt8 → Prop where
  | init {screen : Screen} {t : Terminal UInt8} {process data : ℕ} {table : FdTable} {slots : FdSlots}
    {pid : ℕ → UInt32} :
    Shows screen t → t.Fits 80 25 0 → (∀ x, env.FileByte x → screen.mem x = env.image x) →
    fileDescriptorsCreate data = (table, slots) →
    SyscallBooted env ⟨screen, keyboardInit,
      ⟨Function.update (fun _ => none) process (some ⟨table, 0⟩), process,
        Function.update (fun _ => none) data (some slots)⟩, Function.update pid process 1, 2⟩ t

/-! ## What the calls are for -/

/-- Processes with pids and with numbered files. `forked` are those that were forked, and `shift` is
the key. -/
structure FileMachine where
  mem : Mem
  active : ℕ
  nodes : ℕ → MapSpec ℕ NodeRef
  forked : ℕ → Bool
  terminal : Terminal UInt8
  shift : Bool
  pid : ℕ → UInt32
  currentPid : UInt32

/-- The bytes of the file `i`. -/
def SyscallEnv.content (env : SyscallEnv) (i : ℕ) : List UInt8 :=
  match env.initrd.filesNodes[i]?, env.initrd.filesData[i]? with
  | some node, some data => memBytes env.image data node.size
  | _, _ => []

/-- The bytes at `a`. -/
def storeBytes (m : Mem) (a : ℕ) (bytes : List UInt8) : Mem :=
  fun x => if a ≤ x ∧ x < a + bytes.length then bytes.getD (x - a) 0 else m x

/-- The keyboard with the shift key up or down. -/
def keyboardWith (shift : Bool) : KeyboardState := { keyboardInit with shiftEnabled := shift }

/-- The shift key after a key. -/
def shiftAfter (shift : Bool) (scanCode : UInt8) : Bool :=
  (keyboardInterruptHandler (keyboardWith shift) (fun _ => 0) scanCode).1.shiftEnabled

/-- The first character that is typed, and the shift key then. -/
def typedWith (shift : Bool) : List UInt8 → Option (UInt8 × Bool)
  | [] => none
  | scanCode :: scanCodes =>
    if CharacterPress (keyboardWith shift) scanCode then
      some (getKeyCharacter (keyboardWith shift)
        ((keyboardWith shift).keyLookupTable scanCode.toNat).keyCode, shift)
    else typedWith (shiftAfter shift scanCode) scanCodes

namespace FileMachine

/-- The file of the active process with the number `fd`. -/
def node (M : FileMachine) (fd : ℕ) : Option NodeRef := M.nodes M.active fd

def print (M : FileMachine) (text : List UInt8) : FileMachine :=
  { M with terminal := text.foldl (fun t c => t.put 80 25 (terminalChar c)) M.terminal }

/-- `printf`, of a format without `%d`. -/
def printf (M : FileMachine) (format : List UInt8) (args : List PrintArg) : FileMachine :=
  M.print (expandFormat (pieces (cString format)) args)

def opened (M : FileMachine) (fd : ℕ) (ref : NodeRef) : FileMachine :=
  { M with
    nodes := Function.update M.nodes M.active (Function.update (M.nodes M.active) fd (some ref)) }

end FileMachine

/-- A call, the keys that come meanwhile, and what it returns. Reads start at the beginning of the
file, and a file that is closed stays open. -/
inductive FileCall (env : SyscallEnv) (M : FileMachine) :
    Request → List UInt8 → Option ℤ → FileMachine → Prop where
  | print {str : ℕ} {keys text : List UInt8} : stringAt M.mem str stringFuel = some text →
    FileCall env M (.print str) keys none (M.print text)
  | posCursor {x y : ℕ} {keys : List UInt8} : x < 80 → y < 25 →
    FileCall env M (.posCursor x y) keys none { M with terminal := M.terminal.moveTo x y }
  | clearScreen {keys : List UInt8} :
    FileCall env M .clearScreen keys none { M with terminal := .blank 0 }
  | relative {path : ℕ} {keys name : List UInt8} : stringAt M.mem path stringFuel = some name →
    name.head? ≠ some '/'.toUInt8 →
    FileCall env M (.open path) keys (some (-1)) (M.printf absolutePathsOnly [.str (name ++ [0])])
  | noFile {path : ℕ} {keys name : List UInt8} : stringAt M.mem path stringFuel = some name →
    name.head? = some '/'.toUInt8 → fsUtilGetNodeByPath env.initrd name = .ok none →
    FileCall env M (.open path) keys (some (-1)) M
  | opened {path fd : ℕ} {keys name : List UInt8} {ref : NodeRef} :
    stringAt M.mem path stringFuel = some name →
    fsUtilGetNodeByPath env.initrd name = .ok (some ref) → fd < 4294967296 → M.node fd = none →
    (M.forked M.active = false → ∀ fd' < fd, (M.node fd').isSome) →
    FileCall env M (.open path) keys (some (toS32 fd)) (M.opened fd ref)
  | readNone {fd buf count : ℕ} {keys : List UInt8} : M.node fd = none →
    FileCall env M (.read fd buf count) keys (some (-1)) M
  | readFile {fd buf count i : ℕ} {keys : List UInt8} : M.node fd = some (.initrdFilesNodes i) →
    FileCall env M (.read fd buf count) keys (some (toS32 ((env.content i).take count).length))
      { M with mem := storeBytes M.mem buf ((env.content i).take count) }
  | readKey {fd buf count : ℕ} {keys : List UInt8} {c : UInt8} {shift : Bool} :
    M.node fd = some .keyboardNode → typedWith M.shift keys = some (c, shift) →
    FileCall env M (.read fd buf count) keys (some 1)
      { M with mem := storeBytes M.mem buf [c], shift := shift }
  | readOther {fd buf count : ℕ} {keys : List UInt8} {ref : NodeRef} : M.node fd = some ref →
    (∀ i, ref ≠ .initrdFilesNodes i) → ref ≠ .keyboardNode →
    FileCall env M (.read fd buf count) keys (some 0) M
  | writeNone {fd buf count : ℕ} {keys : List UInt8} : M.node fd = none →
    FileCall env M (.write fd buf count) keys (some (-1)) M
  | writeScreen {fd buf count : ℕ} {keys : List UInt8} : M.node fd = some .screenNode →
    FileCall env M (.write fd buf count) keys (some 0) (M.print (memBytes M.mem buf count))
  | writeOther {fd buf count : ℕ} {keys : List UInt8} {ref : NodeRef} : M.node fd = some ref →
    ref ≠ .screenNode → FileCall env M (.write fd buf count) keys (some 0) M
  | closeNone {fd : ℕ} {keys : List UInt8} : M.node fd = none →
    FileCall env M (.close fd) keys (some (-1)) M
  | close {fd : ℕ} {keys : List UInt8} : (M.node fd).isSome →
    FileCall env M (.close fd) keys (some 0) M

/-- A step of the machine. -/
inductive FileStep (env : SyscallEnv) (M : FileMachine) : SyscallEvent → FileMachine → Prop where
  | call {r : Request} {keys : List UInt8} {eax : Option ℤ} {M' : FileMachine} :
    FileCall env M r keys eax M' → FileStep env M (.call r keys eax) M'
  | fork {child : ℕ} : child ≠ M.active → FileStep env M (.fork child) { M with
      nodes := Function.update M.nodes child (M.nodes M.active)
      forked := Function.update M.forked child true
      pid := Function.update M.pid child M.currentPid
      currentPid := M.currentPid + 1 }
  | switch {process : ℕ} {m : Mem} :
    FileStep env M (.switch process m) { M with active := process, mem := m }
  | exit {ret : UInt32} {next : ℕ} {m : Mem} : next ≠ M.active → FileStep env M (.exit ret next m)
    { M.printf exitingFromProcess [.word (M.pid M.active), .word ret] with active := next, mem := m }
  | store {m : Mem} : FileStep env M (.store m) { M with mem := m }
  | key {scanCode : UInt8} :
    FileStep env M (.key scanCode) { M with shift := shiftAfter M.shift scanCode }
  | message {text : List UInt8} : FileStep env M (.message text) (M.print text)

/-- The machine is in the state of the code. -/
structure Models (env : SyscallEnv) (s : SyscallState) (M : FileMachine) : Prop where
  mem : ∀ x, ¬ env.Uses x → s.mem x = M.mem x
  image : ∀ x, env.FileByte x → s.mem x = env.image x
  shows : Shows s.screen M.terminal
  fits : M.terminal.Fits 80 25 0
  files : FdInv s.files ⟨fun q fd => (M.nodes q fd).map env.address, M.forked⟩
  active : s.files.activeProcess = M.active
  words : ∀ q p, s.files.processes q = some p → p.fdNext < 4294967296
  table : s.keyboard.keyLookupTable = keyboardInit.keyLookupTable
  idle : s.keyboard.keyboardEventBuffersNum = 0
  shift : s.keyboard.shiftEnabled = M.shift
  pid : s.pid = M.pid
  currentPid : s.currentPid = M.currentPid

section

variable {env : SyscallEnv} {s s' : SyscallState} {M : FileMachine} {m m' : Mem} {a n fd : ℕ}
  {text : List UInt8} {k k' : KeyboardState} {scanCode : UInt8} {keys : List UInt8}

/-! ## Strings -/

theorem stringAt_congr : ∀ {n a : ℕ} {text : List UInt8}, stringAt m a n = some text →
    (∀ i ≤ text.length, m' (a + i) = m (a + i)) → stringAt m' a n = some text
  | 0, _, _, h, _ => by cases h
  | n + 1, a, text, h, hm => by
    have hhead : m' a = m a := hm 0 (Nat.zero_le _)
    unfold stringAt at h ⊢
    rw [hhead]
    split_ifs at h ⊢ with h0
    · exact h
    · obtain ⟨rest, hrest, rfl⟩ := Option.map_eq_some_iff.mp h
      rw [stringAt_congr hrest fun i hi => ?_]
      · rfl
      · have hi' := hm (i + 1) (by rw [List.length_cons]; omega)
        rw [show a + 1 + i = a + (i + 1) by omega]
        exact hi'

theorem stringAt_nul : ∀ {n a : ℕ} {text : List UInt8}, stringAt m a n = some text → 0 ∉ text
  | 0, _, _, h => by cases h
  | n + 1, a, text, h => by
    unfold stringAt at h
    split_ifs at h with h0
    · cases h
      exact List.not_mem_nil
    · obtain ⟨rest, hrest, rfl⟩ := Option.map_eq_some_iff.mp h
      exact List.not_mem_cons_of_ne_of_not_mem (Ne.symm h0) (stringAt_nul hrest)

theorem cString_append (h : 0 ∉ text) : cString (text ++ [0]) = text := by
  have hall : ∀ c ∈ text, decide (c ≠ 0) = true := fun c hc => decide_eq_true fun h0 => h (h0 ▸ hc)
  unfold cString
  rw [List.takeWhile_append_of_pos hall]
  exact List.append_nil text

/-! ## The screen -/

/-- A `printf` with the arguments that its format asks for. -/
theorem printf_spec {scr : Screen} {t : Terminal UInt8} (h : ScreenInv m scr t) {format : List UInt8}
    {args : List PrintArg} (hnul : 0 ∈ format) (hd : .conversion 100 ∉ pieces (cString format))
    (hm : Matches (pieces (cString format)) args) : ∃ scr', printf scr format args = .ok scr' ∧
      ScreenInv m scr' ((expandFormat (pieces (cString format)) args).foldl
        (fun t c => t.put 80 25 (terminalChar c)) t) := by
  obtain ⟨calls, hcalls, hshows⟩ := vprintf_shows h hnul hd hm
  unfold printf
  rw [hcalls]
  exact ⟨_, rfl, hshows⟩

theorem printfString_spec {scr scr' : Screen} {t : Terminal UInt8} (h : ScreenInv m scr t) {str : ℕ}
    (hrun : printfString scr str = .ok scr') : ∃ text, stringAt scr.mem str stringFuel = some text ∧
      ScreenInv m scr' (text.foldl (fun t c => t.put 80 25 (terminalChar c)) t) := by
  unfold printfString at hrun
  cases htext : stringAt scr.mem str stringFuel with
  | none =>
    rw [htext] at hrun
    cases hrun
  | some text =>
    rw [htext] at hrun
    dsimp only at hrun
    have hm : Matches (pieces (cString (formatString "%s"))) [.str (text ++ [0])] :=
      ⟨_, _, rfl, List.mem_append_right _ List.mem_cons_self, trivial⟩
    obtain ⟨scr₁, hprint, hshows⟩ := printf_spec h (by decide) (by decide) hm
    obtain rfl := Except.ok.inj (hrun.symm.trans hprint)
    have htext' : expandFormat (pieces (cString (formatString "%s"))) [.str (text ++ [0])] = text :=
      (List.append_nil _).trans (cString_append (stringAt_nul htext))
    rw [htext'] at hshows
    exact ⟨text, rfl, hshows⟩

theorem fsUtilGetNodeByPathPrint_spec {scr scr' : Screen} {t : Terminal UInt8} (h : ScreenInv m scr t)
    {path : List UInt8} (hpath : path.head? ≠ some '/'.toUInt8)
    (hrun : fsUtilGetNodeByPathPrint scr path = .ok scr') :
    ScreenInv m scr' ((expandFormat (pieces (cString absolutePathsOnly)) [.str (path ++ [0])]).foldl
      (fun t c => t.put 80 25 (terminalChar c)) t) := by
  have hm : Matches (pieces (cString absolutePathsOnly)) [.str (path ++ [0])] :=
    ⟨_, _, rfl, List.mem_append_right _ List.mem_cons_self, trivial⟩
  obtain ⟨scr₁, hprint, hshows⟩ := printf_spec h (by decide +kernel) (by decide +kernel) hm
  unfold fsUtilGetNodeByPathPrint at hrun
  rw [if_pos hpath] at hrun
  obtain rfl := Except.ok.inj (hrun.symm.trans hprint)
  exact hshows

theorem processExitPrint_spec {scr scr' : Screen} {t : Terminal UInt8} (h : ScreenInv m scr t)
    {pid ret : UInt32} (hrun : processExitPrint scr pid ret = .ok scr') :
    ScreenInv m scr' ((expandFormat (pieces (cString exitingFromProcess)) [.word pid, .word ret]).foldl
      (fun t c => t.put 80 25 (terminalChar c)) t) := by
  have hm : Matches (pieces (cString exitingFromProcess)) [.word pid, .word ret] :=
    ⟨_, _, rfl, _, _, rfl, trivial⟩
  obtain ⟨scr₁, hprint, hshows⟩ := printf_spec h (by decide +kernel) (by decide +kernel) hm
  obtain rfl := Except.ok.inj (hrun.symm.trans hprint)
  exact hshows

/-- A path that names a node is absolute. -/
theorem head?_of_node {path : List UInt8} {ref : NodeRef}
    (hpath : fsUtilGetNodeByPath env.initrd path = .ok (some ref)) :
    path.head? = some '/'.toUInt8 := by
  cases path with
  | nil => cases hpath
  | cons c path =>
    by_contra hc
    have hnone : fsUtilGetNodeByPath env.initrd (c :: path) = .ok none :=
      if_pos fun heq => hc (congrArg some heq)
    cases hnone.symm.trans hpath

theorem fsUtilGetNodeByPathPrint_absolute {path : List UInt8} (scr : Screen)
    (hpath : path.head? = some '/'.toUInt8) : fsUtilGetNodeByPathPrint scr path = .ok scr :=
  if_neg (not_not.mpr hpath)

theorem Shows.congr {scr scr' : Screen} {t : Terminal UInt8} (h : Shows scr t)
    (hmem : ∀ x, ScreenByte x → scr'.mem x = scr.mem x) (hcursor : scr'.cursorPos = scr.cursorPos) :
    Shows scr' t := by
  refine ⟨hcursor.trans h.cursor, fun y hy x hx => ?_, fun i hi => ?_⟩
  · rw [hmem _ ⟨by omega, by omega⟩]
    exact h.cell y hy x hx
  · rw [hmem _ ⟨by omega, by omega⟩]
    exact h.colour i hi

theorem SyscallEnv.FileByte.not_screen {x : ℕ} (h : env.FileByte x) : ¬ ScreenByte x := by
  obtain ⟨i, node, data, hnode, hdata, hle, hlt⟩ := h
  obtain ⟨-, hapart, -⟩ := env.files_apart i node data hnode hdata
  unfold ApartFrom at hapart
  unfold ScreenByte
  omega

theorem SyscallEnv.FileByte.not_kerb {x : ℕ} (h : env.FileByte x) : ¬ env.KerbByte x := by
  obtain ⟨i, node, data, hnode, hdata, hle, hlt⟩ := h
  obtain ⟨-, -, hapart⟩ := env.files_apart i node data hnode hdata
  unfold ApartFrom at hapart
  unfold SyscallEnv.KerbByte
  omega

theorem ScreenByte.not_kerb {x : ℕ} (h : ScreenByte x) : ¬ env.KerbByte x := by
  have hapart := env.kerb_screen
  unfold ScreenByte at h
  unfold ApartFrom at hapart
  unfold SyscallEnv.KerbByte
  omega

theorem Models.screenInv (h : Models env s M) : ScreenInv s.mem s.screen M.terminal :=
  ⟨h.shows, h.fits, fun _ _ => rfl⟩

/-- Only the screen is written. -/
theorem Models.setScreen (h : Models env s M) {scr : Screen} {t : Terminal UInt8}
    (hs : ScreenInv s.mem scr t) :
    Models env { s with screen := scr } { M with terminal := t } := by
  refine ⟨fun x hx => ?_, fun x hx => ?_, hs.window, hs.fits, h.files, h.active,
    h.words, h.table, h.idle, h.shift, h.pid, h.currentPid⟩
  · have hns : ¬ ScreenByte x := fun hsb => hx (.inl hsb)
    rw [← h.mem x hx]
    unfold ScreenByte at hns
    exact hs.outside x (by omega)
  · have hns := hx.not_screen
    rw [← h.image x hx]
    unfold ScreenByte at hns
    exact hs.outside x (by omega)

/-- The screen and the files are not written. -/
theorem Models.setMem (h : Models env s M) (hscreen : ∀ x, ScreenByte x → m x = s.mem x)
    (hfile : ∀ x, env.FileByte x → m x = s.mem x) (hmem : ∀ x, ¬ env.Uses x → m x = m' x) :
    Models env (s.setMem m) { M with mem := m' } :=
  ⟨hmem, fun x hx => (hfile x hx).trans (h.image x hx), h.shows.congr hscreen rfl, h.fits, h.files,
    h.active, h.words, h.table, h.idle, h.shift, h.pid, h.currentPid⟩

/-! ## The keyboard -/

theorem characterPress_iff (htable : k.keyLookupTable = keyboardInit.keyLookupTable) {shift : Bool} :
    CharacterPress k scanCode ↔ CharacterPress (keyboardWith shift) scanCode := by
  unfold CharacterPress
  rw [htable]
  rfl

theorem getKeyCharacter_keyboardWith {keyCode : UInt8} :
    getKeyCharacter k keyCode = getKeyCharacter (keyboardWith k.shiftEnabled) keyCode := rfl

/-- A key that is no character changes at most the shift key. -/
theorem keyboardInterruptHandler_shiftAfter (htable : k.keyLookupTable = keyboardInit.keyLookupTable)
    (hc : ¬ CharacterPress k scanCode) : keyboardInterruptHandler k m scanCode =
      ({ k with shiftEnabled := shiftAfter k.shiftEnabled scanCode }, m) := by
  have hc' : ¬ CharacterPress (keyboardWith k.shiftEnabled) scanCode :=
    fun h => hc ((characterPress_iff htable).mpr h)
  unfold CharacterPress at hc hc'
  unfold shiftAfter keyboardInterruptHandler
  have htable' : (keyboardWith k.shiftEnabled).keyLookupTable = k.keyLookupTable := htable.symm
  rw [htable'] at hc' ⊢
  dsimp only
  split_ifs <;> first | rfl | exact absurd ⟨‹_›, ‹_›⟩ hc

theorem keyboardInterruptHandler_idle (htable : k.keyLookupTable = keyboardInit.keyLookupTable)
    (hidle : k.keyboardEventBuffersNum = 0) : keyboardInterruptHandler k m scanCode =
      ({ k with shiftEnabled := shiftAfter k.shiftEnabled scanCode }, m) := by
  by_cases hc : CharacterPress k scanCode
  · have hshift : shiftAfter k.shiftEnabled scanCode = k.shiftEnabled := by
      unfold shiftAfter
      rw [keyboardInterruptHandler_press ((characterPress_iff htable).mp hc)]
      rfl
    have hsame : { k with keyboardEventBuffersNum := 0 } = k := by rw [← hidle]
    rw [keyboardInterruptHandler_press hc, hidle, hshift, hsame]
    rfl
  · exact keyboardInterruptHandler_shiftAfter htable hc

/-- The loop ends with the first character. -/
theorem devReadLoop_typed {kerb : ℕ} {r : ℤ} (hnum : k.keyboardEventBuffersNum = 1)
    (hkerb : k.keyboardEventBuffers 0 = kerb) (hrec : kerbEventReceived m kerb = 0)
    (htable : k.keyLookupTable = keyboardInit.keyLookupTable)
    (hrun : devReadLoop k m kerb keys = some (r, k', m')) :
    ∃ c, typedWith k.shiftEnabled keys = some (c, k'.shiftEnabled) ∧ r = 1 ∧
      m' = deliverKey m kerb c ∧ k'.keyboardEventBuffersNum = 0 ∧
      k'.keyLookupTable = keyboardInit.keyLookupTable := by
  induction keys generalizing k with
  | nil =>
    rw [devReadLoop, if_neg (not_not.mpr hrec)] at hrun
    cases hrun
  | cons scanCode keys ih =>
    rw [devReadLoop, if_neg (not_not.mpr hrec)] at hrun
    rw [typedWith]
    by_cases hpress : CharacterPress k scanCode
    · rw [keyboardInterruptHandler_press hpress, hnum] at hrun
      dsimp only at hrun
      rw [deliverKeys, deliverKeys, hkerb,
        devReadLoop_received (by rw [deliverKey_eventReceived]; decide),
        deliverKey_bufferFilled] at hrun
      cases hrun
      rw [if_pos ((characterPress_iff htable).mp hpress), getKeyCharacter_keyboardWith, htable]
      exact ⟨_, rfl, rfl, rfl, rfl, rfl⟩
    · rw [keyboardInterruptHandler_shiftAfter htable hpress] at hrun
      rw [if_neg fun h => hpress ((characterPress_iff htable).mpr h)]
      exact ih (k := { k with shiftEnabled := shiftAfter k.shiftEnabled scanCode }) hnum hkerb htable
        hrun

theorem vfsRead_typed {initrd : Initrd} {kerb buf count : ℕ} {r : ℤ}
    (hidle : k.keyboardEventBuffersNum = 0) (htable : k.keyLookupTable = keyboardInit.keyLookupTable)
    (hrun : vfsRead initrd .keyboardNode k m kerb keys 0 count buf = .ok (some (r, k', m'))) :
    ∃ c, typedWith k.shiftEnabled keys = some (c, k'.shiftEnabled) ∧ r = 1 ∧
      m' = deliverKey (kerbRegistered m kerb buf count) kerb c ∧ k'.keyboardEventBuffersNum = 0 ∧
      k'.keyLookupTable = keyboardInit.keyLookupTable := by
  have hread : vfsRead initrd .keyboardNode k m kerb keys 0 count buf =
      devRead .keyboardNode k m kerb keys count buf := rfl
  rw [hread, devRead, if_pos rfl, devReadKeyboard_idle hidle, ok_bind] at hrun
  dsimp only at hrun
  exact devReadLoop_typed (k := { k with
      keyboardEventBuffers := Function.update k.keyboardEventBuffers 0 kerb
      keyboardEventBuffersNum := 1 }) rfl (Function.update_self 0 kerb k.keyboardEventBuffers)
    (kerbRegistered_eventReceived m kerb buf count) htable (Except.ok.inj hrun)

/-! ## Files -/

theorem length_memBytes : (memBytes m a n).length = n := by
  unfold memBytes
  rw [List.length_map, List.length_range]

theorem getD_memBytes {i : ℕ} (hi : i < n) : (memBytes m a n).getD i 0 = m (a + i) := by
  unfold memBytes
  rw [List.getD_eq_getElem?_getD, List.getElem?_map, List.getElem?_range hi]
  rfl

theorem memBytes_congr (h : ∀ i < n, m' (a + i) = m (a + i)) : memBytes m' a n = memBytes m a n :=
  List.map_congr_left fun i hi => h i (List.mem_range.mp hi)

theorem content_eq {i data : ℕ} {node : VfsNode} (hnode : env.initrd.filesNodes[i]? = some node)
    (hdata : env.initrd.filesData[i]? = some data) :
    env.content i = memBytes env.image data node.size := by
  unfold SyscallEnv.content
  rw [hnode, hdata]

/-- A file is read from its start. -/
theorem vfsRead_content {i buf count : ℕ} {r : ℤ} (himage : ∀ x, env.FileByte x → m x = env.image x)
    (hown : ∀ j < count, ¬ env.FileByte (buf + j))
    (hrun : vfsRead env.initrd (.initrdFilesNodes i) k m env.kerb keys 0 count buf =
      .ok (some (r, k', m'))) :
    r = toS32 ((env.content i).take count).length ∧ k' = k ∧
      m' = storeBytes m buf ((env.content i).take count) := by
  cases hnode : env.initrd.filesNodes[i]? with
  | none =>
    have hnone : env.initrd.node (.initrdFilesNodes i) = none := hnode
    unfold vfsRead at hrun
    rw [hnone] at hrun
    cases hrun
  | some node =>
    obtain ⟨data, hdata, hlt, hread, heq⟩ := @initrdRead_eq env.initrd m buf count 0
      (initrdInit_built env.initrd_eq) (initrdInit_numFiles_lt env.initrd_eq) i node hnode
    have hfits := (env.files_apart i node data hnode hdata).1
    have hlen : ((env.content i).take count).length = min count node.size := by
      rw [List.length_take, content_eq hnode hdata, length_memBytes]
    rw [vfsRead_initrd hnode hread, heq, Nat.sub_zero] at hrun
    rw [hlen]
    split_ifs at hrun with hsize
    · rw [ok_bind] at hrun
      cases hrun
      have h0 : min count node.size = 0 := by omega
      refine ⟨by rw [h0]; rfl, rfl, ?_⟩
      funext x
      unfold storeBytes
      rw [hlen, if_neg (by omega)]
    · rw [ok_bind] at hrun
      cases hrun
      refine ⟨rfl, rfl, ?_⟩
      dsimp only
      rw [Nat.add_zero, u32_of_lt (by omega)]
      -- the buffer is not in the file
      have hapart : buf + min count node.size ≤ data ∨ data + min count node.size ≤ buf := by
        by_contra hnot
        have hfile : env.FileByte (buf + (max buf data - buf)) :=
          ⟨i, node, data, hnode, hdata, by omega, by omega⟩
        exact hown (max buf data - buf) (by omega) hfile
      funext x
      unfold storeBytes
      rw [hlen]
      split_ifs with hx
      · obtain ⟨j, rfl⟩ := Nat.exists_eq_add_of_le hx.1
        have hj : j < min count node.size := by omega
        rw [memcpy_of_inside hapart hj, Nat.add_sub_cancel_left, List.getD_eq_getElem?_getD,
          List.getElem?_take_of_lt (by omega), ← List.getD_eq_getElem?_getD, content_eq hnode hdata,
          getD_memBytes (by omega)]
        exact himage _ ⟨i, node, data, hnode, hdata, by omega, by omega⟩
      · exact memcpy_of_outside (by omega)

/-! ## Descriptors -/

/-- The descriptors of the machine, by the addresses of the nodes. -/
def FileMachine.descriptors (M : FileMachine) (env : SyscallEnv) : FdSpec :=
  ⟨fun q fd => (M.nodes q fd).map env.address, M.forked⟩

theorem Models.lookup (h : Models env s M) (fd : ℕ) :
    M.node fd = none ∧ processGetNodeOfFd s.files s.files.activeProcess fd = .ok 0 ∨
      ∃ ref, M.node fd = some ref ∧
        processGetNodeOfFd s.files s.files.activeProcess fd = .ok (env.address ref) := by
  obtain ⟨p, hp⟩ := Option.isSome_iff_exists.mp h.files.active
  have hlookup : processGetNodeOfFd s.files s.files.activeProcess fd =
      .ok (((M.nodes s.files.activeProcess fd).map env.address).getD 0) := h.files.lookup hp fd
  rw [h.active] at hlookup ⊢
  unfold FileMachine.node
  cases hnode : M.nodes M.active fd with
  | none =>
    rw [hnode] at hlookup
    exact .inl ⟨rfl, hlookup⟩
  | some ref =>
    rw [hnode] at hlookup
    exact .inr ⟨ref, rfl, hlookup⟩

theorem descriptors_opened {fs : FdState} (hactive : fs.activeProcess = M.active) {ref : NodeRef}
    {new : ℕ} : (M.descriptors env).next fs fd (.openFile (env.address ref) new) =
      (M.opened fd ref).descriptors env := by
  unfold FileMachine.descriptors FdSpec.next FileMachine.opened
  rw [hactive]
  dsimp only
  congr 1
  funext q fd'
  by_cases hq : q = M.active
  · subst hq
    rw [Function.update_self, Function.update_self]
    unfold MapSpec.put
    by_cases hfd : fd' = fd
    · subst hfd
      rw [Function.update_self]
      exact if_pos (beq_self_eq_true fd')
    · rw [Function.update_of_ne hfd]
      exact if_neg (by rw [beq_iff_eq]; exact fun heq => hfd heq.symm)
  · rw [Function.update_of_ne hq, Function.update_of_ne hq]

theorem descriptors_fork {fs : FdState} (hactive : fs.activeProcess = M.active) {child fdNext : ℕ} :
    (M.descriptors env).next fs fd (.fork child fdNext) = FileMachine.descriptors { M with
      nodes := Function.update M.nodes child (M.nodes M.active)
      forked := Function.update M.forked child true } env := by
  unfold FileMachine.descriptors FdSpec.next
  rw [hactive]
  dsimp only
  congr 1
  funext q
  by_cases hq : q = child
  · subst hq
    rw [Function.update_self]
    funext fd'
    rw [Function.update_self]
  · rw [Function.update_of_ne hq]
    funext fd'
    rw [Function.update_of_ne hq]

/-- A file gets a number that is free, and the first one unless the process was forked. -/
theorem Models.openFile (h : Models env s M) {ref : NodeRef} {new : ℕ} {files : FdState}
    (hfresh : OpensFresh s.files) (hnew : s.files.tables new = none)
    (hrun : processAddFd s.files (env.address ref) new = .ok (fd, files)) :
    fd < 4294967296 ∧ M.node fd = none ∧
      (M.forked M.active = false → ∀ fd' < fd, (M.node fd').isSome) ∧
      Models env { s with files := files } (M.opened fd ref) := by
  obtain ⟨p, hp⟩ := Option.isSome_iff_exists.mp h.files.active
  obtain ⟨rfl, t, tables, -, hfiles⟩ := (processAddFd_spec h.files hp).of_ok hrun
  have hactive : files.activeProcess = s.files.activeProcess := by
    dsimp only at hfiles
    rw [hfiles]
  have hinv := h.files.openFile hfresh.1 (env.address_ne_zero ref) hnew hrun
  have hspec : (⟨fun q fd => (M.nodes q fd).map env.address, M.forked⟩ : FdSpec) =
      M.descriptors env := rfl
  rw [hspec, descriptors_opened h.active] at hinv
  refine ⟨h.words _ p hp, ?_, fun hforked fd' hlt => ?_, ⟨h.mem, h.image, h.shows, h.fits, hinv,
    hactive.trans h.active, fun q p' hq => ?_, h.table, h.idle, h.shift, h.pid, h.currentPid⟩⟩
  · have hzero := (h.files.lookup_eq_zero hp).mp (hfresh.2 p hp)
    rw [h.active] at hzero
    exact Option.map_eq_none_iff.mp hzero
  · have hused := (h.files.fdNext _ p hp (h.active ▸ hforked) fd').mpr hlt
    rw [h.active] at hused
    rw [← Option.isSome_map]
    exact hused
  · dsimp only at hfiles hq
    rw [hfiles] at hq
    rcases update_some_cases hq with ⟨-, rfl⟩ | ⟨-, hq'⟩
    · exact u32_lt _
    · exact h.words q p' hq'

/-! ## Calls -/

theorem Models.read {fd buf count : ℕ} {ref : NodeRef} {r : ℤ} (h : Models env s M)
    (hbuf : buf < 4294967296) (hown : ∀ i < max count 1, ¬ env.Uses (buf + i))
    (hnode : M.node fd = some ref)
    (hrun : vfsRead env.initrd ref s.keyboard s.mem env.kerb keys 0 count buf =
      .ok (some (r, k', m'))) :
    ∃ M', FileCall env M (.read fd buf count) keys (some r) M' ∧
      Models env { s.setMem m' with keyboard := k' } M' := by
  have hnot : ∀ {x}, env.Uses x → ∀ i < max count 1, x ≠ buf + i := fun hx i hi heq =>
    hown i hi (heq ▸ hx)
  have hother : (∀ i, ref ≠ .initrdFilesNodes i) → ref ≠ .keyboardNode →
      vfsRead env.initrd ref s.keyboard s.mem env.kerb keys 0 count buf =
        .ok (some (0, s.keyboard, s.mem)) := fun hfile hkey => by
    cases ref with
    | initrdFilesNodes i => exact absurd rfl (hfile i)
    | keyboardNode => exact absurd rfl hkey
    | _ => rfl
  by_cases hfile : ∃ i, ref = .initrdFilesNodes i
  · obtain ⟨i, rfl⟩ := hfile
    obtain ⟨rfl, rfl, rfl⟩ := vfsRead_content h.image
      (fun j hj hf => hown j (by omega) (.inr (.inr hf))) hrun
    have hlen : ((env.content i).take count).length ≤ count := List.length_take_le _ _
    have hkept : ∀ x, env.Uses x → storeBytes s.mem buf ((env.content i).take count) x = s.mem x := by
      intro x hx
      unfold storeBytes
      refine if_neg fun hin => hnot hx (x - buf) (by omega) (by omega)
    refine ⟨_, .readFile hnode, h.setMem (fun x hx => hkept x (.inl hx))
      (fun x hx => hkept x (.inr (.inr hx))) fun x hx => ?_⟩
    unfold storeBytes
    rw [h.mem x hx]
  · by_cases hkey : ref = .keyboardNode
    · subst hkey
      obtain ⟨c, htyped, rfl, rfl, hidle, htable⟩ := vfsRead_typed h.idle h.table hrun
      rw [h.shift] at htyped
      have hout : ∀ x, ¬ env.KerbByte x →
          deliverKey (kerbRegistered s.mem env.kerb buf count) env.kerb c x =
            if x = buf then c else s.mem x := by
        intro x hx
        unfold SyscallEnv.KerbByte at hx
        rw [deliverKey_of_outside (by omega), kerbRegistered_buffer hbuf]
        unfold store8
        split_ifs
        · rfl
        · exact kerbRegistered_of_outside (by omega)
      have hkept : ∀ x, env.Uses x → ¬ env.KerbByte x →
          deliverKey (kerbRegistered s.mem env.kerb buf count) env.kerb c x = s.mem x := by
        intro x hx hk
        rw [hout x hk]
        exact if_neg (hnot hx 0 (by omega))
      have hset : Models env (s.setMem _) { M with mem := storeBytes M.mem buf [c] } :=
        h.setMem (fun x hx => hkept x (.inl hx) hx.not_kerb)
          (fun x hx => hkept x (.inr (.inr hx)) hx.not_kerb) fun x hx => by
            rw [hout x fun hk => hx (.inr (.inl hk)), h.mem x hx]
            unfold storeBytes
            by_cases heq : x = buf
            · rw [if_pos heq, heq, if_pos ⟨le_rfl, by rw [List.length_singleton]; omega⟩, Nat.sub_self]
              rfl
            · rw [if_neg heq, List.length_singleton, if_neg (by omega)]
      exact ⟨_, .readKey hnode htyped, ⟨hset.mem, hset.image, hset.shows, hset.fits, hset.files,
        hset.active, hset.words, htable, hidle, rfl, hset.pid, hset.currentPid⟩⟩
    · have hne : ∀ i, ref ≠ .initrdFilesNodes i := fun i heq => hfile ⟨i, heq⟩
      rw [hother hne hkey] at hrun
      cases hrun
      exact ⟨M, .readOther hnode hne hkey, h⟩

theorem vfsWrite_other {ref : NodeRef} {scr scr' : Screen} {r : ℤ} {buf count : ℕ}
    (hne : ref ≠ .screenNode) (hrun : vfsWrite env.initrd ref scr 0 count buf = .ok (r, scr')) :
    r = 0 ∧ scr' = scr := by
  unfold vfsWrite at hrun
  cases hnode : env.initrd.node ref with
  | none =>
    rw [hnode] at hrun
    cases hrun
  | some node =>
    rw [hnode] at hrun
    cases ref with
    | screenNode => exact absurd rfl hne
    | _ =>
      cases hrun
      exact ⟨rfl, rfl⟩

/-- A call does what it is for. -/
theorem Models.call {r : Request} {new : ℕ} {eax : Option ℤ} (h : Models env s M)
    (hown : r.Own env s.mem) (hnew : s.files.tables new = none)
    (hfresh : ∀ path, r = .open path → OpensFresh s.files)
    (hrun : syscallHandler env s new keys r = .ok (.returns eax s')) :
    ∃ M', FileCall env M r keys eax M' ∧ Models env s' M' := by
  have hstring : ∀ {p text}, stringAt s.mem p stringFuel = some text →
      (∀ text, stringAt s.mem p stringFuel = some text → ∀ i ≤ text.length, ¬ env.Uses (p + i)) →
      stringAt M.mem p stringFuel = some text := fun htext hp =>
    stringAt_congr htext fun i hi => (h.mem _ (hp _ htext i hi)).symm
  cases r with
  | exit ret => cases hrun
  | execve imagePath => cases hrun
  | fork => cases hrun
  | print str =>
    obtain ⟨scr, hprint, hret⟩ := bind_eq_ok.mp hrun
    cases hret
    obtain ⟨text, htext, hscr⟩ := printfString_spec h.screenInv hprint
    exact ⟨_, .print (hstring htext hown), h.setScreen hscr⟩
  | posCursor x y =>
    obtain ⟨scr, hpos, hret⟩ := bind_eq_ok.mp hrun
    cases hret
    have hrange : x < 80 ∧ y < 25 := by
      unfold screenPosCursor at hpos
      obtain ⟨_, hx, hpos⟩ := bind_eq_ok.mp hpos
      obtain ⟨_, hy, -⟩ := bind_eq_ok.mp hpos
      exact ⟨assert_eq_ok.mp hx, assert_eq_ok.mp hy⟩
    obtain ⟨scr', hscr', hinv⟩ := h.screenInv.command (c := .posCursor x y) hrange
    obtain rfl : scr = scr' := Except.ok.inj (hpos.symm.trans hscr')
    exact ⟨_, .posCursor hrange.1 hrange.2, h.setScreen hinv⟩
  | clearScreen =>
    cases hrun
    exact ⟨_, .clearScreen, h.setScreen (screenInv_clear s.screen)⟩
  | «open» path =>
    unfold syscallHandler at hrun
    dsimp only at hrun
    cases htext : stringAt s.mem path stringFuel with
    | none =>
      rw [htext] at hrun
      cases hrun
    | some name =>
      rw [htext] at hrun
      dsimp only at hrun
      obtain ⟨scr, hprint, hrun⟩ := bind_eq_ok.mp hrun
      obtain ⟨node, hnode, hrun⟩ := bind_eq_ok.mp hrun
      cases node with
      | none =>
        cases hrun
        by_cases habsolute : name.head? = some '/'.toUInt8
        · rw [fsUtilGetNodeByPathPrint_absolute _ habsolute] at hprint
          obtain rfl := Except.ok.inj hprint
          exact ⟨M, .noFile (hstring htext hown) habsolute hnode, h⟩
        · exact ⟨_, .relative (hstring htext hown) habsolute,
            h.setScreen (fsUtilGetNodeByPathPrint_spec h.screenInv habsolute hprint)⟩
      | some ref =>
        obtain ⟨⟨fd, files⟩, hadd, hret⟩ := bind_eq_ok.mp hrun
        cases hret
        rw [fsUtilGetNodeByPathPrint_absolute _ (head?_of_node hnode)] at hprint
        obtain rfl := Except.ok.inj hprint
        obtain ⟨hword, hnone, hfirst, hmodels⟩ := h.openFile (hfresh path rfl) hnew hadd
        exact ⟨_, .opened (hstring htext hown) hnode hword hnone hfirst, hmodels⟩
  | read fd buf count =>
    unfold syscallHandler at hrun
    dsimp only at hrun
    obtain ⟨hnode, hlookup⟩ | ⟨ref, hnode, hlookup⟩ := h.lookup fd
    · rw [hlookup, ok_bind, if_pos rfl] at hrun
      cases hrun
      exact ⟨M, .readNone hnode, h⟩
    · rw [hlookup, ok_bind, if_neg (env.address_ne_zero ref), env.nodeAt_address] at hrun
      obtain ⟨res, hread, hret⟩ := bind_eq_ok.mp hrun
      cases res with
      | none => cases hret
      | some res =>
        obtain ⟨r, k', m'⟩ := res
        cases hret
        exact h.read hown.1 hown.2 hnode hread
  | write fd buf count =>
    unfold syscallHandler at hrun
    dsimp only at hrun
    obtain ⟨hnode, hlookup⟩ | ⟨ref, hnode, hlookup⟩ := h.lookup fd
    · rw [hlookup, ok_bind, if_pos rfl] at hrun
      cases hrun
      exact ⟨M, .writeNone hnode, h⟩
    · rw [hlookup, ok_bind, if_neg (env.address_ne_zero ref), env.nodeAt_address] at hrun
      obtain ⟨⟨r, scr⟩, hwrite, hret⟩ := bind_eq_ok.mp hrun
      cases hret
      by_cases hscreen : ref = .screenNode
      · subst hscreen
        cases hwrite
        have hbytes : memBytes s.mem buf count = memBytes M.mem buf count :=
          memBytes_congr fun i hi => h.mem _ (hown i hi)
        have hinv := (h.screenInv.printAll (memBytes s.mem buf count)).updateTextCursor
        rw [hbytes] at hinv
        refine ⟨_, .writeScreen hnode, h.setScreen ?_⟩
        have hmem : s.screen.mem = s.mem := rfl
        unfold screenPrintWithLen
        rw [hmem, hbytes]
        exact hinv
      · obtain ⟨rfl, rfl⟩ := vfsWrite_other hscreen hwrite
        exact ⟨M, .writeOther hnode hscreen, h⟩
  | close fd =>
    unfold syscallHandler at hrun
    dsimp only at hrun
    obtain ⟨hnode, hlookup⟩ | ⟨ref, hnode, hlookup⟩ := h.lookup fd
    · rw [hlookup, ok_bind, if_pos rfl] at hrun
      cases hrun
      exact ⟨M, .closeNone hnode, h⟩
    · rw [hlookup, ok_bind, if_neg (env.address_ne_zero ref)] at hrun
      cases hrun
      exact ⟨M, .close (by rw [hnode]; rfl), h⟩

/-- A file is opened. -/
theorem syscallHandler_opened {path new : ℕ} {name : List UInt8} {ref : NodeRef} {files : FdState}
    (hname : stringAt s.mem path stringFuel = some name)
    (hpath : fsUtilGetNodeByPath env.initrd name = .ok (some ref))
    (hadd : processAddFd s.files (env.address ref) new = .ok (fd, files)) :
    syscallHandler env s new keys (.open path) =
      .ok (.returns (some (toS32 fd)) { s with files := files }) := by
  unfold syscallHandler
  dsimp only
  rw [hname]
  dsimp only
  rw [fsUtilGetNodeByPathPrint_absolute _ (head?_of_node hpath), ok_bind, hpath, ok_bind]
  dsimp only
  rw [hadd]
  rfl

/-! ## Runs of the calls -/

theorem SyscallBooted.models {t : Terminal UInt8} (h : SyscallBooted env s t) :
    Models env s ⟨s.mem, s.files.activeProcess, fun _ => MapSpec.empty, fun _ => false, t, false, s.pid,
      s.currentPid⟩ := by
  cases h with
  | @init screen t process data table slots pid hshows hfits himage hcreate =>
    refine ⟨fun _ _ => rfl, himage, hshows, hfits, (OrderlyFdRun.init hcreate).inv, rfl,
      fun q p hq => ?_, rfl, rfl, rfl, rfl, rfl⟩
    have hq' : Function.update (fun _ => none) process (some (⟨table, 0⟩ : FdProcess)) q = some p := hq
    rcases update_some_cases hq' with ⟨-, rfl⟩ | ⟨-, hnone⟩
    · exact Nat.zero_lt_succ _
    · cases hnone

theorem Models.step {e : SyscallEvent} (h : Models env s M) (hs : SyscallStep env s e s') :
    ∃ M', FileStep env M e M' ∧ Models env s' M' := by
  cases hs with
  | call hown hnew hfresh hrun =>
    obtain ⟨M', hcall, hmodels⟩ := h.call hown hnew hfresh hrun
    exact ⟨M', .call hcall, hmodels⟩
  | @fork child fdNext files hword hfork =>
    have hinv := h.files.step (e := .fork child fdNext) trivial hfork
    have hspec : (⟨fun q fd => (M.nodes q fd).map env.address, M.forked⟩ : FdSpec) =
        M.descriptors env := rfl
    rw [hspec, descriptors_fork h.active] at hinv
    cases hfork with
    | fork hp hchild =>
      have hne : child ≠ M.active := by
        rintro rfl
        rw [← h.active, hp] at hchild
        cases hchild
      have hpid : Function.update s.pid child s.currentPid =
          Function.update M.pid child M.currentPid := by rw [h.pid, h.currentPid]
      refine ⟨_, .fork hne, ⟨h.mem, h.image, h.shows, h.fits, hinv, h.active, fun q p hq => ?_, h.table,
        h.idle, h.shift, hpid, congrArg (· + 1) h.currentPid⟩⟩
      rcases update_some_cases hq with ⟨-, rfl⟩ | ⟨-, hq'⟩
      · exact hword
      · exact h.words q p hq'
  | @switch process files m hswitch hm =>
    have hinv := h.files.step (e := .switch process) trivial hswitch
    have hset : Models env (s.setMem m) { M with mem := m } := h.setMem (fun x hx => hm x (.inl hx))
      (fun x hx => hm x (.inr (.inr hx))) fun _ _ => rfl
    cases hswitch with
    | switch hlive => exact ⟨_, .switch, ⟨hset.mem, hset.image, hset.shows, hset.fits, hinv, rfl,
        h.words, hset.table, hset.idle, hset.shift, hset.pid, hset.currentPid⟩⟩
  | @exit ret next files scr m hprint hexit hm =>
    have hinv := h.files.step (e := .exit next) trivial hexit
    have hpid : s.pid s.files.activeProcess = M.pid M.active := by rw [h.pid, h.active]
    rw [hpid] at hprint
    have hscr := h.setScreen (processExitPrint_spec h.screenInv hprint)
    have hset := hscr.setMem (fun x hx => hm x (.inl hx)) (fun x hx => hm x (.inr (.inr hx)))
      fun x _ => (rfl : m x = m x)
    cases hexit with
    | exit hlive hne =>
      refine ⟨_, .exit (h.active ▸ hne), ⟨hset.mem, hset.image, hset.shows, hset.fits, hinv, rfl,
        fun q p hq => ?_, hset.table, hset.idle, hset.shift, hset.pid, hset.currentPid⟩⟩
      by_cases hqa : q = s.files.activeProcess
      · rw [hqa] at hq
        dsimp only at hq
        rw [Function.update_self] at hq
        cases hq
      · exact h.words q p ((Function.update_of_ne hqa ..).symm.trans hq)
  | @store m hm => exact ⟨_, .store, h.setMem (fun x hx => hm x (.inl hx))
      (fun x hx => hm x (.inr (.inr hx))) fun _ _ => rfl⟩
  | @key scanCode k m hkey =>
    rw [keyboardInterruptHandler_idle h.table h.idle, h.shift] at hkey
    cases hkey
    exact ⟨_, .key, ⟨h.mem, h.image, h.shows, h.fits, h.files, h.active, h.words, h.table, h.idle, rfl,
      h.pid, h.currentPid⟩⟩
  | @message text =>
    exact ⟨_, .message, h.setScreen (h.screenInv.printAll text).updateTextCursor⟩

/-- Every run of the calls, of any processes, is a run of the machine: with the same results, the
same bytes in the memory of the processes, and its terminal on the screen. -/
theorem syscallRun_refines {t : Terminal UInt8} {es : List SyscallEvent} (h : SyscallBooted env s t)
    (hrun : Trace (SyscallStep env) s es s') :
    ∃ M, Trace (FileStep env) ⟨s.mem, s.files.activeProcess, fun _ => MapSpec.empty, fun _ => false, t,
        false, s.pid, s.currentPid⟩ es M ∧
      Models env s' M :=
  hrun.simulates (fun hM hs => hM.step hs) h.models

/-- A file keeps its number, until the record of the process is given to a child. -/
theorem FileStep.keeps {M' : FileMachine} {e : SyscallEvent} {q : ℕ} {ref : NodeRef}
    (hnode : M.nodes q fd = some ref) (he : e ≠ .fork q) (hs : FileStep env M e M') :
    M'.nodes q fd = some ref := by
  cases hs with
  | switch => exact hnode
  | exit _ => exact hnode
  | store => exact hnode
  | key => exact hnode
  | message => exact hnode
  | @fork child _ =>
    have hne : q ≠ child := fun heq => he (heq ▸ rfl)
    exact (congrFun (Function.update_of_ne hne ..) fd).trans hnode
  | call hcall =>
    cases hcall with
    | opened htext hpath hword hnone hfirst =>
      unfold FileMachine.opened
      dsimp only
      by_cases hq : q = M.active
      · subst hq
        rw [Function.update_self, Function.update_of_ne, hnode]
        rintro rfl
        exact Option.some_ne_none ref (hnode.symm.trans hnone)
      · rw [Function.update_of_ne hq, hnode]
    | _ => exact hnode

theorem toS32_inj {v w : ℕ} (hv : v < 4294967296) (hw : w < 4294967296) :
    toS32 v = toS32 w ↔ v = w := by
  unfold toS32
  split_ifs <;> omega

/-- A file of the ramdisk that a process opened is read from its start, as it was in the image, at
any time later, whatever the processes do in between. -/
theorem syscallRun_reads {t : Terminal UInt8} {es es' : List SyscallEvent} {s₀ s₁ s₂ s₃ : SyscallState}
    {path i buf count : ℕ} {keys' name : List UInt8} {eax : Option ℤ} (h : SyscallBooted env s₀ t)
    (hbefore : Trace (SyscallStep env) s₀ es s)
    (hname : stringAt s.mem path stringFuel = some name)
    (hpath : fsUtilGetNodeByPath env.initrd name = .ok (some (.initrdFilesNodes i)))
    (hopen : SyscallStep env s (.call (.open path) keys (some (toS32 fd))) s₁) (hfd : fd < 4294967296)
    (hrun : Trace (SyscallStep env) s₁ es' s₂) (hfork : ∀ e ∈ es', e ≠ .fork s.files.activeProcess)
    (hactive : s₂.files.activeProcess = s.files.activeProcess)
    (hread : SyscallStep env s₂ (.call (.read fd buf count) keys' eax) s₃) :
    eax = some (toS32 ((env.content i).take count).length) ∧ ∀ x, ¬ env.Uses x →
      s₃.mem x = storeBytes s₂.mem buf ((env.content i).take count) x := by
  obtain ⟨M, -, hM⟩ := hbefore.simulates (fun hM hs => hM.step hs) h.models
  obtain ⟨M₁, hopen₁, hM₁⟩ := hM.step hopen
  obtain ⟨M₂, hrun₂, hM₂⟩ := hrun.simulates (fun hM hs => hM.step hs) hM₁
  obtain ⟨M₃, hread₃, hM₃⟩ := hM₂.step hread
  have hnode₁ : M₁.nodes M.active fd = some (.initrdFilesNodes i) := by
    cases hopen₁ with
    | call hcall =>
      cases hopen with
      | call hown _ _ _ =>
        have hname' : stringAt M.mem path stringFuel = some name := stringAt_congr hname
          fun j hj => (hM.mem _ (hown _ hname j hj)).symm
        generalize hr : some (toS32 fd) = r at hcall
        cases hcall with
        | relative htext hrel =>
          obtain rfl := Option.some.inj (htext.symm.trans hname')
          exact absurd (head?_of_node hpath) hrel
        | noFile htext habsolute hnone =>
          obtain rfl := Option.some.inj (htext.symm.trans hname')
          cases hnone.symm.trans hpath
        | @opened _ fd' _ _ ref htext hnode hword _ _ =>
          obtain rfl := Option.some.inj (htext.symm.trans hname')
          obtain rfl := (toS32_inj hfd hword).mp (Option.some.inj hr)
          cases hnode.symm.trans hpath
          unfold FileMachine.opened
          dsimp only
          rw [Function.update_self, Function.update_self]
  have hnode₂ : M₂.node fd = some (.initrdFilesNodes i) := by
    unfold FileMachine.node
    rw [← hM₂.active, hactive, hM.active]
    rw [hM.active] at hfork
    exact hrun₂.invariant (I := fun M' => M'.nodes M.active fd = some (.initrdFilesNodes i))
      (fun hI he hs => hs.keeps hI he) hfork hnode₁
  cases hread₃ with
  | call hcall =>
    cases hcall with
    | readNone hnone => exact absurd (hnode₂.symm.trans hnone) (Option.some_ne_none _)
    | @readFile _ _ _ j _ hfile =>
      cases Option.some.inj (hnode₂.symm.trans hfile)
      refine ⟨rfl, fun x hx => ?_⟩
      rw [hM₃.mem x hx]
      unfold storeBytes
      rw [hM₂.mem x hx]
    | readKey hkey _ => cases hnode₂.symm.trans hkey
    | readOther hother hne _ =>
      cases hnode₂.symm.trans hother
      exact absurd rfl (hne i)

end

/-! ## A file with three bytes -/

/-- A ramdisk with the file `a`, which is `bbb`. -/
def oneFile : Mem := fun x =>
  if x = 0 then 1 else if x = 4 then 97 else if x = 260 then 3 else if 264 ≤ x ∧ x < 267 then 98 else 0

theorem oneFile_initrd : initrdInit oneFile 0 = .ok ⟨1, [initrdFileNode [97] 0 3], [264]⟩ := rfl

def oneFileEnv : SyscallEnv where
  initrd := ⟨1, [initrdFileNode [97] 0 3], [264]⟩
  image := oneFile
  initrdData := 0
  address := fun
    | .vfsRoot => 1
    | .initrdRootNode => 2
    | .devRootNode => 3
    | .screenNode => 4
    | .keyboardNode => 5
    | .initrdFilesNodes i => i + 6
  nodeAt := fun
    | 1 => .vfsRoot
    | 2 => .initrdRootNode
    | 3 => .devRootNode
    | 4 => .screenNode
    | 5 => .keyboardNode
    | n => .initrdFilesNodes (n - 6)
  kerb := 0xF0000000
  initrd_eq := oneFile_initrd
  address_ne_zero := fun ref => by cases ref <;> exact Nat.succ_ne_zero _
  nodeAt_address := fun ref => by cases ref <;> rfl
  kerb_screen := by
    unfold ApartFrom
    decide
  files_apart := fun i node data hnode hdata => by
    cases i with
    | zero =>
      cases hnode
      cases hdata
      unfold ApartFrom
      decide
    | succ i => cases hnode

/-- The path of the file. -/
def oneFilePath : List UInt8 := [47, 105, 110, 105, 116, 114, 100, 47, 97]

/-- The ramdisk, and the path in the memory of the process. -/
def oneFileMem : Mem := fun x =>
  if x < 0x40000000 then oneFile x else oneFilePath.getD (x - 0x40000000) 0

theorem oneFileEnv_uses {x : ℕ} (h : oneFileEnv.Uses x) : x < 0x40000000 ∨ 0xF0000000 ≤ x := by
  rcases h with h | h | ⟨i, node, data, hnode, hdata, hle, hlt⟩
  · exact .inl (h.2.trans (by decide))
  · exact .inr h.1
  · cases i with
    | zero =>
      cases hnode
      cases hdata
      exact .inl (hlt.trans (by decide))
    | succ i => cases hnode

/-- The process after the boot, with an empty screen. -/
def oneFileState : SyscallState where
  screen := screenClear ⟨oneFileMem, 0, fun _ => 0⟩
  keyboard := keyboardInit
  files := initialFdState
  pid := Function.update (fun _ => 0) 1 1
  currentPid := 2

theorem oneFileState_mem {x : ℕ} (h : ¬ ScreenByte x) : oneFileState.mem x = oneFileMem x := by
  unfold ScreenByte at h
  exact (screenInv_clear ⟨oneFileMem, 0, fun _ => 0⟩).outside x (by omega)

theorem oneFileState_booted : SyscallBooted oneFileEnv oneFileState (.blank 0) := by
  obtain ⟨hshows, hfits, -⟩ := screenInv_clear ⟨oneFileMem, 0, fun _ => 0⟩
  refine .init hshows hfits (fun x hx => ?_) rfl
  refine (oneFileState_mem hx.not_screen).trans (if_pos ?_)
  obtain ⟨i, node, data, hnode, hdata, -, hlt⟩ := hx
  cases i with
  | zero =>
    cases hnode
    cases hdata
    exact hlt.trans (by decide)
  | succ i => cases hnode

theorem oneFileState_path : stringAt oneFileState.mem 0x40000000 stringFuel = some oneFilePath := by
  have hbytes : BytesAt oneFileMem 0x40000000 (oneFilePath ++ 0 :: []) := by
    unfold BytesAt
    decide
  have hstate : BytesAt oneFileState.mem 0x40000000 (oneFilePath ++ 0 :: []) := fun i hi => by
    rw [oneFileState_mem (by unfold ScreenByte; omega)]
    exact hbytes i hi
  exact stringAt_of_bytesAt hstate (by decide) (by decide)

theorem oneFilePath_node : fsUtilGetNodeByPath oneFileEnv.initrd oneFilePath =
    .ok (some (.initrdFilesNodes 0)) := rfl

/-- The descriptors with the file, whose node is at 6. -/
def oneFileOpened : FdState :=
  ⟨Function.update initialFdState.processes 1 (some ⟨⟨16, 1, 100⟩, 1⟩), 1,
    Function.update initialFdState.tables 100 (some (Function.update (fun _ => none) 0 (some (0, 6))))⟩

theorem oneFileOpened_read : ∃ s', syscallHandler oneFileEnv
    { oneFileState with files := oneFileOpened } 200 [] (.read 0 0x40001000 2) =
      .ok (.returns (some 2) s') := by
  have hlookup : processGetNodeOfFd oneFileOpened oneFileOpened.activeProcess 0 = .ok 6 := rfl
  have hat : oneFileEnv.nodeAt 6 = .initrdFilesNodes 0 := rfl
  have hnode : oneFileEnv.initrd.filesNodes[0]? = some (initrdFileNode [97] 0 3) := rfl
  have hcount : toS32 (min 2 ((initrdFileNode [97] 0 3).size - 0)) = 2 := by decide
  obtain ⟨data, -, -, -, heq⟩ := @initrdRead_eq oneFileEnv.initrd oneFileState.mem 0x40001000 2 0
    (initrdInit_built oneFileEnv.initrd_eq) (initrdInit_numFiles_lt oneFileEnv.initrd_eq) 0 _ hnode
  rw [if_neg (by decide), hcount] at heq
  have hmem : SyscallState.mem { oneFileState with files := oneFileOpened } = oneFileState.mem := rfl
  unfold syscallHandler
  dsimp only
  rw [hlookup, ok_bind, if_neg (by decide), hat, hmem, vfsRead_initrd hnode rfl, heq]
  exact ⟨_, rfl⟩

/-- The process opens the file. -/
theorem exists_oneFileOpened : ∃ s, SyscallStep oneFileEnv oneFileState
    (.call (.open 0x40000000) [] (some (toS32 0))) s ∧ s.files.activeProcess = 1 ∧
      ∃ s', SyscallStep oneFileEnv s (.call (.read 0 0x40001000 2) [] (some 2)) s' := by
  have hnot : ∀ i < 0x2000, ¬ oneFileEnv.Uses (0x40000000 + i) := fun i hi hx => by
    have huses := oneFileEnv_uses hx
    omega
  obtain ⟨s', hread⟩ := oneFileOpened_read
  have hadd : processAddFd oneFileState.files (oneFileEnv.address (.initrdFilesNodes 0)) 200 =
      .ok (0, oneFileOpened) := rfl
  refine ⟨_, .call (fun text htext i hi => hnot i ?_) rfl (fun _ _ => ⟨?_, ?_⟩)
    (syscallHandler_opened oneFileState_path oneFilePath_node hadd), rfl, _, .call
    ⟨by decide, fun i hi => ?_⟩ rfl (fun _ hp => by cases hp) hread⟩
  · rw [oneFileState_path] at htext
    cases htext
    exact lt_of_le_of_lt hi (by decide)
  · intro q a b hq ha
    have hnone : initialFdState.processes q = none := by
      unfold initialFdState
      dsimp only
      rw [Function.update_of_ne (show q ≠ 1 from hq)]
    cases hnone.symm.trans ha
  · intro p hp
    cases hp
    rfl
  · have hlt := hnot (0x1000 + i) (by omega)
    rwa [← Nat.add_assoc] at hlt

/-- The first two bytes of the file. -/
theorem syscallRun_reads_oneFile : ∃ s s', SyscallStep oneFileEnv s
    (.call (.read 0 0x40001000 2) [] (some 2)) s' ∧ s'.mem 0x40001001 = 98 := by
  obtain ⟨s, hopen, hactive, s', hread⟩ := exists_oneFileOpened
  refine ⟨s, s', hread, ?_⟩
  have h := (syscallRun_reads oneFileState_booted .start oneFileState_path oneFilePath_node hopen
    (by decide) .start (fun e he => by cases he) hactive hread).2 0x40001001 fun hx => by
      have huses := oneFileEnv_uses hx
      omega
  rw [h]
  rfl

theorem syscallRun_refines_oneFile : ∃ s M, s.files.activeProcess = 1 ∧ Models oneFileEnv s M := by
  obtain ⟨s, hopen, hactive, -⟩ := exists_oneFileOpened
  obtain ⟨M, -, hM⟩ := syscallRun_refines oneFileState_booted (.step .start hopen)
  exact ⟨s, M, hactive, hM⟩

end RawOS
