import RawOS.KeyboardRun

/-!
# `fs/vfs.c`, `fs/initrd.c`, `fs/dev.c` and `fs/util.c`

The virtual file system: its nodes, the initial ramdisk, the devices, and the functions that go
through the pointers of a node. A string is the bytes before its terminator. A pointer to a node is
a `NodeRef`; the blocks that `kalloc_alloc` gives for the nodes are arrays of their own.
-/

namespace RawOS

def vfsFileNameMaxLength : ℕ := 256
def vfsFile : ℕ := 0x01
def vfsDirectory : ℕ := 0x02

def sizeofVfsNode : ℕ := 292
def sizeofRamdiskHeader : ℕ := 260

inductive VfsRead where
  | initrdRead
  | devRead
  deriving DecidableEq

inductive VfsReaddir where
  | vfsRootReaddir
  | initrdReaddir
  | devReaddir
  deriving DecidableEq

inductive VfsLookup where
  | vfsRootLookup
  | initrdLookup
  | devLookup
  deriving DecidableEq

/-- `Vfs_Dirent`. -/
structure VfsDirent where
  name : List UInt8
  inode : ℕ
  deriving DecidableEq

/-- `Vfs_Node`. A null pointer is `none`. -/
structure VfsNode where
  name : List UInt8
  flags : ℕ
  inode : ℕ
  size : ℕ
  read : Option VfsRead
  readdir : Option VfsReaddir
  lookup : Option VfsLookup
  deriving DecidableEq

/-- A `Vfs_Node*`. -/
inductive NodeRef where
  | vfsRoot
  | initrdRootNode
  | initrdFilesNodes (i : ℕ)
  | devRootNode
  | screenNode
  | keyboardNode
  deriving DecidableEq

/-! ## Strings -/

/-- A string literal. -/
def literal (s : List Char) : List UInt8 := s.map Char.toUInt8

def initrdName : List UInt8 := literal ['i', 'n', 'i', 't', 'r', 'd']
def devName : List UInt8 := literal ['d', 'e', 'v']
def screenFileName : List UInt8 := literal ['s', 'c', 'r', 'e', 'e', 'n']
def keyboardFileName : List UInt8 := literal ['k', 'e', 'y', 'b', 'o', 'a', 'r', 'd']

/-- The string at `a`, if it ends within `n` bytes. -/
def stringAt (m : Mem) (a : ℕ) : ℕ → Option (List UInt8)
  | 0 => none
  | n + 1 => if m a = 0 then some [] else (stringAt m (a + 1) n).map (m a :: ·)

/-- `strcmp` of two strings. -/
def strcmpNames : List UInt8 → List UInt8 → ℕ
  | a :: s, b :: t => if a ≠ b then 1 else strcmpNames s t
  | s, t => if s = [] ∧ t = [] then 0 else 1

/-! ## The initial ramdisk -/

/-- `num_files`, `initrd_files_nodes` and `initrd_files_data`. -/
structure Initrd where
  numFiles : ℕ
  filesNodes : List VfsNode
  filesData : List ℕ

/-- The node of file `i`. -/
def initrdFileNode (name : List UInt8) (i size : ℕ) : VfsNode where
  name := name
  flags := vfsFile
  inode := u32 (i + 1)
  size := size
  read := some .initrdRead
  readdir := none
  lookup := none

/-- The first `n` rounds of the loop of `initrd_init`: the nodes, the data pointers, and
`initrd_data` after them. -/
def initrdFiles (m : Mem) (headers initrdData : ℕ) :
    ℕ → Except Panic (List VfsNode × List ℕ × ℕ)
  | 0 => .ok ([], [], initrdData)
  | i + 1 => do
    let (nodes, files, data) ← initrdFiles m headers initrdData i
    let header := u32 (headers + sizeofRamdiskHeader * i)
    match stringAt m header vfsFileNameMaxLength with
    | none => .error (.undefined "strcpy: the file name has no terminator")
    | some name =>
      let size := load32 m (header + vfsFileNameMaxLength)
      .ok (nodes ++ [initrdFileNode name i size], files ++ [data], u32 (data + size))

/-- `initrd_init` on the image at `initrdData`. The size of the block of nodes is a product of
`u32`s; what lies behind a block that is too small is not followed. -/
def initrdInit (m : Mem) (initrdData : ℕ) : Except Panic Initrd := do
  let numFiles := load32 m initrdData
  let headers := u32 (initrdData + 4)
  let initrdData := u32 (headers + numFiles * sizeofRamdiskHeader)
  if u32 (sizeofVfsNode * numFiles) < sizeofVfsNode * numFiles then
    .error (.undefined "initrd_files_nodes: index out of bounds")
  else
    let (nodes, files, _) ← initrdFiles m headers initrdData numFiles
    .ok ⟨numFiles, nodes, files⟩

/-- `initrd_read`. -/
def initrdRead (initrd : Initrd) (node : VfsNode) (m : Mem) (offset size buf : ℕ) :
    Except Panic (ℤ × Mem) :=
  if node.size ≤ offset then .ok (0, m)
  else
    let sizeToRead := min size (u32Sub node.size offset)
    match initrd.filesData[u32Sub node.inode 1]? with
    | none => .error (.undefined "initrd_files_data: index out of bounds")
    | some fileData => .ok (toS32 sizeToRead, memcpy m buf (u32 (fileData + offset)) sizeToRead)

/-- `initrd_readdir`. -/
def initrdReaddir (initrd : Initrd) (node : NodeRef) (index : ℕ) (dirent : VfsDirent) :
    Except Panic (ℤ × VfsDirent) := do
  assert (node = .initrdRootNode) "initrd_readdir called for node that is not the root node"
  if initrd.numFiles ≤ index then .ok (-1, dirent)
  else
    match initrd.filesNodes[index]? with
    | none => .error (.undefined "initrd_files_nodes: index out of bounds")
    | some file => .ok (0, ⟨file.name, file.inode⟩)

/-- `initrd_lookup`. -/
def initrdLookup (initrd : Initrd) (node : NodeRef) (path : List UInt8) :
    Except Panic (Option NodeRef) := do
  assert (node = .initrdRootNode) "initrd_lookup called for node that is not the root node"
  if node = .initrdRootNode then
    .ok ((initrd.filesNodes.findIdx? fun file => strcmpNames path file.name = 0).map
      .initrdFilesNodes)
  else .ok none

/-- `initrd_root_node`. -/
def initrdRootNode : VfsNode where
  name := initrdName
  flags := vfsDirectory
  inode := 0
  size := 0
  read := none
  readdir := some .initrdReaddir
  lookup := some .initrdLookup

/-! ## Devices -/

/-- The loop of `dev_read` while the keys `scanCodes` come, and `kerb.buffer_filled` after it;
`none` if it still runs when they have come. -/
def devReadLoop (k : KeyboardState) (m : Mem) (kerb : ℕ) :
    List UInt8 → Option (ℤ × KeyboardState × Mem)
  | [] =>
    if kerbEventReceived m kerb ≠ 0 then some (toS32 (kerbBufferFilled m kerb), k, m) else none
  | scanCode :: scanCodes =>
    if kerbEventReceived m kerb ≠ 0 then some (toS32 (kerbBufferFilled m kerb), k, m)
    else
      let (k, m) := keyboardInterruptHandler k m scanCode
      devReadLoop k m kerb scanCodes

/-- `dev_read`, with its local `kerb` at that address. -/
def devRead (node : NodeRef) (k : KeyboardState) (m : Mem) (kerb : ℕ) (scanCodes : List UInt8)
    (size buf : ℕ) : Except Panic (Option (ℤ × KeyboardState × Mem)) :=
  if node = .keyboardNode then do
    let (k, m) ← devReadKeyboard k m kerb buf size
    .ok (devReadLoop k m kerb scanCodes)
  else .ok (some (0, k, m))

/-- `dev_readdir`. -/
def devReaddir (node : NodeRef) (index : ℕ) (dirent : VfsDirent) :
    Except Panic (ℤ × VfsDirent) := do
  assert (node = .devRootNode) "dev_readdir called for node that is not the root node"
  if index = 0 then .ok (0, ⟨screenFileName, 1⟩)
  else if index = 1 then .ok (0, ⟨keyboardFileName, 2⟩)
  else .ok (-1, dirent)

/-- `dev_lookup`. -/
def devLookup (node : NodeRef) (path : List UInt8) : Option NodeRef :=
  if node = .devRootNode then
    if strcmpNames path screenFileName = 0 then some .screenNode
    else if strcmpNames path keyboardFileName = 0 then some .keyboardNode
    else none
  else none

/-- `dev_root_node`. -/
def devRootNode : VfsNode where
  name := devName
  flags := vfsDirectory
  inode := 0
  size := 0
  read := none
  readdir := some .devReaddir
  lookup := some .devLookup

/-- `screen_node`. -/
def screenNode : VfsNode where
  name := screenFileName
  flags := vfsFile
  inode := 0
  size := 0
  read := none
  readdir := none
  lookup := none

/-- `keyboard_node`. -/
def keyboardNode : VfsNode where
  name := keyboardFileName
  flags := vfsFile
  inode := 0
  size := 0
  read := some .devRead
  readdir := none
  lookup := none

/-! ## The root -/

/-- `vfs_root`. -/
def vfsRoot : VfsNode where
  name := []
  flags := vfsDirectory
  inode := 0
  size := 0
  read := none
  readdir := some .vfsRootReaddir
  lookup := some .vfsRootLookup

/-- `root_nodes`. -/
def rootNodes : List (NodeRef × VfsNode) :=
  [(.initrdRootNode, initrdRootNode), (.devRootNode, devRootNode)]

/-- `vfs_root_readdir`. -/
def vfsRootReaddir (node : NodeRef) (index : ℕ) (dirent : VfsDirent) :
    Except Panic (ℤ × VfsDirent) := do
  assert (node = .vfsRoot) "vfs_root_readdir called for node that is not the root node"
  match rootNodes[index]? with
  | none => .ok (-1, dirent)
  | some child => .ok (0, ⟨child.2.name, child.2.inode⟩)

/-- `vfs_root_lookup`. -/
def vfsRootLookup (node : NodeRef) (path : List UInt8) : Except Panic (Option NodeRef) := do
  assert (node = .vfsRoot) "vfs_root_lookup called for node that is not the root node"
  if node = .vfsRoot then
    .ok ((rootNodes.find? fun child => strcmpNames path child.2.name = 0).map Prod.fst)
  else .ok none

/-! ## Dispatch -/

/-- The node that a pointer points to, after `vfs_init`. -/
def Initrd.node (initrd : Initrd) : NodeRef → Option VfsNode
  | .vfsRoot => some vfsRoot
  | .initrdRootNode => some initrdRootNode
  | .initrdFilesNodes i => initrd.filesNodes[i]?
  | .devRootNode => some devRootNode
  | .screenNode => some screenNode
  | .keyboardNode => some keyboardNode

/-- `vfs_read`, with the keys that come while it waits. -/
def vfsRead (initrd : Initrd) (ref : NodeRef) (k : KeyboardState) (m : Mem) (kerb : ℕ)
    (scanCodes : List UInt8) (offset size buf : ℕ) :
    Except Panic (Option (ℤ × KeyboardState × Mem)) :=
  match initrd.node ref with
  | none => .error (.undefined "vfs_read: not a node")
  | some node =>
    match node.read with
    | some .initrdRead => do
      let (r, m) ← initrdRead initrd node m offset size buf
      .ok (some (r, k, m))
    | some .devRead => devRead ref k m kerb scanCodes size buf
    | none => .ok (some (0, k, m))

/-- `vfs_readdir`. -/
def vfsReaddir (initrd : Initrd) (ref : NodeRef) (index : ℕ) (dirent : VfsDirent) :
    Except Panic (ℤ × VfsDirent) :=
  match initrd.node ref with
  | none => .error (.undefined "vfs_readdir: not a node")
  | some node =>
    match node.readdir with
    | some .vfsRootReaddir => vfsRootReaddir ref index dirent
    | some .initrdReaddir => initrdReaddir initrd ref index dirent
    | some .devReaddir => devReaddir ref index dirent
    | none => .ok (0, dirent)

/-- `vfs_lookup`. -/
def vfsLookup (initrd : Initrd) (ref : NodeRef) (path : List UInt8) :
    Except Panic (Option NodeRef) :=
  match initrd.node ref with
  | none => .error (.undefined "vfs_lookup: not a node")
  | some node =>
    match node.lookup with
    | some .vfsRootLookup => vfsRootLookup ref path
    | some .initrdLookup => initrdLookup initrd ref path
    | some .devLookup => .ok (devLookup ref path)
    | none => .ok none

/-! ## `fs/util.c` -/

/-- The loop of `fs_util_get_node_by_path` and what follows it, from `path` on, with the first bytes
of `filename_buffer`. -/
def pathNode (initrd : Initrd) : List UInt8 → NodeRef → List UInt8 → Except Panic (Option NodeRef)
  | [], result, filenameBuffer =>
    if filenameBuffer ≠ [] then vfsLookup initrd result filenameBuffer else .ok (some result)
  | c :: path, result, filenameBuffer =>
    if c = '/'.toUInt8 then do
      match ← vfsLookup initrd result filenameBuffer with
      | none => return none
      | some result => pathNode initrd path result []
    else if filenameBuffer.length + 1 < vfsFileNameMaxLength then
      pathNode initrd path result (filenameBuffer ++ [c])
    else .error (.undefined "fs_util_get_node_by_path: filename_buffer is full")

/-- `fs_util_get_node_by_path`. -/
def fsUtilGetNodeByPath (initrd : Initrd) : List UInt8 → Except Panic (Option NodeRef)
  | [] => .ok none
  | c :: path => if c ≠ '/'.toUInt8 then .ok none else pathNode initrd path .vfsRoot []

/-! ## What `initrd_init` builds -/

theorem strcmpNames_eq_zero : ∀ {s t : List UInt8}, strcmpNames s t = 0 ↔ s = t
  | a :: s, b :: t => by
    rw [strcmpNames, List.cons.injEq]
    by_cases h : a = b
    · rw [if_neg (not_not.mpr h), strcmpNames_eq_zero]
      simp [h]
    · rw [if_pos h]
      simp [h]
  | [], [] => by simp [strcmpNames]
  | _ :: _, [] => by simp [strcmpNames]
  | [], _ :: _ => by simp [strcmpNames]

/-- The loop fills both arrays, and node `i` has the inode and the functions of file `i`. -/
structure FilesBuilt (nodes : List VfsNode) (files : List ℕ) (n : ℕ) : Prop where
  nodes_length : nodes.length = n
  files_length : files.length = n
  node : ∀ i (h : i < nodes.length), ∃ name size, size < 4294967296 ∧
    nodes[i] = initrdFileNode name i size

theorem FilesBuilt.append {nodes : List VfsNode} {files : List ℕ} {n data size : ℕ}
    {name : List UInt8} (h : FilesBuilt nodes files n) (hsize : size < 4294967296) :
    FilesBuilt (nodes ++ [initrdFileNode name n size]) (files ++ [data]) (n + 1) := by
  refine ⟨by simp [h.nodes_length], by simp [h.files_length], fun i hi => ?_⟩
  rw [List.length_append, List.length_singleton, h.nodes_length] at hi
  by_cases hlt : i < n
  · have hlt' : i < nodes.length := by rw [h.nodes_length]; exact hlt
    rw [List.getElem_append_left hlt']
    exact h.node i hlt'
  · obtain rfl : i = n := by omega
    refine ⟨name, size, hsize, ?_⟩
    rw [List.getElem_append_right (by rw [h.nodes_length])]
    simp

theorem initrdFiles_built {m : Mem} {headers data : ℕ} :
    ∀ {n : ℕ} {r : List VfsNode × List ℕ × ℕ}, initrdFiles m headers data n = .ok r →
      FilesBuilt r.1 r.2.1 n
  | 0, r, h => by
    cases h
    exact ⟨rfl, rfl, fun i hi => absurd hi (Nat.not_lt_zero i)⟩
  | n + 1, r, h => by
    rw [initrdFiles, bind_eq_ok] at h
    obtain ⟨⟨nodes, files, next⟩, hfiles, h⟩ := h
    have hbuilt := initrdFiles_built hfiles
    dsimp only at h
    split at h
    · cases h
    · cases h
      exact hbuilt.append (load32_lt _ _)

theorem initrdInit_built {m : Mem} {addr : ℕ} {initrd : Initrd} (h : initrdInit m addr = .ok initrd) :
    FilesBuilt initrd.filesNodes initrd.filesData initrd.numFiles := by
  unfold initrdInit at h
  dsimp only at h
  split_ifs at h with hwrap
  rw [bind_eq_ok] at h
  obtain ⟨r, hfiles, h⟩ := h
  cases h
  exact initrdFiles_built hfiles

theorem initrdInit_numFiles_lt {m : Mem} {addr : ℕ} {initrd : Initrd}
    (h : initrdInit m addr = .ok initrd) : sizeofVfsNode * initrd.numFiles < 4294967296 := by
  unfold initrdInit at h
  dsimp only at h
  split_ifs at h with hwrap
  rw [bind_eq_ok] at h
  obtain ⟨r, -, h⟩ := h
  cases h
  have := u32_lt (sizeofVfsNode * load32 m addr)
  dsimp only
  omega

end RawOS
