import RawOS.Fs.Vfs

/-!
# Directories

`vfs_readdir` and `vfs_lookup` are separate paths through the same nodes. `directory_consistent_iff`
says in which directories they agree.
-/

namespace RawOS

/-- The nodes in a directory: `root_nodes`, `initrd_files_nodes`, and the two devices. -/
def Initrd.children (initrd : Initrd) : NodeRef → List NodeRef
  | .vfsRoot => rootNodes.map Prod.fst
  | .initrdRootNode => (List.range initrd.numFiles).map .initrdFilesNodes
  | .devRootNode => [.screenNode, .keyboardNode]
  | _ => []

/-- The entry that describes a node. -/
def VfsNode.dirent (node : VfsNode) : VfsDirent := ⟨node.name, node.inode⟩

/-- `vfs_readdir` with the indexes 0, 1, 2, … gives these entries, and then a non-zero result. -/
structure Listed (initrd : Initrd) (dir : NodeRef) (entries : List VfsDirent) : Prop where
  entry : ∀ i (h : i < entries.length), ∀ dirent,
    vfsReaddir initrd dir i dirent = .ok (0, entries[i])
  stop : ∀ dirent, ∃ r, vfsReaddir initrd dir entries.length dirent = .ok r ∧ r.1 ≠ 0

/-- The listing has one entry for each child, and looking up the name of an entry gives the child
with that name and inode. -/
structure Consistent (initrd : Initrd) (dir : NodeRef) (entries : List VfsDirent) : Prop where
  listed : Listed initrd dir entries
  once : (entries.map some).Perm ((initrd.children dir).map fun child =>
    (initrd.node child).map VfsNode.dirent)
  resolves : ∀ entry ∈ entries, ∃ child ∈ initrd.children dir, ∃ node,
    vfsLookup initrd dir entry.name = .ok (some child) ∧ initrd.node child = some node ∧
      node.dirent = entry

/-- What can be reached from `vfs_root` by lookups. -/
inductive Initrd.Reachable (initrd : Initrd) : NodeRef → Prop where
  | root : initrd.Reachable .vfsRoot
  | lookup {dir child : NodeRef} {path : List UInt8} : initrd.Reachable dir →
    vfsLookup initrd dir path = .ok (some child) → initrd.Reachable child

def Initrd.IsDirectory (initrd : Initrd) (ref : NodeRef) : Prop :=
  ∃ node, initrd.node ref = some node ∧ node.flags = vfsDirectory

variable {initrd : Initrd} {dir : NodeRef} {entries entries' : List VfsDirent}

/-- The nodes that `initrd_init` builds. -/
def Initrd.Built (initrd : Initrd) : Prop :=
  FilesBuilt initrd.filesNodes initrd.filesData initrd.numFiles

/-- A directory has one listing. -/
theorem Listed.unique (h : Listed initrd dir entries) (h' : Listed initrd dir entries') :
    entries = entries' := by
  have hle : ∀ {l l' : List VfsDirent}, Listed initrd dir l → Listed initrd dir l' →
      l.length ≤ l'.length := by
    intro l l' hl hl'
    by_contra hlt
    obtain ⟨r, hr, hne⟩ := hl'.stop ⟨[], 0⟩
    rw [hl.entry l'.length (Nat.not_le.mp hlt)] at hr
    cases hr
    exact hne rfl
  apply List.ext_getElem (Nat.le_antisymm (hle h h') (hle h' h))
  intro i hi hi'
  have heq := h.entry i hi ⟨[], 0⟩
  rw [h'.entry i hi'] at heq
  exact (Prod.mk.inj (Except.ok.inj heq)).2.symm

/-! ## The three directories -/

theorem isDirectory_cases (hb : initrd.Built) (h : initrd.IsDirectory dir) :
    dir = .vfsRoot ∨ dir = .initrdRootNode ∨ dir = .devRootNode := by
  obtain ⟨node, hnode, hflags⟩ := h
  cases dir with
  | vfsRoot => exact .inl rfl
  | initrdRootNode => exact .inr (.inl rfl)
  | devRootNode => exact .inr (.inr rfl)
  | initrdFilesNodes i =>
    obtain ⟨hi, rfl⟩ := List.getElem?_eq_some_iff.mp hnode
    obtain ⟨name, size, -, hfile⟩ := hb.node i hi
    rw [hfile] at hflags
    exact absurd hflags (show vfsFile ≠ vfsDirectory by decide)
  | screenNode =>
    cases hnode
    exact absurd hflags (show vfsFile ≠ vfsDirectory by decide)
  | keyboardNode =>
    cases hnode
    exact absurd hflags (show vfsFile ≠ vfsDirectory by decide)

theorem initrdRootNode_isDirectory (initrd : Initrd) : initrd.IsDirectory .initrdRootNode :=
  ⟨initrdRootNode, rfl, rfl⟩

theorem devRootNode_isDirectory (initrd : Initrd) : initrd.IsDirectory .devRootNode :=
  ⟨devRootNode, rfl, rfl⟩

/-- `/initrd` and `/dev` are found in the root. -/
theorem isDirectory_reachable (hb : initrd.Built) (h : initrd.IsDirectory dir) :
    initrd.Reachable dir := by
  have hinitrd : vfsLookup initrd .vfsRoot initrdName = .ok (some .initrdRootNode) := rfl
  have hdev : vfsLookup initrd .vfsRoot devName = .ok (some .devRootNode) := rfl
  rcases isDirectory_cases hb h with rfl | rfl | rfl
  · exact .root
  · exact .lookup .root hinitrd
  · exact .lookup .root hdev

theorem root_consistent :
    Consistent initrd .vfsRoot [initrdRootNode.dirent, devRootNode.dirent] := by
  refine ⟨⟨fun i hi dirent => ?_, fun dirent => ⟨_, rfl, (by decide : (-1 : ℤ) ≠ 0)⟩⟩,
    List.Perm.refl _, ?_⟩
  · rw [List.length_cons, List.length_singleton] at hi
    obtain rfl | rfl : i = 0 ∨ i = 1 := by omega
    · rfl
    · rfl
  · intro entry hentry
    rw [List.mem_pair] at hentry
    rcases hentry with rfl | rfl
    · exact ⟨.initrdRootNode, by simp [Initrd.children, rootNodes], _, rfl, rfl, rfl⟩
    · exact ⟨.devRootNode, by simp [Initrd.children, rootNodes], _, rfl, rfl, rfl⟩

theorem dev_listed :
    Listed initrd .devRootNode [⟨screenFileName, 1⟩, ⟨keyboardFileName, 2⟩] := by
  refine ⟨fun i hi dirent => ?_, fun dirent => ⟨_, rfl, (by decide : (-1 : ℤ) ≠ 0)⟩⟩
  rw [List.length_cons, List.length_singleton] at hi
  obtain rfl | rfl : i = 0 ∨ i = 1 := by omega
  · rfl
  · rfl

/-- Both device nodes have inode 0, and the listing says 1 and 2. -/
theorem not_dev_consistent : ¬ Consistent initrd .devRootNode entries := by
  intro h
  obtain rfl := h.listed.unique dev_listed
  obtain ⟨child, -, node, hlookup, hnode, hdirent⟩ :=
    h.resolves ⟨screenFileName, 1⟩ List.mem_cons_self
  have hchild : vfsLookup initrd .devRootNode screenFileName = .ok (some .screenNode) := rfl
  rw [hchild] at hlookup
  cases hlookup
  cases hnode
  exact absurd (congrArg VfsDirent.inode hdirent) (by decide)

theorem initrd_listed (hb : initrd.Built) :
    Listed initrd .initrdRootNode (initrd.filesNodes.map VfsNode.dirent) := by
  have hread : ∀ i dirent, vfsReaddir initrd .initrdRootNode i dirent =
      initrdReaddir initrd .initrdRootNode i dirent := fun _ _ => rfl
  refine ⟨fun i hi dirent => ?_, fun dirent => ⟨(-1, dirent), ?_, (by decide : (-1 : ℤ) ≠ 0)⟩⟩
  · rw [List.length_map] at hi
    rw [hread]
    unfold initrdReaddir
    rw [assert_of_true rfl, ok_bind, if_neg (by rw [← hb.nodes_length]; omega),
      List.getElem?_eq_getElem hi]
    simp [VfsNode.dirent]
  · rw [hread]
    unfold initrdReaddir
    rw [assert_of_true rfl, ok_bind, if_pos (by rw [List.length_map, hb.nodes_length])]

/-- A lookup finds the first file of that name. -/
theorem initrd_lookup_eq {path : List UInt8} :
    vfsLookup initrd .initrdRootNode path =
      .ok ((initrd.filesNodes.findIdx? fun file => strcmpNames path file.name = 0).map
        .initrdFilesNodes) := rfl

theorem initrd_lookup_some {path : List UInt8} {child : NodeRef}
    (h : vfsLookup initrd .initrdRootNode path = .ok (some child)) :
    ∃ i, ∃ hi : i < initrd.filesNodes.length, child = .initrdFilesNodes i ∧
      initrd.filesNodes[i].name = path ∧ ∀ j (hj : j < i), initrd.filesNodes[j].name ≠ path := by
  rw [initrd_lookup_eq] at h
  cases hfind : initrd.filesNodes.findIdx? fun file => decide (strcmpNames path file.name = 0) with
  | none =>
    rw [hfind] at h
    cases h
  | some i =>
    rw [hfind] at h
    cases h
    obtain ⟨hi, heq, hne⟩ := List.findIdx?_eq_some_iff_getElem.mp hfind
    refine ⟨i, hi, rfl, ?_, fun j hj hname => hne j hj ?_⟩
    · exact (strcmpNames_eq_zero.mp (of_decide_eq_true heq)).symm
    · exact decide_eq_true (strcmpNames_eq_zero.mpr hname.symm)

/-- Every name that is listed is found. -/
theorem initrd_lookup_isSome {i : ℕ} (hi : i < initrd.filesNodes.length) :
    ∃ child, vfsLookup initrd .initrdRootNode initrd.filesNodes[i].name = .ok (some child) := by
  rw [initrd_lookup_eq]
  cases hfind : initrd.filesNodes.findIdx? fun file =>
      decide (strcmpNames initrd.filesNodes[i].name file.name = 0) with
  | none =>
    have hall := List.findIdx?_eq_none_iff.mp hfind _ (List.getElem_mem hi)
    exact absurd (strcmpNames_eq_zero.mpr rfl) (of_decide_eq_false hall)
  | some j => exact ⟨_, rfl⟩

theorem inode_eq (hb : initrd.Built) (hlt : sizeofVfsNode * initrd.numFiles < 4294967296) {i : ℕ}
    (hi : i < initrd.filesNodes.length) : initrd.filesNodes[i].inode = i + 1 := by
  obtain ⟨name, size, -, hfile⟩ := hb.node i hi
  rw [hfile]
  have := hb.nodes_length
  unfold sizeofVfsNode at hlt
  exact u32_of_lt (by omega)

theorem initrd_once (hb : initrd.Built) :
    (initrd.filesNodes.map VfsNode.dirent).map some =
      (initrd.children .initrdRootNode).map fun child =>
        (initrd.node child).map VfsNode.dirent := by
  unfold Initrd.children
  apply List.ext_getElem
  · simp [hb.nodes_length]
  · intro i hi hi'
    simp only [List.length_map] at hi
    simp [Initrd.node, List.getElem?_eq_getElem hi]

/-- Of two files with one name the second is listed and never found. -/
theorem initrd_consistent_iff (hb : initrd.Built)
    (hlt : sizeofVfsNode * initrd.numFiles < 4294967296) :
    (∃ entries, Consistent initrd .initrdRootNode entries) ↔
      (initrd.filesNodes.map VfsNode.name).Nodup := by
  constructor
  · rintro ⟨entries, h⟩
    obtain rfl := h.listed.unique (initrd_listed hb)
    rw [List.nodup_iff_injective_get]
    intro i j hij
    have hlen : (initrd.filesNodes.map VfsNode.name).length = initrd.filesNodes.length := by simp
    have hi : i.1 < initrd.filesNodes.length := hlen ▸ i.2
    have hj : j.1 < initrd.filesNodes.length := hlen ▸ j.2
    have hname : initrd.filesNodes[i.1].name = initrd.filesNodes[j.1].name := by
      simpa using hij
    -- both entries resolve to the same child, whose inode tells the index
    have hinode : ∀ n (hn : n < initrd.filesNodes.length),
        ∃ child, vfsLookup initrd .initrdRootNode initrd.filesNodes[n].name = .ok (some child) ∧
          child = .initrdFilesNodes n := by
      intro n hn
      obtain ⟨child, -, node, hlookup, hnode, hdirent⟩ :=
        h.resolves initrd.filesNodes[n].dirent (List.mem_map.mpr ⟨_, List.getElem_mem hn, rfl⟩)
      obtain ⟨l, hl, rfl, -, -⟩ := initrd_lookup_some hlookup
      refine ⟨_, hlookup, ?_⟩
      obtain ⟨_, rfl⟩ := List.getElem?_eq_some_iff.mp hnode
      have := congrArg VfsDirent.inode hdirent
      have heq : initrd.filesNodes[l].inode = initrd.filesNodes[n].inode := this
      rw [inode_eq hb hlt hl, inode_eq hb hlt hn] at heq
      rw [Nat.add_right_cancel heq]
    obtain ⟨c₁, hc₁, rfl⟩ := hinode i.1 hi
    obtain ⟨c₂, hc₂, rfl⟩ := hinode j.1 hj
    rw [hname, hc₂] at hc₁
    exact Fin.ext (NodeRef.initrdFilesNodes.inj (Option.some.inj (Except.ok.inj hc₁))).symm
  · intro hnd
    refine ⟨_, initrd_listed hb, .of_eq (initrd_once hb), fun entry hentry => ?_⟩
    obtain ⟨node, hmem, rfl⟩ := List.mem_map.mp hentry
    obtain ⟨i, hi, rfl⟩ := List.mem_iff_getElem.mp hmem
    obtain ⟨child, hlookup⟩ := initrd_lookup_isSome hi
    obtain ⟨j, hj, rfl, hname, -⟩ := initrd_lookup_some hlookup
    obtain rfl : i = j := by
      have h₁ : i < (initrd.filesNodes.map VfsNode.name).length := by simpa using hi
      have h₂ : j < (initrd.filesNodes.map VfsNode.name).length := by simpa using hj
      refine (@List.Nodup.getElem_inj_iff _ _ hnd i h₁ j h₂).mp ?_
      simp [hname]
    refine ⟨.initrdFilesNodes i, ?_, _, hlookup, List.getElem?_eq_getElem hi, rfl⟩
    exact List.mem_map.mpr ⟨i, List.mem_range.mpr (hb.nodes_length ▸ hi), rfl⟩

/-- In every directory, hence in every one that can be reached (`isDirectory_reachable`): listing
and lookup agree in the root, in `/initrd` exactly if no two files have one name, and
never in `/dev`. -/
theorem directory_consistent_iff {m : Mem} {addr : ℕ} (h : initrdInit m addr = .ok initrd)
    (hdir : initrd.IsDirectory dir) :
    (∃ entries, Consistent initrd dir entries) ↔
      dir = .vfsRoot ∨
        dir = .initrdRootNode ∧ (initrd.filesNodes.map VfsNode.name).Nodup := by
  have hb : initrd.Built := initrdInit_built h
  rcases isDirectory_cases hb hdir with rfl | rfl | rfl
  · simp only [true_or, iff_true]
    exact ⟨_, root_consistent⟩
  · simp only [reduceCtorEq, true_and, false_or]
    exact initrd_consistent_iff hb (initrdInit_numFiles_lt h)
  · simp only [reduceCtorEq, false_and, or_self, iff_false]
    exact fun ⟨_, hc⟩ => not_dev_consistent hc

/-! ## Two files -/

/-- An image of two empty files with names of one character. -/
def twoFiles (a b : UInt8) : Mem := fun x =>
  if x = 0 then 2 else if x = 4 then a else if x = 264 then b else 0

theorem initrdInit_twoFiles {a b : UInt8} (ha : a ≠ 0) (hb : b ≠ 0) :
    initrdInit (twoFiles a b) 0 =
      .ok ⟨2, [initrdFileNode [a] 0 0, initrdFileNode [b] 1 0], [524, 524]⟩ := by
  have hname : ∀ x, twoFiles a b x ≠ 0 → twoFiles a b (x + 1) = 0 →
      stringAt (twoFiles a b) x vfsFileNameMaxLength = some [twoFiles a b x] := by
    intro x h₁ h₂
    unfold vfsFileNameMaxLength
    rw [stringAt, if_neg h₁, stringAt, if_pos h₂]
    rfl
  have hn : load32 (twoFiles a b) 0 = 2 := rfl
  have h₀ := hname 4 ha rfl
  have h₁ := hname 264 hb rfl
  unfold initrdInit
  simp only [hn]
  rw [if_neg (by decide)]
  simp only [initrdFiles, ok_bind, u32, sizeofRamdiskHeader, Nat.mul_zero, Nat.mul_one,
    Nat.zero_add, Nat.add_zero, Nat.reduceMod, Nat.reduceAdd, h₀, h₁]
  rfl

/-- Two files named `a`: the second entry resolves to the first file. And `/dev`. -/
theorem not_consistent_sameNames : ∃ initrd, initrdInit (twoFiles 97 97) 0 = .ok initrd ∧
    (initrd.Reachable .initrdRootNode ∧ initrd.IsDirectory .initrdRootNode ∧
      ¬ ∃ entries, Consistent initrd .initrdRootNode entries) ∧
    initrd.Reachable .devRootNode ∧ initrd.IsDirectory .devRootNode ∧
      ¬ ∃ entries, Consistent initrd .devRootNode entries := by
  have h := initrdInit_twoFiles (a := 97) (b := 97) (by decide) (by decide)
  have hb := initrdInit_built h
  have hi := initrdRootNode_isDirectory
  have hd := devRootNode_isDirectory
  refine ⟨_, h, ⟨isDirectory_reachable hb (hi _), hi _, ?_⟩, isDirectory_reachable hb (hd _), hd _,
    fun ⟨_, hc⟩ => not_dev_consistent hc⟩
  rw [initrd_consistent_iff hb (by decide)]
  decide

/-- Files named `a` and `b`. -/
theorem consistent_twoNames : ∃ initrd, initrdInit (twoFiles 97 98) 0 = .ok initrd ∧
    ∃ entries, Consistent initrd .initrdRootNode entries := by
  have h := initrdInit_twoFiles (a := 97) (b := 98) (by decide) (by decide)
  refine ⟨_, h, (directory_consistent_iff h (initrdRootNode_isDirectory _)).mpr
    (.inr ⟨rfl, ?_⟩)⟩
  decide

end RawOS
