import RawOS.Fs.Vfs

/-!
# `fs_util_get_node_by_path`

The loop of `fs_util_get_node_by_path` goes over the bytes of a path. `fsUtilGetNodeByPath_fold`
says that it looks up the components of the path one after another, and
`filenameBufferWrites_inBounds_iff` when it stays inside `filename_buffer`.
-/

namespace RawOS

def pathSlash : UInt8 := '/'.toUInt8

/-! ## Components -/

/-- The last component is skipped if it is empty. -/
def skipEmptyLast : List (List UInt8) → List (List UInt8)
  | [] => []
  | [name] => if name = [] then [] else [name]
  | name :: names => name :: skipEmptyLast names

/-- The names that a path without its first slash goes through. -/
def components (path : List UInt8) : List (List UInt8) := skipEmptyLast (path.splitOn pathSlash)

/-- `vfs_lookup` of the names one after another, until one fails. -/
def lookupAll (initrd : Initrd) : NodeRef → List (List UInt8) → Except Panic (Option NodeRef)
  | node, [] => .ok (some node)
  | node, name :: names => do
    match ← vfsLookup initrd node name with
    | none => return none
    | some node => lookupAll initrd node names

/-- The names up to the first whose lookup fails. -/
def scanned (initrd : Initrd) : NodeRef → List (List UInt8) → List (List UInt8)
  | _, [] => []
  | node, name :: names => name ::
    match vfsLookup initrd node name with
    | .ok (some node) => scanned initrd node names
    | _ => []

/-! ## The buffer -/

/-- The indexes at which the loop of `fs_util_get_node_by_path` and what follows it store into
`filename_buffer`, from `path` on, when the buffer holds `filenameBuffer`. -/
def bufferWrites (initrd : Initrd) : List UInt8 → NodeRef → List UInt8 → List ℕ
  | [], _, filenameBuffer => if filenameBuffer ≠ [] then [filenameBuffer.length] else []
  | c :: path, result, filenameBuffer =>
    filenameBuffer.length ::
      if c = '/'.toUInt8 then
        match vfsLookup initrd result filenameBuffer with
        | .ok (some result) => bufferWrites initrd path result []
        | _ => []
      else bufferWrites initrd path result (filenameBuffer ++ [c])

/-- The indexes of `filename_buffer` that `fs_util_get_node_by_path` stores at. -/
def filenameBufferWrites (initrd : Initrd) : List UInt8 → List ℕ
  | [] => []
  | c :: path => if c ≠ '/'.toUInt8 then [] else bufferWrites initrd path .vfsRoot []

section

variable {initrd : Initrd} {node : NodeRef} {path name buffer : List UInt8} {c : UInt8}
  {names : List (List UInt8)}

theorem skipEmptyLast_cons (h : names ≠ []) :
    skipEmptyLast (name :: names) = name :: skipEmptyLast names := by
  cases names with
  | nil => exact absurd rfl h
  | cons name' names => rfl

/-- The names of `path` when `buffer` stands before it. -/
def splitFrom (buffer path : List UInt8) : List (List UInt8) :=
  (path.splitOn pathSlash).modifyHead (buffer ++ ·)

theorem splitFrom_nil : splitFrom buffer [] = [buffer] := by
  rw [splitFrom, List.splitOn_nil, List.modifyHead_cons, List.append_nil]

theorem splitFrom_empty : splitFrom [] path = path.splitOn pathSlash := by
  unfold splitFrom
  cases path.splitOn pathSlash with
  | nil => rfl
  | cons name names => rfl

theorem splitFrom_slash : splitFrom buffer (pathSlash :: path) = buffer :: splitFrom [] path := by
  rw [splitFrom_empty, splitFrom, List.splitOn_cons_eq_if_modifyHead,
    if_pos (beq_self_eq_true pathSlash),
    List.modifyHead_cons, List.append_nil]

theorem splitFrom_cons (hc : c ≠ pathSlash) :
    splitFrom buffer (c :: path) = splitFrom (buffer ++ [c]) path := by
  rw [splitFrom, List.splitOn_cons_eq_if_modifyHead, if_neg (fun h => hc (eq_of_beq h)),
    List.modifyHead_modifyHead]
  unfold splitFrom
  congr 1
  funext name
  exact (List.append_assoc buffer [c] name).symm

theorem splitFrom_ne_nil : splitFrom buffer path ≠ [] := by
  unfold splitFrom
  rw [ne_eq, List.modifyHead_eq_nil_iff]
  exact List.splitOn_ne_nil pathSlash path

/-- The first name starts with the buffer. -/
theorem exists_splitFrom (buffer path : List UInt8) :
    ∃ rest names, splitFrom buffer path = (buffer ++ rest) :: names := by
  cases hsplit : path.splitOn pathSlash with
  | nil => exact absurd hsplit (List.splitOn_ne_nil pathSlash path)
  | cons name names =>
    refine ⟨name, names, ?_⟩
    rw [splitFrom, hsplit, List.modifyHead_cons]

/-! ## The bound -/

theorem mem_scanned_cons {i : List UInt8} :
    i ∈ scanned initrd node (name :: names) ↔ i = name ∨
      ∃ node', vfsLookup initrd node name = .ok (some node') ∧ i ∈ scanned initrd node' names := by
  rw [scanned, List.mem_cons]
  refine or_congr_right ?_
  cases vfsLookup initrd node name with
  | error e => exact ⟨fun h => absurd h List.not_mem_nil, fun ⟨_, h, _⟩ => by cases h⟩
  | ok found =>
    cases found with
    | none => exact ⟨fun h => absurd h List.not_mem_nil, fun ⟨_, h, _⟩ => by cases h⟩
    | some node' =>
      refine ⟨fun h => ⟨node', rfl, h⟩, ?_⟩
      rintro ⟨node'', h, hi⟩
      cases h
      exact hi

/-- The stores of the loop stay inside the buffer. -/
theorem bufferWrites_inBounds_iff : ∀ {path : List UInt8} {node : NodeRef} {buffer : List UInt8},
    (∀ i ∈ bufferWrites initrd path node buffer, i < vfsFileNameMaxLength) ↔
      ∀ name ∈ scanned initrd node (splitFrom buffer path), name.length < vfsFileNameMaxLength
  | [], node, buffer => by
    have hscanned : ∀ name, name ∈ scanned initrd node [buffer] ↔ name = buffer := fun name => by
      rw [mem_scanned_cons]
      refine ⟨fun h => h.resolve_right ?_, .inl⟩
      rintro ⟨node', -, h⟩
      exact absurd h List.not_mem_nil
    rw [splitFrom_nil, bufferWrites]
    by_cases hbuffer : buffer = []
    · rw [if_neg (not_not.mpr hbuffer)]
      refine ⟨fun _ name hname => ?_, fun _ i hi => absurd hi List.not_mem_nil⟩
      rw [(hscanned name).mp hname, hbuffer]
      exact Nat.zero_lt_succ 255
    · rw [if_pos hbuffer]
      refine ⟨fun h name hname => ?_, fun h i hi => ?_⟩
      · rw [(hscanned name).mp hname]
        exact h _ (List.mem_singleton_self _)
      · rw [List.mem_singleton.mp hi]
        exact h _ ((hscanned buffer).mpr rfl)
  | c :: path, node, buffer => by
    rw [bufferWrites]
    by_cases hc : c = '/'.toUInt8
    · subst hc
      have hsplit : splitFrom buffer ('/'.toUInt8 :: path) = buffer :: splitFrom [] path :=
        splitFrom_slash
      rw [hsplit, if_pos rfl, scanned, List.forall_mem_cons, List.forall_mem_cons]
      refine and_congr_right fun _ => ?_
      cases vfsLookup initrd node buffer with
      | error e => exact
          ⟨fun _ _ h => absurd h List.not_mem_nil, fun _ _ h => absurd h List.not_mem_nil⟩
      | ok found =>
        cases found with
        | none =>
          exact ⟨fun _ _ h => absurd h List.not_mem_nil, fun _ _ h => absurd h List.not_mem_nil⟩
        | some node' => exact bufferWrites_inBounds_iff
    · have hrec := @bufferWrites_inBounds_iff path node (buffer ++ [c])
      rw [if_neg hc, splitFrom_cons hc, List.forall_mem_cons, hrec]
      refine ⟨And.right, fun h => ⟨?_, h⟩⟩
      -- the component goes on with the buffer and `c`
      obtain ⟨rest, names, hsplit⟩ := exists_splitFrom (buffer ++ [c]) path
      rw [hsplit] at h
      have hfirst := h _ (mem_scanned_cons.mpr (.inl rfl))
      rw [List.length_append, List.length_append, List.length_singleton] at hfirst
      omega

/-- The stores stay inside the buffer just if no component is too long, up to the first that is not
found. -/
theorem filenameBufferWrites_inBounds_iff (initrd : Initrd) (path : List UInt8) :
    (∀ i ∈ filenameBufferWrites initrd path, i < vfsFileNameMaxLength) ↔
      (path.head? = some pathSlash → ∀ name ∈ scanned initrd .vfsRoot (path.tail.splitOn pathSlash),
        name.length < vfsFileNameMaxLength) := by
  cases path with
  | nil => exact ⟨fun _ => nofun, fun _ i hi => absurd hi List.not_mem_nil⟩
  | cons c path =>
    rw [filenameBufferWrites, List.head?_cons, List.tail_cons]
    by_cases hc : c = pathSlash
    · have hne : ¬ c ≠ '/'.toUInt8 := not_not.mpr hc
      rw [if_neg hne, bufferWrites_inBounds_iff, splitFrom_empty]
      exact ⟨fun h _ => h, fun h => h (congrArg some hc)⟩
    · have hne : c ≠ '/'.toUInt8 := hc
      rw [if_pos hne]
      exact ⟨fun _ h => absurd (Option.some.inj h) hc, fun _ i hi => absurd hi List.not_mem_nil⟩

/-- A path whose only component has `n` bytes. -/
def longPath (n : ℕ) : List UInt8 := pathSlash :: List.replicate n 'a'.toUInt8

theorem splitOn_longPath (n : ℕ) :
    (longPath n).tail.splitOn pathSlash = [List.replicate n 'a'.toUInt8] := by
  apply List.splitOn_eq_singleton_of_beq_eq_false
  intro c hc
  rw [List.eq_of_mem_replicate hc]
  decide

/-- The NUL after a name of 256 bytes is outside. -/
theorem not_inBounds_longPath : ¬ ∀ initrd path, ∀ i ∈ filenameBufferWrites initrd path,
    i < vfsFileNameMaxLength := by
  intro hall
  have hshort := (filenameBufferWrites_inBounds_iff ⟨0, [], []⟩ (longPath 256)).mp (hall _ _) rfl
  rw [splitOn_longPath] at hshort
  have hlt := hshort _ (mem_scanned_cons.mpr (.inl rfl))
  rw [List.length_replicate] at hlt
  exact Nat.lt_irrefl 256 hlt

/-- Such a store is where the model of the call ends. -/
theorem pathNode_full : ∀ {path : List UInt8} {node : NodeRef} {buffer : List UInt8},
    buffer.length < vfsFileNameMaxLength →
    (∃ i ∈ bufferWrites initrd path node buffer, vfsFileNameMaxLength ≤ i) →
    pathNode initrd path node buffer =
      .error (.undefined "fs_util_get_node_by_path: filename_buffer is full")
  | [], node, buffer, hlt, ⟨i, hi, hle⟩ => by
    rw [bufferWrites] at hi
    split_ifs at hi with hbuffer
    · rw [List.mem_singleton.mp hi] at hle
      omega
    · exact absurd hi List.not_mem_nil
  | c :: path, node, buffer, hlt, ⟨i, hi, hle⟩ => by
    rw [bufferWrites, List.mem_cons] at hi
    have hi := hi.resolve_left (by omega)
    rw [pathNode]
    by_cases hc : c = '/'.toUInt8
    · rw [if_pos hc] at hi ⊢
      cases hlookup : vfsLookup initrd node buffer with
      | error e =>
        rw [hlookup] at hi
        exact absurd hi List.not_mem_nil
      | ok found =>
        rw [hlookup] at hi
        cases found with
        | none => exact absurd hi List.not_mem_nil
        | some node' => exact pathNode_full (Nat.zero_lt_succ 255) ⟨i, hi, hle⟩
    · rw [if_neg hc] at hi ⊢
      split_ifs with hroom
      · refine pathNode_full ?_ ⟨i, hi, hle⟩
        rw [List.length_append, List.length_singleton]
        exact hroom
      · rfl

/-! ## The fold -/

theorem pathNode_fold : ∀ {path : List UInt8} {node : NodeRef} {buffer : List UInt8},
    (∀ name ∈ scanned initrd node (splitFrom buffer path), name.length < vfsFileNameMaxLength) →
    pathNode initrd path node buffer = lookupAll initrd node (skipEmptyLast (splitFrom buffer path))
  | [], node, buffer, _ => by
    rw [splitFrom_nil, pathNode, skipEmptyLast]
    by_cases hbuffer : buffer = []
    · rw [if_neg (not_not.mpr hbuffer), if_pos hbuffer]
      rfl
    · rw [if_pos hbuffer, if_neg hbuffer, lookupAll]
      cases vfsLookup initrd node buffer with
      | error e => rfl
      | ok found =>
        cases found with
        | none => rfl
        | some node' => rfl
  | c :: path, node, buffer, hlt => by
    rw [pathNode]
    by_cases hc : c = '/'.toUInt8
    · subst hc
      have hsplit : splitFrom buffer ('/'.toUInt8 :: path) = buffer :: splitFrom [] path :=
        splitFrom_slash
      rw [hsplit] at hlt ⊢
      rw [if_pos rfl, skipEmptyLast_cons splitFrom_ne_nil, lookupAll]
      cases hlookup : vfsLookup initrd node buffer with
      | error e => rfl
      | ok found =>
        cases found with
        | none => rfl
        | some node' =>
          rw [ok_bind, ok_bind]
          exact pathNode_fold fun name hname =>
            hlt name (mem_scanned_cons.mpr (.inr ⟨node', hlookup, hname⟩))
    · rw [splitFrom_cons hc] at hlt ⊢
      have hroom : buffer.length + 1 < vfsFileNameMaxLength := by
        obtain ⟨rest, names, hsplit⟩ := exists_splitFrom (buffer ++ [c]) path
        rw [hsplit] at hlt
        have hfirst := hlt _ (mem_scanned_cons.mpr (.inl rfl))
        rw [List.length_append, List.length_append, List.length_singleton] at hfirst
        omega
      rw [if_neg hc, if_pos hroom]
      exact pathNode_fold hlt

theorem scanned_subset : ∀ {names : List (List UInt8)} {node : NodeRef},
    scanned initrd node names ⊆ names
  | [], _ => List.nil_subset _
  | name :: names, node => by
    intro i hi
    rcases mem_scanned_cons.mp hi with rfl | ⟨node', -, hi⟩
    · exact List.mem_cons_self
    · exact List.mem_cons_of_mem _ (scanned_subset hi)

/-- Where the components are short, the result is that of the lookups one after another, and 0 for
a path that is not absolute. -/
theorem fsUtilGetNodeByPath_fold (initrd : Initrd) (path : List UInt8)
    (hshort : ∀ name ∈ path.splitOn pathSlash, name.length < vfsFileNameMaxLength) :
    fsUtilGetNodeByPath initrd path =
      if path.head? = some pathSlash then lookupAll initrd .vfsRoot (components path.tail)
      else .ok none := by
  cases path with
  | nil => rfl
  | cons c path =>
    rw [fsUtilGetNodeByPath, List.head?_cons, List.tail_cons]
    by_cases hc : c = pathSlash
    · have hne : ¬ c ≠ '/'.toUInt8 := not_not.mpr hc
      rw [if_neg hne, if_pos (congrArg some hc), components, ← splitFrom_empty]
      apply pathNode_fold
      intro name hname
      refine hshort name ?_
      have hmem := scanned_subset hname
      rw [splitFrom_empty] at hmem
      rw [hc, List.splitOn_cons_eq_if_modifyHead, if_pos (beq_self_eq_true pathSlash)]
      exact List.mem_cons_of_mem _ hmem
    · have hne : c ≠ '/'.toUInt8 := hc
      rw [if_pos hne, if_neg fun h => hc (Option.some.inj h)]

/-- The path of a file of the ramdisk. -/
theorem fsUtilGetNodeByPath_fold_file :
    fsUtilGetNodeByPath ⟨1, [initrdFileNode [97] 0 5], [0x1000]⟩
      (pathSlash :: initrdName ++ [pathSlash, 97]) = .ok (some (.initrdFilesNodes 0)) := by
  rw [fsUtilGetNodeByPath_fold _ _ (by decide)]
  rfl

end

end RawOS
