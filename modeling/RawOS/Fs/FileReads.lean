import RawOS.Fs.Vfs

/-!
# Reads of a file

A read returns a count and stores that many bytes at the start of the buffer.
`vfsRead_readsInto_iff` says for which requests this holds: an image slice is copied by its count
as a `u32` and reported as an `s32`, and the keyboard delivers a byte without asking for the
capacity of the buffer.
-/

namespace RawOS

instance (k : KeyboardState) (scanCode : UInt8) : Decidable (CharacterPress k scanCode) :=
  inferInstanceAs (Decidable (_ ∧ _))

/-- The character of the first character key that is pressed. -/
def typed (k : KeyboardState) : List UInt8 → Option UInt8
  | [] => none
  | scanCode :: scanCodes =>
    if CharacterPress k scanCode then
      some (getKeyCharacter k (k.keyLookupTable scanCode.toNat).keyCode)
    else typed (keyboardInterruptHandler k (fun _ => 0) scanCode).1 scanCodes

/-- `[a, a + n)` and `[b, b + l)` have no common address. -/
def ApartFrom (a n b l : ℕ) : Prop := a + n ≤ b ∨ b + l ≤ a

/-- What a read takes its bytes from lies apart from the buffer: the bytes of the file, or the
`kerb` of `dev_read`. -/
def Initrd.BufferApart (initrd : Initrd) (kerb buf size : ℕ) : NodeRef → Prop
  | .initrdFilesNodes i => ∀ node data, initrd.filesNodes[i]? = some node →
    initrd.filesData[i]? = some data →
      data + node.size ≤ 4294967296 ∧ ApartFrom buf size data node.size
  | _ => ApartFrom buf size kerb 16

/-- The bytes that a node has to give from `offset` on, if `out` is typed. -/
def Initrd.bytes (initrd : Initrd) (m : Mem) (out : UInt8) (offset : ℕ) : NodeRef → ℕ → UInt8
  | .initrdFilesNodes i => fun j => m (initrd.filesData.getD i 0 + offset + j)
  | _ => fun _ => out

/-- The read returns a count of at most `size`, stores that many of the bytes at `buf`, and no other
byte is written, but for the local of `dev_read`. -/
def ReadsInto (x : Except Panic (Option (ℤ × KeyboardState × Mem))) (m : Mem)
    (kerb buf size : ℕ) (apart : Prop) (bytes : ℕ → UInt8) : Prop :=
  ∃ r k' m', x = .ok (some (r, k', m')) ∧ 0 ≤ r ∧ r ≤ size ∧
    (∀ a : ℕ, (a < kerb ∨ kerb + 16 ≤ a) → (a < buf ∨ buf + r ≤ a) → m' a = m a) ∧
    (apart → ∀ j : ℕ, j < r → m' (buf + j) = bytes j)

/-- The request is one that the code serves as a read should be. -/
def Initrd.Served (initrd : Initrd) (offset size : ℕ) : NodeRef → Prop
  | .initrdFilesNodes i => ∀ node, initrd.filesNodes[i]? = some node → offset < node.size →
    min size (node.size - offset) < 2147483648
  | .keyboardNode => 0 < size
  | _ => True

def Initrd.IsFile (initrd : Initrd) (ref : NodeRef) : Prop :=
  ∃ node, initrd.node ref = some node ∧ node.flags = vfsFile

variable {initrd : Initrd} {k : KeyboardState} {m : Mem} {kerb buf size offset : ℕ} {out : UInt8}

/-! ## The keyboard -/

theorem keyboardInterruptHandler_keyboard (m m' : Mem) {scanCode : UInt8} :
    (keyboardInterruptHandler k m scanCode).1 = (keyboardInterruptHandler k m' scanCode).1 := by
  unfold keyboardInterruptHandler
  dsimp only
  split_ifs <;> rfl

theorem deliverKey_eventReceived : kerbEventReceived (deliverKey m kerb out) kerb = 1 :=
  kerbEventReceived_deliverKey

theorem deliverKey_bufferFilled : kerbBufferFilled (deliverKey m kerb out) kerb = 1 := by
  unfold kerbBufferFilled deliverKey setKerbBufferFilled
  rw [load32_store32_eq rfl (by decide)]

theorem deliverKey_of_outside {a : ℕ} (h : a < kerb ∨ kerb + 16 ≤ a) :
    deliverKey m kerb out a = store8 m (kerbBuffer m kerb) out a := by
  unfold deliverKey setKerbBufferFilled setKerbEventReceived
  rw [store32_of_outside (by omega), store32_of_outside (by omega)]

/-- Once the event was received, the loop is left. -/
theorem devReadLoop_received (h : kerbEventReceived m kerb ≠ 0) (scanCodes : List UInt8) :
    devReadLoop k m kerb scanCodes = some (toS32 (kerbBufferFilled m kerb), k, m) := by
  cases scanCodes with
  | nil => exact if_pos h
  | cons _ _ => exact if_pos h

/-- The loop runs until a character key is pressed, and the key's character is delivered. -/
theorem devReadLoop_eq (hnum : k.keyboardEventBuffersNum = 1) (hkerb : k.keyboardEventBuffers 0 = kerb)
    (hrec : kerbEventReceived m kerb = 0) (scanCodes : List UInt8) :
    (typed k scanCodes = none ∧ devReadLoop k m kerb scanCodes = none) ∨
      ∃ out k', typed k scanCodes = some out ∧
        devReadLoop k m kerb scanCodes = some (1, k', deliverKey m kerb out) := by
  induction scanCodes generalizing k with
  | nil => exact .inl ⟨rfl, if_neg (not_not.mpr hrec)⟩
  | cons scanCode scanCodes ih =>
    rw [typed, devReadLoop, if_neg (not_not.mpr hrec)]
    by_cases hpress : CharacterPress k scanCode
    · right
      rw [if_pos hpress, keyboardInterruptHandler_press hpress, hnum]
      refine ⟨_, { k with keyboardEventBuffersNum := 0 }, rfl, ?_⟩
      dsimp only
      rw [deliverKeys, deliverKeys, hkerb,
        devReadLoop_received (by rw [deliverKey_eventReceived]; decide), deliverKey_bufferFilled]
      rfl
    · obtain ⟨shift, hother⟩ := keyboardInterruptHandler_other (m := m) hpress
      have hk := congrArg Prod.fst hother
      rw [keyboardInterruptHandler_keyboard m fun _ => 0] at hk
      rw [if_neg hpress, hother, hk]
      exact ih hnum hkerb

/-- The memory when `dev_read` has filled in and registered its `kerb`. -/
def kerbRegistered (m : Mem) (kerb buf size : ℕ) : Mem :=
  let m := setKerbBufferCapacity (setKerbBufferFilled (setKerbEventReceived
    (setKerbBuffer m kerb buf) kerb 0) kerb 0) kerb size
  setKerbBufferFilled (setKerbEventReceived m kerb 0) kerb 0

theorem devReadKeyboard_idle (hidle : k.keyboardEventBuffersNum = 0) :
    devReadKeyboard k m kerb buf size = .ok ({ k with
      keyboardEventBuffers := Function.update k.keyboardEventBuffers 0 kerb
      keyboardEventBuffersNum := 1 }, kerbRegistered m kerb buf size) := by
  unfold devReadKeyboard keyboardRegisterEventBuffer
  rw [hidle]
  exact if_pos (by decide)

theorem kerbRegistered_eventReceived (m : Mem) (kerb buf size : ℕ) :
    kerbEventReceived (kerbRegistered m kerb buf size) kerb = 0 := by
  unfold kerbEventReceived kerbRegistered setKerbBufferFilled setKerbEventReceived
  rw [load32_store32_of_disjoint (by omega), load32_store32_eq rfl (by decide)]

theorem kerbRegistered_buffer (hbuf : buf < 4294967296) :
    kerbBuffer (kerbRegistered m kerb buf size) kerb = buf := by
  unfold kerbBuffer kerbRegistered setKerbBufferFilled setKerbEventReceived
    setKerbBufferCapacity setKerbBuffer
  rw [load32_store32_of_disjoint (by omega), load32_store32_of_disjoint (by omega),
    load32_store32_of_disjoint (by omega), load32_store32_of_disjoint (by omega),
    load32_store32_of_disjoint (by omega), load32_store32_eq rfl hbuf]

theorem kerbRegistered_of_outside {a : ℕ} (h : a < kerb ∨ kerb + 16 ≤ a) :
    kerbRegistered m kerb buf size a = m a := by
  unfold kerbRegistered setKerbBufferFilled setKerbEventReceived setKerbBufferCapacity setKerbBuffer
  rw [store32_of_outside (by omega), store32_of_outside (by omega), store32_of_outside (by omega),
    store32_of_outside (by omega), store32_of_outside (by omega), store32_of_outside (by omega)]

/-- What is typed does not depend on the registrations. -/
theorem typed_congr (k k' : KeyboardState) (scanCodes : List UInt8)
    (htable : k'.keyLookupTable = k.keyLookupTable) (hshift : k'.shiftEnabled = k.shiftEnabled) :
    typed k' scanCodes = typed k scanCodes := by
  induction scanCodes generalizing k k' with
  | nil => rfl
  | cons scanCode scanCodes ih =>
    cases k
    cases k'
    cases htable
    cases hshift
    rw [typed, typed]
    split_ifs with h₁ h₂
    · rfl
    · exact absurd h₁ h₂
    · contradiction
    · unfold keyboardInterruptHandler
      dsimp only
      split_ifs <;> exact ih _ _ rfl rfl

/-- A keyboard read waits while no character key is pressed, and then delivers one byte. -/
theorem vfsRead_keyboard (hidle : k.keyboardEventBuffersNum = 0) (scanCodes : List UInt8) :
    (typed k scanCodes = none ∧
      vfsRead initrd .keyboardNode k m kerb scanCodes offset size buf = .ok none) ∨
    ∃ out k', typed k scanCodes = some out ∧
      vfsRead initrd .keyboardNode k m kerb scanCodes offset size buf =
        .ok (some (1, k', deliverKey (kerbRegistered m kerb buf size) kerb out)) := by
  have hread : vfsRead initrd .keyboardNode k m kerb scanCodes offset size buf =
      devRead .keyboardNode k m kerb scanCodes size buf := rfl
  rw [hread, devRead, if_pos rfl, devReadKeyboard_idle hidle, ok_bind]
  dsimp only
  have hloop := devReadLoop_eq (k := { k with
      keyboardEventBuffers := Function.update k.keyboardEventBuffers 0 kerb
      keyboardEventBuffersNum := 1 }) rfl (Function.update_self 0 kerb k.keyboardEventBuffers)
    (kerbRegistered_eventReceived m kerb buf size) scanCodes
  have htyped := typed_congr k { k with
      keyboardEventBuffers := Function.update k.keyboardEventBuffers 0 kerb
      keyboardEventBuffersNum := 1 } scanCodes rfl rfl
  rw [htyped] at hloop
  obtain ⟨hnone, hloop⟩ | ⟨out, k', hout, hloop⟩ := hloop
  · exact .inl ⟨hnone, by rw [hloop]⟩
  · exact .inr ⟨out, k', hout, by rw [hloop]⟩

/-! ## A file of the ramdisk -/

theorem toS32_nonneg_iff {n : ℕ} (h : n < 4294967296) : 0 ≤ toS32 n ↔ n < 2147483648 := by
  unfold toS32
  split_ifs <;> omega

theorem toS32_of_lt {n : ℕ} (h : n < 2147483648) : toS32 n = n := if_pos h

/-- The node and the data of file `i`, and the read of a slice of it. -/
theorem initrdRead_eq (hb : FilesBuilt initrd.filesNodes initrd.filesData initrd.numFiles)
    (hnum : sizeofVfsNode * initrd.numFiles < 4294967296) {i : ℕ} {node : VfsNode}
    (hnode : initrd.filesNodes[i]? = some node) :
    ∃ data, initrd.filesData[i]? = some data ∧ node.size < 4294967296 ∧
      node.read = some .initrdRead ∧
      initrdRead initrd node m offset size buf =
        if node.size ≤ offset then .ok (0, m)
        else .ok (toS32 (min size (node.size - offset)),
          memcpy m buf (u32 (data + offset)) (min size (node.size - offset))) := by
  obtain ⟨hi, rfl⟩ := List.getElem?_eq_some_iff.mp hnode
  obtain ⟨name, fileSize, hlt, hfile⟩ := hb.node i hi
  have hlen := hb.nodes_length
  have hi' : i < initrd.filesData.length := by rw [hb.files_length, ← hlen]; exact hi
  have hinode : u32Sub initrd.filesNodes[i].inode 1 = i := by
    rw [hfile]
    unfold sizeofVfsNode at hnum
    unfold initrdFileNode u32 u32Sub
    dsimp only
    omega
  have hsize : initrd.filesNodes[i].size < 4294967296 := by rw [hfile]; exact hlt
  refine ⟨_, List.getElem?_eq_getElem hi', hsize, by rw [hfile]; rfl, ?_⟩
  unfold initrdRead
  split_ifs with hoff
  · rfl
  · dsimp only
    rw [hinode, List.getElem?_eq_getElem hi', u32Sub_of_le (by omega) hsize]

theorem vfsRead_initrd {i : ℕ} {node : VfsNode} (hnode : initrd.filesNodes[i]? = some node)
    (hread : node.read = some .initrdRead) (scanCodes : List UInt8) :
    vfsRead initrd (.initrdFilesNodes i) k m kerb scanCodes offset size buf =
      (initrdRead initrd node m offset size buf >>= fun r => .ok (some (r.1, k, r.2))) := by
  have href : initrd.node (.initrdFilesNodes i) = some node := hnode
  unfold vfsRead
  rw [href]
  dsimp only
  rw [hread]

theorem isFile_cases {ref : NodeRef} (h : initrd.IsFile ref) :
    (∃ i node, ref = .initrdFilesNodes i ∧ initrd.filesNodes[i]? = some node) ∨
      ref = .screenNode ∨ ref = .keyboardNode := by
  obtain ⟨node, hnode, hflags⟩ := h
  cases ref with
  | initrdFilesNodes i => exact .inl ⟨i, node, rfl, hnode⟩
  | screenNode => exact .inr (.inl rfl)
  | keyboardNode => exact .inr (.inr rfl)
  | vfsRoot =>
    cases hnode
    exact absurd hflags (show vfsDirectory ≠ vfsFile by decide)
  | initrdRootNode =>
    cases hnode
    exact absurd hflags (show vfsDirectory ≠ vfsFile by decide)
  | devRootNode =>
    cases hnode
    exact absurd hflags (show vfsDirectory ≠ vfsFile by decide)

/-! ## Every file -/

variable {apart : Prop} {bytes : ℕ → UInt8} {x : Except Panic (Option (ℤ × KeyboardState × Mem))}

/-- A read that returns 0 and writes nothing. -/
theorem ReadsInto.nothing : ReadsInto (.ok (some (0, k, m))) m kerb buf size apart bytes :=
  ⟨0, k, m, rfl, Int.le_refl 0, Int.natCast_nonneg size, fun _ _ _ => rfl, fun _ j hj => by omega⟩

theorem keyboard_readsInto_iff (hidle : k.keyboardEventBuffersNum = 0) (hbuf : buf < 4294967296)
    {scanCodes : List UInt8} (htyped : typed k scanCodes = some out) :
    ReadsInto (vfsRead initrd .keyboardNode k m kerb scanCodes offset size buf) m kerb buf size
        (ApartFrom buf size kerb 16) (fun _ => out) ↔ 0 < size := by
  obtain ⟨hnone, -⟩ | ⟨out', k', hout, hread⟩ :=
    @vfsRead_keyboard initrd k m kerb buf size offset hidle scanCodes
  · rw [hnone] at htyped
    cases htyped
  rw [hout] at htyped
  cases htyped
  rw [hread]
  constructor
  · rintro ⟨r, _, _, heq, -, hle, -⟩
    cases heq
    omega
  · intro hpos
    refine ⟨1, k', _, rfl, by decide, by omega, fun a ha hne => ?_, fun hap j hj => ?_⟩
    · rw [deliverKey_of_outside ha, kerbRegistered_buffer hbuf, store8_of_ne (by omega),
        kerbRegistered_of_outside ha]
    · obtain rfl : j = 0 := by omega
      unfold ApartFrom at hap
      rw [deliverKey_of_outside (by omega), kerbRegistered_buffer hbuf]
      exact if_pos rfl

theorem initrd_readsInto_iff (hb : FilesBuilt initrd.filesNodes initrd.filesData initrd.numFiles)
    (hnum : sizeofVfsNode * initrd.numFiles < 4294967296) (hsize : size < 4294967296)
    {i : ℕ} {node : VfsNode} (hnode : initrd.filesNodes[i]? = some node) (scanCodes : List UInt8) :
    ReadsInto (vfsRead initrd (.initrdFilesNodes i) k m kerb scanCodes offset size buf) m kerb buf
        size (initrd.BufferApart kerb buf size (.initrdFilesNodes i))
        (initrd.bytes m out offset (.initrdFilesNodes i)) ↔
      initrd.Served offset size (.initrdFilesNodes i) := by
  obtain ⟨data, hdata, hlt, hread, heq⟩ :=
    @initrdRead_eq initrd m buf size offset hb hnum i node hnode
  have hserved : initrd.Served offset size (.initrdFilesNodes i) ↔
      (offset < node.size → min size (node.size - offset) < 2147483648) := by
    simp [Initrd.Served, hnode]
  rw [hserved, vfsRead_initrd hnode hread, heq]
  by_cases hoff : node.size ≤ offset
  · rw [if_pos hoff, ok_bind]
    exact iff_of_true .nothing fun h => absurd h (Nat.not_lt.mpr hoff)
  rw [if_neg hoff, ok_bind]
  dsimp only
  constructor
  · rintro ⟨r, _, _, hr, hnonneg, -⟩ -
    cases hr
    exact (toS32_nonneg_iff (by omega)).mp hnonneg
  · intro h
    have hcount := toS32_of_lt (h (by omega))
    refine ⟨_, k, _, rfl, by omega, by omega, fun a _ ha => ?_, fun hap j hj => ?_⟩
    · rw [hcount] at ha
      exact memcpy_of_outside (by omega)
    · obtain ⟨hfits, hap⟩ := hap node data hnode hdata
      unfold ApartFrom at hap
      rw [hcount] at hj
      rw [u32_of_lt (by omega), memcpy_of_inside (by omega) (by omega)]
      simp [Initrd.bytes, hdata]

/-- A read of a file returns how many bytes it stored and stores no others, exactly if: the count
of bytes of a ramdisk file is below `2 ^ 31`, and there is room for the key. The keyboard is read
while no other process waits for it. -/
theorem vfsRead_readsInto_iff {m₀ : Mem} {addr : ℕ} (h : initrdInit m₀ addr = .ok initrd)
    {ref : NodeRef} (hfile : initrd.IsFile ref) (hsize : size < 4294967296) (hbuf : buf < 4294967296)
    {scanCodes : List UInt8}
    (hidle : ref = .keyboardNode → k.keyboardEventBuffersNum = 0)
    (htyped : ref = .keyboardNode → typed k scanCodes = some out) :
    ReadsInto (vfsRead initrd ref k m kerb scanCodes offset size buf) m kerb buf size
        (initrd.BufferApart kerb buf size ref) (initrd.bytes m out offset ref) ↔
      initrd.Served offset size ref := by
  rcases isFile_cases hfile with ⟨i, node, rfl, hnode⟩ | rfl | rfl
  · exact initrd_readsInto_iff (initrdInit_built h) (initrdInit_numFiles_lt h) hsize hnode scanCodes
  · have hread : vfsRead initrd .screenNode k m kerb scanCodes offset size buf =
        .ok (some (0, k, m)) := rfl
    rw [hread]
    exact iff_of_true .nothing trivial
  · exact keyboard_readsInto_iff (hidle rfl) hbuf (htyped rfl)

/-! ## The key `A` -/

theorem initrdInit_empty : initrdInit (fun _ => 0) 0 = .ok ⟨0, [], []⟩ := rfl

theorem keyboardNode_isFile (initrd : Initrd) : initrd.IsFile .keyboardNode :=
  ⟨keyboardNode, rfl, rfl⟩

theorem typed_a : typed keyboardInit [0x1E] = some 97 := by decide

/-- A read of no bytes gets one. -/
theorem not_readsInto_noBytes : ∃ initrd, initrdInit (fun _ => 0) 0 = .ok initrd ∧
    initrd.IsFile .keyboardNode ∧
    ¬ ReadsInto (vfsRead initrd .keyboardNode keyboardInit (fun _ => 0) 0xEFFFFF00 [0x1E] 0 0
      0x40001000) (fun _ => 0) 0xEFFFFF00 0x40001000 0
      (initrd.BufferApart 0xEFFFFF00 0x40001000 0 .keyboardNode)
      (initrd.bytes (fun _ => 0) 97 0 .keyboardNode) := by
  refine ⟨_, initrdInit_empty, keyboardNode_isFile _, fun h => ?_⟩
  have hpos := (keyboard_readsInto_iff (k := keyboardInit) rfl (by decide) typed_a).mp h
  exact absurd hpos (by decide)

/-- A read of one byte gets it. -/
theorem readsInto_oneByte : ∃ initrd, initrdInit (fun _ => 0) 0 = .ok initrd ∧
    ReadsInto (vfsRead initrd .keyboardNode keyboardInit (fun _ => 0) 0xEFFFFF00 [0x1E] 0 1
      0x40001000) (fun _ => 0) 0xEFFFFF00 0x40001000 1
      (initrd.BufferApart 0xEFFFFF00 0x40001000 1 .keyboardNode)
      (initrd.bytes (fun _ => 0) 97 0 .keyboardNode) :=
  ⟨_, initrdInit_empty, (vfsRead_readsInto_iff initrdInit_empty (keyboardNode_isFile _) (by decide)
    (by decide) (fun _ => rfl) fun _ => typed_a).mpr (show 0 < 1 by decide)⟩

end RawOS
