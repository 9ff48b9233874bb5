import RawOS.Fs.Vfs
import Mathlib.Tactic.Ring

/-!
# The ramdisk writer

`ramdisk/writer.c` writes the image that `initrd_init` walks. The two programs declare the header
on their own and agree on nothing but this layout: the number of files, the headers, the contents.
`ramdisk_roundTrip_iff` says when the kernel gets back the files that were written.
-/

namespace RawOS

def fileNameMax : ℕ := 256

/-- An argument of the writer and the content of the file it names. -/
structure InputFile where
  path : List UInt8
  content : List UInt8
  path_noNul : 0 ∉ path

inductive WriterError where
  | usage
  | slashInName
  | undefined (what : String)
  deriving DecidableEq

def slash : UInt8 := '/'.toUInt8
def backslash : UInt8 := '\\'.toUInt8

/-- `basename`: what follows the last slash, trailing slashes removed. -/
def basename (path : List UInt8) : List UInt8 :=
  let stripped := path.reverse.dropWhile (· = slash)
  if path = [] then ['.'.toUInt8]
  else if stripped = [] then [slash]
  else (stripped.takeWhile (· ≠ slash)).reverse

/-- `file_is_not_in_root_folder`. -/
def fileIsNotInRootFolder (fileName : List UInt8) : Bool :=
  fileName.any fun c => c = slash ∨ c = backslash

/-- The bytes of a `u32`. -/
def bytes32 (v : ℕ) : List UInt8 :=
  [UInt8.ofNat v, UInt8.ofNat (v / 256), UInt8.ofNat (v / 65536), UInt8.ofNat (v / 16777216)]

/-- `current_header` for one file. The array of the name holds `garbage` behind the terminator;
what a longer name overwrites is not followed. -/
def ramdiskHeader (garbage : ℕ → UInt8) (file : InputFile) : Except WriterError (List UInt8) :=
  let filename := basename file.path
  if fileNameMax ≤ filename.length then .error (.undefined "strcpy: file name too long")
  else if fileIsNotInRootFolder filename then .error .slashInName
  else .ok (filename ++ 0 :: (List.range (fileNameMax - 1 - filename.length)).map garbage ++
    bytes32 (u32 file.content.length))

/-- The headers of the files from number `i` on. -/
def ramdiskHeaders (garbage : ℕ → ℕ → UInt8) : ℕ → List InputFile → Except WriterError (List UInt8)
  | _, [] => .ok []
  | i, file :: files => do
    let header ← ramdiskHeader (garbage i) file
    let headers ← ramdiskHeaders garbage (i + 1) files
    .ok (header ++ headers)

/-- The contents, each cut to the `file_size` of its header. -/
def ramdiskContents (files : List InputFile) : List UInt8 :=
  files.flatMap fun file => file.content.take (u32 file.content.length)

/-- The writer's `main`: what it writes to the image file. -/
def ramdiskWriter (garbage : ℕ → ℕ → UInt8) (files : List InputFile) :
    Except WriterError (List UInt8) :=
  let argc := files.length + 1
  if argc % 2 = 0 ∨ argc = 1 then .error .usage
  else do
    let headers ← ramdiskHeaders garbage 0 files
    .ok (bytes32 (u32 (argc - 1)) ++ headers ++ ramdiskContents files)

/-! ## Bytes in memory -/

/-- The bytes lie at `a`. -/
def BytesAt (m : Mem) (a : ℕ) (bytes : List UInt8) : Prop :=
  ∀ i, ∀ h : i < bytes.length, m (a + i) = bytes[i]

section BytesAt

variable {m : Mem} {a : ℕ} {xs ys : List UInt8}

theorem bytesAt_append : BytesAt m a (xs ++ ys) ↔ BytesAt m a xs ∧ BytesAt m (a + xs.length) ys := by
  constructor
  · intro h
    refine ⟨fun i hi => ?_, fun i hi => ?_⟩
    · rw [h i (by rw [List.length_append]; omega), List.getElem_append_left hi]
    · rw [Nat.add_assoc, h (xs.length + i) (by rw [List.length_append]; omega),
        List.getElem_append_right (Nat.le_add_right _ _)]
      simp
  · rintro ⟨hx, hy⟩ i hi
    rw [List.length_append] at hi
    by_cases hlt : i < xs.length
    · rw [List.getElem_append_left hlt]
      exact hx i hlt
    · rw [List.getElem_append_right (Nat.not_lt.mp hlt), ← hy _ (by omega)]
      congr 1
      omega

theorem bytesAt_cons {b : UInt8} : BytesAt m a (b :: xs) ↔ m a = b ∧ BytesAt m (a + 1) xs := by
  rw [← List.singleton_append, bytesAt_append]
  refine and_congr_left fun _ => ⟨fun h => h 0 Nat.one_pos, fun h i hi => ?_⟩
  obtain rfl : i = 0 := by
    rw [List.length_singleton] at hi
    omega
  exact h

theorem load32_of_bytesAt {v : ℕ} (h : BytesAt m a (bytes32 v)) (hv : v < 4294967296) :
    load32 m a = v := by
  unfold bytes32 at h
  simp only [bytesAt_cons] at h
  obtain ⟨h₀, h₁, h₂, h₃, -⟩ := h
  unfold load32
  rw [h₀, h₁, h₂, h₃]
  simp only [UInt8.toNat_ofNat']
  omega

/-- A terminated string is read back. -/
theorem stringAt_of_bytesAt {n : ℕ} (h : BytesAt m a (xs ++ 0 :: ys)) (hnul : 0 ∉ xs)
    (hlen : xs.length < n) : stringAt m a n = some xs := by
  induction xs generalizing a n with
  | nil =>
    obtain ⟨n, rfl⟩ : ∃ l, n = l + 1 := ⟨n - 1, by rw [List.length_nil] at hlen; omega⟩
    rw [List.nil_append, bytesAt_cons] at h
    rw [stringAt, if_pos h.1]
  | cons b xs ih =>
    obtain ⟨n, rfl⟩ : ∃ l, n = l + 1 := ⟨n - 1, by rw [List.length_cons] at hlen; omega⟩
    rw [List.cons_append, bytesAt_cons] at h
    rw [List.mem_cons, not_or] at hnul
    rw [List.length_cons] at hlen
    rw [stringAt, if_neg (by rw [h.1]; exact fun hb => hnul.1 hb.symm), ih h.2 hnul.2 (by omega),
      h.1]
    rfl

end BytesAt

/-! ## The layout of an image -/

theorem basename_noNul {path : List UInt8} (h : 0 ∉ path) : 0 ∉ basename path := by
  unfold basename
  dsimp only
  split_ifs
  · decide
  · decide
  · intro hmem
    have := (List.takeWhile_sublist _).mem (List.mem_reverse.mp hmem)
    exact h (List.mem_reverse.mp ((List.dropWhile_sublist _).mem this))

/-- An accepted header: the terminated name in its field, and the size of the file. -/
theorem ramdiskHeader_ok {garbage : ℕ → UInt8} {file : InputFile} {header : List UInt8}
    (h : ramdiskHeader garbage file = .ok header) :
    (basename file.path).length < fileNameMax ∧ ∃ padding,
      padding.length = fileNameMax - 1 - (basename file.path).length ∧
      header = basename file.path ++ 0 :: padding ++ bytes32 (u32 file.content.length) := by
  unfold ramdiskHeader at h
  dsimp only at h
  split_ifs at h with hlong hslash
  cases h
  exact ⟨Nat.not_le.mp hlong, _, by rw [List.length_map, List.length_range], rfl⟩

theorem ramdiskHeader_length {garbage : ℕ → UInt8} {file : InputFile} {header : List UInt8}
    (h : ramdiskHeader garbage file = .ok header) : header.length = sizeofRamdiskHeader := by
  obtain ⟨hlt, padding, hpad, rfl⟩ := ramdiskHeader_ok h
  unfold fileNameMax at hlt hpad
  unfold sizeofRamdiskHeader bytes32
  simp only [List.length_append, List.length_cons, List.length_nil]
  omega

/-- Where the content of file `i` begins, from the end of the headers. -/
def dataOffset (files : List InputFile) (i : ℕ) : ℕ :=
  ((files.take i).map fun file => file.content.length).sum

theorem dataOffset_succ {files : List InputFile} {i : ℕ} (h : i < files.length) :
    dataOffset files (i + 1) = dataOffset files i + files[i].content.length := by
  unfold dataOffset
  rw [List.take_succ_eq_append_getElem h, List.map_append, List.sum_append]
  simp

theorem dataOffset_cons {file : InputFile} {files : List InputFile} {i : ℕ} :
    dataOffset (file :: files) (i + 1) = file.content.length + dataOffset files i := by
  unfold dataOffset
  rw [List.take_succ_cons, List.map_cons, List.sum_cons]

theorem dataOffset_mono {files : List InputFile} {i j : ℕ} (hij : i ≤ j) (hj : j ≤ files.length) :
    dataOffset files i ≤ dataOffset files j := by
  induction j with
  | zero => rw [Nat.le_zero.mp hij]
  | succ j ih =>
    rcases Nat.lt_or_ge j i with hlt | hge
    · rw [show i = j + 1 by omega]
    · rw [dataOffset_succ (by omega)]
      have := ih hge (by omega)
      omega

section Layout

variable {m : Mem} {a : ℕ}

theorem ramdiskHeaders_bytesAt {garbage : ℕ → ℕ → UInt8} {files : List InputFile} :
    ∀ {start a : ℕ} {headers : List UInt8}, ramdiskHeaders garbage start files = .ok headers →
      BytesAt m a headers → headers.length = sizeofRamdiskHeader * files.length ∧
        ∀ i, ∀ h : i < files.length, ∃ g header, ramdiskHeader g files[i] = .ok header ∧
          BytesAt m (a + sizeofRamdiskHeader * i) header := by
  induction files with
  | nil =>
    intro start a headers hok _
    cases hok
    exact ⟨rfl, fun i hi => absurd hi (Nat.not_lt_zero i)⟩
  | cons file files ih =>
    intro start a headers hok hm
    rw [ramdiskHeaders, bind_eq_ok] at hok
    obtain ⟨header, hhead, hok⟩ := hok
    rw [bind_eq_ok] at hok
    obtain ⟨rest, hrest, hok⟩ := hok
    cases hok
    have hlen := ramdiskHeader_length hhead
    obtain ⟨hm₁, hm₂⟩ := bytesAt_append.mp hm
    obtain ⟨hrlen, hall⟩ := ih hrest hm₂
    refine ⟨by rw [List.length_append, hlen, hrlen, List.length_cons]; ring, fun i hi => ?_⟩
    cases i with
    | zero => exact ⟨_, header, hhead, hm₁⟩
    | succ i =>
      obtain ⟨g, h, hg, hh⟩ := hall i (by rw [List.length_cons] at hi; omega)
      refine ⟨g, h, hg, ?_⟩
      rw [hlen, Nat.add_assoc] at hh
      rwa [show sizeofRamdiskHeader * (i + 1) = sizeofRamdiskHeader + sizeofRamdiskHeader * i by ring]

theorem ramdiskContents_cons {file : InputFile} {files : List InputFile}
    (h : file.content.length < 4294967296) :
    ramdiskContents (file :: files) = file.content ++ ramdiskContents files := by
  unfold ramdiskContents
  rw [List.flatMap_cons, u32_of_lt h, List.take_length]

theorem ramdiskContents_bytesAt {files : List InputFile}
    (hlen : ∀ file ∈ files, file.content.length < 4294967296) :
    ∀ {a : ℕ}, BytesAt m a (ramdiskContents files) →
      ∀ i, ∀ h : i < files.length, BytesAt m (a + dataOffset files i) files[i].content := by
  induction files with
  | nil => exact fun _ i hi => absurd hi (Nat.not_lt_zero i)
  | cons file files ih =>
    intro a hm i hi
    rw [ramdiskContents_cons (hlen file List.mem_cons_self), bytesAt_append] at hm
    cases i with
    | zero => exact hm.1
    | succ i =>
      rw [dataOffset_cons, ← Nat.add_assoc]
      exact ih (fun f hf => hlen f (List.mem_cons_of_mem _ hf)) hm.2 i
        (by rw [List.length_cons] at hi; omega)

theorem ramdiskContents_length {files : List InputFile}
    (hlen : ∀ file ∈ files, file.content.length < 4294967296) :
    (ramdiskContents files).length = dataOffset files files.length := by
  induction files with
  | nil => rfl
  | cons file files ih =>
    rw [ramdiskContents_cons (hlen file List.mem_cons_self), List.length_append, List.length_cons,
      dataOffset_cons, ih fun f hf => hlen f (List.mem_cons_of_mem _ hf)]

end Layout

/-! ## What the kernel gets back -/

/-- The image as its parts. -/
structure Image (m : Mem) (base : ℕ) (files : List InputFile) (length : ℕ) : Prop where
  length_eq : length = 4 + sizeofRamdiskHeader * files.length + dataOffset files files.length
  num : load32 m base = files.length
  name : ∀ i, ∀ h : i < files.length,
    stringAt m (base + 4 + sizeofRamdiskHeader * i) vfsFileNameMaxLength =
      some (basename files[i].path)
  size : ∀ i, ∀ h : i < files.length,
    load32 m (base + 4 + sizeofRamdiskHeader * i + vfsFileNameMaxLength) = files[i].content.length
  content : ∀ i, ∀ h : i < files.length,
    BytesAt m (base + 4 + sizeofRamdiskHeader * files.length + dataOffset files i) files[i].content

theorem ramdiskWriter_ok {garbage : ℕ → ℕ → UInt8} {files : List InputFile} {image : List UInt8}
    (h : ramdiskWriter garbage files = .ok image) :
    ∃ headers, ramdiskHeaders garbage 0 files = .ok headers ∧
      image = bytes32 (u32 files.length) ++ headers ++ ramdiskContents files := by
  unfold ramdiskWriter at h
  dsimp only at h
  split_ifs at h with husage
  rw [bind_eq_ok] at h
  obtain ⟨headers, hheaders, h⟩ := h
  cases h
  exact ⟨headers, hheaders, rfl⟩

section Written

variable {garbage : ℕ → ℕ → UInt8} {files : List InputFile} {image : List UInt8} {m : Mem}
  {base : ℕ}

theorem image_of_writer (hw : ramdiskWriter garbage files = .ok image)
    (hlen : ∀ file ∈ files, file.content.length < 4294967296) (himage : image.length < 4294967296)
    (hm : BytesAt m base image) : Image m base files image.length := by
  obtain ⟨headers, hheaders, rfl⟩ := ramdiskWriter_ok hw
  obtain ⟨hm, hcontents⟩ := bytesAt_append.mp hm
  obtain ⟨hnum, hm⟩ := bytesAt_append.mp hm
  obtain ⟨hhlen, hheader⟩ := ramdiskHeaders_bytesAt hheaders hm
  have h4 : (bytes32 (u32 files.length)).length = 4 := rfl
  rw [List.length_append, List.length_append, h4, hhlen, ramdiskContents_length hlen] at himage
  have hcount : u32 files.length = files.length := u32_of_lt (by
    unfold sizeofRamdiskHeader at himage
    omega)
  rw [List.length_append, h4, hhlen, ← Nat.add_assoc] at hcontents
  refine ⟨?_, ?_, fun i hi => ?_, fun i hi => ?_, ?_⟩
  · rw [List.length_append, List.length_append, h4, hhlen, ramdiskContents_length hlen]
  · rw [load32_of_bytesAt hnum (u32_lt _), hcount]
  · obtain ⟨g, header, hok, hh⟩ := hheader i hi
    obtain ⟨hshort, padding, -, rfl⟩ := ramdiskHeader_ok hok
    exact stringAt_of_bytesAt (bytesAt_append.mp hh).1 (basename_noNul files[i].path_noNul) hshort
  · obtain ⟨g, header, hok, hh⟩ := hheader i hi
    obtain ⟨hshort, padding, hpad, rfl⟩ := ramdiskHeader_ok hok
    have hsize := (bytesAt_append.mp hh).2
    have hfield : (basename files[i].path ++ 0 :: padding).length = vfsFileNameMaxLength := by
      unfold fileNameMax at hshort hpad
      unfold vfsFileNameMaxLength
      rw [List.length_append, List.length_cons]
      omega
    rw [hfield, h4] at hsize
    rw [load32_of_bytesAt hsize (u32_lt _), u32_of_lt (hlen _ (List.getElem_mem hi))]
  · exact ramdiskContents_bytesAt hlen hcontents

theorem u32_add_u32 (a b : ℕ) : u32 (u32 a + b) = u32 (a + b) := Nat.mod_add_mod a _ b

/-- The first `n` rounds of the kernel's loop. -/
theorem Image.initrdFiles_eq {length : ℕ} (h : Image m base files length)
    (hfits : base + length ≤ 4294967296) {n : ℕ} (hn : n ≤ files.length) :
    ∃ nodes data, initrdFiles m (base + 4) (u32 (base + 4 + sizeofRamdiskHeader * files.length)) n =
        .ok (nodes, data,
          u32 (base + 4 + sizeofRamdiskHeader * files.length + dataOffset files n)) ∧
      nodes.length = n ∧ data.length = n ∧
      ∀ i, ∀ hi : i < files.length, i < n →
        nodes[i]? = some (initrdFileNode (basename files[i].path) i files[i].content.length) ∧
        data[i]? = some
          (u32 (base + 4 + sizeofRamdiskHeader * files.length + dataOffset files i)) := by
  induction n with
  | zero => exact ⟨[], [], rfl, rfl, rfl, fun i _ hi => absurd hi (Nat.not_lt_zero i)⟩
  | succ n ih =>
    obtain ⟨nodes, data, hrun, hnodes, hdata, hall⟩ := ih (by omega)
    have hheader : u32 (base + 4 + sizeofRamdiskHeader * n) = base + 4 + sizeofRamdiskHeader * n := by
      have := h.length_eq
      have hle : sizeofRamdiskHeader * n < sizeofRamdiskHeader * files.length := by
        unfold sizeofRamdiskHeader
        omega
      exact u32_of_lt (by omega)
    have hstep : initrdFiles m (base + 4) (u32 (base + 4 + sizeofRamdiskHeader * files.length))
        (n + 1) = .ok (nodes ++ [initrdFileNode (basename files[n].path) n files[n].content.length],
          data ++ [u32 (base + 4 + sizeofRamdiskHeader * files.length + dataOffset files n)],
          u32 (base + 4 + sizeofRamdiskHeader * files.length + dataOffset files (n + 1))) := by
      rw [initrdFiles, hrun, ok_bind]
      dsimp only
      rw [hheader, h.name n hn]
      dsimp only
      rw [h.size n hn, u32_add_u32, Nat.add_assoc (base + 4 + _), ← dataOffset_succ]
    refine ⟨_, _, hstep, by simp [hnodes], by simp [hdata], fun i hi hlt => ?_⟩
    rcases Nat.lt_or_ge i n with hi' | hi'
    · rw [List.getElem?_append_left (by omega), List.getElem?_append_left (by omega)]
      exact hall i hi hi'
    · obtain rfl : i = n := by omega
      rw [List.getElem?_append_right (by omega), List.getElem?_append_right (by omega), hnodes,
        hdata, Nat.sub_self]
      exact ⟨rfl, rfl⟩

theorem Image.initrdInit_eq {length : ℕ} (h : Image m base files length)
    (hfits : base + length ≤ 4294967296)
    (hnum : sizeofVfsNode * files.length < 4294967296) :
    ∃ initrd, initrdInit m base = .ok initrd ∧ initrd.numFiles = files.length ∧
      ∀ i, ∀ hi : i < files.length,
        initrd.filesNodes[i]? =
          some (initrdFileNode (basename files[i].path) i files[i].content.length) ∧
        initrd.filesData[i]? = some
          (u32 (base + 4 + sizeofRamdiskHeader * files.length + dataOffset files i)) := by
  obtain ⟨nodes, data, hrun, -, -, hall⟩ := h.initrdFiles_eq hfits (le_refl files.length)
  refine ⟨⟨files.length, nodes, data⟩, ?_, rfl, fun i hi => hall i hi hi⟩
  have hlength := h.length_eq
  unfold initrdInit
  dsimp only
  rw [h.num, if_neg (by rw [u32_of_lt hnum]; omega), u32_add_u32,
    Nat.mul_comm files.length sizeofRamdiskHeader]
  rcases Nat.eq_zero_or_pos files.length with hzero | hpos
  · rw [hzero] at hrun ⊢
    cases hrun
    rfl
  · have hle : sizeofRamdiskHeader ≤ sizeofRamdiskHeader * files.length :=
      Nat.le_mul_of_pos_right _ hpos
    rw [u32_of_lt (n := base + 4) (by unfold sizeofRamdiskHeader at hle hlength; omega), hrun,
      ok_bind]

/-- A read of the node copies the slice of `content` that was asked for to the buffer, and returns
its length. The buffer lies apart from the image. -/
def ReadsBack (initrd : Initrd) (node : VfsNode) (base : ℕ) (image content : List UInt8) : Prop :=
  ∀ (m : Mem) (offset size buf : ℕ), BytesAt m base image → offset < 4294967296 →
    size < 4294967296 → buf + min size (content.length - offset) ≤ 4294967296 →
    (buf + min size (content.length - offset) ≤ base ∨ base + image.length ≤ buf) →
    ∃ m', initrdRead initrd node m offset size buf =
        .ok (((min size (content.length - offset) : ℕ) : ℤ), m') ∧
      (∀ i < min size (content.length - offset), some (m' (buf + i)) = content[offset + i]?) ∧
      ∀ a, a < buf ∨ buf + min size (content.length - offset) ≤ a → m' a = m a

/-- The kernel has the files that were written: their number, names, sizes and contents. -/
structure RoundTrip (initrd : Initrd) (base : ℕ) (image : List UInt8) (files : List InputFile) :
    Prop where
  numFiles : initrd.numFiles = files.length
  file : ∀ i, ∀ h : i < files.length, ∃ node, initrd.filesNodes[i]? = some node ∧
    node.name = basename files[i].path ∧ node.size = files[i].content.length ∧
    ReadsBack initrd node base image files[i].content

/-- An image is longer than its largest file, so no buffer apart from it holds `2 ^ 31` bytes of
one: the count does not reach the sign of an `s32`. -/
theorem readsBack_of_image {initrd : Initrd}
    (himg : ∀ m, BytesAt m base image → Image m base files image.length)
    (hfits : base + image.length ≤ 4294967296)
    (hnum : sizeofVfsNode * files.length < 4294967296) {i : ℕ} (hi : i < files.length)
    (hdata : initrd.filesData[i]? = some
      (u32 (base + 4 + sizeofRamdiskHeader * files.length + dataOffset files i))) :
    ReadsBack initrd (initrdFileNode (basename files[i].path) i files[i].content.length) base
      image files[i].content := by
  intro m offset size buf hm hoffset hsize hbuf hapart
  have hend : dataOffset files i + files[i].content.length ≤ dataOffset files files.length := by
    rw [← dataOffset_succ hi]
    exact dataOffset_mono hi (le_refl _)
  have hlength := (himg m hm).length_eq
  have hcontent := (himg m hm).content i hi
  generalize hlen : files[i].content.length = len at *
  generalize hstart : base + 4 + sizeofRamdiskHeader * files.length + dataOffset files i = start at *
  have hinode : u32Sub (u32 (i + 1)) 1 = i := by
    unfold sizeofVfsNode at hnum
    unfold u32 u32Sub
    omega
  unfold initrdRead initrdFileNode
  dsimp only
  split_ifs with hoff
  · -- nothing is left to read
    have hzero : min size (len - offset) = 0 := by omega
    rw [hzero]
    exact ⟨m, rfl, fun i hi => absurd hi (Nat.not_lt_zero i), fun _ _ => rfl⟩
  · rw [hinode, u32Sub_of_le (by omega) (by omega), hdata]
    dsimp only
    rw [u32_add_u32, u32_of_lt (by omega)]
    refine ⟨_, congrArg Except.ok (Prod.ext (if_pos (by omega)) rfl), fun j hj => ?_,
      fun a ha => memcpy_of_outside ha⟩
    rw [memcpy_of_inside (by omega) hj, Nat.add_assoc, hcontent (offset + j) (by omega)]
    exact (List.getElem?_eq_getElem _).symm

end Written

/-! ## What the writer accepts -/

/-- A memory that holds an image. -/
def memoryOf (base : ℕ) (image : List UInt8) : Mem := fun x => image.getD (x - base) 0

theorem bytesAt_memoryOf (base : ℕ) (image : List UInt8) :
    BytesAt (memoryOf base image) base image := by
  intro i hi
  unfold memoryOf
  rw [Nat.add_sub_cancel_left, List.getD_eq_getElem?_getD, List.getElem?_eq_getElem hi,
    Option.getD_some]

theorem ramdiskHeaders_total (garbage : ℕ → ℕ → UInt8) {files : List InputFile}
    (hnames : ∀ file ∈ files, (basename file.path).length < fileNameMax ∧
      fileIsNotInRootFolder (basename file.path) = false) (start : ℕ) :
    ∃ headers, ramdiskHeaders garbage start files = .ok headers := by
  induction files generalizing start with
  | nil => exact ⟨[], rfl⟩
  | cons file files ih =>
    obtain ⟨hshort, hslash⟩ := hnames file List.mem_cons_self
    obtain ⟨rest, hrest⟩ := ih (fun f hf => hnames f (List.mem_cons_of_mem _ hf)) (start + 1)
    have hhead : ∃ header, ramdiskHeader (garbage start) file = .ok header := by
      unfold ramdiskHeader
      dsimp only
      rw [if_neg (Nat.not_le.mpr hshort), hslash]
      exact ⟨_, if_neg Bool.false_ne_true⟩
    obtain ⟨header, hheader⟩ := hhead
    exact ⟨header ++ rest, by rw [ramdiskHeaders, hheader, ok_bind, hrest, ok_bind]⟩

/-- Every even number of files with such names makes an image. -/
theorem ramdiskWriter_total (garbage : ℕ → ℕ → UInt8) (files : List InputFile)
    (heven : files.length % 2 = 0) (hpos : 0 < files.length)
    (hnames : ∀ file ∈ files, (basename file.path).length < fileNameMax ∧
      fileIsNotInRootFolder (basename file.path) = false)
    (hlen : ∀ file ∈ files, file.content.length < 4294967296) :
    ∃ image, ramdiskWriter garbage files = .ok image ∧
      image.length =
        4 + sizeofRamdiskHeader * files.length + dataOffset files files.length := by
  obtain ⟨headers, hheaders⟩ := ramdiskHeaders_total garbage hnames 0
  have hhlen := (ramdiskHeaders_bytesAt hheaders (bytesAt_memoryOf 0 headers)).1
  refine ⟨bytes32 (u32 files.length) ++ headers ++ ramdiskContents files, ?_, ?_⟩
  · unfold ramdiskWriter
    dsimp only
    rw [if_neg (by omega), hheaders, ok_bind, Nat.add_sub_cancel]
  · rw [List.length_append, List.length_append, hhlen, ramdiskContents_length hlen]
    rfl

/-! ## The round trip -/

/-- The kernel gets back what was written exactly if the size of the block of nodes does not wrap
and no file is longer than a `u32` can say. -/
theorem ramdisk_roundTrip_iff {garbage : ℕ → ℕ → UInt8} {files : List InputFile}
    {image : List UInt8} (hw : ramdiskWriter garbage files = .ok image)
    (himage : image.length < 4294967296) {m : Mem} {base : ℕ} (hm : BytesAt m base image)
    (hfits : base + image.length ≤ 4294967296) :
    (∃ initrd, initrdInit m base = .ok initrd ∧ RoundTrip initrd base image files) ↔
      sizeofVfsNode * files.length < 4294967296 ∧
        ∀ file ∈ files, file.content.length < 4294967296 := by
  constructor
  · rintro ⟨initrd, hinit, h⟩
    refine ⟨h.numFiles ▸ initrdInit_numFiles_lt hinit, fun file hfile => ?_⟩
    obtain ⟨i, hi, rfl⟩ := List.mem_iff_getElem.mp hfile
    obtain ⟨node, hnode, -, hsize, -⟩ := h.file i hi
    obtain ⟨hi', rfl⟩ := List.getElem?_eq_some_iff.mp hnode
    obtain ⟨name, size, hlt, heq⟩ := (initrdInit_built hinit).node i hi'
    rw [← hsize, heq]
    exact hlt
  · rintro ⟨hnum, hlen⟩
    have himg : ∀ m, BytesAt m base image → Image m base files image.length :=
      fun m => image_of_writer hw hlen himage
    obtain ⟨initrd, hinit, hcount, hall⟩ := (himg m hm).initrdInit_eq hfits hnum
    refine ⟨initrd, hinit, hcount, fun i hi => ?_⟩
    obtain ⟨hnode, hdata⟩ := hall i hi
    exact ⟨_, hnode, rfl, rfl, readsBack_of_image himg hfits hnum hi hdata⟩

/-! ## Too many files -/

def emptyFile : InputFile := ⟨literal ['a'], [], by decide⟩

theorem dataOffset_emptyFiles (n : ℕ) : dataOffset (List.replicate n emptyFile) n = 0 := by
  unfold dataOffset
  rw [List.take_of_length_le (by rw [List.length_replicate]), List.map_replicate]
  simp [emptyFile]

/-- `292 * 14708794` is more than a `u32`, and the image is less than 4 GB long. -/
theorem not_roundTrip_manyFiles : ∃ image,
    ramdiskWriter (fun _ _ => 0) (List.replicate 14708794 emptyFile) = .ok image ∧
    image.length < 4294967296 ∧ 0x100000 + image.length ≤ 4294967296 ∧
    ¬ ∃ initrd, initrdInit (memoryOf 0x100000 image) 0x100000 = .ok initrd ∧
      RoundTrip initrd 0x100000 image (List.replicate 14708794 emptyFile) := by
  obtain ⟨n, hn⟩ : ∃ n, n = 14708794 := ⟨_, rfl⟩
  rw [← hn]
  have hmem : ∀ file ∈ List.replicate n emptyFile, file = emptyFile :=
    fun file hfile => List.eq_of_mem_replicate hfile
  obtain ⟨image, hw, hlength⟩ := ramdiskWriter_total (fun _ _ => 0)
    (List.replicate n emptyFile) (by rw [List.length_replicate]; omega)
    (by rw [List.length_replicate]; omega)
    (fun file hfile => by rw [hmem file hfile]; decide)
    (fun file hfile => by rw [hmem file hfile]; decide)
  rw [List.length_replicate, dataOffset_emptyFiles] at hlength
  unfold sizeofRamdiskHeader at hlength
  refine ⟨image, hw, by omega, by omega, fun ⟨initrd, hinit, h⟩ => ?_⟩
  have hlt := initrdInit_numFiles_lt hinit
  rw [h.numFiles, List.length_replicate] at hlt
  unfold sizeofVfsNode at hlt
  omega

/-- Of a file of `2 ^ 32 + 1` bytes the image has the first byte. -/
theorem not_roundTrip_longFile : ∃ files image, files.length = 2 ∧
    ramdiskWriter (fun _ _ => 0) files = .ok image ∧ image.length = 526 ∧
    ¬ ∃ initrd, initrdInit (memoryOf 0x100000 image) 0x100000 = .ok initrd ∧
      RoundTrip initrd 0x100000 image files := by
  obtain ⟨n, hn⟩ : ∃ n, n = 4294967297 := ⟨_, rfl⟩
  obtain ⟨long, hlong⟩ : ∃ long : InputFile,
    long = ⟨literal ['a'], List.replicate n 0, by decide⟩ := ⟨_, rfl⟩
  have hlength : long.content.length = n := by rw [hlong, List.length_replicate]
  have hpath : long.path = literal ['a'] := by rw [hlong]
  have htake : long.content.take (u32 long.content.length) = [0] := by
    rw [hlength, hn, hlong, List.take_replicate, hn]
    rfl
  obtain ⟨files, hfiles⟩ : ∃ files : List InputFile,
    files = [long, ⟨literal ['b'], [1], by decide⟩] := ⟨_, rfl⟩
  have hnames : ∀ file ∈ files, (basename file.path).length < fileNameMax ∧
      fileIsNotInRootFolder (basename file.path) = false := fun file hfile => by
    rw [hfiles, List.mem_pair] at hfile
    rcases hfile with rfl | rfl
    · rw [hpath]
      decide
    · decide
  obtain ⟨headers, hheaders⟩ := ramdiskHeaders_total (fun _ _ => 0) hnames 0
  obtain ⟨hhlen, -⟩ := ramdiskHeaders_bytesAt hheaders (bytesAt_memoryOf 0 headers)
  have hcontents : ramdiskContents files = [0, 1] := by
    rw [hfiles]
    unfold ramdiskContents
    rw [List.flatMap_cons, htake]
    rfl
  have htwo : files.length = 2 := by rw [hfiles]; rfl
  refine ⟨files, bytes32 (u32 2) ++ headers ++ ramdiskContents files, htwo, ?_, ?_,
    fun ⟨initrd, hinit, h⟩ => ?_⟩
  · unfold ramdiskWriter
    dsimp only
    rw [htwo, if_neg (by omega), hheaders, ok_bind]
  · rw [List.length_append, List.length_append, hhlen, hcontents, htwo]
    rfl
  · obtain ⟨node, hnode, -, hsize, -⟩ := h.file 0 (by omega)
    obtain ⟨hi, rfl⟩ := List.getElem?_eq_some_iff.mp hnode
    obtain ⟨name, size, hlt, heq⟩ := (initrdInit_built hinit).node 0 hi
    have hfirst : files[0].content.length = n := by
      simp only [hfiles, List.getElem_cons_zero, hlength]
    rw [hfirst, heq] at hsize
    have hn' : size = n := hsize
    omega

/-- `d/a` of three bytes and `b`, empty. -/
theorem roundTrip_twoFiles : ∃ files image, files.length = 2 ∧
    ramdiskWriter (fun _ _ => 0xFF) files = .ok image ∧
    ∃ initrd, initrdInit (memoryOf 0x100000 image) 0x100000 = .ok initrd ∧
      RoundTrip initrd 0x100000 image files := by
  obtain ⟨files, hfiles⟩ : ∃ files : List InputFile, files =
    [⟨literal ['d', '/', 'a'], [1, 2, 3], by decide⟩, ⟨literal ['b'], [], by decide⟩] := ⟨_, rfl⟩
  have hlen : ∀ file ∈ files, file.content.length < 4294967296 := by
    rw [hfiles]
    decide
  obtain ⟨image, hw, hlength⟩ := ramdiskWriter_total (fun _ _ => 0xFF) files
    (by rw [hfiles]; rfl) (by rw [hfiles]; decide) (by rw [hfiles]; decide) hlen
  have h527 : image.length = 527 := by
    rw [hlength, hfiles]
    rfl
  exact ⟨files, image, by rw [hfiles]; rfl, hw, (ramdisk_roundTrip_iff hw (by omega)
    (bytesAt_memoryOf _ _) (by omega)).mpr ⟨by rw [hfiles]; decide, hlen⟩⟩

end RawOS
