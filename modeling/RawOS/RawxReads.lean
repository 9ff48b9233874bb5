import RawOS.RawxImport

/-!
# What `rawx_load` reads of an image

`FileRead` are the offsets of the file that a load reads, whether it returns or not. The header
and the section table are checked against the length; the data of the sections, the import table
and the names are not. `rawxLoad_readsInBounds_iff`: the reads are below the length exactly if
every section that the loader comes to fits in the file.
-/

namespace RawOS

/-! ## Reads -/

/-- Offset `o` is one of the `size` bytes at `p`. -/
def BytesRead (p size o : ℕ) : Prop := ∃ t < size, o = u32 (p + t)

/-- Offset `o` is in the string at `p`, up to its NUL. -/
def StringRead (data : Mem) (p o : ℕ) : Prop :=
  ∃ k, (∀ j < k, fileByte data (p + j) ≠ 0) ∧ o = u32 (p + k)

/-- The section has passed the assertions on its address. -/
def SectionChecked (data : Mem) (i : ℕ) : Prop :=
  sectionAddress data i % 0x1000 = 0 ∧
    u32 (sectionAddress data i + sectionSizeBytes data i) < rawxSectionAddressMaximum

section

variable {σ : Type} (env : LoaderEnv σ)

/-- The loop that copies a section, from `i` on, reads offset `o`. -/
def CopyRead (address sectionData sizeBytes o : ℕ) : ℕ → ℕ → Loader σ → Prop
  | 0, _, _ => False
  | fuel + 1, i, l =>
    i < sizeBytes ∧ ∃ l₁, createProcessPage env l (u32 (address + i) / 0x1000) 1 = .ok l₁ ∧
      (BytesRead sectionData (min 0x1000 (sizeBytes - i)) o ∨
        CopyRead address sectionData sizeBytes o fuel (u32 (i + 0x1000))
          { l₁ with
            mem := memcpyFrom l₁.mem (u32 (address + i)) l₁.data sectionData
              (min 0x1000 (sizeBytes - i))
            sectionPages := l₁.sectionPages ++ [u32 (address + i) / 0x1000] })

/-- The loop over the symbols comes to symbol `n` of section `i`, with the loader `l'`. -/
def SymbolReached (i n : ℕ) (l l' : Loader σ) : Prop :=
  ∃ l₁ addr, createProcessPage env l (rawxSectionAddressMaximum / 0x1000) 1 = .ok l₁ ∧
    importSymbols env (sectionFilePtrToData l.data i) rawxSectionAddressMaximum l₁ n = .ok (l', addr)

/-- The pass over section `i` reads offset `o`. -/
inductive SectionRead (i o : ℕ) (l : Loader σ) : Prop where
  /-- `virtual_address` and `file_ptr_to_data`. -/
  | fields : BytesRead (sectionOffset i + 12) 8 o → SectionRead i o l
  | sizeBytes : sectionAddress l.data i % 0x1000 = 0 → BytesRead (sectionOffset i + 8) 4 o →
    SectionRead i o l
  /-- `strcmp` does not leave the name: the names that it compares with are shorter. -/
  | name : SectionChecked l.data i → BytesRead (sectionOffset i) 8 o → SectionRead i o l
  | copied : SectionChecked l.data i →
    (sectionKind l.data i = .code ∨ sectionKind l.data i = .data) →
    CopyRead env (sectionAddress l.data i) (sectionFilePtrToData l.data i) (sectionSizeBytes l.data i) o
      copyFuel 0 l → SectionRead i o l
  | symbolCount : SectionChecked l.data i → sectionKind l.data i = .importTable →
    BytesRead (sectionFilePtrToData l.data i) 4 o → SectionRead i o l
  /-- The offsets of the names. -/
  | offsets {n : ℕ} {l' : Loader σ} : SectionChecked l.data i → sectionKind l.data i = .importTable →
    n < symbolCount l.data i → SymbolReached env i n l l' →
    BytesRead (importAddress (sectionFilePtrToData l.data i) n) 8 o → SectionRead i o l
  /-- The names are printed before they are looked up. -/
  | symbolName {n : ℕ} {l' : Loader σ} : SectionChecked l.data i → sectionKind l.data i = .importTable →
    n < symbolCount l.data i → SymbolReached env i n l l' →
    StringRead l'.data (importSymbolAt l'.data (sectionFilePtrToData l.data i) n) o → SectionRead i o l
  | libName {n : ℕ} {l' : Loader σ} : SectionChecked l.data i → sectionKind l.data i = .importTable →
    n < symbolCount l.data i → SymbolReached env i n l l' →
    StringRead l'.data (importLibAt l'.data (sectionFilePtrToData l.data i) n) o → SectionRead i o l
  /-- The call address is printed, with the name, once it is written. -/
  | callAddress {n : ℕ} {l' : Loader σ} : SectionChecked l.data i →
    sectionKind l.data i = .importTable →
    n < symbolCount l.data i → SymbolReached env i (n + 1) l l' →
    BytesRead (importAddress (sectionFilePtrToData l.data i) n + 8) 4 o → SectionRead i o l
  | printedName {n : ℕ} {l' l'' : Loader σ} : SectionChecked l.data i →
    sectionKind l.data i = .importTable → n < symbolCount l.data i → SymbolReached env i n l l' →
    SymbolReached env i (n + 1) l l'' →
    StringRead l''.data (importSymbolAt l'.data (sectionFilePtrToData l.data i) n) o → SectionRead i o l
  | copiedTable {l' : Loader σ} : SectionChecked l.data i → sectionKind l.data i = .importTable →
    SymbolReached env i (symbolCount l.data i) l l' →
    CopyRead env (sectionAddress l.data i) (sectionFilePtrToData l.data i)
      (sectionSizeBytes l'.data i) o
      copyFuel 0 l' → SectionRead i o l

/-- The loop over the sections of the file of `l` comes to section `i`, with the loader `l'`. -/
inductive SectionReached (length : ℤ) (l : Loader σ) : ℕ → Loader σ → Prop where
  | first : checkHeader l.data length = .ok () → SectionReached length l 0 l
  | next {i : ℕ} {rli rli' : RawxLoadInformation} {l₁ l₂ : Loader σ} : SectionReached length l i l₁ →
    i < headerSectionCount l₁.data → loadSection env i rli l₁ = .ok (rli', l₂) →
    SectionReached length l (i + 1) l₂

/-- A load of the file of `l`, of which `length` bytes are given, reads offset `o`. -/
inductive FileRead (length : ℤ) (l : Loader σ) (o : ℕ) : Prop where
  | header : sizeofRawxHeader ≤ length → BytesRead 0 sizeofRawxHeader o → FileRead length l o
  | «section» {i : ℕ} {l' : Loader σ} : SectionReached env length l i l' →
    i < headerSectionCount l'.data → SectionRead env i o l' → FileRead length l o

/-- A load reads no byte behind the end of the file. -/
def ReadsInBounds (length : ℤ) (l : Loader σ) : Prop := ∀ o, FileRead env length l o → (o : ℤ) < length

/-! ## Sections that fit -/

/-- The first page of a section is copied. -/
def CopyStarts (address sizeBytes : ℕ) (l : Loader σ) : Prop :=
  0 < sizeBytes ∧ ∃ l₁, createProcessPage env l (address / 0x1000) 1 = .ok l₁

/-- The first page of the section's data is in the file; no other part of it is read. -/
def DataFits (length : ℤ) (sectionData sizeBytes : ℕ) : Prop :=
  (sectionData + min 0x1000 sizeBytes : ℕ) ≤ length

/-- The string at `p` ends in the file. -/
def StringFits (length : ℤ) (data : Mem) (p : ℕ) : Prop :=
  ∃ k, ((u32 p + k : ℕ) : ℤ) < length ∧ fileByte data (p + k) = 0

/-- The parts of an import section that are read are in the file: `symbol_count`, each entry that
the loader comes to, its names (the symbol's name also once the call address is written), and the
data. -/
structure ImportsFit (length : ℤ) (i : ℕ) (l : Loader σ) : Prop where
  count : (sectionFilePtrToData l.data i + 4 : ℕ) ≤ length
  entry : ∀ n < symbolCount l.data i, ∀ l', SymbolReached env i n l l' →
    (importAddress (sectionFilePtrToData l.data i) n + 8 : ℕ) ≤ length
  names : ∀ n < symbolCount l.data i, ∀ l', SymbolReached env i n l l' →
    StringFits length l'.data (importSymbolAt l'.data (sectionFilePtrToData l.data i) n) ∧
      StringFits length l'.data (importLibAt l'.data (sectionFilePtrToData l.data i) n)
  callAddress : ∀ n < symbolCount l.data i, ∀ l', SymbolReached env i (n + 1) l l' →
    (importAddress (sectionFilePtrToData l.data i) n + 12 : ℕ) ≤ length
  printed : ∀ n < symbolCount l.data i, ∀ l' l'', SymbolReached env i n l l' →
    SymbolReached env i (n + 1) l l'' →
      StringFits length l''.data (importSymbolAt l'.data (sectionFilePtrToData l.data i) n)
  data : ∀ l', SymbolReached env i (symbolCount l.data i) l l' →
    CopyStarts env (sectionAddress l.data i) (sectionSizeBytes l'.data i) l' →
      DataFits length (sectionFilePtrToData l.data i) (sectionSizeBytes l'.data i)

/-- Section `i` fits in the file: its entry, and what is copied of it. -/
structure SectionFits (length : ℤ) (i : ℕ) (l : Loader σ) : Prop where
  entry : (sectionOffset i + sizeofRawxSection : ℕ) ≤ length
  copied : SectionChecked l.data i → (sectionKind l.data i = .code ∨ sectionKind l.data i = .data) →
    CopyStarts env (sectionAddress l.data i) (sectionSizeBytes l.data i) l →
      DataFits length (sectionFilePtrToData l.data i) (sectionSizeBytes l.data i)
  imports : SectionChecked l.data i → sectionKind l.data i = .importTable → ImportsFit env length i l

end

section

variable {σ : Type} {env : LoaderEnv σ} {data : Mem} {length : ℤ} {i n o p size address src : ℕ}
  {l l' : Loader σ}

/-! ## Ranges -/

/-- A range that starts in the address space is read below `length` if it ends there: a range that
wraps has a byte at `length`. -/
theorem bytesRead_lt_iff (hlen : length < 2147483648) (hp : p < 4294967296) (hsize : 0 < size) :
    (∀ o, BytesRead p size o → (o : ℤ) < length) ↔ ((p + size : ℕ) : ℤ) ≤ length := by
  constructor
  · intro h
    have hfirst := h _ ⟨0, hsize, rfl⟩
    rw [Nat.add_zero, u32_of_lt hp] at hfirst
    by_contra hend
    have hlast := h _ ⟨(length - p).toNat, by omega, rfl⟩
    rw [u32_of_lt (by omega)] at hlast
    omega
  · rintro hend o ⟨t, ht, rfl⟩
    rw [u32_of_lt (by omega)]
    omega

theorem stringRead_lt_iff (hlen : length < 2147483648) :
    (∀ o, StringRead data p o → (o : ℤ) < length) ↔ StringFits length data p := by
  have hsame : ∀ k, u32 (p + k) = u32 (u32 p + k) := fun k => by
    unfold u32
    omega
  have hlt := u32_lt p
  constructor
  · intro h
    have hfirst := h _ ⟨0, fun j hj => absurd hj (Nat.not_lt_zero j), rfl⟩
    rw [Nat.add_zero] at hfirst
    by_contra hnot
    -- without a NUL the string goes on to the end of the file
    have hlast := h _ ⟨(length - u32 p).toNat, fun j hj hnul => hnot ⟨j, by omega, hnul⟩, rfl⟩
    rw [hsame, u32_of_lt (by omega)] at hlast
    omega
  · rintro ⟨n, hn, hnul⟩ o ⟨k, hk, rfl⟩
    have hkn : k ≤ n := by
      by_contra hkn
      exact hk n (by omega) hnul
    rw [hsame, u32_of_lt (by omega)]
    omega

/-- Each page is filled with the first bytes of the data. -/
theorem CopyRead.bytes {sizeBytes : ℕ} : ∀ {fuel i : ℕ} {l : Loader σ},
    CopyRead env address src sizeBytes o fuel i l → BytesRead src (min 0x1000 sizeBytes) o
  | _ + 1, i, _, ⟨_, _, _, .inl ⟨t, ht, he⟩⟩ => ⟨t, by omega, he⟩
  | _ + 1, _, _, ⟨_, _, _, .inr h⟩ => CopyRead.bytes h

theorem copyRead_lt_iff {sizeBytes : ℕ} (hlen : length < 2147483648) (ha : address < 4294967296)
    (hsrc : src < 4294967296) :
    (∀ o, CopyRead env address src sizeBytes o copyFuel 0 l → (o : ℤ) < length) ↔
      (CopyStarts env address sizeBytes l → DataFits length src sizeBytes) := by
  have hpage : u32 (address + 0) / 0x1000 = address / 0x1000 := by rw [Nat.add_zero, u32_of_lt ha]
  constructor
  · rintro h ⟨hpos, l₁, hcreate⟩
    refine (bytesRead_lt_iff hlen hsrc (by omega)).mp fun o ho => h o ?_
    exact ⟨hpos, l₁, by rw [hpage]; exact hcreate, .inl ho⟩
  · intro h o ho
    have hstarts : CopyStarts env address sizeBytes l := by
      obtain ⟨hpos, l₁, hcreate, -⟩ := ho
      rw [hpage] at hcreate
      exact ⟨hpos, l₁, hcreate⟩
    have hpos := hstarts.1
    exact (bytesRead_lt_iff hlen hsrc (by omega)).mpr (h hstarts) o ho.bytes

/-! ## The file -/

theorem SymbolReached.prev (h : SymbolReached env i (n + 1) l l') :
    ∃ l₁, SymbolReached env i n l l₁ := by
  obtain ⟨l₁, addr, hcreate, hrun⟩ := h
  rw [importSymbols] at hrun
  obtain ⟨⟨l₂, cur⟩, hrec, -⟩ := bind_eq_ok.mp hrun
  exact ⟨l₂, l₁, cur, hcreate, hrec⟩

theorem checkHeader_length (h : checkHeader data length = .ok ()) :
    (sizeofRawxHeader : ℤ) ≤ length := by
  unfold checkHeader at h
  by_contra hlt
  rw [if_pos (by omega)] at h
  cases h

theorem sectionFilePtrToData_lt (data : Mem) (i : ℕ) : sectionFilePtrToData data i < 4294967296 :=
  load32_lt _ _

/-- The entries of an import table that the loader comes to follow each other up to the end of the
file. -/
theorem importAddress_le (hlen : length < 2147483648) (hchecked : SectionChecked l.data i)
    (hkind : sectionKind l.data i = .importTable)
    (hreads : ∀ o, SectionRead env i o l → (o : ℤ) < length) :
    ∀ {n : ℕ} {l' : Loader σ}, n ≤ symbolCount l.data i → SymbolReached env i n l l' →
      ((importAddress (sectionFilePtrToData l.data i) n : ℕ) : ℤ) ≤ length := by
  intro n
  induction n with
  | zero =>
    intro l' _ _
    have hcount := (bytesRead_lt_iff hlen (sectionFilePtrToData_lt l.data i) (by omega)).mp fun o ho =>
      hreads o (.symbolCount hchecked hkind ho)
    unfold importAddress sizeofRawxImportTable sizeofRawxImportAddress
    omega
  | succ n ih =>
    intro l' hn hr
    obtain ⟨l₁, hprev⟩ := hr.prev
    have hle := ih (by omega) hprev
    have hfield := (bytesRead_lt_iff hlen (by omega) (by omega)).mp fun o ho =>
      hreads o (.callAddress hchecked hkind (by omega) hr ho)
    unfold importAddress sizeofRawxImportTable sizeofRawxImportAddress at hfield ⊢
    omega

theorem importsFit_of_reads (hlen : length < 2147483648) (hchecked : SectionChecked l.data i)
    (hkind : sectionKind l.data i = .importTable)
    (hreads : ∀ o, SectionRead env i o l → (o : ℤ) < length) : ImportsFit env length i l where
  count := (bytesRead_lt_iff hlen (sectionFilePtrToData_lt l.data i) (by omega)).mp fun o ho =>
    hreads o (.symbolCount hchecked hkind ho)
  entry n hn l' hr := by
    have hle := importAddress_le hlen hchecked hkind hreads hn.le hr
    exact (bytesRead_lt_iff hlen (by omega) (by omega)).mp fun o ho =>
      hreads o (.offsets hchecked hkind hn hr ho)
  names n hn l' hr :=
    ⟨(stringRead_lt_iff hlen).mp fun o ho => hreads o (.symbolName hchecked hkind hn hr ho),
      (stringRead_lt_iff hlen).mp fun o ho => hreads o (.libName hchecked hkind hn hr ho)⟩
  callAddress n hn l' hr := by
    obtain ⟨l₁, hprev⟩ := hr.prev
    have hle := importAddress_le hlen hchecked hkind hreads hn.le hprev
    have hfield := (bytesRead_lt_iff hlen (by omega) (by omega)).mp fun o ho =>
      hreads o (.callAddress hchecked hkind hn hr ho)
    omega
  printed n hn l' l'' hr hr' :=
    (stringRead_lt_iff hlen).mp fun o ho => hreads o (.printedName hchecked hkind hn hr hr' ho)
  data l' hr :=
    (copyRead_lt_iff hlen (u32_lt _) (sectionFilePtrToData_lt l.data i)).mp fun o ho =>
      hreads o (.copiedTable hchecked hkind hr ho)

theorem sectionFits_of_reads (hlen : length < 2147483648) (hoffset : (sectionOffset i : ℤ) ≤ length)
    (hreads : ∀ o, SectionRead env i o l → (o : ℤ) < length) : SectionFits env length i l where
  entry := by
    have hfields := (bytesRead_lt_iff hlen (by omega) (by omega)).mp fun o ho => hreads o (.fields ho)
    unfold sizeofRawxSection
    omega
  copied hchecked hkind :=
    (copyRead_lt_iff hlen (u32_lt _) (sectionFilePtrToData_lt l.data i)).mp fun o ho =>
      hreads o (.copied hchecked hkind ho)
  imports hchecked hkind := importsFit_of_reads hlen hchecked hkind hreads

/-- The pass over a section that fits. -/
theorem SectionFits.lt (h : SectionFits env length i l) (hlen : length < 2147483648)
    (ho : SectionRead env i o l) : (o : ℤ) < length := by
  have hentry := h.entry
  have hptr := sectionFilePtrToData_lt l.data i
  unfold sizeofRawxSection at hentry
  cases ho with
  | fields ho => exact (bytesRead_lt_iff hlen (by omega) (by omega)).mpr (by omega) o ho
  | sizeBytes _ ho => exact (bytesRead_lt_iff hlen (by omega) (by omega)).mpr (by omega) o ho
  | name _ ho => exact (bytesRead_lt_iff hlen (by omega) (by omega)).mpr (by omega) o ho
  | copied hchecked hkind ho =>
    exact (copyRead_lt_iff hlen (u32_lt _) hptr).mpr (h.copied hchecked hkind) o ho
  | symbolCount hchecked hkind ho =>
    exact (bytesRead_lt_iff hlen hptr (by omega)).mpr (h.imports hchecked hkind).count o ho
  | offsets hchecked hkind hn hr ho =>
    have hle := (h.imports hchecked hkind).entry _ hn _ hr
    exact (bytesRead_lt_iff hlen (by omega) (by omega)).mpr hle o ho
  | symbolName hchecked hkind hn hr ho =>
    exact (stringRead_lt_iff hlen).mpr ((h.imports hchecked hkind).names _ hn _ hr).1 o ho
  | libName hchecked hkind hn hr ho =>
    exact (stringRead_lt_iff hlen).mpr ((h.imports hchecked hkind).names _ hn _ hr).2 o ho
  | callAddress hchecked hkind hn hr ho =>
    have hle := (h.imports hchecked hkind).callAddress _ hn _ hr
    exact (bytesRead_lt_iff hlen (by omega) (by omega)).mpr (by omega) o ho
  | printedName hchecked hkind hn hr hr' ho =>
    exact (stringRead_lt_iff hlen).mpr ((h.imports hchecked hkind).printed _ hn _ _ hr hr') o ho
  | copiedTable hchecked hkind hr ho =>
    exact (copyRead_lt_iff hlen (u32_lt _) hptr).mpr ((h.imports hchecked hkind).data _ hr) o ho

/-- The run over the sections: their entries follow each other up to the end of the file. -/
theorem SectionReached.offset_le (hlen : length < 2147483648)
    (hreads : ReadsInBounds env length l) (h : SectionReached env length l i l') :
    (sectionOffset i : ℤ) ≤ length := by
  induction h with
  | first hheader =>
    have hle := checkHeader_length hheader
    unfold sectionOffset
    omega
  | next hr hcount _ ih =>
    have hentry := (sectionFits_of_reads hlen ih fun o ho => hreads o (.section hr hcount ho)).entry
    unfold sectionOffset sizeofRawxSection at *
    omega

/-- A load reads below the length, of any file, exactly if each section that it comes to fits in it.
The length is an `s32`. -/
theorem rawxLoad_readsInBounds_iff (env : LoaderEnv σ) (length : ℤ) (l : Loader σ)
    (hlen : length < 2147483648) :
    ReadsInBounds env length l ↔
      ∀ i l', SectionReached env length l i l' → i < headerSectionCount l'.data →
        SectionFits env length i l' := by
  constructor
  · intro hreads i l' hr hcount
    exact sectionFits_of_reads hlen (hr.offset_le hlen hreads) fun o ho =>
      hreads o (.section hr hcount ho)
  · intro hfits o ho
    cases ho with
    | header hle ho =>
      exact (bytesRead_lt_iff hlen (by omega) (by decide)).mpr (by omega) o ho
    | «section» hr hcount ho => exact (hfits _ _ hr hcount).lt hlen ho

end

/-! ## Nothing else is read

A load of another file with the same bytes at the offsets in `FileRead` ends in the same way. -/

/-- The same loader on another file, with the same bytes at the offsets in `R`. -/
structure SameBytes {σ : Type} (R : ℕ → Prop) (l m : Loader σ) : Prop where
  pages : m.pages = l.pages
  mem : m.mem = l.mem
  sectionPages : m.sectionPages = l.sectionPages
  bytes : ∀ o, R o → m.data o = l.data o

section

variable {σ : Type} {env : LoaderEnv σ} {R : ℕ → Prop} {l m : Loader σ} {data : Mem} {length : ℤ}
  {i n o p v size address src : ℕ} {s t : ℕ → UInt8}

theorem BytesRead.mono {o size' : ℕ} (h : BytesRead p size o) (hle : size ≤ size') :
    BytesRead p size' o := by
  obtain ⟨t, ht, he⟩ := h
  exact ⟨t, by omega, he⟩

theorem BytesRead.field {k : ℕ} (h : ∀ o, BytesRead p size o → R o) (hk : k + n ≤ size) :
    ∀ o, BytesRead (p + k) n o → R o := by
  rintro o ⟨t, ht, rfl⟩
  exact h _ ⟨k + t, by omega, by rw [Nat.add_assoc]⟩

theorem SameBytes.file32 (h : SameBytes R l m) (hr : ∀ o, BytesRead p 4 o → R o) :
    file32 m.data p = file32 l.data p :=
  file32_congr fun t ht => h.bytes _ (hr _ ⟨t, ht, rfl⟩)

theorem SameBytes.file16 (h : SameBytes R l m) (hr : ∀ o, BytesRead p 2 o → R o) :
    file16 m.data p = file16 l.data p := by
  refine load16_congr fun x hlo hhi => ?_
  obtain ⟨t, rfl⟩ := Nat.exists_eq_add_of_le hlo
  exact h.bytes _ (hr _ ⟨t, by omega, rfl⟩)

/-- Strings that are read compare alike. -/
theorem SameBytes.string (h : SameBytes R l m) (hr : ∀ o, StringRead l.data p o → R o) :
    ∀ k, (∀ j < k, fileString l.data p j ≠ 0) → fileString m.data p k = fileString l.data p k :=
  fun k hk => h.bytes _ (hr _ ⟨k, hk, rfl⟩)

theorem setFile32_congr {d d' : Mem} (h : d' o = d o) : setFile32 d' p v o = setFile32 d p v o := by
  unfold setFile32 store8
  rw [h]

theorem memcpyFrom_congr {mem d d' : Mem} {dst : ℕ} :
    ∀ {size : ℕ}, (∀ k < size, d' (u32 (src + k)) = d (u32 (src + k))) →
      memcpyFrom mem dst d' src size = memcpyFrom mem dst d src size
  | 0, _ => rfl
  | size + 1, h => by
    rw [memcpyFrom, memcpyFrom, h size (by omega), memcpyFrom_congr fun k hk => h k (by omega)]

/-- The stub of a string that has the same characters. -/
theorem syscallStubGet_congr {address : Syscall → ℕ}
    (hinit : syscallInit address = .ok env.syscallStubs)
    (h : ∀ k, (∀ j < k, s j ≠ 0) → t k = s k) : syscallStubGet env t = syscallStubGet env s := by
  have hnamed : ∀ c : Syscall, c.Named t ↔ c.Named s := fun c => by
    unfold Syscall.Named
    rw [strcmp_congr h]
  unfold syscallStubGet
  rcases hashMapGet_stubs hinit s with ⟨c, hc, hs⟩ | ⟨hnone, hs⟩
  · obtain ⟨c', hc', ht⟩ := (hashMapGet_stubs hinit t).resolve_right fun h =>
      h.1 c ((hnamed c).mpr hc)
    obtain rfl := ((hnamed c').mp hc').eq hc
    rw [hs, ht]
  · have ht := (hashMapGet_stubs hinit t).resolve_left fun ⟨c, hc, _⟩ => hnone c ((hnamed c).mp hc)
    rw [hs, ht.2]

theorem createProcessPage_sameBytes (h : SameBytes R l m) (p user : ℕ) :
    Alike (SameBytes R) (createProcessPage env l p user) (createProcessPage env m p user) := by
  unfold createProcessPage
  rw [h.pages, h.mem]
  cases env.createProcessPage p user l.pages with
  | error e => exact .error e
  | ok pages => exact .ok ⟨rfl, rfl, h.sectionPages, h.bytes⟩

theorem copySection_sameBytes {sizeBytes : ℕ} : ∀ {fuel i : ℕ} {l m : Loader σ}, SameBytes R l m →
    (∀ o, CopyRead env address src sizeBytes o fuel i l → R o) →
      Alike (SameBytes R) (copySection env address src sizeBytes fuel i l)
        (copySection env address src sizeBytes fuel i m)
  | 0, _, _, _, _, _ => .error _
  | fuel + 1, i, l, m, h, hr => by
    rw [copySection, copySection]
    by_cases hlt : i < sizeBytes
    · rw [if_pos hlt, if_pos hlt]
      refine (createProcessPage_sameBytes h _ 1).bind fun l₁ m₁ hl _ h₁ => ?_
      refine copySection_sameBytes ⟨h₁.pages, ?_, ?_, h₁.bytes⟩ fun o ho => hr o ⟨hlt, l₁, hl, .inr ho⟩
      · dsimp only
        rw [h₁.mem]
        exact memcpyFrom_congr fun k hk => h₁.bytes _ (hr _ ⟨hlt, l₁, hl, .inl ⟨k, hk, rfl⟩⟩)
      · dsimp only
        rw [h₁.sectionPages]
    · rw [if_neg hlt, if_neg hlt]
      exact .ok h

/-- The reads of the pass for symbol `n` of the table at `src` are in `R`. -/
structure SymbolReads (R : ℕ → Prop) (src n : ℕ) (l : Loader σ) : Prop where
  offsets : ∀ o, BytesRead (importAddress src n) 8 o → R o
  symbol : ∀ o, StringRead l.data (importSymbolAt l.data src n) o → R o
  lib : ∀ o, StringRead l.data (importLibAt l.data src n) o → R o

theorem importSymbols_sameBytes {stubs : Syscall → ℕ} (hinit : syscallInit stubs = .ok env.syscallStubs)
    (h : SameBytes R l m) :
    ∀ {n : ℕ}, (∀ k < n, ∀ l' addr, importSymbols env src p l k = .ok (l', addr) →
        SymbolReads R src k l') →
      Alike (fun a b => SameBytes R a.1 b.1 ∧ b.2 = a.2) (importSymbols env src p l n)
        (importSymbols env src p m n)
  | 0, _ => .ok ⟨h, rfl⟩
  | n + 1, hr => by
    have ih := importSymbols_sameBytes hinit h fun k hk => hr k (Nat.lt_succ_of_lt hk)
    rw [importSymbols, importSymbols]
    refine ih.bind ?_
    rintro ⟨l₁, cur⟩ ⟨m₁, cur'⟩ hl - ⟨h₁, rfl⟩
    obtain ⟨hoffsets, hsymbol, hlib⟩ := hr n (Nat.lt_succ_self n) l₁ cur' hl
    have hfirst : file32 m₁.data (importAddress src n) = file32 l₁.data (importAddress src n) :=
      h₁.file32 fun o ho => hoffsets o (ho.mono (by decide))
    have hsecond : file32 m₁.data (importAddress src n + 4) =
      file32 l₁.data (importAddress src n + 4) :=
      h₁.file32 (BytesRead.field hoffsets (by omega))
    have hcmp := @strcmp_congr rawxKernelLibName _ _ (h₁.string hlib)
    unfold importLibAt at hcmp
    dsimp only
    rw [hfirst, hsecond]
    refine (Alike.assert (by rw [hcmp]) _).bind fun _ _ _ _ _ => ?_
    have hget := syscallStubGet_congr hinit (h₁.string hsymbol)
    unfold importSymbolAt at hget
    rw [hget]
    cases syscallStubGet env (fileString l₁.data (src + file32 l₁.data (importAddress src n))) with
    | error e => exact .error e
    | ok r =>
      obtain ⟨status, ssi⟩ := r
      rw [ok_bind, ok_bind]
      refine (Alike.assert Iff.rfl _).bind fun _ _ _ _ _ => ?_
      cases ssi with
      | none => exact .error _
      | some ssi =>
        refine (Alike.assert Iff.rfl _).bind fun _ _ _ _ _ => .ok ⟨⟨h₁.pages, ?_, h₁.sectionPages,
          fun o ho => setFile32_congr (h₁.bytes o ho)⟩, rfl⟩
        dsimp only
        rw [h₁.mem]

/-- `strcmp` reads one byte more than the name has characters, at most. -/
theorem strcmp_congr_of_le : ∀ {name : List Char} {s t : ℕ → UInt8},
    (∀ k ≤ name.length, t k = s k) → strcmp t name = strcmp s name
  | [], s, t, h => by rw [strcmp, strcmp, h 0 le_rfl]
  | c :: cs, s, t, h => by
    rw [strcmp, strcmp, h 0 (Nat.zero_le _),
      strcmp_congr_of_le fun k hk => h (k + 1) (Nat.succ_le_succ hk)]

theorem SameBytes.header (h : SameBytes R l m) (hr : ∀ o, BytesRead 0 sizeofRawxHeader o → R o)
    (hp : p + 4 ≤ sizeofRawxHeader) : RawOS.file32 m.data p = RawOS.file32 l.data p :=
  h.file32 fun o ⟨t, ht, he⟩ => hr o ⟨p + t, by omega, by rw [Nat.zero_add]; exact he⟩

theorem loadSection_sameBytes {stubs : Syscall → ℕ} {rli : RawxLoadInformation}
    (hinit : syscallInit stubs = .ok env.syscallStubs) (h : SameBytes R l m)
    (hheader : ∀ o, BytesRead 0 sizeofRawxHeader o → R o) (hr : ∀ o, SectionRead env i o l → R o) :
    Alike (fun a b => b.1 = a.1 ∧ SameBytes R a.2 b.2) (loadSection env i rli l)
      (loadSection env i rli m) := by
  have hfields : ∀ o, BytesRead (sectionOffset i + 12) 8 o → R o := fun o ho => hr o (.fields ho)
  have haddress : sectionAddress m.data i = sectionAddress l.data i := by
    unfold sectionAddress headerLoadAddress sectionVirtualAddress
    rw [h.header hheader (by decide), h.file32 fun o ⟨t, ht, he⟩ => hfields o ⟨t, by omega, he⟩]
  have hptr : sectionFilePtrToData m.data i = sectionFilePtrToData l.data i :=
    h.file32 (BytesRead.field (k := 4) hfields (by omega))
  unfold loadSection
  rw [haddress, hptr]
  refine (Alike.assert Iff.rfl _).bind fun _ _ haligned _ _ => ?_
  rw [assert_eq_ok] at haligned
  have hsizes : ∀ o, BytesRead (sectionOffset i + 8) 4 o → R o :=
    fun o ho => hr o (.sizeBytes haligned ho)
  have hsize : sectionSizeBytes m.data i = sectionSizeBytes l.data i := h.file32 hsizes
  rw [hsize]
  refine (Alike.assert Iff.rfl _).bind fun _ _ hbelow _ _ => ?_
  rw [assert_eq_ok] at hbelow
  have hchecked : SectionChecked l.data i := ⟨haligned, hbelow⟩
  have hname : ∀ name : List Char, name.length ≤ 7 →
      (sectionHasName m.data i name ↔ sectionHasName l.data i name) := fun name hlen => by
    have hcmp := @strcmp_congr_of_le name (fileString l.data (sectionOffset i))
      (fileString m.data (sectionOffset i)) fun k hk =>
        h.bytes _ (hr _ (.name hchecked ⟨k, by omega, rfl⟩))
    unfold sectionHasName
    rw [hcmp]
  have hcode := hname codeName (by decide)
  have hdata := hname dataName (by decide)
  have himport := hname importName (by decide)
  by_cases hc : sectionHasName l.data i codeName
  · rw [if_pos hc, if_pos (hcode.mpr hc)]
    refine (copySection_sameBytes h fun o ho => hr o (.copied hchecked (.inl ?_) ho)).bind
      fun _ _ _ _ h₁ => .ok ⟨rfl, h₁⟩
    exact if_pos hc
  rw [if_neg hc, if_neg fun hc' => hc (hcode.mp hc')]
  by_cases hd : sectionHasName l.data i dataName
  · rw [if_pos hd, if_pos (hdata.mpr hd)]
    refine (copySection_sameBytes h fun o ho => hr o (.copied hchecked (.inr ?_) ho)).bind
      fun _ _ _ _ h₁ => .ok ⟨rfl, h₁⟩
    rw [sectionKind, if_neg hc, if_pos hd]
  rw [if_neg hd, if_neg fun hd' => hd (hdata.mp hd')]
  by_cases hi : sectionHasName l.data i importName
  · rw [if_pos hi, if_pos (himport.mpr hi)]
    have hkind : sectionKind l.data i = .importTable := by
      rw [sectionKind, if_neg hc, if_neg hd, if_pos hi]
    rw [h.file32 fun o ho => hr o (.symbolCount hchecked hkind ho)]
    refine (createProcessPage_sameBytes h _ 1).bind fun l₁ m₁ hpage _ h₁ => ?_
    have hsymbols := @importSymbols_sameBytes _ env R l₁ m₁ rawxSectionAddressMaximum
      (sectionFilePtrToData l.data i) stubs hinit h₁ (symbolCount l.data i) fun k hk l' addr hrun =>
        have hreached : SymbolReached env i k l l' := ⟨l₁, addr, hpage, hrun⟩
        ⟨fun o ho => hr o (.offsets hchecked hkind hk hreached ho),
          fun o ho => hr o (.symbolName hchecked hkind hk hreached ho),
          fun o ho => hr o (.libName hchecked hkind hk hreached ho)⟩
    refine hsymbols.bind ?_
    rintro ⟨l₂, addr⟩ ⟨m₂, addr'⟩ hrun - ⟨h₂, -⟩
    have hsize₂ : sectionSizeBytes m₂.data i = sectionSizeBytes l₂.data i := h₂.file32 hsizes
    dsimp only
    rw [hsize₂]
    exact (copySection_sameBytes h₂ fun o ho =>
      hr o (.copiedTable hchecked hkind ⟨l₁, addr, hpage, hrun⟩ ho)).bind fun _ _ _ _ h₃ =>
        .ok ⟨rfl, h₃⟩
  · rw [if_neg hi, if_neg fun hi' => hi (himport.mp hi')]
    exact .ok ⟨rfl, h⟩

/-- The run over the sections. -/
theorem loadSections_sameBytes {stubs : Syscall → ℕ} {l₀ : Loader σ}
    (hinit : syscallInit stubs = .ok env.syscallStubs)
    (hheader : ∀ o, BytesRead 0 sizeofRawxHeader o → R o) (hr : ∀ o, FileRead env length l₀ o → R o) :
    ∀ {fuel i : ℕ} {rli : RawxLoadInformation} {l m : Loader σ}, SectionReached env length l₀ i l →
      SameBytes R l m → Alike (fun a b => b.1 = a.1 ∧ SameBytes R a.2 b.2)
        (loadSections env fuel i rli l) (loadSections env fuel i rli m)
  | 0, _, _, _, _, _, _ => .error _
  | fuel + 1, i, rli, l, m, hreached, h => by
    have hcount : headerSectionCount m.data = headerSectionCount l.data := h.header hheader (by decide)
    rw [loadSections, loadSections, hcount]
    by_cases hlt : i < headerSectionCount l.data
    · rw [if_pos hlt, if_pos hlt]
      refine (loadSection_sameBytes hinit h hheader fun o ho => hr o (.section hreached hlt ho)).bind ?_
      rintro ⟨rli₁, l₁⟩ ⟨_, m₁⟩ hrun - ⟨rfl, h₁⟩
      exact loadSections_sameBytes hinit hheader hr (.next hreached hlt hrun) h₁
    · rw [if_neg hlt, if_neg hlt]
      exact .ok ⟨rfl, h⟩

theorem createStackPages_sameBytes (h : SameBytes R l m) (address userMode : ℕ) :
    ∀ n, Alike (SameBytes R) (createStackPages env address userMode l n)
      (createStackPages env address userMode m n)
  | 0 => .ok h
  | n + 1 => by
    rw [createStackPages, createStackPages]
    exact (createStackPages_sameBytes h address userMode n).bind fun _ _ _ _ h₁ =>
      createProcessPage_sameBytes h₁ _ _

theorem checkHeader_sameBytes (h : SameBytes R l m)
    (hr : ∀ o, (sizeofRawxHeader : ℤ) ≤ length → BytesRead 0 sizeofRawxHeader o → R o) :
    checkHeader m.data length = checkHeader l.data length := by
  unfold checkHeader
  by_cases hlt : length < sizeofRawxHeader
  · rw [if_pos hlt, if_pos hlt]
    rfl
  · rw [if_neg hlt, if_neg hlt]
    have hheader : ∀ o, BytesRead 0 sizeofRawxHeader o → R o := fun o ho => hr o (by omega) ho
    have hbyte : ∀ k < sizeofRawxHeader, fileByte m.data k = fileByte l.data k := fun k hk =>
      h.bytes _ (hheader _ ⟨k, hk, by rw [Nat.zero_add]⟩)
    have hversion : headerVersion m.data = headerVersion l.data :=
      h.file16 fun o ⟨t, ht, he⟩ => hheader o
        ⟨4 + t, by unfold sizeofRawxHeader; omega, by rw [Nat.zero_add]; exact he⟩
    have hflags : headerFlags m.data = headerFlags l.data := h.header hheader (by decide)
    have hcount : headerSectionCount m.data = headerSectionCount l.data := h.header hheader (by decide)
    have hload : headerLoadAddress m.data = headerLoadAddress l.data := h.header hheader (by decide)
    rw [hbyte 0 (by decide), hbyte 1 (by decide), hbyte 2 (by decide), hbyte 3 (by decide), hversion,
      hflags, hcount, hload]

/-- A load only looks at the bytes that it reads: on another file that has them it stops for the
same reason, or returns the same with the same pages and memory. -/
theorem rawxLoad_sameBytes {stubs : Syscall → ℕ} (hinit : syscallInit stubs = .ok env.syscallStubs)
    (h : SameBytes (FileRead env length l) l m) (stack kernelStack : Bool) :
    Alike (fun a b => b.1 = a.1 ∧ SameBytes (FileRead env length l) a.2 b.2)
      (rawxLoad env length stack kernelStack l) (rawxLoad env length stack kernelStack m) := by
  unfold rawxLoad
  rw [checkHeader_sameBytes h fun o hle ho => .header hle ho]
  cases hcheck : checkHeader l.data length with
  | error e => exact .error e
  | ok u =>
    rw [ok_bind, ok_bind]
    have hheader : ∀ o, BytesRead 0 sizeofRawxHeader o → FileRead env length l o := fun o ho =>
      .header (checkHeader_length hcheck) ho
    have hsections := @loadSections_sameBytes _ env _ length stubs l hinit hheader (fun _ ho => ho)
      sectionFuel 0 ⟨none, none, none, none⟩ l m (.first hcheck) h
    refine hsections.bind ?_
    rintro ⟨_, l₁⟩ ⟨rli₁, m₁⟩ - - ⟨rfl, h₁⟩
    dsimp only
    have hstack : Alike (fun a b => b.1 = a.1 ∧ SameBytes (FileRead env length l) a.2 b.2)
        (createStack env stack rli₁ l₁) (createStack env stack rli₁ m₁) := by
      have hsize : headerStackSize m₁.data = headerStackSize l₁.data := h₁.header hheader (by decide)
      unfold createStack
      rw [hsize]
      cases stack with
      | true =>
        rw [if_pos rfl, if_pos rfl]
        refine (Alike.assert Iff.rfl _).bind fun _ _ _ _ _ => ?_
        refine (Alike.assert Iff.rfl _).bind fun _ _ _ _ _ => ?_
        refine (Alike.assert Iff.rfl _).bind fun _ _ _ _ _ => ?_
        exact (createStackPages_sameBytes h₁ _ 1 _).bind fun _ _ _ _ h₂ => .ok ⟨rfl, h₂⟩
      | false =>
        rw [if_neg Bool.false_ne_true, if_neg Bool.false_ne_true]
        exact .ok ⟨rfl, h₁⟩
    refine hstack.bind ?_
    rintro ⟨_, l₂⟩ ⟨rli₂, m₂⟩ - - ⟨rfl, h₂⟩
    dsimp only
    have hkernel : Alike (SameBytes (FileRead env length l)) (createKernelStack env kernelStack l₂)
        (createKernelStack env kernelStack m₂) := by
      unfold createKernelStack
      cases kernelStack with
      | true =>
        rw [if_pos rfl, if_pos rfl]
        exact createStackPages_sameBytes h₂ _ 0 _
      | false =>
        rw [if_neg Bool.false_ne_true, if_neg Bool.false_ne_true]
        exact .ok h₂
    refine hkernel.bind fun l₃ m₃ _ _ h₃ => .ok ⟨?_, h₃⟩
    unfold headerLoadAddress headerEntryPointOffset
    rw [h₃.header hheader (by decide), h₃.header hheader (by decide)]

end

/-! ## Two files -/

/-- A file that ends with its section table, and has a section of two pages: its data is read beyond
the end. -/
theorem not_readsInBounds_twoPages : ¬ ReadsInBounds listEnv 48
    ⟨[], fun _ => 0, codeFile [0, 0x20, 0, 0] [0, 0, 0, 0], []⟩ := by
  intro hall
  obtain ⟨data, hdata⟩ : ∃ data, data = codeFile [0, 0x20, 0, 0] [0, 0, 0, 0] := ⟨_, rfl⟩
  rw [← hdata] at hall
  have hfields : checkHeader data 48 = .ok () ∧ 0 < headerSectionCount data ∧
      SectionChecked data 0 ∧ sectionKind data 0 = .code ∧ sectionAddress data 0 = 0x40000000 ∧
      sectionFilePtrToData data 0 = 0 ∧ sectionSizeBytes data 0 = 0x2000 := by
    rw [hdata]
    unfold SectionChecked
    decide
  obtain ⟨hheader, hcount, hchecked, hkind, haddress, hptr, hsize⟩ := hfields
  have hread : CopyRead listEnv (sectionAddress data 0) (sectionFilePtrToData data 0)
      (sectionSizeBytes data 0) 48 copyFuel 0 ⟨[], fun _ => 0, data, []⟩ := by
    rw [haddress, hptr, hsize, show copyFuel = 1048576 + 1 from rfl, CopyRead]
    exact ⟨by decide, _, createProcessPage_listEnv List.not_mem_nil, .inl ⟨48, by decide, rfl⟩⟩
  have hlt := hall 48 (.section (.first hheader) hcount (.copied hchecked (.inl hkind) hread))
  omega

/-- A section of one byte, which is in the file. -/
theorem readsInBounds_oneByte : ReadsInBounds listEnv 48
    ⟨[], fun _ => 0, codeFile [1, 0, 0, 0] [0, 0, 0, 0], []⟩ := by
  obtain ⟨data, hdata⟩ : ∃ data, data = codeFile [1, 0, 0, 0] [0, 0, 0, 0] := ⟨_, rfl⟩
  have hfields : headerSectionCount data = 1 ∧ sectionKind data 0 = .code ∧
      sectionFilePtrToData data 0 = 0 ∧ sectionSizeBytes data 0 = 1 := by
    rw [hdata]
    decide
  obtain ⟨hcount, hkind, hptr, hsize⟩ := hfields
  rw [← hdata]
  refine (rawxLoad_readsInBounds_iff listEnv 48 _ (by decide)).mpr fun i l' hr hlt => ?_
  have hfirst : l'.data = data ∧ i ≤ 1 := by
    clear hlt
    induction hr with
    | first => exact ⟨rfl, Nat.zero_le 1⟩
    | next hr hlt hload ih =>
      obtain ⟨hd, -⟩ := ih
      rw [hd, hcount] at hlt
      obtain rfl : _ = 0 := Nat.lt_one_iff.mp hlt
      have hnew := (loadSection_loaded hload).data
      rw [hd, resolveSection_of_ne (by rw [hkind]; decide)] at hnew
      exact ⟨hnew, le_rfl⟩
  obtain ⟨hd, -⟩ := hfirst
  rw [hd, hcount] at hlt
  obtain rfl : i = 0 := by omega
  refine ⟨by decide, fun _ _ _ => ?_, fun _ himport => ?_⟩
  · unfold DataFits
    rw [hd, hptr, hsize]
    decide
  · rw [hd, hkind] at himport
    cases himport

end RawOS
