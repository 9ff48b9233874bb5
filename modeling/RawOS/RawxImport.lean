import RawOS.RawxLoad
import RawOS.Syscall
import Mathlib.Order.CompletePartialOrder
import Mathlib.Order.Interval.Set.Disjoint

/-!
# The imports of an image

The loop over an import table copies the stub of each symbol behind the one before, in the import
page, and writes its address into the table; the section is copied afterwards.
`rawxLoad_importsResolved`: after a load, every import entry of the loaded section has the address
of a copy of the stub that its symbol names.
-/

namespace RawOS

/-! ## The table -/

/-- The size of an import table with `count` symbols. -/
def importTableSize (count : ℕ) : ℕ := sizeofRawxImportTable + count * sizeofRawxImportAddress

/-- Offset `o` of the file is in the import table at `start`. -/
def InImportTable (start count o : ℕ) : Prop := ∃ t < importTableSize count, o = u32 (start + t)

/-- Where the name of symbol `n` stands. -/
def importSymbolAt (data : Mem) (start n : ℕ) : ℕ := start + file32 data (importAddress start n)

/-- Where the name of its library stands. -/
def importLibAt (data : Mem) (start n : ℕ) : ℕ := start + file32 data (importAddress start n + 4)

/-- The string at `p`, with its NUL, has no byte in the table. -/
def StringOutside (data : Mem) (start count p : ℕ) : Prop :=
  ∀ k, (∀ j < k, fileByte data (p + j) ≠ 0) → ¬ InImportTable start count (u32 (p + k))

/-- A string behind the table. -/
theorem stringOutside_of_nul {data : Mem} {start count p n : ℕ} (hnul : fileByte data (p + n) = 0)
    (hp : start + importTableSize count ≤ p) (hlt : p + n < 4294967296) :
    StringOutside data start count p := by
  rintro k hk ⟨t, ht, he⟩
  have hkn : k ≤ n := by
    by_contra hkn
    exact hk n (by omega) hnul
  rw [u32_of_lt (by omega), u32_of_lt (by omega)] at he
  omega

/-- No name overlaps the table. -/
structure NamesOutside (data : Mem) (start count : ℕ) : Prop where
  symbol : ∀ n < count, StringOutside data start count (importSymbolAt data start n)
  lib : ∀ n < count, StringOutside data start count (importLibAt data start n)

section

variable {σ : Type} {env : LoaderEnv σ} {data data' : Mem} {start count k n o p v : ℕ}

theorem u32_add_inj {a b : ℕ} (h : u32 (p + a) = u32 (p + b)) (ha : a < 4294967296)
    (hb : b < 4294967296) : a = b := by
  unfold u32 at h
  omega

theorem file32_congr (h : ∀ t < 4, data' (u32 (p + t)) = data (u32 (p + t))) :
    file32 data' p = file32 data p := by
  refine load32_congr fun x hlo hhi => ?_
  obtain ⟨t, rfl⟩ := Nat.exists_eq_add_of_le hlo
  exact h t (by omega)

theorem setFile32_of_ne (h : ∀ t < 4, o ≠ u32 (p + t)) : setFile32 data p v o = data o := by
  unfold setFile32
  rw [store8_of_ne (h 3 (by omega)), store8_of_ne (h 2 (by omega)), store8_of_ne (h 1 (by omega)),
    store8_of_ne (show o ≠ u32 p from h 0 (by omega))]

theorem file32_setFile32 (hv : v < 4294967296) : file32 (setFile32 data p v) p = v := by
  have hne : ∀ {a b : ℕ}, a < 4 → b < 4 → a ≠ b → u32 (p + a) ≠ u32 (p + b) := fun ha hb hab he =>
    hab (u32_add_inj he (by omega) (by omega))
  have h₀ : fileByte (setFile32 data p v) p = UInt8.ofNat v := by
    have hfirst : ∀ {b : ℕ}, 0 < b → b < 4 → u32 p ≠ u32 (p + b) := fun hb hb' =>
      hne (a := 0) (by omega) hb' (by omega)
    unfold setFile32 fileByte
    rw [store8_of_ne (hfirst (by omega) (by omega)), store8_of_ne (hfirst (by omega) (by omega)),
      store8_of_ne (hfirst (by omega) (by omega)), store8, if_pos rfl]
  have h₁ : fileByte (setFile32 data p v) (p + 1) = UInt8.ofNat (v / 256) := by
    unfold setFile32 fileByte
    rw [store8_of_ne (hne (by omega) (by omega) (by omega)),
      store8_of_ne (hne (by omega) (by omega) (by omega)), store8, if_pos rfl]
  have h₂ : fileByte (setFile32 data p v) (p + 2) = UInt8.ofNat (v / 65536) := by
    unfold setFile32 fileByte
    rw [store8_of_ne (hne (by omega) (by omega) (by omega)), store8, if_pos rfl]
  have h₃ : fileByte (setFile32 data p v) (p + 3) = UInt8.ofNat (v / 16777216) := by
    unfold setFile32 fileByte
    rw [store8, if_pos rfl]
  unfold file32 load32
  rw [h₀, h₁, h₂, h₃]
  simp only [UInt8.toNat_ofNat']
  omega

/-- Equal strings compare alike: `strcmp` does not look behind the NUL. -/
theorem strcmp_congr : ∀ {name : List Char} {s t : ℕ → UInt8},
    (∀ k, (∀ j < k, s j ≠ 0) → t k = s k) → strcmp t name = strcmp s name
  | [], s, t, h => by
    rw [strcmp, strcmp, h 0 fun j hj => absurd hj (Nat.not_lt_zero j)]
  | c :: cs, s, t, h => by
    rw [strcmp, strcmp, h 0 fun j hj => absurd hj (Nat.not_lt_zero j)]
    split_ifs with hfirst
    · rfl
    · obtain ⟨hs, -⟩ := not_or.mp hfirst
      refine strcmp_congr fun k hk => h (k + 1) fun j hj => ?_
      cases j with
      | zero => exact hs
      | succ j => exact hk j (by omega)

/-! ## The call addresses -/

/-- The address that symbol `n` gets: the end of the stubs before it. -/
def callAddress (env : LoaderEnv σ) (start : ℕ) (data : Mem) (n : ℕ) : ℕ :=
  (fillCallAddresses env start data n).2

/-- The file when the loop comes to symbol `n`. -/
def importFile (env : LoaderEnv σ) (start : ℕ) (data : Mem) (n : ℕ) : Mem :=
  (fillCallAddresses env start data n).1

theorem fillCallAddresses_succ {status : ℤ} {ssi : SyscallStubInformation}
    (h : syscallStubGet env (fileString (importFile env start data n)
      (importSymbolAt (importFile env start data n) start n)) = .ok (status, some ssi)) :
    fillCallAddresses env start data (n + 1) =
      (setFile32 (importFile env start data n) (importAddress start n + 8)
        (callAddress env start data n),
        u32 (callAddress env start data n + ssi.syscallStubSize)) := by
  unfold importFile importSymbolAt at h
  rw [fillCallAddresses]
  dsimp only
  rw [h]
  rfl

theorem importFile_succ (env : LoaderEnv σ) (start : ℕ) (data : Mem) (n : ℕ) :
    importFile env start data (n + 1) = importFile env start data n ∨
      importFile env start data (n + 1) = setFile32 (importFile env start data n)
        (importAddress start n + 8) (callAddress env start data n) := by
  unfold importFile
  rw [fillCallAddresses]
  dsimp only
  split
  · exact .inr rfl
  · exact .inl rfl

/-- The loop only writes call addresses. -/
theorem importFile_others (h : ∀ k < n, ∀ t < 4, o ≠ u32 (importAddress start k + 8 + t)) :
    importFile env start data n o = data o := by
  induction n with
  | zero => rfl
  | succ n ih =>
    have hn := ih fun k hk => h k (by omega)
    rcases importFile_succ env start data n with heq | heq
    · rw [heq, hn]
    · rw [heq, setFile32_of_ne (h n (by omega)), hn]

theorem importAddress_eq (start k t : ℕ) : importAddress start k + t = start + (4 + 12 * k + t) := by
  unfold importAddress sizeofRawxImportTable sizeofRawxImportAddress
  omega

theorem importTableSize_eq (count : ℕ) : importTableSize count = 4 + 12 * count := by
  unfold importTableSize sizeofRawxImportTable sizeofRawxImportAddress
  omega

theorem importFile_outside (hn : n ≤ count) (ho : ¬ InImportTable start count o) :
    importFile env start data n o = data o := by
  refine importFile_others fun k hk t ht he => ho ⟨4 + 12 * k + (8 + t), ?_, ?_⟩
  · rw [importTableSize_eq]
    omega
  · rw [he, Nat.add_assoc, importAddress_eq]

/-- A field of the table that is no call address. -/
theorem importFile_field (hsize : importTableSize count ≤ 0x1000) (hn : n ≤ count) (hk : k < count)
    {f : ℕ} (hf : f ≤ 4) :
    file32 (importFile env start data n) (importAddress start k + f) =
      file32 data (importAddress start k + f) := by
  rw [importTableSize_eq] at hsize
  refine file32_congr fun t ht => importFile_others fun j hj t' ht' he => ?_
  rw [Nat.add_assoc, Nat.add_assoc, importAddress_eq, importAddress_eq] at he
  have heq := u32_add_inj he (by omega) (by omega)
  omega

/-- The names are the same in every pass of the loop. -/
theorem importFile_string (hn : n ≤ count) (hp : StringOutside data start count p) (name : List Char) :
    strcmp (fileString (importFile env start data n) p) name = strcmp (fileString data p) name :=
  strcmp_congr fun k hk => importFile_outside hn (hp k hk)

theorem importFile_symbolAt (hsize : importTableSize count ≤ 0x1000) (hn : n ≤ count) (hk : k < count) :
    importSymbolAt (importFile env start data n) start k = importSymbolAt data start k := by
  have hfield := @importFile_field _ env data start _ _ _ hsize hn hk 0 (Nat.zero_le 4)
  rw [Nat.add_zero] at hfield
  unfold importSymbolAt
  rw [hfield]

theorem importFile_libAt (hsize : importTableSize count ≤ 0x1000) (hn : n ≤ count) (hk : k < count) :
    importLibAt (importFile env start data n) start k = importLibAt data start k :=
  congrArg (start + ·) (importFile_field hsize hn hk le_rfl)

/-! ## The copies -/

/-- The stub of symbol `k` has been copied: to the address that the symbol gets, and up to the one
of the next symbol. -/
structure StubCopied (env : LoaderEnv σ) (start : ℕ) (data mem : Mem) (k : ℕ)
    (ssi : SyscallStubInformation) : Prop where
  get : syscallStubGet env (fileString (importFile env start data k)
    (importSymbolAt (importFile env start data k) start k)) = .ok (0, some ssi)
  next : callAddress env start data (k + 1) = callAddress env start data k + ssi.syscallStubSize
  bytes : ∀ j < ssi.syscallStubSize,
    mem (callAddress env start data k + j) = env.code (u32 (ssi.syscallStubAddress + j))

/-- The run over the symbols: the copies stand one behind the other in the import page. -/
theorem importSymbols_copies (hst : StubsFit env) :
    ∀ {n : ℕ} {l l' : Loader σ} {addr : ℕ},
      importSymbols env start rawxSectionAddressMaximum l n = .ok (l', addr) →
      ∀ k < n, ∃ ssi, StubCopied env start l.data l'.mem k ssi ∧
        rawxSectionAddressMaximum ≤ callAddress env start l.data k ∧
        callAddress env start l.data (k + 1) ≤ addr
  | 0, _, _, _, _ => fun k hk => absurd hk (Nat.not_lt_zero k)
  | n + 1, l, l', addr, h => by
    obtain ⟨hfill', -, -⟩ := importSymbols_data h
    obtain ⟨-, hhi', -⟩ := importSymbols_mem hst h
    rw [importSymbols] at h
    obtain ⟨⟨l₁, cur⟩, hrec, h⟩ := bind_eq_ok.mp h
    obtain ⟨hfill, -, -⟩ := importSymbols_data hrec
    obtain ⟨hlo, hhi, -⟩ := importSymbols_mem hst hrec
    obtain ⟨-, -, h⟩ := bind_eq_ok.mp h
    obtain ⟨⟨status, ssi⟩, hget, h⟩ := bind_eq_ok.mp h
    obtain ⟨_, hstatus, h⟩ := bind_eq_ok.mp h
    rw [assert_eq_ok] at hstatus
    cases ssi with
    | none => cases h
    | some ssi =>
      obtain ⟨-, -, h⟩ := bind_eq_ok.mp h
      cases h
      have hsize := hst _ _ _ hget
      have hmax : rawxSectionAddressMaximum = 0xBF000000 := rfl
      rw [hmax] at hlo hhi hhi'
      have hcur : u32 (cur + ssi.syscallStubSize) = cur + ssi.syscallStubSize := u32_of_lt (by omega)
      rw [hcur] at hfill' ⊢
      have hat : callAddress env start l.data n = cur := congrArg Prod.snd hfill
      have hfile : importFile env start l.data n = l₁.data := congrArg Prod.fst hfill
      have hnext : callAddress env start l.data (n + 1) = cur + ssi.syscallStubSize :=
        congrArg Prod.snd hfill'
      intro k hk
      rcases Nat.lt_succ_iff_lt_or_eq.mp hk with hlt | rfl
      · obtain ⟨ssi', hcopied, hlo', hle⟩ := importSymbols_copies hst hrec k hlt
        refine ⟨ssi', ⟨hcopied.get, hcopied.next, fun j hj => ?_⟩, hlo', by omega⟩
        rw [← hcopied.bytes j hj]
        -- the new copy is above this one
        refine memcpyFrom_of_outside fun i hi he => ?_
        rw [hcopied.next] at hle
        rw [u32_of_lt (by omega)] at he
        omega
      · refine ⟨ssi, ⟨?_, ?_, fun j hj => ?_⟩, ?_, hnext.le⟩
        · rw [hfile, importSymbolAt, hget, hstatus]
        · rw [hnext, hat]
        · have hbyte := @memcpyFrom_of_inside l₁.mem env.code cur ssi.syscallStubAddress
            ssi.syscallStubSize j (by omega) hj
          rw [u32_of_lt (by omega : cur + j < 4294967296)] at hbyte
          rw [hat]
          exact hbyte
        · rw [hat, hmax]
          exact hlo

/-- The addresses grow with the symbols. -/
theorem callAddress_mono {n : ℕ} {mem : Mem}
    (h : ∀ k < n, ∃ ssi, StubCopied env start data mem k ssi) {j : ℕ} (hj : j ≤ n) :
    ∀ {i : ℕ}, i ≤ j → callAddress env start data i ≤ callAddress env start data j := by
  induction j with
  | zero =>
    intro i hi
    rw [Nat.le_zero.mp hi]
  | succ j ih =>
    intro i hi
    obtain ⟨ssi, hcopied⟩ := h j (by omega)
    rcases Nat.le_succ_iff.mp hi with hle | rfl
    · have hle' := ih (by omega) hle
      rw [hcopied.next]
      omega
    · exact le_rfl

/-- The call address of symbol `k` stays in the file. -/
theorem importFile_callAddress {mem : Mem} (hsize : importTableSize count ≤ 0x1000)
    (h : ∀ k < count, ∃ ssi, StubCopied env start data mem k ssi)
    (hlt : ∀ k < count, callAddress env start data k < 4294967296) (hn : n ≤ count) (hk : k < n) :
    file32 (importFile env start data n) (importAddress start k + 8) =
      callAddress env start data k := by
  rw [importTableSize_eq] at hsize
  induction n with
  | zero => exact absurd hk (Nat.not_lt_zero k)
  | succ n ih =>
    obtain ⟨ssi, hcopied⟩ := h n (by omega)
    have hstep : importFile env start data (n + 1) = setFile32 (importFile env start data n)
        (importAddress start n + 8) (callAddress env start data n) :=
      congrArg Prod.fst (fillCallAddresses_succ hcopied.get)
    rw [hstep]
    rcases Nat.lt_succ_iff_lt_or_eq.mp hk with hkn | rfl
    · rw [← ih (by omega) hkn]
      refine file32_congr fun t ht => setFile32_of_ne fun t' ht' he => ?_
      rw [Nat.add_assoc, Nat.add_assoc, importAddress_eq, importAddress_eq] at he
      have heq := u32_add_inj he (by omega) (by omega)
      omega
    · exact file32_setFile32 (hlt k (by omega))

/-! ## The section -/

/-- Section `i` is the only import section of the file. -/
structure OneImport (data : Mem) (i : ℕ) : Prop where
  lt : i < headerSectionCount data
  kind : sectionKind data i = .importTable
  unique : ∀ j < headerSectionCount data, sectionKind data j = .importTable → j = i

variable {inv : σ → Prop} {present : σ → ℕ → Prop} {i j : ℕ} {l l' : Loader σ}
  {rli rli' : RawxLoadInformation}

/-- The sections before the import section leave the file as it is. -/
theorem OneImport.fileAt (h : OneImport data i) (hj : j ≤ i) : fileAt env data j = data := by
  induction j with
  | zero => rfl
  | succ j ih =>
    have hlt := h.lt
    rw [RawOS.fileAt, ih (by omega)]
    refine resolveSection_of_ne fun hkind => ?_
    have heq := h.unique j (by omega) hkind
    omega

theorem OneImport.reaches (h : OneImport data i) : Reaches env data i := fun j hj => by
  rw [h.fileAt hj]
  exact lt_of_le_of_lt hj h.lt

theorem loadSection_import (hp : ProcessPagesOk env inv present) (hinv : inv l.pages)
    (hkind : sectionKind l.data i = .importTable) (h : loadSection env i rli l = .ok (rli', l')) :
    ∃ l₁ l₂ addr, createProcessPage env l (rawxSectionAddressMaximum / 0x1000) 1 = .ok l₁ ∧
      importSymbols env (sectionFilePtrToData l.data i) rawxSectionAddressMaximum l₁
        (symbolCount l.data i) = .ok (l₂, addr) ∧
      present l₂.pages (rawxSectionAddressMaximum / 0x1000) ∧ Kept inv present l₂ l' := by
  obtain ⟨ha, -, ⟨hother, -⟩ | ⟨hcopied, -⟩ | ⟨-, l₁, l₂, addr, hpage, himp, hc⟩⟩ := loadSection_cases h
  · rw [hother] at hkind
    cases hkind
  · rcases hcopied with hcopied | hcopied <;> rw [hcopied] at hkind <;> cases hkind
  · obtain ⟨hk, -, hpres, -⟩ := createProcessPage_kept hp hinv (by decide) hpage
    obtain ⟨-, hpages, -⟩ := importSymbols_data himp
    have hinv₂ : inv l₂.pages := hpages ▸ hk.inv hinv
    exact ⟨l₁, l₂, addr, hpage, himp, hpages ▸ hpres,
      (copySection_mem hp ha (copySection_size_le hc) rfl hinv₂ hc).1⟩

/-- The run over the sections: the later ones keep what an import section has loaded. -/
theorem loadSections_import (hp : ProcessPagesOk env inv present) (hst : StubsFit env) (data : Mem) :
    ∀ {fuel i : ℕ} {rli rli' : RawxLoadInformation} {l l' : Loader σ},
      l.data = fileAt env data i → inv l.pages → loadSections env fuel i rli l = .ok (rli', l') →
      ∀ j ≥ i, Reaches env data j → sectionKind (fileAt env data j) j = .importTable →
        ∃ l₁ l₂ addr, l₁.data = fileAt env data j ∧
          importSymbols env (sectionFilePtrToData (fileAt env data j) j) rawxSectionAddressMaximum l₁
            (symbolCount (fileAt env data j) j) = .ok (l₂, addr) ∧
          present l₂.pages (rawxSectionAddressMaximum / 0x1000) ∧ Kept inv present l₂ l'
  | 0, _, _, _, _, _, _, _, h => by simp [loadSections] at h
  | fuel + 1, i, rli, rli', l, l', hl, hinv, h => by
    rw [loadSections] at h
    intro j hj hr hkind
    split_ifs at h with hcount
    · obtain ⟨⟨rli₁, l₁⟩, hsec, h⟩ := bind_eq_ok.mp h
      have hk₁ := (loadSection_copied hp hst hinv hsec).kept
      have hd := (loadSection_loaded hsec).data
      rw [hl] at hd
      rcases Nat.eq_or_lt_of_le hj with rfl | hlt
      · rw [← hl] at hkind ⊢
        obtain ⟨l₂, l₃, addr, hpage, himp, hpres, hk⟩ := loadSection_import hp hinv hkind hsec
        have hrest := (loadSections_copied hp hst data hd (hk₁.inv hinv) h).1
        exact ⟨l₂, l₃, addr, (createProcessPage_kept hp hinv (by decide) hpage).2.2.2.1, himp, hpres,
          hk.trans hrest⟩
      · exact loadSections_import hp hst data hd (hk₁.inv hinv) h j hlt hr hkind
    · exact absurd (hl ▸ hr i hj) hcount

/-! ## The load -/

/-- The word at `p` in the memory of the process. -/
def process32 (mem : Mem) (p : ℕ) : ℕ := load32 (fun x => mem (u32 x)) p

theorem process32_eq {mem : Mem} (h : ∀ t < 4, mem (u32 (p + t)) = data (u32 (o + t))) :
    process32 mem p = file32 data o := by
  have h₀ : mem (u32 p) = data (u32 o) := h 0 (by omega)
  unfold process32 file32 load32 fileByte
  dsimp only
  rw [h₀, h 1 (by omega), h 2 (by omega), h 3 (by omega)]

/-- Import `n` of section `i` after a load: its library is the kernel, its symbol is the call `c`,
and `a` is the address of a copy of the stub of `c` in the import page. The entry, where the
section was copied so far, holds this address. -/
structure ImportResolved (env : LoaderEnv σ) (address : Syscall → ℕ) (data mem : Mem) (i n : ℕ)
    (c : Syscall) (a : ℕ) : Prop where
  lib : strcmp (fileString data (importLibAt data (sectionFilePtrToData data i) n))
    rawxKernelLibName = 0
  symbol : c.Named (fileString data (importSymbolAt data (sectionFilePtrToData data i) n))
  entry : importTableSize (n + 1) ≤ copiedSize env data i →
    process32 mem (sectionAddress data i + importTableSize n + 8) = a
  copy : ∀ k < c.stubCode.length, mem (a + k) = env.code (u32 (address c + k))
  lower : rawxSectionAddressMaximum ≤ a
  upper : a + c.stubCode.length ≤ rawxSectionAddressMaximum + 0x1000

/-- The stubs of the kernel fit in a page. -/
theorem stubsFit_syscallInit {address : Syscall → ℕ} (h : syscallInit address = .ok env.syscallStubs) :
    StubsFit env := by
  intro name status ssi hget
  unfold syscallStubGet at hget
  rcases hashMapGet_stubs h name with ⟨c, -, hc⟩ | ⟨-, hnone⟩
  · rw [hc] at hget
    cases hget
    exact le_trans c.stubCode_length_le (by decide)
  · rw [hnone] at hget
    cases hget

/-- The section is copied with its size, if its table does not lie over it. -/
theorem copiedSize_of_outside (hkind : sectionKind data i = .importTable)
    (h : ∀ t < 4, ¬ InImportTable (sectionFilePtrToData data i) (symbolCount data i)
      (u32 (sectionOffset i + 8 + t))) : copiedSize env data i = sectionSizeBytes data i := by
  unfold copiedSize resolveSection
  rw [if_pos hkind]
  exact file32_congr fun t ht => importFile_outside le_rfl (h t ht)

/-- What the loop over the symbols does, in terms of the original file. -/
theorem importSymbols_resolved {address : Syscall → ℕ} {addr : ℕ}
    (hinit : syscallInit address = .ok env.syscallStubs) (hsize : importTableSize count ≤ 0x1000)
    (hnames : NamesOutside l.data start count)
    (h : importSymbols env start rawxSectionAddressMaximum l count = .ok (l', addr)) :
    ∀ n < count, ∃ c : Syscall,
      strcmp (fileString l.data (importLibAt l.data start n)) rawxKernelLibName = 0 ∧
      c.Named (fileString l.data (importSymbolAt l.data start n)) ∧
      StubCopied env start l.data l'.mem n (stubInformation address c) ∧
      rawxSectionAddressMaximum ≤ callAddress env start l.data n ∧
      callAddress env start l.data (n + 1) ≤ addr := by
  intro n hn
  obtain ⟨ssi, hcopied, hlo, hhi⟩ := importSymbols_copies (stubsFit_syscallInit hinit) h n hn
  obtain ⟨hlib, -⟩ := importSymbols_known h n hn
  -- the names are those of the original file
  rw [← importFile, ← importLibAt, importFile_libAt hsize hn.le hn,
    importFile_string hn.le (hnames.lib n hn)] at hlib
  have hget := hcopied.get
  rw [importFile_symbolAt hsize hn.le hn] at hget
  unfold syscallStubGet at hget
  rcases hashMapGet_stubs hinit (fileString (importFile env start l.data n)
    (importSymbolAt l.data start n)) with ⟨c, hc, hfound⟩ | ⟨-, hnone⟩
  · rw [hfound] at hget
    cases hget
    unfold Syscall.Named at hc
    rw [importFile_string hn.le (hnames.symbol n hn)] at hc
    exact ⟨c, hlib, hc, hcopied, hlo, hhi⟩
  · rw [hnone] at hget
    cases hget

/-- The imports of section `i` after a load: each one is resolved, and the copies are disjoint. The
section was copied with its size, unless its table lies over this size in the section table. -/
def ImportsResolved (env : LoaderEnv σ) (address : Syscall → ℕ) (data mem : Mem) (i : ℕ) : Prop :=
  ∃ (call : ℕ → Syscall) (copy : ℕ → ℕ),
    (∀ n < symbolCount data i, ImportResolved env address data mem i n (call n) (copy n)) ∧
    (∀ m < symbolCount data i, ∀ n < symbolCount data i, m ≠ n →
      Disjoint (Set.Ico (copy m) (copy m + (call m).stubCode.length))
        (Set.Ico (copy n) (copy n + (call n).stubCode.length))) ∧
    ((∀ t < 4, ¬ InImportTable (sectionFilePtrToData data i) (symbolCount data i)
        (u32 (sectionOffset i + 8 + t))) → copiedSize env data i = sectionSizeBytes data i)

/-- The import section is the only one, lies in a page, contains its table, and no name overlaps the
table: then a load that returns has resolved every import. -/
theorem rawxLoad_importsResolved {address : Syscall → ℕ} (hp : ProcessPagesOk env inv present)
    (hinit : syscallInit address = .ok env.syscallStubs) (hinv : inv l.pages)
    (hone : OneImport l.data i) (hpage : sectionSizeBytes l.data i ≤ 0x1000)
    (htable : importTableSize (symbolCount l.data i) ≤ sectionSizeBytes l.data i)
    (hnames : NamesOutside l.data (sectionFilePtrToData l.data i) (symbolCount l.data i))
    (length : ℤ) (stack kernelStack : Bool)
    (h : rawxLoad env length stack kernelStack l = .ok (rli, l')) :
    ImportsResolved env address l.data l'.mem i := by
  have hst := stubsFit_syscallInit hinit
  have hsize := le_trans htable hpage
  have hmax : rawxSectionAddressMaximum = 0xBF000000 := rfl
  have hfile : fileAt env l.data i = l.data := hone.fileAt le_rfl
  obtain ⟨rli₁, l₁, l₂, hsec, hstack, hkernel⟩ := rawxLoad_cases h
  obtain ⟨hk, -⟩ := loadSections_copied hp hst l.data rfl hinv hsec
  have hstacks := rawxLoad_stacksKept hp (hk.inv hinv) hstack hkernel
  obtain ⟨l₃, l₄, addr, hdata, himp, hpres, hlater⟩ :=
    loadSections_import hp hst l.data rfl hinv hsec i (Nat.zero_le i) hone.reaches
      (hfile.symm ▸ hone.kind)
  rw [hfile] at hdata himp
  obtain ⟨-, hhi, -⟩ := importSymbols_mem hst himp
  have hsymbols := importSymbols_resolved hinit hsize (hdata.symm ▸ hnames) himp
  rw [hdata] at hsymbols
  have hcopies : ∀ n < symbolCount l.data i, ∃ ssi,
      StubCopied env (sectionFilePtrToData l.data i) l.data l₄.mem n ssi := fun n hn =>
    ⟨_, (hsymbols n hn).choose_spec.2.2.1⟩
  have hlt : ∀ n < symbolCount l.data i,
      callAddress env (sectionFilePtrToData l.data i) l.data n < 4294967296 := fun n hn => by
    obtain ⟨c, -, -, hcopied, -, hle⟩ := hsymbols n hn
    have hnext := hcopied.next
    omega
  have hentry : ∀ n < symbolCount l.data i, importTableSize (n + 1) ≤ copiedSize env l.data i →
      process32 l'.mem (sectionAddress l.data i + importTableSize n + 8) =
        callAddress env (sectionFilePtrToData l.data i) l.data n := fun n hn hloaded => by
    rw [← importFile_callAddress hsize hcopies hlt le_rfl hn]
    have hbytes := rawxLoad_bytes hp hst hinv h i hone.reaches (by rw [hfile, hone.kind]; decide)
    rw [hfile, fileAt, hfile, resolveSection, if_pos hone.kind] at hbytes
    rw [importTableSize_eq] at hsize hloaded ⊢
    refine process32_eq fun t ht => ?_
    obtain ⟨-, hbyte⟩ := hbytes (4 + 12 * n + (8 + t)) (by omega)
    rw [Nat.mod_eq_of_lt (by omega)] at hbyte
    rw [show sectionAddress l.data i + (4 + 12 * n) + 8 + t =
      sectionAddress l.data i + (4 + 12 * n + (8 + t)) by omega, hbyte,
      Nat.add_assoc (importAddress _ n), importAddress_eq]
    rfl
  have hkept := hlater.trans hstacks
  choose! call hcall using hsymbols
  refine ⟨call, callAddress env (sectionFilePtrToData l.data i) l.data, fun n hn => ?_, ?_,
    copiedSize_of_outside hone.kind⟩
  · obtain ⟨hlib, hsymbol, hcopied, hlo, hle⟩ := hcall n hn
    have hnext := hcopied.next
    have hlength : (stubInformation address (call n)).syscallStubSize = (call n).stubCode.length := rfl
    rw [hlength] at hnext
    refine ⟨hlib, hsymbol, hentry n hn, fun k hk => ?_, hlo, by omega⟩
    have hbyte := hcopied.bytes k hk
    rw [← hkept.mem _ ?_] at hbyte
    · exact hbyte
    · -- the byte is in the import page
      rw [hmax] at hlo hhi hpres
      rwa [show (callAddress env (sectionFilePtrToData l.data i) l.data n + k) / 0x1000 =
        0xBF000000 / 0x1000 by omega]
  · have horder : ∀ m n, m < n → n < symbolCount l.data i →
        callAddress env (sectionFilePtrToData l.data i) l.data m + (call m).stubCode.length ≤
          callAddress env (sectionFilePtrToData l.data i) l.data n := fun m n hmn hn => by
      obtain ⟨-, -, hcopied, -⟩ := hcall m (hmn.trans hn)
      exact hcopied.next ▸ callAddress_mono hcopies hn.le hmn
    intro m hm n hn hne
    rw [Set.Ico_disjoint_Ico]
    rcases Nat.lt_or_gt_of_ne hne with hlt | hlt
    · exact (min_le_left _ _).trans ((horder m n hlt hn).trans (le_max_right _ _))
    · exact (min_le_right _ _).trans ((horder n m hlt hm).trans (le_max_left _ _))

end

/-! ## One import -/

/-- A kernel whose stubs stand behind each other from 1 MB on. -/
def stubAddress (c : Syscall) : ℕ := 0x100000 + 32 * c.number.toNat

def stubMemory : Mem := fun x =>
  ((Syscall.order.find? fun c => stubAddress c ≤ x ∧ x < stubAddress c + 32).map fun c =>
    c.stubCode.getD (x - stubAddress c) 0).getD 0

/-- `listEnv` with the stubs of the kernel. -/
def stubsEnv (hm : HashMap (ℕ → UInt8) SyscallStubInformation) : LoaderEnv (List ℕ) :=
  { listEnv with
    syscallStubs := hm
    code := stubMemory }

/-- A file with one import section, which imports `exit`. -/
def exitFile : Mem := fun x =>
  (['R', 'A', 'W', 'X'].map Char.toUInt8 ++ [0, 0, 0, 0, 1, 0, 0, 0, 0, 0, 0, 0x40, 0, 0, 0, 0,
    0, 0x10, 0, 0, 1, 0, 0, 0] ++ importName.map Char.toUInt8 ++ [0, 28, 0, 0, 0, 0, 0, 0, 0,
    48, 0, 0, 0] ++ [1, 0, 0, 0, 16, 0, 0, 0, 21, 0, 0, 0, 0, 0, 0, 0] ++
    Syscall.exit.name.map Char.toUInt8 ++ [0] ++ rawxKernelLibName.map Char.toUInt8).getD x 0

theorem stubsEnv_pagesOk (hm : HashMap (ℕ → UInt8) SyscallStubInformation) :
    ProcessPagesOk (stubsEnv hm) (fun _ => True) fun pages p => p ∈ pages :=
  listEnv_pagesOk.congr rfl

theorem exitFile_oneImport : OneImport exitFile 0 where
  lt := by decide
  kind := by decide
  unique := fun j hj _ => by
    have hcount : headerSectionCount exitFile = 1 := by decide
    omega

/-- The names end before the end of the file. -/
theorem exitFile_namesOutside : NamesOutside exitFile (sectionFilePtrToData exitFile 0)
    (symbolCount exitFile 0) := by
  have hcount : symbolCount exitFile 0 = 1 := by decide
  have hstart : sectionFilePtrToData exitFile 0 = 48 := by decide
  rw [hcount, hstart]
  constructor
  · intro n hn
    obtain rfl : n = 0 := by omega
    exact stringOutside_of_nul (n := 4) (by decide) (by decide) (by decide)
  · intro n hn
    obtain rfl : n = 0 := by omega
    exact stringOutside_of_nul (n := 6) (by decide) (by decide) (by decide)

theorem createProcessPage_stubsEnv (hm : HashMap (ℕ → UInt8) SyscallStubInformation)
    (l : Loader (List ℕ)) (p user : ℕ) (h : p ∉ l.pages) :
    createProcessPage (stubsEnv hm) l p user =
      .ok { l with pages := p :: l.pages, mem := store8 l.mem (p * 0x1000) 0xAB } :=
  createProcessPage_ok.mpr ⟨p :: l.pages, if_neg h, rfl⟩

/-- The loop over the one symbol. -/
theorem exitFile_symbols {hm : HashMap (ℕ → UInt8) SyscallStubInformation}
    (hinit : syscallInit stubAddress = .ok hm) {l : Loader (List ℕ)} (hl : l.data = exitFile) :
    ∃ m addr, importSymbols (stubsEnv hm) 48 rawxSectionAddressMaximum l 1 =
      .ok (⟨l.pages, m, setFile32 exitFile 60 rawxSectionAddressMaximum, l.sectionPages⟩, addr) := by
  have hlib : strcmp (fileString exitFile (48 + file32 exitFile (importAddress 48 0 + 4)))
    rawxKernelLibName = 0 := by decide
  have hsymbol :
    Syscall.exit.Named (fileString exitFile (48 + file32 exitFile (importAddress 48 0))) := by
    unfold Syscall.Named
    decide
  obtain ⟨c, hc, hget⟩ := (hashMapGet_stubs hinit _).resolve_right fun hnone => hnone.1 _ hsymbol
  obtain rfl := hc.eq hsymbol
  have hstub : syscallStubGet (stubsEnv hm)
      (fileString exitFile (48 + file32 exitFile (importAddress 48 0))) =
        .ok (0, some (stubInformation stubAddress .exit)) := hget
  refine ⟨memcpyFrom l.mem rawxSectionAddressMaximum stubMemory (stubAddress .exit)
    Syscall.exit.stubCode.length, u32 (rawxSectionAddressMaximum + Syscall.exit.stubCode.length), ?_⟩
  rw [importSymbols, importSymbols, ok_bind]
  dsimp only
  rw [hl, assert_of_true hlib, ok_bind, hstub, ok_bind]
  dsimp only
  rw [assert_of_true rfl, ok_bind, assert_of_true (by decide), ok_bind]
  rfl

theorem exitFile_loads {hm : HashMap (ℕ → UInt8) SyscallStubInformation}
    (hinit : syscallInit stubAddress = .ok hm) :
    ∃ rli l', rawxLoad (stubsEnv hm) 76 false false ⟨[], fun _ => 0, exitFile, []⟩ = .ok (rli, l') := by
  obtain ⟨l, hl⟩ : ∃ l : Loader (List ℕ), l = ⟨[], fun _ => 0, exitFile, []⟩ := ⟨_, rfl⟩
  have hdata : l.data = exitFile := by rw [hl]
  have hpage := createProcessPage_stubsEnv hm l _ 1
    (show rawxSectionAddressMaximum / 0x1000 ∉ l.pages by rw [hl]; exact List.not_mem_nil)
  obtain ⟨m, addr, himp⟩ := exitFile_symbols hinit (l := { l with
    pages := rawxSectionAddressMaximum / 0x1000 :: l.pages
    mem := store8 l.mem (rawxSectionAddressMaximum / 0x1000 * 0x1000) 0xAB }) hdata
  -- the section is one page, at 1GB
  obtain ⟨l₁, hl₁⟩ : ∃ l₁ : Loader (List ℕ), l₁ = ⟨rawxSectionAddressMaximum / 0x1000 :: l.pages, m,
    setFile32 exitFile 60 rawxSectionAddressMaximum, l.sectionPages⟩ := ⟨_, rfl⟩
  rw [← hl₁] at himp
  have hdata₁ : l₁.data = setFile32 exitFile 60 rawxSectionAddressMaximum := by rw [hl₁]
  have hpages₁ : l₁.pages = [rawxSectionAddressMaximum / 0x1000] := by rw [hl₁, hl]
  have hsection := createProcessPage_stubsEnv hm l₁ (u32 (0x40000000 + 0) / 0x1000) 1
    (by rw [hpages₁]; decide)
  obtain ⟨l₂, hcopy, hl₂⟩ : ∃ l₂, copySection (stubsEnv hm) 0x40000000 48 28 copyFuel 0 l₁ = .ok l₂ ∧
      l₂.data = l₁.data := by
    rw [show copyFuel = 1048575 + 1 + 1 from rfl, copySection_step (by decide) hsection,
      copySection_done (by decide)]
    exact ⟨_, rfl, rfl⟩
  have hsize : sectionSizeBytes l₁.data 0 = 28 := by
    rw [hdata₁]
    decide
  have hload : loadSection (stubsEnv hm) 0 ⟨none, none, none, none⟩ l =
      .ok (⟨none, none, none, none⟩, l₂) := by
    unfold loadSection
    rw [hdata]
    dsimp only
    rw [assert_of_true (by decide), ok_bind, assert_of_true (by decide), ok_bind, if_neg (by decide),
      if_neg (by decide), if_pos (by decide), hpage, ok_bind]
    have haddress : sectionAddress exitFile 0 = 0x40000000 := by decide
    have hstart : sectionFilePtrToData exitFile 0 = 48 := by decide
    have hcount : (toS32 (file32 exitFile 48)).toNat = 1 := by decide
    rw [haddress, hstart, hcount, himp, ok_bind]
    dsimp only
    rw [hsize, hcopy]
    rfl
  have hsections : loadSections (stubsEnv hm) sectionFuel 0 ⟨none, none, none, none⟩ l =
      .ok (⟨none, none, none, none⟩, l₂) := by
    have hcount : headerSectionCount exitFile = 1 := by decide
    have hcount₂ : headerSectionCount l₂.data = 1 := by
      rw [hl₂, hdata₁]
      decide
    rw [show sectionFuel = 4294967294 + 1 + 1 from rfl, loadSections, hdata, hcount,
      if_pos Nat.one_pos, hload, ok_bind]
    dsimp only
    rw [loadSections, hcount₂, if_neg (Nat.lt_irrefl 1)]
  have hheader : checkHeader l.data 76 = .ok () := by
    rw [hdata]
    decide
  rw [← hl]
  unfold rawxLoad
  rw [hheader, ok_bind, hsections, ok_bind]
  exact ⟨_, _, rfl⟩

theorem importsResolved_exit : ∃ hm rli l', syscallInit stubAddress = .ok hm ∧
    rawxLoad (stubsEnv hm) 76 false false ⟨[], fun _ => 0, exitFile, []⟩ = .ok (rli, l') ∧
    ImportsResolved (stubsEnv hm) stubAddress exitFile l'.mem 0 := by
  obtain ⟨hm, hinit, -⟩ := syscallInit_ok stubAddress
  obtain ⟨rli, l', h⟩ := exitFile_loads hinit
  have hpage : sectionSizeBytes exitFile 0 ≤ 0x1000 := by decide
  have htable : importTableSize (symbolCount exitFile 0) ≤ sectionSizeBytes exitFile 0 := by decide
  have hresolved :=
    @rawxLoad_importsResolved _ (stubsEnv hm) _ _ 0 ⟨[], fun _ => 0, exitFile, []⟩ l' rli
    stubAddress (stubsEnv_pagesOk hm) hinit trivial exitFile_oneImport hpage htable
    exitFile_namesOutside 76 false false h
  exact ⟨hm, rli, l', hinit, h, hresolved⟩

end RawOS
