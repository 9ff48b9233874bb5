import RawOS.Rawx

/-!
# What `rawx_load` loads

`fileAt` is the file as the loader finds it at section `i`: an import section has its call
addresses filled in. `copySection_spec` says which pages a section is copied to and which bytes
they get; a load keeps every page that it created earlier (`Kept`). `RawxLoaded` are the parts of a
load that returns, with the checks that it has passed.
-/

namespace RawOS

variable {σ : Type} {env : LoaderEnv σ} {l l' : Loader σ}

/-! ## The file during the load -/

/-- The file at `start` with the call addresses of its first `n` symbols filled in, and the address
after the last stub. -/
def fillCallAddresses (env : LoaderEnv σ) (start : ℕ) (data : Mem) : ℕ → Mem × ℕ
  | 0 => (data, rawxSectionAddressMaximum)
  | n + 1 =>
    let (data, currentAddr) := fillCallAddresses env start data n
    let imp := importAddress start n
    match syscallStubGet env (fileString data (start + file32 data imp)) with
    | .ok (_, some ssi) =>
      (setFile32 data (imp + 8) currentAddr, u32 (currentAddr + ssi.syscallStubSize))
    | _ => (data, currentAddr)

/-- What the loader takes a section for. -/
inductive SectionKind where
  | code
  | data
  | importTable
  | other
  deriving DecidableEq

def sectionKind (data : Mem) (i : ℕ) : SectionKind :=
  if sectionHasName data i codeName then .code
  else if sectionHasName data i dataName then .data
  else if sectionHasName data i importName then .importTable
  else .other

/-- The symbols of section `i`, an import section. -/
def symbolCount (data : Mem) (i : ℕ) : ℕ := (toS32 (file32 data (sectionFilePtrToData data i))).toNat

/-- The file after section `i`. -/
def resolveSection (env : LoaderEnv σ) (data : Mem) (i : ℕ) : Mem :=
  if sectionKind data i = .importTable then
    (fillCallAddresses env (sectionFilePtrToData data i) data (symbolCount data i)).1
  else data

/-- The file when the loader comes to section `i`. -/
def fileAt (env : LoaderEnv σ) (data : Mem) : ℕ → Mem
  | 0 => data
  | i + 1 => resolveSection env (fileAt env data i) i

/-- The loader comes to section `i`. -/
def Reaches (env : LoaderEnv σ) (data : Mem) (i : ℕ) : Prop :=
  ∀ j ≤ i, j < headerSectionCount (fileAt env data j)

/-- The size of section `i` when it is copied: its own call addresses are filled in by then. -/
def copiedSize (env : LoaderEnv σ) (data : Mem) (i : ℕ) : ℕ :=
  sectionSizeBytes (resolveSection env data i) i

/-! ## Pages -/

/-- What the loader relies on when it creates a page: the page was not present, it is from then on,
and the pages that were stay. -/
structure ProcessPagesOk (env : LoaderEnv σ) (inv : σ → Prop) (present : σ → ℕ → Prop) : Prop where
  step : ∀ {p user s s'}, inv s → p < 0x100000 → env.createProcessPage p user s = .ok s' → inv s'
  fresh : ∀ {p user s s'}, inv s → p < 0x100000 → env.createProcessPage p user s = .ok s' →
    ¬ present s p
  created : ∀ {p user s s'}, inv s → p < 0x100000 → env.createProcessPage p user s = .ok s' →
    present s' p
  keeps : ∀ {p user s s' q}, inv s → p < 0x100000 → env.createProcessPage p user s = .ok s' →
    present s q → present s' q

theorem ProcessPagesOk.congr {env' : LoaderEnv σ} {inv : σ → Prop} {present : σ → ℕ → Prop}
    (hp : ProcessPagesOk env inv present) (h : env'.createProcessPage = env.createProcessPage) :
    ProcessPagesOk env' inv present := by
  obtain ⟨hstep, hfresh, hcreated, hkeeps⟩ := hp
  rw [← h] at hstep hfresh hcreated hkeeps
  exact ⟨hstep, hfresh, hcreated, hkeeps⟩

/-- The stubs fit in a page. -/
def StubsFit (env : LoaderEnv σ) : Prop :=
  ∀ name status ssi, syscallStubGet env name = .ok (status, some ssi) →
    ssi.syscallStubSize ≤ 0x1000

/-- The pages that are present stay so and keep their bytes. -/
structure Kept (inv : σ → Prop) (present : σ → ℕ → Prop) (l l' : Loader σ) : Prop where
  inv : inv l.pages → inv l'.pages
  pages : ∀ q, present l.pages q → present l'.pages q
  mem : ∀ x, present l.pages (x / 0x1000) → l'.mem x = l.mem x

variable {inv : σ → Prop} {present : σ → ℕ → Prop}

theorem Kept.refl (l : Loader σ) : Kept inv present l l := ⟨id, fun _ h => h, fun _ _ => rfl⟩

theorem Kept.trans {l₁ l₂ l₃ : Loader σ} (h : Kept inv present l₁ l₂) (h' : Kept inv present l₂ l₃) :
    Kept inv present l₁ l₃ where
  inv hinv := h'.inv (h.inv hinv)
  pages q hq := h'.pages q (h.pages q hq)
  mem x hx := by rw [h'.mem x (h.pages _ hx), h.mem x hx]

theorem memcpyFrom_of_outside {m other : Mem} {dst src x : ℕ} :
    ∀ {size : ℕ}, (∀ k < size, x ≠ u32 (dst + k)) → memcpyFrom m dst other src size x = m x
  | 0, _ => rfl
  | size + 1, h => by
    rw [memcpyFrom, store8_of_ne (h size (by omega))]
    exact memcpyFrom_of_outside fun k hk => h k (by omega)

theorem memcpyFrom_of_inside {m other : Mem} {dst src : ℕ} :
    ∀ {size k : ℕ}, size ≤ 4294967296 → k < size →
      memcpyFrom m dst other src size (u32 (dst + k)) = other (u32 (src + k))
  | size + 1, k, hs, hk => by
    rw [memcpyFrom]
    by_cases h : k = size
    · subst h
      rw [store8, if_pos rfl]
    · have hne : u32 (dst + k) ≠ u32 (dst + size) := by
        unfold u32
        omega
      rw [store8_of_ne hne]
      exact memcpyFrom_of_inside (by omega) (by omega)

theorem createProcessPage_ok {p user : ℕ} :
    createProcessPage env l p user = .ok l' ↔ ∃ pages,
      env.createProcessPage p user l.pages = .ok pages ∧
        l' = { l with pages := pages, mem := store8 l.mem (p * 0x1000) 0xAB } := by
  unfold createProcessPage
  rw [bind_eq_ok]
  constructor
  · rintro ⟨pages, hc, h⟩
    exact ⟨pages, hc, (Except.ok.inj h).symm⟩
  · rintro ⟨pages, hc, rfl⟩
    exact ⟨pages, hc, rfl⟩

/-- A created page was not present, so the others keep their bytes. -/
theorem createProcessPage_kept (hp : ProcessPagesOk env inv present) {p user : ℕ}
    (hinv : inv l.pages) (hlt : p < 0x100000) (h : createProcessPage env l p user = .ok l') :
    Kept inv present l l' ∧ ¬ present l.pages p ∧ present l'.pages p ∧ l'.data = l.data ∧
      l'.sectionPages = l.sectionPages := by
  obtain ⟨pages, hc, rfl⟩ := createProcessPage_ok.mp h
  have hfresh := hp.fresh hinv hlt hc
  refine ⟨⟨fun _ => hp.step hinv hlt hc, fun q hq => hp.keeps hinv hlt hc hq, fun x hx => ?_⟩, hfresh,
    hp.created hinv hlt hc, rfl, rfl⟩
  refine store8_of_ne fun he => hfresh ?_
  rw [he, Nat.mul_div_cancel _ (by omega)] at hx
  exact hx

/-! ## Copying a section -/

/-- The page of byte `k` of a section at `address`. -/
def sectionPage (address k : ℕ) : ℕ := u32 (address + k) / 0x1000

theorem sectionPage_lt (address k : ℕ) : sectionPage address k < 0x100000 := by
  unfold sectionPage u32
  omega

/-- A section that ends in the last page of the address space is never done: the counter wraps. -/
theorem copySection_size {address src size : ℕ} (hs : 4294963200 < size) :
    ∀ {fuel i : ℕ} {l l' : Loader σ}, i % 0x1000 = 0 → i < 4294967296 →
      copySection env address src size fuel i l ≠ .ok l'
  | 0, _, _, _, _, _ => by simp [copySection]
  | fuel + 1, i, l, l', hi, hlt => by
    rw [copySection, if_pos (by omega)]
    intro h
    obtain ⟨l₁, -, h⟩ := bind_eq_ok.mp h
    exact copySection_size hs (by unfold u32; omega) (u32_lt _) h

/-- The pages of a section, and what the copy leaves alone. -/
theorem copySection_pages {address src size : ℕ} (ha : address % 0x1000 = 0)
    (hs : size ≤ 4294963200) :
    ∀ {fuel i : ℕ} {l l' : Loader σ}, i % 0x1000 = 0 →
      copySection env address src size fuel i l = .ok l' →
      l'.data = l.data ∧ ∀ p, p ∈ l'.sectionPages ↔
        p ∈ l.sectionPages ∨ ∃ k, i ≤ k ∧ k < size ∧ p = sectionPage address k
  | 0, _, _, _, _, h => by simp [copySection] at h
  | fuel + 1, i, l, l', hi, h => by
    rw [copySection] at h
    split_ifs at h with hlt
    · obtain ⟨l₁, hc, h⟩ := bind_eq_ok.mp h
      obtain ⟨pages, -, rfl⟩ := createProcessPage_ok.mp hc
      rw [u32_of_lt (by omega : i + 0x1000 < 4294967296)] at h
      obtain ⟨hd, hp⟩ := copySection_pages ha hs (by omega) h
      refine ⟨hd, fun p => ?_⟩
      rw [hp p, List.mem_append, List.mem_singleton, or_assoc]
      refine or_congr_right ⟨?_, ?_⟩
      · rintro (rfl | ⟨k, hk, hk', rfl⟩)
        · exact ⟨i, le_refl i, hlt, rfl⟩
        · exact ⟨k, by omega, hk', rfl⟩
      · rintro ⟨k, hk, hk', rfl⟩
        by_cases hnext : k < i + 0x1000
        · left
          unfold sectionPage u32
          omega
        · exact .inr ⟨k, by omega, hk', rfl⟩
    · cases h
      exact ⟨rfl, fun p => ⟨.inl, Or.rec id fun ⟨k, hk, hk', _⟩ => absurd hk' (by omega)⟩⟩

/-- Each page of a section gets the bytes at the start of its data. -/
theorem copySection_mem (hp : ProcessPagesOk env inv present) {address src size : ℕ}
    (ha : address % 0x1000 = 0) (hs : size ≤ 4294963200) :
    ∀ {fuel i : ℕ} {l l' : Loader σ}, i % 0x1000 = 0 → inv l.pages →
      copySection env address src size fuel i l = .ok l' →
      Kept inv present l l' ∧ ∀ k, i ≤ k → k < size →
        present l'.pages (sectionPage address k) ∧
          l'.mem (u32 (address + k)) = l.data (u32 (src + k % 0x1000))
  | 0, _, _, _, _, _, h => by simp [copySection] at h
  | fuel + 1, i, l, l', hi, hinv, h => by
    rw [copySection] at h
    split_ifs at h with hlt
    · obtain ⟨l₁, hc, h⟩ := bind_eq_ok.mp h
      obtain ⟨hk₁, hfresh, hpres, hdata, -⟩ :=
        createProcessPage_kept hp hinv (by exact sectionPage_lt address i) hc
      rw [u32_of_lt (by omega : i + 0x1000 < 4294967296)] at h
      obtain ⟨hk₂, hbytes⟩ := copySection_mem hp ha hs (by omega) (by exact hk₁.inv hinv) h
      obtain ⟨chunk, hchunk⟩ : ∃ n, n = min 0x1000 (size - i) := ⟨_, rfl⟩
      rw [← hchunk] at hk₂ hbytes
      -- the chunk is inside the page
      have hpage : ∀ k < chunk, u32 (u32 (address + i) + k) / 0x1000 = u32 (address + i) / 0x1000 :=
        fun k hk => by
          unfold u32
          omega
      refine ⟨⟨fun _ => hk₂.inv (hk₁.inv hinv), fun q hq => hk₂.pages q (hk₁.pages q hq),
        fun x hx => ?_⟩, fun k hk hk' => ?_⟩
      · rw [hk₂.mem x (hk₁.pages _ hx), ← hk₁.mem x hx]
        refine memcpyFrom_of_outside fun k hk he => hfresh ?_
        rw [← hpage k hk, ← he]
        exact hx
      · by_cases hnext : k < i + 0x1000
        · have hsame : sectionPage address k = u32 (address + i) / 0x1000 := by
            unfold sectionPage u32
            omega
          have hat : u32 (address + k) = u32 (u32 (address + i) + (k - i)) := by
            unfold u32
            omega
          refine ⟨hk₂.pages _ (hsame ▸ hpres), ?_⟩
          rw [hk₂.mem _ (show present l₁.pages _ by rw [← sectionPage, hsame]; exact hpres)]
          rw [hat]
          dsimp only
          rw [memcpyFrom_of_inside (by omega) (by omega), hdata, show k - i = k % 0x1000 by omega]
        · rw [← hdata]
          exact hbytes k (by omega) hk'
    · cases h
      exact ⟨Kept.refl _, fun k hk hk' => absurd hk' (by omega)⟩

/-! ## Import sections -/

theorem importSymbols_data {start : ℕ} :
    ∀ {n : ℕ} {l l' : Loader σ} {addr : ℕ},
      importSymbols env start rawxSectionAddressMaximum l n = .ok (l', addr) →
        fillCallAddresses env start l.data n = (l'.data, addr) ∧ l'.pages = l.pages ∧
          l'.sectionPages = l.sectionPages
  | 0, l, l', addr, h => by
    cases h
    exact ⟨rfl, rfl, rfl⟩
  | n + 1, l, l', addr, h => by
    rw [importSymbols] at h
    obtain ⟨⟨l₁, cur⟩, hrec, h⟩ := bind_eq_ok.mp h
    obtain ⟨hfill, hpages, hsp⟩ := importSymbols_data hrec
    obtain ⟨-, -, h⟩ := bind_eq_ok.mp h
    obtain ⟨⟨status, ssi⟩, hget, h⟩ := bind_eq_ok.mp h
    obtain ⟨-, -, h⟩ := bind_eq_ok.mp h
    cases ssi with
    | none => cases h
    | some ssi =>
      obtain ⟨-, -, h⟩ := bind_eq_ok.mp h
      cases h
      refine ⟨?_, hpages, hsp⟩
      rw [fillCallAddresses, hfill]
      dsimp only
      rw [hget]

/-- The stubs go to the import page. -/
theorem importSymbols_mem (hst : StubsFit env) {start : ℕ} :
    ∀ {n : ℕ} {l l' : Loader σ} {addr : ℕ},
      importSymbols env start rawxSectionAddressMaximum l n = .ok (l', addr) →
        rawxSectionAddressMaximum ≤ addr ∧ addr < rawxSectionAddressMaximum + 0x1000 ∧
          ∀ x, x / 0x1000 ≠ rawxSectionAddressMaximum / 0x1000 → l'.mem x = l.mem x
  | 0, l, l', addr, h => by
    cases h
    exact ⟨le_refl _, by omega, fun _ _ => rfl⟩
  | n + 1, l, l', addr, h => by
    rw [importSymbols] at h
    obtain ⟨⟨l₁, cur⟩, hrec, h⟩ := bind_eq_ok.mp h
    obtain ⟨hlo, hhi, hmem⟩ := importSymbols_mem hst hrec
    obtain ⟨-, -, h⟩ := bind_eq_ok.mp h
    obtain ⟨⟨status, ssi⟩, hget, h⟩ := bind_eq_ok.mp h
    obtain ⟨-, -, h⟩ := bind_eq_ok.mp h
    cases ssi with
    | none => cases h
    | some ssi =>
      obtain ⟨_, hroom, h⟩ := bind_eq_ok.mp h
      rw [assert_eq_ok] at hroom
      have hsize := hst _ _ _ hget
      have hmax : rawxSectionAddressMaximum = 0xBF000000 := rfl
      rw [hmax] at hlo hhi hroom ⊢
      have hcur : u32 (cur + ssi.syscallStubSize) = cur + ssi.syscallStubSize :=
        u32_of_lt (by omega)
      have htop : u32 (0xBF000000 + 0x1000) = 0xBF001000 := rfl
      rw [hcur, htop] at hroom
      cases h
      rw [hcur]
      refine ⟨by omega, by omega, fun x hx => ?_⟩
      rw [← hmem x hx]
      refine memcpyFrom_of_outside fun k hk he => hx ?_
      rw [he, u32_of_lt (by omega)]
      omega

/-! ## The sections -/

/-- The checks and the effect of one section. -/
structure SectionLoaded (env : LoaderEnv σ) (i : ℕ) (l l' : Loader σ) : Prop where
  aligned : sectionAddress l.data i % 0x1000 = 0
  below : u32 (sectionAddress l.data i + sectionSizeBytes l.data i) < rawxSectionAddressMaximum
  data : l'.data = resolveSection env l.data i
  pages : ∀ p, p ∈ l'.sectionPages ↔ p ∈ l.sectionPages ∨ sectionKind l.data i ≠ .other ∧
    ∃ k < copiedSize env l.data i, p = sectionPage (sectionAddress l.data i) k

/-- What the process gets from one section. -/
structure SectionCopied (env : LoaderEnv σ) (inv : σ → Prop) (present : σ → ℕ → Prop) (i : ℕ)
    (l l' : Loader σ) : Prop where
  kept : Kept inv present l l'
  bytes : sectionKind l.data i ≠ .other → ∀ k < copiedSize env l.data i,
    present l'.pages (sectionPage (sectionAddress l.data i) k) ∧
      l'.mem (u32 (sectionAddress l.data i + k)) =
        resolveSection env l.data i (u32 (sectionFilePtrToData l.data i + k % 0x1000))

theorem sectionSizeBytes_lt (data : Mem) (i : ℕ) : sectionSizeBytes data i < 4294967296 :=
  load32_lt _ _

/-- A section that is copied is not as long as the address space. -/
theorem copySection_size_le {address src size : ℕ}
    (h : copySection env address src size copyFuel 0 l = .ok l') : size ≤ 4294963200 := by
  by_contra hs
  exact copySection_size (by omega) rfl (by omega) h

theorem resolveSection_of_ne {data : Mem} {i : ℕ} (h : sectionKind data i ≠ .importTable) :
    resolveSection env data i = data := if_neg h

theorem copiedSize_of_ne {data : Mem} {i : ℕ} (h : sectionKind data i ≠ .importTable) :
    copiedSize env data i = sectionSizeBytes data i := by
  unfold copiedSize
  rw [resolveSection_of_ne h]

/-- The file once the imports of section `i` are resolved. -/
theorem importSymbols_resolve {i q user addr : ℕ} {l₁ l₂ : Loader σ}
    (hkind : sectionKind l.data i = .importTable) (hpage : createProcessPage env l q user = .ok l₁)
    (himp : importSymbols env (sectionFilePtrToData l.data i) rawxSectionAddressMaximum l₁
      (symbolCount l.data i) = .ok (l₂, addr)) : l₂.data = resolveSection env l.data i := by
  obtain ⟨pages, -, rfl⟩ := createProcessPage_ok.mp hpage
  obtain ⟨hfill, -, -⟩ := importSymbols_data himp
  unfold resolveSection
  rw [if_pos hkind, hfill]

/-- One pass of the loop, by the kind of the section. -/
theorem loadSection_cases {i : ℕ} {rli rli' : RawxLoadInformation}
    (h : loadSection env i rli l = .ok (rli', l')) :
    sectionAddress l.data i % 0x1000 = 0 ∧
    u32 (sectionAddress l.data i + sectionSizeBytes l.data i) < rawxSectionAddressMaximum ∧
    ((sectionKind l.data i = .other ∧ l' = l) ∨
      ((sectionKind l.data i = .code ∨ sectionKind l.data i = .data) ∧
        copySection env (sectionAddress l.data i) (sectionFilePtrToData l.data i)
          (sectionSizeBytes l.data i) copyFuel 0 l = .ok l') ∨
      (sectionKind l.data i = .importTable ∧ ∃ l₁ l₂ addr,
        createProcessPage env l (rawxSectionAddressMaximum / 0x1000) 1 = .ok l₁ ∧
        importSymbols env (sectionFilePtrToData l.data i) rawxSectionAddressMaximum l₁
          (symbolCount l.data i) = .ok (l₂, addr) ∧
        copySection env (sectionAddress l.data i) (sectionFilePtrToData l.data i)
          (copiedSize env l.data i) copyFuel 0 l₂ = .ok l')) := by
  unfold loadSection at h
  obtain ⟨_, ha, h⟩ := bind_eq_ok.mp h
  obtain ⟨_, hb, h⟩ := bind_eq_ok.mp h
  rw [assert_eq_ok] at ha hb
  refine ⟨ha, hb, ?_⟩
  unfold sectionKind
  split_ifs at h ⊢ with hcode hdata himport
  · obtain ⟨l₁, hc, h⟩ := bind_eq_ok.mp h
    cases h
    exact .inr (.inl ⟨.inl rfl, hc⟩)
  · obtain ⟨l₁, hc, h⟩ := bind_eq_ok.mp h
    cases h
    exact .inr (.inl ⟨.inr rfl, hc⟩)
  · obtain ⟨l₁, hpage, h⟩ := bind_eq_ok.mp h
    obtain ⟨⟨l₂, addr⟩, himp, h⟩ := bind_eq_ok.mp h
    obtain ⟨l₃, hc, h⟩ := bind_eq_ok.mp h
    cases h
    have hkind : sectionKind l.data i = .importTable := by
      rw [sectionKind, if_neg hcode, if_neg hdata, if_pos himport]
    rw [importSymbols_resolve hkind hpage himp] at hc
    exact .inr (.inr ⟨rfl, l₁, l₂, addr, hpage, himp, hc⟩)
  · cases h
    exact .inl ⟨rfl, rfl⟩

theorem loadSection_loaded {i : ℕ} {rli rli' : RawxLoadInformation}
    (h : loadSection env i rli l = .ok (rli', l')) : SectionLoaded env i l l' := by
  obtain ⟨ha, hb, ⟨hkind, rfl⟩ | ⟨hkind, hc⟩ | ⟨hkind, l₁, l₂, addr, hpage, himp, hc⟩⟩ :=
    loadSection_cases h
  · exact ⟨ha, hb, (resolveSection_of_ne (by simp [hkind])).symm, fun p => by simp [hkind]⟩
  · obtain ⟨hd, hp⟩ := copySection_pages ha (copySection_size_le hc) rfl hc
    have hne : sectionKind l.data i ≠ .importTable := by
      rcases hkind with hkind | hkind <;> simp [hkind]
    have hcopy : sectionKind l.data i ≠ .other := by
      rcases hkind with hkind | hkind <;> simp [hkind]
    refine ⟨ha, hb, by rw [hd, resolveSection_of_ne hne], fun p => ?_⟩
    rw [copiedSize_of_ne hne]
    simpa [hcopy] using hp p
  · have hres := importSymbols_resolve hkind hpage himp
    obtain ⟨pages, -, rfl⟩ := createProcessPage_ok.mp hpage
    obtain ⟨-, -, hsp⟩ := importSymbols_data himp
    obtain ⟨hd, hp⟩ := copySection_pages ha (copySection_size_le hc) rfl hc
    refine ⟨ha, hb, hd.trans hres, fun p => ?_⟩
    rw [hp p, hsp]
    simp [hkind]

theorem loadSection_copied (hp : ProcessPagesOk env inv present) (hst : StubsFit env) {i : ℕ}
    {rli rli' : RawxLoadInformation} (hinv : inv l.pages)
    (h : loadSection env i rli l = .ok (rli', l')) : SectionCopied env inv present i l l' := by
  obtain ⟨ha, -, ⟨hkind, rfl⟩ | ⟨hkind, hc⟩ | ⟨hkind, l₁, l₂, addr, hpage, himp, hc⟩⟩ :=
    loadSection_cases h
  · exact ⟨Kept.refl _, fun hne => absurd hkind hne⟩
  · have hne : sectionKind l.data i ≠ .importTable := by
      rcases hkind with hkind | hkind <;> simp [hkind]
    obtain ⟨hk, hb⟩ := copySection_mem hp ha (copySection_size_le hc) rfl hinv hc
    refine ⟨hk, fun _ k hlt => ?_⟩
    rw [copiedSize_of_ne hne] at hlt
    rw [resolveSection_of_ne hne]
    exact hb k (Nat.zero_le k) hlt
  · obtain ⟨hk₁, hfresh, -, -, -⟩ := createProcessPage_kept hp hinv (by decide) hpage
    obtain ⟨-, hpages, -⟩ := importSymbols_data himp
    obtain ⟨-, -, hmem⟩ := importSymbols_mem hst himp
    -- the import page was not present before the section
    have hk₂ : Kept inv present l l₂ := by
      refine ⟨fun h => hpages ▸ hk₁.inv h, fun q hq => hpages ▸ hk₁.pages q hq, fun x hx => ?_⟩
      rw [hmem x fun he => hfresh (he ▸ hx), hk₁.mem x hx]
    obtain ⟨hk, hb⟩ := copySection_mem hp ha (copySection_size_le hc) rfl (hk₂.inv hinv) hc
    refine ⟨hk₂.trans hk, fun _ k hlt => ?_⟩
    rw [← importSymbols_resolve hkind hpage himp]
    exact hb k (Nat.zero_le k) hlt

/-- The run over the sections: what one section does holds of each one that is reached, from the
state in which the loader comes to it, and the later sections keep what it left. -/
theorem loadSections_loaded (data : Mem) :
    ∀ {fuel i : ℕ} {rli rli' : RawxLoadInformation} {l l' : Loader σ},
      l.data = fileAt env data i → (∀ j < i, Reaches env data j) →
      loadSections env fuel i rli l = .ok (rli', l') →
      (∃ n, l'.data = fileAt env data n) ∧
        (∀ j ≥ i, Reaches env data j → sectionAddress (fileAt env data j) j % 0x1000 = 0 ∧
          u32 (sectionAddress (fileAt env data j) j + sectionSizeBytes (fileAt env data j) j) <
            rawxSectionAddressMaximum) ∧
        ∀ p, p ∈ l'.sectionPages ↔ p ∈ l.sectionPages ∨ ∃ j ≥ i, Reaches env data j ∧
          sectionKind (fileAt env data j) j ≠ .other ∧
          ∃ k < copiedSize env (fileAt env data j) j,
            p = sectionPage (sectionAddress (fileAt env data j) j) k
  | 0, _, _, _, _, _, _, _, h => by simp [loadSections] at h
  | fuel + 1, i, rli, rli', l, l', hl, hprev, h => by
    rw [loadSections] at h
    split_ifs at h with hcount
    · obtain ⟨⟨rli₁, l₁⟩, hsec, h⟩ := bind_eq_ok.mp h
      obtain ⟨ha, hb, hd, hp⟩ := loadSection_loaded hsec
      rw [hl] at ha hb hd hp hcount
      have hreach : Reaches env data i := fun j hj => by
        rcases Nat.lt_or_eq_of_le hj with hlt | rfl
        · exact hprev j hlt j (le_refl j)
        · exact hcount
      have hprev' : ∀ j < i + 1, Reaches env data j := fun j hj => by
        rcases Nat.lt_succ_iff_lt_or_eq.mp hj with hlt | rfl
        · exact hprev j hlt
        · exact hreach
      obtain ⟨hn, hchecks, hpages⟩ := loadSections_loaded data hd hprev' h
      refine ⟨hn, fun j hj hr => ?_, fun p => ?_⟩
      · rcases Nat.eq_or_lt_of_le hj with rfl | hlt
        · exact ⟨ha, hb⟩
        · exact hchecks j hlt hr
      · rw [hpages p, hp p, or_assoc]
        refine or_congr_right ⟨?_, ?_⟩
        · rintro (⟨hkind, hk⟩ | ⟨j, hj, hrest⟩)
          · exact ⟨i, le_refl i, hreach, hkind, hk⟩
          · exact ⟨j, by omega, hrest⟩
        · rintro ⟨j, hj, hr, hkind, hk⟩
          rcases Nat.eq_or_lt_of_le hj with rfl | hlt
          · exact .inl ⟨hkind, hk⟩
          · exact .inr ⟨j, hlt, hr, hkind, hk⟩
    · cases h
      -- no section from `i` on is reached
      have hstop : ∀ j ≥ i, ¬ Reaches env data j := fun j hj hr => hcount (hl ▸ hr i hj)
      exact ⟨⟨i, hl⟩, fun j hj hr => absurd hr (hstop j hj),
        fun p => ⟨.inl, Or.rec id fun ⟨j, hj, hr, _⟩ => absurd hr (hstop j hj)⟩⟩

theorem loadSections_copied (hp : ProcessPagesOk env inv present) (hst : StubsFit env) (data : Mem) :
    ∀ {fuel i : ℕ} {rli rli' : RawxLoadInformation} {l l' : Loader σ},
      l.data = fileAt env data i → inv l.pages → loadSections env fuel i rli l = .ok (rli', l') →
      Kept inv present l l' ∧ ∀ j ≥ i, Reaches env data j → sectionKind (fileAt env data j) j ≠ .other →
        ∀ k < copiedSize env (fileAt env data j) j,
          present l'.pages (sectionPage (sectionAddress (fileAt env data j) j) k) ∧
            l'.mem (u32 (sectionAddress (fileAt env data j) j + k)) = fileAt env data (j + 1)
              (u32 (sectionFilePtrToData (fileAt env data j) j + k % 0x1000))
  | 0, _, _, _, _, _, _, _, h => by simp [loadSections] at h
  | fuel + 1, i, rli, rli', l, l', hl, hinv, h => by
    rw [loadSections] at h
    split_ifs at h with hcount
    · obtain ⟨⟨rli₁, l₁⟩, hsec, h⟩ := bind_eq_ok.mp h
      obtain ⟨hk₁, hbytes₁⟩ := loadSection_copied hp hst hinv hsec
      have hd := (loadSection_loaded hsec).data
      rw [hl] at hbytes₁ hd
      obtain ⟨hk₂, hbytes₂⟩ := loadSections_copied hp hst data hd (hk₁.inv hinv) h
      refine ⟨hk₁.trans hk₂, fun j hj hr hkind k hk => ?_⟩
      rcases Nat.eq_or_lt_of_le hj with rfl | hlt
      · obtain ⟨hpres, hbyte⟩ := hbytes₁ hkind k hk
        exact ⟨hk₂.pages _ hpres, by rw [hk₂.mem _ hpres, hbyte]; rfl⟩
      · exact hbytes₂ j hlt hr hkind k hk
    · cases h
      exact ⟨Kept.refl _, fun j hj hr => absurd (hl ▸ hr i hj) hcount⟩

theorem createStackPages_keeps {address user : ℕ} :
    ∀ {n : ℕ} {l l' : Loader σ}, createStackPages env address user l n = .ok l' →
      l'.data = l.data ∧ l'.sectionPages = l.sectionPages
  | 0, _, _, h => by
    cases h
    exact ⟨rfl, rfl⟩
  | n + 1, l, l', h => by
    rw [createStackPages] at h
    obtain ⟨l₁, hrec, h⟩ := bind_eq_ok.mp h
    obtain ⟨pages, -, rfl⟩ := createProcessPage_ok.mp h
    have hkeep := createStackPages_keeps hrec
    exact hkeep

/-- The pages of a stack are page numbers. -/
theorem stackPage_lt {address k : ℕ} (ha : address < 4294967296) (hk : k ≤ address / 0x1000) :
    u32Sub (address / 0x1000) k = address / 0x1000 - k ∧ address / 0x1000 - k < 0x100000 := by
  rw [u32Sub_of_le hk (by omega)]
  exact ⟨rfl, by omega⟩

theorem createStackPages_kept (hp : ProcessPagesOk env inv present) {address user : ℕ}
    (ha : address < 4294967296) :
    ∀ {n : ℕ} {l l' : Loader σ}, n ≤ address / 0x1000 + 1 → inv l.pages →
      createStackPages env address user l n = .ok l' → Kept inv present l l'
  | 0, _, _, _, _, h => by
    cases h
    exact Kept.refl _
  | n + 1, l, l', hn, hinv, h => by
    rw [createStackPages] at h
    obtain ⟨l₁, hrec, h⟩ := bind_eq_ok.mp h
    have hk := createStackPages_kept hp ha (by omega) hinv hrec
    obtain ⟨hpage, hlt⟩ := stackPage_lt ha (show n ≤ address / 0x1000 by omega)
    rw [hpage] at h
    exact hk.trans (createProcessPage_kept hp (hk.inv hinv) hlt h).1

/-! ## The load -/

/-- The stack of an image whose file is `data`. -/
structure StackFields (data : Mem) : Prop where
  pos : 0 < headerStackSize data
  aligned : headerStackSize data % 0x1000 = 0
  fits : headerStackSize data / 0x1000 ≤ rawxStackAddressMaxReservedPages

/-- A load that returns: the header was accepted, then there were the sections, the stack, and the
kernel's stack. -/
structure RawxLoaded (env : LoaderEnv σ) (length : ℤ) (stack kernelStack : Bool)
    (rli : RawxLoadInformation) (l l' : Loader σ) : Prop where
  header : checkHeader l.data length = .ok ()
  parts : ∃ rli₁ l₁ l₂, loadSections env sectionFuel 0 ⟨none, none, none, none⟩ l = .ok (rli₁, l₁) ∧
    (if stack then StackFields l₁.data ∧ rli.stackAddress = some rawxStackAddress ∧
        createStackPages env rawxStackAddress 1 l₁ (headerStackSize l₁.data / 0x1000) = .ok l₂
      else l₂ = l₁) ∧
    if kernelStack then createStackPages env kernelStackAddressInProcessAddressSpace 0 l₂
        kernelStackReservedPagesInProcessAddressSpace = .ok l'
      else l' = l₂
  entrypoint : rli.entrypoint = some (u32 (headerLoadAddress l'.data + headerEntryPointOffset l'.data))

theorem rawxLoad_loaded {length : ℤ} {stack kernelStack : Bool} {rli : RawxLoadInformation}
    (h : rawxLoad env length stack kernelStack l = .ok (rli, l')) :
    RawxLoaded env length stack kernelStack rli l l' := by
  unfold rawxLoad at h
  obtain ⟨⟨⟩, hheader, h⟩ := bind_eq_ok.mp h
  obtain ⟨⟨rli₁, l₁⟩, hsec, h⟩ := bind_eq_ok.mp h
  dsimp only at h
  obtain ⟨⟨rli₂, l₂⟩, hstack, h⟩ := bind_eq_ok.mp h
  dsimp only at h
  obtain ⟨l₃, hkernel, h⟩ := bind_eq_ok.mp h
  cases h
  refine ⟨hheader, ⟨rli₁, l₁, l₂, hsec, ?_, ?_⟩, rfl⟩
  · unfold createStack at hstack
    cases stack with
    | true =>
      rw [if_pos rfl] at hstack ⊢
      obtain ⟨_, hpos, hstack⟩ := bind_eq_ok.mp hstack
      obtain ⟨_, hmod, hstack⟩ := bind_eq_ok.mp hstack
      obtain ⟨_, hfits, hstack⟩ := bind_eq_ok.mp hstack
      obtain ⟨l₄, hpages, hstack⟩ := bind_eq_ok.mp hstack
      cases hstack
      rw [assert_eq_ok] at hpos hmod hfits
      exact ⟨⟨hpos, hmod, hfits⟩, rfl, hpages⟩
    | false =>
      rw [if_neg Bool.false_ne_true] at hstack ⊢
      cases hstack
      rfl
  · unfold createKernelStack at hkernel
    cases kernelStack with
    | true =>
      rw [if_pos rfl] at hkernel ⊢
      exact hkernel
    | false =>
      rw [if_neg Bool.false_ne_true] at hkernel ⊢
      cases hkernel
      rfl

/-- The stacks of a load, without their checks. -/
theorem rawxLoad_cases {length : ℤ} {stack kernelStack : Bool} {rli : RawxLoadInformation}
    (h : rawxLoad env length stack kernelStack l = .ok (rli, l')) :
    ∃ rli₁ l₁ l₂, loadSections env sectionFuel 0 ⟨none, none, none, none⟩ l = .ok (rli₁, l₁) ∧
      (l₂ = l₁ ∨ ∃ n ≤ 2048, createStackPages env rawxStackAddress 1 l₁ n = .ok l₂) ∧
      (l' = l₂ ∨ ∃ n ≤ 2048,
        createStackPages env kernelStackAddressInProcessAddressSpace 0 l₂ n = .ok l') := by
  obtain ⟨rli₁, l₁, l₂, hsec, hstack, hkernel⟩ := (rawxLoad_loaded h).parts
  refine ⟨rli₁, l₁, l₂, hsec, ?_, ?_⟩
  · split_ifs at hstack
    · obtain ⟨hfields, -, hpages⟩ := hstack
      exact .inr ⟨_, hfields.fits, hpages⟩
    · exact .inl hstack
  · split_ifs at hkernel
    · exact .inr ⟨_, le_rfl, hkernel⟩
    · exact .inl hkernel

/-- The byte range of a page lies between the lowest load address and the import area. -/
def InSectionArea (p : ℕ) : Prop :=
  rawxLoadAddressMinimum ≤ p * 0x1000 ∧ p * 0x1000 + 0x1000 ≤ rawxSectionAddressMaximum

/-- A section of at least one page: all its pages are in the section area just when it starts and
ends there. -/
theorem sectionPages_inArea_iff {address size : ℕ} (ha : address % 0x1000 = 0)
    (hlt : address < 4294967296) (hs : 0 < size) :
    (∀ k < size, InSectionArea (sectionPage address k)) ↔
      rawxLoadAddressMinimum ≤ address ∧ address + size ≤ rawxSectionAddressMaximum := by
  have hmin : rawxLoadAddressMinimum = 0x40000000 := rfl
  have hmax : rawxSectionAddressMaximum = 0xBF000000 := rfl
  unfold InSectionArea sectionPage
  rw [hmin, hmax]
  constructor
  · intro h
    have hfirst := h 0 hs
    unfold u32 at hfirst
    refine ⟨by omega, ?_⟩
    by_contra hend
    -- the first page above the area
    have hlast := h (0xBF000000 - address) (by omega)
    unfold u32 at hlast
    omega
  · rintro ⟨hlo, hend⟩ k hk
    rw [u32_of_lt (by omega)]
    omega

/-- Page `p` belongs to a section of the file that is copied. -/
def CopiedPage (env : LoaderEnv σ) (data : Mem) (p : ℕ) : Prop :=
  ∃ i, Reaches env data i ∧ sectionKind (fileAt env data i) i ≠ .other ∧
    ∃ k < copiedSize env (fileAt env data i) i,
      p = sectionPage (sectionAddress (fileAt env data i) i) k

/-- The pages that a load creates for sections, and the checks that the sections have passed. -/
theorem rawxLoad_sectionPages {length : ℤ} {stack kernelStack : Bool} {rli : RawxLoadInformation}
    (hl : l.sectionPages = []) (h : rawxLoad env length stack kernelStack l = .ok (rli, l')) :
    (∀ i, Reaches env l.data i → sectionAddress (fileAt env l.data i) i % 0x1000 = 0 ∧
      u32 (sectionAddress (fileAt env l.data i) i + sectionSizeBytes (fileAt env l.data i) i) <
        rawxSectionAddressMaximum) ∧
    ∀ p, p ∈ l'.sectionPages ↔ CopiedPage env l.data p := by
  obtain ⟨rli₁, l₁, l₂, hsec, hstack, hkernel⟩ := rawxLoad_cases h
  obtain ⟨-, hchecks, hpages⟩ := loadSections_loaded l.data rfl
    (fun j hj => absurd hj (Nat.not_lt_zero j)) hsec
  have h₂ : l₂.sectionPages = l₁.sectionPages := by
    rcases hstack with rfl | ⟨n, hn⟩
    · rfl
    · exact (createStackPages_keeps hn.2).2
  have h' : l'.sectionPages = l₁.sectionPages := by
    rcases hkernel with rfl | ⟨n, hn⟩
    · exact h₂
    · rw [(createStackPages_keeps hn.2).2, h₂]
  refine ⟨fun i => hchecks i (Nat.zero_le i), fun p => ?_⟩
  rw [h', hpages p, hl]
  simp [CopiedPage]

/-- The pages that a load creates for sections are in the section area just when every section that
is copied starts at 1GB or above and ends at the import area or below, without a wrap. -/
theorem rawxLoad_sectionPages_iff (length : ℤ) (stack kernelStack : Bool)
    (rli : RawxLoadInformation) (hl : l.sectionPages = [])
    (h : rawxLoad env length stack kernelStack l = .ok (rli, l')) :
    (∀ p ∈ l'.sectionPages, InSectionArea p) ↔
      ∀ i, Reaches env l.data i → sectionKind (fileAt env l.data i) i ≠ .other →
        0 < copiedSize env (fileAt env l.data i) i →
        rawxLoadAddressMinimum ≤ sectionAddress (fileAt env l.data i) i ∧
          sectionAddress (fileAt env l.data i) i + copiedSize env (fileAt env l.data i) i ≤
            rawxSectionAddressMaximum := by
  obtain ⟨hchecks, hpages⟩ := rawxLoad_sectionPages hl h
  constructor
  · intro hall i hr hkind hs
    obtain ⟨ha, -⟩ := hchecks i hr
    refine (sectionPages_inArea_iff ha (u32_lt _) hs).mp fun k hk => hall _ ?_
    exact (hpages _).mpr ⟨i, hr, hkind, k, hk, rfl⟩
  · intro hall p hp
    obtain ⟨i, hr, hkind, k, hk, rfl⟩ := (hpages p).mp hp
    obtain ⟨ha, -⟩ := hchecks i hr
    have hs : 0 < copiedSize env (fileAt env l.data i) i := by omega
    exact (sectionPages_inArea_iff ha (u32_lt _) hs).mpr (hall i hr hkind hs) k hk

/-- Offset `o` of the file belongs to a call address that section `i` has filled in. -/
def CallAddressField (data : Mem) (i o : ℕ) : Prop :=
  sectionKind data i = .importTable ∧ ∃ n < symbolCount data i, ∃ t < 4,
    o = u32 (importAddress (sectionFilePtrToData data i) n + 8 + t)

/-- The sections of the file `data` stand in the memory `mem` of the process. -/
def SectionsLoaded (env : LoaderEnv σ) (data mem : Mem) : Prop :=
  ∀ i, Reaches env data i → sectionKind (fileAt env data i) i ≠ .other →
    ∀ k < copiedSize env (fileAt env data i) i,
      ¬ CallAddressField (fileAt env data i) i (u32 (sectionFilePtrToData (fileAt env data i) i + k)) →
      mem (u32 (sectionAddress (fileAt env data i) i + k)) =
        data (u32 (sectionFilePtrToData (fileAt env data i) i + k))

/-- The data of each section repeats after `0x1000` bytes: every byte equals the one at the same
offset of the first page, as the file stands when the section is copied. -/
def SectionsRepeat (env : LoaderEnv σ) (data : Mem) : Prop :=
  ∀ i, Reaches env data i → sectionKind (fileAt env data i) i ≠ .other →
    ∀ k < copiedSize env (fileAt env data i) i,
      ¬ CallAddressField (fileAt env data i) i (u32 (sectionFilePtrToData (fileAt env data i) i + k)) →
      fileAt env data (i + 1) (u32 (sectionFilePtrToData (fileAt env data i) i + k % 0x1000)) =
        data (u32 (sectionFilePtrToData (fileAt env data i) i + k))

/-- The stacks keep what the sections have loaded. -/
theorem rawxLoad_stacksKept (hp : ProcessPagesOk env inv present) {l₁ l₂ : Loader σ}
    (hinv : inv l₁.pages)
    (hstack : l₂ = l₁ ∨ ∃ n ≤ 2048, createStackPages env rawxStackAddress 1 l₁ n = .ok l₂)
    (hkernel : l' = l₂ ∨ ∃ n ≤ 2048,
      createStackPages env kernelStackAddressInProcessAddressSpace 0 l₂ n = .ok l') :
    Kept inv present l₁ l' := by
  have h₂ : Kept inv present l₁ l₂ := by
    rcases hstack with rfl | ⟨n, hn, hcreate⟩
    · exact Kept.refl _
    · exact createStackPages_kept hp (by decide) (le_trans hn (by decide)) hinv hcreate
  rcases hkernel with rfl | ⟨n, hn, hcreate⟩
  · exact h₂
  · exact h₂.trans
      (createStackPages_kept hp (by decide) (le_trans hn (by decide)) (h₂.inv hinv) hcreate)

/-- The bytes that the process gets: each page of a section the first `0x1000` bytes of its data.
The pages are present. -/
theorem rawxLoad_bytes (hp : ProcessPagesOk env inv present) (hst : StubsFit env) {length : ℤ}
    {stack kernelStack : Bool} {rli : RawxLoadInformation} (hinv : inv l.pages)
    (h : rawxLoad env length stack kernelStack l = .ok (rli, l')) :
    ∀ i, Reaches env l.data i → sectionKind (fileAt env l.data i) i ≠ .other →
      ∀ k < copiedSize env (fileAt env l.data i) i,
        present l'.pages (u32 (sectionAddress (fileAt env l.data i) i + k) / 0x1000) ∧
        l'.mem (u32 (sectionAddress (fileAt env l.data i) i + k)) = fileAt env l.data (i + 1)
          (u32 (sectionFilePtrToData (fileAt env l.data i) i + k % 0x1000)) := by
  intro i hr hkind k hk
  obtain ⟨rli₁, l₁, l₂, hsec, hstack, hkernel⟩ := rawxLoad_cases h
  obtain ⟨hkept, hbytes⟩ := loadSections_copied hp hst l.data rfl hinv hsec
  have h₁ := rawxLoad_stacksKept hp (hkept.inv hinv) hstack hkernel
  obtain ⟨hpres, hmem⟩ := hbytes i (Nat.zero_le i) hr hkind k hk
  exact ⟨h₁.pages _ hpres, (h₁.mem _ hpres).trans hmem⟩

/-- `section_data` does not move with the pages: a load puts the bytes of the file in place just
when the later pages of each section repeat its first one. -/
theorem rawxLoad_sectionsLoaded_iff (hp : ProcessPagesOk env inv present) (hst : StubsFit env)
    (length : ℤ) (stack kernelStack : Bool) (rli : RawxLoadInformation) (hinv : inv l.pages)
    (h : rawxLoad env length stack kernelStack l = .ok (rli, l')) :
    SectionsLoaded env l.data l'.mem ↔ SectionsRepeat env l.data := by
  have hbyte := rawxLoad_bytes hp hst hinv h
  constructor
  · intro hall i hr hkind k hk hfield
    rw [← (hbyte i hr hkind k hk).2, hall i hr hkind k hk hfield]
  · intro hall i hr hkind k hk hfield
    rw [(hbyte i hr hkind k hk).2, hall i hr hkind k hk hfield]

/-! ## Two files -/

/-- A process whose pages are a list, with the assertion of
`paging_create_process_page_with_any_frame`, and no stubs. -/
def listEnv : LoaderEnv (List ℕ) where
  createProcessPage pageNum _ pages :=
    if pageNum ∈ pages then
      .error (.assertFailed "Trying to create page that already exists (%u) (0x%x)!")
    else .ok (pageNum :: pages)
  syscallStubs := ⟨1, 0, 4, 8, fun _ _ => false, fun _ => 0, fun _ => none⟩
  code := fun _ => 0

theorem listEnv_pagesOk : ProcessPagesOk listEnv (fun _ => True) fun pages p => p ∈ pages where
  step _ _ _ := trivial
  fresh {p user s s'} _ _ h hp := by
    unfold listEnv at h
    simp [hp] at h
  created {p user s s'} _ _ h := by
    unfold listEnv at h
    dsimp only at h
    split_ifs at h
    cases h
    exact List.mem_cons_self
  keeps {p user s s' q} _ _ h hq := by
    unfold listEnv at h
    dsimp only at h
    split_ifs at h
    cases h
    exact List.mem_cons_of_mem _ hq

theorem listEnv_stubsFit : StubsFit listEnv := by
  intro name status ssi h
  cases h

/-- A file with a stack of one page and one section `.code`, whose data starts at offset 0. -/
def codeFile (size virtualAddress : List UInt8) : Mem := fun x =>
  (['R', 'A', 'W', 'X'].map Char.toUInt8 ++ [0, 0, 0, 0, 1, 0, 0, 0, 0, 0, 0, 0x40, 0, 0, 0, 0,
    0, 0x10, 0, 0, 1, 0, 0, 0] ++ codeName.map Char.toUInt8 ++ [0, 0, 0] ++ size ++ virtualAddress ++
    [0, 0, 0, 0]).getD x 0

theorem createProcessPage_listEnv {l : Loader (List ℕ)} {p user : ℕ} (h : p ∉ l.pages) :
    createProcessPage listEnv l p user =
      .ok { l with pages := p :: l.pages, mem := store8 l.mem (p * 0x1000) 0xAB } :=
  createProcessPage_ok.mpr ⟨p :: l.pages, if_neg h, rfl⟩

theorem copySection_step {address src size fuel i : ℕ} {l₁ : Loader σ} (h : i < size)
    (hc : createProcessPage env l (u32 (address + i) / 0x1000) 1 = .ok l₁) :
    copySection env address src size (fuel + 1) i l =
      copySection env address src size fuel (u32 (i + 0x1000))
        { l₁ with
          mem := memcpyFrom l₁.mem (u32 (address + i)) l₁.data src (min 0x1000 (size - i))
          sectionPages := l₁.sectionPages ++ [u32 (address + i) / 0x1000] } := by
  rw [copySection, if_pos h]
  dsimp only
  rw [hc, ok_bind]

theorem copySection_done {address src size fuel i : ℕ} (h : size ≤ i) :
    copySection env address src size (fuel + 1) i l = .ok l := by
  rw [copySection, if_neg (by omega)]

/-- The load of a file with one section, once its data is copied. -/
theorem codeFile_loads {size virtualAddress : List UInt8} {length : ℤ} {l₀ : Loader (List ℕ)}
    (hfile : l₀.data = codeFile size virtualAddress)
    (hheader : checkHeader (codeFile size virtualAddress) length = .ok ())
    (hsection : headerSectionCount (codeFile size virtualAddress) = 1 ∧
      sectionHasName (codeFile size virtualAddress) 0 codeName ∧
      headerStackSize (codeFile size virtualAddress) = 0x1000 ∧
      sectionAddress (codeFile size virtualAddress) 0 % 0x1000 = 0 ∧
      u32 (sectionAddress (codeFile size virtualAddress) 0 +
        sectionSizeBytes (codeFile size virtualAddress) 0) < rawxSectionAddressMaximum)
    (hcopy : ∃ l₁, copySection listEnv (sectionAddress (codeFile size virtualAddress) 0)
        (sectionFilePtrToData (codeFile size virtualAddress) 0)
        (sectionSizeBytes (codeFile size virtualAddress) 0) copyFuel 0 l₀ = .ok l₁ ∧
      l₁.data = l₀.data ∧ 0xC0000 ∉ l₁.pages) :
    ∃ rli l', rawxLoad listEnv length true false l₀ = .ok (rli, l') := by
  obtain ⟨l₁, hcopy, hdata, hstack⟩ := hcopy
  obtain ⟨hcount, hname, hsize, halign, hbelow⟩ := hsection
  rw [← hfile] at hheader hcount hname hsize halign hbelow hcopy
  have hsec : loadSection listEnv 0 ⟨none, none, none, none⟩ l₀ =
      .ok (⟨some (sectionAddress l₀.data 0), none, none, none⟩, l₁) := by
    unfold loadSection
    dsimp only
    rw [assert_of_true halign, assert_of_true hbelow, if_pos hname, hcopy]
    rfl
  have hsecs : loadSections listEnv sectionFuel 0 ⟨none, none, none, none⟩ l₀ =
      .ok (⟨some (sectionAddress l₀.data 0), none, none, none⟩, l₁) := by
    rw [show sectionFuel = 4294967294 + 1 + 1 from rfl, loadSections, if_pos (by omega), hsec,
      ok_bind]
    dsimp only
    rw [loadSections, if_neg (by rw [hdata]; omega)]
  rw [← hdata] at hsize
  have hpage : createStackPages listEnv rawxStackAddress 1 l₁ 1 =
      .ok { l₁ with pages := 0xC0000 :: l₁.pages, mem := store8 l₁.mem (0xC0000 * 0x1000) 0xAB } := by
    rw [createStackPages, createStackPages, ok_bind]
    exact createProcessPage_listEnv hstack
  have hstacks : createStack listEnv true ⟨some (sectionAddress l₀.data 0), none, none, none⟩ l₁ =
      .ok (⟨some (sectionAddress l₀.data 0), none, some rawxStackAddress, none⟩,
        { l₁ with
          pages := 0xC0000 :: l₁.pages
          mem := store8 l₁.mem (0xC0000 * 0x1000) 0xAB }) := by
    unfold createStack
    rw [if_pos rfl, hsize]
    dsimp only
    rw [assert_of_true (by decide), assert_of_true (by decide), assert_of_true (by decide),
      ok_bind, ok_bind, ok_bind, hpage]
    rfl
  unfold rawxLoad
  rw [hheader, hsecs, ok_bind, ok_bind]
  dsimp only
  rw [hstacks, ok_bind]
  exact ⟨_, _, rfl⟩

/-- A section of two pages. -/
theorem twoPages_loads : ∃ rli l', rawxLoad listEnv 0x2000 true false
    ⟨[], fun _ => 0, codeFile [0, 0x20, 0, 0] [0, 0, 0, 0], []⟩ = .ok (rli, l') := by
  have haddr : sectionAddress (codeFile [0, 0x20, 0, 0] [0, 0, 0, 0]) 0 = 0x40000000 := by decide
  have hsize : sectionSizeBytes (codeFile [0, 0x20, 0, 0] [0, 0, 0, 0]) 0 = 0x2000 := by decide
  refine codeFile_loads rfl (by decide) (by decide) ?_
  rw [haddr, hsize, show copyFuel = 1048574 + 1 + 1 + 1 from rfl,
    copySection_step (by decide) (createProcessPage_listEnv (by decide)),
    copySection_step (by decide) (createProcessPage_listEnv (by decide)),
    copySection_done (by decide)]
  exact ⟨_, rfl, rfl, by decide⟩

/-- A section whose address is below 1GB: the sum with the load address wraps. -/
theorem lowSection_loads : ∃ rli l', rawxLoad listEnv 0x2000 true false
    ⟨[], fun _ => 0, codeFile [1, 0, 0, 0] [0, 0, 0, 0xC8], []⟩ = .ok (rli, l') := by
  have haddr : sectionAddress (codeFile [1, 0, 0, 0] [0, 0, 0, 0xC8]) 0 = 0x08000000 := by decide
  have hsize : sectionSizeBytes (codeFile [1, 0, 0, 0] [0, 0, 0, 0xC8]) 0 = 1 := by decide
  refine codeFile_loads rfl (by decide) (by decide) ?_
  rw [haddr, hsize, show copyFuel = 1048575 + 1 + 1 from rfl,
    copySection_step (by decide) (createProcessPage_listEnv (by decide)),
    copySection_done (by decide)]
  exact ⟨_, rfl, rfl, by decide⟩

theorem reaches_zero {data : Mem} (h : headerSectionCount data = 1) : Reaches env data 0 := by
  intro j hj
  obtain rfl : j = 0 := by omega
  rw [fileAt, h]
  omega

/-- The pages of a section below 1GB are created there. -/
theorem not_inSectionArea_lowSection : ∃ rli l', rawxLoad listEnv 0x2000 true false
    ⟨[], fun _ => 0, codeFile [1, 0, 0, 0] [0, 0, 0, 0xC8], []⟩ = .ok (rli, l') ∧
      ¬ ∀ p ∈ l'.sectionPages, InSectionArea p := by
  obtain ⟨rli, l', h⟩ := lowSection_loads
  refine ⟨rli, l', h, fun hall => ?_⟩
  have hpage : 0x8000 ∈ l'.sectionPages := ((rawxLoad_sectionPages rfl h).2 _).mpr
    ⟨0, reaches_zero (by decide), by rw [fileAt]; decide, 0, by rw [fileAt]; decide,
      by rw [fileAt]; decide⟩
  exact absurd (hall _ hpage).1 (by decide)

/-- A file with one section reaches no other. -/
theorem Reaches.eq_zero {data : Mem} {i : ℕ} (h : headerSectionCount (fileAt env data 1) = 1)
    (hr : Reaches env data i) : i = 0 := by
  by_contra hi
  have hone := hr 1 (by omega)
  rw [h] at hone
  exact absurd hone (by omega)

theorem inSectionArea_twoPages : ∃ rli l', rawxLoad listEnv 0x2000 true false
    ⟨[], fun _ => 0, codeFile [0, 0x20, 0, 0] [0, 0, 0, 0], []⟩ = .ok (rli, l') ∧
      ∀ p ∈ l'.sectionPages, InSectionArea p := by
  obtain ⟨rli, l', h⟩ := twoPages_loads
  refine ⟨rli, l', h, (rawxLoad_sectionPages_iff 0x2000 true false rli rfl h).mpr ?_⟩
  intro i hr _ _
  obtain rfl := hr.eq_zero (by decide)
  rw [fileAt]
  decide

/-- The second page of a section does not get its own bytes. -/
theorem not_sectionsLoaded_twoPages : ∃ rli l', rawxLoad listEnv 0x2000 true false
    ⟨[], fun _ => 0, codeFile [0, 0x20, 0, 0] [0, 0, 0, 0], []⟩ = .ok (rli, l') ∧
      ¬ SectionsLoaded listEnv (codeFile [0, 0x20, 0, 0] [0, 0, 0, 0]) l'.mem := by
  obtain ⟨rli, l', h⟩ := twoPages_loads
  refine ⟨rli, l', h, fun hall => ?_⟩
  have hr : Reaches listEnv (codeFile [0, 0x20, 0, 0] [0, 0, 0, 0]) 0 := reaches_zero (by decide)
  have hkind : sectionKind (codeFile [0, 0x20, 0, 0] [0, 0, 0, 0]) 0 = .code := by decide
  have hwant := hall 0 hr (by rw [fileAt, hkind]; decide) 0x1000 (by rw [fileAt]; decide) fun hf => by
    rw [CallAddressField, fileAt, hkind] at hf
    exact absurd hf.1 (by decide)
  obtain ⟨-, hgot⟩ := rawxLoad_bytes listEnv_pagesOk listEnv_stubsFit trivial h 0 hr
    (by rw [fileAt, hkind]; decide) 0x1000 (by rw [fileAt]; decide)
  dsimp only at hgot
  have hfile : fileAt listEnv (codeFile [0, 0x20, 0, 0] [0, 0, 0, 0]) (0 + 1) =
      codeFile [0, 0x20, 0, 0] [0, 0, 0, 0] := resolveSection_of_ne (by rw [fileAt, hkind]; decide)
  rw [hgot, hfile, fileAt] at hwant
  revert hwant
  decide

theorem sectionsLoaded_lowSection : ∃ rli l', rawxLoad listEnv 0x2000 true false
    ⟨[], fun _ => 0, codeFile [1, 0, 0, 0] [0, 0, 0, 0xC8], []⟩ = .ok (rli, l') ∧
      SectionsLoaded listEnv (codeFile [1, 0, 0, 0] [0, 0, 0, 0xC8]) l'.mem := by
  obtain ⟨rli, l', h⟩ := lowSection_loads
  refine ⟨rli, l', h, (rawxLoad_sectionsLoaded_iff listEnv_pagesOk listEnv_stubsFit 0x2000 true false
    rli trivial h).mpr ?_⟩
  intro i hr _ k hk _
  obtain rfl := hr.eq_zero (by decide)
  have hkind : sectionKind (codeFile [1, 0, 0, 0] [0, 0, 0, 0xC8]) 0 = .code := by decide
  have hsize : sectionSizeBytes (codeFile [1, 0, 0, 0] [0, 0, 0, 0xC8]) 0 = 1 := by decide
  dsimp only [fileAt] at hk ⊢
  rw [copiedSize_of_ne (by rw [hkind]; decide), hsize] at hk
  obtain rfl : k = 0 := by omega
  rw [resolveSection_of_ne (by rw [hkind]; decide)]

end RawOS
