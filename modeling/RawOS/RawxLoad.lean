import RawOS.RawxSpec

/-!
# A load step by step

The imports of the sections that a load reaches are known. A property of the loader that the
creation of a page keeps holds after a load (`LoaderInv.rawxLoad`).
-/

namespace RawOS

section

variable {σ : Type} {env : LoaderEnv σ} {l l' : Loader σ} {rli rli' : RawxLoadInformation}

/-! ## Imports -/

/-- Symbol `n` of the import table at `start` is one of the kernel's, and it has a stub. -/
def ImportKnown (env : LoaderEnv σ) (start : ℕ) (data : Mem) (n : ℕ) : Prop :=
  let file := (fillCallAddresses env start data n).1
  strcmp (fileString file (start + file32 file (importAddress start n + 4))) rawxKernelLibName = 0 ∧
    ∃ ssi, syscallStubGet env (fileString file (start + file32 file (importAddress start n))) =
      .ok (0, some ssi)

theorem importSymbols_known {start : ℕ} :
    ∀ {n : ℕ} {l l' : Loader σ} {addr : ℕ},
      importSymbols env start rawxSectionAddressMaximum l n = .ok (l', addr) →
        ∀ k < n, ImportKnown env start l.data k
  | 0, _, _, _, _ => fun k hk => absurd hk (Nat.not_lt_zero k)
  | n + 1, l, l', addr, h => by
    rw [importSymbols] at h
    obtain ⟨⟨l₁, cur⟩, hrec, h⟩ := bind_eq_ok.mp h
    obtain ⟨hfill, -, -⟩ := importSymbols_data hrec
    obtain ⟨_, hlib, h⟩ := bind_eq_ok.mp h
    obtain ⟨⟨status, ssi⟩, hget, h⟩ := bind_eq_ok.mp h
    obtain ⟨_, hstatus, h⟩ := bind_eq_ok.mp h
    rw [assert_eq_ok] at hlib hstatus
    intro k hk
    rcases Nat.lt_succ_iff_lt_or_eq.mp hk with hlt | rfl
    · exact importSymbols_known hrec k hlt
    · cases ssi with
      | none => cases h
      | some ssi =>
        unfold ImportKnown
        rw [hfill]
        exact ⟨hlib, ssi, by rw [hget, hstatus]⟩

/-- What the creation of the pages of sections keeps, and does not depend on the bytes. -/
structure SectionInv (env : LoaderEnv σ) (P : Loader σ → Prop) : Prop where
  bytes : ∀ l m data, P l → P { l with mem := m, data := data }
  importPage : ∀ l l', P l →
    createProcessPage env l (rawxSectionAddressMaximum / 0x1000) 1 = .ok l' → P l'
  copied : ∀ l l' p, p < 0x100000 → P l → createProcessPage env l p 1 = .ok l' →
    P { l' with sectionPages := l'.sectionPages ++ [p] }

namespace SectionInv

variable {P : Loader σ → Prop}

theorem copySection (hP : SectionInv env P) {address src size : ℕ} :
    ∀ {fuel i : ℕ} {l l' : Loader σ}, P l →
      copySection env address src size fuel i l = .ok l' → P l'
  | 0, _, _, _, _, h => by simp [RawOS.copySection] at h
  | fuel + 1, i, l, l', hl, h => by
    rw [RawOS.copySection] at h
    split_ifs at h with hlt
    · obtain ⟨l₁, hpage, h⟩ := bind_eq_ok.mp h
      have hlt' := u32_lt (address + i)
      exact hP.copySection (hP.bytes _ _ l₁.data (hP.copied l l₁ _ (by omega) hl hpage)) h
    · cases h
      exact hl

theorem importSymbols (hP : SectionInv env P) {start addr : ℕ} :
    ∀ {n : ℕ} {l l' : Loader σ} {addr' : ℕ}, P l →
      importSymbols env start addr l n = .ok (l', addr') → P l'
  | 0, _, _, _, hl, h => by
    cases h
    exact hl
  | n + 1, l, l', addr', hl, h => by
    rw [RawOS.importSymbols] at h
    obtain ⟨⟨l₁, cur⟩, hrec, h⟩ := bind_eq_ok.mp h
    have hl₁ := hP.importSymbols hl hrec
    obtain ⟨-, -, h⟩ := bind_eq_ok.mp h
    obtain ⟨⟨status, ssi⟩, -, h⟩ := bind_eq_ok.mp h
    obtain ⟨-, -, h⟩ := bind_eq_ok.mp h
    cases ssi with
    | none => cases h
    | some ssi =>
      obtain ⟨-, -, h⟩ := bind_eq_ok.mp h
      cases h
      exact hP.bytes _ _ _ hl₁

theorem loadSection (hP : SectionInv env P) {i : ℕ} (hl : P l)
    (h : loadSection env i rli l = .ok (rli', l')) : P l' := by
  obtain ⟨-, -, ⟨-, rfl⟩ | ⟨-, hc⟩ | ⟨-, l₁, l₂, addr, hpage, himp, hc⟩⟩ := loadSection_cases h
  · exact hl
  · exact hP.copySection hl hc
  · exact hP.copySection (hP.importSymbols (hP.importPage l l₁ hl hpage) himp) hc

theorem loadSections (hP : SectionInv env P) :
    ∀ {fuel i : ℕ} {rli rli' : RawxLoadInformation} {l l' : Loader σ}, P l →
      loadSections env fuel i rli l = .ok (rli', l') → P l'
  | 0, _, _, _, _, _, _, h => by simp [RawOS.loadSections] at h
  | fuel + 1, i, rli, rli', l, l', hl, h => by
    rw [RawOS.loadSections] at h
    split_ifs at h with hcount
    · obtain ⟨⟨rli₁, l₁⟩, hsec, h⟩ := bind_eq_ok.mp h
      exact hP.loadSections (hP.loadSection hl hsec) h
    · cases h
      exact hl

end SectionInv

/-- What the creation of any page keeps, and does not depend on the bytes. -/
structure LoaderInv (env : LoaderEnv σ) (P : Loader σ → Prop) : Prop where
  bytes : ∀ l m data, P l → P { l with mem := m, data := data }
  created : ∀ l l' p userMode, p < 0x100000 → P l → createProcessPage env l p userMode = .ok l' →
    P l' ∧ P { l' with sectionPages := l'.sectionPages ++ [p] }

namespace LoaderInv

variable {P : Loader σ → Prop}

theorem sections (hP : LoaderInv env P) : SectionInv env P where
  bytes := hP.bytes
  importPage := fun l l' hl h => (hP.created l l' _ _ (by decide) hl h).1
  copied := fun l l' p hp hl h => (hP.created l l' p _ hp hl h).2

theorem createStackPages (hP : LoaderInv env P) {address userMode : ℕ} (ha : address < 4294967296) :
    ∀ {n : ℕ} {l l' : Loader σ}, n ≤ address / 0x1000 + 1 → P l →
      createStackPages env address userMode l n = .ok l' → P l'
  | 0, _, _, _, hl, h => by
    cases h
    exact hl
  | n + 1, l, l', hn, hl, h => by
    rw [RawOS.createStackPages] at h
    obtain ⟨l₁, hrec, h⟩ := bind_eq_ok.mp h
    obtain ⟨hpage, hlt⟩ := stackPage_lt ha (show n ≤ address / 0x1000 by omega)
    rw [hpage] at h
    exact (hP.created l₁ l' _ _ hlt (hP.createStackPages ha (by omega) hl hrec) h).1

theorem stack (hP : LoaderInv env P) {data : Mem} (hfields : StackFields data) (hl : P l)
    (h : RawOS.createStackPages env rawxStackAddress 1 l (headerStackSize data / 0x1000) = .ok l') :
    P l' := by
  have hfits := hfields.fits
  exact hP.createStackPages (by decide) (le_trans hfits (by decide)) hl h

theorem kernelStack (hP : LoaderInv env P) (hl : P l)
    (h : RawOS.createStackPages env kernelStackAddressInProcessAddressSpace 0 l
      kernelStackReservedPagesInProcessAddressSpace = .ok l') : P l' :=
  hP.createStackPages (by decide) (by decide) hl h

/-- A load keeps what the creation of a page does. -/
theorem rawxLoad (hP : LoaderInv env P) {length : ℤ} {stack kernelStack : Bool} (hl : P l)
    (h : rawxLoad env length stack kernelStack l = .ok (rli, l')) : P l' := by
  obtain ⟨rli₁, l₁, l₂, hsec, hstack, hkernel⟩ := (rawxLoad_loaded h).parts
  have hl₁ := hP.sections.loadSections hl hsec
  have hl₂ : P l₂ := by
    cases stack with
    | true =>
      rw [if_pos rfl] at hstack
      exact hP.stack hstack.1 hl₁ hstack.2.2
    | false =>
      rw [if_neg Bool.false_ne_true] at hstack
      rw [hstack]
      exact hl₁
  cases kernelStack with
  | true =>
    rw [if_pos rfl] at hkernel
    exact hP.kernelStack hl₂ hkernel
  | false =>
    rw [if_neg Bool.false_ne_true] at hkernel
    rw [hkernel]
    exact hl₂

end LoaderInv

end

end RawOS
