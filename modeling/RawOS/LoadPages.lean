import RawOS.RawxLoad

/-!
# The pages that a load creates

`LoadPages` speaks of each page that `rawx_load` creates, whether the load returns or not: the load
goes the same way where a page of another kind would stop it. What all these pages keep, a load
keeps (`LoadPages.keeps`), and what holds where they are created holds of them (`LoadPages.imp`).
-/

namespace RawOS

section

variable {σ : Type} (env : LoaderEnv σ) (K : ℕ → ℕ → σ → Prop)

open Classical in
/-- A page that does not satisfy `K` ends the load with `e`. -/
noncomputable def LoaderEnv.guarded (e : Panic) : LoaderEnv σ where
  createProcessPage := fun pageNum userMode pages =>
    if K pageNum userMode pages then env.createProcessPage pageNum userMode pages else .error e
  syscallStubs := env.syscallStubs
  code := env.code

/-- Every page that `rawx_load` creates satisfies `K`, with its mode and the pages before it. -/
def LoadPages (length : ℤ) (stack kernelStack : Bool) (l : Loader σ) : Prop :=
  ∀ e, rawxLoad (env.guarded K e) length stack kernelStack l = rawxLoad env length stack kernelStack l

end

/-! ## Loads that go the same way -/

/-- `x'` ends as `x`, or, if it may, with `e`. -/
def SameOr {α : Type} (e : Panic) (may : Prop) (x' x : Except Panic α) : Prop :=
  x' = x ∨ x' = .error e ∧ may

section

variable {σ : Type} {env env' : LoaderEnv σ} {K Q : ℕ → ℕ → σ → Prop} {P : Loader σ → Prop}
  {e : Panic} {may : Prop} {l l' : Loader σ} {p u : ℕ} {rli rli' : RawxLoadInformation}
  {length : ℤ} {stack kernelStack flag : Bool}

theorem SameOr.bind {α β : Type} {x x' : Except Panic α} {f f' : α → Except Panic β}
    (hx : SameOr e may x' x) (hf : ∀ a, x = .ok a → SameOr e may (f' a) (f a)) :
    SameOr e may (x' >>= f') (x >>= f) := by
  rcases hx with rfl | ⟨rfl, hmay⟩
  · cases x' with
    | ok a => exact hf a rfl
    | error e' => exact .inl rfl
  · exact .inr ⟨rfl, hmay⟩

theorem SameOr.refl {α : Type} {x : Except Panic α} : SameOr e may x x := .inl rfl

/-- From a state that satisfies `P`, `env'` creates a page as `env` does, or ends with `e`. -/
structure SamePages (env env' : LoaderEnv σ) (P : Loader σ → Prop) (e : Panic) (may : Prop) :
    Prop where
  inv : LoaderInv env P
  stubs : env'.syscallStubs = env.syscallStubs
  code : env'.code = env.code
  same : ∀ l p u, p < 0x100000 → P l →
    SameOr e may (env'.createProcessPage p u l.pages) (env.createProcessPage p u l.pages)

/-- The stack of the image. -/
theorem LoaderInv.createStack (hP : LoaderInv env P) (hl : P l)
    (h : createStack env flag rli l = .ok (rli', l')) : P l' := by
  unfold RawOS.createStack at h
  split_ifs at h
  · obtain ⟨_, -, h⟩ := bind_eq_ok.mp h
    obtain ⟨_, -, h⟩ := bind_eq_ok.mp h
    obtain ⟨_, hpages, h⟩ := bind_eq_ok.mp h
    obtain ⟨l₁, hcreate, h⟩ := bind_eq_ok.mp h
    cases h
    have hle := assert_eq_ok.mp hpages
    have haddr : rawxStackAddress < 4294967296 := by decide
    exact hP.createStackPages haddr (le_trans hle (by decide)) hl hcreate
  · cases h
    exact hl

namespace SamePages

variable (h : SamePages env env' P e may)
include h

theorem createPage (hp : p < 0x100000) (hl : P l) :
    SameOr e may (createProcessPage env' l p u) (createProcessPage env l p u) :=
  (h.same l p u hp hl).bind fun _ _ => .refl

theorem copySection {address src size : ℕ} : ∀ {fuel i : ℕ} {l : Loader σ}, P l →
    SameOr e may (RawOS.copySection env' address src size fuel i l)
      (RawOS.copySection env address src size fuel i l)
  | 0, _, _, _ => .refl
  | fuel + 1, i, l, hl => by
    rw [RawOS.copySection, RawOS.copySection]
    split_ifs
    · have hpage := u32_lt (address + i)
      refine (h.createPage (by omega) hl).bind fun l₁ hl₁ => ?_
      exact copySection (h.inv.bytes _ _ l₁.data (h.inv.sections.copied l l₁ _ (by omega) hl hl₁))
    · exact .refl

theorem importSymbols {start addr : ℕ} : ∀ {n : ℕ} {l : Loader σ},
    RawOS.importSymbols env' start addr l n = RawOS.importSymbols env start addr l n
  | 0, _ => rfl
  | n + 1, l => by
    unfold RawOS.importSymbols syscallStubGet
    rw [importSymbols, h.stubs, h.code]

theorem loadSection {i : ℕ} (hl : P l) :
    SameOr e may (RawOS.loadSection env' i rli l) (RawOS.loadSection env i rli l) := by
  unfold RawOS.loadSection
  refine SameOr.refl.bind fun _ _ => SameOr.refl.bind fun _ _ => ?_
  split_ifs
  · exact (h.copySection hl).bind fun _ _ => .refl
  · exact (h.copySection hl).bind fun _ _ => .refl
  · refine (h.createPage (by decide) hl).bind fun l₁ hl₁ => ?_
    have hP₁ := h.inv.sections.importPage l l₁ hl hl₁
    rw [h.importSymbols]
    refine SameOr.refl.bind fun r hr => ?_
    exact (h.copySection (h.inv.sections.importSymbols hP₁ hr)).bind fun _ _ => .refl
  · exact .refl

theorem loadSections : ∀ {fuel i : ℕ} {rli : RawxLoadInformation} {l : Loader σ}, P l →
    SameOr e may (RawOS.loadSections env' fuel i rli l) (RawOS.loadSections env fuel i rli l)
  | 0, _, _, _, _ => .refl
  | fuel + 1, i, rli, l, hl => by
    rw [RawOS.loadSections, RawOS.loadSections]
    split_ifs
    · exact (h.loadSection hl).bind fun r hr =>
        loadSections (h.inv.sections.loadSection hl hr)
    · exact .refl

theorem createStackPages {address : ℕ} (ha : address < 4294967296) (hl : P l) : ∀ {n : ℕ},
    n ≤ address / 0x1000 + 1 → SameOr e may (RawOS.createStackPages env' address u l n)
      (RawOS.createStackPages env address u l n)
  | 0, _ => .refl
  | n + 1, hn => by
    rw [RawOS.createStackPages, RawOS.createStackPages]
    refine (createStackPages ha hl (by omega)).bind fun l₁ hl₁ => ?_
    obtain ⟨hpage, hlt⟩ := stackPage_lt ha (show n ≤ address / 0x1000 by omega)
    exact h.createPage (hpage ▸ hlt) (h.inv.createStackPages ha (by omega) hl hl₁)

theorem createStack (hl : P l) :
    SameOr e may (RawOS.createStack env' flag rli l) (RawOS.createStack env flag rli l) := by
  unfold RawOS.createStack
  split_ifs
  · refine SameOr.refl.bind fun _ _ => SameOr.refl.bind fun _ _ => SameOr.refl.bind fun _ hpages => ?_
    have hle := assert_eq_ok.mp hpages
    have haddr : rawxStackAddress < 4294967296 := by decide
    exact (h.createStackPages haddr hl (le_trans hle (by decide))).bind fun _ _ => .refl
  · exact .refl

theorem createKernelStack (hl : P l) :
    SameOr e may (RawOS.createKernelStack env' flag l) (RawOS.createKernelStack env flag l) := by
  unfold RawOS.createKernelStack
  split_ifs
  · have haddr : kernelStackAddressInProcessAddressSpace < 4294967296 := by decide
    exact h.createStackPages haddr hl (by decide)
  · exact .refl

/-- The whole load. -/
theorem rawxLoad (hl : P l) : SameOr e may (RawOS.rawxLoad env' length stack kernelStack l)
    (RawOS.rawxLoad env length stack kernelStack l) := by
  unfold RawOS.rawxLoad
  refine SameOr.refl.bind fun _ _ => (h.loadSections hl).bind fun r hr => ?_
  have hP₁ := h.inv.sections.loadSections hl hr
  refine (h.createStack hP₁).bind fun r' hr' => ?_
  exact (h.createKernelStack (h.inv.createStack hP₁ hr')).bind fun _ _ => .refl

end SamePages

/-! ## All pages of a load -/

theorem guarded_createPage_ok (h : createProcessPage (env.guarded K e) l p u = .ok l') :
    K p u l.pages ∧ createProcessPage env l p u = .ok l' := by
  obtain ⟨pages, hpages, rfl⟩ := createProcessPage_ok.mp h
  unfold LoaderEnv.guarded at hpages
  dsimp only at hpages
  split_ifs at hpages with hK
  exact ⟨hK, createProcessPage_ok.mpr ⟨pages, hpages, rfl⟩⟩

/-- A guarded load goes the same way, or is stopped. -/
theorem rawxLoad_guarded (env : LoaderEnv σ) (K : ℕ → ℕ → σ → Prop) (e : Panic) :
    SameOr e True (rawxLoad (env.guarded K e) length stack kernelStack l)
      (rawxLoad env length stack kernelStack l) := by
  have hsame : SamePages env (env.guarded K e) (fun _ => True) e True := by
    refine ⟨⟨fun _ _ _ _ => trivial, fun _ _ _ _ _ _ _ => ⟨trivial, trivial⟩⟩, rfl, rfl,
      fun l p u _ _ => ?_⟩
    unfold LoaderEnv.guarded
    dsimp only
    split_ifs
    · exact .refl
    · exact .inr ⟨rfl, trivial⟩
  exact hsame.rawxLoad trivial

namespace LoadPages

variable (h : LoadPages env K length stack kernelStack l)
  (hP : ∀ e, LoaderInv (env.guarded K e) P) (hl : P l)
include h hP hl

/-- What pages of the kind `K` keep. -/
theorem keeps (hrun : rawxLoad env length stack kernelStack l = .ok (rli, l')) : P l' :=
  (hP .outOfFuel).rawxLoad hl ((h .outOfFuel).trans hrun)

/-- What holds where pages of the kind `K` are created. -/
theorem imp (hQ : ∀ l p u, p < 0x100000 → P l → K p u l.pages → Q p u l.pages) :
    LoadPages env Q length stack kernelStack l := by
  intro e
  -- a second guard on the pages, which does not stop the load
  have hboth : ∀ e', rawxLoad ((env.guarded Q e).guarded K e') length stack kernelStack l =
      rawxLoad env length stack kernelStack l := by
    intro e'
    have hsame : SamePages (env.guarded K e') ((env.guarded Q e).guarded K e') P e' False := by
      refine ⟨hP e', rfl, rfl, fun l p u hp hl => .inl ?_⟩
      unfold LoaderEnv.guarded
      dsimp only
      by_cases hK : K p u l.pages
      · rw [if_pos hK, if_pos hK, if_pos (hQ l p u hp hl hK)]
      · rw [if_neg hK, if_neg hK]
    rcases hsame.rawxLoad hl with hrun | ⟨-, hfalse⟩
    · exact hrun.trans (h e')
    · exact hfalse.elim
  have hfuel := hboth .outOfFuel
  have hpanic := hboth (.panic "")
  rcases rawxLoad_guarded (env.guarded Q e) K .outOfFuel with h₁ | ⟨h₁, -⟩
  · exact h₁.symm.trans hfuel
  · rcases rawxLoad_guarded (env.guarded Q e) K (.panic "") with h₂ | ⟨h₂, -⟩
    · exact h₂.symm.trans hpanic
    · -- it ends with one error and with the other
      rw [h₁] at hfuel
      rw [h₂, ← hfuel] at hpanic
      cases hpanic

end LoadPages

end

end RawOS
