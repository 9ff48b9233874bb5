import RawOS.Mem

/-!
# Assertions, 32-bit arithmetic and `util.c`

`assert` and `panic` print their message and halt: a function of the kernel that may reach them
returns in `Except Panic`. `u32` and `u32Sub` are the arithmetic of `u32` and of pointers, which
wraps at `2 ^ 32`.
-/

namespace RawOS

/-- Why the kernel stops. Two are no behaviour of the kernel: `outOfFuel` marks a recursion of the
model that was cut short, and `undefined` a step after which the kernel works on memory that is not
its own or was never written, where the model does not follow it. -/
inductive Panic where
  | assertFailed (message : String)
  | panic (message : String)
  | outOfFuel
  | undefined (what : String)
  deriving DecidableEq, Repr

/-- `assert`: halt with `message` unless the condition holds. -/
def assert (condition : Prop) [Decidable condition] (message : String) : Except Panic Unit :=
  if condition then .ok () else .error (.assertFailed message)

@[simp] theorem assert_of_true {p : Prop} [Decidable p] (h : p) (msg : String) :
    assert p msg = .ok () := if_pos h

@[simp] theorem assert_eq_ok {p : Prop} [Decidable p] {msg : String} {u : Unit} :
    assert p msg = .ok u ↔ p := by
  unfold assert
  split_ifs with h <;> simp [h]

@[simp] theorem ok_bind {ε α β : Type} (a : α) (f : α → Except ε β) :
    (Except.ok a >>= f) = f a := rfl

@[simp] theorem error_bind {ε α β : Type} (e : ε) (f : α → Except ε β) :
    ((Except.error e : Except ε α) >>= f) = Except.error e := rfl

theorem bind_eq_ok {ε α β : Type} {x : Except ε α} {f : α → Except ε β} {b : β} :
    (x >>= f) = .ok b ↔ ∃ a, x = .ok a ∧ f a = .ok b := by
  cases x <;> simp

/-- `x` returns a value that satisfies `P`, or stops for a reason that satisfies `E`. -/
def Ends {α : Type} (x : Except Panic α) (P : α → Prop) (E : Panic → Prop) : Prop :=
  match x with
  | .ok a => P a
  | .error e => E e

section Ends

variable {α β : Type} {x : Except Panic α} {P Q : α → Prop} {R : β → Prop} {E F : Panic → Prop}
  {f : α → Except Panic β}

@[simp] theorem ends_ok {a : α} : Ends (.ok a) P E ↔ P a := Iff.rfl

@[simp] theorem ends_error {e : Panic} : Ends (.error e : Except Panic α) P E ↔ E e := Iff.rfl

theorem Ends.bind (hx : Ends x P E) (hf : ∀ a, P a → Ends (f a) R E) : Ends (x >>= f) R E := by
  cases x with
  | ok a => exact hf a hx
  | error e => exact hx

theorem Ends.mono (hx : Ends x P E) (hP : ∀ a, P a → Q a) (hE : ∀ e, E e → F e) : Ends x Q F := by
  cases x with
  | ok a => exact hP a hx
  | error e => exact hE e hx

/-- As `Ends.bind`, where only the first part can stop. -/
theorem Ends.map {g : α → β} (hx : Ends x P E) (hg : ∀ a, P a → R (g a)) (hE : ∀ e, E e → F e) :
    Ends (x >>= fun a => .ok (g a)) R F := by
  cases x with
  | ok a => exact hg a hx
  | error e => exact hE e hx

theorem Ends.of_ok {a : α} (hx : Ends x P E) (h : x = .ok a) : P a := by
  rwa [h, ends_ok] at hx

/-- Without a reason to stop it returns. -/
theorem Ends.exists_ok (hx : Ends x P E) (hE : ∀ e, ¬ E e) : ∃ a, x = .ok a ∧ P a := by
  cases x with
  | ok a => exact ⟨a, rfl, hx⟩
  | error e => exact absurd hx (hE e)

end Ends

/-- Two runs end alike: for the same reason, or with related values. -/
inductive Alike {α β : Type} (R : α → β → Prop) : Except Panic α → Except Panic β → Prop where
  | ok {a : α} {b : β} : R a b → Alike R (.ok a) (.ok b)
  | error (e : Panic) : Alike R (.error e) (.error e)

section Alike

variable {α β α' β' : Type} {R : α → β → Prop} {S : α' → β' → Prop} {x : Except Panic α}
  {y : Except Panic β} {f : α → Except Panic α'} {g : β → Except Panic β'}

theorem Alike.bind (h : Alike R x y)
    (hf : ∀ a b, x = .ok a → y = .ok b → R a b → Alike S (f a) (g b)) :
    Alike S (x >>= f) (y >>= g) := by
  cases h with
  | ok hab => exact hf _ _ rfl rfl hab
  | error e => exact .error e

theorem Alike.assert {p q : Prop} [Decidable p] [Decidable q] (h : p ↔ q) (msg : String) :
    Alike (fun _ _ => True) (RawOS.assert p msg) (RawOS.assert q msg) := by
  unfold RawOS.assert
  by_cases hp : p
  · rw [if_pos hp, if_pos (h.mp hp)]
    exact .ok trivial
  · rw [if_neg hp, if_neg fun hq => hp (h.mpr hq)]
    exact .error _

end Alike

/-- Arithmetic on `u32`. -/
def u32 (n : ℕ) : ℕ := n % 4294967296

/-- Subtraction on `u32`. -/
def u32Sub (a b : ℕ) : ℕ := (a + 4294967296 - b) % 4294967296

theorem u32_of_lt {n : ℕ} (h : n < 4294967296) : u32 n = n := Nat.mod_eq_of_lt h

theorem u32_lt (n : ℕ) : u32 n < 4294967296 := Nat.mod_lt _ (by omega)

theorem u32Sub_of_le {a b : ℕ} (h : b ≤ a) (ha : a < 4294967296) : u32Sub a b = a - b := by
  unfold u32Sub
  omega

/-- `memcpy`, byte by byte upwards. -/
def memcpy (m : Mem) (dst src : ℕ) : ℕ → Mem
  | 0 => m
  | size + 1 => store8 (memcpy m dst src size) (dst + size) (memcpy m dst src size (src + size))

theorem memcpy_of_outside {m : Mem} {dst src x : ℕ} :
    ∀ {size : ℕ}, x < dst ∨ dst + size ≤ x → memcpy m dst src size x = m x
  | 0, _ => rfl
  | size + 1, h => by
    rw [memcpy, store8_of_ne (by omega)]
    exact memcpy_of_outside (by omega)

/-- A copy between disjoint ranges. -/
theorem memcpy_of_inside {m : Mem} {dst src : ℕ} :
    ∀ {size i : ℕ}, (dst + size ≤ src ∨ src + size ≤ dst) → i < size →
      memcpy m dst src size (dst + i) = m (src + i)
  | size + 1, i, hd, hi => by
    rw [memcpy]
    by_cases h : i = size
    · subst h
      rw [store8, if_pos rfl]
      exact memcpy_of_outside (by omega)
    · rw [store8_of_ne (by omega)]
      exact memcpy_of_inside (by omega) (by omega)

/-- A copy to lower addresses; the ranges may overlap. -/
theorem memcpy_of_le {m : Mem} {dst src : ℕ} (hle : dst ≤ src) :
    ∀ {size i : ℕ}, i < size → memcpy m dst src size (dst + i) = m (src + i)
  | size + 1, i, hi => by
    rw [memcpy]
    by_cases h : i = size
    · subst h
      rw [store8, if_pos rfl]
      exact memcpy_of_outside (by omega)
    · rw [store8_of_ne (by omega)]
      exact memcpy_of_le hle (by omega)

end RawOS
