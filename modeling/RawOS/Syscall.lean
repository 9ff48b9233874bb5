import RawOS.HashMapSpec
import RawOS.Rawx

/-!
# The stubs of `syscall.c`

`syscall_init` registers the stubs of the system calls under their names, in a hash map whose keys
are strings. `syscallStubGet_spec`: `syscall_stub_get` finds the stub of the call that the string
names, and nothing for any other string.
-/

namespace RawOS

/-- The system calls that have a stub. -/
inductive Syscall where
  | print | exit | posCursor | clearScreen | execve | fork | «open» | read | write | close
  deriving DecidableEq, Inhabited

namespace Syscall

/-- `PRINT_SYSCALL_NAME` and the others. -/
def name : Syscall → List Char
  | print => ['p', 'r', 'i', 'n', 't']
  | exit => ['e', 'x', 'i', 't']
  | posCursor => ['p', 'o', 's', '_', 'c', 'u', 'r', 's', 'o', 'r']
  | clearScreen => ['c', 'l', 'e', 'a', 'r', '_', 's', 'c', 'r', 'e', 'e', 'n']
  | execve => ['e', 'x', 'e', 'c', 'v', 'e']
  | fork => ['f', 'o', 'r', 'k']
  | «open» => ['o', 'p', 'e', 'n']
  | read => ['r', 'e', 'a', 'd']
  | write => ['w', 'r', 'i', 't', 'e']
  | close => ['c', 'l', 'o', 's', 'e']

/-- The number that the stub loads into `eax`. -/
def number : Syscall → UInt8
  | print => 0
  | exit => 1
  | posCursor => 2
  | clearScreen => 3
  | execve => 4
  | fork => 5
  | «open» => 6
  | read => 7
  | write => 8
  | close => 9

/-- How many arguments the stub takes from the stack. -/
def arguments : Syscall → ℕ
  | clearScreen | fork => 0
  | print | exit | execve | «open» | close => 1
  | posCursor => 2
  | read | write => 3

/-- The code of the stub in `syscall_stubs.asm`: `mov eax`, the arguments into `ebx`, `ecx` and
`edx`, `int 0x80`, and `ret`, which drops the arguments. -/
def stubCode (s : Syscall) : List UInt8 :=
  [0xB8, s.number, 0, 0, 0] ++
    ([[0x8B, 0x5C, 0x24, 4], [0x8B, 0x4C, 0x24, 8], [0x8B, 0x54, 0x24, 12]].take s.arguments).flatten ++
    [0xCD, 0x80] ++
    match s.arguments with
    | 0 => [0xC3]
    | n => [0xC2, UInt8.ofNat (4 * n), 0]

theorem stubCode_length_le (s : Syscall) : s.stubCode.length ≤ 22 := by
  cases s <;> decide

/-- The order in which `syscall_init` registers the stubs. -/
def order : List Syscall :=
  [print, exit, posCursor, clearScreen, execve, fork, «open», read, write, close]

theorem mem_order (s : Syscall) : s ∈ order := by
  cases s <;> decide

theorem name_chars (s : Syscall) : s.name.length ≤ 12 ∧ ∀ c ∈ s.name, c.toUInt8 ≠ 0 := by
  have hall : s.name.all (fun c => c.toUInt8 ≠ 0) = true := by cases s <;> rfl
  refine ⟨by cases s <;> decide, fun c hc => ?_⟩
  exact of_decide_eq_true (List.all_eq_true.mp hall c hc)

theorem name_inj {s t : Syscall} (h : s.name.map Char.toUInt8 = t.name.map Char.toUInt8) : s = t := by
  revert h
  cases s <;> cases t <;> decide

end Syscall

/-! ## Strings -/

/-- No string is longer than the address space. -/
def stringFuel : ℕ := 4294967296

/-- `strcmp` of two strings in memory. -/
def strcmpLoop : ℕ → (ℕ → UInt8) → (ℕ → UInt8) → ℕ
  | 0, _, _ => 0
  | fuel + 1, s1, s2 =>
    if s1 0 ≠ 0 ∧ s2 0 ≠ 0 then
      if s1 0 ≠ s2 0 then 1 else strcmpLoop fuel (fun i => s1 (i + 1)) fun i => s2 (i + 1)
    else if s1 0 = 0 ∧ s2 0 = 0 then 0 else 1

/-- A character as an `s32`, in 32 bits. -/
def charS32 (c : UInt8) : ℕ := if c.toNat < 128 then c.toNat else c.toNat + 4294967040

/-- The loop of `syscall_stub_name_hash`. -/
def syscallStubNameHashLoop : ℕ → (ℕ → UInt8) → ℕ → ℕ
  | 0, _, hash => hash
  | fuel + 1, str, hash =>
    if str 0 ≠ 0 then
      syscallStubNameHashLoop fuel (fun i => str (i + 1))
        (u32 (u32 (hash * 32) + hash + charS32 (str 0)))
    else hash

def syscallStubNameCompare (key1 key2 : ℕ → UInt8) : Bool := strcmpLoop stringFuel key1 key2 = 0

def syscallStubNameHash (key : ℕ → UInt8) : ℕ := syscallStubNameHashLoop stringFuel key 5381

/-- The characters in memory, with a NUL. -/
def stringOf (name : List Char) : ℕ → UInt8 := fun i => (name.map Char.toUInt8).getD i 0

section

variable {s t : ℕ → UInt8} {n : ℕ}

theorem strcmpLoop_succ : strcmpLoop (n + 1) s t = 0 ↔
    s 0 = t 0 ∧ (s 0 ≠ 0 → strcmpLoop n (fun i => s (i + 1)) (fun i => t (i + 1)) = 0) := by
  rw [strcmpLoop]
  by_cases hs : s 0 = 0 <;> by_cases ht : t 0 = 0 <;> by_cases hst : s 0 = t 0 <;> simp_all

theorem strcmpLoop_refl : ∀ (n : ℕ) (s : ℕ → UInt8), strcmpLoop n s s = 0
  | 0, _ => rfl
  | n + 1, _ => strcmpLoop_succ.mpr ⟨rfl, fun _ => strcmpLoop_refl n _⟩

theorem strcmpLoop_symm : ∀ {n : ℕ} {s t : ℕ → UInt8}, strcmpLoop n s t = 0 → strcmpLoop n t s = 0
  | 0, _, _, _ => rfl
  | n + 1, s, t, h => by
    obtain ⟨hst, hrest⟩ := strcmpLoop_succ.mp h
    exact strcmpLoop_succ.mpr ⟨hst.symm, fun ht => strcmpLoop_symm (hrest (hst ▸ ht))⟩

theorem strcmpLoop_trans : ∀ {n : ℕ} {s t u : ℕ → UInt8},
    strcmpLoop n s t = 0 → strcmpLoop n t u = 0 → strcmpLoop n s u = 0
  | 0, _, _, _, _, _ => rfl
  | n + 1, s, t, u, h, h' => by
    obtain ⟨hst, hrest⟩ := strcmpLoop_succ.mp h
    obtain ⟨htu, hrest'⟩ := strcmpLoop_succ.mp h'
    exact strcmpLoop_succ.mpr
      ⟨hst.trans htu, fun hs => strcmpLoop_trans (hrest hs) (hrest' (hst ▸ hs))⟩

theorem syscallStubNameHashLoop_congr : ∀ {n : ℕ} {s t : ℕ → UInt8} (hash : ℕ),
    strcmpLoop n s t = 0 → syscallStubNameHashLoop n s hash = syscallStubNameHashLoop n t hash
  | 0, _, _, _, _ => rfl
  | n + 1, s, t, hash, h => by
    obtain ⟨hst, hrest⟩ := strcmpLoop_succ.mp h
    rw [syscallStubNameHashLoop, syscallStubNameHashLoop, ← hst]
    by_cases hs : s 0 ≠ 0
    · rw [if_pos hs, if_pos hs]
      exact syscallStubNameHashLoop_congr _ (hrest hs)
    · rw [if_neg hs, if_neg hs]

/-- The comparison of the names is an equivalence, and the hash respects it. -/
theorem keyEquiv_syscallStubName : KeyEquiv syscallStubNameCompare syscallStubNameHash where
  refl := fun s => decide_eq_true (strcmpLoop_refl _ s)
  symm := fun h => decide_eq_true (strcmpLoop_symm (of_decide_eq_true h))
  trans := fun h h' => decide_eq_true (strcmpLoop_trans (of_decide_eq_true h) (of_decide_eq_true h'))
  hash_eq := fun h => syscallStubNameHashLoop_congr _ (of_decide_eq_true h)

/-- `strcmp` against a string of the kernel. -/
theorem strcmpLoop_stringOf : ∀ {n : ℕ} {name : List Char} {s : ℕ → UInt8}, name.length < n →
    (∀ c ∈ name, c.toUInt8 ≠ 0) → (strcmpLoop n (stringOf name) s = 0 ↔ strcmp s name = 0)
  | n + 1, [], s, _, _ => by
    rw [strcmpLoop_succ, strcmp]
    have hnil : stringOf [] 0 = 0 := rfl
    rw [hnil]
    by_cases hs : s 0 = 0
    · simp [hs]
    · simp [hs, Ne.symm hs]
  | n + 1, c :: cs, s, hlen, hchars => by
    have hfirst : stringOf (c :: cs) 0 = c.toUInt8 := rfl
    have hrest : (fun i => stringOf (c :: cs) (i + 1)) = stringOf cs := rfl
    have hc : c.toUInt8 ≠ 0 := hchars c List.mem_cons_self
    have ih := @strcmpLoop_stringOf n cs (fun i => s (i + 1)) (Nat.lt_of_succ_lt_succ hlen)
      fun d hd => hchars d (List.mem_cons_of_mem c hd)
    rw [strcmpLoop_succ, hfirst, hrest, ih, strcmp]
    by_cases hs : s 0 = c.toUInt8
    · simp [hs, hc]
    · simp [hs, Ne.symm hs]

/-- A string has the characters of one name at most. -/
theorem strcmp_unique : ∀ {s : ℕ → UInt8} {a b : List Char}, strcmp s a = 0 → strcmp s b = 0 →
    (∀ c ∈ a, c.toUInt8 ≠ 0) → (∀ c ∈ b, c.toUInt8 ≠ 0) →
    a.map Char.toUInt8 = b.map Char.toUInt8
  | _, [], [], _, _, _, _ => rfl
  | _, [], d :: ds, ha, hb, _, _ => by
    simp only [strcmp] at ha hb
    split_ifs at ha hb with h₁ h₂
    exact absurd (.inl h₁) h₂
  | _, c :: cs, [], ha, hb, _, _ => by
    simp only [strcmp] at ha hb
    split_ifs at ha hb with h₁ h₂
    exact absurd (.inl h₂) h₁
  | s, c :: cs, d :: ds, ha, hb, hca, hcb => by
    simp only [strcmp] at ha hb
    split_ifs at ha hb with h₁ h₂
    obtain ⟨-, hc⟩ := not_or.mp h₁
    obtain ⟨-, hd⟩ := not_or.mp h₂
    rw [not_not] at hc hd
    rw [List.map_cons, List.map_cons, ← hc, ← hd]
    exact congrArg _ (strcmp_unique ha hb (fun e he => hca e (List.mem_cons_of_mem c he))
      fun e he => hcb e (List.mem_cons_of_mem d he))

/-- The string is the name of the call. -/
def Syscall.Named (c : Syscall) (s : ℕ → UInt8) : Prop := strcmp s c.name = 0

theorem Syscall.Named.eq {c d : Syscall} (hc : c.Named s) (hd : d.Named s) : c = d :=
  Syscall.name_inj (strcmp_unique hc hd c.name_chars.2 d.name_chars.2)

theorem Syscall.compare_name (c : Syscall) :
    syscallStubNameCompare (stringOf c.name) s = true ↔ c.Named s := by
  obtain ⟨hlen, hchars⟩ := c.name_chars
  unfold syscallStubNameCompare
  rw [decide_eq_true_iff]
  exact strcmpLoop_stringOf (lt_of_le_of_lt hlen (by decide)) hchars

end

/-! ## The map -/

/-- What is registered for a call whose stub is at this address. -/
def stubInformation (address : Syscall → ℕ) (c : Syscall) : SyscallStubInformation :=
  ⟨address c, c.stubCode.length⟩

/-- The calls of `hash_map_put` in `syscall_init`, which does not look at their status. -/
def putStubs (address : Syscall → ℕ) :
    List Syscall → HashMap (ℕ → UInt8) SyscallStubInformation →
      Except Panic (HashMap (ℕ → UInt8) SyscallStubInformation)
  | [], hm => .ok hm
  | c :: cs, hm => do
    let (_, hm) ← hashMapPut hm (stringOf c.name) (stubInformation address c)
    putStubs address cs hm

/-- `syscall_init`, with the addresses of the stubs in the kernel. -/
def syscallInit (address : Syscall → ℕ) :
    Except Panic (HashMap (ℕ → UInt8) SyscallStubInformation) := do
  let (_, hm) := hashMapCreate 1024 4 8 syscallStubNameCompare syscallStubNameHash
  putStubs address Syscall.order hm

/-- The names and their stubs. -/
def stubsSpec (address : Syscall → ℕ) (cs : List Syscall)
    (m : MapSpec (ℕ → UInt8) SyscallStubInformation) : MapSpec (ℕ → UInt8) SyscallStubInformation :=
  cs.foldl (fun m c => m.put syscallStubNameCompare (stringOf c.name) (stubInformation address c)) m

section

variable {address : Syscall → ℕ} {cs : List Syscall} {c : Syscall} {s : ℕ → UInt8}
  {m : MapSpec (ℕ → UInt8) SyscallStubInformation}
  {hm hm' : HashMap (ℕ → UInt8) SyscallStubInformation}

theorem stubsSpec_of_not (h : ∀ d ∈ cs, ¬ d.Named s) : stubsSpec address cs m s = m s := by
  induction cs generalizing m with
  | nil => rfl
  | cons d ds ih =>
    rw [stubsSpec, List.foldl_cons, ← stubsSpec, ih fun e he => h e (List.mem_cons_of_mem d he)]
    exact if_neg fun hd => h d List.mem_cons_self (d.compare_name.mp hd)

theorem stubsSpec_of_mem (hc : c ∈ cs) (hs : c.Named s) :
    stubsSpec address cs m s = some (stubInformation address c) := by
  induction cs generalizing m with
  | nil => exact absurd hc List.not_mem_nil
  | cons d ds ih =>
    rw [stubsSpec, List.foldl_cons, ← stubsSpec]
    by_cases hmem : c ∈ ds
    · exact ih hmem
    · obtain rfl : c = d := (List.mem_cons.mp hc).resolve_right hmem
      -- no later name is this one
      rw [stubsSpec_of_not fun e he hes => hmem (hs.eq hes ▸ he)]
      exact if_pos (c.compare_name.mpr hs)

theorem putStubs_ok (hT : TableInv hm m) (hcmp : hm.keyCompareFunc = syscallStubNameCompare)
    (hhash : hm.keyHashFunc = syscallStubNameHash)
    (hload : (hm.numElements + cs.length) * 2 ≤ hm.capacity) :
    ∃ hm', putStubs address cs hm = .ok hm' ∧ TableInv hm' (stubsSpec address cs m) ∧
      hm'.keyCompareFunc = syscallStubNameCompare ∧ hm'.keyHashFunc = syscallStubNameHash ∧
      hm'.numElements * 2 ≤ hm'.capacity := by
  induction cs generalizing hm m with
  | nil => exact ⟨hm, rfl, hT, hcmp, hhash, hload⟩
  | cons d ds ih =>
    rw [List.length_cons] at hload
    have hk : KeyEquiv hm.keyCompareFunc hm.keyHashFunc := by
      rw [hcmp, hhash]
      exact keyEquiv_syscallStubName
    obtain ⟨hm₁, hrun, hT₁, hkind, hcap, hnum⟩ :=
      hashMapPutNested_spec 1 hk hT (by omega) (stringOf d.name) (stubInformation address d)
    rw [hcmp] at hT₁
    obtain ⟨hm', hrest, h'⟩ := ih hT₁ (hkind.compare.trans hcmp) (hkind.hash.trans hhash) (by omega)
    refine ⟨hm', ?_, h'⟩
    rw [putStubs, hashMapPut, growDepth, hrun, ok_bind]
    exact hrest

/-- `syscall_init` returns, and its map holds the stubs. -/
theorem syscallInit_ok (address : Syscall → ℕ) : ∃ hm, syscallInit address = .ok hm ∧
    TableInv hm (stubsSpec address Syscall.order MapSpec.empty) ∧
    hm.keyCompareFunc = syscallStubNameCompare ∧ hm.keyHashFunc = syscallStubNameHash ∧
    hm.numElements * 2 ≤ hm.capacity := by
  have hI : HashMapInv (hashMapCreate 1024 4 8 syscallStubNameCompare syscallStubNameHash).2
      (MapSpec.empty : MapSpec (ℕ → UInt8) SyscallStubInformation) :=
    hashMapCreate_inv _ _ (by decide)
  exact putStubs_ok hI.toTableInv rfl rfl (by decide)

/-- A lookup in the map of `syscall_init`. -/
theorem hashMapGet_stubs (h : syscallInit address = .ok hm) (s : ℕ → UInt8) :
    (∃ c : Syscall, c.Named s ∧ hashMapGet hm s = .ok (0, some (stubInformation address c))) ∨
      (∀ c : Syscall, ¬ c.Named s) ∧ hashMapGet hm s = .ok (-1, none) := by
  obtain ⟨hm', hrun, hT, hcmp, hhash, hload⟩ := syscallInit_ok address
  rw [h] at hrun
  obtain rfl := Except.ok.inj hrun
  have hk : KeyEquiv hm.keyCompareFunc hm.keyHashFunc := by
    rw [hcmp, hhash]
    exact keyEquiv_syscallStubName
  have hpos := hT.capacity_pos
  have hget := hashMapGet_spec hk hT (by omega) s
  by_cases hs : ∃ c : Syscall, c.Named s
  · obtain ⟨c, hc⟩ := hs
    rw [stubsSpec_of_mem c.mem_order hc] at hget
    exact .inl ⟨c, hc, hget⟩
  · have hnone := not_exists.mp hs
    rw [stubsSpec_of_not fun d _ => hnone d] at hget
    exact .inr ⟨hnone, hget⟩

end

end RawOS
