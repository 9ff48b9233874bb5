import Mathlib.Data.Nat.Bitwise
import Mathlib.Data.Set.Function
import Mathlib.Order.Interval.Set.Defs
import RawOS.X86

/-!
# A processor that turns its paging off

Code with loops that works on the physical memory: with paging the addresses are translated, without
it they are physical. `PagedRun` runs a function up to its return, `PagedRun.ops_iff` is a run of
instructions without jumps, and `Paged.Pushed` says what is on the stack after pushes.
-/

namespace RawOS.X86

/-- The bit `PG` of `cr0`. -/
def pagingFlag : UInt32 := 0x80000000

/-- The flag `ZF`. -/
def zeroFlag : UInt32 := 0x40

/-- The processor, and the physical memory. -/
structure Paged where
  regs : Reg → UInt32
  eflags : UInt32
  cr0 : UInt32
  phys : Mem

/-- Store the word `v` at `a`, where `f` gives the places of the bytes. -/
def storeAt (f : ℕ → ℕ) (m : Mem) (a : ℕ) (v : UInt32) : Mem := fun x =>
  if x = f a then UInt8.ofNat v.toNat
  else if x = f (a + 1) then UInt8.ofNat (v.toNat / 256)
  else if x = f (a + 2) then UInt8.ofNat (v.toNat / 65536)
  else if x = f (a + 3) then UInt8.ofNat (v.toNat / 16777216)
  else m x

namespace Paged

variable (tr : ℕ → ℕ) (c : Paged)

/-- Where the byte at `a` is. -/
def place (a : ℕ) : ℕ := if c.cr0 &&& pagingFlag = 0 then a else tr a

/-- The memory that the processor sees. -/
def view : Mem := fun a => c.phys (c.place tr a)

/-- The word at `a`. -/
def word (a : UInt32) : UInt32 := UInt32.ofNat (load32 (c.view tr) a.toNat)

def set (r : Reg) (v : UInt32) : Paged := { c with regs := Function.update c.regs r v }

def store (a v : UInt32) : Paged := { c with phys := storeAt (c.place tr) c.phys a.toNat v }

/-- `ZF` says whether `v` is zero. -/
def setZero (v : UInt32) : Paged :=
  { c with eflags := if v = 0 then c.eflags ||| zeroFlag else c.eflags &&& ~~~zeroFlag }

def push (v : UInt32) : Paged := (c.set .esp (c.regs .esp - 4)).store tr (c.regs .esp - 4) v

def drop : Paged := c.set .esp (c.regs .esp + 4)

end Paged

/-- The instructions. `load` and `store` are about `[b + d]` and `[b]`, and jumps are to the number
of an instruction. -/
inductive PagedOp where
  | push (r : Reg)
  | pop (r : Reg)
  | pushf
  | popf
  | cli
  | mov (r s : Reg)
  | movImm (r : Reg) (v : UInt32)
  | load (r b : Reg) (d : UInt32)
  | store (b r : Reg)
  | getCr0 (r : Reg)
  | setCr0 (r : Reg)
  | andImm (r : Reg) (v : UInt32)
  | orImm (r : Reg) (v : UInt32)
  | addImm (r : Reg) (v : UInt32)
  | dec (r : Reg)
  | cmp (r b : Reg)
  | jnz (target : ℕ)
  | je (target : ℕ)
  | ret
  deriving DecidableEq

namespace PagedOp

/-- What an instruction does. Of the flags for results only `ZF` is there. -/
def exec (tr : ℕ → ℕ) (c : Paged) : PagedOp → Paged
  | push r => c.push tr (c.regs r)
  | pop r => c.drop.set r (c.word tr (c.regs .esp))
  | pushf => c.push tr c.eflags
  | popf => { c.drop with eflags := c.word tr (c.regs .esp) }
  | cli => { c with eflags := c.eflags &&& ~~~interruptFlag }
  | mov r s => c.set r (c.regs s)
  | movImm r v => c.set r v
  | load r b d => c.set r (c.word tr (c.regs b + d))
  | store b r => c.store tr (c.regs b) (c.regs r)
  | getCr0 r => c.set r c.cr0
  | setCr0 r => { c with cr0 := c.regs r }
  | andImm r v => (c.set r (c.regs r &&& v)).setZero (c.regs r &&& v)
  | orImm r v => (c.set r (c.regs r ||| v)).setZero (c.regs r ||| v)
  | addImm r v => (c.set r (c.regs r + v)).setZero (c.regs r + v)
  | dec r => (c.set r (c.regs r - 1)).setZero (c.regs r - 1)
  | cmp r b => c.setZero (c.regs r - c.word tr (c.regs b))
  | jnz _ => c
  | je _ => c
  | ret => c.drop

/-- The instruction after the one at `pc`. -/
def next (c : Paged) (pc : ℕ) : PagedOp → ℕ
  | jnz target => if c.eflags &&& zeroFlag = 0 then target else pc + 1
  | je target => if c.eflags &&& zeroFlag = 0 then pc + 1 else target
  | _ => pc + 1

/-- An instruction that goes on with the next one. -/
def straight : PagedOp → Bool
  | jnz _ => false
  | je _ => false
  | ret => false
  | _ => true

end PagedOp

/-- The run of a function from the instruction `pc` on, to its return to `a`. -/
inductive PagedRun (tr : ℕ → ℕ) (code : List PagedOp) : ℕ → Paged → UInt32 → Paged → Prop where
  | op {pc : ℕ} {i : PagedOp} {c c' : Paged} {a : UInt32} : code[pc]? = some i → i ≠ .ret →
    PagedRun tr code (i.next c pc) (i.exec tr c) a c' → PagedRun tr code pc c a c'
  | ret {pc : ℕ} {c : Paged} : code[pc]? = some .ret →
    PagedRun tr code pc c (c.word tr (c.regs .esp)) c.drop

section

variable {tr : ℕ → ℕ} {code : List PagedOp} {pc : ℕ} {i : PagedOp} {c c' : Paged}
  {a b v : UInt32} {f : ℕ → ℕ} {m : Mem} {lo hi x y : ℕ}

/-! ## Runs -/

theorem PagedRun.op_iff (hi : code[pc]? = some i) (hne : i ≠ .ret) : PagedRun tr code pc c a c' ↔
    PagedRun tr code (i.next c pc) (i.exec tr c) a c' := by
  refine ⟨fun h => ?_, .op hi hne⟩
  cases h with
  | op hi' _ h =>
    obtain rfl := Option.some.inj (hi.symm.trans hi')
    exact h
  | ret hi' => exact absurd (Option.some.inj (hi.symm.trans hi')) hne

theorem PagedRun.ret_iff (hi : code[pc]? = some .ret) : PagedRun tr code pc c a c' ↔
    a = c.word tr (c.regs .esp) ∧ c' = c.drop := by
  refine ⟨fun h => ?_, ?_⟩
  · cases h with
    | op hi' hne _ => exact absurd (Option.some.inj (hi'.symm.trans hi)) hne
    | ret => exact ⟨rfl, rfl⟩
  · rintro ⟨rfl, rfl⟩
    exact .ret hi

/-- A run of instructions without jumps. -/
theorem PagedRun.ops_iff (ops : List PagedOp) (hops : ∀ i ∈ ops, i.straight)
    (hcode : ∀ k < ops.length, code[pc + k]? = ops[k]?) : PagedRun tr code pc c a c' ↔
      PagedRun tr code (pc + ops.length) (ops.foldl (PagedOp.exec tr) c) a c' := by
  induction ops generalizing pc c with
  | nil => rfl
  | cons i ops ih =>
    have hstraight := hops i List.mem_cons_self
    have hnext : i.next c pc = pc + 1 := by
      cases i <;> first | rfl | cases hstraight
    have hne : i ≠ .ret := by
      rintro rfl
      cases hstraight
    have hfirst : code[pc]? = some i := hcode 0 (Nat.succ_pos _)
    rw [PagedRun.op_iff hfirst hne, hnext, ih (fun j hj => hops j (List.mem_cons_of_mem i hj)),
      List.foldl_cons, List.length_cons, Nat.add_assoc, Nat.add_comm 1]
    intro k hk
    rw [Nat.add_assoc, Nat.add_comm 1]
    exact hcode (k + 1) (Nat.succ_lt_succ hk)

/-- A function may change `eax`, `ecx` and `edx`, and the memory. -/
structure Paged.Kept (c d : Paged) : Prop where
  cr0 : d.cr0 = c.cr0
  eflags : d.eflags = c.eflags
  ebx : d.regs .ebx = c.regs .ebx
  ebp : d.regs .ebp = c.regs .ebp
  esi : d.regs .esi = c.regs .esi
  edi : d.regs .edi = c.regs .edi

/-- A flag that is set, cleared and set again. -/
theorem and_or_pagingFlag {x : UInt32} (h : x &&& pagingFlag ≠ 0) :
    x &&& 0x7FFFFFFF ||| 0x80000000 = x := by
  have hflag : x &&& pagingFlag = 0x80000000 := by
    have hnat : (x &&& pagingFlag).toNat = (x.toNat.testBit 31).toNat * 2 ^ 31 := by
      rw [UInt32.toNat_and]
      exact Nat.and_two_pow x.toNat 31
    cases hbit : x.toNat.testBit 31 with
    | false =>
      rw [hbit, Bool.toNat_false, Nat.zero_mul] at hnat
      exact absurd (UInt32.toNat_inj.mp hnat) h
    | true =>
      rw [hbit, Bool.toNat_true, Nat.one_mul] at hnat
      exact UInt32.toNat_inj.mp (hnat.trans (by decide))
  rw [← hflag]
  refine UInt32.toBitVec_inj.mp ?_
  rw [UInt32.toBitVec_or, UInt32.toBitVec_and, UInt32.toBitVec_and, ← BitVec.and_or_distrib_left]
  exact BitVec.and_allOnes

theorem Paged.drop_esp : c.drop.regs .esp = c.regs .esp + 4 := by
  unfold Paged.drop Paged.set
  dsimp only
  rw [Function.update_self]

theorem Paged.Kept.drop {d : Paged} (h : c.Kept d) : c.Kept d.drop :=
  ⟨h.cr0, h.eflags, h.ebx, h.ebp, h.esi, h.edi⟩

/-- What a comparison looks at. -/
theorem word_sub_eq_zero {w : UInt32} : v - w = 0 ↔ v = w := by
  refine ⟨fun h => ?_, fun h => by rw [h, UInt32.sub_self]⟩
  rw [← UInt32.sub_add_cancel v w, h, UInt32.zero_add]

theorem Paged.setZero_zeroFlag : (c.setZero v).eflags &&& zeroFlag = 0 ↔ v ≠ 0 := by
  unfold Paged.setZero
  dsimp only
  split_ifs with hv
  · refine iff_of_false (fun h => ?_) (not_not_intro hv)
    rw [← UInt32.toBitVec_inj, UInt32.toBitVec_and, UInt32.toBitVec_or,
      BitVec.and_or_distrib_right, BitVec.and_self] at h
    exact absurd (BitVec.or_eq_zero_iff.mp h).2 (by decide)
  · refine iff_of_true ?_ hv
    rw [UInt32.and_assoc]
    exact UInt32.and_zero

/-! ## Memory -/

theorem storeAt_of_ne (h : ∀ k < 4, x ≠ f (y + k)) : storeAt f m y v x = m x := by
  have hzero : x ≠ f y := h 0 (by decide)
  unfold storeAt
  rw [if_neg hzero, if_neg (h 1 (by decide)), if_neg (h 2 (by decide)), if_neg (h 3 (by decide))]

/-- Where the bytes have places of their own, a store is one to the memory that is seen. -/
theorem storeAt_comp (hf : Set.InjOn f (Set.Ico lo hi)) (hy : lo ≤ y) (hy' : y + 4 ≤ hi)
    (hx : lo ≤ x) (hx' : x < hi) :
    storeAt f m y v (f x) = store32 (m ∘ f) y v.toNat x := by
  have hiff : ∀ k < 4, f x = f (y + k) ↔ x = y + k := fun k hk =>
    ⟨fun h => hf ⟨hx, hx'⟩ ⟨by omega, by omega⟩ h, congrArg f⟩
  have hzero : f x = f y ↔ x = y := hiff 0 (by decide)
  unfold storeAt store32
  rw [if_congr hzero rfl rfl, if_congr (hiff 1 (by decide)) rfl rfl,
    if_congr (hiff 2 (by decide)) rfl rfl, if_congr (hiff 3 (by decide)) rfl rfl]
  rfl

/-- Words are the same if their bytes are. -/
theorem load32_inj {m' : Mem} {a b : ℕ} :
    load32 m a = load32 m' b ↔ ∀ k < 4, m (a + k) = m' (b + k) := by
  have hlt := fun x => (m x).toNat_lt
  have hlt' := fun x => (m' x).toNat_lt
  constructor
  · intro h k hk
    have h₀ := hlt a
    have h₁ := hlt (a + 1)
    have h₂ := hlt (a + 2)
    have h₃ := hlt (a + 3)
    have h₀' := hlt' b
    have h₁' := hlt' (b + 1)
    have h₂' := hlt' (b + 2)
    have h₃' := hlt' (b + 3)
    unfold load32 at h
    refine UInt8.toNat_inj.mp ?_
    match k, hk with
    | 0, _ => simp only [Nat.add_zero]; omega
    | 1, _ => omega
    | 2, _ => omega
    | 3, _ => omega
  · intro h
    have hzero : m a = m' b := h 0 (by decide)
    unfold load32
    rw [hzero, h 1 (by decide), h 2 (by decide), h 3 (by decide)]

/-- A word that is copied. -/
theorem store32_word {m' : Mem} {a : ℕ} : store32 m y (load32 m' a) x =
    if y ≤ x ∧ x < y + 4 then m' (a + (x - y)) else m x := by
  have h₀ := (m' a).toNat_lt
  have h₁ := (m' (a + 1)).toNat_lt
  have h₂ := (m' (a + 2)).toNat_lt
  have h₃ := (m' (a + 3)).toNat_lt
  have hbyte : ∀ b : UInt8, ∀ n : ℕ, n % 256 = b.toNat → UInt8.ofNat n = b := fun b n h =>
    UInt8.toNat_inj.mp (UInt8.toNat_ofNat'.trans h)
  split_ifs with hx
  · obtain ⟨k, rfl⟩ := Nat.exists_eq_add_of_le hx.1
    have hk : k < 4 := by omega
    rw [Nat.add_sub_cancel_left]
    unfold store32 load32
    match k, hk with
    | 0, _ => rw [if_pos (Nat.add_zero y)]; exact hbyte (m' a) _ (by omega)
    | 1, _ => rw [if_neg (by omega), if_pos rfl]; exact hbyte _ _ (by omega)
    | 2, _ => rw [if_neg (by omega), if_neg (by omega), if_pos rfl]; exact hbyte _ _ (by omega)
    | 3, _ =>
      rw [if_neg (by omega), if_neg (by omega), if_neg (by omega), if_pos rfl]
      exact hbyte _ _ (by omega)
  · exact store32_of_outside (by omega)

/-! ## The stack -/

/-- `d` has the words `ws` on the stack of `c`, which starts at `lo`. They are where `tr` says. -/
structure Paged.Pushed (tr : ℕ → ℕ) (lo hi : ℕ) (c d : Paged) (ws : List UInt32) : Prop where
  esp : (d.regs .esp).toNat + 4 * ws.length = (c.regs .esp).toNat
  stack : Words (d.phys ∘ tr) (d.regs .esp).toNat ws
  above : ∀ x, (c.regs .esp).toNat ≤ x → x < hi → d.phys (tr x) = c.phys (tr x)
  phys : ∀ x, (∀ y, lo ≤ y → y < (c.regs .esp).toNat → x ≠ tr y) → d.phys x = c.phys x

theorem Paged.place_of_paging (h : c.cr0 &&& pagingFlag ≠ 0) : c.place tr = tr := by
  funext x
  unfold Paged.place
  rw [if_neg h]

theorem Paged.place_of_physical (h : c.cr0 &&& pagingFlag = 0) : c.place tr = id := by
  funext x
  unfold Paged.place
  rw [if_pos h]
  rfl

theorem Paged.word_of_paging (h : c.cr0 &&& pagingFlag ≠ 0) :
    c.word tr a = UInt32.ofNat (load32 (c.phys ∘ tr) a.toNat) :=
  congrArg (fun f => UInt32.ofNat (load32 (c.phys ∘ f) a.toNat)) (place_of_paging h)

theorem Paged.word_of_physical (h : c.cr0 &&& pagingFlag = 0) :
    c.word tr a = UInt32.ofNat (load32 c.phys a.toNat) :=
  congrArg (fun f => UInt32.ofNat (load32 (c.phys ∘ f) a.toNat)) (place_of_physical h)

/-- Reading a word of the stack, with paging. -/
theorem Paged.word_of_words {p i : ℕ} {ws : List UInt32} {w : UInt32}
    (h : c.cr0 &&& pagingFlag ≠ 0) (hws : Words (c.phys ∘ tr) p ws) (hi : ws[i]? = some w)
    (ha : a.toNat = p + 4 * i) : c.word tr a = w := by
  rw [word_of_paging h, ha, hws.load hi, UInt32.ofNat_toNat]

/-- A store without paging. -/
theorem storeAt_id : storeAt id m y v = store32 m y v.toNat := rfl

theorem Paged.push_regs_esp : (c.push tr v).regs .esp = c.regs .esp - 4 := by
  unfold Paged.push Paged.store Paged.set
  dsimp only
  rw [Function.update_self]

namespace Paged.Pushed

variable {d e : Paged} {ws : List UInt32}

theorem refl (tr : ℕ → ℕ) (lo hi : ℕ) (c : Paged) : c.Pushed tr lo hi c [] :=
  ⟨rfl, trivial, fun _ _ _ => rfl, fun _ _ => rfl⟩

theorem congr (h : c.Pushed tr lo hi d ws) (hesp : e.regs .esp = d.regs .esp)
    (hphys : e.phys = d.phys) : c.Pushed tr lo hi e ws :=
  ⟨hesp ▸ h.esp, by rw [hesp, hphys]; exact h.stack, hphys ▸ h.above, hphys ▸ h.phys⟩

theorem push (h : c.Pushed tr lo hi d ws) (htr : Set.InjOn tr (Set.Ico lo hi))
    (hroom : lo + 4 * ws.length + 4 ≤ (c.regs .esp).toNat) (hhi : (c.regs .esp).toNat ≤ hi)
    (hpaging : d.cr0 &&& pagingFlag ≠ 0) (v : UInt32) :
    c.Pushed tr lo hi (d.push tr v) (v :: ws) := by
  have hesp := h.esp
  have hsub : (d.regs .esp - 4).toNat + 4 = (d.regs .esp).toNat := by
    have hle : (4 : UInt32) ≤ d.regs .esp := by
      rw [UInt32.le_iff_toNat_le]
      exact Nat.le_trans (Nat.le_add_left 4 lo) (by omega)
    rw [UInt32.toNat_sub_of_le _ _ hle]
    exact Nat.sub_add_cancel (UInt32.le_iff_toNat_le.mp hle)
  have hphys : (d.push tr v).phys = storeAt tr d.phys (d.regs .esp - 4).toNat v :=
    congrArg (fun f => storeAt f d.phys (d.regs .esp - 4).toNat v) (place_of_paging hpaging)
  have hstore : ∀ x, lo ≤ x → x < hi → ((d.push tr v).phys ∘ tr) x =
      store32 (d.phys ∘ tr) (d.regs .esp - 4).toNat v.toNat x := fun x hx hx' => by
    rw [hphys]
    exact storeAt_comp htr (by omega) (by omega) hx hx'
  refine ⟨?_, ⟨?_, ?_⟩, fun x hx hx' => ?_, fun x hx => ?_⟩
  · rw [push_regs_esp, List.length_cons]
    omega
  · rw [push_regs_esp, load32_congr fun x hx hx' => hstore x (by omega) (by omega)]
    exact load32_store32_eq rfl v.toNat_lt
  · rw [push_regs_esp, hsub]
    refine Words.congr h.stack fun x hx hx' => ?_
    rw [hstore x (by omega) (by omega)]
    exact store32_of_outside (by omega)
  · refine (hstore x (by omega) hx').trans ?_
    rw [store32_of_outside (by omega)]
    exact h.above x hx hx'
  · rw [hphys, storeAt_of_ne fun k hk => hx _ (by omega) (by omega)]
    exact h.phys x hx

/-- Reading a word from above the stack, with paging. -/
theorem word_above (h : c.Pushed tr lo hi d ws) (hpaging : d.cr0 &&& pagingFlag ≠ 0)
    (hpaging' : c.cr0 &&& pagingFlag ≠ 0) (ha : (c.regs .esp).toNat ≤ a.toNat)
    (ha' : a.toNat + 4 ≤ hi) : d.word tr a = c.word tr a := by
  rw [word_of_paging hpaging, word_of_paging hpaging']
  exact congrArg UInt32.ofNat (load32_congr fun x hx hx' => h.above x (by omega) (by omega))

end Paged.Pushed

end

end RawOS.X86
