import Mathlib.Logic.Function.Basic
import RawOS.Mem

/-!
# A processor with a stack and two rings

The part of a 32-bit x86 that the entry to a kernel and the return from it use: the stack, the flag
of the interrupts, the gates, and `iret`. Descriptors are not checked. `Cpu.Pushed` says what is on
the stack after pushes, and `InterruptedRun.simulates` that code on the stack of the kernel does not
see the interrupts that it is interrupted by.
-/

namespace RawOS.X86

/-- The general registers. -/
inductive Reg where
  | eax | ecx | edx | ebx | esp | ebp | esi | edi
  deriving DecidableEq

/-- The segment registers for data. -/
inductive Seg where
  | ds | es | fs | gs
  deriving DecidableEq

/-- The state of the processor, and the memory that it sees. -/
structure Cpu where
  regs : Reg → UInt32
  segs : Seg → UInt32
  eip : UInt32
  cs : UInt32
  ss : UInt32
  eflags : UInt32
  mem : Mem

/-- Where a gate leads to. -/
structure Gate where
  selector : UInt32
  offset : UInt32

/-- The stack for ring 0. -/
structure TaskState where
  ss0 : UInt32
  esp0 : UInt32

/-- The flag `IF`. -/
def interruptFlag : UInt32 := 0x200

/-- The flags that an interrupt gate clears: `TF`, `IF`, `NT`, `RF` and `VM`. -/
def gateFlags : UInt32 := 0x34300

/-- The requested privilege level of a selector. -/
def ringOf (selector : UInt32) : ℕ := selector.toNat % 4

namespace Cpu

variable (c : Cpu)

def esp : ℕ := (c.regs .esp).toNat

def set (r : Reg) (v : UInt32) : Cpu := { c with regs := Function.update c.regs r v }

def push (v : UInt32) : Cpu :=
  { c with
    regs := Function.update c.regs .esp (c.regs .esp - 4)
    mem := store32 c.mem (c.regs .esp - 4).toNat v.toNat }

/-- The `i`-th word of the stack. -/
def top (i : ℕ) : UInt32 := UInt32.ofNat (load32 c.mem (c.esp + 4 * i))

def drop (n : UInt32) : Cpu := c.set .esp (c.regs .esp + n)

/-- Pushes of the words `ws`, of which the last is pushed first. -/
def pushAll (c : Cpu) (ws : List UInt32) : Cpu := ws.foldr (fun w c => c.push w) c

/-- The registers in the order in which `pusha` leaves them. -/
def registers : List UInt32 :=
  [c.regs .edi, c.regs .esi, c.regs .ebp, c.regs .esp, c.regs .ebx, c.regs .edx, c.regs .ecx,
    c.regs .eax]

def pusha : Cpu := c.pushAll c.registers

/-- `esp` is not among the registers that are loaded. -/
def popa : Cpu :=
  { c with regs := fun
    | .edi => c.top 0
    | .esi => c.top 1
    | .ebp => c.top 2
    | .esp => c.regs .esp + 32
    | .ebx => c.top 4
    | .edx => c.top 5
    | .ecx => c.top 6
    | .eax => c.top 7 }

/-- A return to an outer ring takes the stack along. -/
def iret : Cpu :=
  if ringOf c.cs < ringOf (c.top 1) then
    { c.set .esp (c.top 3) with eip := c.top 0, cs := c.top 1, eflags := c.top 2, ss := c.top 4 }
  else { c.drop 12 with eip := c.top 0, cs := c.top 1, eflags := c.top 2 }

/-- The stack on which an interrupt is served. -/
def switchStack (t : TaskState) (g : Gate) : Cpu :=
  if ringOf g.selector < ringOf c.cs then { c.set .esp t.esp0 with ss := t.ss0 } else c

/-- What an interrupt pushes, the last word first. -/
def saved (g : Gate) (error : Option UInt32) : List UInt32 :=
  error.toList ++ [c.eip, c.cs, c.eflags] ++
    if ringOf g.selector < ringOf c.cs then [c.regs .esp, c.ss] else []

/-- An interrupt through a gate, with the error code that the processor may push. -/
def interrupt (t : TaskState) (g : Gate) (error : Option UInt32) : Cpu :=
  { (c.switchStack t g).pushAll (c.saved g error) with
    eip := g.offset
    cs := g.selector
    eflags := c.eflags &&& ~~~gateFlags }

end Cpu

/-- The instructions. -/
inductive Instr where
  | cli
  | sti
  | pushImm (v : UInt32)
  | push (r : Reg)
  | pop (r : Reg)
  | pushf
  | pusha
  | popa
  | addEsp (n : UInt32)
  | mov (r s : Reg)
  | movStack (r : Reg) (i : ℕ)
  | movAx (v : UInt32)
  | movSeg (s : Seg)
  | orImm (r : Reg) (v : UInt32)
  | iret
  deriving DecidableEq

/-- `movStack` reads the `i`-th word of the stack, and `movAx` and `movSeg` are about the low half of
`eax`. -/
def Instr.exec (c : Cpu) : Instr → Cpu
  | cli => { c with eflags := c.eflags &&& ~~~interruptFlag }
  | sti => { c with eflags := c.eflags ||| interruptFlag }
  | pushImm v => c.push v
  | push r => c.push (c.regs r)
  | pop r => (c.drop 4).set r (c.top 0)
  | pushf => c.push c.eflags
  | pusha => c.pusha
  | popa => c.popa
  | addEsp n => c.drop n
  | mov r s => c.set r (c.regs s)
  | movStack r i => c.set r (c.top i)
  | movAx v => c.set .eax (c.regs .eax &&& 0xFFFF0000 ||| v)
  | movSeg s => { c with segs := Function.update c.segs s (c.regs .eax &&& 0xFFFF) }
  | orImm r v => c.set r (c.regs r ||| v)
  | iret => c.iret

/-- The gate at `p`. -/
def gateAt (m : Mem) (p : ℕ) : Gate where
  selector := UInt32.ofNat (load16 m (p + 2))
  offset := UInt32.ofNat (load16 m p + 65536 * load16 m (p + 6))

/-- Straight-line code that may call a function. -/
inductive Code where
  | instr (i : Instr)
  | call

/-- A run of code whose calls behave as in `call`. -/
inductive Run (call : Cpu → Cpu → Prop) : List Code → Cpu → Cpu → Prop where
  | nil (c : Cpu) : Run call [] c c
  | instr {i : Instr} {l : List Code} {c c' : Cpu} : Run call l (i.exec c) c' →
    Run call (.instr i :: l) c c'
  | call {l : List Code} {c c₁ c' : Cpu} : call c c₁ → Run call l c₁ c' → Run call (.call :: l) c c'

/-! ## Words on the stack -/

/-- The words from the address `a` on. -/
def Words (m : Mem) : ℕ → List UInt32 → Prop
  | _, [] => True
  | a, w :: ws => load32 m a = w.toNat ∧ Words m (a + 4) ws

section

variable {c c' d : Cpu} {m m' : Mem} {lo a i : ℕ} {v w : UInt32} {ws : List UInt32}

theorem Words.congr (h : Words m a ws) (hm : ∀ x, a ≤ x → x < a + 4 * ws.length → m' x = m x) :
    Words m' a ws := by
  induction ws generalizing a with
  | nil => trivial
  | cons w ws ih =>
    rw [List.length_cons] at hm
    refine ⟨?_, ih h.2 fun x hx hx' => hm x (by omega) (by omega)⟩
    rw [load32_congr fun x hx hx' => hm x hx (by omega), h.1]

theorem Words.load (h : Words m a ws) (hi : ws[i]? = some w) : load32 m (a + 4 * i) = w.toNat := by
  induction ws generalizing a i with
  | nil => cases hi
  | cons v ws ih =>
    cases i with
    | zero =>
      obtain rfl := Option.some.inj hi
      exact h.1
    | succ i =>
      rw [List.getElem?_cons_succ] at hi
      rw [← ih h.2 hi]
      congr 1
      omega

/-- What is on the stack of `c`, the top first. -/
def Cpu.Stack (c : Cpu) (ws : List UInt32) : Prop := Words c.mem c.esp ws

theorem Cpu.Stack.top (h : c.Stack ws) (hi : ws[i]? = some w) : c.top i = w := by
  unfold Cpu.top
  rw [Words.load h hi, UInt32.ofNat_toNat]

/-- `c'` has the words `ws` on the stack of `c`, which starts at `lo`. -/
structure Cpu.Pushed (lo : ℕ) (c c' : Cpu) (ws : List UInt32) : Prop where
  stack : c'.Stack ws
  esp : c'.esp + 4 * ws.length = c.esp
  mem : ∀ x, x < lo ∨ c.esp ≤ x → c'.mem x = c.mem x

/-! ## Pushes and pops -/

@[simp] theorem Cpu.push_regs_of_ne {r : Reg} (h : r ≠ .esp) : (c.push v).regs r = c.regs r :=
  Function.update_of_ne h ..

@[simp] theorem Cpu.push_segs : (c.push v).segs = c.segs := rfl
@[simp] theorem Cpu.push_eip : (c.push v).eip = c.eip := rfl
@[simp] theorem Cpu.push_cs : (c.push v).cs = c.cs := rfl
@[simp] theorem Cpu.push_ss : (c.push v).ss = c.ss := rfl
@[simp] theorem Cpu.push_eflags : (c.push v).eflags = c.eflags := rfl

theorem Cpu.push_esp (h : 4 ≤ c.esp) : (c.push v).esp + 4 = c.esp := by
  have hle : (4 : UInt32) ≤ c.regs .esp := h
  have heq : (c.push v).esp = (c.regs .esp - 4).toNat := by
    unfold Cpu.esp Cpu.push
    dsimp only
    rw [Function.update_self]
  rw [heq, UInt32.toNat_sub_of_le _ _ hle]
  exact Nat.sub_add_cancel h

theorem Cpu.push_mem : (c.push v).mem = store32 c.mem (c.push v).esp v.toNat := by
  unfold Cpu.esp Cpu.push
  dsimp only
  rw [Function.update_self]

/-- A register of a number with a smaller one. -/
theorem Cpu.esp_inj (h : c.esp = c'.esp) : c.regs .esp = c'.regs .esp := UInt32.toNat_inj.mp h

theorem Cpu.set_regs {r : Reg} : (c.set r v).regs r = v := by
  unfold Cpu.set
  dsimp only
  rw [Function.update_self]

theorem Cpu.drop_regs_esp {n : UInt32} : (c.drop n).regs .esp = c.regs .esp + n := Cpu.set_regs

/-- Where the stack does not reach the end of the memory, it does not wrap around. -/
theorem Cpu.drop_esp {n : UInt32} (h : c.esp + n.toNat < 4294967296) :
    (c.drop n).esp = c.esp + n.toNat := by
  unfold Cpu.esp at h ⊢
  rw [Cpu.drop_regs_esp, UInt32.toNat_add]
  exact Nat.mod_eq_of_lt h

namespace Cpu.Pushed

theorem refl (lo : ℕ) (c : Cpu) : c.Pushed lo c [] := ⟨trivial, rfl, fun _ _ => rfl⟩

theorem push (h : c.Pushed lo c' ws) (hroom : lo + 4 * ws.length + 4 ≤ c.esp) (v : UInt32) :
    c.Pushed lo (c'.push v) (v :: ws) := by
  have hesp := h.esp
  have hpush := c'.push_esp (v := v) (by omega)
  refine ⟨⟨?_, ?_⟩, ?_, fun x hx => ?_⟩
  · rw [Cpu.push_mem]
    exact load32_store32_eq rfl (UInt32.toNat_lt v)
  · rw [hpush]
    refine Words.congr h.stack fun x hx _ => ?_
    rw [Cpu.push_mem]
    exact store32_of_outside (by omega)
  · rw [List.length_cons]
    omega
  · rw [Cpu.push_mem, store32_of_outside (by omega), h.mem x (by omega)]

theorem pushAll (h : c.Pushed lo c' ws) (vs : List UInt32)
    (hroom : lo + 4 * (vs.length + ws.length) ≤ c.esp) : c.Pushed lo (c'.pushAll vs) (vs ++ ws) := by
  induction vs with
  | nil => exact h
  | cons v vs ih =>
    rw [List.length_cons] at hroom
    refine (ih (by omega)).push ?_ v
    rw [List.length_append]
    omega

theorem congr (h : c.Pushed lo c' ws) (hesp : d.esp = c'.esp) (hmem : d.mem = c'.mem) :
    c.Pushed lo d ws := by
  refine ⟨?_, by rw [hesp, h.esp], hmem ▸ h.mem⟩
  unfold Cpu.Stack
  rw [hesp, hmem]
  exact h.stack

/-- A word is off the stack. -/
theorem pop (h : c.Pushed lo c' (v :: ws)) : c.Pushed lo (c'.drop 4) ws := by
  have hesp := h.esp
  have hlt : c.esp < 4294967296 := UInt32.toNat_lt _
  rw [List.length_cons] at hesp
  have hdrop : (c'.drop 4).esp = c'.esp + 4 := Cpu.drop_esp (by
    rw [show (4 : UInt32).toNat = 4 from rfl]
    omega)
  refine ⟨?_, by omega, h.mem⟩
  unfold Cpu.Stack
  rw [hdrop]
  exact h.stack.2

/-- The stack is empty again. -/
theorem drop (h : c.Pushed lo c' ws) {n : UInt32} (hn : n.toNat = 4 * ws.length) :
    c'.regs .esp + n = c.regs .esp := by
  have hesp := h.esp
  have hlt := UInt32.toNat_lt (c.regs .esp)
  refine UInt32.toNat_inj.mp ?_
  unfold Cpu.esp at hesp
  rw [UInt32.toNat_add, hn, hesp, Nat.mod_eq_of_lt hlt]

end Cpu.Pushed

@[simp] theorem Cpu.pushAll_regs {r : Reg} (ws : List UInt32) (h : r ≠ .esp) :
    (c.pushAll ws).regs r = c.regs r := by
  induction ws with
  | nil => rfl
  | cons w ws ih => exact (Cpu.push_regs_of_ne h).trans ih

@[simp] theorem Cpu.pushAll_segs : (c.pushAll ws).segs = c.segs := by
  induction ws with
  | nil => rfl
  | cons w ws ih => exact ih

@[simp] theorem Cpu.pushAll_cs : (c.pushAll ws).cs = c.cs := by
  induction ws with
  | nil => rfl
  | cons w ws ih => exact ih

@[simp] theorem Cpu.pushAll_ss : (c.pushAll ws).ss = c.ss := by
  induction ws with
  | nil => rfl
  | cons w ws ih => exact ih

@[simp] theorem Cpu.pushAll_eflags : (c.pushAll ws).eflags = c.eflags := by
  induction ws with
  | nil => rfl
  | cons w ws ih => exact ih

theorem Cpu.length_registers : c.registers.length = 8 := rfl

theorem Cpu.switchStack_regs {t : TaskState} {g : Gate} {r : Reg} (h : r ≠ .esp) :
    (c.switchStack t g).regs r = c.regs r := by
  unfold Cpu.switchStack
  split_ifs
  · exact Function.update_of_ne h ..
  · rfl

theorem Cpu.switchStack_segs {t : TaskState} {g : Gate} : (c.switchStack t g).segs = c.segs := by
  unfold Cpu.switchStack
  split_ifs <;> rfl

theorem Cpu.top_drop {n : UInt32} {k : ℕ} (hn : n.toNat = 4 * k) (h : c.esp + 4 * k < 4294967296)
    (i : ℕ) : (c.drop n).top i = c.top (k + i) := by
  have hmem : (c.drop n).mem = c.mem := rfl
  unfold Cpu.top
  rw [Cpu.drop_esp (by omega), hn, hmem]
  congr 2
  omega

theorem Cpu.popa_esp (h : c.esp + 32 < 4294967296) : c.popa.esp = c.esp + 32 := by
  have heq : c.popa.esp = (c.drop 32).esp := by
    unfold Cpu.esp
    rw [Cpu.drop_regs_esp]
    rfl
  rw [heq]
  exact Cpu.drop_esp h

/-- The stack after `popa`, without two more words. -/
theorem Cpu.popa_drop_top (h : c.esp + 40 < 4294967296) (i : ℕ) :
    (c.popa.drop 8).top i = c.top (10 + i) := by
  have hesp := c.popa_esp (by omega)
  have hmem : c.popa.mem = c.mem := rfl
  rw [Cpu.top_drop (k := 2) rfl (by omega)]
  unfold Cpu.top
  rw [hesp, hmem]
  congr 2
  omega

/-- A return to an outer ring. -/
theorem Cpu.iret_outer {eip cs eflags esp ss : UInt32} (h : c.Stack [eip, cs, eflags, esp, ss])
    (hring : ringOf c.cs < ringOf cs) :
    c.iret = { c.set .esp esp with eip := eip, cs := cs, eflags := eflags, ss := ss } := by
  unfold Cpu.iret
  rw [h.top (i := 0) rfl, h.top (i := 1) rfl, h.top (i := 2) rfl, h.top (i := 3) rfl,
    h.top (i := 4) rfl, if_pos hring]

/-- What the stack holds when the code behind a gate starts. -/
theorem Cpu.interrupt_pushed {t : TaskState} {g : Gate} {error : Option UInt32}
    (hroom : lo + 4 * (c.saved g error).length ≤ (c.switchStack t g).esp) :
    (c.switchStack t g).Pushed lo (c.interrupt t g error) (c.saved g error) := by
  have h := (Cpu.Pushed.refl lo (c.switchStack t g)).pushAll (c.saved g error) hroom
  rw [List.append_nil] at h
  exact h.congr rfl rfl

end

/-! ## Runs -/

section

variable {call : Cpu → Cpu → Prop} {i : Instr} {l : List Code} {c c' : Cpu}

theorem Run.instr_iff {i : Instr} : Run call (.instr i :: l) c c' ↔ Run call l (i.exec c) c' :=
  ⟨fun h => by cases h with | instr h => exact h, .instr⟩

theorem Run.call_iff : Run call (.call :: l) c c' ↔ ∃ c₁, call c c₁ ∧ Run call l c₁ c' :=
  ⟨fun h => by cases h with | call h h' => exact ⟨_, h, h'⟩, fun ⟨_, h, h'⟩ => .call h h'⟩

theorem Run.nil_iff : Run call [] c c' ↔ c' = c :=
  ⟨fun h => by cases h with | nil => rfl, by rintro rfl; exact .nil _⟩

/-- Code runs to its end if its calls return. -/
theorem Run.exists (hcall : ∀ c, ∃ c', call c c') (l : List Code) (c : Cpu) :
    ∃ c', Run call l c c' := by
  induction l generalizing c with
  | nil => exact ⟨c, .nil c⟩
  | cons i l ih =>
    cases i with
    | instr i =>
      obtain ⟨c', h⟩ := ih (i.exec c)
      exact ⟨c', .instr h⟩
    | call =>
      obtain ⟨c₁, h₁⟩ := hcall c
      obtain ⟨c', h⟩ := ih c₁
      exact ⟨c', .call h₁ h⟩

/-- A return does not look at the flags. -/
theorem Cpu.iret_setFlags (c : Cpu) (f : UInt32) : ({ c with eflags := f } : Cpu).iret = c.iret := rfl

end

/-! ## Interrupts between instructions -/

/-- The bytes that an interrupt and its code need on the stack. -/
def interruptRoom : ℕ := 128

/-- The stack of ring 0, from `lo` to `hi`, has room for an interrupt. Two words are on it. -/
def Cpu.Room (lo hi : ℕ) (c : Cpu) : Prop := lo + interruptRoom ≤ c.esp ∧ c.esp + 8 ≤ hi

instance (lo hi : ℕ) (c : Cpu) : Decidable (c.Room lo hi) := inferInstanceAs (Decidable (_ ∧ _))

/-- A run of code whose calls behave as in `call`. Between the instructions there may be interrupts,
of the vectors `vectors`, whose code and its calls, `serve`, may be interrupted as well. -/
inductive InterruptedRun (lo hi : ℕ) (t : TaskState) (gate : ℕ → Gate) (stub : ℕ → List Code)
    (vectors : Set ℕ) (serve : Cpu → Cpu → Prop) :
    (Cpu → Cpu → Prop) → List Code → Cpu → Cpu → Prop where
  | nil {call : Cpu → Cpu → Prop} (c : Cpu) :
    InterruptedRun lo hi t gate stub vectors serve call [] c c
  | instr {call : Cpu → Cpu → Prop} {i : Instr} {l : List Code} {c c' : Cpu} :
    lo + interruptRoom ≤ c.esp →
    InterruptedRun lo hi t gate stub vectors serve call l (i.exec c) c' →
    InterruptedRun lo hi t gate stub vectors serve call (.instr i :: l) c c'
  | call {call : Cpu → Cpu → Prop} {l : List Code} {c c₁ c' : Cpu} : call c c₁ →
    InterruptedRun lo hi t gate stub vectors serve call l c₁ c' →
    InterruptedRun lo hi t gate stub vectors serve call (.call :: l) c c'
  | interrupt {call : Cpu → Cpu → Prop} {v : ℕ} {l : List Code} {c c₁ c' : Cpu} : c.Room lo hi →
    v ∈ vectors → ringOf c.cs = 0 → c.eflags &&& interruptFlag ≠ 0 →
    InterruptedRun lo hi t gate stub vectors serve serve (stub v) (c.interrupt t (gate v) none) c₁ →
    InterruptedRun lo hi t gate stub vectors serve call l c₁ c' →
    InterruptedRun lo hi t gate stub vectors serve call l c c'

/-- `d` is `c`, but for the memory outside `P`. -/
structure Cpu.Agree (P : Set ℕ) (c d : Cpu) : Prop where
  eq : d = { c with mem := d.mem }
  mem : ∀ x ∈ P, d.mem x = c.mem x

/-- What an interrupt keeps: `P`, and in ring 0 the stack up to `hi`. -/
def Cpu.kept (P : Set ℕ) (hi : ℕ) (c : Cpu) : Set ℕ :=
  {x | x ∈ P ∨ ringOf c.cs = 0 ∧ c.esp ≤ x ∧ x < hi}

/-- The bytes on the stack after an instruction that reads no more than the `n` bytes on it. -/
def Instr.depth (n : ℕ) : Instr → Option ℕ
  | cli | sti | movAx _ | movSeg _ => some n
  | pushImm _ | push _ | pushf => some (n + 4)
  | pusha => some (n + 32)
  | popa => if 32 ≤ n then some (n - 32) else none
  | addEsp k => if k.toNat ≤ n then some (n - k.toNat) else none
  | _ => none

/-- The bytes on the stack at a call: the registers, two words of the stub, and five of the
processor. -/
def callDepth : ℕ := 60

/-- Code for an interrupt, on a stack of `n` bytes: it ends with its only `iret`. -/
inductive InterruptCode : ℕ → List Code → Prop where
  | iret {n : ℕ} : 20 ≤ n → InterruptCode n [.instr .iret]
  | instr {n k : ℕ} {i : Instr} {l : List Code} : i.depth n = some k → InterruptCode k l →
    InterruptCode n (.instr i :: l)
  | call {n : ℕ} {l : List Code} : callDepth ≤ n → InterruptCode n l → InterruptCode n (.call :: l)

/-- A call on a stack of ring 0 that ends at `hi`, behind interrupts that keep `P`. -/
structure CallBehind (P : Set ℕ) (hi : ℕ) (call : Cpu → Cpu → Prop) (c c' : Cpu) : Prop where
  ring : ringOf c.cs = 0
  depth : c.esp + callDepth ≤ hi
  call : ∃ d, c.Agree (c.kept P hi) d ∧ call d c'

section

variable {P : Set ℕ} {lo hi n k : ℕ} {c d e : Cpu} {v : UInt32} {ws : List UInt32}

namespace Cpu.Agree

theorem refl (P : Set ℕ) (c : Cpu) : c.Agree P c := ⟨rfl, fun _ _ => rfl⟩

theorem trans (h : c.Agree P d) (h' : d.Agree P e) : c.Agree P e := by
  refine ⟨?_, fun x hx => (h'.mem x hx).trans (h.mem x hx)⟩
  rw [h'.eq, h.eq]

theorem mono {Q : Set ℕ} (h : c.Agree P d) (hQ : ∀ x ∈ Q, x ∈ P) : c.Agree Q d :=
  ⟨h.eq, fun x hx => h.mem x (hQ x hx)⟩

theorem esp (h : c.Agree P d) : d.esp = c.esp := by
  rw [h.eq]
  rfl

theorem cs (h : c.Agree P d) : d.cs = c.cs := by rw [h.eq]

theorem kept (h : c.Agree P d) {Q : Set ℕ} : d.kept Q hi = c.kept Q hi := by
  unfold Cpu.kept
  rw [h.cs, h.esp]

/-- A word of the stack that is kept. -/
theorem top (h : c.Agree (c.kept P hi) d) (hring : ringOf c.cs = 0) {i : ℕ}
    (hi' : c.esp + 4 * i + 4 ≤ hi) : d.top i = c.top i := by
  unfold Cpu.top
  rw [h.esp, load32_congr fun x hx hx' => h.mem x (.inr ⟨hring, by omega, by omega⟩)]

theorem push (h : c.Agree (c.kept P hi) d) (hroom : 4 ≤ c.esp) (v : UInt32) :
    (c.push v).Agree ((c.push v).kept P hi) (d.push v) := by
  have hesp := c.push_esp (v := v) hroom
  have heq : (d.push v).esp = (c.push v).esp := by
    rw [h.eq]
    rfl
  refine ⟨?_, fun x hx => ?_⟩
  · rw [h.eq]
    rfl
  · rw [Cpu.push_mem, Cpu.push_mem, heq]
    by_cases hin : x < (c.push v).esp ∨ (c.push v).esp + 4 ≤ x
    · rw [store32_of_outside hin, store32_of_outside hin]
      refine h.mem x (hx.imp_right fun ⟨hring, hx, hx'⟩ => ⟨hring, ?_, hx'⟩)
      omega
    · -- a byte of the word that is pushed
      unfold store32
      split_ifs
      · rfl
      · rfl
      · rfl
      · rfl
      · omega

theorem pushAll (h : c.Agree (c.kept P hi) d) (hroom : 4 * ws.length ≤ c.esp) :
    (c.pushAll ws).Agree ((c.pushAll ws).kept P hi) (d.pushAll ws) ∧
      (c.pushAll ws).esp + 4 * ws.length = c.esp := by
  induction ws with
  | nil => exact ⟨h, rfl⟩
  | cons w ws ih =>
    rw [List.length_cons] at hroom ⊢
    obtain ⟨hagree, hesp⟩ := ih (by omega)
    have hpush := (c.pushAll ws).push_esp (v := w) (by omega)
    refine ⟨hagree.push (by omega) w, ?_⟩
    have heq : (c.pushAll (w :: ws)).esp = ((c.pushAll ws).push w).esp := rfl
    omega

end Cpu.Agree

theorem Cpu.kept_of_esp_le (hcs : d.cs = c.cs) (hesp : c.esp ≤ d.esp) :
    ∀ x ∈ d.kept P hi, x ∈ c.kept P hi := fun _ hx =>
  hx.imp_right fun ⟨hring, hx, hx'⟩ => ⟨hcs ▸ hring, Nat.le_trans hesp hx, hx'⟩

/-- What is on the stack at a call does not show the interrupts before it. -/
theorem CallBehind.top {call : Cpu → Cpu → Prop} (h : CallBehind P hi call c e) :
    ∃ d, call d e ∧ c.Agree (c.kept P hi) d ∧ ∀ i < 15, d.top i = c.top i := by
  obtain ⟨hring, hdepth, d, hd, hcall⟩ := h
  unfold callDepth at hdepth
  exact ⟨d, hcall, hd, fun i hi' => hd.top hring (by omega)⟩

/-- An instruction on the stack does the same to both. -/
theorem Instr.depth_exec {i : Instr} (hi' : i.depth n = some k) (h : c.Agree (c.kept P hi) d)
    (hring : ringOf c.cs = 0) (hroom : 32 ≤ c.esp) (hn : c.esp + n ≤ hi) (hend : hi < 4294967296) :
    (i.exec c).Agree ((i.exec c).kept P hi) (i.exec d) ∧ (i.exec c).cs = c.cs ∧
      (i.exec c).esp + k = c.esp + n := by
  have hregs : d.regs = c.regs := by rw [h.eq]
  have hpush : ∀ v, (c.push v).Agree ((c.push v).kept P hi) (d.push v) ∧ (c.push v).cs = c.cs ∧
      (c.push v).esp + (n + 4) = c.esp + n := fun v => by
    have hesp := c.push_esp (v := v) (by omega)
    exact ⟨h.push (by omega) v, rfl, by omega⟩
  cases i with
  | cli =>
    obtain rfl := Option.some.inj hi'
    refine ⟨⟨?_, h.mem⟩, rfl, rfl⟩
    rw [h.eq]
    rfl
  | sti =>
    obtain rfl := Option.some.inj hi'
    refine ⟨⟨?_, h.mem⟩, rfl, rfl⟩
    rw [h.eq]
    rfl
  | movAx v =>
    obtain rfl := Option.some.inj hi'
    refine ⟨⟨?_, h.mem⟩, rfl, rfl⟩
    rw [h.eq]
    rfl
  | movSeg s =>
    obtain rfl := Option.some.inj hi'
    refine ⟨⟨?_, h.mem⟩, rfl, rfl⟩
    rw [h.eq]
    rfl
  | pushImm v =>
    obtain rfl := Option.some.inj hi'
    exact hpush v
  | push r =>
    obtain rfl := Option.some.inj hi'
    unfold Instr.exec
    dsimp only
    rw [hregs]
    exact hpush _
  | pushf =>
    obtain rfl := Option.some.inj hi'
    have hflags : d.eflags = c.eflags := by rw [h.eq]
    unfold Instr.exec
    dsimp only
    rw [hflags]
    exact hpush _
  | pusha =>
    obtain rfl := Option.some.inj hi'
    have hsame : d.registers = c.registers := by
      unfold Cpu.registers
      rw [hregs]
    obtain ⟨hagree, hesp⟩ : (c.pushAll c.registers).Agree ((c.pushAll c.registers).kept P hi)
        (d.pushAll c.registers) ∧ (c.pushAll c.registers).esp + 4 * c.registers.length = c.esp :=
      h.pushAll hroom
    rw [Cpu.length_registers] at hesp
    unfold Instr.exec
    dsimp only
    unfold Cpu.pusha
    rw [hsame]
    exact ⟨hagree, Cpu.pushAll_cs, by omega⟩
  | popa =>
    unfold Instr.depth at hi'
    dsimp only at hi'
    split_ifs at hi' with hle
    obtain rfl := Option.some.inj hi'
    have htop : ∀ i < 8, d.top i = c.top i := fun i hlt => h.top hring (by omega)
    have hesp : (Instr.popa.exec c).esp = c.esp + 32 := Cpu.popa_esp (by omega)
    have hpopa : (Instr.popa.exec c).Agree (c.kept P hi) (Instr.popa.exec d) := by
      refine ⟨?_, h.mem⟩
      unfold Instr.exec Cpu.popa
      dsimp only
      rw [htop 0 (by decide), htop 1 (by decide), htop 2 (by decide), htop 4 (by decide),
        htop 5 (by decide), htop 6 (by decide), htop 7 (by decide), hregs, h.eq]
    exact ⟨hpopa.mono (Cpu.kept_of_esp_le rfl (by omega)), rfl, by omega⟩
  | addEsp m =>
    unfold Instr.depth at hi'
    dsimp only at hi'
    split_ifs at hi' with hle
    obtain rfl := Option.some.inj hi'
    have hesp : (Instr.addEsp m |>.exec c).esp = c.esp + m.toNat := Cpu.drop_esp (by omega)
    have hdrop : (Instr.addEsp m |>.exec c).Agree (c.kept P hi) (Instr.addEsp m |>.exec d) := by
      refine ⟨?_, h.mem⟩
      rw [h.eq]
      rfl
    exact ⟨hdrop.mono (Cpu.kept_of_esp_le rfl (by omega)), rfl, by omega⟩
  | _ => cases hi'

/-- A return does the same to both. -/
theorem Cpu.Agree.iret (h : c.Agree (c.kept P hi) d) (hring : ringOf c.cs = 0)
    (hn : c.esp + 20 ≤ hi) (hend : hi < 4294967296) :
    c.iret.Agree (c.iret.kept P hi) d.iret := by
  have htop : ∀ i < 5, d.top i = c.top i := fun i hlt => h.top hring (by omega)
  have hcs := h.cs
  have hiret : c.iret.Agree (c.kept P hi) d.iret := by
    unfold Cpu.iret
    rw [htop 0 (by decide), htop 1 (by decide), htop 2 (by decide), htop 3 (by decide),
      htop 4 (by decide), hcs]
    split_ifs
    · refine ⟨?_, h.mem⟩
      rw [h.eq]
      rfl
    · refine ⟨?_, h.mem⟩
      rw [h.eq]
      rfl
  refine hiret.mono fun x hx => hx.imp_right fun ⟨hring', hx, hx'⟩ => ⟨hring, ?_, hx'⟩
  -- in ring 0 the stack goes on behind the words that are popped
  unfold Cpu.iret at hring' hx
  split_ifs at hring' hx with hout
  · exact absurd hring' (Nat.ne_of_gt (Nat.zero_lt_of_lt hout))
  · have hesp : (c.drop 12).esp = c.esp + 12 := Cpu.drop_esp (by
      rw [show (12 : UInt32).toNat = 12 from rfl]
      omega)
    exact Nat.le_trans (Nat.le_add_right _ _) (hesp ▸ hx)

/-- Code that is interrupted does what it does without the interrupts, but for the memory that its
calls find, and that it leaves, outside of `P` and the stack: where by itself the code that serves an
interrupt keeps these. -/
theorem InterruptedRun.run {t : TaskState} {gate : ℕ → Gate} {stub : ℕ → List Code}
    {vectors : Set ℕ} {serve call : Cpu → Cpu → Prop} {l : List Code} {c' : Cpu}
    (hgate : ∀ v ∈ vectors, ringOf (gate v).selector = 0)
    (hstub : ∀ v ∈ vectors, InterruptCode 20 (stub v))
    (hserved : ∀ v ∈ vectors, ∀ c c' : Cpu, ringOf c.cs = 0 → c.Room lo hi →
      Run (CallBehind P hi serve) (stub v) (c.interrupt t (gate v) none) c' →
        c.Agree (c.kept P hi) c')
    (hend : hi < 4294967296) (hserve : ∀ c c', serve c c' → c'.esp = c.esp ∧ c'.cs = c.cs)
    (hcall : ∀ c c', call c c' → c'.esp = c.esp ∧ c'.cs = c.cs)
    (h : InterruptedRun lo hi t gate stub vectors serve call l c c')
    (hl : l = [] ∨ InterruptCode n l ∧ ringOf c.cs = 0 ∧ c.esp + n ≤ hi)
    (hd : d.Agree (d.kept P hi) c) :
    ∃ d', Run (CallBehind P hi call) l d d' ∧ d'.Agree (d'.kept P hi) c' := by
  induction h generalizing d n with
  | nil c => exact ⟨d, .nil d, hd⟩
  | @instr call i l c c' hroom hrun ih =>
    obtain ⟨hs, hring, hn⟩ := hl.resolve_left (List.cons_ne_nil _ _)
    have hring' : ringOf d.cs = 0 := hd.cs ▸ hring
    have hesp := hd.esp
    unfold interruptRoom at hroom
    cases hs with
    | iret hle =>
      obtain ⟨d', hrun', hd'⟩ := ih hcall (n := 0) (.inl rfl)
        (hd.iret hring' (by omega) hend)
      exact ⟨d', .instr hrun', hd'⟩
    | @instr _ k _ _ hdepth hs =>
      obtain ⟨hagree, hcs, hk⟩ := Instr.depth_exec hdepth hd hring' (by omega) (by omega) hend
      obtain ⟨d', hrun', hd'⟩ := ih hcall (n := k) (.inr ⟨hs, by rw [hagree.cs, hcs, hring'],
        by rw [hagree.esp]; omega⟩) hagree
      exact ⟨d', .instr hrun', hd'⟩
  | @call call l c c₁ c' hstep hrun ih =>
    obtain ⟨hs, hring, hn⟩ := hl.resolve_left (List.cons_ne_nil _ _)
    obtain ⟨hesp, hcs⟩ := hcall c c₁ hstep
    cases hs with
    | call hdepth hs =>
      obtain ⟨d', hrun', hd'⟩ := ih hcall (.inr ⟨hs, hcs ▸ hring, hesp ▸ hn⟩) (.refl _ c₁)
      refine ⟨d', .call ⟨hd.cs ▸ hring, ?_, ⟨c, hd, hstep⟩⟩ hrun', hd'⟩
      rw [← hd.esp]
      omega
  | @interrupt call v l c c₁ c' hroom hv hring hflag hnest hrun ihnest ih =>
    -- by itself the code of the interrupt keeps the stack
    have hsame : c.switchStack t (gate v) = c := if_neg (by rw [hgate v hv]; omega)
    have hsaved : (c.saved (gate v) none).length = 3 := by
      unfold Cpu.saved
      rw [if_neg (by rw [hgate v hv]; omega)]
      rfl
    have hpushed : (c.switchStack t (gate v)).Pushed lo (c.interrupt t (gate v) none)
        (c.saved (gate v) none) := by
      refine Cpu.interrupt_pushed ?_
      have hlo := hroom.1
      unfold interruptRoom at hlo
      rw [hsame, hsaved]
      omega
    have hesp := hpushed.esp
    rw [hsame, hsaved] at hesp
    have htop := hroom.2
    obtain ⟨d₁, hplain, hd₁⟩ := ihnest hserve (.inr ⟨hstub v hv, hgate v hv, by omega⟩) (.refl _ _)
    have hback := hserved v hv c d₁ hring hroom hplain
    have hkept : c.Agree (c.kept P hi) c₁ := hback.trans (hback.kept ▸ hd₁)
    refine ih hcall (hl.imp_right fun ⟨hs, _, hn⟩ => ⟨hs, hkept.cs ▸ hring, hkept.esp ▸ hn⟩) ?_
    exact hd.trans (hd.kept ▸ hkept)

end

end RawOS.X86
