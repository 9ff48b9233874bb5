import Mathlib.Data.List.Induction
import RawOS.X86

/-!
# Interrupts

`asm/interrupt.asm` and `interrupt.c`. The stub of a vector calls `isr_handler` or `irq_handler` on
the registers that it has pushed, and resumes with what is left there (`stub_returns`): at the
interrupted instruction if and only if the processor pushed an error code where the stub expects
one (`stub_resumes_at`). So it does with interrupts between its instructions (`stub_interrupted`).
-/

namespace RawOS

open X86

/-! ## `asm/interrupt.asm` -/

def isrCommonStub : List Code :=
  [.instr .pusha, .call, .instr .popa, .instr (.addEsp 8), .instr .sti, .instr .iret]

def isrCommonStubNoCli : List Code :=
  [.instr .sti, .instr .pusha, .call, .instr .popa, .instr (.addEsp 8), .instr .iret]

def irqCommonStub : List Code :=
  [.instr .pusha, .call, .instr .popa, .instr (.addEsp 8), .instr .sti, .instr .iret]

def isrNoErrCode (n : ℕ) : List Code :=
  .instr .cli :: .instr (.pushImm 0) :: .instr (.pushImm (UInt32.ofNat n)) :: isrCommonStub

def isrNoErrCodeNoCli (n : ℕ) : List Code :=
  .instr .cli :: .instr (.pushImm 0) :: .instr (.pushImm (UInt32.ofNat n)) :: isrCommonStubNoCli

def isrErrCode (n : ℕ) : List Code :=
  .instr .cli :: .instr (.pushImm (UInt32.ofNat n)) :: isrCommonStub

def irqStub (n : ℕ) : List Code :=
  .instr .cli :: .instr (.pushImm 0) :: .instr (.pushImm (UInt32.ofNat n)) :: irqCommonStub

/-- The labels `interrupt_isr` and `interrupt_irq`. -/
inductive Stub where
  | isr (n : ℕ)
  | irq (n : ℕ)
  deriving DecidableEq

namespace Stub

/-- The stubs of `ISR_ERRCODE`. -/
def errCode : Stub → Bool
  | isr n => n ∈ [8, 10, 11, 12, 13, 14]
  | irq _ => false

/-- The number that the stub pushes. -/
def intNo : Stub → ℕ
  | isr n => n
  | irq n => n + 32

def code : Stub → List Code
  | isr n =>
    if (isr n).errCode then isrErrCode n else if n = 128 then isrNoErrCodeNoCli n else isrNoErrCode n
  | irq n => irqStub (n + 32)

/-- What the stub pushes before the registers. -/
def pushed (s : Stub) : List UInt32 := UInt32.ofNat s.intNo :: if s.errCode then [] else [0]

end Stub

/-! ## `interrupt.c` -/

def idtBase : ℕ := 0
def idtSize : ℕ := 256
def idtInterruptGateFlags : ℕ := 0x8E

/-- `idt_set_descriptor` of the descriptor at `p`. It does not look at `selector` and `flags`. -/
def idtSetDescriptor (m : Mem) (p base _selector _flags : ℕ) : Mem :=
  let m := store16 m (p + 6) (base / 65536)
  let m := store16 m p (base % 65536)
  let m := store8 m (p + 4) 0
  let m := store8 m (p + 5) (UInt8.ofNat (idtInterruptGateFlags ||| 0x60))
  store16 m (p + 2) 0x08

/-- The stub for a vector. The vector 47 has a stub for software interrupts. -/
def idtStub (v : ℕ) : Stub := if 32 ≤ v ∧ v < 47 then .irq (v - 32) else .isr v

/-- The vector of the `i`-th call of `idt_set_descriptor`: three of the calls are there twice, each
in the place of the next one. -/
def idtVector (i : ℕ) : ℕ := if i = 9 ∨ i = 19 ∨ i = 29 then i - 1 else i

/-- What `interrupt_init` does to the memory, for the addresses of the stubs. -/
def interruptInit (address : Stub → ℕ) (m : Mem) : Mem :=
  let m := (List.range idtSize).foldl (fun m i => idtSetDescriptor m (idtBase + 8 * idtVector i)
    (address (idtStub (idtVector i))) 0x08 idtInterruptGateFlags) m
  let m := store32 m (idtBase + 8 * idtSize + 2) idtBase
  store16 m (idtBase + 8 * idtSize) (8 * idtSize - 1)

/-- `interrupt_register_handler`. -/
def interruptRegisterHandler {α : Type*} (handlers : ℕ → Option α) (handler : α) (n : ℕ) :
    ℕ → Option α := Function.update handlers n (some handler)

/-- What `isr_handler` and `irq_handler` do: the bytes for the ports, and the handler that they call.
Without a handler they print. -/
structure Service (α : Type*) where
  ports : List (ℕ × ℕ)
  handler : Option α

def isrHandler {α : Type*} (handlers : ℕ → Option α) (intNo : ℕ) : Service α :=
  ⟨[], handlers intNo⟩

/-- The slave comes first. -/
def irqHandler {α : Type*} (handlers : ℕ → Option α) (intNo : ℕ) : Service α :=
  ⟨(if 0x28 ≤ intNo then [(0xA0, 0x20)] else []) ++ [(0x20, 0x20)], handlers intNo⟩

/-- The function that the stub calls. -/
def Stub.serve {α : Type*} (handlers : ℕ → Option α) (intNo : ℕ) : Stub → Service α
  | .isr _ => isrHandler handlers intNo
  | .irq _ => irqHandler handlers intNo

/-- The place of a register in `Interrupt_Handler_Args`. -/
def argIndex : Reg → ℕ
  | .edi => 0
  | .esi => 1
  | .ebp => 2
  | .esp => 3
  | .ebx => 4
  | .edx => 5
  | .ecx => 6
  | .eax => 7

/-- A handler returns with `int_no`, and what the processor pushed, as they were. -/
structure KeepsFrame (c c' : Cpu) : Prop where
  esp : c'.esp = c.esp
  cs : c'.cs = c.cs
  ss : c'.ss = c.ss
  frame : ∀ i, 8 ≤ i → i < 15 → c'.top i = c.top i

/-- What `c` resumes with when the handler returned in `c₂`. -/
def resumed (c c₂ : Cpu) : Cpu :=
  { c with
    regs := fun r => if r = .esp then c.regs .esp else c₂.top (argIndex r)
    segs := c₂.segs
    mem := c₂.mem }

section

variable {H : Cpu → Cpu → Prop} {s : Stub} {t : TaskState} {g : Gate} {error : Option UInt32}
  {c c' c₁ c₂ : Cpu} {P : Set ℕ} {lo hi : ℕ}

/-! ## Runs of a stub -/

/-- The code of a stub: its pushes, the call, and the return. -/
theorem Stub.run (hrun : Run H s.code c c') : ∃ c₁ c₂, H c₁ c₂ ∧ c' = (c₂.popa.drop 8).iret ∧
    ∃ f, c₁ = (({ c with eflags := f } : Cpu).pushAll s.pushed).pusha := by
  unfold Stub.code at hrun
  cases s with
  | irq n =>
    simp only [irqStub, irqCommonStub, Run.instr_iff, Run.call_iff, Run.nil_iff] at hrun
    obtain ⟨c₂, hcall, rfl⟩ := hrun
    exact ⟨_, c₂, hcall, Cpu.iret_setFlags _ _, _, rfl⟩
  | isr n =>
    dsimp only at hrun
    split_ifs at hrun with herr hsys
    · simp only [isrErrCode, isrCommonStub, Run.instr_iff, Run.call_iff, Run.nil_iff] at hrun
      obtain ⟨c₂, hcall, rfl⟩ := hrun
      refine ⟨_, c₂, hcall, Cpu.iret_setFlags _ _, c.eflags &&& ~~~interruptFlag, ?_⟩
      unfold Stub.pushed
      rw [herr]
      rfl
    · simp only [isrNoErrCodeNoCli, isrCommonStubNoCli, Run.instr_iff, Run.call_iff,
        Run.nil_iff] at hrun
      obtain ⟨c₂, hcall, rfl⟩ := hrun
      refine ⟨_, c₂, hcall, rfl, (c.eflags &&& ~~~interruptFlag) ||| interruptFlag, ?_⟩
      unfold Stub.pushed
      rw [if_neg herr]
      rfl
    · simp only [isrNoErrCode, isrCommonStub, Run.instr_iff, Run.call_iff, Run.nil_iff] at hrun
      obtain ⟨c₂, hcall, rfl⟩ := hrun
      refine ⟨_, c₂, hcall, Cpu.iret_setFlags _ _, c.eflags &&& ~~~interruptFlag, ?_⟩
      unfold Stub.pushed
      rw [if_neg herr]
      rfl

/-- The state in which a handler is called, for the state `c` that was interrupted. -/
structure Called (s : Stub) (g : Gate) (error : Option UInt32) (c c₁ : Cpu) : Prop where
  regs : ∀ r, r ≠ .esp → c₁.top (argIndex r) = c.regs r
  intNo : c₁.top 8 = UInt32.ofNat s.intNo
  errCode : c₁.top 9 = error.getD 0
  eip : c₁.top 10 = c.eip
  cs : c₁.top 11 = c.cs
  eflags : c₁.top 12 = c.eflags
  user : ringOf g.selector < ringOf c.cs → c₁.top 13 = c.regs .esp ∧ c₁.top 14 = c.ss

theorem Called.congr (h : Called s g error c c₁) (htop : ∀ i < 15, c₂.top i = c₁.top i) :
    Called s g error c c₂ := by
  refine ⟨fun r hr => ?_, ?_, ?_, ?_, ?_, ?_, fun hring => ?_⟩
  · have hindex : argIndex r < 15 := by cases r <;> decide
    rw [htop _ hindex, h.regs r hr]
  · rw [htop 8 (by decide), h.intNo]
  · rw [htop 9 (by decide), h.errCode]
  · rw [htop 10 (by decide), h.eip]
  · rw [htop 11 (by decide), h.cs]
  · rw [htop 12 (by decide), h.eflags]
  · rw [htop 13 (by decide), htop 14 (by decide)]
    exact h.user hring

/-- The stack of a handler. -/
theorem Stub.stack (lo : ℕ) (hroom : lo + 64 ≤ (c.switchStack t g).esp)
    (hrun : Run H s.code (c.interrupt t g error) c') :
    ∃ c₁ c₂ rs, H c₁ c₂ ∧ c' = (c₂.popa.drop 8).iret ∧
      (c.switchStack t g).Pushed lo c₁ (rs ++ (s.pushed ++ c.saved g error)) ∧
      c₁.cs = g.selector ∧ c₁.ss = (c.switchStack t g).ss ∧ c₁.segs = c.segs ∧ rs.length = 8 ∧
      ∀ r, r ≠ .esp → rs[argIndex r]? = some (c.regs r) := by
  obtain ⟨c₁, c₂, hcall, hc', f, rfl⟩ := Stub.run hrun
  have hpushed : s.pushed.length ≤ 2 := by
    unfold Stub.pushed
    split_ifs <;> simp
  have hsaved : (c.saved g error).length ≤ 6 := by
    unfold Cpu.saved
    cases error <;> split_ifs <;> simp
  obtain ⟨d, hd⟩ : ∃ d : Cpu, d = { c.interrupt t g error with eflags := f } := ⟨_, rfl⟩
  rw [← hd] at hcall
  have hentry : (c.switchStack t g).Pushed lo d (c.saved g error) := by
    rw [hd]
    exact (Cpu.interrupt_pushed (by omega)).congr rfl rfl
  have hnumber := hentry.pushAll s.pushed (by omega)
  have hregs := hnumber.pushAll (d.pushAll s.pushed).registers (by
    rw [List.length_append, Cpu.length_registers]
    omega)
  have hfields : d.cs = g.selector ∧ d.ss = (c.switchStack t g).ss ∧ d.segs = c.segs ∧
      ∀ r, r ≠ .esp → d.regs r = c.regs r := by
    rw [hd]
    refine ⟨rfl, Cpu.pushAll_ss, Cpu.pushAll_segs.trans Cpu.switchStack_segs, fun r hr => ?_⟩
    exact (Cpu.pushAll_regs _ hr).trans (Cpu.switchStack_regs hr)
  obtain ⟨hcs, hss, hsegs, hr⟩ := hfields
  refine ⟨_, c₂, _, hcall, hc', hregs, ?_, ?_, ?_, Cpu.length_registers, fun r hne => ?_⟩
  · exact (Cpu.pushAll_cs.trans Cpu.pushAll_cs).trans hcs
  · exact (Cpu.pushAll_ss.trans Cpu.pushAll_ss).trans hss
  · exact (Cpu.pushAll_segs.trans Cpu.pushAll_segs).trans hsegs
  · rw [← hr r hne, ← Cpu.pushAll_regs s.pushed hne]
    cases r with
    | esp => exact absurd rfl hne
    | _ => rfl

theorem Stub.pushed_saved (h : error.isSome = s.errCode) : s.pushed ++ c.saved g error =
    UInt32.ofNat s.intNo :: error.getD 0 :: c.eip :: c.cs :: c.eflags ::
      if ringOf g.selector < ringOf c.cs then [c.regs .esp, c.ss] else [] := by
  unfold Stub.pushed Cpu.saved
  rw [← h]
  cases error with
  | none => rfl
  | some e => rfl

/-- Where the stub resumes: at the instruction that was interrupted, if the processor pushed an error
code where the stub expects one; else at the error code, or at the code segment. -/
theorem stub_resumes_at (hH : ∀ c₁ c₂, H c₁ c₂ → KeepsFrame c₁ c₂)
    (hroom : 64 ≤ (c.switchStack t g).esp) (hrun : Run H s.code (c.interrupt t g error) c') :
    c'.eip = if error.isSome = s.errCode then c.eip else error.getD c.cs := by
  obtain ⟨c₁, c₂, rs, hcall, rfl, hpushed, -, -, -, hrs, -⟩ := Stub.stack 0 (by omega) hrun
  have hkeeps := hH c₁ c₂ hcall
  have htop : ∀ {w}, (s.pushed ++ c.saved g error)[2]? = some w → c₁.top 10 = w := fun hw => by
    refine hpushed.stack.top ?_
    rw [List.getElem?_append_right (by omega), hrs]
    exact hw
  have hesp : c₂.esp + 40 < 4294967296 := by
    have hlt : (c.switchStack t g).esp < 4294967296 := UInt32.toNat_lt _
    have hlen : 2 < (s.pushed ++ c.saved g error).length := by
      unfold Stub.pushed Cpu.saved
      simp only [List.length_append, List.length_cons, List.length_nil]
      omega
    have hlen' := hpushed.esp
    rw [List.length_append] at hlen'
    rw [hkeeps.esp]
    omega
  have heip : (c₂.popa.drop 8).iret.eip = c₁.top 10 := by
    have hret : (c₂.popa.drop 8).iret.eip = (c₂.popa.drop 8).top 0 := by
      unfold Cpu.iret
      split_ifs <;> rfl
    rw [hret, Cpu.popa_drop_top hesp, hkeeps.frame 10 (by decide) (by decide)]
  rw [heip]
  refine htop ?_
  unfold Stub.pushed Cpu.saved
  cases error with
  | none => cases s.errCode <;> rfl
  | some e => cases s.errCode <;> rfl

theorem update_popa {v : UInt32} : Function.update (c₂.popa.drop 8).regs .esp v =
    fun r => if r = .esp then v else c₂.top (argIndex r) := by
  funext r
  by_cases hr : r = .esp
  · rw [hr, Function.update_self, if_pos rfl]
  · rw [Function.update_of_ne hr, if_neg hr]
    have hpopa : (c₂.popa.drop 8).regs r = c₂.popa.regs r := Function.update_of_ne hr ..
    rw [hpopa]
    cases r with
    | esp => exact absurd rfl hr
    | _ => rfl

/-- The words of the processor and of the stub behind the registers. -/
theorem Called.of_pushed {rs : List UInt32} {b : Cpu} (h : error.isSome = s.errCode)
    (hpushed : b.Pushed lo c₁ (rs ++ (s.pushed ++ c.saved g error))) (hrs : rs.length = 8)
    (hregs : ∀ r, r ≠ .esp → rs[argIndex r]? = some (c.regs r)) : Called s g error c c₁ := by
  have htop : ∀ {i w}, (s.pushed ++ c.saved g error)[i]? = some w → c₁.top (8 + i) = w := by
    intro i w hw
    refine hpushed.stack.top ?_
    rw [List.getElem?_append_right (by omega), hrs, Nat.add_sub_cancel_left]
    exact hw
  rw [Stub.pushed_saved h] at htop
  refine ⟨fun r hr => hpushed.stack.top ?_, htop (i := 0) rfl, htop (i := 1) rfl, htop (i := 2) rfl,
    htop (i := 3) rfl, htop (i := 4) rfl, fun hring => ?_⟩
  · have hlt := (List.getElem?_eq_some_iff.mp (hregs r hr)).1
    rw [List.getElem?_append_left hlt, hregs r hr]
  · rw [if_pos hring] at htop
    exact ⟨htop (i := 5) rfl, htop (i := 6) rfl⟩

/-- The return from a stub. -/
theorem Stub.resumes {rs : List UInt32} (hkeeps : KeepsFrame c₁ c₂) (herror : error.isSome = s.errCode)
    (hpushed : (c.switchStack t g).Pushed lo c₁ (rs ++ (s.pushed ++ c.saved g error)))
    (hrs : rs.length = 8) (hcs : c₁.cs = g.selector) (hss : c₁.ss = (c.switchStack t g).ss)
    (hcalled : Called s g error c c₁) : (c₂.popa.drop 8).iret = resumed c c₂ := by
  have hesp := hpushed.esp
  have hlt : (c.switchStack t g).esp < 4294967296 := UInt32.toNat_lt _
  have hlen : (rs ++ (s.pushed ++ c.saved g error)).length =
      if ringOf g.selector < ringOf c.cs then 15 else 13 := by
    rw [List.length_append, Stub.pushed_saved herror, hrs]
    split_ifs <;> rfl
  have hwrap : c₂.esp + 40 < 4294967296 := by
    rw [hlen] at hesp
    rw [hkeeps.esp]
    split_ifs at hesp <;> omega
  have htop : ∀ i < 5, (c₂.popa.drop 8).top i = c₁.top (10 + i) := fun i hi => by
    rw [Cpu.popa_drop_top hwrap, hkeeps.frame _ (by omega) (by omega)]
  have hring : (c₂.popa.drop 8).cs = g.selector := hkeeps.cs.trans hcs
  unfold Cpu.iret
  rw [hring, htop 0 (by decide), htop 1 (by decide), htop 2 (by decide), htop 3 (by decide),
    htop 4 (by decide), hcalled.eip, hcalled.cs, hcalled.eflags]
  unfold resumed
  split_ifs with houter
  · obtain ⟨huser, hstack⟩ := hcalled.user houter
    rw [huser, hstack]
    unfold Cpu.set
    dsimp only
    rw [update_popa]
    rfl
  · have hsame : c.switchStack t g = c := if_neg houter
    rw [hsame] at hpushed hss
    -- all that was pushed is off the stack again
    have hback : (c₂.popa.drop 8).regs .esp + 12 = c.regs .esp := by
      have hpopa : c₂.popa.regs .esp = c₂.regs .esp + 32 := rfl
      rw [Cpu.drop_regs_esp, hpopa, Cpu.esp_inj hkeeps.esp,
        ← hpushed.drop (n := 52) (by rw [hlen, if_neg houter]; rfl), UInt32.add_assoc,
        UInt32.add_assoc]
      rfl
    have hss₂ : (c₂.popa.drop 8).ss = c.ss := hkeeps.ss.trans hss
    have hdrop : (c₂.popa.drop 8).drop 12 = (c₂.popa.drop 8).set .esp (c.regs .esp) := by
      unfold Cpu.drop at hback ⊢
      rw [hback]
    rw [hdrop]
    unfold Cpu.set
    dsimp only
    rw [update_popa, hss₂]
    rfl

theorem Cpu.switchStack_mem : (c.switchStack t g).mem = c.mem := by
  unfold Cpu.switchStack
  split_ifs <;> rfl

/-- The handler is called on the registers of the interrupted program, which then resumes with what
the handler left there. -/
theorem stub_returns (lo : ℕ) (hH : ∀ c₁ c₂, H c₁ c₂ → KeepsFrame c₁ c₂)
    (herror : error.isSome = s.errCode) (hroom : lo + 64 ≤ (c.switchStack t g).esp)
    (hrun : Run H s.code (c.interrupt t g error) c') : ∃ c₁ c₂, H c₁ c₂ ∧
      Called s g error c c₁ ∧ c' = resumed c c₂ ∧ c₁.segs = c.segs ∧
      ∀ x, x < lo ∨ (c.switchStack t g).esp ≤ x → c₁.mem x = c.mem x := by
  obtain ⟨c₁, c₂, rs, hcall, rfl, hpushed, hcs, hss, hsegs, hrs, hregs⟩ := Stub.stack lo hroom hrun
  have hcalled := Called.of_pushed herror hpushed hrs hregs
  refine ⟨c₁, c₂, hcall, hcalled, ?_, hsegs, fun x hx => ?_⟩
  · exact Stub.resumes (hH c₁ c₂ hcall) herror hpushed hrs hcs hss hcalled
  · rw [hpushed.mem x hx, Cpu.switchStack_mem]

/-! ## Interrupts of a stub -/

/-- A call that leaves all as it is, but for the general registers, the flags, and the memory outside
of `P` and of the stack up to `hi`. -/
structure KeepsStack (P : Set ℕ) (hi : ℕ) (c c' : Cpu) : Prop where
  esp : c'.esp = c.esp
  segs : c'.segs = c.segs
  cs : c'.cs = c.cs
  ss : c'.ss = c.ss
  mem : ∀ x, x ∈ P ∨ c.esp ≤ x ∧ x < hi → c'.mem x = c.mem x

theorem KeepsStack.top (h : KeepsStack P hi c c') {i : ℕ} (hi' : c.esp + 4 * i + 4 ≤ hi) :
    c'.top i = c.top i := by
  unfold Cpu.top
  rw [h.esp, load32_congr fun x hx hx' => h.mem x (.inr ⟨by omega, by omega⟩)]

theorem KeepsStack.keepsFrame (h : KeepsStack P hi c c') (hhi : c.esp + callDepth ≤ hi) :
    KeepsFrame c c' := by
  unfold callDepth at hhi
  exact ⟨h.esp, h.cs, h.ss, fun i _ hi' => h.top (by omega)⟩

theorem keepsFrame_behind (hH : ∀ c₁ c₂, H c₁ c₂ → KeepsFrame c₁ c₂)
    (h : CallBehind P hi H c c') : KeepsFrame c c' := by
  obtain ⟨d, hcall, hd, htop⟩ := h.top
  have hkeeps := hH d c' hcall
  refine ⟨hkeeps.esp.trans hd.esp, hkeeps.cs.trans hd.cs, ?_, fun i hi' hlt => ?_⟩
  · rw [hkeeps.ss, hd.eq]
  · rw [hkeeps.frame i hi' hlt, htop i hlt]

theorem keepsStack_behind (hH : ∀ c₁ c₂, H c₁ c₂ → KeepsStack P hi c₁ c₂)
    (h : CallBehind P hi H c c') : KeepsStack P hi c c' := by
  obtain ⟨hring, -, d, hd, hcall⟩ := h
  have hkeeps := hH d c' hcall
  have hesp := hd.esp
  refine ⟨hkeeps.esp.trans hesp, ?_, hkeeps.cs.trans hd.cs, ?_, fun x hx => ?_⟩
  · rw [hkeeps.segs, hd.eq]
  · rw [hkeeps.ss, hd.eq]
  · rw [hkeeps.mem x (hesp ▸ hx), hd.mem x (hx.imp_right fun hx => ⟨hring, hx⟩)]

theorem Stub.interruptCode (s : Stub) : InterruptCode (if s.errCode then 24 else 20) s.code := by
  have hend : InterruptCode 60 [.call, .instr .popa, .instr (.addEsp 8), .instr .sti, .instr .iret] :=
    .call (Nat.le_refl 60) (.instr rfl (.instr rfl (.instr rfl (.iret (Nat.le_refl 20)))))
  cases s with
  | irq n => exact .instr rfl (.instr rfl (.instr rfl (.instr rfl hend)))
  | isr n =>
    unfold Stub.code
    dsimp only
    split_ifs
    · exact .instr rfl (.instr rfl (.instr rfl hend))
    · exact .instr rfl (.instr rfl (.instr rfl (.instr rfl (.instr rfl (.call (Nat.le_refl 60)
        (.instr rfl (.instr rfl (.iret (Nat.le_refl 20)))))))))
    · exact .instr rfl (.instr rfl (.instr rfl (.instr rfl hend)))

/-- The stub of a device leaves all as it was, but for the stack that it is served on, and what its
handler writes. -/
theorem Stub.transparent {device : Cpu → Cpu → Prop} (hP : ∀ x ∈ P, x < lo ∨ hi ≤ x)
    (hdevice : ∀ c₁ c₂, device c₁ c₂ → KeepsStack P hi c₁ c₂) (herror : s.errCode = false)
    (hroom : lo + 64 ≤ (c.switchStack t g).esp) (hhi : (c.switchStack t g).esp ≤ hi)
    (hrun : Run (CallBehind P hi device) s.code (c.interrupt t g none) c') :
    c.Agree (c.kept P hi) c' := by
  obtain ⟨c₁, c₂, rs, hcall, rfl, hpushed, hcs, hss, hsegs, hrs, hregs⟩ := Stub.stack lo hroom hrun
  have hkeeps := keepsStack_behind hdevice hcall
  have hdepth := hcall.depth
  have herr : (none : Option UInt32).isSome = s.errCode := herror.symm
  have hcalled := Called.of_pushed herr hpushed hrs hregs
  rw [Stub.resumes (hkeeps.keepsFrame hdepth) herr hpushed hrs hcs hss hcalled]
  unfold callDepth at hdepth
  have hesp := hpushed.esp
  refine ⟨?_, fun x hx => ?_⟩
  · have hr : (fun r => if r = .esp then c.regs .esp else c₂.top (argIndex r)) = c.regs := by
      funext r
      split_ifs with h
      · rw [h]
      · have hindex : argIndex r < 8 := by cases r <;> decide
        rw [hkeeps.top (by omega), hcalled.regs r h]
    unfold resumed
    rw [hr, hkeeps.segs, hsegs]
  · unfold resumed
    dsimp only
    rcases hx with hx | ⟨hring, hx, hx'⟩
    · have hout := hP x hx
      rw [hkeeps.mem x (.inl hx), hpushed.mem x (by omega), Cpu.switchStack_mem]
    · -- the stack of ring 0 is not switched
      have hsame : c.switchStack t g = c := if_neg (by omega)
      rw [hsame] at hpushed hesp
      rw [hkeeps.mem x (.inr ⟨by omega, hx'⟩), hpushed.mem x (.inr hx)]

/-- A run of a stub with interrupts by the devices between its instructions, which are served by
`device`, and are interrupted in the same way. -/
def StubRun (lo hi : ℕ) (t : TaskState) (gate : ℕ → Gate) (device H : Cpu → Cpu → Prop) (s : Stub)
    (c c' : Cpu) : Prop :=
  InterruptedRun lo hi t gate (fun v => (idtStub v).code) {v | 32 ≤ v ∧ v < 47} device H s.code c c'

section

variable {gate : ℕ → Gate} {device : Cpu → Cpu → Prop}

/-- The run without the interrupts. -/
theorem StubRun.run (hgate : ∀ v, 32 ≤ v → v < 47 → ringOf (gate v).selector = 0)
    (hg : ringOf g.selector = 0) (hend : hi < 4294967296) (hP : ∀ x ∈ P, x < lo ∨ hi ≤ x)
    (hdevice : ∀ c₁ c₂, device c₁ c₂ → KeepsStack P hi c₁ c₂)
    (hH : ∀ c₁ c₂, H c₁ c₂ → c₂.esp = c₁.esp ∧ c₂.cs = c₁.cs)
    (hhi : (c.interrupt t g error).esp + (if s.errCode then 24 else 20) ≤ hi)
    (hrun : StubRun lo hi t gate device H s (c.interrupt t g error) c') :
    ∃ d, Run (CallBehind P hi H) s.code (c.interrupt t g error) d ∧ d.Agree (d.kept P hi) c' := by
  refine InterruptedRun.run (fun v hv => hgate v hv.1 hv.2) (fun v hv => ?_) ?_ hend
    (fun c₁ c₂ h => ⟨(hdevice c₁ c₂ h).esp, (hdevice c₁ c₂ h).cs⟩) hH hrun
    (.inr ⟨s.interruptCode, hg, hhi⟩) (.refl _ _)
  · have hirq : idtStub v = .irq (v - 32) := if_pos hv
    rw [hirq]
    exact (Stub.irq (v - 32)).interruptCode
  · intro v hv c c' hring hroom hplain
    have hirq : idtStub v = .irq (v - 32) := if_pos hv
    have hsame : c.switchStack t (gate v) = c := if_neg (by omega)
    obtain ⟨hlo, htop⟩ := hroom
    unfold interruptRoom at hlo
    exact Stub.transparent hP hdevice (by rw [hirq]; rfl) (by rw [hsame]; omega)
      (by rw [hsame]; omega) hplain

/-- An interrupted stub calls its handler on the registers of the interrupted program, which then
resumes with what the handler left there. The memory of `P` is as without the interrupts. -/
theorem StubRun.returns (hgate : ∀ v, 32 ≤ v → v < 47 → ringOf (gate v).selector = 0)
    (hg : ringOf g.selector = 0) (hend : hi < 4294967296) (hP : ∀ x ∈ P, x < lo ∨ hi ≤ x)
    (hdevice : ∀ c₁ c₂, device c₁ c₂ → KeepsStack P hi c₁ c₂)
    (hH : ∀ c₁ c₂, H c₁ c₂ → KeepsFrame c₁ c₂) (herror : error.isSome = s.errCode)
    (hroom : lo + 64 ≤ (c.switchStack t g).esp) (htop : (c.switchStack t g).esp ≤ hi)
    (hhi : (c.interrupt t g error).esp + (if s.errCode then 24 else 20) ≤ hi)
    (hrun : StubRun lo hi t gate device H s (c.interrupt t g error) c') :
    ∃ c₁ c₂, H c₁ c₂ ∧ Called s g error c c₁ ∧ c₁.segs = c.segs ∧ (∀ x ∈ P, c₁.mem x = c.mem x) ∧
      c' = { resumed c c₂ with mem := c'.mem } ∧ ∀ x ∈ P, c'.mem x = c₂.mem x := by
  obtain ⟨d, hplain, hd⟩ := hrun.run hgate hg hend hP hdevice
    (fun c₁ c₂ h => ⟨(hH c₁ c₂ h).esp, (hH c₁ c₂ h).cs⟩) hhi
  obtain ⟨c₁, c₂, hcall, hcalled, rfl, hsegs, hmem⟩ :=
    stub_returns lo (fun _ _ h => keepsFrame_behind hH h) herror hroom hplain
  obtain ⟨e, hstep, he, htops⟩ := hcall.top
  refine ⟨e, c₂, hstep, hcalled.congr htops, ?_, fun x hx => ?_, ?_, fun x hx => hd.mem x (.inl hx)⟩
  · rw [← hsegs, he.eq]
  · have hout := hP x hx
    rw [he.mem x (.inl hx), hmem x (by omega)]
  · rw [hd.eq]

end

/-! ## The table of `interrupt_init` -/

/-- The descriptor of `v` is a gate for every ring to the code at `base`. -/
structure IsGate (m : Mem) (v base : ℕ) : Prop where
  gate : gateAt m (idtBase + 8 * v) = ⟨0x08, UInt32.ofNat base⟩
  flags : m (idtBase + 8 * v + 5) = 0xEE
  zero : m (idtBase + 8 * v + 4) = 0

theorem idtSetDescriptor_outside {m : Mem} {p base selector flags x : ℕ} (hx : x < p ∨ p + 8 ≤ x) :
    idtSetDescriptor m p base selector flags x = m x := by
  unfold idtSetDescriptor
  rw [store16_of_outside (by omega), store8_of_ne (by omega), store8_of_ne (by omega),
    store16_of_outside (by omega), store16_of_outside (by omega)]

theorem IsGate.congr {m m' : Mem} {v base : ℕ} (h : IsGate m v base)
    (hm : ∀ x, idtBase + 8 * v ≤ x → x < idtBase + 8 * v + 8 → m' x = m x) : IsGate m' v base := by
  refine ⟨?_, ?_, ?_⟩
  · rw [← h.gate]
    unfold gateAt
    rw [load16_congr fun x hx hx' => hm x (by omega) (by omega),
      load16_congr fun x hx hx' => hm x (by omega) (by omega),
      load16_congr fun x hx hx' => hm x (by omega) (by omega)]
  · rw [hm _ (by omega) (by omega), h.flags]
  · rw [hm _ (by omega) (by omega), h.zero]

theorem idtSetDescriptor_isGate {m : Mem} {v base selector flags : ℕ} (hbase : base < 4294967296) :
    IsGate (idtSetDescriptor m (idtBase + 8 * v) base selector flags) v base := by
  obtain ⟨p, hp⟩ : ∃ p, p = idtBase + 8 * v := ⟨_, rfl⟩
  have hload8 : ∀ {m : Mem} {a b : ℕ} {w : UInt8}, a < b ∨ b + 2 ≤ a →
      load16 (store8 m a w) b = load16 m b := fun h =>
    load16_congr fun x _ _ => store8_of_ne (by omega)
  have hsum : base % 65536 + 65536 * (base / 65536) = base := Nat.mod_add_div base 65536
  unfold idtSetDescriptor
  refine ⟨?_, ?_, ?_⟩
  · unfold gateAt
    rw [← hp, load16_store16_eq rfl (by decide), load16_store16_of_disjoint (by omega),
      load16_store16_of_disjoint (by omega), hload8 (by omega), hload8 (by omega), hload8 (by omega),
      hload8 (by omega), load16_store16_eq rfl (by omega), load16_store16_of_disjoint (by omega),
      load16_store16_eq rfl (by omega), hsum]
    rfl
  · rw [store16_of_outside (by omega)]
    exact if_pos rfl
  · rw [store16_of_outside (by omega), store8_of_ne (by omega)]
    exact if_pos rfl

/-- The vectors that `interrupt_init` leaves out. -/
def NoGate (v : ℕ) : Prop := v = 9 ∨ v = 19 ∨ v = 29

/-- The table after the first `k` calls. -/
structure GatesTo (address : Stub → ℕ) (m : Mem) (k : ℕ) (m' : Mem) : Prop where
  set : ∀ v < k, ¬ NoGate v → IsGate m' v (address (idtStub v))
  unset : ∀ v, k ≤ v ∨ NoGate v → ∀ x, idtBase + 8 * v ≤ x → x < idtBase + 8 * v + 8 → m' x = m x

theorem GatesTo.step {address : Stub → ℕ} {m m' : Mem} {k : ℕ} (h : GatesTo address m k m')
    (haddress : ∀ s, address s < 4294967296) :
    GatesTo address m (k + 1) (idtSetDescriptor m' (idtBase + 8 * idtVector k)
      (address (idtStub (idtVector k))) 0x08 idtInterruptGateFlags) := by
  have hself : ∀ v, v = idtVector k → IsGate (idtSetDescriptor m' (idtBase + 8 * idtVector k)
      (address (idtStub (idtVector k))) 0x08 idtInterruptGateFlags) v (address (idtStub v)) := by
    rintro _ rfl
    exact idtSetDescriptor_isGate (haddress _)
  have hother : ∀ v, v ≠ idtVector k → ∀ x, idtBase + 8 * v ≤ x → x < idtBase + 8 * v + 8 →
      idtSetDescriptor m' (idtBase + 8 * idtVector k) (address (idtStub (idtVector k))) 0x08
        idtInterruptGateFlags x = m' x := fun v hv x hx hx' =>
    idtSetDescriptor_outside (by omega)
  have hvector : NoGate k ∧ idtVector k + 1 = k ∨ ¬ NoGate k ∧ idtVector k = k := by
    unfold NoGate idtVector
    split_ifs with hk
    · exact .inl ⟨hk, by omega⟩
    · exact .inr ⟨hk, rfl⟩
  have hnone : ¬ NoGate (idtVector k) := by
    unfold NoGate idtVector
    split_ifs <;> omega
  refine ⟨fun v hv hgate => ?_, fun v hv x hx hx' => ?_⟩
  · by_cases heq : v = idtVector k
    · exact hself v heq
    · have hne : v ≠ k := by
        rintro rfl
        rcases hvector with ⟨h9, -⟩ | ⟨-, h9⟩
        · exact hgate h9
        · exact heq h9.symm
      exact (h.set v (by omega) hgate).congr (hother v heq)
  · have heq : v ≠ idtVector k := by
      rintro rfl
      rcases hv with hv | hv
      · rcases hvector with ⟨-, h9⟩ | ⟨-, h9⟩ <;> omega
      · exact hnone hv
    rw [hother v heq x hx hx']
    exact h.unset v (hv.imp_left fun hv => by omega) x hx hx'

/-- After `interrupt_init` each vector has a gate for every ring to its stub, but for `9`, `19` and
`29`, whose descriptors are what was in the memory before. -/
theorem interruptInit_gates {address : Stub → ℕ} (m : Mem) (haddress : ∀ s, address s < 4294967296) :
    (∀ v < 256, ¬ NoGate v → IsGate (interruptInit address m) v (address (idtStub v))) ∧
      ∀ v, NoGate v → ∀ x, idtBase + 8 * v ≤ x → x < idtBase + 8 * v + 8 →
        interruptInit address m x = m x := by
  have hfold : ∀ k, GatesTo address m k ((List.range k).foldl (fun m i => idtSetDescriptor m
      (idtBase + 8 * idtVector i) (address (idtStub (idtVector i))) 0x08 idtInterruptGateFlags) m) := by
    intro k
    induction k with
    | zero => exact ⟨fun v hv => absurd hv (Nat.not_lt_zero v), fun _ _ _ _ _ => rfl⟩
    | succ k ih =>
      rw [List.range_succ, List.foldl_append]
      exact ih.step haddress
  have htable := hfold idtSize
  have hafter : ∀ v < 256, ∀ x, idtBase + 8 * v ≤ x → x < idtBase + 8 * v + 8 →
      interruptInit address m x = ((List.range idtSize).foldl (fun m i => idtSetDescriptor m
        (idtBase + 8 * idtVector i) (address (idtStub (idtVector i))) 0x08 idtInterruptGateFlags) m)
          x := by
    intro v hv x _ hx
    unfold interruptInit
    rw [store16_of_outside (by unfold idtSize; omega), store32_of_outside (by unfold idtSize; omega)]
  refine ⟨fun v hv hgate => (htable.set v hv hgate).congr (hafter v hv), fun v hv x hx hx' => ?_⟩
  have hlt : v < 256 := by
    unfold NoGate at hv
    omega
  rw [hafter v hlt x hx hx', htable.unset v (.inr hv) x hx hx']

end

/-! ## From the gate to the handler -/

section

variable {α : Type*} {H : Cpu → Cpu → Prop} {t : TaskState} {error : Option UInt32} {c c' : Cpu}
  {m : Mem} {address : Stub → ℕ} {codeAt : UInt32 → List Code} {v : ℕ}

/-- `interrupt_handlers` after calls of `interrupt_register_handler`. -/
def registered (rs : List (α × ℕ)) : ℕ → Option α :=
  rs.foldl (fun handlers r => interruptRegisterHandler handlers r.1 r.2) fun _ => none

/-- The handler that was registered last. -/
def lastRegistered (rs : List (α × ℕ)) (v : ℕ) : Option α :=
  (rs.reverse.find? fun r => r.2 = v).map Prod.fst

theorem registered_eq (rs : List (α × ℕ)) : registered rs v = lastRegistered rs v := by
  induction rs using List.reverseRecOn with
  | nil => rfl
  | append_singleton rs r ih =>
    unfold registered lastRegistered at ih ⊢
    rw [List.foldl_append, List.foldl_cons, List.foldl_nil, List.reverse_append,
      List.reverse_singleton, List.singleton_append, List.find?_cons]
    by_cases h : r.2 = v
    · rw [decide_eq_true h, ← h]
      exact Function.update_self ..
    · rw [decide_eq_false h, ← ih]
      exact Function.update_of_ne (Ne.symm h) ..

/-- The bytes that end an interrupt by a device. -/
def endOfInterrupt (v : ℕ) : List (ℕ × ℕ) :=
  if v < 32 ∨ 47 ≤ v then [] else if v < 40 then [(0x20, 0x20)] else [(0xA0, 0x20), (0x20, 0x20)]

theorem idtStub_intNo : (idtStub v).intNo = v := by
  unfold idtStub
  split_ifs with h
  · exact Nat.sub_add_cancel h.1
  · rfl

theorem Stub.serve_eq (rs : List (α × ℕ)) (hv : v < 256) :
    (idtStub v).serve (registered rs) (UInt32.ofNat (idtStub v).intNo).toNat =
      ⟨endOfInterrupt v, lastRegistered rs v⟩ := by
  have hno : (UInt32.ofNat (idtStub v).intNo).toNat = v := by
    rw [idtStub_intNo]
    exact Nat.mod_eq_of_lt (Nat.lt_of_lt_of_le hv (by decide))
  rw [hno]
  unfold idtStub endOfInterrupt
  split_ifs with h h₁ h₂
  · omega
  · unfold Stub.serve irqHandler
    rw [registered_eq, if_neg (by omega)]
    rfl
  · unfold Stub.serve irqHandler
    rw [registered_eq, if_pos (by omega)]
    rfl
  · unfold Stub.serve isrHandler
    rw [registered_eq]
  · omega
  · omega

/-- Each vector but three leads to the handler that was registered last for it, on the registers of
the interrupted program, and from there back to the program; the device vectors send the end of the
interrupt first, to the slave as well if it is one of its own. The three have no gate. -/
theorem interrupt_served (rs : List (α × ℕ)) (haddress : ∀ s, address s < 4294967296)
    (hcode : ∀ v < 256, codeAt (UInt32.ofNat (address (idtStub v))) = (idtStub v).code)
    (hH : ∀ c₁ c₂, H c₁ c₂ → KeepsFrame c₁ c₂) (hv : v < 256) {g : Gate}
    (hg : g = gateAt (interruptInit address m) (idtBase + 8 * v))
    (herror : error.isSome = (idtStub v).errCode) (hroom : 64 ≤ (c.switchStack t g).esp)
    (hrun : Run H (codeAt g.offset) (c.interrupt t g error) c') :
    (¬ NoGate v → ∃ c₁ c₂, H c₁ c₂ ∧ Called (idtStub v) g error c c₁ ∧ c' = resumed c c₂ ∧
      (idtStub v).serve (registered rs) (c₁.top 8).toNat =
        ⟨endOfInterrupt v, lastRegistered rs v⟩) ∧
      (NoGate v → g = gateAt m (idtBase + 8 * v)) := by
  obtain ⟨hset, hunset⟩ := interruptInit_gates m haddress
  refine ⟨fun hgate => ?_, fun hgate => ?_⟩
  · have hoffset : g.offset = UInt32.ofNat (address (idtStub v)) := by rw [hg, (hset v hv hgate).gate]
    rw [hoffset, hcode v hv] at hrun
    obtain ⟨c₁, c₂, hcall, hcalled, hback, -⟩ := stub_returns 0 hH herror (by omega) hrun
    refine ⟨c₁, c₂, hcall, hcalled, hback, ?_⟩
    rw [hcalled.intNo, Stub.serve_eq rs hv]
  · have hbytes := hunset v hgate
    rw [hg]
    unfold gateAt
    rw [load16_congr fun x hx hx' => hbytes x (by omega) (by omega),
      load16_congr fun x hx hx' => hbytes x (by omega) (by omega),
      load16_congr fun x hx hx' => hbytes x (by omega) (by omega)]

/-- After `interrupt_init` the stub of a vector, interrupted by devices between its instructions, calls
its handler on the registers of the interrupted program, which then resumes with what the handler
left there: whatever memory the handlers of the devices write outside of the stack. Memory `P` that
they do not write is as without them. -/
theorem stub_interrupted {P : Set ℕ} {lo hi : ℕ} {gate : ℕ → Gate} {device : Cpu → Cpu → Prop}
    (haddress : ∀ s, address s < 4294967296)
    (hgate : ∀ v, gate v = gateAt (interruptInit address m) (idtBase + 8 * v)) (hv : v < 256)
    (hset : ¬ NoGate v) (hend : hi < 4294967296) (hP : ∀ x ∈ P, x < lo ∨ hi ≤ x)
    (hdevice : ∀ c₁ c₂, device c₁ c₂ → KeepsStack P hi c₁ c₂)
    (hH : ∀ c₁ c₂, H c₁ c₂ → KeepsFrame c₁ c₂) (herror : error.isSome = (idtStub v).errCode)
    (hroom : lo + 64 ≤ (c.switchStack t (gate v)).esp) (htop : (c.switchStack t (gate v)).esp ≤ hi)
    (hhi : (c.interrupt t (gate v) error).esp + (if (idtStub v).errCode then 24 else 20) ≤ hi)
    (hrun : StubRun lo hi t gate device H (idtStub v) (c.interrupt t (gate v) error) c') :
    ∃ c₁ c₂, H c₁ c₂ ∧ Called (idtStub v) (gate v) error c c₁ ∧ c₁.segs = c.segs ∧
      (∀ x ∈ P, c₁.mem x = c.mem x) ∧ c' = { resumed c c₂ with mem := c'.mem } ∧
      ∀ x ∈ P, c'.mem x = c₂.mem x := by
  have hring : ∀ v < 256, ¬ NoGate v → ringOf (gate v).selector = 0 := fun v hv hset => by
    rw [hgate, ((interruptInit_gates m haddress).1 v hv hset).gate]
    exact (by decide : ringOf 0x08 = 0)
  refine hrun.returns (fun v hv hv' => hring v (by omega) ?_) (hring v hv hset) hend hP hdevice hH
    herror hroom htop hhi
  unfold NoGate
  omega

end

/-! ## User mode -/

/-- `process_switch_to_user_mode_set_stack_and_jmp_addr`. -/
def processSwitchToUserModeSetStackAndJmpAddr : List Code :=
  [.instr .cli, .instr (.movAx 0x23), .instr (.movSeg .ds), .instr (.movSeg .es), .instr (.movSeg .fs),
    .instr (.movSeg .gs), .instr (.movStack .eax 1), .instr (.movStack .ecx 2), .instr (.pushImm 0x23),
    .instr (.push .eax), .instr .pushf, .instr (.pop .eax), .instr (.orImm .eax 0x200),
    .instr (.push .eax), .instr (.pushImm 0x1b), .instr (.push .ecx), .instr .iret]

/-- `process_switch_to_user_mode`, whose last label has the address `exit`. -/
def processSwitchToUserMode (exit : UInt32) : List Code :=
  [.instr .cli, .instr (.movAx 0x23), .instr (.movSeg .ds), .instr (.movSeg .es), .instr (.movSeg .fs),
    .instr (.movSeg .gs), .instr (.mov .eax .esp), .instr (.pushImm 0x23), .instr (.push .eax),
    .instr .pushf, .instr (.pop .eax), .instr (.orImm .eax 0x200), .instr (.push .eax),
    .instr (.pushImm 0x1b), .instr (.pushImm exit), .instr .iret]

section

variable {H : Cpu → Cpu → Prop} {c c' : Cpu}

/-- `c'` runs at `eip` in ring 3, on the stack at `esp`, with interrupts. -/
structure UserMode (eip esp : UInt32) (c c' : Cpu) : Prop where
  eip : c'.eip = eip
  esp : c'.regs .esp = esp
  cs : c'.cs = 0x1b
  ss : c'.ss = 0x23
  segs : ∀ s, c'.segs s = 0x23
  eflags : c'.eflags = (c.eflags &&& ~~~interruptFlag) ||| interruptFlag
  regs : ∀ r, r ≠ .esp → r ≠ .eax → r ≠ .ecx → c'.regs r = c.regs r
  mem : ∀ x, x + 20 < c.esp ∨ c.esp ≤ x → c'.mem x = c.mem x

/-- The selector in the low half of `eax`. -/
theorem and_or_selector (v : UInt32) : (v &&& 0xFFFF0000 ||| 0x23) &&& 0xFFFF = 0x23 := by
  refine UInt32.toBitVec_inj.mp ?_
  rw [UInt32.toBitVec_and, UInt32.toBitVec_or, UInt32.toBitVec_and, BitVec.and_or_distrib_right,
    BitVec.and_assoc]
  exact (congrArg (· ||| _) BitVec.and_zero).trans BitVec.zero_or

/-- What the two functions have in common, from the pushes on. -/
theorem userMode_of_pushed {c₀ : Cpu} {eip esp : UInt32} {i : Instr} (hring : ringOf c.cs = 0)
    (hroom : 20 ≤ c.esp) (hesp : c₀.esp = c.esp) (hmem : c₀.mem = c.mem) (hcs : c₀.cs = c.cs)
    (hregs : ∀ r, r ≠ .esp → r ≠ .eax → r ≠ .ecx → c₀.regs r = c.regs r)
    (hsegs : ∀ s, c₀.segs s = 0x23) (hflags : c₀.eflags = c.eflags &&& ~~~interruptFlag)
    (heax : c₀.regs .eax = esp) (hi : ∀ d : Cpu, d.regs .ecx = c₀.regs .ecx → i.exec d = d.push eip)
    (hc' : c' = Instr.exec (Instr.exec (Instr.exec (Instr.exec (Instr.exec (Instr.exec (Instr.exec
      (Instr.exec (Instr.exec c₀ (.pushImm 0x23)) (.push .eax)) .pushf) (.pop .eax))
      (.orImm .eax 0x200)) (.push .eax)) (.pushImm 0x1b)) i) .iret) :
    UserMode eip esp c c' := by
  have h₀ : c.Pushed (c.esp - 20) c₀ [] := (Cpu.Pushed.refl _ c).congr hesp hmem
  have h₁ := h₀.push (by rw [List.length_nil]; omega) 0x23
  have h₂ := h₁.push (by rw [List.length_singleton]; omega) esp
  have h₃ := h₂.push (by rw [List.length_cons, List.length_singleton]; omega) c₀.eflags
  -- the flags are popped, and pushed again with that of the interrupts
  obtain ⟨c₃, hc₃⟩ : ∃ c₃, c₃ = ((c₀.push 0x23).push esp).push c₀.eflags := ⟨_, rfl⟩
  obtain ⟨c₅, hc₅⟩ : ∃ c₅, c₅ = Instr.exec (Instr.exec c₃ (.pop .eax)) (.orImm .eax 0x200) := ⟨_, rfl⟩
  rw [← hc₃] at h₃
  have heax₅ : c₅.regs .eax = (c.eflags &&& ~~~interruptFlag) ||| interruptFlag := by
    have hor : c₅.regs .eax = c₃.top 0 ||| interruptFlag := by
      rw [hc₅]
      rfl
    rw [hor, h₃.stack.top (i := 0) rfl, hflags]
  have h₅ : c.Pushed (c.esp - 20) c₅ [esp, 0x23] := by
    refine h₃.pop.congr ?_ ?_
    · rw [hc₅]
      rfl
    · rw [hc₅]
      rfl
  have h₆ := h₅.push (by rw [List.length_cons, List.length_singleton]; omega) (c₅.regs .eax)
  have h₇ := h₆.push (by simp only [List.length_cons, List.length_nil]; omega) 0x1b
  have h₈ := h₇.push (by simp only [List.length_cons, List.length_nil]; omega) eip
  have hstack : Instr.exec (Instr.exec c₀ (.pushImm 0x23)) (.push .eax) = (c₀.push 0x23).push esp := by
    rw [← heax]
    rfl
  have hend : c' = (((c₅.push (c₅.regs .eax)).push 0x1b).push eip).iret := by
    rw [hc', hi, hstack, hc₅, hc₃]
    · rfl
    · rw [hstack]
      rfl
  obtain ⟨c₈, hc₈⟩ : ∃ c₈, c₈ = ((c₅.push (c₅.regs .eax)).push 0x1b).push eip := ⟨_, rfl⟩
  rw [← hc₈] at h₈ hend
  rw [heax₅] at h₈
  have hcs₈ : c₈.cs = c.cs := by
    rw [hc₈, hc₅, hc₃]
    exact hcs
  rw [hend, Cpu.iret_outer h₈.stack (by rw [hcs₈, hring]; decide)]
  have hregs₈ : ∀ r, r ≠ .esp → r ≠ .eax → c₈.regs r = c₀.regs r := by
    rw [hc₈, hc₅, hc₃]
    intro r h h'
    cases r with
    | esp => exact absurd rfl h
    | eax => exact absurd rfl h'
    | _ => rfl
  have hsegs₈ : c₈.segs = c₀.segs := by
    rw [hc₈, hc₅, hc₃]
    rfl
  have hesp₈ : (c₈.set .esp esp).regs .esp = esp := Cpu.set_regs
  refine ⟨rfl, hesp₈, rfl, rfl, fun s => ?_, rfl, fun r h h' h'' => ?_,
    fun x hx => h₈.mem x (by omega)⟩
  · rw [← hsegs s, ← hsegs₈]
    rfl
  · rw [← hregs r h h' h'', ← hregs₈ r h h']
    cases r with
    | esp => exact absurd rfl h
    | _ => rfl

/-- The process runs at the address and on the stack that the call was given. -/
theorem processSwitchToUserModeSetStackAndJmpAddr_user (hring : ringOf c.cs = 0) (hroom : 20 ≤ c.esp)
    (hrun : Run H processSwitchToUserModeSetStackAndJmpAddr c c') :
    UserMode (c.top 2) (c.top 1) c c' := by
  unfold processSwitchToUserModeSetStackAndJmpAddr at hrun
  simp only [Run.instr_iff, Run.nil_iff] at hrun
  generalize hc₀ : Instr.exec (Instr.exec (Instr.exec (Instr.exec (Instr.exec (Instr.exec (Instr.exec
    (Instr.exec c .cli) (.movAx 0x23)) (.movSeg .ds)) (.movSeg .es)) (.movSeg .fs)) (.movSeg .gs))
    (.movStack .eax 1)) (.movStack .ecx 2) = c₀ at hrun
  refine userMode_of_pushed hring hroom ?_ ?_ ?_ ?_ ?_ ?_ ?_ ?_ hrun
  all_goals rw [← hc₀]
  · rfl
  · rfl
  · rfl
  · intro r h h' h''
    cases r with
    | esp => exact absurd rfl h
    | eax => exact absurd rfl h'
    | ecx => exact absurd rfl h''
    | _ => rfl
  · intro s
    cases s <;> exact and_or_selector (c.regs .eax)
  · rfl
  · rfl
  · intro d hd
    exact congrArg d.push hd

/-- The caller goes on in ring 3, at the end of the function. -/
theorem processSwitchToUserMode_user {exit : UInt32} (hring : ringOf c.cs = 0) (hroom : 20 ≤ c.esp)
    (hrun : Run H (processSwitchToUserMode exit) c c') : UserMode exit (c.regs .esp) c c' := by
  unfold processSwitchToUserMode at hrun
  simp only [Run.instr_iff, Run.nil_iff] at hrun
  generalize hc₀ : Instr.exec (Instr.exec (Instr.exec (Instr.exec (Instr.exec (Instr.exec (Instr.exec
    c .cli) (.movAx 0x23)) (.movSeg .ds)) (.movSeg .es)) (.movSeg .fs)) (.movSeg .gs))
    (.mov .eax .esp) = c₀ at hrun
  refine userMode_of_pushed hring hroom ?_ ?_ ?_ ?_ ?_ ?_ ?_ (fun _ _ => rfl) hrun
  all_goals rw [← hc₀]
  · rfl
  · rfl
  · rfl
  · intro r h h' h''
    cases r with
    | esp => exact absurd rfl h
    | eax => exact absurd rfl h'
    | _ => rfl
  · intro s
    cases s <;> exact and_or_selector (c.regs .eax)
  · rfl
  · rfl

end

/-! ## A process in user mode -/

/-- The stack for ring 0 that `gdt_init` gives the processor. -/
def kernelTask : TaskState := ⟨0x10, 0xF0000000⟩

/-- A processor in ring `3` at `0x40000000`. -/
def userCpu : Cpu := ⟨fun _ => 0, fun _ => 0x23, 0x40000000, 0x1b, 0x23, 0x202, fun _ => 0⟩

/-- A processor in ring `0` with a stack. -/
def kernelCpu : Cpu :=
  ⟨fun r => if r = .esp then 0xE000 else 0, fun _ => 0x10, 0x8000, 0x08, 0x10, 0x202, fun _ => 0⟩

theorem keepsFrame_refl : ∀ c₁ c₂ : Cpu, c₂ = c₁ → KeepsFrame c₁ c₂ := by
  rintro c _ rfl
  exact ⟨rfl, rfl, rfl, fun _ _ _ => rfl⟩

theorem exists_returns : ∀ c : Cpu, ∃ c', c' = c := fun c => ⟨c, rfl⟩

/-- A system call of a process. -/
theorem interrupt_served_syscall : ∃ (c₁ c₂ : Cpu) (g : Gate),
    Called (idtStub 128) g none userCpu c₁ ∧
      (idtStub 128).serve (registered [(0, 128)]) (c₁.top 8).toNat = ⟨[], some 0⟩ ∧ c₂ = c₁ := by
  obtain ⟨address, haddress⟩ : ∃ address : Stub → ℕ, address = fun s => s.intNo % 256 := ⟨_, rfl⟩
  obtain ⟨codeAt, hcodeAt⟩ : ∃ codeAt : UInt32 → List Code,
      codeAt = fun w => (idtStub w.toNat).code := ⟨_, rfl⟩
  have hlt : ∀ s, address s < 4294967296 := fun s => by
    rw [haddress]
    exact lt_of_lt_of_le (Nat.mod_lt _ (by decide)) (by decide)
  have hcode : ∀ v < 256, codeAt (UInt32.ofNat (address (idtStub v))) = (idtStub v).code := by
    intro v hv
    rw [hcodeAt, haddress]
    dsimp only
    rw [idtStub_intNo, Nat.mod_eq_of_lt hv,
      UInt32.toNat_ofNat_of_lt' (lt_of_lt_of_le hv (by decide))]
  have hnot : ¬ NoGate 128 := by
    unfold NoGate
    decide
  obtain ⟨g, hg⟩ : ∃ g, g = gateAt (interruptInit address fun _ => 0) (idtBase + 8 * 128) := ⟨_, rfl⟩
  have hselector : g.selector = 0x08 := by
    rw [hg, ((interruptInit_gates _ hlt).1 128 (by decide) hnot).gate]
  have hroom : 64 ≤ (userCpu.switchStack kernelTask g).esp := by
    unfold Cpu.switchStack
    rw [hselector]
    decide
  obtain ⟨c', hrun⟩ := Run.exists exists_returns (codeAt g.offset) (userCpu.interrupt kernelTask g none)
  obtain ⟨c₁, c₂, hcall, hcalled, -, hserve⟩ := (interrupt_served [(0, 128)] hlt hcode keepsFrame_refl
    (by decide) hg rfl hroom hrun).1 hnot
  exact ⟨c₁, c₂, g, hcalled, hserve, hcall⟩

/-- An alignment check, whose error code the stub does not expect. -/
theorem stub_resumes_at_error : ∃ c' : Cpu, userCpu.eip = 0x40000000 ∧ c'.eip = 0 := by
  obtain ⟨c', hrun⟩ := Run.exists exists_returns (Stub.isr 17).code
    (userCpu.interrupt kernelTask ⟨0x08, 0⟩ (some 0))
  exact ⟨c', rfl, stub_resumes_at keepsFrame_refl (by decide) hrun⟩

/-- The start of a process. -/
theorem processSwitchToUserModeSetStackAndJmpAddr_start : ∃ c' : Cpu, UserMode 0 0 kernelCpu c' := by
  obtain ⟨c', hrun⟩ := Run.exists exists_returns processSwitchToUserModeSetStackAndJmpAddr kernelCpu
  exact ⟨c', processSwitchToUserModeSetStackAndJmpAddr_user (by decide) (by decide) hrun⟩

/-- The counter of the ticks. -/
def tickCounter : ℕ := 0x2000

/-- A handler of the timer that counts the ticks. -/
def countTick (c c' : Cpu) : Prop :=
  tickCounter + 4 ≤ c.esp ∧
    c' = { c with mem := store32 c.mem tickCounter (load32 c.mem tickCounter + 1) }

/-- A handler that returns 7 in `eax`. -/
def returnSeven (c c' : Cpu) : Prop := c' = { c with mem := store32 c.mem (c.esp + 28) 7 }

theorem countTick_keepsStack {hi : ℕ} {P : Set ℕ}
    (hP : ∀ x ∈ P, x < tickCounter ∨ tickCounter + 4 ≤ x) :
    ∀ c₁ c₂, countTick c₁ c₂ → KeepsStack P hi c₁ c₂ := by
  rintro c _ ⟨hesp, rfl⟩
  refine ⟨rfl, rfl, rfl, rfl, fun x hx => store32_of_outside ?_⟩
  rcases hx with hx | ⟨hx, -⟩
  · exact hP x hx
  · exact .inr (Nat.le_trans hesp hx)

theorem returnSeven_keepsFrame : ∀ c₁ c₂, returnSeven c₁ c₂ → KeepsFrame c₁ c₂ := by
  rintro c _ rfl
  refine ⟨rfl, rfl, rfl, fun i hi _ => ?_⟩
  exact congrArg UInt32.ofNat (load32_store32_of_disjoint (.inr (by
    have hesp : Cpu.esp { c with mem := store32 c.mem (c.esp + 28) 7 } = c.esp := rfl
    omega)))

/-- The stub of the system calls: the timer interrupts it before it saves the registers, and once
more before the stub of the timer returns. -/
theorem exists_stubRun {gate : ℕ → Gate} (h : gate 32 = ⟨0x08, 0⟩) : ∃ c', StubRun 0x4000 0xF000
    kernelTask gate countTick returnSeven (.isr 128) (kernelCpu.interrupt kernelTask ⟨0x08, 0⟩ none)
    c' ∧ load32 c'.mem tickCounter = 2 := by
  have htimer : ∀ {H l c c₁ c'}, c.Room 0x4000 0xF000 → ringOf c.cs = 0 →
      c.eflags &&& interruptFlag ≠ 0 →
      StubRun 0x4000 0xF000 kernelTask gate countTick countTick (.irq 0)
        (c.interrupt kernelTask ⟨0x08, 0⟩ none) c₁ →
      InterruptedRun 0x4000 0xF000 kernelTask gate (fun v => (idtStub v).code) {v | 32 ≤ v ∧ v < 47}
        countTick H l c₁ c' →
      InterruptedRun 0x4000 0xF000 kernelTask gate (fun v => (idtStub v).code) {v | 32 ≤ v ∧ v < 47}
        countTick H l c c' := fun hroom hring hflag hnest hrun => by
    refine .interrupt hroom (show 32 ≤ 32 ∧ 32 < 47 by decide) hring hflag ?_ hrun
    rw [h]
    exact hnest
  unfold StubRun Stub.code at *
  refine ⟨_, .instr ?_ (.instr ?_ (.instr ?_ (.instr ?_ (htimer ?_ ?_ ?_
    (.instr ?_ (.instr ?_ (.instr ?_ (.instr ?_ (.call ⟨?_, rfl⟩ (.instr ?_ (.instr ?_ (.instr ?_
      (htimer ?_ ?_ ?_
        (.instr ?_ (.instr ?_ (.instr ?_ (.instr ?_ (.call ⟨?_, rfl⟩ (.instr ?_ (.instr ?_ (.instr ?_
          (.instr ?_ (.nil _))))))))))
        (.instr ?_ (.nil _)))))))))))
    (.instr ?_ (.call rfl (.instr ?_ (.instr ?_ (.instr ?_ (.nil _)))))))))), ?_⟩
  all_goals decide +kernel

theorem stub_interrupted_timer : ∃ c' : Cpu, load32 c'.mem tickCounter = 2 ∧
    ∃ c₁ c₂, returnSeven c₁ c₂ ∧ Called (.isr 128) ⟨0x08, 0⟩ none kernelCpu c₁ ∧
      c' = { resumed kernelCpu c₂ with mem := c'.mem } := by
  obtain ⟨address, haddress⟩ : ∃ address : Stub → ℕ, address = fun _ => 0 := ⟨_, rfl⟩
  have hlt : ∀ s, address s < 4294967296 := fun s => by
    rw [haddress]
    exact Nat.succ_pos _
  obtain ⟨gate, hgate⟩ : ∃ gate : ℕ → Gate, ∀ v,
      gate v = gateAt (interruptInit address fun _ => 0) (idtBase + 8 * v) := ⟨_, fun _ => rfl⟩
  have hset : ∀ v < 256, ¬ NoGate v → gate v = ⟨0x08, 0⟩ := fun v hv hset => by
    rw [hgate, ((interruptInit_gates _ hlt).1 v hv hset).gate, haddress]
    rfl
  have h128 := hset 128 (by decide) (by unfold NoGate; decide)
  obtain ⟨c', hrun, hticks⟩ := exists_stubRun (hset 32 (by decide) (by unfold NoGate; decide))
  rw [← h128] at hrun
  obtain ⟨c₁, c₂, hcall, hcalled, -, -, hback, -⟩ := stub_interrupted (v := 128)
    (P := {x | 0xF000 ≤ x}) hlt hgate (by decide) (by unfold NoGate; decide) (by decide)
    (fun x hx => .inr hx)
    (countTick_keepsStack fun x hx => .inr (Nat.le_trans (by decide) hx)) returnSeven_keepsFrame
    rfl (by rw [h128]; decide +kernel) (by rw [h128]; decide +kernel) (by rw [h128]; decide +kernel)
    hrun
  rw [h128] at hcalled
  exact ⟨c', hticks, c₁, c₂, hcall, hcalled, hback⟩

end RawOS
