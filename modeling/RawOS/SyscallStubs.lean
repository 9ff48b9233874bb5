import Mathlib.Data.List.GetD
import RawOS.Interrupts
import RawOS.SystemCalls
import RawOS.X86Fetch

/-!
# The stubs of the system calls

`asm/syscall_stubs.asm` in a process. `stub_calls` says what a process that calls a stub gets: the
stub fetches its arguments from the stack of the process, `interrupt_isr` 128 and `syscall_handler`
serve the call, and the stub returns without them, with the result in `eax`.
-/

namespace RawOS

open X86

/-! ## The code -/

/-- The loads of the arguments. -/
def argLoads : List (Reg × UInt8) := [(.ebx, 4), (.ecx, 8), (.edx, 12)]

namespace Syscall

/-- The end of a stub. -/
def lastOps (s : Syscall) : List Opcode := [.int 0x80, .ret (UInt16.ofNat (4 * s.arguments))]

/-- The instructions of a stub. -/
def ops (s : Syscall) : List Opcode :=
  .movImm .eax s.number.toUInt32 ::
    ((argLoads.take s.arguments).map (fun l => .movStack l.1 l.2) ++ s.lastOps)

theorem stubCode_eq (s : Syscall) : s.stubCode = s.ops.flatMap Opcode.encode := by
  cases s <;> decide

theorem length_ops (s : Syscall) : (s.ops.flatMap Opcode.encode).length =
    5 + 4 * s.arguments + (s.lastOps.flatMap Opcode.encode).length := by
  cases s <;> decide

theorem arguments_le (s : Syscall) : s.arguments ≤ 3 := by
  cases s <;> decide

/-- The call with the arguments `arg`. -/
def request (s : Syscall) (arg : ℕ → ℕ) : Request :=
  match s with
  | print => .print (arg 0)
  | exit => .exit (arg 0)
  | posCursor => .posCursor (arg 0) (arg 1)
  | clearScreen => .clearScreen
  | execve => .execve (arg 0)
  | fork => .fork
  | «open» => .open (arg 0)
  | read => .read (arg 0) (arg 1) (arg 2)
  | write => .write (arg 0) (arg 1) (arg 2)
  | close => .close (arg 0)

/-- The registers of the stub ask for its call. -/
theorem syscallRequest_number (s : Syscall) {arg : ℕ → ℕ} {ebx ecx edx : ℕ}
    (hebx : 0 < s.arguments → ebx = arg 0) (hecx : 1 < s.arguments → ecx = arg 1)
    (hedx : 2 < s.arguments → edx = arg 2) :
    syscallRequest s.number.toNat ebx ecx edx = some (s.request arg) := by
  cases s with
  | clearScreen => rfl
  | fork => rfl
  | posCursor =>
    rw [hebx (by decide), hecx (by decide)]
    rfl
  | read =>
    rw [hebx (by decide), hecx (by decide), hedx (by decide)]
    rfl
  | write =>
    rw [hebx (by decide), hecx (by decide), hedx (by decide)]
    rfl
  | _ =>
    rw [hebx (by decide)]
    rfl

end Syscall

/-! ## The kernel behind the stub -/

/-- The calls with their results, and the memory before and after them: those of `syscall_handler`,
and those that `process` does. -/
inductive ServesCall (env : SyscallEnv) (process : Request → Mem → Option ℤ → Mem → Prop)
    (r : Request) (m : Mem) (v : Option ℤ) (m' : Mem) : Prop where
  | handler {s s' : SyscallState} (new : ℕ) (scanCodes : List UInt8) : s.mem = m → s'.mem = m' →
    syscallHandler env s new scanCodes r = .ok (.returns v s') → ServesCall env process r m v m'
  | process {s : SyscallState} (new : ℕ) (scanCodes : List UInt8) : s.mem = m →
    syscallHandler env s new scanCodes r = .ok .process → process r m v m' →
    ServesCall env process r m v m'

/-- What `eax` is after a call. -/
def storedEax (eax : UInt32) (v : Option ℤ) : UInt32 := v.elim eax fun z => UInt32.ofNat (ofS32 z)

/-- `isr_handler` as the stub calls it, with `syscall_handler` for the number 128: it serves the call in
a memory that is the same in `P`, and stores the result to the `eax` of `args`. Devices may interrupt
it. -/
structure CallsHandler (P : Set ℕ) (serve : Request → Mem → Option ℤ → Mem → Prop) (c c' : Cpu) :
    Prop where
  keeps : KeepsFrame c c'
  segs : c'.segs = c.segs
  args : ∀ i < 7, c'.top i = c.top i
  serves : c.top 8 = 128 → ∀ r,
    syscallRequest (c.top 7).toNat (c.top 4).toNat (c.top 6).toNat (c.top 5).toNat = some r →
    ∃ m₁ v m₂, (∀ x ∈ P, m₁ x = c.mem x) ∧ serve r m₁ v m₂ ∧ (∀ x ∈ P, c'.mem x = m₂ x) ∧
      c'.top 7 = storedEax (c.top 7) v

/-- A software interrupt. Devices may interrupt the stub. -/
def softwareInterrupt (lo : ℕ) (t : TaskState) (gate : ℕ → Gate) (device H : Cpu → Cpu → Prop)
    (v : UInt8) (c c' : Cpu) : Prop :=
  StubRun lo t.esp0.toNat t gate device H (idtStub v.toNat) (c.interrupt t (gate v.toNat) none) c'

/-- An interrupt of a process by a device. Devices may interrupt the stub. -/
def deviceInterrupt (lo : ℕ) (t : TaskState) (gate : ℕ → Gate) (device : Cpu → Cpu → Prop)
    (c c' : Cpu) : Prop :=
  ringOf c.cs = 3 ∧ c.eflags &&& interruptFlag ≠ 0 ∧ ∃ v, 32 ≤ v ∧ v < 47 ∧
    StubRun lo t.esp0.toNat t gate device device (idtStub v) (c.interrupt t (gate v) none) c'

/-- The process `c` after a call of a stub with the result `v`. -/
structure StubReturned (args : List UInt32) (s : Syscall) (ret : UInt32) (v : Option ℤ) (c c' : Cpu) :
    Prop where
  eip : c'.eip = ret
  esp : c'.regs .esp = c.regs .esp + UInt32.ofNat (4 * args.length + 4)
  eax : c'.regs .eax = storedEax s.number.toUInt32 v
  ebx : c'.regs .ebx = args.getD 0 (c.regs .ebx)
  ecx : c'.regs .ecx = args.getD 1 (c.regs .ecx)
  edx : c'.regs .edx = args.getD 2 (c.regs .edx)
  saved : ∀ r, r = .ebp ∨ r = .esi ∨ r = .edi → c'.regs r = c.regs r
  segs : c'.segs = c.segs
  cs : c'.cs = c.cs
  ss : c'.ss = c.ss
  eflags : c'.eflags = c.eflags

section

variable {s : Syscall} {args : List UInt32} {ret : UInt32} {t : TaskState} {gate : ℕ → Gate}
  {H device : Cpu → Cpu → Prop} {c c' d : Cpu} {P : Set ℕ} {lo : ℕ}

/-! ## The arguments -/

/-- The registers after the loads. -/
structure Loaded (args : List UInt32) (c d : Cpu) : Prop where
  eq : d = { c with regs := d.regs, eip := c.eip + UInt32.ofNat (4 * args.length) }
  ebx : d.regs .ebx = args.getD 0 (c.regs .ebx)
  ecx : d.regs .ecx = args.getD 1 (c.regs .ecx)
  edx : d.regs .edx = args.getD 2 (c.regs .edx)
  other : ∀ r, r ≠ .ebx → r ≠ .ecx → r ≠ .edx → d.regs r = c.regs r

theorem argAddress {i : ℕ} (hi : i < 3) (h : c.esp + 16 < 4294967296) :
    (c.regs .esp + disp32 (UInt8.ofNat (4 * i + 4))).toNat = c.esp + 4 * (i + 1) := by
  have hdisp : (disp32 (UInt8.ofNat (4 * i + 4))).toNat = 4 * (i + 1) := by
    interval_cases i <;> rfl
  rw [UInt32.toNat_add, hdisp]
  exact Nat.mod_eq_of_lt (by unfold Cpu.esp at h; omega)

theorem loaded_foldl (hstack : c.Stack (ret :: args)) (hlen : args.length ≤ 3)
    (hroom : c.esp + 16 < 4294967296) :
    Loaded args c ((argLoads.take args.length).foldl Cpu.load c) := by
  have hword : ∀ {i w}, args[i]? = some w →
      UInt32.ofNat (load32 c.mem (c.regs .esp + disp32 (UInt8.ofNat (4 * i + 4))).toNat) = w := by
    intro i w hw
    have hi := (List.getElem?_eq_some_iff.mp hw).1
    rw [argAddress (by omega) hroom]
    exact hstack.top (i := i + 1) hw
  have heq := Cpu.foldl_load_eq (argLoads.take args.length) c
  have hloads : (argLoads.take args.length).length = args.length := by
    rw [List.length_take]
    exact Nat.min_eq_left hlen
  rw [hloads] at heq
  match args, hlen with
  | [], _ => exact ⟨heq, rfl, rfl, rfl, fun _ _ _ _ => rfl⟩
  | [x], _ =>
    refine ⟨heq, hword (i := 0) rfl, rfl, rfl, fun r h _ _ => ?_⟩
    exact Function.update_of_ne h ..
  | [x, y], _ =>
    refine ⟨heq, hword (i := 0) rfl, hword (i := 1) rfl, rfl, fun r h h' _ => ?_⟩
    exact (Function.update_of_ne h' ..).trans (Function.update_of_ne h ..)
  | [x, y, z], _ =>
    refine ⟨heq, hword (i := 0) rfl, hword (i := 1) rfl, hword (i := 2) rfl, fun r h h' h'' => ?_⟩
    exact ((Function.update_of_ne h'' ..).trans (Function.update_of_ne h' ..)).trans
      (Function.update_of_ne h ..)

theorem loads_argLoads {n : ℕ} (hroom : c.esp + 16 < 4294967296)
    (hP : ∀ x, c.esp ≤ x → x < c.esp + 4 * (n + 1) → x ∈ P) :
    Loads P (c.regs .esp) (argLoads.take n) := by
  intro l hl
  obtain ⟨i, hi, rfl⟩ := List.mem_take_iff_getElem.mp hl
  have hlen : argLoads.length = 3 := rfl
  have haddress : (c.regs .esp + disp32 argLoads[i].2).toNat = c.esp + 4 * (i + 1) := by
    have hi' : i < 3 := by omega
    rw [← argAddress hi' hroom]
    interval_cases i <;> rfl
  have hne : argLoads.all (fun l => l.1 ≠ .esp) = true := rfl
  exact ⟨of_decide_eq_true (List.all_eq_true.mp hne _ (List.getElem_mem _)),
    fun x hx hx' => hP x (by omega) (by omega)⟩

/-- A stub up to its interrupt, if devices only write outside of `P`. -/
theorem stub_loads {int : UInt8 → Cpu → Cpu → Prop} (hdevice : ∀ c d, device c d → c.Agree P d)
    (hcode : c.Code P s.ops) (hargs : args.length = s.arguments) (hstack : c.Stack (ret :: args))
    (hroom : c.esp + 16 < 4294967296)
    (hP : ∀ x, c.esp ≤ x → x < c.esp + 4 * (s.arguments + 1) → x ∈ P)
    (hrun : FetchRun int device (s.arguments + 3) c c') :
    ∃ e d, Loaded args (({ c with eip := c.eip + 5 } : Cpu).set .eax s.number.toUInt32) e ∧
      e.Agree P d ∧ d.Code P s.lastOps ∧
      FetchRun int device 2 d c' := by
  have hle := s.arguments_le
  obtain ⟨d₀, c₁, hd₀, rfl, hrun⟩ := hrun.next hdevice hcode
  obtain ⟨c₀, hc₀⟩ : ∃ c₀, c₀ = ({ c with eip := c.eip + 5 } : Cpu).set .eax s.number.toUInt32 :=
    ⟨_, rfl⟩
  obtain ⟨d₁, hd₁⟩ : ∃ d₁, d₁ = ({ d₀ with eip := d₀.eip + 5 } : Cpu).set .eax s.number.toUInt32 :=
    ⟨_, rfl⟩
  have hagree : c₀.Agree P d₁ := by
    rw [hc₀, hd₁]
    refine ⟨?_, hd₀.mem⟩
    rw [hd₀.eq]
    rfl
  have hesp : c₀.regs .esp = c.regs .esp := by
    rw [hc₀]
    rfl
  have hesp₁ : d₁.regs .esp = c.regs .esp := by rw [hagree.eq, hesp]
  have hloads : Loads P (c.regs .esp) (argLoads.take s.arguments) := loads_argLoads hroom hP
  have hcode₁ : d₁.Code P ((argLoads.take s.arguments).map (fun l => Opcode.movStack l.1 l.2) ++
      s.lastOps) := by
    refine hcode.tail ?_ fun x hx hx' => ?_
    · rw [hd₁, hd₀.eq]
      rfl
    · rw [hd₁]
      exact hd₀.mem x (hcode.kept x hx hx')
  have hcount : s.arguments + 2 = 2 + (argLoads.take s.arguments).length := by
    rw [List.length_take, Nat.min_eq_left (by exact hle), Nat.add_comm]
  have hrun₁ : FetchRun int device (2 + (argLoads.take s.arguments).length) d₁ c' := by
    rw [← hcount, hd₁]
    exact hrun
  obtain ⟨d, hd, hcode₂, hrun₂⟩ := hrun₁.loads hdevice (hesp₁ ▸ hloads) hcode₁
  refine ⟨(argLoads.take s.arguments).foldl Cpu.load c₀, d, ?_, ?_, hcode₂, hrun₂⟩
  · rw [← hc₀, ← hargs]
    have hstack₀ : c₀.Stack (ret :: args) := by
      rw [hc₀]
      exact hstack
    refine loaded_foldl hstack₀ (by omega) ?_
    · unfold Cpu.esp at hroom ⊢
      rw [hesp]
      exact hroom
  · exact (hagree.foldl_load (hesp ▸ hloads)).trans hd

/-! ## A call of a stub -/

section

variable {serve : Request → Mem → Option ℤ → Mem → Prop}

theorem switchStack_esp {g : Gate} (hg : ringOf g.selector = 0) (hring : ringOf c.cs = 3) :
    (c.switchStack t g).esp = t.esp0.toNat := by
  unfold Cpu.switchStack
  rw [if_pos (by omega)]
  have hset : (c.set .esp t.esp0).regs .esp = t.esp0 := Cpu.set_regs
  exact congrArg UInt32.toNat hset

/-- What is on the stack of ring 0 after an interrupt of a process. -/
theorem interrupt_esp {g : Gate} (hg : ringOf g.selector = 0) (hring : ringOf c.cs = 3)
    (hroom : 64 ≤ t.esp0.toNat) : (c.interrupt t g none).esp + 20 = t.esp0.toNat := by
  have hesp : (c.switchStack t g).esp = t.esp0.toNat := switchStack_esp hg hring
  have hsaved : (c.saved g none).length = 5 := by
    unfold Cpu.saved
    rw [if_pos (by omega)]
    rfl
  have hpushed : (c.switchStack t g).Pushed 0 (c.interrupt t g none) (c.saved g none) := by
    refine Cpu.interrupt_pushed ?_
    rw [hesp, hsaved]
    omega
  rw [← hesp, ← hpushed.esp, hsaved]

/-- What the theorems below assume of the kernel: its gates lead to ring 0, it has a stack from `lo`
on, and the handlers of its devices keep `P`, which is not on the stack. -/
structure Devices (P : Set ℕ) (lo : ℕ) (t : TaskState) (gate : ℕ → Gate)
    (device : Cpu → Cpu → Prop) : Prop where
  gate : ∀ v, 32 ≤ v ∧ v < 47 ∨ v = 128 → ringOf (gate v).selector = 0
  room : lo + 64 ≤ t.esp0.toNat
  apart : ∀ x ∈ P, x < lo ∨ t.esp0.toNat ≤ x
  keeps : ∀ c c', device c c' → KeepsStack P t.esp0.toNat c c'

/-- A process does not see the interrupts by the devices. -/
theorem deviceInterrupt_agree (h : Devices P lo t gate device)
    (hrun : deviceInterrupt lo t gate device c d) : c.Agree P d := by
  obtain ⟨hring, -, v, hv, hv', hrun⟩ := hrun
  have hirq : idtStub v = .irq (v - 32) := if_pos ⟨hv, hv'⟩
  have herr : (idtStub v).errCode = false := by rw [hirq]; rfl
  have hg := h.gate v (.inl ⟨hv, hv'⟩)
  have hroom := h.room
  have hesp : (c.switchStack t (gate v)).esp = t.esp0.toNat := switchStack_esp hg hring
  have hentry := interrupt_esp (c := c) (t := t) hg hring (by omega)
  obtain ⟨d₁, hplain, hd₁⟩ := hrun.run (fun v hv hv' => h.gate v (.inl ⟨hv, hv'⟩)) hg
    (UInt32.toNat_lt t.esp0) h.apart h.keeps
    (fun c₁ c₂ hc => ⟨(h.keeps c₁ c₂ hc).esp, (h.keeps c₁ c₂ hc).cs⟩) (by
      rw [herr, if_neg Bool.false_ne_true]
      omega)
  have hback := Stub.transparent h.apart h.keeps herr (by omega) (by omega) hplain
  exact (hback.mono fun x hx => .inl hx).trans (hd₁.mono fun x hx => .inl hx)

/-- `int 0x80` in a process whose registers ask for `r`. -/
theorem softwareInterrupt_serves {r : Request} (h : Devices P lo t gate device)
    (hH : ∀ c c', H c c' → CallsHandler P serve c c') (hring : ringOf c.cs = 3)
    (hr : syscallRequest (c.regs .eax).toNat (c.regs .ebx).toNat (c.regs .ecx).toNat
      (c.regs .edx).toNat = some r)
    (hint : softwareInterrupt lo t gate device H 0x80 c c') : ∃ v m₁ m₂, serve r m₁ v m₂ ∧
      (∀ x ∈ P, m₁ x = c.mem x) ∧ (∀ x ∈ P, c'.mem x = m₂ x) ∧
      c' = { c with
        regs := Function.update c.regs .eax (storedEax (c.regs .eax) v)
        mem := c'.mem } := by
  have hg := h.gate 128 (.inr rfl)
  have hroom := h.room
  have hesp : (c.switchStack t (gate 128)).esp = t.esp0.toNat := switchStack_esp hg hring
  have hentry := interrupt_esp (c := c) (t := t) hg hring (by omega)
  obtain ⟨c₁, c₂, hcall, hcalled, hsegs, hmem, hback, hmem'⟩ := StubRun.returns (s := .isr 128)
    (fun v hv hv' => h.gate v (.inl ⟨hv, hv'⟩)) hg (UInt32.toNat_lt t.esp0) h.apart h.keeps
    (fun c₁ c₂ hc => (hH c₁ c₂ hc).keeps) rfl (by omega) (by omega) (Nat.le_of_eq hentry) hint
  have hhandler := hH c₁ c₂ hcall
  have htop : ∀ r, r ≠ .esp → c₁.top (argIndex r) = c.regs r := hcalled.regs
  rw [← htop .eax (by decide), ← htop .ebx (by decide), ← htop .ecx (by decide),
    ← htop .edx (by decide)] at hr
  obtain ⟨m₁, v, m₂, hm₁, hserve, hm₂, heax⟩ := hhandler.serves hcalled.intNo r hr
  refine ⟨v, m₁, m₂, hserve, fun x hx => (hm₁ x hx).trans (hmem x hx),
    fun x hx => (hmem' x hx).trans (hm₂ x hx), ?_⟩
  rw [hback]
  unfold resumed
  dsimp only
  rw [hhandler.segs, hsegs]
  congr 1
  funext q
  by_cases hq : q = .eax
  · subst hq
    rw [Function.update_self, ← htop .eax (by decide)]
    exact heax
  · rw [Function.update_of_ne hq]
    split_ifs with hsp
    · rw [hsp]
    · have hindex : argIndex q < 7 := by
        cases q with
        | eax => exact absurd rfl hq
        | _ => decide
      rw [hhandler.args _ hindex, htop q hsp]

/-- A process that calls the stub `s` with the arguments on its stack: the kernel serves the call
`s` with these arguments, and with the memory of the process, and the process goes on behind the call
with the result. That holds with interrupts by the devices at any place, whose handlers leave the stub
and its stack alone, in `P`, if the call does not write to the stub and to the return address. -/
theorem stub_calls {env : SyscallEnv} {process : Request → Mem → Option ℤ → Mem → Prop}
    (hdevices : Devices P lo t gate device) (hcode : BytesAt c.mem c.eip.toNat s.stubCode)
    (hbelow : c.eip.toNat + s.stubCode.length < 4294967296)
    (hcodeP : ∀ x, c.eip.toNat ≤ x → x < c.eip.toNat + s.stubCode.length → x ∈ P)
    (hargs : args.length = s.arguments) (hstack : c.Stack (ret :: args))
    (hstackBelow : c.esp + 16 < 4294967296)
    (hstackP : ∀ x, c.esp ≤ x → x < c.esp + 4 * (s.arguments + 1) → x ∈ P) (hring : ringOf c.cs = 3)
    (hH : ∀ c c', H c c' → CallsHandler P (ServesCall env process) c c')
    (hkeeps : ∀ m₁ v m₂, ServesCall env process (s.request fun i => (args.getD i 0).toNat) m₁ v m₂ →
      ∀ x, c.eip.toNat ≤ x ∧ x < c.eip.toNat + s.stubCode.length ∨ c.esp ≤ x ∧ x < c.esp + 4 →
        m₂ x = m₁ x)
    (hrun : FetchRun (softwareInterrupt lo t gate device H) (deviceInterrupt lo t gate device)
      (s.arguments + 3) c c') :
    ∃ v m₁ m₂, ServesCall env process (s.request fun i => (args.getD i 0).toNat) m₁ v m₂ ∧
      (∀ x ∈ P, m₁ x = c.mem x) ∧ (∀ x ∈ P, c'.mem x = m₂ x) ∧ StubReturned args s ret v c c' := by
  have hagree : ∀ c d, deviceInterrupt lo t gate device c d → c.Agree P d :=
    fun c d h => deviceInterrupt_agree hdevices h
  rw [s.stubCode_eq] at hcode hbelow hcodeP hkeeps
  obtain ⟨e, d, hloaded, hd, hcode₁, hrun⟩ :=
    stub_loads hagree ⟨hcode, hcodeP, hbelow⟩ hargs hstack hstackBelow hstackP hrun
  obtain ⟨d₂, c₂, hd₂, hint, hrun⟩ := hrun.next hagree hcode₁
  have hed₂ := hd.trans hd₂
  -- the registers when the interrupt is raised
  obtain ⟨i, hi⟩ : ∃ i, i = ({ d₂ with eip := d₂.eip + 2 } : Cpu) := ⟨_, rfl⟩
  have hregs : i.regs = e.regs := by rw [hi, hed₂.eq]
  have hrequest : syscallRequest (i.regs .eax).toNat (i.regs .ebx).toNat (i.regs .ecx).toNat
      (i.regs .edx).toNat = some (s.request fun i => (args.getD i 0).toNat) := by
    have hget : ∀ {i x}, i < s.arguments → (args.getD i x).toNat = (args.getD i 0).toNat := by
      intro i x hi
      rw [← hargs] at hi
      rw [List.getD_eq_getElem args x hi, List.getD_eq_getElem args 0 hi]
    have heax : (e.regs .eax).toNat = s.number.toNat := by
      rw [hloaded.other .eax (by decide) (by decide) (by decide), Cpu.set_regs, UInt8.toNat_toUInt32]
    rw [hregs, heax, hloaded.ebx, hloaded.ecx, hloaded.edx]
    exact s.syscallRequest_number hget hget hget
  have hring₂ : ringOf i.cs = 3 := by
    rw [hi, hed₂.eq, hloaded.eq]
    exact hring
  obtain ⟨v, m₁, m₂, hserve, hm₁, hm₂, hc₂⟩ := softwareInterrupt_serves hdevices hH hring₂ hrequest
    (by rw [hi]; exact hint)
  have hmem : ∀ x ∈ P, i.mem x = c.mem x := fun x hx => by
    have he : e.mem = c.mem := by
      rw [hloaded.eq]
      rfl
    rw [hi, ← he]
    exact hed₂.mem x hx
  have hkept : ∀ x, c.eip.toNat ≤ x ∧ x < c.eip.toNat + (s.ops.flatMap Opcode.encode).length ∨
      c.esp ≤ x ∧ x < c.esp + 4 → c₂.mem x = c.mem x := fun x hx => by
    have hx' : x ∈ P := hx.elim (fun hx => hcodeP x hx.1 hx.2) fun hx => hstackP x hx.1 (by omega)
    rw [hm₂ x hx', hkeeps m₁ v m₂ hserve x hx, hm₁ x hx', hmem x hx']
  -- the return
  have hcode₂ : c₂.Code P [.ret (UInt16.ofNat (4 * s.arguments))] := by
    refine (hcode₁.agree hd₂).tail ?_ fun x hx hx' => ?_
    · rw [hc₂, hi]
      rfl
    · have hlen := s.length_ops
      have hle := s.arguments_le
      have heip : d₂.eip = c.eip + UInt32.ofNat (5 + 4 * s.arguments) := by
        rw [hed₂.eq, hloaded.eq, UInt32.ofNat_add, ← UInt32.add_assoc, ← hargs]
        rfl
      have hnat : d₂.eip.toNat = c.eip.toNat + (5 + 4 * s.arguments) := by
        rw [heip, UInt32.toNat_add, UInt32.toNat_ofNat_of_lt' (by
          rw [show UInt32.size = 4294967296 from rfl]
          omega)]
        exact Nat.mod_eq_of_lt (by omega)
      have hrange : d₂.eip.toNat + (s.lastOps.flatMap Opcode.encode).length =
          c.eip.toNat + (s.ops.flatMap Opcode.encode).length := by omega
      rw [← Syscall.lastOps, hrange] at hx'
      rw [hkept x (.inl ⟨by omega, hx'⟩), hed₂.mem x (hcodeP x (by omega) hx'), hloaded.eq]
      rfl
  have hregs₂ : c₂.regs = Function.update e.regs .eax (storedEax s.number.toUInt32 v) := by
    rw [hc₂, hregs, hloaded.other .eax (by decide) (by decide) (by decide), Cpu.set_regs]
  have hesp₂ : c₂.regs .esp = c.regs .esp := by
    rw [hregs₂, Function.update_of_ne (by decide),
      hloaded.other .esp (by decide) (by decide) (by decide)]
    rfl
  have hsame : c₂.esp = c.esp := congrArg UInt32.toNat hesp₂
  have hret : c₂.top 0 = ret := by
    rw [← hstack.top (i := 0) rfl]
    unfold Cpu.top
    rw [hsame, load32_congr fun x hx hx' => hkept x (.inr ⟨by omega, by omega⟩)]
  obtain ⟨hc', hmem'⟩ := hrun.ret hagree hcode₂ (fun x hx hx' => hstackP x (by omega) (by omega)) hret
  have hregs' : c'.regs = Function.update c₂.regs .esp
      (c₂.regs .esp + (4 + (UInt16.ofNat (4 * s.arguments)).toUInt32)) := by rw [hc']
  have hof : ∀ q, q ≠ .esp → q ≠ .eax → c'.regs q = e.regs q := fun q hq hq' => by
    rw [hregs', Function.update_of_ne hq, hregs₂, Function.update_of_ne hq']
  have hfields : c' = { c with
      regs := c'.regs
      eip := ret
      mem := c'.mem } := by
    rw [hc', hc₂, hi, hed₂.eq, hloaded.eq]
    rfl
  have hdrop : 4 + (UInt16.ofNat (4 * s.arguments)).toUInt32 = UInt32.ofNat (4 * s.arguments + 4) := by
    cases s <;> decide
  refine ⟨v, m₁, m₂, hserve, fun x hx => (hm₁ x hx).trans (hmem x hx),
    fun x hx => (hmem' x hx).trans (hm₂ x hx), ?_⟩
  refine ⟨by rw [hfields], ?_, ?_, ?_, ?_, ?_, fun q hq => ?_, by rw [hfields], by rw [hfields],
    by rw [hfields], by rw [hfields]⟩
  · rw [hregs', Function.update_self, hesp₂, hdrop, hargs]
  · rw [hregs', Function.update_of_ne (by decide), hregs₂, Function.update_self]
  · rw [hof .ebx (by decide) (by decide), hloaded.ebx]
    rfl
  · rw [hof .ecx (by decide) (by decide), hloaded.ecx]
    rfl
  · rw [hof .edx (by decide) (by decide), hloaded.edx]
    rfl
  · have hne : q ≠ .esp ∧ q ≠ .eax ∧ q ≠ .ebx ∧ q ≠ .ecx ∧ q ≠ .edx := by
      obtain rfl | rfl | rfl := hq <;> decide
    obtain ⟨hsp, hax, hbx, hcx, hdx⟩ := hne
    rw [hof q hsp hax, hloaded.other q hbx hcx hdx]
    exact Function.update_of_ne hax ..

end

end

/-! ## A process that forks -/

/-- The stub of `fork` at `0x40000000`, called with an empty stack. -/
def forkCpu : Cpu :=
  ⟨fun r => if r = .esp then 0x50000000 else 0, fun _ => 0x23, 0x40000000, 0x1b, 0x23, 0x202,
    memoryOf 0x40000000 Syscall.fork.stubCode⟩

/-- `isr_handler` when `process_fork` returns 7. -/
def forkHandler (c c' : Cpu) : Prop :=
  c.top 7 = 5 ∧ 0xE0000000 ≤ c.esp ∧ c.esp + 32 ≤ 0xF0000000 ∧
    c' = { c with mem := store32 c.mem (c.esp + 28) 7 }

def forkProcess (r : Request) (m : Mem) (v : Option ℤ) (m' : Mem) : Prop :=
  r = .fork ∧ v = some 7 ∧ m' = m

/-- The memory of the process, which the kernel's stack and data are not in. -/
def forkMemory : Set ℕ := {x | 0x40000000 ≤ x ∧ x < 0xE0000000}

/-- Every gate leads to code of the kernel. -/
def forkGate (_ : ℕ) : Gate := ⟨0x08, 0⟩

theorem forkHandler_calls : ∀ c c', forkHandler c c' →
    CallsHandler forkMemory (ServesCall oneFileEnv forkProcess) c c' := by
  rintro c _ ⟨heax, hlo, hhi, rfl⟩
  have htop : ∀ i, i ≠ 7 → Cpu.top { c with mem := store32 c.mem (c.esp + 28) 7 } i = c.top i := by
    intro i hi
    have hne : c.esp + 4 * i + 4 ≤ c.esp + 28 ∨ c.esp + 28 + 4 ≤ c.esp + 4 * i := by omega
    exact congrArg UInt32.ofNat (load32_store32_of_disjoint hne)
  refine ⟨⟨rfl, rfl, rfl, fun i hi _ => htop i (by omega)⟩, rfl, fun i hi => htop i (by omega),
    fun _ r hr => ?_⟩
  rw [heax] at hr
  obtain rfl := Option.some.inj hr
  refine ⟨c.mem, some 7, c.mem, fun _ _ => rfl,
    .process (s := oneFileState.setMem c.mem) 0 [] rfl rfl ⟨rfl, rfl, rfl⟩, fun x hx => ?_, ?_⟩
  · exact store32_of_outside (.inl (by have hx' := hx.2; omega))
  · exact congrArg UInt32.ofNat (load32_store32_eq rfl (by decide))

theorem forkDevices : Devices forkMemory 0xE0000000 kernelTask forkGate countTick := by
  refine ⟨fun _ _ => (by decide : ringOf 0x08 = 0), by decide, fun x hx => .inl hx.2,
    countTick_keepsStack fun x hx => .inr (le_trans ?_ hx.1)⟩
  decide

/-- The process when the stub raises the interrupt. -/
def forkLoaded : Cpu :=
  ({ forkCpu with eip := forkCpu.eip + UInt32.ofNat (opcodeLength - 0) } : Cpu).set .eax 5

/-- The timer interrupts the process before it raises the interrupt, and the stub of that once
more. -/
theorem exists_forkInterrupts : ∃ d c', deviceInterrupt 0xE0000000 kernelTask forkGate countTick
    forkLoaded d ∧ Opcode.decode (fetch d.mem d.eip.toNat) = some (.int 0x80, [0xC3, 0, 0]) ∧
    softwareInterrupt 0xE0000000 kernelTask forkGate countTick forkHandler 0x80
      { d with eip := d.eip + UInt32.ofNat (opcodeLength - 3) } c' ∧
    Opcode.decode (fetch c'.mem c'.eip.toNat) = some (.ret 0, [0, 0, 0, 0]) ∧
    load32 c'.mem tickCounter = load32 forkCpu.mem tickCounter + 2 := by
  have hcode : (idtStub (0x80 : UInt8).toNat).code = isrNoErrCodeNoCli 128 := rfl
  unfold deviceInterrupt softwareInterrupt StubRun
  rw [hcode]
  refine ⟨_, _, ⟨?_, ?_, 32, ?_, ?_, .instr ?_ (.instr ?_ (.instr ?_ (.instr ?_ (.call ⟨?_, rfl⟩
    (.instr ?_ (.instr ?_ (.instr ?_ (.instr ?_ (.nil _)))))))))⟩, ?_,
    .instr ?_ (.instr ?_ (.instr ?_ (.instr ?_ (.interrupt (v := 32) ?_
      (show 32 ≤ 32 ∧ 32 < 47 by decide) ?_ ?_
      (.instr ?_ (.instr ?_ (.instr ?_ (.instr ?_ (.call ⟨?_, rfl⟩ (.instr ?_ (.instr ?_ (.instr ?_
        (.instr ?_ (.nil _))))))))))
      (.instr ?_ (.call ⟨?_, ?_, ?_, rfl⟩ (.instr ?_ (.instr ?_ (.instr ?_ (.nil _)))))))))), ?_, ?_⟩
  all_goals decide +kernel

theorem exists_forkRun : ∃ c', FetchRun (softwareInterrupt 0xE0000000 kernelTask forkGate countTick
    forkHandler) (deviceInterrupt 0xE0000000 kernelTask forkGate countTick)
      (Syscall.fork.arguments + 3) forkCpu c' ∧
        load32 c'.mem tickCounter = load32 forkCpu.mem tickCounter + 2 := by
  obtain ⟨d, c₁, hdev, hraise, hint, hret, hticks⟩ := exists_forkInterrupts
  have hload : Opcode.decode (fetch forkCpu.mem forkCpu.eip.toNat) = some (.movImm .eax 5, []) := by
    decide +kernel
  exact ⟨_, .step ⟨_, _, hload, rfl⟩ (.interrupt hdev (.step ⟨_, _, hraise, hint⟩
    (.step ⟨_, _, hret, rfl⟩ (.refl _)))), hticks⟩

theorem stub_calls_fork : ∃ (c' : Cpu) (v : Option ℤ), StubReturned [] .fork 0 v forkCpu c' ∧
    load32 c'.mem tickCounter = load32 forkCpu.mem tickCounter + 2 ∧
      ∃ m₁ m₂, ServesCall oneFileEnv forkProcess .fork m₁ v m₂ := by
  obtain ⟨c', hrun, hticks⟩ := exists_forkRun
  have heip : forkCpu.eip.toNat = 0x40000000 := by decide
  have hesp : forkCpu.esp = 0x50000000 := by decide +kernel
  have hlen : Syscall.fork.stubCode.length = 8 := rfl
  have hcode : BytesAt forkCpu.mem forkCpu.eip.toNat Syscall.fork.stubCode := by
    rw [heip]
    unfold forkCpu
    dsimp only
    exact bytesAt_memoryOf 0x40000000 Syscall.fork.stubCode
  have hstack : forkCpu.Stack [0] := ⟨by decide +kernel, trivial⟩
  have hkeeps : ∀ m₁ v m₂, ServesCall oneFileEnv forkProcess .fork m₁ v m₂ → m₂ = m₁ := by
    rintro m₁ v m₂ (⟨new, keys, -, -, h⟩ | ⟨new, keys, -, -, -, -, h⟩)
    · cases h
    · exact h
  obtain ⟨v, m₁, m₂, hserve, -, -, hret⟩ := stub_calls forkDevices hcode (by rw [heip, hlen]; decide)
    (fun x hx hx' => ⟨by omega, by omega⟩) rfl hstack (by rw [hesp]; decide)
    (fun x hx hx' => by
      have harguments : Syscall.fork.arguments = 0 := rfl
      exact ⟨by omega, by omega⟩) (by decide) forkHandler_calls
    (fun m₁ v m₂ h x _ => by rw [hkeeps m₁ v m₂ h]) hrun
  exact ⟨c', v, hret, hticks, m₁, m₂, hserve⟩

end RawOS
