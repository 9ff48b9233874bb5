import RawOS.X86

/-!
# Instructions in memory

The processor of `RawOS.X86` with the instructions that it fetches: their bytes (`decode_encode`), and
runs of them that devices interrupt. `FetchRun.next` is the next instruction of a run, and
`FetchRun.loads` runs code that loads registers.
-/

namespace RawOS.X86

/-- The instructions, with their operands as they are encoded. -/
inductive Opcode where
  | movImm (r : Reg) (v : UInt32)
  | movStack (r : Reg) (disp : UInt8)
  | int (v : UInt8)
  | ret (n : UInt16)
  deriving DecidableEq

/-- The number of a register. -/
def Reg.num : Reg → ℕ
  | .eax => 0
  | .ecx => 1
  | .edx => 2
  | .ebx => 3
  | .esp => 4
  | .ebp => 5
  | .esi => 6
  | .edi => 7

def regOf : ℕ → Reg
  | 0 => .eax
  | 1 => .ecx
  | 2 => .edx
  | 3 => .ebx
  | 4 => .esp
  | 5 => .ebp
  | 6 => .esi
  | _ => .edi

namespace Opcode

/-- The bytes of an instruction. `movStack` has a displacement of 8 bits from `esp`. -/
def encode : Opcode → List UInt8
  | movImm r v => [UInt8.ofNat (0xB8 + r.num), UInt8.ofNat v.toNat, UInt8.ofNat (v.toNat / 256),
      UInt8.ofNat (v.toNat / 65536), UInt8.ofNat (v.toNat / 16777216)]
  | movStack r disp => [0x8B, UInt8.ofNat (0x44 + 8 * r.num), 0x24, disp]
  | int v => [0xCD, v]
  | ret n => if n = 0 then [0xC3] else [0xC2, UInt8.ofNat n.toNat, UInt8.ofNat (n.toNat / 256)]

/-- The first instruction, and the bytes behind it. -/
def decode : List UInt8 → Option (Opcode × List UInt8)
  | [] => none
  | op :: bs =>
    if op = 0xC3 then some (ret 0, bs)
    else if op = 0xC2 then
      match bs with
      | l :: h :: bs => some (ret (UInt16.ofNat (l.toNat + 256 * h.toNat)), bs)
      | _ => none
    else if op = 0xCD then
      match bs with
      | v :: bs => some (int v, bs)
      | _ => none
    else if op = 0x8B then
      match bs with
      | m :: sib :: disp :: bs =>
        if m.toNat / 64 = 1 ∧ m.toNat % 8 = 4 ∧ sib = 0x24 then
          some (movStack (regOf (m.toNat / 8 % 8)) disp, bs)
        else none
      | _ => none
    else if op.toNat / 8 = 23 then
      match bs with
      | v₀ :: v₁ :: v₂ :: v₃ :: bs =>
        some (movImm (regOf (op.toNat % 8)) (UInt32.ofNat (v₀.toNat + 256 * v₁.toNat +
          65536 * v₂.toNat + 16777216 * v₃.toNat)), bs)
      | _ => none
    else none

end Opcode

/-- A displacement of 8 bits has a sign. -/
def disp32 (d : UInt8) : UInt32 :=
  UInt32.ofNat (if d.toNat < 128 then d.toNat else d.toNat + 0xFFFFFF00)

/-- What an instruction does when `eip` is behind it. Software interrupts do what `int` says. -/
def Opcode.Step (int : UInt8 → Cpu → Cpu → Prop) (c c' : Cpu) : Opcode → Prop
  | movImm r v => c' = c.set r v
  | movStack r d => c' = c.set r (UInt32.ofNat (load32 c.mem (c.regs .esp + disp32 d).toNat))
  | .int v => int v c c'
  | ret n => c' = { c.drop (4 + n.toUInt32) with eip := c.top 0 }

/-- No instruction is longer. -/
def opcodeLength : ℕ := 5

/-- The bytes at `a` that are looked at. -/
def fetch (m : Mem) (a : ℕ) : List UInt8 := (List.range opcodeLength).map fun i => m (a + i)

/-- The next instruction. -/
def FetchStep (int : UInt8 → Cpu → Cpu → Prop) (c c' : Cpu) : Prop :=
  ∃ op bs, Opcode.decode (fetch c.mem c.eip.toNat) = some (op, bs) ∧
    op.Step int { c with eip := c.eip + UInt32.ofNat (opcodeLength - bs.length) } c'

/-- A run of `n` instructions. Between them there may be interrupts that do what `device` says. -/
inductive FetchRun (int : UInt8 → Cpu → Cpu → Prop) (device : Cpu → Cpu → Prop) :
    ℕ → Cpu → Cpu → Prop where
  | refl (c : Cpu) : FetchRun int device 0 c c
  | step {n : ℕ} {c c₁ c' : Cpu} : FetchStep int c c₁ → FetchRun int device n c₁ c' →
    FetchRun int device (n + 1) c c'
  | interrupt {n : ℕ} {c c₁ c' : Cpu} : device c c₁ → FetchRun int device n c₁ c' →
    FetchRun int device n c c'

/-! ## Bytes -/

section

variable {P : Set ℕ} {op : Opcode} {m : Mem} {a n : ℕ} {bs : List UInt8} {c c' d : Cpu}
  {int : UInt8 → Cpu → Cpu → Prop} {device : Cpu → Cpu → Prop}

@[simp] theorem regOf_num (r : Reg) : regOf r.num = r := by
  cases r <;> rfl

theorem Reg.num_lt (r : Reg) : r.num < 8 := by
  cases r <;> decide

theorem Opcode.length_encode_le (op : Opcode) : op.encode.length ≤ opcodeLength := by
  cases op with
  | ret n =>
    unfold encode
    dsimp only
    split_ifs
    · exact Nat.le_of_ble_eq_true rfl
    · exact Nat.le_of_ble_eq_true rfl
  | _ => exact Nat.le_of_ble_eq_true rfl

/-- An instruction is read back from its bytes. -/
theorem Opcode.decode_encode (op : Opcode) (bs : List UInt8) :
    decode (op.encode ++ bs) = some (op, bs) := by
  cases op with
  | movImm r v =>
    have hnum := r.num_lt
    have hv := v.toNat_lt
    have hop : (UInt8.ofNat (0xB8 + r.num)).toNat = 0xB8 + r.num := by
      rw [UInt8.toNat_ofNat']
      omega
    have hne : ∀ w : UInt8, w.toNat < 0xB8 ∨ 0xC0 ≤ w.toNat → UInt8.ofNat (0xB8 + r.num) ≠ w := by
      rintro w hw rfl
      omega
    have hword : UInt32.ofNat ((UInt8.ofNat v.toNat).toNat +
        256 * (UInt8.ofNat (v.toNat / 256)).toNat + 65536 * (UInt8.ofNat (v.toNat / 65536)).toNat +
        16777216 * (UInt8.ofNat (v.toNat / 16777216)).toNat) = v := by
      refine UInt32.toNat_inj.mp ?_
      simp only [UInt32.toNat_ofNat', UInt8.toNat_ofNat']
      omega
    have hreg : (0xB8 + r.num) % 8 = r.num := by omega
    unfold encode
    simp only [List.cons_append, List.nil_append, decode]
    rw [if_neg (hne _ (by decide)), if_neg (hne _ (by decide)), if_neg (hne _ (by decide)),
      if_neg (hne _ (by decide)), hop, if_pos (by omega), hword, hreg, regOf_num]
  | movStack r disp =>
    cases r <;> rfl
  | int v => rfl
  | ret n =>
    unfold encode
    dsimp only
    split_ifs with hn
    · rw [hn]
      rfl
    · have hlt := n.toNat_lt
      have hword : UInt16.ofNat ((UInt8.ofNat n.toNat).toNat +
          256 * (UInt8.ofNat (n.toNat / 256)).toNat) = n := by
        refine UInt16.toNat_inj.mp ?_
        simp only [UInt16.toNat_ofNat', UInt8.toNat_ofNat']
        omega
      simp only [List.cons_append, List.nil_append, decode]
      rw [if_neg (by decide), if_pos trivial, hword]

/-- The code `ops` lies at `a`. -/
def CodeAt (m : Mem) (a : ℕ) (ops : List Opcode) : Prop :=
  ∀ i, ∀ h : i < (ops.flatMap Opcode.encode).length, m (a + i) = (ops.flatMap Opcode.encode)[i]

theorem CodeAt.head {ops : List Opcode} (h : CodeAt m a (op :: ops)) :
    ∃ bs, fetch m a = op.encode ++ bs ∧ bs.length = opcodeLength - op.encode.length := by
  have hle := op.length_encode_le
  have hlen : (fetch m a).length = opcodeLength := by
    unfold fetch
    rw [List.length_map, List.length_range]
  refine ⟨(fetch m a).drop op.encode.length, ?_, by rw [List.length_drop, hlen]⟩
  have htake : (fetch m a).take op.encode.length = op.encode := by
    refine List.ext_getElem (by rw [List.length_take, hlen, Nat.min_eq_left hle]) fun i hi hi' => ?_
    rw [List.getElem_take]
    unfold fetch
    rw [List.getElem_map, List.getElem_range, h i ?_]
    · exact List.getElem_append_left hi'
    · rw [List.flatMap_cons, List.length_append]
      omega
  exact (List.take_append_drop op.encode.length (fetch m a)).symm.trans (by rw [htake])

theorem CodeAt.tail {ops : List Opcode} (h : CodeAt m a (op :: ops)) :
    CodeAt m (a + op.encode.length) ops := by
  intro i hi
  have hlen : op.encode.length + i < ((op :: ops).flatMap Opcode.encode).length := by
    rw [List.flatMap_cons, List.length_append]
    omega
  rw [Nat.add_assoc, h (op.encode.length + i) hlen]
  refine (List.getElem_append_right (Nat.le_add_right _ _)).trans ?_
  congr 1
  omega

theorem CodeAt.congr {m' : Mem} {ops : List Opcode} (h : CodeAt m a ops)
    (hm : ∀ x, a ≤ x → x < a + (ops.flatMap Opcode.encode).length → m' x = m x) : CodeAt m' a ops :=
  fun i hi => (hm (a + i) (by omega) (by omega)).trans (h i hi)

/-! ## Runs of code -/

/-- The next step is the instruction at `eip`. -/
theorem FetchStep.of_code {ops : List Opcode} (h : FetchStep int c c')
    (hcode : CodeAt c.mem c.eip.toNat (op :: ops)) :
    op.Step int { c with eip := c.eip + UInt32.ofNat op.encode.length } c' := by
  obtain ⟨op', bs', hdecode, hstep⟩ := h
  obtain ⟨bs, hfetch, hlen⟩ := hcode.head
  have hle := op.length_encode_le
  rw [hfetch, Opcode.decode_encode] at hdecode
  obtain ⟨rfl, rfl⟩ := Prod.mk.injEq .. ▸ Option.some.inj hdecode
  rw [hlen, Nat.sub_sub_self hle] at hstep
  exact hstep

/-- The code from `eip` on is `ops`, in `P`. -/
structure Cpu.Code (P : Set ℕ) (c : Cpu) (ops : List Opcode) : Prop where
  bytes : CodeAt c.mem c.eip.toNat ops
  kept : ∀ x, c.eip.toNat ≤ x → x < c.eip.toNat + (ops.flatMap Opcode.encode).length → x ∈ P
  below : c.eip.toNat + (ops.flatMap Opcode.encode).length < 4294967296

namespace Cpu.Code

variable {ops : List Opcode}

theorem agree (h : c.Code P ops) (hd : c.Agree P d) : d.Code P ops := by
  have heip : d.eip = c.eip := by rw [hd.eq]
  refine ⟨?_, heip ▸ h.kept, heip ▸ h.below⟩
  rw [heip]
  exact h.bytes.congr fun x hx hx' => hd.mem x (h.kept x hx hx')

/-- What is left after an instruction that does not change the code. -/
theorem tail (h : c.Code P (op :: ops))
    (heip : d.eip = c.eip + UInt32.ofNat op.encode.length)
    (hmem : ∀ x, c.eip.toNat ≤ x → x < c.eip.toNat + ((op :: ops).flatMap Opcode.encode).length →
      d.mem x = c.mem x) : d.Code P ops := by
  have hbelow := h.below
  have hkept := h.kept
  rw [List.flatMap_cons, List.length_append] at hbelow hmem hkept
  have hle := op.length_encode_le
  have hnat : d.eip.toNat = c.eip.toNat + op.encode.length := by
    rw [heip, UInt32.toNat_add, UInt32.toNat_ofNat_of_lt' (lt_of_le_of_lt hle (by decide))]
    exact Nat.mod_eq_of_lt (by omega)
  refine ⟨?_, fun x hx hx' => hkept x (by omega) (by omega), by omega⟩
  rw [hnat]
  exact h.bytes.tail.congr fun x hx hx' => hmem x (by omega) (by omega)

end Cpu.Code

/-- The next instruction of a run, if devices only write outside of `P`. -/
theorem FetchRun.next {ops : List Opcode} (hdevice : ∀ c d, device c d → c.Agree P d)
    (hcode : c.Code P (op :: ops)) (hrun : FetchRun int device (n + 1) c c') :
    ∃ d c₁, c.Agree P d ∧
      op.Step int { d with eip := d.eip + UInt32.ofNat op.encode.length } c₁ ∧
      FetchRun int device n c₁ c' := by
  generalize hk : n + 1 = k at hrun
  induction hrun with
  | refl => cases hk
  | step hstep hrest =>
    obtain rfl := Nat.succ.inj hk
    exact ⟨_, _, .refl P _, hstep.of_code hcode.bytes, hrest⟩
  | interrupt hdev _ ih =>
    have hagree := hdevice _ _ hdev
    obtain ⟨d, c₁, hd, hstep, hrest⟩ := ih (hcode.agree hagree) hk
    exact ⟨d, c₁, hagree.trans hd, hstep, hrest⟩

/-- Without another instruction, there are only interrupts. -/
theorem FetchRun.last (hdevice : ∀ c d, device c d → c.Agree P d)
    (hrun : FetchRun int device 0 c c') : c.Agree P c' := by
  generalize hk : 0 = k at hrun
  induction hrun with
  | refl => exact .refl P _
  | step => cases hk
  | interrupt hdev _ ih => exact (hdevice _ _ hdev).trans (ih hk)

/-- A run that ends with a return. -/
theorem FetchRun.ret {ops : List Opcode} {k : UInt16} {a : UInt32}
    (hdevice : ∀ c d, device c d → c.Agree P d) (hcode : c.Code P (.ret k :: ops))
    (hesp : ∀ x, c.esp ≤ x → x < c.esp + 4 → x ∈ P) (ha : c.top 0 = a)
    (hrun : FetchRun int device 1 c c') :
    c' = { c with
      regs := Function.update c.regs .esp (c.regs .esp + (4 + k.toUInt32))
      eip := a
      mem := c'.mem } ∧ ∀ x ∈ P, c'.mem x = c.mem x := by
  obtain ⟨d, c₁, hd, rfl, hrest⟩ := hrun.next hdevice hcode
  have hlast := hrest.last hdevice
  have htop : d.top 0 = c.top 0 := by
    have hsame : d.esp = c.esp := hd.esp
    unfold Cpu.top
    rw [hsame, load32_congr fun x hx hx' => hd.mem x (hesp x (by omega) (by omega))]
  refine ⟨?_, fun x hx => (hlast.mem x hx).trans (hd.mem x hx)⟩
  rw [← ha, ← htop, hlast.eq, hd.eq]
  rfl

/-! ## Loads -/

/-- A load of a register from the stack. -/
def Cpu.load (c : Cpu) (l : Reg × UInt8) : Cpu :=
  { c.set l.1 (UInt32.ofNat (load32 c.mem (c.regs .esp + disp32 l.2).toNat)) with
    eip := c.eip + 4 }

theorem Cpu.Agree.load {l : Reg × UInt8} (h : c.Agree P d)
    (hl : ∀ x, (c.regs .esp + disp32 l.2).toNat ≤ x → x < (c.regs .esp + disp32 l.2).toNat + 4 →
      x ∈ P) : (c.load l).Agree P (d.load l) := by
  have hregs : d.regs = c.regs := by rw [h.eq]
  have hword : load32 d.mem (c.regs .esp + disp32 l.2).toNat =
      load32 c.mem (c.regs .esp + disp32 l.2).toNat :=
    load32_congr fun x hx hx' => h.mem x (hl x hx hx')
  refine ⟨?_, h.mem⟩
  unfold Cpu.load
  rw [hregs, hword, h.eq]
  rfl

theorem Cpu.load_regs_esp {l : Reg × UInt8} (hl : l.1 ≠ .esp) : (c.load l).regs .esp = c.regs .esp :=
  Function.update_of_ne hl.symm ..

/-- Loads only change registers. -/
theorem Cpu.foldl_load_eq (ls : List (Reg × UInt8)) (c : Cpu) : ls.foldl Cpu.load c =
    { c with
      regs := (ls.foldl Cpu.load c).regs
      eip := c.eip + UInt32.ofNat (4 * ls.length) } := by
  induction ls generalizing c with
  | nil =>
    have hzero : c.eip + UInt32.ofNat (4 * ([] : List (Reg × UInt8)).length) = c.eip :=
      UInt32.add_zero c.eip
    rw [hzero]
    rfl
  | cons l ls ih =>
    have heip : c.eip + UInt32.ofNat (4 * (l :: ls).length) =
        (c.load l).eip + UInt32.ofNat (4 * ls.length) := by
      rw [List.length_cons, Nat.mul_succ, Nat.add_comm, UInt32.ofNat_add, ← UInt32.add_assoc]
      rfl
    rw [heip, List.foldl_cons]
    exact ih (c.load l)

/-- Loads of registers other than `esp`, from `P`. -/
def Loads (P : Set ℕ) (esp : UInt32) (ls : List (Reg × UInt8)) : Prop :=
  ∀ l ∈ ls, l.1 ≠ .esp ∧
    ∀ x, (esp + disp32 l.2).toNat ≤ x → x < (esp + disp32 l.2).toNat + 4 → x ∈ P

theorem Cpu.Agree.foldl_load {ls : List (Reg × UInt8)} (h : c.Agree P d)
    (hls : Loads P (c.regs .esp) ls) : (ls.foldl Cpu.load c).Agree P (ls.foldl Cpu.load d) := by
  induction ls generalizing c d with
  | nil => exact h
  | cons l ls ih =>
    obtain ⟨hne, hlo⟩ := hls l List.mem_cons_self
    refine ih (h.load hlo) fun k hk => ?_
    rw [Cpu.load_regs_esp hne]
    exact hls k (List.mem_cons_of_mem l hk)

/-- A run of code that starts with loads. -/
theorem FetchRun.loads {ls : List (Reg × UInt8)} {ops : List Opcode}
    (hdevice : ∀ c d, device c d → c.Agree P d) (hls : Loads P (c.regs .esp) ls)
    (hcode : c.Code P (ls.map (fun l => Opcode.movStack l.1 l.2) ++ ops))
    (hrun : FetchRun int device (n + ls.length) c c') :
    ∃ d, (ls.foldl Cpu.load c).Agree P d ∧ d.Code P ops ∧ FetchRun int device n d c' := by
  induction ls generalizing c with
  | nil => exact ⟨c, .refl P c, hcode, hrun⟩
  | cons l ls ih =>
    obtain ⟨hne, hin⟩ := hls l List.mem_cons_self
    obtain ⟨d, c₁, hd, rfl, hrest⟩ := hrun.next hdevice hcode
    have hload := hd.load hin
    have hesp : (d.load l).regs .esp = c.regs .esp := by rw [hload.eq, Cpu.load_regs_esp hne]
    have hnext : Loads P ((d.load l).regs .esp) ls := fun k hk => by
      rw [hesp]
      exact hls k (List.mem_cons_of_mem l hk)
    have heip : (d.load l).eip = c.eip + 4 := by rw [hload.eq]; rfl
    obtain ⟨e, he, hcode', hrun'⟩ := ih (c := d.load l) hnext
      (hcode.tail heip fun x hx hx' => hd.mem x (hcode.kept x hx hx')) hrest
    refine ⟨e, (hload.foldl_load ?_).trans he, hcode', hrun'⟩
    rw [Cpu.load_regs_esp hne]
    exact fun k hk => hls k (List.mem_cons_of_mem l hk)

end

end RawOS.X86
