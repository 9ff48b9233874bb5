import RawOS.Paging
import RawOS.X86Paging

/-!
# Frames without paging

`asm/paging.asm` turns paging off to copy a frame and to compare two. `pagingCopyFrame_run` is that
the copy is the one of the model, whatever the frames, and that nothing else changes.
`pagingCompareFrame_run` says when the other function gets back with paging on: when it finds no
difference. Nothing calls it.
-/

namespace RawOS

open X86

/-! ## The code -/

/-- The start of both functions, up to their loops. -/
def physicalStart : List PagedOp :=
  [.push .ebp, .mov .ebp .esp, .push .ebx, .pushf, .cli, .load .eax .ebp 12, .load .ecx .ebp 8,
    .getCr0 .edx, .andImm .edx 0x7FFFFFFF, .setCr0 .edx, .movImm .edx 1024]

/-- What follows the loops. -/
def physicalEnd : List PagedOp :=
  [.getCr0 .edx, .orImm .edx 0x80000000, .setCr0 .edx, .popf, .pop .ebx, .pop .ebp]

/-- From one word to the next. -/
def nextWord : List PagedOp := [.addImm .ecx 4, .addImm .eax 4, .dec .edx]

/-- `paging_copy_frame`. Its loop is at 11. -/
def pagingCopyFrameCode : List PagedOp :=
  physicalStart ++ [.load .ebx .eax 0, .store .ecx .ebx] ++ nextWord ++ [.jnz 11] ++ physicalEnd ++
    [.ret]

/-- `paging_compare_frame`. Its loop is at 11, and words that are the same go on at 16. -/
def pagingCompareFrameCode : List PagedOp :=
  physicalStart ++ [.load .ebx .eax 0, .cmp .ebx .ecx, .je 16, .movImm .eax 1, .ret] ++ nextWord ++
    [.jnz 11] ++ physicalEnd ++ [.movImm .eax 0, .ret]

/-! ## Calls -/

/-- The stack around a call: three words are pushed, and there are the return address and the
arguments. -/
def callStack (c : Paged) : Set ℕ := Set.Ico ((c.regs .esp).toNat - 12) ((c.regs .esp).toNat + 12)

/-- A call with the addresses of the frames `dst` and `src`. -/
structure FrameCall (tr : ℕ → ℕ) (c : Paged) (dst src : ℕ) : Prop where
  paging : c.cr0 &&& pagingFlag ≠ 0
  room : 12 ≤ (c.regs .esp).toNat
  top : (c.regs .esp).toNat + 12 ≤ 4294967296
  dst_lt : dst < 0x100000
  src_lt : src < 0x100000
  dst_eq : c.word tr (c.regs .esp + 4) = UInt32.ofNat (4096 * dst)
  src_eq : c.word tr (c.regs .esp + 8) = UInt32.ofNat (4096 * src)
  inj : Set.InjOn tr (callStack c)

/-- The frames of a physical memory. -/
def framesOf (m : Mem) (n i : ℕ) : UInt8 := m (4096 * n + i)

/-- In the loops, after `n` words. -/
structure FrameWalk (c : Paged) (dst src n : ℕ) (d : Paged) : Prop where
  cr0 : d.cr0 = c.cr0 &&& 0x7FFFFFFF
  esp : d.regs .esp = c.regs .esp - 12
  esi : d.regs .esi = c.regs .esi
  edi : d.regs .edi = c.regs .edi
  eax : d.regs .eax = UInt32.ofNat (4096 * src + 4 * n)
  ecx : d.regs .ecx = UInt32.ofNat (4096 * dst + 4 * n)
  edx : d.regs .edx = UInt32.ofNat (1024 - n)

/-- The memory after `n` words of a copy. -/
def copiedWords (m : Mem) (dst src n : ℕ) : Mem := fun x =>
  if 4096 * dst ≤ x ∧ x < 4096 * dst + 4 * n then m (4096 * src + (x - 4096 * dst)) else m x

section

variable {tr : ℕ → ℕ} {c d : Paged} {dst src n : ℕ} {m : Mem} {code : List PagedOp} {a : UInt32}

theorem FrameWalk.physical (h : FrameWalk c dst src n d) : d.cr0 &&& pagingFlag = 0 := by
  rw [h.cr0, UInt32.and_assoc]
  exact UInt32.and_zero

/-- The start of a call. -/
theorem FrameCall.start (h : FrameCall tr c dst src) :
    FrameWalk c dst src 0 (physicalStart.foldl (PagedOp.exec tr) c) ∧
      c.Pushed tr ((c.regs .esp).toNat - 12) ((c.regs .esp).toNat + 12)
        (physicalStart.foldl (PagedOp.exec tr) c) [c.eflags, c.regs .ebx, c.regs .ebp] := by
  obtain ⟨hpaging, hroom, htop, -, -, hdst, hsrc, hinj⟩ := h
  have hinj' : Set.InjOn tr (Set.Ico ((c.regs .esp).toNat - 12) ((c.regs .esp).toNat + 12)) := hinj
  -- the three words
  have h₁ := (Paged.Pushed.refl tr ((c.regs .esp).toNat - 12) ((c.regs .esp).toNat + 12) c).push
    hinj' (by simp only [List.length_nil]; omega) (Nat.le_add_right _ _) hpaging (c.regs .ebp)
  have h₂ := (h₁.congr (e := (physicalStart.take 2).foldl (PagedOp.exec tr) c) rfl rfl).push hinj'
    (by simp only [List.length_cons, List.length_nil]; omega) (Nat.le_add_right _ _) hpaging
    (c.regs .ebx)
  have h₃ := h₂.push hinj' (by simp only [List.length_cons, List.length_nil]; omega)
    (Nat.le_add_right _ _) hpaging c.eflags
  -- the arguments, which are above them
  have hnat : ∀ k : UInt32, k.toNat < 12 →
      (c.regs .esp + k).toNat = (c.regs .esp).toNat + k.toNat :=
    fun k hk => by
      rw [UInt32.toNat_add]
      exact Nat.mod_eq_of_lt (by omega)
  have hword : ∀ d ws, c.Pushed tr ((c.regs .esp).toNat - 12) ((c.regs .esp).toNat + 12) d ws →
      d.cr0 = c.cr0 → ∀ v : UInt32, v.toNat ≤ 8 →
        d.word tr (c.regs .esp - 4 + (v + 4)) = c.word tr (c.regs .esp + v) :=
    fun d ws hd hcr0 v hv => by
      have hv' := hnat v (by omega)
      rw [UInt32.add_comm v, ← UInt32.add_assoc, UInt32.sub_add_cancel]
      exact hd.word_above (hcr0 ▸ hpaging) hpaging (by omega) (by omega)
  have heax := hword ((physicalStart.take 5).foldl (PagedOp.exec tr) c) _ (h₃.congr rfl rfl) rfl 8
    (by decide)
  have hecx := hword ((physicalStart.take 6).foldl (PagedOp.exec tr) c) _ (h₃.congr rfl rfl) rfl 4
    (by decide)
  have hesp : c.regs .esp - 4 - 4 - 4 = c.regs .esp - 12 := by
    simp only [UInt32.sub_eq_add_neg, UInt32.add_assoc]
    rfl
  exact ⟨⟨rfl, hesp, rfl, rfl, heax.trans hsrc, hecx.trans hdst, rfl⟩, h₃.congr rfl rfl⟩

theorem FrameCall.start_phys (h : FrameCall tr c dst src) {x : ℕ}
    (hx : x ∉ Set.image tr (Set.Ico ((c.regs .esp).toNat - 12) (c.regs .esp).toNat)) :
    (physicalStart.foldl (PagedOp.exec tr) c).phys x = c.phys x :=
  h.start.2.phys x fun y hy hy' heq => hx ⟨y, ⟨hy, hy'⟩, heq.symm⟩

/-- The end of a call, before its return, if the stack is as it was. -/
theorem FrameWalk.finish (h : FrameWalk c dst src n d) (hcall : FrameCall tr c dst src)
    (hphys : ∀ x ∈ callStack c, d.phys (tr x) =
      (physicalStart.foldl (PagedOp.exec tr) c).phys (tr x)) :
    c.Kept (physicalEnd.foldl (PagedOp.exec tr) d) ∧
      (physicalEnd.foldl (PagedOp.exec tr) d).regs .esp = c.regs .esp ∧
      (physicalEnd.foldl (PagedOp.exec tr) d).word tr (c.regs .esp) = c.word tr (c.regs .esp) := by
  obtain ⟨hwalk, hpushed⟩ := hcall.start
  have hroom := hcall.room
  have hesp₀ : (physicalStart.foldl (PagedOp.exec tr) c).regs .esp = d.regs .esp :=
    hwalk.esp.trans h.esp.symm
  have hstack : Words (d.phys ∘ tr) (d.regs .esp).toNat [c.eflags, c.regs .ebx, c.regs .ebp] := by
    have hstart := hpushed.esp
    have hstack := hpushed.stack
    rw [hesp₀] at hstart hstack
    rw [List.length_cons, List.length_cons, List.length_singleton] at hstart
    refine hstack.congr fun x hx hx' => hphys x ⟨by omega, ?_⟩
    rw [List.length_cons, List.length_cons, List.length_singleton] at hx'
    omega
  have hcr0 : d.cr0 ||| 0x80000000 = c.cr0 := by
    rw [h.cr0]
    exact and_or_pagingFlag hcall.paging
  have hesp : (d.regs .esp).toNat + 12 = (c.regs .esp).toNat := by
    rw [h.esp, UInt32.toNat_sub_of_le _ _ hcall.room]
    exact Nat.sub_add_cancel hcall.room
  have hlt := (c.regs .esp).toNat_lt
  have hpop : ∀ e : Paged, e.phys = d.phys → e.cr0 = d.cr0 ||| 0x80000000 → ∀ i < 3, ∀ w,
      [c.eflags, c.regs .ebx, c.regs .ebp][i]? = some w →
      e.word tr (d.regs .esp + UInt32.ofNat (4 * i)) = w := fun e hphys he i hi w hw => by
    have hnat : (d.regs .esp + UInt32.ofNat (4 * i)).toNat = (d.regs .esp).toNat + 4 * i := by
      have hlt' : 4 * i < 12 := by omega
      rw [UInt32.toNat_add, UInt32.toNat_ofNat_of_lt' (hlt'.trans (by decide))]
      exact Nat.mod_eq_of_lt (by omega)
    exact Paged.word_of_words (he.trans hcr0 ▸ hcall.paging) (hphys ▸ hstack) hw hnat
  have hflags := hpop ((physicalEnd.take 3).foldl (PagedOp.exec tr) d) rfl rfl 0 (by decide) _ rfl
  have hebx := hpop ((physicalEnd.take 4).foldl (PagedOp.exec tr) d) rfl rfl 1 (by decide) _ rfl
  have hebp := hpop ((physicalEnd.take 5).foldl (PagedOp.exec tr) d) rfl rfl 2 (by decide) _ rfl
  have hzero : d.regs .esp + UInt32.ofNat (4 * 0) = d.regs .esp := UInt32.add_zero _
  rw [hzero] at hflags
  have hback : d.regs .esp + 4 + 4 + 4 = c.regs .esp := by
    rw [h.esp, UInt32.add_assoc, UInt32.add_assoc]
    exact UInt32.sub_add_cancel _ _
  have hebp' : (physicalEnd.foldl (PagedOp.exec tr) d).regs .ebp = c.regs .ebp := by
    have hadd : d.regs .esp + UInt32.ofNat (4 * 2) = d.regs .esp + 4 + 4 := by
      rw [UInt32.add_assoc]
      rfl
    rw [hadd] at hebp
    exact hebp
  have hret : (physicalEnd.foldl (PagedOp.exec tr) d).word tr (c.regs .esp) =
      c.word tr (c.regs .esp) := by
    have hend : (physicalEnd.foldl (PagedOp.exec tr) d).cr0 = c.cr0 := hcr0
    rw [Paged.word_of_paging (hend ▸ hcall.paging), Paged.word_of_paging hcall.paging]
    refine congrArg UInt32.ofNat (load32_congr fun x hx hx' => ?_)
    exact (hphys x ⟨by omega, by omega⟩).trans (hpushed.above x hx (by omega))
  exact ⟨⟨hcr0, hflags, hebx, hebp', h.esi, h.edi⟩, hback, hret⟩

/-! ## The loops -/

theorem FrameWalk.address (h : FrameWalk c dst src n d) (hcall : FrameCall tr c dst src)
    (hn : n < 1024) : (d.regs .eax).toNat = 4096 * src + 4 * n ∧
      (d.regs .ecx).toNat = 4096 * dst + 4 * n := by
  have hdst := hcall.dst_lt
  have hsrc := hcall.src_lt
  have hsize : UInt32.size = 4294967296 := rfl
  rw [h.eax, h.ecx]
  exact ⟨UInt32.toNat_ofNat_of_lt (by omega), UInt32.toNat_ofNat_of_lt (by omega)⟩

/-- The next word. `ZF` is the end of the frame. -/
theorem FrameWalk.next (tr : ℕ → ℕ) (h : FrameWalk c dst src n d) (hn : n < 1024) :
    FrameWalk c dst src (n + 1) (nextWord.foldl (PagedOp.exec tr) d) ∧
      ((nextWord.foldl (PagedOp.exec tr) d).eflags &&& zeroFlag = 0 ↔ n + 1 ≠ 1024) := by
  have hadd : ∀ k : ℕ, UInt32.ofNat (k + 4 * n) + 4 = UInt32.ofNat (k + 4 * (n + 1)) := fun k => by
    rw [Nat.mul_succ, ← Nat.add_assoc, UInt32.ofNat_add (k + 4 * n)]
    rfl
  have hnat : ∀ k ≤ 1024, (UInt32.ofNat k).toNat = k := fun k hk =>
    UInt32.toNat_ofNat_of_lt' (hk.trans_lt (by decide))
  have hedx : d.regs .edx - 1 = UInt32.ofNat (1024 - (n + 1)) := by
    rw [h.edx]
    refine UInt32.toNat_inj.mp ?_
    have hone : (1 : UInt32) ≤ UInt32.ofNat (1024 - n) := by
      rw [UInt32.le_iff_toNat_le, hnat _ (Nat.sub_le ..)]
      exact Nat.sub_pos_of_lt hn
    rw [UInt32.toNat_sub_of_le _ _ hone, hnat _ (Nat.sub_le ..), hnat _ (Nat.sub_le ..)]
    exact Nat.sub_sub ..
  refine ⟨⟨h.cr0, h.esp, h.esi, h.edi, ?_, ?_, hedx⟩, ?_⟩
  · rw [← hadd, ← h.eax]
    rfl
  · rw [← hadd, ← h.ecx]
    rfl
  · refine Paged.setZero_zeroFlag.trans (not_congr ?_)
    have hzero : d.regs .edx - 1 = 0 ↔ n + 1 = 1024 := by
      rw [hedx, ← UInt32.toNat_inj, hnat _ (Nat.sub_le ..)]
      exact Nat.sub_eq_zero_iff_le.trans ⟨fun h => by omega, fun h => h.ge⟩
    exact hzero

/-- The jump after `nextWord`, back to the start of the loop. -/
theorem FrameWalk.jump (tr : ℕ → ℕ) (h : FrameWalk c dst src n d) (hn : n < 1024) (pc : ℕ) :
    (PagedOp.jnz 11).next (nextWord.foldl (PagedOp.exec tr) d) pc =
      if n + 1 = 1024 then pc + 1 else 11 := by
  unfold PagedOp.next
  dsimp only
  rw [if_congr (h.next tr hn).2 rfl rfl, ite_not]

theorem copiedWords_succ (hn : n < 1024) :
    store32 (copiedWords m dst src n) (4096 * dst + 4 * n)
      (load32 (copiedWords m dst src n) (4096 * src + 4 * n)) = copiedWords m dst src (n + 1) := by
  have hload : load32 (copiedWords m dst src n) (4096 * src + 4 * n) =
      load32 m (4096 * src + 4 * n) :=
    load32_congr fun x hx hx' => if_neg (by omega)
  funext x
  rw [hload, store32_word]
  unfold copiedWords
  by_cases hx : 4096 * dst + 4 * n ≤ x ∧ x < 4096 * dst + 4 * n + 4
  · rw [if_pos hx, if_pos (by omega)]
    congr 1
    omega
  · rw [if_neg hx]
    exact if_congr (by omega) rfl rfl

/-- One word of a copy. -/
theorem FrameWalk.copyWord (h : FrameWalk c dst src n d) (hcall : FrameCall tr c dst src)
    (hn : n < 1024) (hphys : d.phys = copiedWords m dst src n) :
    ∃ e, FrameWalk c dst src (n + 1) e ∧ e.phys = copiedWords m dst src (n + 1) ∧
      ∀ a c', PagedRun tr pagingCopyFrameCode 11 d a c' ↔
        PagedRun tr pagingCopyFrameCode (if n + 1 = 1024 then 17 else 11) e a c' := by
  obtain ⟨heax, hecx⟩ := h.address hcall hn
  have hword : (d.word tr (d.regs .eax + 0)).toNat = load32 d.phys (4096 * src + 4 * n) := by
    rw [UInt32.add_zero, Paged.word_of_physical h.physical, heax]
    exact UInt32.toNat_ofNat_of_lt' (load32_lt _ _)
  let d₁ := [PagedOp.load .ebx .eax 0, .store .ecx .ebx].foldl (PagedOp.exec tr) d
  have hphys₁ : d₁.phys =
      storeAt (d.place tr) d.phys (d.regs .ecx).toNat (d.word tr (d.regs .eax + 0)) := rfl
  rw [Paged.place_of_physical h.physical, storeAt_id, hword, hecx, hphys, copiedWords_succ hn]
    at hphys₁
  have hwalk : FrameWalk c dst src n d₁ := ⟨h.cr0, h.esp, h.esi, h.edi, h.eax, h.ecx, h.edx⟩
  refine ⟨_, (hwalk.next tr hn).1, hphys₁, fun a c' => ?_⟩
  rw [← hwalk.jump tr hn 16]
  exact (PagedRun.ops_iff ([.load .ebx .eax 0, .store .ecx .ebx] ++ nextWord) (by decide)
    (by decide)).trans (PagedRun.op_iff rfl (by decide))

/-- The loop of a copy. -/
theorem FrameWalk.copy (h : FrameWalk c dst src n d) (hcall : FrameCall tr c dst src)
    (hn : n < 1024) (hphys : d.phys = copiedWords m dst src n) :
    ∃ e, FrameWalk c dst src 1024 e ∧ e.phys = copiedWords m dst src 1024 ∧
      ∀ a c', PagedRun tr pagingCopyFrameCode 11 d a c' ↔
        PagedRun tr pagingCopyFrameCode 17 e a c' := by
  obtain ⟨k, hk⟩ := Nat.exists_eq_add_of_lt hn
  induction k generalizing n d with
  | zero =>
    obtain ⟨e, he, hphys', hrun⟩ := h.copyWord hcall hn hphys
    have hlast : n + 1 = 1024 := by omega
    rw [hlast] at he hphys'
    exact ⟨e, he, hphys', fun a c' => by rw [hrun, if_pos hlast]⟩
  | succ k ih =>
    obtain ⟨e, he, hphys', hrun⟩ := h.copyWord hcall hn hphys
    obtain ⟨e', he', hphys'', hrun'⟩ := ih he (by omega) hphys' (by omega)
    exact ⟨e', he', hphys'', fun a c' => by rw [hrun, if_neg (by omega), hrun']⟩

/-- `paging_copy_frame`: with `m₁` the memory after the pushes, the frames are those of the model's
copy, and the function returns as a function has to. -/
theorem pagingCopyFrame_run (h : FrameCall tr c dst src)
    (hout : ∀ x ∈ callStack c, tr x / 4096 ≠ dst) : ∃ c' m₁,
    (∀ a d, PagedRun tr pagingCopyFrameCode 0 c a d ↔ a = c.word tr (c.regs .esp) ∧ d = c') ∧
    c.Kept c' ∧ c'.regs .esp = c.regs .esp + 4 ∧
    (∀ x, x ∉ Set.image tr (Set.Ico ((c.regs .esp).toNat - 12) (c.regs .esp).toNat) →
      m₁ x = c.phys x) ∧
    ∀ p : Paging, (∀ n, ∀ i < 4096, p.frames n i = framesOf m₁ n i) →
      ∀ n, ∀ i < 4096, (pagingCopyFrame dst src p).frames n i = framesOf c'.phys n i := by
  have hwalk := h.start.1
  have hphys₀ : (physicalStart.foldl (PagedOp.exec tr) c).phys =
      copiedWords (physicalStart.foldl (PagedOp.exec tr) c).phys dst src 0 :=
    funext fun x => (if_neg (by omega)).symm
  obtain ⟨e, he, hphys, hrun⟩ := hwalk.copy h (by decide) hphys₀
  obtain ⟨hkept, hesp, hret⟩ := he.finish h fun x hx => by
    have hne := hout x hx
    rw [hphys]
    exact if_neg (by omega)
  refine ⟨(physicalEnd.foldl (PagedOp.exec tr) e).drop, _, fun a d => ?_, hkept.drop, ?_,
    fun x hx => h.start_phys hx, fun p hp n i hi => ?_⟩
  · have hstart : PagedRun tr pagingCopyFrameCode 0 c a d ↔
        PagedRun tr pagingCopyFrameCode 11 (physicalStart.foldl (PagedOp.exec tr) c) a d :=
      PagedRun.ops_iff physicalStart (by decide) (by decide)
    have hend : PagedRun tr pagingCopyFrameCode 17 e a d ↔
        PagedRun tr pagingCopyFrameCode 23 (physicalEnd.foldl (PagedOp.exec tr) e) a d :=
      PagedRun.ops_iff physicalEnd (by decide) (by decide)
    rw [hstart, hrun, hend, PagedRun.ret_iff rfl, hesp, hret]
  · rw [Paged.drop_esp, hesp]
  · have hend : (physicalEnd.foldl (PagedOp.exec tr) e).drop.phys = e.phys := rfl
    rw [hend, hphys]
    unfold pagingCopyFrame framesOf copiedWords
    dsimp only
    by_cases hn : n = dst
    · rw [hn, Function.update_self, hp src i hi, if_pos (by omega)]
      unfold framesOf
      congr 1
      omega
    · rw [Function.update_of_ne hn, hp n i hi, if_neg (by omega)]
      rfl

/-- One word of a comparison: it goes on, or has found a difference. -/
theorem FrameWalk.compareWord (h : FrameWalk c dst src n d) (hcall : FrameCall tr c dst src)
    (hn : n < 1024) (hphys : d.phys = m) :
    (∃ e, FrameWalk c dst src (n + 1) e ∧ e.phys = m ∧
      (∀ i, 4 * n ≤ i → i < 4 * (n + 1) → framesOf m dst i = framesOf m src i) ∧
      ∀ a c', PagedRun tr pagingCompareFrameCode 11 d a c' ↔
        PagedRun tr pagingCompareFrameCode (if n + 1 = 1024 then 20 else 11) e a c') ∨
    ∃ k e, FrameWalk c dst src k e ∧ e.phys = m ∧
      (∃ i < 4096, framesOf m dst i ≠ framesOf m src i) ∧
      ∀ a c', PagedRun tr pagingCompareFrameCode 11 d a c' ↔
        PagedRun tr pagingCompareFrameCode 14 e a c' := by
  obtain ⟨heax, hecx⟩ := h.address hcall hn
  let d₂ := [PagedOp.load .ebx .eax 0, .cmp .ebx .ecx].foldl (PagedOp.exec tr) d
  have hzero : d₂.eflags &&& zeroFlag = 0 ↔
      load32 m (4096 * dst + 4 * n) ≠ load32 m (4096 * src + 4 * n) := by
    have hload : d.word tr (d.regs .eax + 0) = UInt32.ofNat (load32 m (4096 * src + 4 * n)) := by
      rw [UInt32.add_zero, Paged.word_of_physical h.physical, heax, hphys]
    have hcmp : (d.set .ebx (d.word tr (d.regs .eax + 0))).word tr (d.regs .ecx) =
        UInt32.ofNat (load32 m (4096 * dst + 4 * n)) := by
      have hphysical : (d.set .ebx (d.word tr (d.regs .eax + 0))).cr0 &&& pagingFlag = 0 :=
        h.physical
      rw [Paged.word_of_physical hphysical, hecx]
      exact congrArg (fun m => UInt32.ofNat (load32 m _)) hphys
    have hiff : UInt32.ofNat (load32 m (4096 * src + 4 * n)) -
        UInt32.ofNat (load32 m (4096 * dst + 4 * n)) = 0 ↔
          load32 m (4096 * dst + 4 * n) = load32 m (4096 * src + 4 * n) := by
      rw [word_sub_eq_zero, ← UInt32.toNat_inj, UInt32.toNat_ofNat_of_lt' (load32_lt _ _),
        UInt32.toNat_ofNat_of_lt' (load32_lt _ _), eq_comm]
    rw [← hload, ← hcmp] at hiff
    exact Paged.setZero_zeroFlag.trans (not_congr hiff)
  have hjump : (PagedOp.je 16).next d₂ 13 =
      if load32 m (4096 * dst + 4 * n) = load32 m (4096 * src + 4 * n) then 16 else 14 := by
    unfold PagedOp.next
    dsimp only
    rw [if_congr hzero rfl rfl, ite_not]
  have hwalk : FrameWalk c dst src n d₂ := ⟨h.cr0, h.esp, h.esi, h.edi, h.eax, h.ecx, h.edx⟩
  have hrun : ∀ a c', PagedRun tr pagingCompareFrameCode 11 d a c' ↔ PagedRun tr
      pagingCompareFrameCode ((PagedOp.je 16).next d₂ 13) d₂ a c' := fun a c' =>
    (PagedRun.ops_iff [.load .ebx .eax 0, .cmp .ebx .ecx] (by decide) (by decide)).trans
      (PagedRun.op_iff rfl (by decide))
  rw [hjump] at hrun
  by_cases hsame : load32 m (4096 * dst + 4 * n) = load32 m (4096 * src + 4 * n)
  · refine .inl ⟨_, (hwalk.next tr hn).1, hphys, fun i hi hi' => ?_, fun a c' => ?_⟩
    · have hbyte := load32_inj.mp hsame (i - 4 * n) (by omega)
      rwa [Nat.add_assoc, Nat.add_assoc, Nat.add_sub_cancel' hi] at hbyte
    · rw [hrun, if_pos hsame, ← hwalk.jump tr hn 19]
      exact (PagedRun.ops_iff nextWord (by decide) (by decide)).trans
        (PagedRun.op_iff rfl (by decide))
  · refine .inr ⟨n, d₂, hwalk, hphys, ?_, fun a c' => by rw [hrun, if_neg hsame]⟩
    rw [load32_inj] at hsame
    simp only [not_forall] at hsame
    obtain ⟨k, hk, hbyte⟩ := hsame
    refine ⟨4 * n + k, by omega, ?_⟩
    unfold framesOf
    rwa [← Nat.add_assoc, ← Nat.add_assoc]

/-- The loop of a comparison, to its end or to a difference. -/
theorem FrameWalk.compare (h : FrameWalk c dst src n d) (hcall : FrameCall tr c dst src)
    (hn : n < 1024) (hphys : d.phys = m) :
    (∃ e, FrameWalk c dst src 1024 e ∧ e.phys = m ∧
      (∀ i, 4 * n ≤ i → i < 4096 → framesOf m dst i = framesOf m src i) ∧
      ∀ a c', PagedRun tr pagingCompareFrameCode 11 d a c' ↔
        PagedRun tr pagingCompareFrameCode 20 e a c') ∨
    ∃ k e, FrameWalk c dst src k e ∧ e.phys = m ∧
      (∃ i < 4096, framesOf m dst i ≠ framesOf m src i) ∧
      ∀ a c', PagedRun tr pagingCompareFrameCode 11 d a c' ↔
        PagedRun tr pagingCompareFrameCode 14 e a c' := by
  obtain ⟨k, hk⟩ := Nat.exists_eq_add_of_lt hn
  induction k generalizing n d with
  | zero =>
    obtain ⟨e, he, hphys', hsame, hrun⟩ | hdiff := h.compareWord hcall hn hphys
    · have hlast : n + 1 = 1024 := by omega
      rw [hlast] at he hsame
      exact .inl ⟨e, he, hphys', hsame, fun a c' => by rw [hrun, if_pos hlast]⟩
    · exact .inr hdiff
  | succ k ih =>
    obtain ⟨e, he, hphys', hsame, hrun⟩ | hdiff := h.compareWord hcall hn hphys
    · obtain ⟨e', he', hphys'', hsame', hrun'⟩ | ⟨l, e', he', hphys'', hdiff, hrun'⟩ :=
        ih he (by omega) hphys' (by omega)
      · refine .inl ⟨e', he', hphys'', fun i hi hi' => ?_, fun a c' => ?_⟩
        · by_cases hword : i < 4 * (n + 1)
          · exact hsame i hi hword
          · exact hsame' i (Nat.le_of_not_lt hword) hi'
        · rw [hrun, if_neg (by omega), hrun']
      · exact .inr ⟨l, e', he', hphys'', hdiff, fun a c' => by rw [hrun, if_neg (by omega), hrun']⟩
    · exact .inr hdiff

/-- A call for the frames 1 and 2, with the page of the stack at 0x5000 in frame 4. -/
def lowCall : Paged where
  regs
    | .esp => 0x5010
    | _ => 0
  eflags := 0x202
  cr0 := 0x80000001
  phys := store32 (store32 (store32 (fun _ => 0) 0x4010 0x101234) 0x4014 0x1000) 0x4018 0x2000

theorem lowCall_frameCall : FrameCall (· - 0x1000) lowCall 1 2 where
  paging := by decide +kernel
  room := by decide +kernel
  top := by decide +kernel
  dst_lt := by decide
  src_lt := by decide
  dst_eq := by decide +kernel
  src_eq := by decide +kernel
  inj := fun x hx y hy (h : x - 0x1000 = y - 0x1000) => by
    have hesp : (lowCall.regs .esp).toNat = 0x5010 := rfl
    have hx := hx.1
    have hy := hy.1
    omega

theorem pagingCopyFrame_run_lowCall : ∃ c', lowCall.Kept c' ∧
    PagedRun (· - 0x1000) pagingCopyFrameCode 0 lowCall 0x101234 c' := by
  obtain ⟨c', m₁, hrun, hkept, -⟩ := pagingCopyFrame_run lowCall_frameCall fun x hx => by
    have hesp : (lowCall.regs .esp).toNat = 0x5010 := rfl
    obtain ⟨hlo, hhi⟩ := hx
    change (x - 0x1000) / 4096 ≠ 1
    omega
  exact ⟨c', hkept, (hrun _ _).mpr ⟨by decide +kernel, rfl⟩⟩

/-- `paging_compare_frame`: frames that are the same are found to be so, and the function returns as
a function has to. With a difference it returns without paging and before the pops: the return address
is then the word at the physical address `esp`. -/
theorem pagingCompareFrame_run (h : FrameCall tr c dst src) : ∃ a₀ c',
    (∀ a d, PagedRun tr pagingCompareFrameCode 0 c a d ↔ a = a₀ ∧ d = c') ∧
    (∀ x, x ∉ Set.image tr (Set.Ico ((c.regs .esp).toNat - 12) (c.regs .esp).toNat) →
      c'.phys x = c.phys x) ∧
    ((∀ i < 4096, framesOf c'.phys dst i = framesOf c'.phys src i) →
      a₀ = c.word tr (c.regs .esp) ∧ c.Kept c' ∧ c'.regs .esp = c.regs .esp + 4 ∧
        c'.regs .eax = 0) ∧
    ((∃ i < 4096, framesOf c'.phys dst i ≠ framesOf c'.phys src i) →
      a₀ = UInt32.ofNat (load32 c'.phys ((c.regs .esp).toNat - 12)) ∧
        c'.cr0 = c.cr0 &&& 0x7FFFFFFF ∧ c'.regs .esp = c.regs .esp - 8 ∧ c'.regs .eax = 1) := by
  have hwalk := h.start.1
  have hstart : ∀ a d, PagedRun tr pagingCompareFrameCode 0 c a d ↔
      PagedRun tr pagingCompareFrameCode 11 (physicalStart.foldl (PagedOp.exec tr) c) a d :=
    fun a d => PagedRun.ops_iff physicalStart (by decide) (by decide)
  obtain ⟨e, he, hphys', hsame, hrun⟩ | ⟨k, e, he, hphys', ⟨i, hi, hdiff⟩, hrun⟩ :=
    hwalk.compare h (by decide) rfl
  · obtain ⟨hkept, hesp, hret⟩ := he.finish h fun x _ => by rw [hphys']
    have hend : ∀ a d, PagedRun tr pagingCompareFrameCode 20 e a d ↔ PagedRun tr
        pagingCompareFrameCode 27 ((physicalEnd.foldl (PagedOp.exec tr) e).set .eax 0) a d :=
      fun a d => PagedRun.ops_iff (physicalEnd ++ [.movImm .eax 0]) (by decide) (by decide)
    have hphys₁ : (physicalEnd.foldl (PagedOp.exec tr) e).phys = e.phys := rfl
    generalize physicalEnd.foldl (PagedOp.exec tr) e = f at hkept hesp hret hend hphys₁
    have hesp' : (f.set .eax 0).regs .esp = c.regs .esp := hesp
    have hret' : (f.set .eax 0).word tr (c.regs .esp) = c.word tr (c.regs .esp) := hret
    have hphys₂ : (f.set .eax 0).drop.phys = e.phys := hphys₁
    have hkept' : c.Kept (f.set .eax 0) :=
      ⟨hkept.cr0, hkept.eflags, hkept.ebx, hkept.ebp, hkept.esi, hkept.edi⟩
    refine ⟨_, (f.set .eax 0).drop, fun a d => ?_, fun x hx => ?_,
      fun _ => ⟨rfl, hkept'.drop, ?_, rfl⟩, fun ⟨i, hi, hdiff⟩ => ?_⟩
    · rw [hstart, hrun, hend, PagedRun.ret_iff rfl, hesp', hret']
    · rw [hphys₂, hphys', h.start_phys hx]
    · rw [Paged.drop_esp, hesp']
    · rw [hphys₂, hphys'] at hdiff
      exact absurd (hsame i (Nat.zero_le i) hi) hdiff
  · have hend : ∀ a d, PagedRun tr pagingCompareFrameCode 14 e a d ↔
        PagedRun tr pagingCompareFrameCode 15 (e.set .eax 1) a d :=
      fun a d => PagedRun.ops_iff [.movImm .eax 1] (by decide) (by decide)
    have hphys₁ : (e.set .eax 1).drop.phys = e.phys := rfl
    have hesp' : (e.set .eax 1).regs .esp = c.regs .esp - 12 := he.esp
    have hword : (e.set .eax 1).word tr (c.regs .esp - 12) =
        UInt32.ofNat (load32 e.phys ((c.regs .esp).toNat - 12)) := by
      have hphysical : (e.set .eax 1).cr0 &&& pagingFlag = 0 := he.physical
      rw [Paged.word_of_physical hphysical, UInt32.toNat_sub_of_le _ _ h.room]
      rfl
    refine ⟨_, (e.set .eax 1).drop, fun a d => ?_, fun x hx => ?_, fun hsame => ?_,
      fun _ => ⟨rfl, he.cr0, ?_, rfl⟩⟩
    · rw [hstart, hrun, hend, PagedRun.ret_iff rfl, hesp', hword, hphys₁]
    · rw [hphys₁, hphys', h.start_phys hx]
    · rw [hphys₁, hphys'] at hsame
      exact absurd (hsame i hi) hdiff
    · rw [Paged.drop_esp, hesp']
      simp only [UInt32.sub_eq_add_neg, UInt32.add_assoc]
      rfl

theorem pagingCompareFrame_run_lowCall : ∃ c', PagedRun (· - 0x1000) pagingCompareFrameCode 0
    lowCall 0x101234 c' ∧ lowCall.Kept c' := by
  obtain ⟨a₀, c', hrun, hphys, hsame, -⟩ := pagingCompareFrame_run lowCall_frameCall
  have hesp : (lowCall.regs .esp).toNat = 0x5010 := rfl
  have hzero : ∀ x, x < 0x4000 → c'.phys x = 0 := fun x hx => by
    rw [hphys x]
    · unfold lowCall
      dsimp only
      rw [store32_of_outside (by omega), store32_of_outside (by omega),
        store32_of_outside (by omega)]
    · rintro ⟨y, ⟨hy, hy'⟩, heq⟩
      have heq : y - 0x1000 = x := heq
      omega
  obtain ⟨rfl, hkept, -⟩ := hsame fun i hi => by
    unfold framesOf
    rw [hzero _ (by omega), hzero _ (by omega)]
  exact ⟨c', (hrun _ _).mpr ⟨by decide +kernel, rfl⟩, hkept⟩

end

end RawOS
