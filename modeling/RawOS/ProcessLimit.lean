import Mathlib.Data.Finset.Card
import Mathlib.Order.Interval.Finset.Nat
import RawOS.ProcessStart

/-!
# How many processes there can be

A process keeps the frames of its kernel stack for ever, also after `process_exit`: the directories
of all the processes that were created stay, with their stacks (`CreatedStacks`). So the frames bound
the number of processes of a run, and `current_pid` never comes near to an overflow
(`processRun_currentPid_le`).
-/

namespace RawOS

/-- The frames that the bitmap has as used. -/
def usedFrames (p : Paging) : Finset ℕ := (Finset.range availableFramesNum).filter p.availableFrames.Has

/-- The directories `S`, with their kernel stacks. -/
structure CreatedStacks (D : Set ℕ) (p : Paging) (S : Finset ℕ) : Prop where
  mem : ∀ d ∈ S, d ∈ D
  stack : ∀ d ∈ S, ∃ b, HasKernelStack b p d

/-- The pids of the ring are distinct, and `current_pid` is above them. -/
structure PidsBelow (currentPid : ℕ) (q : List Process) : Prop where
  lt : ∀ r ∈ q, 1 ≤ r.pid ∧ r.pid < currentPid
  nodup : (q.map Process.pid).Nodup

section

variable {D D' T : Set ℕ} {p p' : Paging} {S : Finset ℕ} {c d n m pid : ℕ} {q : List Process} {b : Bool}

/-! ## The stacks -/

/-- The frame of a page of a kernel stack. -/
def stackFrame (p : Paging) (x : ℕ × ℕ) : ℕ :=
  match p.pageOf x.1 x.2 with
  | some e => e.frameAddress20Bits
  | none => 0

namespace CreatedStacks

theorem empty (D : Set ℕ) (p : Paging) : CreatedStacks D p ∅ :=
  ⟨fun _ hd => absurd hd (Finset.notMem_empty _), fun _ hd => absurd hd (Finset.notMem_empty _)⟩

theorem kept (h : CreatedStacks D p S) (hk : StacksKept D p p') (hD : D ⊆ D') :
    CreatedStacks D' p' S := by
  refine ⟨fun d hd => hD (h.mem d hd), fun d hd => ?_⟩
  obtain ⟨b, hb⟩ := h.stack d hd
  exact ⟨b, hk.has (h.mem d hd) hb⟩

theorem insert (h : CreatedStacks D p S) (hk : StacksKept D p p') (hc : HasKernelStack b p' c) :
    CreatedStacks (insert c D) p' (insert c S) := by
  have hkept := h.kept hk (Set.subset_insert c D)
  refine ⟨fun d hd => ?_, fun d hd => ?_⟩
  · rcases Finset.mem_insert.mp hd with rfl | hd
    · exact .inl rfl
    · exact hkept.mem d hd
  · rcases Finset.mem_insert.mp hd with rfl | hd
    · exact ⟨b, hc⟩
    · exact hkept.stack d hd

/-- No two pages of the stacks have one frame. -/
theorem stackFrame_injOn (h : CreatedStacks D p S) (hinv : PagingInv D T p) (hlow : NoTablesAbove p) :
    Set.InjOn (stackFrame p) (S ×ˢ Finset.Icc 0xEF801 0xF0000 : Finset (ℕ × ℕ)) := by
  rintro ⟨d, n⟩ hx ⟨d', m⟩ hx' heq
  simp only [Finset.coe_product, Set.mem_prod, Finset.mem_coe, Finset.mem_Icc] at hx hx'
  obtain ⟨hd, hn⟩ := hx
  obtain ⟨hd', hm⟩ := hx'
  obtain ⟨b, hb⟩ := h.stack d hd
  obtain ⟨b', hb'⟩ := h.stack d' hd'
  obtain ⟨e, he, -⟩ := hb n hn
  obtain ⟨e', he', -⟩ := hb' m hm
  have hT : (p.directories d).tables (n / 1024) ∈ T := by
    have hne := (Paging.pageOf_eq_some.mp he).1
    refine (hinv.linked d (h.mem d hd) _ (by omega) hne).resolve_right fun hk => hne ?_
    rw [hk]
    exact hlow _ (by omega) (by omega)
  have hframe : e'.frameAddress20Bits = e.frameAddress20Bits := by
    unfold stackFrame at heq
    dsimp only at heq
    rw [he, he'] at heq
    exact heq.symm
  obtain ⟨rfl, rfl⟩ := hinv.alone (h.mem d hd) (by omega) (by omega) hT he d' (h.mem d' hd') m
    (by omega) e' he' hframe
  rfl

theorem card_le (h : CreatedStacks D p S) (hinv : PagingInv D T p) (hlow : NoTablesAbove p) :
    2048 * S.card ≤ (usedFrames p).card := by
  have hcard : (S ×ˢ Finset.Icc 0xEF801 0xF0000 : Finset (ℕ × ℕ)).card = 2048 * S.card := by
    rw [Finset.card_product, Nat.card_Icc, Nat.mul_comm]
  rw [← hcard]
  refine Finset.card_le_card_of_injOn (stackFrame p) ?_ (h.stackFrame_injOn hinv hlow)
  rintro ⟨d, n⟩ hx
  simp only [Finset.coe_product, Set.mem_prod, Finset.mem_coe, Finset.mem_Icc] at hx
  obtain ⟨hd, hn⟩ := hx
  obtain ⟨b, hb⟩ := h.stack d hd
  obtain ⟨e, he, -, hlt⟩ := hb n hn
  have hused := (hinv.frame_used (h.mem d hd) (by omega) he).resolve_right (not_le.mpr hlt)
  have hframe : stackFrame p (d, n) = e.frameAddress20Bits := by
    unfold stackFrame
    rw [he]
  rw [hframe]
  exact Finset.mem_coe.mpr (Finset.mem_filter.mpr ⟨Finset.mem_range.mpr hlt, hused⟩)

end CreatedStacks

theorem card_usedFrames_le (p : Paging) : (usedFrames p).card ≤ 384 * 2048 :=
  (Finset.card_filter_le _ _).trans (by rw [Finset.card_range]; decide)

/-! ## The pids -/

namespace PidsBelow

theorem init {address : ℕ} {directory : Option ℕ} (hpid : 1 ≤ pid) :
    PidsBelow (pid + 1) [⟨address, pid, directory⟩] := by
  refine ⟨fun r hr => ?_, List.nodup_singleton _⟩
  rw [List.mem_singleton.mp hr]
  exact ⟨hpid, Nat.lt_succ_self pid⟩

theorem append {address : ℕ} {directory : Option ℕ} (h : PidsBelow pid q) (hpid : 1 ≤ pid) :
    PidsBelow (pid + 1) (q ++ [⟨address, pid, directory⟩]) := by
  refine ⟨fun r hr => ?_, ?_⟩
  · rcases List.mem_append.mp hr with hr | hr
    · obtain ⟨h₁, h₂⟩ := h.lt r hr
      exact ⟨h₁, Nat.lt_succ_of_lt h₂⟩
    · rw [List.mem_singleton.mp hr]
      exact ⟨hpid, Nat.lt_succ_self pid⟩
  · rw [List.map_append, List.nodup_append]
    refine ⟨h.nodup, List.nodup_singleton _, fun a ha b hb => ?_⟩
    obtain ⟨r, hr, rfl⟩ := List.mem_map.mp ha
    rw [List.mem_singleton.mp hb]
    exact (h.lt r hr).2.ne

theorem tail {r : Process} (h : PidsBelow pid (r :: q)) : PidsBelow pid q :=
  ⟨fun r' hr => h.lt r' (List.mem_cons_of_mem r hr), (List.nodup_cons.mp h.nodup).2⟩

theorem rotate (h : PidsBelow pid q) (k : ℕ) : PidsBelow pid (q.rotate k) := by
  refine ⟨fun r hr => h.lt r (List.mem_rotate.mp hr), ?_⟩
  rw [List.map_rotate, List.nodup_rotate]
  exact h.nodup

end PidsBelow

end

section

variable {env : ProcessEnv} {sys sys' : System} {outcome : Outcome} {esp eip : ℕ} {own : Set Live}
  {first : Option ℕ} {imagePath : List UInt8}

theorem processInit_currentPid (h : processInit env sys = .ok (.userMode esp eip, sys')) :
    sys'.currentPid = u32 (sys.currentPid + 1) := by
  obtain ⟨_, -, h⟩ := bind_eq_ok.mp h
  obtain ⟨_, -, h⟩ := bind_eq_ok.mp h
  obtain ⟨⟨_, _, o⟩, -, h⟩ := bind_eq_ok.mp h
  cases o with
  | none => cases h
  | some o =>
    obtain ⟨_, -, h⟩ := bind_eq_ok.mp h
    obtain ⟨_, -, h⟩ := bind_eq_ok.mp h
    cases h
    rfl

theorem processFork_currentPid (h : processFork env sys = .ok (outcome, sys')) :
    sys'.currentPid = u32 (sys.currentPid + 1) := by
  obtain ⟨_, -, h⟩ := bind_eq_ok.mp h
  obtain ⟨_, -, h⟩ := bind_eq_ok.mp h
  obtain ⟨_, -, h⟩ := bind_eq_ok.mp h
  obtain ⟨_, -, h⟩ := bind_eq_ok.mp h
  obtain ⟨_, -, h⟩ := bind_eq_ok.mp h
  cases h
  rfl

theorem processExecve_currentPid (h : processExecve env sys imagePath = .ok (outcome, sys')) :
    sys'.currentPid = sys.currentPid := by
  obtain ⟨o, -, h⟩ := bind_eq_ok.mp h
  cases o with
  | none =>
    cases h
    rfl
  | some ref =>
    obtain ⟨_, -, h⟩ := bind_eq_ok.mp h
    obtain ⟨⟨_, _, o⟩, -, h⟩ := bind_eq_ok.mp h
    cases o with
    | none =>
      cases h
      rfl
    | some o =>
      obtain ⟨_, -, h⟩ := bind_eq_ok.mp h
      obtain ⟨_, -, h⟩ := bind_eq_ok.mp h
      obtain ⟨_, -, h⟩ := bind_eq_ok.mp h
      obtain ⟨_, -, h⟩ := bind_eq_ok.mp h
      obtain ⟨_, -, h⟩ := bind_eq_ok.mp h
      obtain ⟨_, -, h⟩ := bind_eq_ok.mp h
      cases h
      rfl

theorem processExit_currentPid (h : processExit env sys = .ok (outcome, sys')) :
    sys'.currentPid = sys.currentPid := by
  obtain ⟨_, -, h⟩ := bind_eq_ok.mp h
  obtain ⟨_, -, h⟩ := bind_eq_ok.mp h
  obtain ⟨_, -, h⟩ := bind_eq_ok.mp h
  obtain ⟨_, -, h⟩ := bind_eq_ok.mp h
  split_ifs at h
  · cases h
    rfl
  · obtain ⟨_, -, h⟩ := bind_eq_ok.mp h
    cases h
    rfl

theorem processSwitch_currentPid (h : sys.processSwitch = .ok (outcome, sys')) :
    sys'.currentPid = sys.currentPid := by
  unfold System.processSwitch at h
  split_ifs at h
  · cases h
    rfl
  · obtain ⟨_, -, h⟩ := bind_eq_ok.mp h
    cases h
    rfl

/-! ## Runs -/

/-- The stacks of all processes that were created, and the pids. -/
def Accounted (env : ProcessEnv) (own : Set Live) (sys : System) : Prop :=
  ∃ D all S, KernelRun env.uninit sys.kernel D all ∧ own ⊆ all ∧
    (∀ q ∈ sys.kernel.sys.processes, recordAt q.address ∈ all) ∧
    CreatedStacks D sys.kernel.sys S ∧ sys.currentPid = S.card + 1 ∧
    PidsBelow sys.currentPid sys.kernel.sys.processes

variable {D D' : Set ℕ} {all all' own' : Set Live} {S : Finset ℕ} {c : ℕ} {b : Bool}

/-- The number of processes that were created is far from an overflow. -/
theorem CreatedStacks.card_le_run (h : CreatedStacks D sys.kernel.sys S)
    (hk : KernelRun env.uninit sys.kernel D all) (hlow : NoTablesAbove sys.kernel.sys) :
    2048 * S.card ≤ (usedFrames sys.kernel.sys).card := by
  obtain ⟨T, bs, live, hinv, -⟩ := hk.inv
  exact h.card_le hinv.pages.inv hlow

/-- A part of the kernel that creates no process. -/
theorem Accounted.call (hstacks : CreatedStacks D sys.kernel.sys S)
    (hpid : sys.currentPid = S.card + 1) (hpids : PidsBelow sys.currentPid sys.kernel.sys.processes)
    (hkept : CallKept env.uninit D sys.kernel D' all' sys'.kernel)
    (hp : sys'.kernel.sys.processes = sys.kernel.sys.processes)
    (hpid' : sys'.currentPid = sys.currentPid) (hown : own' ⊆ all')
    (hrecords : ∀ q ∈ sys.kernel.sys.processes, recordAt q.address ∈ all') :
    Accounted env own' sys' := by
  refine ⟨D', all', S, hkept.run, hown, ?_, hstacks.kept hkept.keeps hkept.subset, ?_, ?_⟩
  · rw [hp]
    exact hrecords
  · rw [hpid', hpid]
  · rw [hpid', hp]
    exact hpids

/-- A process is created, with the directory `c`. -/
theorem Accounted.create (hk : KernelRun env.uninit sys.kernel D all)
    (hlow : NoTablesAbove sys.kernel.sys) (hstacks : CreatedStacks D sys.kernel.sys S)
    (hpid : sys.currentPid = S.card + 1)
    (hkept : CallKept env.uninit D sys.kernel (insert c D) all' sys'.kernel) (hnew : c ∉ D)
    (hstack : HasKernelStack b sys'.kernel.sys c)
    (hpid' : sys'.currentPid = u32 (sys.currentPid + 1)) (hown : own' ⊆ all')
    (hrecords : ∀ q ∈ sys'.kernel.sys.processes, recordAt q.address ∈ all')
    (hpids : PidsBelow (sys.currentPid + 1) sys'.kernel.sys.processes) : Accounted env own' sys' := by
  have hbound := hstacks.card_le_run hk hlow
  have hle := card_usedFrames_le sys.kernel.sys
  have hsucc : sys'.currentPid = sys.currentPid + 1 := by
    rw [hpid', u32_of_lt (by omega)]
  refine ⟨_, all', insert c S, hkept.run, hown, hrecords, hstacks.insert hkept.keeps hstack, ?_, ?_⟩
  · rw [hsucc, Finset.card_insert_of_notMem fun hc => hnew (hstacks.mem c hc), hpid]
  · rw [hsucc]
    exact hpids

theorem ProcessRun.accounted (h : ProcessRun env sys own first) : Accounted env own sys := by
  induction h with
  | boot hfits hq hinit hrun =>
    obtain ⟨-, hring⟩ := kallocInit_noTables hfits hq hinit hrun
    refine ⟨_, ∅, ∅, .init (.init hfits hq hinit) hrun, subset_rfl, ?_, .empty _ _, rfl, ?_⟩
    · rw [hring]
      exact fun q hq => absurd hq List.not_mem_nil
    · rw [hring]
      exact ⟨fun q hq => absurd hq List.not_mem_nil, List.nodup_nil⟩
  | devices _ ih => exact ih
  | alloc _ hv hrun ih =>
    obtain ⟨D, all, S, hk, hown, hrecords, hstacks, hpid, hpids⟩ := ih
    obtain ⟨hkept, hp, -⟩ := kallocAllocAligned_kept hk hv hrun
    exact .call hstacks hpid hpids hkept hp rfl (Set.insert_subset_insert hown)
      fun q hq => .inr (hrecords q hq)
  | free hprev hl hrun ih =>
    obtain ⟨D, all, S, hk, hown, hrecords, hstacks, hpid, hpids⟩ := ih
    obtain ⟨_, _, -, -, hown', -⟩ := hprev.inv
    obtain ⟨hkept, hsys⟩ := kallocFree_kept hk (hown hl) hrun
    refine .call hstacks hpid hpids hkept (by rw [hsys]) rfl (Set.sdiff_subset_sdiff_left hown)
      fun q hq => ⟨hrecords q hq, ?_⟩
    -- the record of a process is none that the rest of the kernel releases
    rintro rfl
    exact (hown' q hq).2 hl
  | write _ hm ih =>
    obtain ⟨D, all, S, hk, hown, hrecords, hstacks, hpid, hpids⟩ := ih
    exact .call hstacks hpid hpids ⟨hk.write fun x h₁ h₂ hx => hm x h₁ h₂ fun l hl => hx l (hown hl),
      .of_eq rfl rfl rfl, subset_rfl⟩ rfl rfl hown hrecords
  | page hprev hq hd hn hrun ih =>
    obtain ⟨D, all, S, hk, hown, hrecords, hstacks, hpid, hpids⟩ := ih
    obtain ⟨-, -, -, -, -, hring⟩ := hprev.inv
    have hmem := hk.processes _ (by rw [hq]; exact List.mem_cons_self) _ hd
    obtain ⟨hkept, hp, -⟩ := pagingCreateProcessPage_kept hk hmem (hring.own.ne hq hd) hn hrun
    exact .call hstacks hpid hpids hkept hp rfl hown hrecords
  | init hprev hnone hcreate hrun ih =>
    obtain ⟨D, all, S, hk, hown, hrecords, hstacks, hpid, hpids⟩ := ih
    obtain ⟨-, -, -, -, -, hring⟩ := hprev.inv
    obtain ⟨all', hkept, hall, hp, hnew, hstack⟩ := processInit_kept hk hcreate hrun
    refine .create hk hring.noTables hstacks hpid hkept hnew hstack (processInit_currentPid hrun)
      (fun l hl => hall (hl.imp_right fun h => .inr (hown h))) ?_ ?_
    · rw [hp]
      intro q hq
      rw [List.mem_singleton.mp hq]
      exact hall (.inr (.inl rfl))
    · rw [hp]
      exact .init (by omega)
  | fork hprev hrun ih =>
    obtain ⟨D, all, S, hk, hown, hrecords, hstacks, hpid, hpids⟩ := ih
    obtain ⟨-, -, -, -, -, hring⟩ := hprev.inv
    obtain ⟨active, q, address, source, c, hq, hsource, hkept, hp, -, hnew, hstack⟩ :=
      processFork_kept hk hrecords hrun
    obtain ⟨d, hd, hs⟩ := hring.stack active (hq ▸ List.mem_cons_self)
    obtain rfl := Option.some.inj (hd.symm.trans hsource)
    refine .create hk hring.noTables hstacks hpid hkept hnew (hstack _ hs) (processFork_currentPid hrun)
      (hown.trans (Set.subset_insert _ _)) ?_ ?_
    · rw [hp]
      intro r hr
      rcases List.mem_append.mp hr with hr | hr
      · exact .inr (hrecords r (hq ▸ hr))
      · rw [List.mem_singleton.mp hr]
        exact .inl rfl
    · rw [hp, ← hq]
      exact hpids.append (by omega)
  | execve hprev hrun hwait ih =>
    obtain ⟨D, all, S, hk, hown, hrecords, hstacks, hpid, hpids⟩ := ih
    obtain ⟨-, -, -, -, -, hring⟩ := hprev.inv
    obtain ⟨all', hall, hkept, hp⟩ := processExecve_kept hk hring.own hring.noTables hrun hwait
    exact .call hstacks hpid hpids hkept hp (processExecve_currentPid hrun) (hown.trans hall)
      fun q hq => hall (hrecords q hq)
  | exit hprev hq hrun ih =>
    obtain ⟨D, all, S, hk, hown, hrecords, hstacks, hpid, hpids⟩ := ih
    obtain ⟨_, _, -, -, hown', hring⟩ := hprev.inv
    obtain ⟨active, q', d, hq', hd, hkept, hp⟩ := processExit_kept hk hrecords hring.own hring.noTables
      hrun
    have haddr := hring.addresses
    rw [hq', List.map_cons, List.nodup_cons] at haddr
    refine ⟨_, _, S, hkept.run, fun l hl => ⟨hown hl, ?_⟩, ?_,
      hstacks.kept hkept.keeps hkept.subset, ?_, ?_⟩
    · rintro rfl
      exact (hown' active (hq' ▸ List.mem_cons_self)).2 hl
    · rw [hp]
      intro r hr
      refine ⟨hrecords r (hq' ▸ List.mem_cons_of_mem _ hr), fun heq => haddr.1 ?_⟩
      exact List.mem_map.mpr ⟨r, hr, congrArg Live.ptr heq⟩
    · rw [processExit_currentPid hrun, hpid]
    · rw [processExit_currentPid hrun, hp]
      rw [hq'] at hpids
      exact hpids.tail
  | switch _ hrun ih =>
    obtain ⟨D, all, S, hk, hown, hrecords, hstacks, hpid, hpids⟩ := ih
    obtain ⟨hkept, hp⟩ := processSwitch_kept hk hrun
    refine ⟨_, _, S, hkept.run, hown, ?_, hstacks.kept hkept.keeps hkept.subset, ?_, ?_⟩
    · rw [hp]
      exact fun q hq => hrecords q (List.mem_rotate.mp hq)
    · rw [processSwitch_currentPid hrun, hpid]
    · rw [processSwitch_currentPid hrun, hp]
      exact hpids.rotate 1

/-- In every state of every run the kernel stacks of all processes that were created are in the
bitmap, though they may have ended long ago. No more than 384 processes can be created, and no two
of them ever have the same pid. -/
theorem processRun_currentPid_le (h : ProcessRun env sys own first) :
    2048 * (sys.currentPid - 1) ≤ (usedFrames sys.kernel.sys).card ∧ sys.currentPid ≤ 385 ∧
      PidsBelow sys.currentPid sys.kernel.sys.processes := by
  obtain ⟨D, all, S, hk, -, -, hstacks, hpid, hpids⟩ := h.accounted
  obtain ⟨-, -, -, -, -, hring⟩ := h.inv
  have hbound := hstacks.card_le_run hk hring.noTables
  have hle := card_usedFrames_le sys.kernel.sys
  refine ⟨?_, by omega, hpids⟩
  rw [hpid, Nat.add_sub_cancel]
  exact hbound

/-- The first process and its child. -/
theorem processRun_currentPid_le_child : ∃ sys : System, sys.kernel.sys.processes.length = 2 ∧
    4096 ≤ (usedFrames sys.kernel.sys).card ∧ sys.currentPid ≤ 385 := by
  obtain ⟨sys, own, src, a, pid, d, a', pid', c, D, all, brk, -, hrun, -, -, hring, -⟩ :=
    exists_child bareEnv bareKeyboard
  obtain ⟨hframes, hle, hpids⟩ := processRun_currentPid_le hrun
  have hlt := hpids.lt
  have hnodup := hpids.nodup
  rw [hring] at hlt hnodup
  have hne : pid ≠ pid' := (List.nodup_cons.mp hnodup).1 ∘ fun h => h ▸ List.mem_cons_self
  have h₁ := hlt ⟨a, pid, some d⟩ List.mem_cons_self
  have h₂ := hlt ⟨a', pid', some c⟩ (List.mem_cons_of_mem _ List.mem_cons_self)
  dsimp only at h₁ h₂
  refine ⟨sys, ?_, ?_, hle⟩
  · rw [hring]
    rfl
  · exact le_trans (by omega) hframes

end

end RawOS
