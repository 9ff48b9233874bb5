import RawOS.ProcessCalls

/-!
# Runs of processes

A `ProcessRun` is the boot, `process_init`, and then any sequence of the calls of `process.c` and
of what the rest of the kernel and the processes do between them. `ProcessRun.inv` is the
invariant: every process of the ring has a record, an address space of its own and a kernel stack.
-/

namespace RawOS

section

variable {env : ProcessEnv} {D : Set ℕ} {own : Set Live} {s s' : Kernel} {sys sys' : System}
  {p p' : Paging} {d c n pid : ℕ} {outcome : Outcome} {r : InitialProcess} {active : Process}
  {rest q : List Process} {imagePath : List UInt8} {esp eip : ℕ}

/-! ## The ring -/

theorem setProcess_append {a : ℕ} {f : Process → Process} {x : Process}
    (hp : p.processes = q ++ [x]) (hx : x.address = a) (hq : ∀ r ∈ q, r.address ≠ a) :
    (p.setProcess a f).processes = q ++ [f x] := by
  unfold Paging.setProcess
  dsimp only
  rw [hp, List.map_append, List.map_singleton, if_pos hx]
  congr 1
  refine (List.map_congr_left fun r hr => if_neg (hq r hr)).trans ?_
  exact List.map_id q

/-! ## `process_init` -/

theorem createInitialProcess_kept (h : KernelRun env.uninit s D own)
    (hrun : createInitialProcess env s pid = .ok (r, s')) :
    CallKept env.uninit D s (insert r.directory D)
        (insert ⟨r.slots, fileDescriptorsBytes, 0⟩ (insert (recordAt r.address) own)) s' ∧
      s'.sys.processes = [⟨r.address, pid, some r.directory⟩] ∧ r.directory ∉ D ∧
      (∀ l ∈ own, l.ptr ≠ r.address) ∧ r.address ≠ r.slots := by
  obtain ⟨⟨address, s₁⟩, halloc, hrun⟩ := bind_eq_ok.mp hrun
  obtain ⟨hkept₁, -, hfresh⟩ := kallocAlloc_kept h halloc
  obtain ⟨⟨slots, s₂⟩, hslots, hrun⟩ := bind_eq_ok.mp hrun
  have hring₁ := hkept₁.ring (q := [⟨address, 0, none⟩]) fun r hr d hd => by
    rw [List.mem_singleton.mp hr] at hd
    cases hd
  obtain ⟨hkept₂, hp₂, hfresh₂⟩ := kallocAlloc_kept hring₁.run hslots
  dsimp only at hp₂ hrun
  have hring₂ := (hring₁.trans hkept₂).ring (q := (s₂.sys.setProcess address fun q =>
      { q with pid := pid }).processes) <| by
    intro r hr d hd
    obtain ⟨r', hr', rfl⟩ := List.mem_map.mp hr
    rw [hp₂, List.mem_singleton] at hr'
    subst hr'
    split_ifs at hd
  obtain ⟨⟨c, s₃⟩, hclone, hrun⟩ := bind_eq_ok.mp hrun
  obtain ⟨hkept₃, hp₃, hnew, -⟩ := pagingClone_kept hring₂.run hring₂.run.kernel_mem hclone
  have hp₃' : s₃.sys.processes = [] ++ [⟨address, pid, none⟩] := by
    rw [hp₃]
    exact setProcess_append (q := []) hp₂ rfl fun r hr => absurd hr List.not_mem_nil
  obtain ⟨_, -, hrun⟩ := bind_eq_ok.mp hrun
  cases hrun
  have hp₄ : (s₃.sys.setProcess address fun q => { q with pageDirectory := some c }).processes =
      [] ++ [⟨address, pid, some c⟩] :=
    setProcess_append hp₃' rfl fun r hr => absurd hr List.not_mem_nil
  have hdirectories : ∀ r ∈ (s₃.sys.setProcess address fun q =>
      { q with pageDirectory := some c }).processes, ∀ d, r.pageDirectory = some d →
      d ∈ insert c D := by
    rw [hp₄]
    intro r hr d hd
    rw [List.nil_append, List.mem_singleton] at hr
    subst hr
    cases hd
    exact .inl rfl
  exact ⟨(hring₂.trans hkept₃).ring hdirectories, hp₄, hnew, hfresh, hfresh₂ _ (.inl rfl)⟩

theorem processInit_kept (h : KernelRun env.uninit sys.kernel D own)
    (hcreate : createInitialProcess env sys.kernel sys.currentPid = .ok (r, s))
    (hrun : processInit env sys = .ok (.userMode esp eip, sys')) :
    ∃ own', CallKept env.uninit D sys.kernel (insert r.directory D) own' sys'.kernel ∧
      insert ⟨r.slots, fileDescriptorsBytes, 0⟩ (insert (recordAt r.address) own) ⊆ own' ∧
      sys'.kernel.sys.processes = [⟨r.address, sys.currentPid, some r.directory⟩] ∧
      r.directory ∉ D ∧ HasKernelStack false sys'.kernel.sys r.directory := by
  obtain ⟨⟨ref, node⟩, -, hrun⟩ := bind_eq_ok.mp hrun
  obtain ⟨⟨r', s'⟩, hcreate', hrun⟩ := bind_eq_ok.mp hrun
  obtain ⟨rfl, rfl⟩ := Prod.mk.inj (Except.ok.inj (hcreate.symm.trans hcreate'))
  obtain ⟨hkept₁, hp₁, hnew, -, -⟩ := createInitialProcess_kept h hcreate
  obtain ⟨⟨buffer, s₂, o⟩, hread, hrun⟩ := bind_eq_ok.mp hrun
  dsimp only at hrun
  cases o with
  | none => cases hrun
  | some o =>
    obtain ⟨keyboard, m⟩ := o
    obtain ⟨⟨rli, s₃⟩, hload, hrun⟩ := bind_eq_ok.mp hrun
    obtain ⟨eip', -, hrun⟩ := bind_eq_ok.mp hrun
    cases hrun
    obtain ⟨hkept₂, hp₂, -⟩ := readImage_kept { sys with kernel := s, currentPid := _ }
      hkept₁.run hread
    have hkept₁₂ := hkept₁.trans hkept₂
    have hk : r.directory ≠ s₂.sys.kernelPageDirectory := by
      rintro heq
      have hkernel : s₂.sys.kernelPageDirectory = sys.kernel.sys.kernelPageDirectory :=
        hkept₁₂.keeps.kernel
      exact hnew (heq ▸ hkernel ▸ h.kernel_mem)
    obtain ⟨hkept₃, hp₃, hstack⟩ := loadImage_kept hkept₂.run (.inl rfl) hk (.inl rfl) hload
    exact ⟨_, hkept₁₂.trans hkept₃, Set.subset_insert _ _, hp₃.trans (hp₂.trans hp₁), hnew, hstack rfl⟩

/-! ## `process_fork` -/

/-- A copy of frames changes nothing else. -/
theorem copyKernelStack_frames {source new : ℕ} (hrun : copyKernelStack source new p = .ok p') :
    p' = { p with frames := p'.frames } := by
  refine forLoop_ok (P := fun _ p' => p' = { p with frames := p'.frames }) rfl ?_ hrun
  intro i _ p₁ p₂ hp₁ hstep
  obtain ⟨dst, -, hstep⟩ := bind_eq_ok.mp hstep
  obtain ⟨src, -, hstep⟩ := bind_eq_ok.mp hstep
  cases hstep
  rw [hp₁]
  rfl

theorem activeProcess_eq_ok : activeProcess s = .ok active ↔ ∃ q, s.sys.processes = active :: q := by
  unfold activeProcess
  rw [assigned_eq_ok]
  cases s.sys.processes with
  | nil => simp
  | cons a q => simp

/-- The new process gets its directory and its pid. -/
theorem forked_processes (pid : ℕ) {a source : ℕ} (hp : p.processes = q ++ [⟨a, 0, none⟩])
    (hq : ∀ r ∈ q, r.address ≠ a)
    (hcopy : copyKernelStack source c
      (p.setProcess a fun q => { q with pageDirectory := some c }) = .ok p') :
    (p.setProcess a fun q => { q with pageDirectory := some c }).processes = q ++ [⟨a, 0, some c⟩] ∧
      (p'.setProcess a fun q => { q with pid := pid }).processes = q ++ [⟨a, pid, some c⟩] := by
  have hdirectory := setProcess_append (f := fun q => { q with pageDirectory := some c }) hp rfl hq
  refine ⟨hdirectory, setProcess_append (x := ⟨a, 0, some c⟩) ?_ rfl hq⟩
  rw [copyKernelStack_frames hcopy]
  exact hdirectory

theorem processFork_kept (h : KernelRun env.uninit sys.kernel D own)
    (hrecords : ∀ q ∈ sys.kernel.sys.processes, recordAt q.address ∈ own)
    (hrun : processFork env sys = .ok (outcome, sys')) :
    ∃ active q address source c, sys.kernel.sys.processes = active :: q ∧
      active.pageDirectory = some source ∧
      CallKept env.uninit D sys.kernel (insert c D) (insert (recordAt address) own) sys'.kernel ∧
      sys'.kernel.sys.processes = active :: q ++ [⟨address, sys.currentPid, some c⟩] ∧
      (∀ l ∈ own, l.ptr ≠ address) ∧ c ∉ D ∧
      ∀ b, HasKernelStack b sys.kernel.sys source → HasKernelStack true sys'.kernel.sys c := by
  obtain ⟨⟨address, s₁⟩, halloc, hrun⟩ := bind_eq_ok.mp hrun
  obtain ⟨hkept₁, hp₁, hfresh⟩ := kallocAlloc_kept h halloc
  obtain ⟨active, hactive, hrun⟩ := bind_eq_ok.mp hrun
  obtain ⟨source, hsource, hrun⟩ := bind_eq_ok.mp hrun
  obtain ⟨⟨c, s₃⟩, hclone, hrun⟩ := bind_eq_ok.mp hrun
  obtain ⟨p, hcopy, hrun⟩ := bind_eq_ok.mp hrun
  cases hrun
  obtain ⟨q, hq⟩ := activeProcess_eq_ok.mp hactive
  unfold Process.directory at hsource
  rw [assigned_eq_ok] at hsource
  rw [hp₁] at hq
  -- the new process is in the ring, without a directory
  have hring₁ := hkept₁.ring (q := s₁.sys.processes ++ [⟨address, 0, none⟩]) <| by
    intro r hr d hd
    rcases List.mem_append.mp hr with hr | hr
    · exact hkept₁.run.processes r hr d hd
    · rw [List.mem_singleton.mp hr] at hd
      cases hd
  have hmem : source ∈ D := by
    refine h.processes active ?_ source hsource
    rw [hq]
    exact List.mem_cons_self
  obtain ⟨hkept₃, hp₃, hnew, hstack⟩ := pagingClone_kept hring₁.run hmem hclone
  dsimp only at hp₃
  rw [hp₁, hq] at hp₃
  have hold : ∀ r ∈ active :: q, r.address ≠ address := fun r hr =>
    hfresh _ (hrecords r (hq ▸ hr))
  obtain ⟨hp₄, hp₅⟩ := forked_processes sys.currentPid hp₃ hold hcopy
  have hring₃ := (hring₁.trans hkept₃).ring (q := (s₃.sys.setProcess address fun q =>
      { q with pageDirectory := some c }).processes) <| by
    rw [hp₄]
    intro r hr d hd
    rcases List.mem_append.mp hr with hr | hr
    · refine .inr (h.processes r (hq ▸ hr) d hd)
    · rw [List.mem_singleton.mp hr] at hd
      cases hd
      exact .inl rfl
  have hframes := copyKernelStack_frames hcopy
  have hring₄ := hring₃.trans (hring₃.run.setFrames p.frames)
  have hdone := hring₄.ring (q := (p.setProcess address fun q =>
      { q with pid := sys.currentPid }).processes) <| by
    rw [hp₅]
    intro r hr d hd
    rcases List.mem_append.mp hr with hr | hr
    · exact .inr (h.processes r (hq ▸ hr) d hd)
    · rw [List.mem_singleton.mp hr] at hd
      cases hd
      exact .inl rfl
  have hsys : p.setProcess address (fun q => { q with pid := sys.currentPid }) =
      { { s₃.sys.setProcess address fun q => { q with pageDirectory := some c } with
          frames := p.frames } with
        processes := (p.setProcess address fun q => { q with pid := sys.currentPid }).processes } := by
    rw [hframes]
    rfl
  refine ⟨active, q, address, source, c, hq, hsource, ?_, hp₅, hfresh, hnew, fun b hb => ?_⟩
  · dsimp only
    rw [hsys]
    exact hdone
  · have hb₂ := hring₁.keeps.has hmem hb
    have hb₃ := hstack b hb₂
    dsimp only
    rw [hsys]
    exact hb₃

/-! ## `process_execve`, `process_exit` and `process_switch` -/

/-- The directories of the processes are no directory of the kernel. -/
def OwnDirectories (p : Paging) : Prop :=
  ∀ q ∈ p.processes, q.pageDirectory ≠ some p.kernelPageDirectory

theorem OwnDirectories.ne (h : OwnDirectories p) (hq : p.processes = active :: q)
    (hd : active.pageDirectory = some d) : d ≠ p.kernelPageDirectory := by
  rintro rfl
  refine h active ?_ hd
  rw [hq]
  exact List.mem_cons_self

theorem processExecve_kept (h : KernelRun env.uninit sys.kernel D own)
    (hk : OwnDirectories sys.kernel.sys) (hlow : NoTablesAbove sys.kernel.sys)
    (hrun : processExecve env sys imagePath = .ok (outcome, sys')) (hwait : outcome ≠ .waiting) :
    ∃ own', own ⊆ own' ∧ CallKept env.uninit D sys.kernel D own' sys'.kernel ∧
      sys'.kernel.sys.processes = sys.kernel.sys.processes := by
  obtain ⟨o, -, hrun⟩ := bind_eq_ok.mp hrun
  cases o with
  | none =>
    cases hrun
    exact ⟨own, subset_rfl, ⟨h, .refl .., subset_rfl⟩, rfl⟩
  | some ref =>
    obtain ⟨node, -, hrun⟩ := bind_eq_ok.mp hrun
    obtain ⟨⟨buffer, s, o⟩, hread, hrun⟩ := bind_eq_ok.mp hrun
    dsimp only at hrun
    cases o with
    | none =>
      cases hrun
      exact absurd rfl hwait
    | some o =>
      obtain ⟨keyboard, m⟩ := o
      obtain ⟨active, hactive, hrun⟩ := bind_eq_ok.mp hrun
      obtain ⟨d, hd, hrun⟩ := bind_eq_ok.mp hrun
      obtain ⟨s₁, hclean, hrun⟩ := bind_eq_ok.mp hrun
      obtain ⟨⟨rli, s₂⟩, hload, hrun⟩ := bind_eq_ok.mp hrun
      obtain ⟨esp, -, hrun⟩ := bind_eq_ok.mp hrun
      obtain ⟨eip, -, hrun⟩ := bind_eq_ok.mp hrun
      cases hrun
      obtain ⟨q, hq⟩ := activeProcess_eq_ok.mp hactive
      unfold Process.directory at hd
      rw [assigned_eq_ok] at hd
      obtain ⟨hkept₁, hp₁, -⟩ := readImage_kept sys h hread
      have hne := hk.ne (hp₁ ▸ hq) hd
      have hmem : d ∈ D := by
        refine h.processes active ?_ d hd
        rw [← hp₁, hq]
        exact List.mem_cons_self
      have hk₁ : d ≠ s.sys.kernelPageDirectory := by
        have hkernel : s.sys.kernelPageDirectory = sys.kernel.sys.kernelPageDirectory :=
          hkept₁.keeps.kernel
        rw [hkernel]
        exact hne
      obtain ⟨hkept₂, hp₂⟩ := pagingClean_kept hkept₁.run hmem hk₁ (hkept₁.keeps.noTables hlow) hclean
      have hk₂ : d ≠ s₁.sys.kernelPageDirectory := by
        rw [hkept₂.keeps.kernel]
        exact hk₁
      obtain ⟨hkept₃, hp₃, -⟩ := loadImage_kept hkept₂.run hmem hk₂ (.inl rfl) hload
      exact ⟨_, Set.subset_insert _ _, (hkept₁.trans hkept₂).trans hkept₃, hp₃.trans (hp₂.trans hp₁)⟩

theorem processExit_kept (h : KernelRun env.uninit sys.kernel D own)
    (hrecords : ∀ q ∈ sys.kernel.sys.processes, recordAt q.address ∈ own)
    (hk : OwnDirectories sys.kernel.sys) (hlow : NoTablesAbove sys.kernel.sys)
    (hrun : processExit env sys = .ok (outcome, sys')) :
    ∃ active q d, sys.kernel.sys.processes = active :: q ∧ active.pageDirectory = some d ∧
      CallKept env.uninit D sys.kernel D (own \ {recordAt active.address}) sys'.kernel ∧
      sys'.kernel.sys.processes = q := by
  obtain ⟨active, hactive, hrun⟩ := bind_eq_ok.mp hrun
  obtain ⟨d, hd, hrun⟩ := bind_eq_ok.mp hrun
  obtain ⟨s₁, hclean, hrun⟩ := bind_eq_ok.mp hrun
  obtain ⟨s₂, hfree, hrun⟩ := bind_eq_ok.mp hrun
  obtain ⟨q, hq⟩ := activeProcess_eq_ok.mp hactive
  unfold Process.directory at hd
  rw [assigned_eq_ok] at hd
  have hhead : active ∈ sys.kernel.sys.processes := by
    rw [hq]
    exact List.mem_cons_self
  have hmem := h.processes active hhead d hd
  obtain ⟨hkept₁, hp₁⟩ := pagingClean_kept h hmem (hk.ne hq hd) hlow hclean
  have hring := hkept₁.ring (q := s₁.sys.processes.tail) fun r hr =>
    hkept₁.run.processes r (List.mem_of_mem_tail hr)
  obtain ⟨hkept₂, hsys⟩ := kallocFree_kept hring.run (hrecords active hhead) hfree
  have hp₂ : s₂.sys.processes = q := by
    rw [hsys]
    show s₁.sys.processes.tail = q
    rw [hp₁, hq, List.tail_cons]
  refine ⟨active, q, d, hq, hd, ?_⟩
  split_ifs at hrun with hlast
  · cases hrun
    exact ⟨hring.trans hkept₂, hp₂⟩
  · obtain ⟨_, -, hrun⟩ := bind_eq_ok.mp hrun
    cases hrun
    exact ⟨hring.trans hkept₂, hp₂⟩

theorem processSwitch_kept (h : KernelRun env.uninit sys.kernel D own)
    (hrun : sys.processSwitch = .ok (outcome, sys')) :
    CallKept env.uninit D sys.kernel D own sys'.kernel ∧
      sys'.kernel.sys.processes = sys.kernel.sys.processes.rotate 1 := by
  have hstart : CallKept env.uninit D sys.kernel D own sys.kernel := ⟨h, .refl .., subset_rfl⟩
  unfold System.processSwitch at hrun
  split_ifs at hrun with hnone
  · cases hrun
    refine ⟨hstart, ?_⟩
    rw [hnone]
    rfl
  · obtain ⟨_, -, hrun⟩ := bind_eq_ok.mp hrun
    cases hrun
    exact ⟨hstart.ring fun r hr => h.processes r (List.mem_rotate.mp hr), rfl⟩

end

/-! ## Runs -/

/-- The system from `kalloc_init` on, the allocations `own` of the rest of the kernel, and the
record `first` of the process of `process_init` while it lives. The rest of the kernel allocates
and releases what is its own; it and the processes write to what is theirs, and the active process
gets pages. -/
inductive ProcessRun (env : ProcessEnv) : System → Set Live → Option ℕ → Prop where
  | boot {final : ℕ} {p₀ p : Paging} {m : Mem} {s : Kernel} {initrd : Initrd} {k : KeyboardState} :
    final + 0x3000 ≤ kernelPageTablesAddress → p₀.processes = [] → pagingInit final p₀ = .ok p →
    kallocInit env.uninit 1 p m = .ok s → ProcessRun env ⟨s, initrd, k, 1⟩ ∅ none
  | devices {sys : System} {own : Set Live} {first : Option ℕ} {initrd : Initrd} {k : KeyboardState} :
    ProcessRun env sys own first → ProcessRun env { sys with initrd := initrd, keyboard := k } own first
  | alloc {sys : System} {own : Set Live} {first : Option ℕ} {size alignment ptr : ℕ} {s : Kernel} :
    ProcessRun env sys own first → ValidAlignment alignment →
    kallocAllocAligned env.uninit sys.kernel size alignment = .ok (ptr, s) →
    ProcessRun env { sys with kernel := s } (insert ⟨ptr, size, alignment⟩ own) first
  | free {sys : System} {own : Set Live} {first : Option ℕ} {l : Live} {s : Kernel} :
    ProcessRun env sys own first → l ∈ own → kallocFree env.uninit sys.kernel l.ptr = .ok s →
    ProcessRun env { sys with kernel := s } (own \ {l}) first
  | write {sys : System} {own : Set Live} {first : Option ℕ} {m : Mem} {frames : ℕ → ℕ → UInt8} :
    ProcessRun env sys own first →
    (∀ x, kernelHeapAddress ≤ x → x < heapEnd sys.kernel → (∀ l ∈ own, ¬ l.Owns sys.kernel.mem x) →
      m x = sys.kernel.mem x) →
    ProcessRun env { sys with
      kernel := ⟨sys.kernel.heap, m, { sys.kernel.sys with frames := frames }⟩ } own first
  | page {sys : System} {own : Set Live} {first : Option ℕ} {active : Process} {q : List Process}
      {d n userMode f : ℕ} {s : Kernel} :
    ProcessRun env sys own first → sys.kernel.sys.processes = active :: q →
    active.pageDirectory = some d → n < 0x100000 →
    pagingCreateProcessPageWithAnyFrame env.uninit sys.kernel d n userMode = .ok (f, s) →
    ProcessRun env { sys with kernel := s } own first
  | init {sys sys' : System} {own : Set Live} {first : Option ℕ} {r : InitialProcess} {s : Kernel}
      {esp eip : ℕ} :
    ProcessRun env sys own first → sys.kernel.sys.processes = [] →
    createInitialProcess env sys.kernel sys.currentPid = .ok (r, s) →
    processInit env sys = .ok (.userMode esp eip, sys') →
    ProcessRun env sys' (insert ⟨r.slots, fileDescriptorsBytes, 0⟩ own) (some r.address)
  | fork {sys sys' : System} {own : Set Live} {first : Option ℕ} {outcome : Outcome} :
    ProcessRun env sys own first → processFork env sys = .ok (outcome, sys') →
    ProcessRun env sys' own first
  | execve {sys sys' : System} {own : Set Live} {first : Option ℕ} {imagePath : List UInt8}
      {outcome : Outcome} :
    ProcessRun env sys own first → processExecve env sys imagePath = .ok (outcome, sys') →
    outcome ≠ .waiting → ProcessRun env sys' own first
  | exit {sys sys' : System} {own : Set Live} {first : Option ℕ} {active : Process}
      {q : List Process} :
    ProcessRun env sys own first → sys.kernel.sys.processes = active :: q →
    processExit env sys = .ok (.switched, sys') →
    ProcessRun env sys' own (if first = some active.address then none else first)
  | switch {sys sys' : System} {own : Set Live} {first : Option ℕ} {outcome : Outcome} :
    ProcessRun env sys own first → sys.processSwitch = .ok (outcome, sys') →
    ProcessRun env sys' own first

/-- Every process of the ring has a record and a directory of its own, and a kernel stack, which
is in user mode unless the process is `first`. -/
structure LiveRing (first : Option ℕ) (p : Paging) : Prop where
  noTables : NoTablesAbove p
  own : OwnDirectories p
  addresses : (p.processes.map Process.address).Nodup
  directories : (p.processes.map Process.pageDirectory).Nodup
  stack : ∀ q ∈ p.processes, ∃ d, q.pageDirectory = some d ∧
    HasKernelStack (decide (first ≠ some q.address)) p d
  alive : ∀ a, first = some a → ∃ q ∈ p.processes, q.address = a

/-- What holds of the system in every state of a run. -/
def ProcessInv (env : ProcessEnv) (own : Set Live) (first : Option ℕ) (sys : System) : Prop :=
  ∃ D all, KernelRun env.uninit sys.kernel D all ∧ own ⊆ all ∧
    (∀ q ∈ sys.kernel.sys.processes, recordAt q.address ∈ all ∧ recordAt q.address ∉ own) ∧
    LiveRing first sys.kernel.sys

section

variable {env : ProcessEnv} {D D' : Set ℕ} {own all all' : Set Live} {s s' : Kernel}
  {sys sys' : System} {p p' : Paging} {first : Option ℕ} {outcome : Outcome}

/-- The ring stays. -/
theorem LiveRing.kept (h : LiveRing first p) (hk : StacksKept D p p')
    (hD : ∀ q ∈ p.processes, ∀ d, q.pageDirectory = some d → d ∈ D)
    (hp : p'.processes = p.processes) : LiveRing first p' := by
  refine ⟨hk.noTables h.noTables, ?_, ?_, ?_, ?_, ?_⟩
  · unfold OwnDirectories
    rw [hp, hk.kernel]
    exact h.own
  · rw [hp]
    exact h.addresses
  · rw [hp]
    exact h.directories
  · rw [hp]
    intro q hq
    obtain ⟨d, hd, hstack⟩ := h.stack q hq
    exact ⟨d, hd, hk.has (hD q hq d hd) hstack⟩
  · rw [hp]
    exact h.alive

/-- A step of the kernel that leaves the ring alone. -/
theorem ProcessInv.call {own' : Set Live} (hrun : KernelRun env.uninit sys.kernel D all)
    (hrecords : ∀ q ∈ sys.kernel.sys.processes, recordAt q.address ∈ all ∧ recordAt q.address ∉ own)
    (hring : LiveRing first sys.kernel.sys)
    (hkept : CallKept env.uninit D sys.kernel D' all' sys'.kernel)
    (hp : sys'.kernel.sys.processes = sys.kernel.sys.processes) (hown : own' ⊆ all')
    (hstay : ∀ q ∈ sys.kernel.sys.processes, recordAt q.address ∈ all → recordAt q.address ∉ own →
      recordAt q.address ∈ all' ∧ recordAt q.address ∉ own') :
    ProcessInv env own' first sys' := by
  refine ⟨D', all', hkept.run, hown, ?_, hring.kept hkept.keeps hrun.processes hp⟩
  rw [hp]
  intro q hq
  obtain ⟨hall, hnot⟩ := hrecords q hq
  exact hstay q hq hall hnot

/-- `kalloc_init` gives the kernel no table above its stack. -/
theorem kallocInit_noTables {uninit : Paging → Mem → ℤ} {final : ℕ} {p₀ : Paging} {m : Mem}
    (hfits : final + 0x3000 ≤ kernelPageTablesAddress) (hq : p₀.processes = [])
    (hinit : pagingInit final p₀ = .ok p) (hrun : kallocInit uninit 1 p m = .ok s) :
    NoTablesAbove s.sys ∧ s.sys.processes = [] := by
  obtain ⟨p', hinit', hdone⟩ := pagingInit_spec hfits hq
  obtain rfl := Except.ok.inj (hinit'.symm.trans hinit)
  obtain ⟨⟨bs, hinv⟩, hgrown⟩ := kallocInit_ok hdone.inv rfl rfl hdone.below hrun
  refine ⟨fun i hi hle => ?_, hgrown.processes.trans (hdone.processes.trans hq)⟩
  have hend := hinv.heapEnd_le
  unfold Paging.kernel
  rw [hgrown.kernel]
  rcases hgrown.directories p'.kernelPageDirectory i with ⟨hsame, -⟩ | ⟨-, hlt, -⟩
  · rw [hsame]
    by_contra hne
    have htable := hdone.tables i hi hne
    unfold InitTable at htable
    omega
  · omega

theorem LiveRing.empty (hlow : NoTablesAbove p) (hp : p.processes = []) : LiveRing none p := by
  have hnone : ∀ q, q ∉ p.processes := fun q => by
    rw [hp]
    exact List.not_mem_nil
  refine ⟨hlow, fun q hq => absurd hq (hnone q), ?_, ?_, fun q hq => absurd hq (hnone q), nofun⟩
  · rw [hp]
    exact List.nodup_nil
  · rw [hp]
    exact List.nodup_nil

theorem LiveRing.init {r : InitialProcess} {pid : ℕ}
    (hp : p.processes = [⟨r.address, pid, some r.directory⟩])
    (hk : r.directory ≠ p.kernelPageDirectory) (hlow : NoTablesAbove p)
    (hstack : HasKernelStack false p r.directory) : LiveRing (some r.address) p := by
  refine ⟨hlow, ?_, ?_, ?_, ?_, ?_⟩
  · unfold OwnDirectories
    rw [hp]
    intro q hq
    rw [List.mem_singleton.mp hq]
    exact fun heq => hk (Option.some.inj heq)
  · rw [hp]
    exact List.nodup_singleton _
  · rw [hp]
    exact List.nodup_singleton _
  · rw [hp]
    intro q hq
    rw [List.mem_singleton.mp hq]
    refine ⟨r.directory, rfl, ?_⟩
    have hflag : decide (some r.address ≠ some r.address) = false := by simp
    rw [hflag]
    exact hstack
  · rw [hp]
    intro a ha
    exact ⟨_, List.mem_singleton_self _, Option.some.inj ha⟩

theorem LiveRing.fork {q : List Process} {address pid c : ℕ} (h : LiveRing first p)
    (hq : p.processes = q) (hp : p'.processes = q ++ [⟨address, pid, some c⟩])
    (hD : ∀ r ∈ p.processes, ∀ d, r.pageDirectory = some d → d ∈ D)
    (hk : StacksKept D p p') (hnew : c ∉ D) (hkernel : p.kernelPageDirectory ∈ D)
    (hfresh : ∀ r ∈ q, r.address ≠ address) (hstack : HasKernelStack true p' c) :
    LiveRing first p' := by
  have hfirst : first ≠ some address := by
    intro heq
    obtain ⟨r, hr, hra⟩ := h.alive address heq
    exact hfresh r (hq ▸ hr) hra
  refine ⟨hk.noTables h.noTables, ?_, ?_, ?_, ?_, ?_⟩
  · unfold OwnDirectories
    rw [hp, hk.kernel]
    intro r hr
    rcases List.mem_append.mp hr with hr | hr
    · exact h.own r (hq ▸ hr)
    · rw [List.mem_singleton.mp hr]
      intro heq
      exact hnew (Option.some.inj heq ▸ hkernel)
  · rw [hp, List.map_append, List.nodup_append]
    refine ⟨hq ▸ h.addresses, List.nodup_singleton _, fun a ha b hb => ?_⟩
    obtain ⟨r, hr, rfl⟩ := List.mem_map.mp ha
    rw [List.mem_singleton.mp hb]
    exact hfresh r hr
  · rw [hp, List.map_append, List.nodup_append]
    refine ⟨hq ▸ h.directories, List.nodup_singleton _, fun a ha b hb => ?_⟩
    obtain ⟨r, hr, rfl⟩ := List.mem_map.mp ha
    rw [List.mem_singleton.mp hb]
    exact fun heq => hnew (hD r (hq ▸ hr) c heq)
  · rw [hp]
    intro r hr
    rcases List.mem_append.mp hr with hr | hr
    · obtain ⟨d, hd, hs⟩ := h.stack r (hq ▸ hr)
      exact ⟨d, hd, hk.has (hD r (hq ▸ hr) d hd) hs⟩
    · rw [List.mem_singleton.mp hr]
      refine ⟨c, rfl, ?_⟩
      rw [decide_eq_true hfirst]
      exact hstack
  · rw [hp]
    intro a ha
    obtain ⟨r, hr, hra⟩ := h.alive a ha
    exact ⟨r, List.mem_append_left _ (hq ▸ hr), hra⟩

theorem LiveRing.exit {active : Process} {q : List Process} (h : LiveRing first p)
    (hq : p.processes = active :: q) (hp : p'.processes = q)
    (hD : ∀ r ∈ p.processes, ∀ d, r.pageDirectory = some d → d ∈ D) (hk : StacksKept D p p') :
    LiveRing (if first = some active.address then none else first) p' := by
  have hmem : ∀ r ∈ q, r ∈ p.processes := fun r hr => by
    rw [hq]
    exact List.mem_cons_of_mem _ hr
  have haddr := h.addresses
  have hdir := h.directories
  rw [hq, List.map_cons, List.nodup_cons] at haddr hdir
  refine ⟨hk.noTables h.noTables, ?_, ?_, ?_, ?_, ?_⟩
  · unfold OwnDirectories
    rw [hp, hk.kernel]
    exact fun r hr => h.own r (hmem r hr)
  · rw [hp]
    exact haddr.2
  · rw [hp]
    exact hdir.2
  · rw [hp]
    intro r hr
    obtain ⟨d, hd, hs⟩ := h.stack r (hmem r hr)
    refine ⟨d, hd, ?_⟩
    have hs' := hk.has (hD r (hmem r hr) d hd) hs
    split_ifs with hfirst
    · -- the first process was another one
      have hne : first ≠ some r.address := by
        rw [hfirst]
        intro heq
        exact haddr.1 (List.mem_map.mpr ⟨r, hr, (Option.some.inj heq).symm⟩)
      rw [decide_eq_true hne] at hs'
      exact hs'
    · exact hs'
  · rw [hp]
    intro a ha
    split_ifs at ha with hfirst
    obtain ⟨r, hr, hra⟩ := h.alive a ha
    rw [hq] at hr
    rcases List.mem_cons.mp hr with rfl | hr
    · exact absurd (hra ▸ ha) hfirst
    · exact ⟨r, hr, hra⟩

theorem LiveRing.switch (h : LiveRing first p) (hk : StacksKept D p p')
    (hD : ∀ r ∈ p.processes, ∀ d, r.pageDirectory = some d → d ∈ D)
    (hp : p'.processes = p.processes.rotate 1) : LiveRing first p' := by
  have hmem : ∀ r, r ∈ p'.processes ↔ r ∈ p.processes := fun r => by rw [hp, List.mem_rotate]
  refine ⟨hk.noTables h.noTables, fun r hr => ?_, ?_, ?_, fun r hr => ?_, fun a ha => ?_⟩
  · rw [hk.kernel]
    exact h.own r ((hmem r).mp hr)
  · rw [hp, List.map_rotate, List.nodup_rotate]
    exact h.addresses
  · rw [hp, List.map_rotate, List.nodup_rotate]
    exact h.directories
  · obtain ⟨d, hd, hs⟩ := h.stack r ((hmem r).mp hr)
    exact ⟨d, hd, hk.has (hD r ((hmem r).mp hr) d hd) hs⟩
  · obtain ⟨r, hr, hra⟩ := h.alive a ha
    exact ⟨r, (hmem r).mpr hr, hra⟩

theorem ProcessRun.inv (h : ProcessRun env sys own first) : ProcessInv env own first sys := by
  induction h with
  | @boot final p₀ p m s initrd k hfits hq hinit hrun =>
    obtain ⟨hlow, hring⟩ := kallocInit_noTables hfits hq hinit hrun
    refine ⟨_, ∅, .init (.init hfits hq hinit) hrun, subset_rfl, ?_, .empty hlow hring⟩
    intro q hmem
    rw [hring] at hmem
    exact absurd hmem List.not_mem_nil
  | devices _ ih => exact ih
  | @alloc sys own first size alignment ptr s _ hv hrun ih =>
    obtain ⟨D, all, hk, hown, hrecords, hring⟩ := ih
    obtain ⟨hkept, hp, hfresh⟩ := kallocAllocAligned_kept hk hv hrun
    refine ProcessInv.call hk hrecords hring hkept hp (Set.insert_subset_insert hown) ?_
    intro q _ hall hnot
    refine ⟨.inr hall, ?_⟩
    rintro (heq | hmem)
    · exact hfresh _ hall (congrArg Live.ptr heq)
    · exact hnot hmem
  | @free sys own first l s _ hl hrun ih =>
    obtain ⟨D, all, hk, hown, hrecords, hring⟩ := ih
    obtain ⟨hkept, hsys⟩ := kallocFree_kept hk (hown hl) hrun
    refine ProcessInv.call hk hrecords hring hkept (by rw [hsys])
      (Set.sdiff_subset_sdiff_left hown) ?_
    intro q _ hall hnot
    refine ⟨⟨hall, ?_⟩, fun hmem => hnot hmem.1⟩
    rintro rfl
    exact hnot hl
  | write _ hm ih =>
    obtain ⟨D, all, hk, hown, hrecords, hring⟩ := ih
    refine ProcessInv.call hk hrecords hring ⟨hk.write fun x h₁ h₂ hx => hm x h₁ h₂ fun l hl =>
      hx l (hown hl), .of_eq rfl rfl rfl, subset_rfl⟩ rfl hown fun q _ hall hnot => ⟨hall, hnot⟩
  | page _ hq hd hn hrun ih =>
    obtain ⟨D, all, hk, hown, hrecords, hring⟩ := ih
    have hmem := hk.processes _ (by rw [hq]; exact List.mem_cons_self) _ hd
    obtain ⟨hkept, hp, -⟩ := pagingCreateProcessPage_kept hk hmem (hring.own.ne hq hd) hn hrun
    exact ProcessInv.call hk hrecords hring hkept hp hown fun q _ hall hnot => ⟨hall, hnot⟩
  | @init sys sys' own first r s esp eip _ hnone hcreate hrun ih =>
    obtain ⟨D, all, hk, hown, hrecords, hring⟩ := ih
    obtain ⟨all', hkept, hall, hp, hnew, hstack⟩ := processInit_kept hk hcreate hrun
    obtain ⟨-, -, -, hfresh, hslots⟩ := createInitialProcess_kept hk hcreate
    refine ⟨_, all', hkept.run, ?_, ?_, .init hp ?_ (hkept.keeps.noTables hring.noTables) hstack⟩
    · exact fun l hl => hall (hl.imp_right fun h => .inr (hown h))
    · rw [hp]
      intro q hq
      rw [List.mem_singleton.mp hq]
      refine ⟨hall (.inr (.inl rfl)), ?_⟩
      rintro (heq | hmem)
      · exact hslots (congrArg Live.ptr heq)
      · exact hfresh _ (hown hmem) rfl
    · rw [hkept.keeps.kernel]
      rintro heq
      exact hnew (heq ▸ hk.kernel_mem)
  | fork _ hrun ih =>
    obtain ⟨D, all, hk, hown, hrecords, hring⟩ := ih
    obtain ⟨active, q, address, source, c, hq, hsource, hkept, hp, hfresh, hnew, hstack⟩ :=
      processFork_kept hk (fun q hq => (hrecords q hq).1) hrun
    have hactive : active ∈ _ := hq ▸ List.mem_cons_self
    obtain ⟨d, hd, hs⟩ := hring.stack active hactive
    obtain rfl := Option.some.inj (hd.symm.trans hsource)
    have hold : ∀ r ∈ active :: q, r.address ≠ address := fun r hr =>
      hfresh _ (hrecords r (hq ▸ hr)).1
    refine ⟨_, _, hkept.run, hown.trans (Set.subset_insert _ _), ?_,
      hring.fork hq hp hk.processes hkept.keeps hnew hk.kernel_mem hold (hstack _ hs)⟩
    rw [hp]
    intro r hr
    rcases List.mem_append.mp hr with hr | hr
    · obtain ⟨hall, hnot⟩ := hrecords r (hq ▸ hr)
      exact ⟨.inr hall, hnot⟩
    · rw [List.mem_singleton.mp hr]
      exact ⟨.inl rfl, fun hmem => hfresh _ (hown hmem) rfl⟩
  | execve _ hrun hwait ih =>
    obtain ⟨D, all, hk, hown, hrecords, hring⟩ := ih
    obtain ⟨all', hall, hkept, hp⟩ := processExecve_kept hk hring.own hring.noTables hrun hwait
    exact ProcessInv.call hk hrecords hring hkept hp (hown.trans hall) fun q _ h hnot =>
      ⟨hall h, hnot⟩
  | @exit sys sys' own first active q _ hq hrun ih =>
    obtain ⟨D, all, hk, hown, hrecords, hring⟩ := ih
    obtain ⟨active', q', d, hq', hd, hkept, hp⟩ := processExit_kept hk
      (fun q hq => (hrecords q hq).1) hring.own hring.noTables hrun
    obtain ⟨rfl, rfl⟩ := List.cons.inj (hq.symm.trans hq')
    have haddr := hring.addresses
    rw [hq, List.map_cons, List.nodup_cons] at haddr
    refine ⟨_, _, hkept.run, fun l hl => ⟨hown hl, ?_⟩, ?_, hring.exit hq hp hk.processes hkept.keeps⟩
    · rintro rfl
      refine (hrecords active ?_).2 hl
      rw [hq]
      exact List.mem_cons_self
    · rw [hp]
      intro r hr
      obtain ⟨hall, hnot⟩ := hrecords r (by rw [hq]; exact List.mem_cons_of_mem _ hr)
      refine ⟨⟨hall, fun heq => haddr.1 ?_⟩, hnot⟩
      exact List.mem_map.mpr ⟨r, hr, congrArg Live.ptr heq⟩
  | switch _ hrun ih =>
    obtain ⟨D, all, hk, hown, hrecords, hring⟩ := ih
    obtain ⟨hkept, hp⟩ := processSwitch_kept hk hrun
    refine ⟨_, _, hkept.run, hown, ?_, hring.switch hkept.keeps hk.processes hp⟩
    rw [hp]
    exact fun q hq => hrecords q (List.mem_rotate.mp hq)

end

end RawOS
