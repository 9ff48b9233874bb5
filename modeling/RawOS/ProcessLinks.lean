import RawOS.KernelLinks
import RawOS.LoadPages
import RawOS.ProcessStart

/-!
# The links of the calls of `process.c`

`process_init` and `process_fork` put a process into the ring before it has a page directory, and
then make requests to the heap. `linkedRun_right`: in every run in which none of these requests
needs a new table of the kernel, and no image is loaded to a table of its own below 1 GB, the
tables that are linked are linked into all address spaces.
-/

namespace RawOS

section

variable (env : ProcessEnv)

/-! ## What the calls request -/

/-- Every page that the load of an image creates satisfies `K`, with the kernel before it. -/
def ImagePages (K : ℕ → Kernel → Prop) (s : Kernel) (d buffer size : ℕ) (stack kernelStack : Bool) :
    Prop :=
  ∀ memory, LoadPages (loaderEnv env d) (fun n _ s => K n s) (toS32 size) stack kernelStack
    ⟨s, memory, imageFile s buffer, []⟩

/-- The requests of `process_fork` grow the heap in states that satisfy `Q`, and while the new
process has no directory `R`. -/
structure ForkGrowths (Q R : Kernel → Prop) (sys : System) : Prop where
  record : AllocGrowths env.uninit Q sys.kernel sizeofProcess 0
  clone : ∀ address s active source,
    kallocAlloc env.uninit sys.kernel sizeofProcess = .ok (address, s) →
    activeProcess s = .ok active → active.directory = .ok source →
    CloneGrowths env.uninit R
      { s with sys := { s.sys with processes := s.sys.processes ++ [⟨address, 0, none⟩] } } source

/-- As `ForkGrowths`, for `process_init`, and the pages of the image satisfy `K` of the directory. -/
structure InitGrowths (Q R : Kernel → Prop) (K : ℕ → ℕ → Kernel → Prop) (sys : System) : Prop where
  record : AllocGrowths env.uninit Q sys.kernel sizeofProcess 0
  slots : ∀ address s, kallocAlloc env.uninit sys.kernel sizeofProcess = .ok (address, s) →
    AllocGrowths env.uninit R { s with sys := { s.sys with processes := [⟨address, 0, none⟩] } }
      fileDescriptorsBytes 0
  clone : ∀ address s slots s₁,
    kallocAlloc env.uninit sys.kernel sizeofProcess = .ok (address, s) →
    kallocAlloc env.uninit { s with sys := { s.sys with processes := [⟨address, 0, none⟩] } }
      fileDescriptorsBytes = .ok (slots, s₁) →
    CloneGrowths env.uninit R
      { s₁ with sys := s₁.sys.setProcess address fun q => { q with pid := sys.currentPid } }
      s₁.sys.kernelPageDirectory
  buffer : ∀ ref node r s, initialNode sys.initrd = .ok (ref, node) →
    createInitialProcess env sys.kernel sys.currentPid = .ok (r, s) →
    AllocGrowths env.uninit Q s node.size 0
  load : ∀ ref node r s buffer s₁ keyboard m, initialNode sys.initrd = .ok (ref, node) →
    createInitialProcess env sys.kernel sys.currentPid = .ok (r, s) →
    readImage env { sys with kernel := s, currentPid := u32 (sys.currentPid + 1) } ref node =
      .ok (buffer, s₁, some (keyboard, m)) →
    ImagePages env (K r.directory) { s₁ with mem := m } r.directory buffer node.size false true

/-- As `InitGrowths`, for `process_execve`, whose process has its directory. -/
structure ExecveGrowths (Q : Kernel → Prop) (K : ℕ → ℕ → Kernel → Prop) (sys : System)
    (imagePath : List UInt8) : Prop where
  buffer : ∀ ref node, fsUtilGetNodeByPath sys.initrd imagePath = .ok (some ref) →
    sys.initrd.node ref = some node → AllocGrowths env.uninit Q sys.kernel node.size 0
  load : ∀ ref node buffer s keyboard m active d s₁,
    fsUtilGetNodeByPath sys.initrd imagePath = .ok (some ref) → sys.initrd.node ref = some node →
    readImage env sys ref node = .ok (buffer, s, some (keyboard, m)) →
    activeProcess s = .ok active → active.directory = .ok d →
    pagingCleanAllNonKernelPagesFromPageDirectory env.uninit { s with mem := m } d = .ok s₁ →
    ImagePages env (K d) s₁ d buffer node.size true false

/-! ## Runs -/

/-- The runs in which a process without a page directory meets no new table of the kernel, and the
pages of images are placed. `process_exit` and `process_switch` request nothing. -/
inductive LinkedRun : System → Set Live → Option ℕ → Prop where
  | boot {final : ℕ} {p₀ p : Paging} {m : Mem} {s : Kernel} {initrd : Initrd} {k : KeyboardState} :
    final + 0x3000 ≤ kernelPageTablesAddress → p₀.processes = [] → pagingInit final p₀ = .ok p →
    kallocInit env.uninit 1 p m = .ok s → LinkedRun ⟨s, initrd, k, 1⟩ ∅ none
  | devices {sys : System} {own : Set Live} {first : Option ℕ} {initrd : Initrd} {k : KeyboardState} :
    LinkedRun sys own first → LinkedRun { sys with initrd := initrd, keyboard := k } own first
  | alloc {sys : System} {own : Set Live} {first : Option ℕ} {size alignment ptr : ℕ} {s : Kernel} :
    LinkedRun sys own first → ValidAlignment alignment →
    kallocAllocAligned env.uninit sys.kernel size alignment = .ok (ptr, s) →
    LinkedRun { sys with kernel := s } (insert ⟨ptr, size, alignment⟩ own) first
  | free {sys : System} {own : Set Live} {first : Option ℕ} {l : Live} {s : Kernel} :
    LinkedRun sys own first → l ∈ own → kallocFree env.uninit sys.kernel l.ptr = .ok s →
    LinkedRun { sys with kernel := s } (own \ {l}) first
  | write {sys : System} {own : Set Live} {first : Option ℕ} {m : Mem} {frames : ℕ → ℕ → UInt8} :
    LinkedRun sys own first →
    (∀ x, kernelHeapAddress ≤ x → x < heapEnd sys.kernel → (∀ l ∈ own, ¬ l.Owns sys.kernel.mem x) →
      m x = sys.kernel.mem x) →
    LinkedRun { sys with
      kernel := ⟨sys.kernel.heap, m, { sys.kernel.sys with frames := frames }⟩ } own first
  | init {sys sys' : System} {own : Set Live} {first : Option ℕ} {r : InitialProcess} {s : Kernel}
      {esp eip : ℕ} :
    LinkedRun sys own first → sys.kernel.sys.processes = [] →
    InitGrowths env (fun _ => True) NoNewTable Placed sys →
    createInitialProcess env sys.kernel sys.currentPid = .ok (r, s) →
    processInit env sys = .ok (.userMode esp eip, sys') →
    LinkedRun sys' (insert ⟨r.slots, fileDescriptorsBytes, 0⟩ own) (some r.address)
  | fork {sys sys' : System} {own : Set Live} {first : Option ℕ} {outcome : Outcome} :
    LinkedRun sys own first → ForkGrowths env (fun _ => True) NoNewTable sys →
    processFork env sys = .ok (outcome, sys') → LinkedRun sys' own first
  | execve {sys sys' : System} {own : Set Live} {first : Option ℕ} {imagePath : List UInt8}
      {outcome : Outcome} :
    LinkedRun sys own first → ExecveGrowths env (fun _ => True) Placed sys imagePath →
    processExecve env sys imagePath = .ok (outcome, sys') → outcome ≠ .waiting →
    LinkedRun sys' own first
  | exit {sys sys' : System} {own : Set Live} {first : Option ℕ} {active : Process}
      {q : List Process} :
    LinkedRun sys own first → sys.kernel.sys.processes = active :: q →
    processExit env sys = .ok (.switched, sys') →
    LinkedRun sys' own (if first = some active.address then none else first)
  | switch {sys sys' : System} {own : Set Live} {first : Option ℕ} {outcome : Outcome} :
    LinkedRun sys own first → sys.processSwitch = .ok (outcome, sys') → LinkedRun sys' own first

/-- The calls of `process_link_kernel_table_to_all_address_spaces` that `process_init` makes
satisfy `P`. -/
def InitLinks (P : LinkCall → Prop) (sys : System) : Prop :=
  InitGrowths env (GrowthLinks P) (GrowthLinks P)
    (fun d n s => CreateGrowths env.uninit (GrowthLinks P) s d n) sys

def ForkLinks (P : LinkCall → Prop) (sys : System) : Prop :=
  ForkGrowths env (GrowthLinks P) (GrowthLinks P) sys

def ExecveLinks (P : LinkCall → Prop) (sys : System) (imagePath : List UInt8) : Prop :=
  ExecveGrowths env (GrowthLinks P) (fun d n s => CreateGrowths env.uninit (GrowthLinks P) s d n) sys
    imagePath

/-- Whatever is called next that the runs allow links the tables as it should. -/
structure NextLinks (P : LinkCall → Prop) (sys : System) : Prop where
  alloc : ∀ size alignment, AllocGrowths env.uninit (GrowthLinks P) sys.kernel size alignment
  init : sys.kernel.sys.processes = [] → InitGrowths env (fun _ => True) NoNewTable Placed sys →
    InitLinks env P sys
  fork : ForkGrowths env (fun _ => True) NoNewTable sys → ForkLinks env P sys
  execve : ∀ imagePath, ExecveGrowths env (fun _ => True) Placed sys imagePath →
    ExecveLinks env P sys imagePath

end

section

variable {env : ProcessEnv} {D : Set ℕ} {own : Set Live} {s s' s₁ : Kernel} {sys sys' : System}
  {p : Paging} {q : List Process} {first : Option ℕ} {outcome : Outcome} {imagePath : List UInt8}
  {ref : NodeRef} {node : VfsNode} {r : Option (KeyboardState × Mem)} {i : InitialProcess}
  {rli : RawxLoadInformation} {keyboard : KeyboardState} {m : Mem} {active : Process}
  {a d size alignment ptr buffer pid : ℕ} {stack kernelStack : Bool}

/-! ## Parts of the calls -/

/-- Another ring. -/
theorem LinksRing.ring (hq : ∀ r ∈ q, ∀ d, r.pageDirectory = some d → ∀ i < 256, LinksKernel p d i) :
    LinksRing { p with processes := q } := fun r hr d hd i hi =>
  ⟨(hq r hr d hd i hi).tables, (hq r hr d hd i hi).x86⟩

theorem kallocAllocAligned_linksRing (h : KernelRun env.uninit s D own) (hl : LinksRing s.sys)
    (hv : ValidAlignment alignment)
    (hrun : kallocAllocAligned env.uninit s size alignment = .ok (ptr, s')) : LinksRing s'.sys := by
  obtain ⟨T, bs, live, hinv, -⟩ := h.inv
  exact (kallocHeapAlloc_ok hinv hv hrun).grown.linksRing hl

theorem kallocAlloc_linksRing (h : KernelRun env.uninit s D own) (hl : LinksRing s.sys)
    (hrun : kallocAlloc env.uninit s size = .ok (ptr, s')) : LinksRing s'.sys :=
  kallocAllocAligned_linksRing h hl (.inl rfl) hrun

theorem readImage_linksRing (sys : System) (h : KernelRun env.uninit sys.kernel D own)
    (hl : LinksRing sys.kernel.sys)
    (hrun : readImage env sys ref node = .ok (buffer, s, r)) : LinksRing s.sys := by
  obtain ⟨⟨buffer', s'⟩, halloc, hrun⟩ := bind_eq_ok.mp hrun
  obtain ⟨r', -, hrun⟩ := bind_eq_ok.mp hrun
  cases hrun
  exact kallocAlloc_linksRing h hl halloc

/-! ## The load -/

/-- What a load keeps whose pages are placed. -/
structure LoadLinks (env : ProcessEnv) (D : Set ℕ) (own : Set Live) (s : Kernel)
    (l : Loader Kernel) : Prop extends LoadKept env D own s l where
  links : LinksRing l.pages.sys

theorem loadLinks_inv (hd : d ∈ D) (hk : d ≠ s.sys.kernelPageDirectory) (e : Panic) :
    LoaderInv ((loaderEnv env d).guarded (fun n _ s => Placed d n s) e) (LoadLinks env D own s) where
  bytes := fun l m data h => ⟨(loadKept_loaderInv hd hk).bytes l m data h.toLoadKept, h.links⟩
  created := fun l l' p u hp h hrun => by
    obtain ⟨hplaced, hcreate⟩ := guarded_createPage_ok hrun
    obtain ⟨h₁, h₂⟩ := (loadKept_loaderInv hd hk).created l l' p u hp h.toLoadKept hcreate
    obtain ⟨f, s₁, hpage, rfl⟩ := loaderEnv_createPage_ok.mp hcreate
    obtain ⟨T, bs, live, hinv, -⟩ := h.kept.run.inv
    have hk' : d ≠ l.pages.sys.kernelPageDirectory := by
      rw [h.kept.keeps.kernel]
      exact hk
    have hlinks := pagingCreateProcessPage_linksRing hinv h.links
      (h.kept.subset hd) hk' hplaced hpage
    exact ⟨⟨h₁, hlinks⟩, ⟨h₂, hlinks⟩⟩

theorem loadLinks_start (h : KernelRun env.uninit s D own) (hl : LinksRing s.sys) (m data : Mem) :
    LoadLinks env D own s ⟨s, m, data, []⟩ :=
  ⟨⟨⟨h, .refl D s.sys, subset_rfl⟩, rfl⟩, hl⟩

theorem loadImage_linksRing (h : KernelRun env.uninit s D own) (hl : LinksRing s.sys) (hd : d ∈ D)
    (hk : d ≠ s.sys.kernelPageDirectory)
    (hplaced : ImagePages env (Placed d) s d buffer size stack kernelStack)
    (hrun : loadImage env s d buffer size stack kernelStack = .ok (rli, s')) :
    LinksRing s'.sys := by
  obtain ⟨memory, l, hload, rfl⟩ := loadImage_loaded hrun
  have hlinks := ((hplaced memory).keeps (loadLinks_inv hd hk)
    (loadLinks_start h hl memory _) hload).links
  -- for any frames: those that are stored are not to be computed
  have hframes : ∀ frames, LinksRing { l.pages.sys with frames := frames } := fun frames =>
    hlinks.congr rfl rfl fun _ _ _ _ => ⟨rfl, rfl⟩
  exact hframes (storedFrames l.pages.sys d l.mem)

/-- Every page of the image, created for a process while all have their directories. -/
theorem imagePages_right (h : KernelRun env.uninit s D own) (hl : LinksRing s.sys) (hd : d ∈ D)
    (hk : d ≠ s.sys.kernelPageDirectory) (hq : ∀ r ∈ s.sys.processes, r.pageDirectory ≠ none)
    (hplaced : ImagePages env (Placed d) s d buffer size stack kernelStack) :
    ImagePages env (fun n s => CreateGrowths env.uninit (GrowthLinks LinkCall.Right) s d n) s d buffer
      size stack kernelStack := fun memory =>
  (hplaced memory).imp (loadLinks_inv hd hk) (loadLinks_start h hl memory _) fun l n _ _ hP _ _ => by
    obtain ⟨T, bs, live, hinv, -⟩ := hP.kept.run.inv
    exact hinv.allocGrowths_right (fun r hr => hq r (hP.processes ▸ hr)) hP.links

/-! ## `process_init` -/

theorem linksRing_unassigned (hp : p.processes = [⟨a, pid, none⟩]) : LinksRing p := by
  intro r hr d hd
  rw [hp, List.mem_singleton] at hr
  rw [hr] at hd
  cases hd

/-- The kernel when the file descriptors of the first process are allocated. -/
theorem initialRecord_run (h : KernelRun env.uninit s D own)
    (halloc : kallocAlloc env.uninit s sizeofProcess = .ok (a, s')) :
    KernelRun env.uninit { s' with sys := { s'.sys with processes := [⟨a, 0, none⟩] } } D
      (insert (recordAt a) own) :=
  (kallocAlloc_kept h halloc).1.run.ring fun r hr d hd => by
    rw [List.mem_singleton.mp hr] at hd
    cases hd

/-- The kernel when its directory is cloned for the first process. -/
theorem initialSlots_run (pid : ℕ) (h : KernelRun env.uninit s D own)
    (halloc : kallocAlloc env.uninit s sizeofProcess = .ok (a, s'))
    (hslots : kallocAlloc env.uninit { s' with sys := { s'.sys with processes := [⟨a, 0, none⟩] } }
      fileDescriptorsBytes = .ok (ptr, s₁)) :
    KernelRun env.uninit { s₁ with sys := s₁.sys.setProcess a fun q => { q with pid := pid } } D
        (insert ⟨ptr, fileDescriptorsBytes, 0⟩ (insert (recordAt a) own)) ∧
      (s₁.sys.setProcess a fun q => { q with pid := pid }).processes = [⟨a, pid, none⟩] := by
  obtain ⟨hkept, hp, -⟩ := kallocAlloc_kept (initialRecord_run h halloc) hslots
  have hring : (s₁.sys.setProcess a fun q => { q with pid := pid }).processes = [⟨a, pid, none⟩] :=
    setProcess_append (q := []) hp rfl fun r hr => absurd hr List.not_mem_nil
  refine ⟨hkept.run.ring fun r hr d hd => ?_, hring⟩
  have hr' : r ∈ [(⟨a, pid, none⟩ : Process)] := hring ▸ hr
  rw [List.mem_singleton.mp hr'] at hd
  cases hd

theorem createInitialProcess_linksRing (h : KernelRun env.uninit s D own)
    (hrun : createInitialProcess env s pid = .ok (i, s')) : LinksRing s'.sys := by
  obtain ⟨⟨address, s₁⟩, halloc, hrun⟩ := bind_eq_ok.mp hrun
  obtain ⟨⟨slots, s₂⟩, hslots, hrun⟩ := bind_eq_ok.mp hrun
  obtain ⟨⟨c, s₃⟩, hclone, hrun⟩ := bind_eq_ok.mp hrun
  obtain ⟨_, -, hrun⟩ := bind_eq_ok.mp hrun
  cases hrun
  obtain ⟨hk, hring⟩ := initialSlots_run pid h halloc hslots
  obtain ⟨T, bs, live, hinv, -⟩ := hk.inv
  obtain ⟨-, hlinks⟩ := pagingClone_linksRing hinv (linksRing_unassigned hring) (.inl rfl) hclone
  obtain ⟨T', live', hcloned⟩ := pagingClone_ok hinv hk.kernel_mem hclone
  have hp₃ : s₃.sys.processes = [] ++ [⟨address, pid, none⟩] := hcloned.processes.trans hring
  have hp₄ : (s₃.sys.setProcess address fun q => { q with pageDirectory := some c }).processes =
      [] ++ [⟨address, pid, some c⟩] :=
    setProcess_append hp₃ rfl fun r hr => absurd hr List.not_mem_nil
  refine LinksRing.ring fun r hr d hd => ?_
  have hr' : r ∈ [] ++ [(⟨address, pid, some c⟩ : Process)] := hp₄ ▸ hr
  rw [List.nil_append, List.mem_singleton] at hr'
  rw [hr'] at hd
  obtain rfl := Option.some.inj hd
  exact hlinks

/-- The kernel when the image of the first process is loaded: the process has its directory. -/
theorem initialImage_run (h : KernelRun env.uninit sys.kernel D own)
    (hcreate : createInitialProcess env sys.kernel sys.currentPid = .ok (i, s))
    (hread : readImage env { sys with kernel := s, currentPid := u32 (sys.currentPid + 1) } ref node =
      .ok (buffer, s₁, some (keyboard, m))) :
    (∃ own', KernelRun env.uninit { s₁ with mem := m } (insert i.directory D) own') ∧
      i.directory ≠ s₁.sys.kernelPageDirectory ∧
      (∀ q ∈ s₁.sys.processes, q.pageDirectory ≠ none) ∧ LinksRing s₁.sys := by
  obtain ⟨hkept, hring, hnew, -⟩ := createInitialProcess_kept h hcreate
  obtain ⟨hkept₁, hring₁, -⟩ := readImage_kept
    { sys with kernel := s, currentPid := u32 (sys.currentPid + 1) } hkept.run hread
  have hkernel : s₁.sys.kernelPageDirectory = sys.kernel.sys.kernelPageDirectory :=
    (hkept.trans hkept₁).keeps.kernel
  refine ⟨⟨_, hkept₁.run⟩, fun heq => hnew (heq ▸ hkernel ▸ h.kernel_mem), fun q hq => ?_,
    readImage_linksRing { sys with kernel := s, currentPid := u32 (sys.currentPid + 1) } hkept.run
      (createInitialProcess_linksRing h hcreate) hread⟩
  have hq' : q ∈ [(⟨i.address, sys.currentPid, some i.directory⟩ : Process)] :=
    (hring₁.trans hring) ▸ hq
  rw [List.mem_singleton.mp hq']
  exact Option.some_ne_none _

theorem processInit_linksRing (h : KernelRun env.uninit sys.kernel D own)
    (hfits : InitGrowths env (fun _ => True) NoNewTable Placed sys)
    (hrun : processInit env sys = .ok (outcome, sys')) : LinksRing sys'.kernel.sys := by
  obtain ⟨⟨ref, node⟩, hnode, hrun⟩ := bind_eq_ok.mp hrun
  obtain ⟨⟨i, s⟩, hcreate, hrun⟩ := bind_eq_ok.mp hrun
  obtain ⟨⟨buffer, s₁, r⟩, hread, hrun⟩ := bind_eq_ok.mp hrun
  dsimp only at hrun
  cases r with
  | none =>
    cases hrun
    exact readImage_linksRing { sys with kernel := s, currentPid := u32 (sys.currentPid + 1) }
      (createInitialProcess_kept h hcreate).1.run (createInitialProcess_linksRing h hcreate) hread
  | some r =>
    obtain ⟨keyboard, m⟩ := r
    obtain ⟨⟨rli, s₂⟩, hload, hrun⟩ := bind_eq_ok.mp hrun
    obtain ⟨eip, -, hrun⟩ := bind_eq_ok.mp hrun
    cases hrun
    obtain ⟨⟨own', hk⟩, hne, -, hl⟩ := initialImage_run h hcreate hread
    exact loadImage_linksRing hk hl (.inl rfl) hne
      (hfits.load ref node i s buffer s₁ keyboard m hnode hcreate hread) hload

/-- What `process_init` links. -/
theorem initLinks_right (h : KernelRun env.uninit sys.kernel D own)
    (hnone : sys.kernel.sys.processes = [])
    (hfits : InitGrowths env (fun _ => True) NoNewTable Placed sys) :
    InitLinks env LinkCall.Right sys := by
  have hempty : ∀ r, r ∉ sys.kernel.sys.processes := fun r hr => by
    rw [hnone] at hr
    exact List.not_mem_nil hr
  obtain ⟨T, bs, live, hinv, -⟩ := h.inv
  refine ⟨?_, fun address s halloc => ?_, fun address s slots s₁ halloc hslots => ?_,
    fun ref node r s hnode hcreate => ?_,
    fun ref node r s buffer s₁ keyboard m hnode hcreate hread => ?_⟩
  · exact hinv.allocGrowths_right (fun r hr => absurd hr (hempty r)) fun r hr => absurd hr (hempty r)
  · obtain ⟨T', bs', live', hinv', -⟩ := (initialRecord_run h halloc).inv
    exact hinv'.allocGrowths_noLink (hfits.slots address s halloc)
  · obtain ⟨hk, -⟩ := initialSlots_run sys.currentPid h halloc hslots
    obtain ⟨T', bs', live', hinv', -⟩ := hk.inv
    exact hinv'.cloneGrowths_noLink hk.kernel_mem (hfits.clone address s slots s₁ halloc hslots)
  · obtain ⟨hkept, hring, -⟩ := createInitialProcess_kept h hcreate
    obtain ⟨T', bs', live', hinv', -⟩ := hkept.run.inv
    refine hinv'.allocGrowths_right (fun q hq => ?_) (createInitialProcess_linksRing h hcreate)
    rw [hring, List.mem_singleton] at hq
    rw [hq]
    exact Option.some_ne_none _
  · obtain ⟨⟨own', hk⟩, hne, hassigned, hl⟩ := initialImage_run h hcreate hread
    exact imagePages_right hk hl (.inl rfl) hne hassigned
      (hfits.load ref node r s buffer s₁ keyboard m hnode hcreate hread)

/-! ## `process_fork` -/

/-- The kernel when the directory of the active process is cloned for the new one. -/
theorem forkRecord_run (h : KernelRun env.uninit s D own)
    (halloc : kallocAlloc env.uninit s sizeofProcess = .ok (a, s'))
    (hactive : activeProcess s' = .ok active) (hd : active.directory = .ok d) :
    KernelRun env.uninit
        { s' with sys := { s'.sys with processes := s'.sys.processes ++ [⟨a, 0, none⟩] } } D
        (insert (recordAt a) own) ∧
      active ∈ s.sys.processes ∧ s'.sys.processes = s.sys.processes ∧ active.pageDirectory = some d ∧
      d ∈ D := by
  obtain ⟨hkept, hp, -⟩ := kallocAlloc_kept h halloc
  obtain ⟨q, hq⟩ := activeProcess_eq_ok.mp hactive
  have hmem : active ∈ s.sys.processes := by
    rw [← hp, hq]
    exact List.mem_cons_self
  have hdir : active.pageDirectory = some d := assigned_eq_ok.mp hd
  refine ⟨hkept.run.ring fun r hr d hrd => ?_, hmem, hp, hdir, h.processes active hmem d hdir⟩
  rcases List.mem_append.mp hr with hr | hr
  · exact hkept.run.processes r hr d hrd
  · rw [List.mem_singleton.mp hr] at hrd
    cases hrd

theorem forkLinks_right (h : KernelRun env.uninit sys.kernel D own) (hl : LinksRing sys.kernel.sys)
    (hq : ∀ r ∈ sys.kernel.sys.processes, r.pageDirectory ≠ none)
    (hfits : ForkGrowths env (fun _ => True) NoNewTable sys) : ForkLinks env LinkCall.Right sys := by
  obtain ⟨T, bs, live, hinv, -⟩ := h.inv
  refine ⟨hinv.allocGrowths_right hq hl, fun address s active source halloc hactive hsource => ?_⟩
  obtain ⟨hk, -, -, -, hmem⟩ := forkRecord_run h halloc hactive hsource
  obtain ⟨T', bs', live', hinv', -⟩ := hk.inv
  exact hinv'.cloneGrowths_noLink hmem (hfits.clone address s active source halloc hactive hsource)

theorem processFork_linksRing (h : KernelRun env.uninit sys.kernel D own)
    (hl : LinksRing sys.kernel.sys)
    (hrecords : ∀ q ∈ sys.kernel.sys.processes, recordAt q.address ∈ own)
    (hrun : processFork env sys = .ok (outcome, sys')) : LinksRing sys'.kernel.sys := by
  obtain ⟨⟨address, s₁⟩, halloc, hrun⟩ := bind_eq_ok.mp hrun
  obtain ⟨active, hactive, hrun⟩ := bind_eq_ok.mp hrun
  obtain ⟨source, hsource, hrun⟩ := bind_eq_ok.mp hrun
  obtain ⟨⟨c, s₂⟩, hclone, hrun⟩ := bind_eq_ok.mp hrun
  obtain ⟨p, hcopy, hrun⟩ := bind_eq_ok.mp hrun
  cases hrun
  obtain ⟨hk, hmem, hp, hdir, hD⟩ := forkRecord_run h halloc hactive hsource
  obtain ⟨-, -, hfresh⟩ := kallocAlloc_kept h halloc
  have hl₁ : LinksRing { s₁.sys with processes := s₁.sys.processes ++ [⟨address, 0, none⟩] } := by
    refine LinksRing.ring fun r hr d hd i hi => ?_
    rcases List.mem_append.mp hr with hr | hr
    · exact kallocAlloc_linksRing h hl halloc r hr d hd i hi
    · rw [List.mem_singleton.mp hr] at hd
      cases hd
  obtain ⟨T, bs, live, hinv, -⟩ := hk.inv
  have hring : active ∈ s₁.sys.processes ++ [⟨address, 0, none⟩] :=
    List.mem_append_left _ (hp ▸ hmem)
  obtain ⟨hl₂, hlinks⟩ := pagingClone_linksRing hinv hl₁
    (.inr (List.mem_map.mpr ⟨active, hring, hdir⟩)) hclone
  obtain ⟨T', live', hcloned⟩ := pagingClone_ok hinv hD hclone
  have hp₂ : s₂.sys.processes = sys.kernel.sys.processes ++ [⟨address, 0, none⟩] := by
    rw [← hp]
    exact hcloned.processes
  obtain ⟨-, hp₃⟩ := forked_processes sys.currentPid hp₂ (fun r hr => hfresh _ (hrecords r hr)) hcopy
  intro r hr d hd i hi
  have hr' : r ∈ sys.kernel.sys.processes ++ [(⟨address, sys.currentPid, some c⟩ : Process)] :=
    hp₃ ▸ hr
  have hsame : ∀ d, LinksKernel s₂.sys d i → LinksKernel p d i := fun d hd => by
    rw [copyKernelStack_frames hcopy]
    exact ⟨hd.tables, hd.x86⟩
  have hlinked : LinksKernel p d i := by
    refine hsame d ?_
    rcases List.mem_append.mp hr' with hr | hr
    · exact hl₂ r (hp₂ ▸ List.mem_append_left _ hr) d hd i hi
    · rw [List.mem_singleton.mp hr] at hd
      obtain rfl := Option.some.inj hd
      exact hlinks i hi
  exact ⟨hlinked.tables, hlinked.x86⟩

/-! ## `process_execve`, `process_exit` and `process_switch` -/

/-- The kernel when the image is loaded: the active process has its directory, and no pages of its
own but those of its kernel stack. -/
theorem execveImage_run (h : KernelRun env.uninit sys.kernel D own) (hl : LinksRing sys.kernel.sys)
    (hk : OwnDirectories sys.kernel.sys) (hlow : NoTablesAbove sys.kernel.sys)
    (hread : readImage env sys ref node = .ok (buffer, s, some (keyboard, m)))
    (hactive : activeProcess s = .ok active) (hd : active.directory = .ok d)
    (hclean : pagingCleanAllNonKernelPagesFromPageDirectory env.uninit { s with mem := m } d =
      .ok s₁) :
    (∃ own', KernelRun env.uninit s₁ D own') ∧ d ∈ D ∧ d ≠ s₁.sys.kernelPageDirectory ∧
      s₁.sys.processes = sys.kernel.sys.processes ∧ LinksRing s₁.sys := by
  obtain ⟨hkept, hp, -⟩ := readImage_kept sys h hread
  obtain ⟨q, hq⟩ := activeProcess_eq_ok.mp hactive
  have hdir : active.pageDirectory = some d := assigned_eq_ok.mp hd
  have hmem : d ∈ D := by
    refine h.processes active ?_ d hdir
    rw [← hp, hq]
    exact List.mem_cons_self
  have hkernel : s.sys.kernelPageDirectory = sys.kernel.sys.kernelPageDirectory := hkept.keeps.kernel
  have hne : d ≠ s.sys.kernelPageDirectory := hkernel ▸ hk.ne (hp ▸ hq) hdir
  obtain ⟨hkept', hp'⟩ := pagingClean_kept hkept.run hmem hne (hkept.keeps.noTables hlow) hclean
  obtain ⟨T, bs, live, hinv, -⟩ := hkept.run.inv
  have hl₁ : LinksRing s.sys := readImage_linksRing sys h hl hread
  refine ⟨⟨_, hkept'.run⟩, hmem, ?_, hp'.trans hp, pagingClean_linksRing hinv hl₁ hmem hne hclean⟩
  rw [hkept'.keeps.kernel]
  exact hne

theorem execveLinks_right (h : KernelRun env.uninit sys.kernel D own) (hl : LinksRing sys.kernel.sys)
    (hk : OwnDirectories sys.kernel.sys) (hlow : NoTablesAbove sys.kernel.sys)
    (hq : ∀ r ∈ sys.kernel.sys.processes, r.pageDirectory ≠ none)
    (hfits : ExecveGrowths env (fun _ => True) Placed sys imagePath) :
    ExecveLinks env LinkCall.Right sys imagePath := by
  refine ⟨fun ref node _ _ => ?_,
    fun ref node buffer s keyboard m active d s₁ hlookup hnode hread hactive hd hclean => ?_⟩
  · obtain ⟨T, bs, live, hinv, -⟩ := h.inv
    exact hinv.allocGrowths_right hq hl
  · obtain ⟨⟨own', hrun⟩, hmem, hne, hp, hl₁⟩ := execveImage_run h hl hk hlow hread hactive hd hclean
    exact imagePages_right hrun hl₁ hmem hne (fun r hr => hq r (hp ▸ hr))
      (hfits.load ref node buffer s keyboard m active d s₁ hlookup hnode hread hactive hd hclean)

theorem processExecve_linksRing (h : KernelRun env.uninit sys.kernel D own)
    (hl : LinksRing sys.kernel.sys) (hk : OwnDirectories sys.kernel.sys)
    (hlow : NoTablesAbove sys.kernel.sys)
    (hfits : ExecveGrowths env (fun _ => True) Placed sys imagePath)
    (hrun : processExecve env sys imagePath = .ok (outcome, sys')) : LinksRing sys'.kernel.sys := by
  obtain ⟨o, hlookup, hrun⟩ := bind_eq_ok.mp hrun
  cases o with
  | none =>
    cases hrun
    exact hl
  | some ref =>
    obtain ⟨node, hnode, hrun⟩ := bind_eq_ok.mp hrun
    obtain ⟨⟨buffer, s, o⟩, hread, hrun⟩ := bind_eq_ok.mp hrun
    dsimp only at hrun
    cases o with
    | none =>
      cases hrun
      exact readImage_linksRing sys h hl hread
    | some o =>
      obtain ⟨keyboard, m⟩ := o
      obtain ⟨active, hactive, hrun⟩ := bind_eq_ok.mp hrun
      obtain ⟨d, hd, hrun⟩ := bind_eq_ok.mp hrun
      obtain ⟨s₁, hclean, hrun⟩ := bind_eq_ok.mp hrun
      obtain ⟨⟨rli, s₂⟩, hload, hrun⟩ := bind_eq_ok.mp hrun
      obtain ⟨esp, -, hrun⟩ := bind_eq_ok.mp hrun
      obtain ⟨eip, -, hrun⟩ := bind_eq_ok.mp hrun
      cases hrun
      obtain ⟨⟨own', hk₁⟩, hmem, hne, -, hl₁⟩ :=
        execveImage_run h hl hk hlow hread hactive hd hclean
      exact loadImage_linksRing hk₁ hl₁ hmem hne (hfits.load ref node buffer s keyboard m active d s₁
        hlookup (assigned_eq_ok.mp hnode) hread hactive hd hclean) hload

theorem processExit_linksRing (h : KernelRun env.uninit sys.kernel D own)
    (hl : LinksRing sys.kernel.sys)
    (hrecords : ∀ q ∈ sys.kernel.sys.processes, recordAt q.address ∈ own)
    (hk : OwnDirectories sys.kernel.sys) (hlow : NoTablesAbove sys.kernel.sys)
    (hrun : processExit env sys = .ok (outcome, sys')) : LinksRing sys'.kernel.sys := by
  obtain ⟨active, hactive, hrun⟩ := bind_eq_ok.mp hrun
  obtain ⟨d, hd, hrun⟩ := bind_eq_ok.mp hrun
  obtain ⟨s₁, hclean, hrun⟩ := bind_eq_ok.mp hrun
  obtain ⟨s₂, hfree, hrun⟩ := bind_eq_ok.mp hrun
  obtain ⟨q, hq⟩ := activeProcess_eq_ok.mp hactive
  have hdir : active.pageDirectory = some d := assigned_eq_ok.mp hd
  have hhead : active ∈ sys.kernel.sys.processes := by
    rw [hq]
    exact List.mem_cons_self
  have hmem := h.processes active hhead d hdir
  have hne := hk.ne hq hdir
  obtain ⟨T, bs, live, hinv, -⟩ := h.inv
  have hl₁ := pagingClean_linksRing hinv hl hmem hne hclean
  obtain ⟨hkept, -⟩ := pagingClean_kept h hmem hne hlow hclean
  have hring := hkept.ring (q := s₁.sys.processes.tail) fun r hr =>
    hkept.run.processes r (List.mem_of_mem_tail hr)
  obtain ⟨-, hsys⟩ := kallocFree_kept hring.run (hrecords active hhead) hfree
  have hl₂ : LinksRing s₂.sys := by
    rw [hsys]
    exact LinksRing.ring fun r hr => hl₁ r (List.mem_of_mem_tail hr)
  split_ifs at hrun with hlast
  · cases hrun
    exact hl₂
  · obtain ⟨_, -, hrun⟩ := bind_eq_ok.mp hrun
    cases hrun
    exact hl₂

theorem processSwitch_linksRing (hl : LinksRing sys.kernel.sys)
    (hrun : sys.processSwitch = .ok (outcome, sys')) : LinksRing sys'.kernel.sys := by
  unfold System.processSwitch at hrun
  split_ifs at hrun
  · cases hrun
    exact hl
  · obtain ⟨_, -, hrun⟩ := bind_eq_ok.mp hrun
    cases hrun
    exact LinksRing.ring fun r hr => hl r (List.mem_rotate.mp hr)

/-! ## Runs -/

theorem LinkedRun.processRun (h : LinkedRun env sys own first) : ProcessRun env sys own first := by
  induction h with
  | boot hfits hq hinit hrun => exact .boot hfits hq hinit hrun
  | devices _ ih => exact ih.devices
  | alloc _ hv hrun ih => exact ih.alloc hv hrun
  | free _ hl hrun ih => exact ih.free hl hrun
  | write _ hm ih => exact ih.write hm
  | init _ hnone _ hcreate hrun ih => exact ih.init hnone hcreate hrun
  | fork _ _ hrun ih => exact ih.fork hrun
  | execve _ _ hrun hwait ih => exact ih.execve hrun hwait
  | exit _ hq hrun ih => exact ih.exit hq hrun
  | switch _ hrun ih => exact ih.switch hrun

theorem LinkedRun.linksRing (h : LinkedRun env sys own first) : LinksRing sys.kernel.sys := by
  induction h with
  | boot hfits hq hinit hrun =>
    obtain ⟨-, hring⟩ := kallocInit_noTables hfits hq hinit hrun
    intro r hr
    rw [hring] at hr
    exact absurd hr List.not_mem_nil
  | devices _ ih => exact ih
  | alloc hr hv hrun ih =>
    obtain ⟨D, all, hk, -⟩ := hr.processRun.inv
    exact kallocAllocAligned_linksRing hk ih hv hrun
  | free hr hl hrun ih =>
    obtain ⟨D, all, hk, hown, -⟩ := hr.processRun.inv
    obtain ⟨-, hsys⟩ := kallocFree_kept hk (hown hl) hrun
    exact hsys ▸ ih
  | write _ _ ih => exact ih.congr rfl rfl fun _ _ _ _ => ⟨rfl, rfl⟩
  | init hr _ hfits _ hrun _ =>
    obtain ⟨D, all, hk, -⟩ := hr.processRun.inv
    exact processInit_linksRing hk hfits hrun
  | fork hr _ hrun ih =>
    obtain ⟨D, all, hk, -, hrecords, -⟩ := hr.processRun.inv
    exact processFork_linksRing hk ih (fun q hq => (hrecords q hq).1) hrun
  | execve hr hfits hrun _ ih =>
    obtain ⟨D, all, hk, -, -, hring⟩ := hr.processRun.inv
    exact processExecve_linksRing hk ih hring.own hring.noTables hfits hrun
  | exit hr _ hrun ih =>
    obtain ⟨D, all, hk, -, hrecords, hring⟩ := hr.processRun.inv
    exact processExit_linksRing hk ih (fun q hq => (hrecords q hq).1) hring.own hring.noTables
      hrun
  | switch _ hrun ih => exact processSwitch_linksRing ih hrun

/-- In every run whose calls need no new table while a process has no directory, and whose images
have no page below 1 GB in a table of their own: whatever call comes next that is of this kind links
each table while all processes have directories, and leaves them the kernel's entries below 1 GB. -/
theorem linkedRun_right (h : LinkedRun env sys own first) : NextLinks env LinkCall.Right sys := by
  obtain ⟨D, all, hk, -, -, hring⟩ := h.processRun.inv
  have hassigned : ∀ r ∈ sys.kernel.sys.processes, r.pageDirectory ≠ none := fun r hr => by
    obtain ⟨d, hd, -⟩ := hring.stack r hr
    rw [hd]
    exact Option.some_ne_none d
  obtain ⟨T, bs, live, hinv, -⟩ := hk.inv
  exact ⟨fun _ _ => hinv.allocGrowths_right hassigned h.linksRing, initLinks_right hk,
    forkLinks_right hk h.linksRing hassigned,
    fun imagePath => execveLinks_right hk h.linksRing hring.own hring.noTables hassigned⟩

/-! ## A run below 8 MB -/

/-- Where the heap stays below 8 MB, `process_init` needs no new table of the kernel. -/
theorem createInitialProcess_noNewTable (h : KernelRun env.uninit s D own)
    (hrun : createInitialProcess env s pid = .ok (i, s')) (hend : heapEnd s' ≤ 0x800000) :
    (∀ a s₁, kallocAlloc env.uninit s sizeofProcess = .ok (a, s₁) →
        AllocGrowths env.uninit NoNewTable
          { s₁ with sys := { s₁.sys with processes := [⟨a, 0, none⟩] } } fileDescriptorsBytes 0) ∧
      ∀ a s₁ slots s₂, kallocAlloc env.uninit s sizeofProcess = .ok (a, s₁) →
        kallocAlloc env.uninit { s₁ with sys := { s₁.sys with processes := [⟨a, 0, none⟩] } }
          fileDescriptorsBytes = .ok (slots, s₂) →
        CloneGrowths env.uninit NoNewTable
          { s₂ with sys := s₂.sys.setProcess a fun q => { q with pid := pid } }
          s₂.sys.kernelPageDirectory := by
  obtain ⟨⟨a, s₁⟩, halloc, hrun⟩ := bind_eq_ok.mp hrun
  obtain ⟨⟨slots, s₂⟩, hslots, hrun⟩ := bind_eq_ok.mp hrun
  obtain ⟨⟨c, s₃⟩, hclone, hrun⟩ := bind_eq_ok.mp hrun
  obtain ⟨_, -, hrun⟩ := bind_eq_ok.mp hrun
  cases hrun
  have hend₃ : heapEnd s₃ ≤ 0x800000 := hend
  have hk₁ := initialRecord_run h halloc
  obtain ⟨hk₂, -⟩ := initialSlots_run pid h halloc hslots
  obtain ⟨T₁, bs₁, live₁, hinv₁, -⟩ := hk₁.inv
  obtain ⟨T₂, bs₂, live₂, hinv₂, -⟩ := hk₂.inv
  obtain ⟨T₃, live₃, hcloned⟩ := pagingClone_ok hinv₂ hk₂.kernel_mem hclone
  have hend₂ : heapEnd s₂ ≤ 0x800000 := hcloned.le.trans hend₃
  constructor
  · intro a' s₁' halloc'
    rw [halloc] at halloc'
    cases halloc'
    exact hinv₁.alloc_noNewTable hslots hend₂
  · intro a' s₁' slots' s₂' halloc' hslots'
    rw [halloc] at halloc'
    cases halloc'
    rw [hslots] at hslots'
    cases hslots'
    exact hinv₂.clone_noNewTable hk₂.kernel_mem hclone hend₃

theorem processFork_noNewTable (h : KernelRun env.uninit sys.kernel D own)
    (hrun : processFork env sys = .ok (outcome, sys')) (hend : heapEnd sys'.kernel ≤ 0x800000) :
    ForkGrowths env (fun _ => True) NoNewTable sys := by
  obtain ⟨T, bs, live, hinv, -⟩ := h.inv
  refine ⟨hinv.allocGrowths fun _ _ => trivial, fun a s active source halloc hactive hsource => ?_⟩
  obtain ⟨hk, -, -, -, hmem⟩ := forkRecord_run h halloc hactive hsource
  obtain ⟨T₁, bs₁, live₁, hinv₁, -⟩ := hk.inv
  unfold processFork at hrun
  rw [halloc, ok_bind] at hrun
  dsimp only at hrun
  rw [hactive, ok_bind, hsource, ok_bind] at hrun
  obtain ⟨⟨c, s₁⟩, hclone, hrun⟩ := bind_eq_ok.mp hrun
  obtain ⟨p, -, hrun⟩ := bind_eq_ok.mp hrun
  cases hrun
  exact hinv₁.clone_noNewTable hmem hclone hend

/-- A stack that ends above 1 GB: a condition on the pages there stops none of its pages. -/
theorem createStackPages_guarded {σ : Type} {env : LoaderEnv σ} {K : ℕ → ℕ → σ → Prop} {e : Panic}
    {address u : ℕ} (ha : address < 4294967296) (hK : ∀ n pages, 0x40000 ≤ n → K n u pages) :
    ∀ {n : ℕ} {l : Loader σ}, 0x40000 + n ≤ address / 0x1000 + 1 →
      createStackPages (env.guarded K e) address u l n = createStackPages env address u l n
  | 0, _, _ => rfl
  | n + 1, l, hn => by
    unfold createStackPages
    rw [createStackPages_guarded ha hK (by omega)]
    obtain ⟨hpage, -⟩ := stackPage_lt ha (show n ≤ address / 0x1000 by omega)
    refine bind_congr fun l₁ => ?_
    unfold createProcessPage LoaderEnv.guarded
    dsimp only
    rw [hpage, if_pos (hK _ _ (by omega))]

theorem imagePages_emptyImage (himage : ∀ x < 28, imageFile s buffer x = emptyImage x) :
    ImagePages env (Placed d) s d buffer 28 false true := by
  intro memory e
  have hdata : ∀ x < 28, (⟨s, memory, imageFile s buffer, []⟩ : Loader Kernel).data x = emptyImage x :=
    himage
  rw [rawxLoad_emptyImage_eq hdata, rawxLoad_emptyImage_eq hdata,
    createStackPages_guarded (by decide) (fun n _ hn hlt => absurd hlt (by omega)) (by decide)]

/-- The first process with the image of `exists_imageWritten`, below 8 MB. -/
theorem initGrowths_emptyImage {N : Finset ℕ} {limit reserve brk src : ℕ} (sys : System)
    (h : SpaceReady env.uninit D own sys.kernel.sys.kernelPageDirectory N limit reserve brk sys.kernel)
    (hinitrd : sys.initrd = imageInitrd src) (hsrc : ⟨src, 28, 0⟩ ∈ own)
    (himage : ∀ x < 28, sys.kernel.mem (src + x) = emptyImage x) (hreserve : 1024 * N.card ≤ reserve)
    (hfits : brk + fileDescriptorsBytes + 12515 + 8231 * N.card ≤ 0x800000) :
    InitGrowths env (fun _ => True) NoNewTable Placed sys := by
  obtain ⟨r, s₁, hcreate, hquiet, -, brk₁, hbrk₁, h₁⟩ :=
    createInitialProcess_go sys.currentPid h hreserve (by omega)
  have himage₁ : ∀ x < 28, s₁.mem (src + x) = emptyImage x := fun x hx => by
    rw [← himage x hx]
    exact hquiet.memory _ hsrc (fun h0 => absurd rfl h0) _ (Set.mem_Ico.mpr (by dsimp only; omega))
  obtain ⟨s₂, m, hread, himage₂, -⟩ := readImage_go sys.keyboard (u32 (sys.currentPid + 1)) h₁
    (.inr (.inr hsrc)) himage₁ (by omega)
  obtain ⟨hslots, hclone⟩ := createInitialProcess_noNewTable h.run hcreate h₁.ready.le
  obtain ⟨T, bs, live, hinv, -⟩ := h.run.inv
  obtain ⟨T₁, bs₁, live₁, hinv₁, -⟩ := h₁.run.inv
  refine ⟨hinv.allocGrowths fun _ _ => trivial, hslots, hclone, ?_, ?_⟩
  · intro ref node r' s' hnode hcreate'
    rw [hcreate] at hcreate'
    cases hcreate'
    exact hinv₁.allocGrowths fun _ _ => trivial
  · intro ref node r' s' buffer s₃ keyboard m' hnode hcreate' hread'
    rw [hcreate] at hcreate'
    cases hcreate'
    rw [hinitrd, initialNode_imageInitrd] at hnode
    cases hnode
    rw [hinitrd, hread] at hread'
    cases hread'
    have hle := h₁.ready.le
    refine imagePages_emptyImage fun x hx => ?_
    unfold imageFile
    rw [u32_of_lt (by omega)]
    exact himage₂ x hx

/-- The first process is started below 8 MB, and forks. -/
theorem linkedRun_right_forked : ∃ sys own a, LinkedRun bareEnv sys own (some a) ∧
    sys.kernel.sys.processes.length = 2 ∧ NextLinks bareEnv LinkCall.Right sys := by
  obtain ⟨p, s, s₁, m, src, brk, hbrk, hp, hrun, halloc, hm, hq, himage, hspace⟩ :=
    exists_imageWritten bareEnv
  have hboot : LinkedRun bareEnv ⟨s, imageInitrd 0, bareKeyboard, 1⟩ ∅ none :=
    .boot (by decide) rfl hp hrun
  have hwritten : LinkedRun bareEnv ⟨⟨s₁.heap, m, { s₁.sys with frames := s₁.sys.frames }⟩,
      imageInitrd 0, bareKeyboard, 1⟩ (insert ⟨src, 28, 0⟩ ∅) none :=
    (hboot.alloc (.inl rfl) halloc).write hm
  obtain ⟨sys, hsys⟩ : ∃ sys : System,
      sys = ⟨⟨s₁.heap, m, s₁.sys⟩, imageInitrd src, bareKeyboard, 1⟩ := ⟨_, rfl⟩
  have hready : LinkedRun bareEnv sys (insert ⟨src, 28, 0⟩ ∅) none := by
    rw [hsys]
    exact hwritten.devices
  have hspace' : SpaceReady bareEnv.uninit {sys.kernel.sys.kernelPageDirectory} {⟨src, 28, 0⟩}
      sys.kernel.sys.kernelPageDirectory processTables 0x800000 20480 brk sys.kernel := by
    rw [hsys]
    exact hspace
  have hinitrd : sys.initrd = imageInitrd src := by rw [hsys]
  have himage' : ∀ x < 28, sys.kernel.mem (src + x) = emptyImage x := by rw [hsys]; exact himage
  have hslots : fileDescriptorsBytes ≤ 1000 := by decide
  have hcard : processTables.card = 6 := rfl
  obtain ⟨r, s₂, eip, sys₁, D₁, own₁, pid, hcreate, hinit, -, brk₁, hbrk₁, h₁⟩ :=
    processInit_go sys hspace' hinitrd rfl himage' (by decide) (by omega)
  have hinitrun := hready.init (by rw [hsys]; exact hq)
    (initGrowths_emptyImage sys hspace' hinitrd rfl himage' (by decide) (by omega)) hcreate hinit
  obtain ⟨sys₂, a', c, hfork, -, hring, -, -, brk₂, hbrk₂, h₂⟩ :=
    processFork_go h₁ (by decide) (by omega)
  have hforkrun := hinitrun.fork (processFork_noNewTable h₁.space.run hfork h₂.ready.le) hfork
  refine ⟨sys₂, _, _, hforkrun, ?_, linkedRun_right hforkrun⟩
  rw [hring]
  rfl

/-! ## A table that is missing -/

/-- A request that does not fit, in a heap that ends where the kernel has no table, while a process
has no directory. -/
theorem not_allocGrowths_right {T : Set ℕ} {bs : List Block} {live : List Live}
    {top limit reserve brk : ℕ} {x : Process} (h : KernelInv D T bs live s)
    (hready : KernelReady top limit reserve brk s) (hreserve : 0 < reserve)
    (hplace : BumpPlace brk size alignment ptr) (hbig : heapEnd s < ptr + size + 8)
    (hnone : s.sys.kernel.tables (heapEnd s / pageSize / 1024) = 0) (hx : x ∈ s.sys.processes)
    (hdir : x.pageDirectory = none) :
    ¬ AllocGrowths env.uninit (GrowthLinks LinkCall.Right) s size alignment := by
  have hroom := hready.spare.room
  obtain ⟨-, hlt⟩ := h.pages.end_lt
  have hfind := hready.bump.find hplace
  unfold heapEnd at hbig
  rw [if_neg (not_le.mpr hbig)] at hfind
  intro hlinks
  exact not_growthLinks_right h.pages hnone (by omega)
    (hready.spare.window _ (by omega) hnone) hx hdir (hlinks hfind).1

/-- A heap that ends at 8 MB, where the kernel has no table, and has 200 bytes left. -/
theorem exists_heapEndsAtTable (env : ProcessEnv) (keyboard : KeyboardState) :
    ∃ s own, ProcessRun env ⟨s, imageInitrd 0, keyboard, 1⟩ own none ∧ s.sys.processes = [] ∧
      (∃ D own', KernelRun env.uninit s D own') ∧ KernelReady 0x800000 0x800000 1 0x7FFF38 s ∧
      heapEnd s = 0x800000 ∧ s.sys.kernel.tables 2 = 0 := by
  obtain ⟨p, s, hp, hrun, hbooted, htables⟩ := exists_kallocInit env.uninit (le_refl 0x800000)
    (by decide) (by decide) (show 1 + (0x800000 - kernelHeapAddress) / 4096 * 2 ≤ 783360 by decide)
  have hboot : ProcessRun env ⟨s, imageInitrd 0, keyboard, 1⟩ ∅ none :=
    .boot (by decide) rfl hp hrun
  obtain ⟨bs, hinv⟩ := hbooted.inv
  have hplace : BumpPlace 0x510015 0x2EFF0F 0 0x510021 := bumpPlace_zero (by decide)
  obtain ⟨s₁, halloc, hready, hend⟩ := hbooted.ready.alloc env.uninit hinv hplace (by decide)
  have hend₁ : heapEnd s₁ = 0x800000 := by
    rw [hend]
    exact max_eq_right hbooted.ready.le
  rw [hend₁] at hready
  have hgrown := (kallocHeapAlloc_ok hinv (.inl rfl) halloc).grown
  have hnone : s.sys.kernel.tables 2 = 0 := by
    by_contra hne
    have htable := htables 2 (by decide) hne
    unfold InitTable at htable
    omega
  exact ⟨s₁, _, hboot.alloc (.inl rfl) halloc, hgrown.processes.trans hbooted.processes,
    ⟨_, _, hbooted.run.alloc (.inl rfl) halloc⟩, hready, hend₁,
    hgrown.tables_eq_zero (by omega) hnone⟩

/-- `process_init` links a table while its process has no directory: the record fits into the heap,
the file descriptors do not. -/
theorem exists_init_not_right : ∃ sys own, ProcessRun bareEnv sys own none ∧
    sys.kernel.sys.processes = [] ∧ (∃ r, initialNode sys.initrd = .ok r) ∧
    ¬ InitLinks bareEnv LinkCall.Right sys := by
  obtain ⟨s, own, hrun, hring, ⟨D, own', hk⟩, hready, hend, hnone⟩ :=
    exists_heapEndsAtTable bareEnv bareKeyboard
  refine ⟨_, own, hrun, hring, ⟨_, initialNode_imageInitrd 0⟩, fun hlinks => ?_⟩
  obtain ⟨T, bs, live, hinv, -⟩ := hk.inv
  -- the record
  have hplace : BumpPlace 0x7FFF38 sizeofProcess 0 0x7FFF44 := bumpPlace_zero (by decide)
  obtain ⟨s₁, halloc, hready₁, hend₁⟩ := hready.alloc bareEnv.uninit hinv hplace (by decide)
  rw [hend] at hend₁
  have hend₁' : heapEnd s₁ = 0x800000 := hend₁
  rw [hend₁'] at hready₁
  have hgrown := (kallocHeapAlloc_ok hinv (.inl rfl) halloc).grown
  have hk₁ := initialRecord_run hk halloc
  obtain ⟨s₂, hs₂⟩ : ∃ s₂ : Kernel, s₂ =
    { s₁ with sys := { s₁.sys with processes := [⟨0x7FFF44, 0, none⟩] } } := ⟨_, rfl⟩
  have hready₂ := hready₁.setProcesses le_rfl [⟨0x7FFF44, 0, none⟩]
  have hslots := hlinks.slots _ _ halloc
  rw [← hs₂] at hk₁ hready₂ hslots
  have hend₂ : heapEnd s₂ = 0x800000 := by
    rw [hs₂]
    exact hend₁'
  have hnone₂ : s₂.sys.kernel.tables 2 = 0 := by
    rw [hs₂]
    exact hgrown.tables_eq_zero (by omega) hnone
  obtain ⟨T₂, bs₂, live₂, hinv₂, -⟩ := hk₁.inv
  -- the file descriptors
  have hplace₂ : BumpPlace 0x7FFF88 fileDescriptorsBytes 0 0x7FFF94 := bumpPlace_zero (by decide)
  refine not_allocGrowths_right (x := ⟨0x7FFF44, 0, none⟩) hinv₂ hready₂ one_pos hplace₂ ?_ ?_ ?_ rfl
    hslots
  · rw [hend₂]
    decide
  · rw [hend₂]
    exact hnone₂
  · rw [hs₂]
    exact List.mem_singleton_self _

end

end RawOS
