import RawOS.Alloc.HeapPool
import RawOS.Cleaning
import RawOS.Cloning
import RawOS.FreeFrames
import Mathlib.Tactic.Linarith

/-!
# The calls on address spaces return

Where frames are free and the heap can grow, creating a page of a process and cloning a directory
succeed.
-/

namespace RawOS

section

variable {uninit : Paging → Mem → ℤ} {D T : Set ℕ} {bs : List Block} {live : List Live}
  {s s' : Kernel} {p p' : Paging} {source c d t i j n u : ℕ} {top limit reserve brk : ℕ}

/-- Where a table or a directory is placed, and where it ends. -/
theorem roundUp_le (a : ℕ) : roundUp a ≤ a + 4095 := by
  unfold roundUp
  omega

/-- A request for `size` bytes on a page boundary. -/
theorem KernelReady.allocPage (uninit : Paging → Mem → ℤ) (size : ℕ)
    (h : KernelReady top limit reserve brk s) (hinv : KernelInv D T bs live s)
    (hfits : brk + size + 4115 ≤ top) :
    ∃ s', kallocAllocAligned uninit s size 0x1000 = .ok (roundUp (brk + 12), s') ∧
      ∃ brk' ≤ brk + size + 4135, KernelReady top limit reserve brk' s' := by
  have hlt := h.limit_lt
  have htop := h.top_le
  have hround := roundUp_le (brk + 12)
  have hplace : BumpPlace brk size 0x1000 (roundUp (brk + 12)) := bumpPlace_page (by omega)
  obtain ⟨s', hrun, hr, -⟩ := h.alloc uninit hinv hplace (by omega)
  exact ⟨s', hrun, _, (bumpEnd_le _ _ _).trans (by omega), hr⟩

/-- A request for `size` bytes. -/
theorem KernelReady.allocBytes (uninit : Paging → Mem → ℤ) (size : ℕ)
    (h : KernelReady top limit reserve brk s) (hinv : KernelInv D T bs live s)
    (hfits : brk + size + 20 ≤ top) :
    ∃ s', kallocAlloc uninit s size = .ok (brk + 12, s') ∧
      ∃ brk' ≤ brk + size + 40, KernelReady top limit reserve brk' s' := by
  have hlt := h.limit_lt
  have htop := h.top_le
  have hplace : BumpPlace brk size 0 (brk + 12) := bumpPlace_zero (by omega)
  obtain ⟨s', hrun, hr, -⟩ := h.alloc uninit hinv hplace (by omega)
  exact ⟨s', hrun, _, (bumpEnd_le _ _ _).trans (by omega), hr⟩

/-- The owners of the blocks write into them. -/
theorem KernelReady.setMem {m : Mem} (h : KernelReady top limit reserve brk s)
    (hinv : KernelInv D T bs live s)
    (hm : ∀ x, kernelHeapAddress ≤ x → x < heapEnd s → ¬ Payload bs x → m x = s.mem x) :
    KernelReady top limit reserve brk { s with mem := m } where
  bump := h.bump.congr fun bs' hbs' x h₁ h₂ h₃ => hm x h₁ h₂ <| by
    rw [hinv.heap.heap.blocks_eq hbs']
    exact h₃
  first := h.first
  spare := h.spare
  le := h.le
  top_mod := h.top_mod
  top_le := h.top_le
  limit_le := h.limit_le
  limit_mod := h.limit_mod

/-! ## Cloning -/

theorem clonePage_go (hsize : p.availableFrames.size = availableFramesNum / 8)
    (hroom : 0 < p.availableFrames.room) :
    ∃ p', clonePage source t i j p = .ok p' ∧
      p.availableFrames.room ≤ p'.availableFrames.room + 1 := by
  unfold clonePage
  dsimp only
  split_ifs
  · obtain ⟨f, b, hb, halloc⟩ := allocFrame_go hsize hroom
    rw [halloc]
    exact ⟨_, rfl, hb.room.le⟩
  · exact ⟨p, rfl, Nat.le_succ _⟩

theorem copyLoop_go (hinv : PagingInv D T p) (huse : InUse T p ((p.directories source).tables i))
    (hne : (p.directories source).tables i ≠ t) (hzero : p.tables t = PageTable.zero)
    (hroom : 1024 ≤ p.availableFrames.room) :
    ∃ p', forLoop (clonePage source t i) 1024 p = .ok p' ∧
      p.availableFrames.room ≤ p'.availableFrames.room + 1024 := by
  have hloop : ∃ p', forLoop (clonePage source t i) 1024 p = .ok p' ∧
      TableCopied ((p.directories source).tables i) t 1024 p p' ∧ PagingInv D T p' ∧
      p.availableFrames.room ≤ p'.availableFrames.room + 1024 := by
    refine forLoop_go (P := fun n q => TableCopied ((p.directories source).tables i) t n p q ∧
      PagingInv D T q ∧ p.availableFrames.room ≤ q.availableFrames.room + n)
      ⟨.refl _ t p, hinv, Nat.le_add_right _ _⟩ ?_
    rintro n hn q ⟨hc, hq, hr⟩
    obtain ⟨q', hstep, hr'⟩ := @clonePage_go _ source t i n
      hq.frames.size (by omega)
    obtain ⟨hc', hq'⟩ := hc.step hinv hq hn huse hne (by rw [hzero]; rfl) hstep
    exact ⟨q', hstep, hc', hq', by omega⟩
  obtain ⟨p', hrun, -, -, hroom'⟩ := hloop
  exact ⟨p', hrun, hroom'⟩

/-- The kernel's pages are in tables that are not the clone's. -/
theorem KernelPage.of_tables {f : ℕ} (ht : ∀ i < 1024, p.kernel.tables i ≠ 0 → p.kernel.tables i ≠ t)
    (hk : p'.kernel = p.kernel) (hother : ∀ t', t' ≠ t → p'.tables t' = p.tables t')
    (hn : n < 0x100000) (h : KernelPage p' n f) : KernelPage p n f := by
  have hne : p.kernel.tables (n / 1024) ≠ 0 := hk ▸ h.table
  refine h.congr (by rw [hk]) ?_
  rw [hk, hother _ (ht _ (by omega) hne)]

theorem ne_of_not_inUse (ht : ¬ InUse T p t) :
    ∀ i < 1024, p.kernel.tables i ≠ 0 → p.kernel.tables i ≠ t :=
  fun i hi hne heq => ht (heq ▸ .inr ⟨hne, i, hi, rfl⟩)

theorem PagingInv.ne_of_mem (h : PagingInv D T p) (ht : t ∈ T) :
    ∀ i < 1024, p.kernel.tables i ≠ 0 → p.kernel.tables i ≠ t := by
  rintro i hi hne rfl
  have hle := (h.heap _ ht).2.1
  rw [(h.window i hi hne).1, kernelPageTable_eq hi] at hle
  unfold kernelHeapAddress at hle
  omega

theorem cloneTable_go (h : KernelInv D T bs live s) (hr : KernelReady top limit reserve brk s)
    (hsource : source ∈ D) (hk : c ≠ s.sys.kernelPageDirectory) (hi : i < 1024)
    (h0 : (s.sys.directories source).tables i ≠ 0) (hreserve : 1024 ≤ reserve)
    (hfits : brk + 8211 ≤ top) :
    ∃ s', cloneTable uninit source c i s = .ok s' ∧
      ∃ brk' ≤ brk + 8231, KernelReady top limit (reserve - 1024) brk' s' := by
  obtain ⟨s₁, halloc, brk', hbrk, hr₁⟩ := hr.allocPage uninit sizeofPageTable h hfits
  have ha := kallocHeapAlloc_ok h validAlignment_page halloc
  obtain ⟨bs', f, hinv, hf, -, hnot⟩ := ha.addTable h
  obtain ⟨bs₁, hi₁⟩ := ha.inv
  obtain ⟨t, ht⟩ : ∃ t, t = roundUp (brk + 12) := ⟨_, rfl⟩
  rw [← ht] at halloc hinv hf hnot
  have hne : (s₁.sys.directories source).tables i ≠ 0 := by
    rcases ha.grown.directories source i with ⟨h₁, -⟩ | ⟨-, -, -, -, hw, hne, hl⟩
    · rw [h₁]
      exact h0
    · rw [hl.tables, hw]
      exact hne
  have huse : InUse T s₁.sys ((s₁.sys.directories source).tables i) :=
    hi₁.pages.inv.inUse_linked hsource hi hne
  have hts : (s₁.sys.directories source).tables i ≠ t := fun heq => hnot (heq ▸ huse)
  have huse' : InUse (insert t T) (s₁.sys.zeroTable t) ((s₁.sys.directories source).tables i) :=
    huse.imp_left .inr
  have hroom := hr₁.spare.room
  obtain ⟨p, hloop, hroom'⟩ := copyLoop_go hinv.pages.inv huse' hts (Function.update_self ..)
    (show 1024 ≤ s₁.sys.availableFrames.room by omega)
  obtain ⟨hcopied, -⟩ := copyLoop_ok hinv.pages.inv huse' hts (Function.update_self ..) hloop
  -- the address of the new table
  have hkp : p.kernel = s₁.sys.kernel := by
    unfold Paging.kernel
    rw [hcopied.directories, hcopied.kernel]
    rfl
  have hkernel : p.kernelPageDirectory = s.sys.kernelPageDirectory :=
    hcopied.kernel.trans ha.grown.kernel
  have hkt : (p.directories p.kernelPageDirectory).tables (t / 4096 / 1024) ≠ 0 := by
    have hft : (s₁.sys.zeroTable t).kernel.tables (t / 4096 / 1024) ≠ 0 := hf.table
    show p.kernel.tables _ ≠ 0
    rw [hkp]
    exact hft
  obtain ⟨a, haddr⟩ : ∃ a, getPhysicalAddressOfVirtualAddress p p.kernelPageDirectory t = .ok a := by
    unfold getPhysicalAddressOfVirtualAddress
    exact ⟨_, if_neg hkt⟩
  have hrun : cloneTable uninit source c i s =
      .ok { s₁ with sys := p.setDirectoryEntry c i t (a ||| 0x7) } := by
    unfold cloneTable
    rw [if_pos h0, halloc, ok_bind]
    dsimp only
    rw [hloop, ok_bind, haddr]
    rfl
  refine ⟨_, hrun, brk', hbrk, hr₁.setSys (k := 1024) (fun n hn g hg => ?_) (fun i' _ hi' => ?_) ?_
    hroom' (by omega)⟩
  · refine hg.of_tables (ne_of_not_inUse hnot) ?_ (fun t' ht' => ?_) hn
    · rw [← hkp]
      exact Paging.setDirectoryEntry_of_ne (hkernel ▸ hk.symm)
    · exact (hcopied.others t' ht').trans (Paging.zeroTable_of_ne ht')
  · have hsame : (p.setDirectoryEntry c i t (a ||| 0x7)).kernel = p.kernel :=
      Paging.setDirectoryEntry_of_ne (hkernel ▸ hk.symm)
    rw [hsame, hkp] at hi'
    exact hi'
  · exact hcopied.processes

/-- The tables above 1 GB that there are, or may come to be while the heap grows, are those of
`N`. -/
def TablesIn (N : Finset ℕ) (top source : ℕ) (p : Paging) : Prop :=
  ∀ i < 1024, 256 ≤ i → (p.directories source).tables i ≠ 0 ∨ i * 0x400000 < top → i ∈ N

theorem TablesIn.grown {N : Finset ℕ} {e e' : ℕ} (h : TablesIn N top source p)
    (hg : KernelGrown e (e' / 4096) p p') (he : e' ≤ top) : TablesIn N top source p' := by
  rintro i hi hle (hne | hlt)
  · rcases hg.directories source i with ⟨h₁, -⟩ | ⟨-, hlt, -⟩
    · exact h i hi hle (.inl (h₁ ▸ hne))
    · have hmul := Nat.div_mul_le_self e' 4096
      exact h i hi hle (.inr (by linarith))
  · exact h i hi hle (.inr hlt)

/-- How many of `N` are among the first `n` entries above 1 GB. -/
def tablesBefore (N : Finset ℕ) (n : ℕ) : ℕ := (N.filter fun i => 256 ≤ i ∧ i < 256 + n).card

theorem tablesBefore_le (N : Finset ℕ) (n : ℕ) : tablesBefore N n ≤ N.card := Finset.card_filter_le ..

theorem tablesBefore_mono (N : Finset ℕ) (n : ℕ) : tablesBefore N n ≤ tablesBefore N (n + 1) := by
  refine Finset.card_le_card fun i hi => ?_
  rw [Finset.mem_filter] at hi ⊢
  exact ⟨hi.1, by omega⟩

theorem tablesBefore_succ {N : Finset ℕ} (h : 256 + n ∈ N) :
    tablesBefore N n + 1 ≤ tablesBefore N (n + 1) := by
  unfold tablesBefore
  rw [← Finset.card_insert_of_notMem (a := 256 + n) (by simp)]
  refine Finset.card_le_card fun i hi => ?_
  rw [Finset.mem_insert, Finset.mem_filter] at hi
  rw [Finset.mem_filter]
  rcases hi with rfl | hi
  · exact ⟨h, by omega⟩
  · exact ⟨hi.1, by omega⟩

/-- The outer loop before entry `256 + n`. -/
structure CloneReady (D T : Set ℕ) (live : List Live) (source c n : ℕ) (N : Finset ℕ)
    (top limit reserve brk : ℕ) (s s' : Kernel) : Prop where
  copied : ∃ T' live', DirectoryCopied D T live source c (256 + n) s T' live' s'
  ready : ∃ brk' ≤ brk + 8231 * tablesBefore N n,
    KernelReady top limit (reserve - 1024 * tablesBefore N n) brk' s'
  tables : TablesIn N top source s'.sys

theorem CloneReady.step {N : Finset ℕ} {s₁ : Kernel}
    (hc : CloneReady D T live source c n N top limit reserve brk s s₁) (h : KernelInv D T bs live s)
    (hsource : source ∈ D) (hcD : c ∉ D) (hn : n < 768) (hreserve : 1024 * N.card ≤ reserve)
    (hfits : brk + 8231 * N.card ≤ top) :
    ∃ s₂, cloneTable uninit source c (256 + n) s₁ = .ok s₂ ∧
      CloneReady D T live source c (n + 1) N top limit reserve brk s s₂ := by
  obtain ⟨⟨T₁, live₁, hcopied⟩, ⟨brk₁, hbrk₁, hr⟩, hN⟩ := hc
  obtain ⟨bs₁, hinv₁⟩ := hcopied.inv
  have hck : c ≠ s₁.sys.kernelPageDirectory := by
    rw [hcopied.kernel]
    rintro rfl
    exact hcD h.pages.inv.kernel
  have hmono := tablesBefore_mono N n
  have hle := tablesBefore_le N (n + 1)
  by_cases h0 : (s₁.sys.directories source).tables (256 + n) = 0
  · have hrun : cloneTable uninit source c (256 + n) s₁ = .ok s₁ := by
      unfold cloneTable
      rw [if_neg (not_not.mpr h0)]
    exact ⟨s₁, hrun, hcopied.step h hsource hcD (by omega) (by omega) hrun,
      ⟨brk₁, by omega, hr.mono (by omega)⟩, hN⟩
  · have hmem := hN (256 + n) (by omega) (by omega) (.inl h0)
    have hsucc := tablesBefore_succ hmem
    obtain ⟨s₂, hrun, brk₂, hbrk₂, hr₂⟩ : ∃ s₂, cloneTable uninit source c (256 + n) s₁ = .ok s₂ ∧ _ :=
      cloneTable_go hinv₁ hr (.inr hsource) hck (by omega) h0 (by omega) (by omega)
    refine ⟨s₂, hrun, hcopied.step h hsource hcD (by omega) (by omega) hrun,
      ⟨brk₂, by omega, hr₂.mono (by omega)⟩, ?_⟩
    rcases cloneTable_ok hinv₁ (.inr hsource) (.inl rfl) hck (by omega) hrun with
      ⟨hnone, -⟩ | ⟨-, t, s₃, q, x, htc⟩
    · exact absurd hnone h0
    · obtain ⟨ha, -, -, htab, -, -, rfl⟩ := htc
      have hgrown : TablesIn N top source s₃.sys := hN.grown ha.grown hr₂.le
      rintro i hi hle' hor
      refine hgrown i hi hle' (hor.imp_left fun hne => ?_)
      have hsame : (q.setDirectoryEntry c (256 + n) t x).directories source =
          s₃.sys.directories source := by
        have hsc : source ≠ c := by
          rintro rfl
          exact hcD hsource
        rw [Paging.setDirectoryEntry_of_ne hsc, htab.directories]
        rfl
      rw [hsame] at hne
      exact hne

/-- The directory of a clone is cleared. -/
theorem KernelReady.zeroDirectory (h : KernelReady top limit reserve brk s)
    (hc : s.sys.kernelPageDirectory ≠ c) (hle : n ≤ reserve) :
    KernelReady top limit n brk { s with sys := s.sys.zeroDirectory c } := by
  have hkernel : (s.sys.zeroDirectory c).kernel = s.sys.kernel := Function.update_of_ne hc ..
  refine h.setSys (k := 0) (fun n _ f hf => hf.congr ?_ rfl) (fun i _ hi => ?_) rfl
    (Nat.le_add_right _ _) (by omega)
  · rw [hkernel]
  · rwa [hkernel] at hi

theorem pagingClone_go {N : Finset ℕ} (h : KernelInv D T bs live s)
    (hr : KernelReady top limit reserve brk s) (hsource : source ∈ D)
    (hN : TablesIn N top source s.sys) (hreserve : 1024 * N.card ≤ reserve)
    (hfits : brk + 12327 + 8231 * N.card ≤ top) :
    ∃ s', pagingClonePageDirectoryForNewProcess uninit s source = .ok (roundUp (brk + 12), s') ∧
      ∃ brk' ≤ brk + 12327 + 8231 * N.card,
        KernelReady top limit (reserve - 1024 * N.card) brk' s' := by
  obtain ⟨s₀, halloc, brk₀, hbrk₀, hr₀⟩ := hr.allocPage uninit sizeofPageDirectory h
    (by unfold sizeofPageDirectory; omega)
  obtain ⟨c, hc⟩ : ∃ c, c = roundUp (brk + 12) := ⟨_, rfl⟩
  rw [← hc] at halloc ⊢
  have ha := kallocHeapAlloc_ok h validAlignment_page halloc
  obtain ⟨hcD, hstart⟩ := @DirectoryCopied.alloc _ _ _ _ _ _ source _ h ha
  have hne : source ≠ c := fun heq => hcD (heq ▸ hsource)
  have hck₀ : s₀.sys.kernelPageDirectory ≠ c := by
    rw [ha.grown.kernel]
    rintro rfl
    exact hcD h.pages.inv.kernel
  have hzero : CloneReady D T live source c 0 N top limit reserve (brk + 12327) s
      { s₀ with sys := s₀.sys.zeroDirectory c } := by
    refine ⟨⟨T, _, hstart⟩, ⟨brk₀, by unfold sizeofPageDirectory at hbrk₀; omega,
      hr₀.zeroDirectory hck₀ (Nat.sub_le ..)⟩, ?_⟩
    intro i hi hle hor
    refine hN.grown ha.grown hr₀.le i hi hle (hor.imp_left fun hne' => ?_)
    have hsame : (s₀.sys.zeroDirectory c).directories source = s₀.sys.directories source :=
      Function.update_of_ne hne ..
    rwa [← hsame]
  have hloop : ∃ s₁, forLoop (fun i => cloneTable uninit source c (256 + i)) 768
      { s₀ with sys := s₀.sys.zeroDirectory c } = .ok s₁ ∧
      CloneReady D T live source c 768 N top limit reserve (brk + 12327) s s₁ :=
    forLoop_go (P := fun n q => CloneReady D T live source c n N top limit reserve (brk + 12327) s q)
      hzero fun n hn q hq => hq.step h hsource hcD hn hreserve hfits
  obtain ⟨s₁, hrun₁, ⟨T₁, live₁, hcopied⟩, ⟨brk₁, hbrk₁, hr₁⟩, -⟩ := hloop
  have hlast := tablesBefore_le N 768
  obtain ⟨p, hlink, -⟩ : ∃ p, forLoop (fun i p => .ok (cloneLink source c i p)) 256 s₁.sys = .ok p ∧
      True := forLoop_go (P := fun _ _ => True) trivial fun i _ q _ => ⟨_, rfl, trivial⟩
  obtain ⟨bs₁, hinv₁⟩ := hcopied.inv
  have hck : c ≠ s₁.sys.kernelPageDirectory := by
    rw [hcopied.kernel]
    rintro rfl
    exact hcD h.pages.inv.kernel
  obtain ⟨hlow, -⟩ := linkLoop_ok hinv₁ (.inr hsource) (.inl rfl) hck hne hlink
  have hkernel : p.kernel = s₁.sys.kernel := by
    unfold Paging.kernel
    rw [hlow.kernel, hlow.others _ hck.symm]
  refine ⟨{ s₁ with sys := p }, ?_, brk₁, by omega, ?_⟩
  · unfold pagingClonePageDirectoryForNewProcess
    rw [halloc, ok_bind]
    dsimp only
    have hrun₁' : forLoop (fun i => cloneTable uninit source c (1024 / 4 + i)) (1024 - 1024 / 4)
        { s₀ with sys := s₀.sys.zeroDirectory c } = .ok s₁ := hrun₁
    have hlink' : forLoop (fun i p => .ok (cloneLink source c i p)) (1024 / 4) s₁.sys = .ok p := hlink
    rw [hrun₁', ok_bind, hlink']
    rfl
  · refine hr₁.setSys (k := 0) (fun n _ f hf => hf.congr ?_ ?_) (fun i _ hi => ?_) hlow.processes ?_
      (by omega)
    · rw [hkernel]
    · rw [hlow.tables]
    · rwa [hkernel] at hi
    · rw [hlow.bitmap]
      exact Nat.le_add_right _ _

/-! ## Pages of a process -/

theorem createProcessTable_go (h : KernelInv D T bs live s)
    (hr : KernelReady top limit reserve brk s) (hk : d ≠ s.sys.kernelPageDirectory)
    (hfits : brk + 8211 ≤ top) :
    ∃ s', createProcessTable uninit s d i = .ok s' ∧
      ∃ brk' ≤ brk + 8231, KernelReady top limit reserve brk' s' := by
  obtain ⟨s₁, halloc, brk', hbrk, hr₁⟩ := hr.allocPage uninit sizeofPageTable h hfits
  have ha := kallocHeapAlloc_ok h validAlignment_page halloc
  obtain ⟨bs', f, hinv, hf, -, hnot⟩ := ha.addTable h
  obtain ⟨t, ht⟩ : ∃ t, t = roundUp (brk + 12) := ⟨_, rfl⟩
  rw [← ht] at halloc hinv hf hnot ha
  obtain ⟨hmod, -, hend⟩ := ha.aligned (by decide)
  have hlt := hr₁.limit_lt
  have hle := hr₁.le
  have htop := hr₁.top_le
  have hpage : u32 (t / 0x1000 * 0x1000) = t := by
    unfold sizeofPageTable at hend
    rw [u32_of_lt (by omega)]
    omega
  obtain ⟨x, hx⟩ : ∃ x, x = u32 (f * 0x1000 + t % 4096) ||| 0x7 := ⟨_, rfl⟩
  have hck : (s₁.sys.zeroTable t).kernelPageDirectory ≠ d := by
    show s₁.sys.kernelPageDirectory ≠ d
    rw [ha.grown.kernel]
    exact hk.symm
  have hkernel : (((s₁.sys.zeroTable t).setDirectoryEntry d i t x).zeroTable t).kernel =
      s₁.sys.kernel := Paging.setDirectoryEntry_of_ne hck
  have hrun : createProcessTable uninit s d i =
      .ok { s₁ with sys := ((s₁.sys.zeroTable t).setDirectoryEntry d i t x).zeroTable t } := by
    unfold createProcessTable
    rw [halloc, ok_bind]
    unfold pagingGetPageFrameAddress
    dsimp only
    rw [hpage, getPhysicalAddress_kernel hf, ok_bind, ← hx]
    rfl
  refine ⟨_, hrun, brk', hbrk, hr₁.setSys (k := 0) (fun n hn g hg => ?_) (fun i' _ hi' => ?_) rfl
    (Nat.le_add_right _ _) (by omega)⟩
  · refine hg.of_tables (ne_of_not_inUse hnot) hkernel (fun t' ht' => ?_) hn
    rw [Paging.zeroTable_of_ne ht']
    exact Paging.zeroTable_of_ne ht'
  · rwa [hkernel] at hi'

/-- Once the table exists. -/
theorem mapProcessPage_go (h : KernelInv D T bs live s) (hr : KernelReady top limit reserve brk s)
    (hT : (s.sys.directories d).tables (n / 1024) ∈ T)
    (hpres : (s.sys.tables ((s.sys.directories d).tables (n / 1024)) (n % 1024)).present = false)
    (hreserve : 1 ≤ reserve) :
    ∃ f s', mapProcessPage s d n u = .ok (f, s') ∧ KernelReady top limit (reserve - 1) brk s' := by
  have hroom := hr.spare.room
  obtain ⟨f, b, hb, hrun⟩ := mapPage_go (u := u) h.pages.inv.frames.size
    (show 0 < s.sys.availableFrames.room by omega) hpres
  unfold mapProcessPage
  rw [hrun]
  refine ⟨f, _, rfl, hr.setSys (k := 1) (fun k hkn g hg => ?_) (fun i _ hi => hi) rfl hb.room.le
    (by omega)⟩
  refine KernelPage.of_tables (h.pages.inv.ne_of_mem hT) ?_ (fun t' ht' => ?_) hkn hg
  · rfl
  · exact Function.update_of_ne ht' ..

/-- A page that a process does not have can be created in its part of the address space. -/
theorem pagingCreateProcessPage_go (h : KernelInv D T bs live s)
    (hr : KernelReady top limit reserve brk s) (hd : d ∈ D) (hk : d ≠ s.sys.kernelPageDirectory)
    (hnew : s.sys.pageOf d n = none)
    (hown : (s.sys.directories d).tables (n / 1024) = 0 ∨ (s.sys.directories d).tables (n / 1024) ∈ T)
    (hreserve : 1 ≤ reserve)
    (hfits : (s.sys.directories d).tables (n / 1024) = 0 → brk + 8211 ≤ top) :
    ∃ f s', pagingCreateProcessPageWithAnyFrame uninit s d n u = .ok (f, s') ∧
      ∃ brk', (brk' = brk ∨ (s.sys.directories d).tables (n / 1024) = 0 ∧ brk' ≤ brk + 8231) ∧
        KernelReady top limit (reserve - 1) brk' s' := by
  by_cases htable : (s.sys.directories d).tables (n / 1024) = 0
  · obtain ⟨s₁, hcreate, brk', hbrk, hr₁⟩ :
        ∃ s₁, createProcessTable uninit s d (n / 1024) = .ok s₁ ∧ _ :=
      createProcessTable_go h hr hk (hfits htable)
    obtain ⟨t, s₀, x, hl, rfl⟩ := createProcessTable_ok h hd hk hcreate
    obtain ⟨bs', hinv⟩ := hl.inv
    have hself : ((({ s₀ with sys := (s₀.sys.zeroTable t).setDirectoryEntry d (n / 1024) t x } :
        Kernel)).sys.directories d).tables (n / 1024) = t := Paging.setDirectoryEntry_tables_self
    obtain ⟨f, s', hrun, hr'⟩ := mapProcessPage_go (u := u) hinv hr₁ (by
      rw [hself]
      exact .inl rfl) (by
      rw [hself]
      show ((s₀.sys.zeroTable t).tables t (n % 1024)).present = false
      rw [Paging.zeroTable_self]
      rfl) hreserve
    rw [pagingCreateProcessPage_unmapped htable, hcreate, ok_bind]
    exact ⟨f, s', hrun, brk', .inr ⟨htable, hbrk⟩, hr'⟩
  · have hT := hown.resolve_left htable
    obtain ⟨f, s', hrun, hr'⟩ := mapProcessPage_go (u := u) h hr hT (by
      rw [← Bool.not_eq_true]
      intro hpres
      rw [Paging.pageOf_eq_some.mpr ⟨htable, hpres, rfl⟩] at hnew
      exact Option.some_ne_none _ hnew) hreserve
    rw [pagingCreateProcessPage_mapped htable]
    exact ⟨f, s', hrun, brk, .inl rfl, hr'⟩

/-! ## Cleaning -/

theorem cleanPage_go {b : Bool} (hused : (p.tables t j).present = true →
    bitmapGet p.availableFrames (p.tables t j).frameAddress20Bits = .ok 1) :
    ∃ r, cleanPage i t j (b, p) = .ok r ∧ r.2.availableFrames.size = p.availableFrames.size := by
  unfold cleanPage
  dsimp only
  cases hpres : (p.tables t j).present with
  | false => exact ⟨_, rfl, rfl⟩
  | true =>
    have hget := hused hpres
    obtain ⟨hguard, -⟩ := bitmapGet_eq_one_iff.mp hget
    rw [if_pos rfl, hget, ok_bind, assert_of_true Nat.one_ne_zero, ok_bind]
    by_cases hstack : isPagePartOfKernelStack (i * 1024 + j)
    · rw [if_neg (not_not.mpr hstack)]
      exact ⟨_, rfl, rfl⟩
    · rw [if_pos hstack, bitmapClear_eq_ok.mpr ⟨hguard, rfl⟩]
      exact ⟨_, rfl, rfl⟩

/-- The pages of a table have frames of their own, so no frame is cleared twice. -/
theorem cleanLoop_go (hused : ∀ j < 1024, (p.tables t j).present = true →
      bitmapGet p.availableFrames (p.tables t j).frameAddress20Bits = .ok 1)
    (hdistinct : ∀ j < 1024, ∀ j' < 1024, (p.tables t j).present = true →
      (p.tables t j').present = true →
      (p.tables t j).frameAddress20Bits = (p.tables t j').frameAddress20Bits → j' = j) :
    ∃ r, forLoop (cleanPage i t) 1024 (true, p) = .ok r ∧
      r.2.availableFrames.size = p.availableFrames.size := by
  have hloop : ∃ r, forLoop (cleanPage i t) 1024 (true, p) = .ok r ∧
      TableCleaned i t 1024 p r.2 ∧ r.2.availableFrames.size = p.availableFrames.size := by
    refine forLoop_go (P := fun n (r : Bool × Paging) => TableCleaned i t n p r.2 ∧
      r.2.availableFrames.size = p.availableFrames.size) ⟨.refl i t p, rfl⟩ ?_
    rintro n hn ⟨b, q⟩ ⟨hc, hsize⟩
    have hsame : q.tables t n = p.tables t n := hc.kept n (.inl le_rfl)
    obtain ⟨⟨b', q'⟩, hrun, hsize'⟩ := cleanPage_go (p := q) (i := i) (t := t) (j := n) (b := b) (by
      rw [hsame]
      intro hpres
      obtain ⟨hguard, hhas⟩ := bitmapGet_eq_one_iff.mp (hused n hn hpres)
      refine bitmapGet_eq_one_iff.mpr ⟨?_, (hc.has _).mpr ⟨hhas, fun j hj hm => ?_⟩⟩
      · unfold bitmapGuard at hguard ⊢
        rwa [hsize]
      · have heq := hdistinct j (by omega) n hn hm.present hpres hm.frame
        omega)
    exact ⟨_, hrun, hc.step hrun, hsize'.trans hsize⟩
  obtain ⟨r, hrun, -, hsize⟩ := hloop
  exact ⟨r, hrun, hsize⟩

/-- The heap has at most `n` holes. -/
def HolesLe (n : ℕ) (s : Kernel) : Prop :=
  ∃ bs, HeapInv kernelHeapAddress bs s.heap s.mem ∧ (holes bs).length ≤ n

theorem kallocFree_go (uninit : Paging → Mem → ℤ) {l : Live}
    (h : LiveInv kernelHeapAddress bs live s.heap s.mem) (hl : l ∈ live)
    (hn : HolesLe n s) (hroom : n < heapNodes) :
    ∃ s', kallocFree uninit s l.ptr = .ok s' ∧ HolesLe (n + 1) s' := by
  obtain ⟨b, hb, hbu, hbp, -⟩ := h.held l hl
  obtain ⟨bs', hbs', hle⟩ := hn
  obtain rfl := h.heap.blocks_eq hbs'
  obtain ⟨s', bs', hrun, hf⟩ :=
    h.heap.free_ok (pagingEnv uninit) hb hbu (.inl (hle.trans_lt hroom))
  have hlow : ¬ l.ptr < kernelHeapAddress := by
    obtain ⟨h₁, -⟩ := h.heap.shape.mem_bounds hb
    unfold Block.user at hbp
    omega
  refine ⟨s', ?_, bs', hf.inv, hf.count_le.trans (Nat.succ_le_succ hle)⟩
  unfold kallocFree
  rw [if_neg hlow, ← hbp]
  exact hrun

theorem cleanTable_go (uninit : Paging → Mem → ℤ)
    (h : LiveInv kernelHeapAddress bs live s.heap s.mem)
    (ht : (s.sys.directories d).tables i ≠ 0 → tableAt ((s.sys.directories d).tables i) ∈ live)
    (hused : ∀ k, k / 1024 = i → ∀ e, s.sys.pageOf d k = some e →
      bitmapGet s.sys.availableFrames e.frameAddress20Bits = .ok 1)
    (hdistinct : ∀ k, k / 1024 = i → ∀ k', k' / 1024 = i → ∀ e e', s.sys.pageOf d k = some e →
      s.sys.pageOf d k' = some e' → e.frameAddress20Bits = e'.frameAddress20Bits → k' = k)
    (hn : HolesLe n s) (hroom : n < heapNodes) :
    ∃ s', cleanTable uninit d i s = .ok s' ∧ HolesLe (n + 1) s' ∧
      s'.sys.availableFrames.size = s.sys.availableFrames.size := by
  unfold cleanTable
  dsimp only
  by_cases h0 : (s.sys.directories d).tables i = 0
  · rw [if_neg (not_not.mpr h0)]
    obtain ⟨bs', hbs', hle⟩ := hn
    exact ⟨s, rfl, ⟨bs', hbs', Nat.le_succ_of_le hle⟩, rfl⟩
  · obtain ⟨t, htab⟩ : ∃ t, t = (s.sys.directories d).tables i := ⟨_, rfl⟩
    have hpage : ∀ j < 1024, (s.sys.tables t j).present = true →
        s.sys.pageOf d (i * 1024 + j) = some (s.sys.tables t j) := fun j hj hpres => by
      rw [Paging.pageOf_eq_some, show (i * 1024 + j) / 1024 = i by omega,
        show (i * 1024 + j) % 1024 = j by omega, ← htab]
      exact ⟨htab ▸ h0, hpres, rfl⟩
    obtain ⟨⟨b, p⟩, hloop, hsize⟩ := @cleanLoop_go s.sys t i
      (fun j hj hpres => hused _ (by omega) _ (hpage j hj hpres))
      (fun j hj j' hj' hpres hpres' heq => by
        have hsame := hdistinct _ (by omega) _ (by omega) _ _ (hpage j hj hpres)
          (hpage j' hj' hpres') heq
        omega)
    rw [if_pos h0, ← htab, hloop, ok_bind]
    dsimp only
    cases b with
    | false =>
      obtain ⟨bs', hbs', hle⟩ := hn
      exact ⟨_, rfl, ⟨bs', hbs', Nat.le_succ_of_le hle⟩, hsize⟩
    | true =>
      obtain ⟨s', hfree, hs'⟩ := @kallocFree_go _ _ { s with sys := p } _ uninit (tableAt t)
        h (htab ▸ ht h0) hn hroom
      have hfree' : kallocFree uninit { s with sys := p } t = .ok s' := hfree
      obtain ⟨-, -, hsys, -⟩ := kallocFree_ok (s := { s with sys := p }) (l := tableAt t) h
        (htab ▸ ht h0) hfree
      rw [if_pos rfl, hfree', ok_bind]
      exact ⟨_, rfl, hs', (congrArg (fun p => p.availableFrames.size) hsys).trans hsize⟩

/-- A directory that owns its space is cleaned. -/
theorem pagingClean_returns (uninit : Paging → Mem → ℤ)
    (h : LiveInv kernelHeapAddress bs live s.heap s.mem) (hown : OwnedSpace live d s.sys)
    (hn : HolesLe n s) (hroom : n + 768 ≤ heapNodes) :
    ∃ s', pagingCleanAllNonKernelPagesFromPageDirectory uninit s d = .ok s' ∧
      HolesLe (n + 768) s' := by
  have hloop : ∃ s', pagingCleanAllNonKernelPagesFromPageDirectory uninit s d = .ok s' ∧
      OwnedCleaned live d (256 + 768) s s' ∧ HolesLe (n + 768) s' ∧
      s'.sys.availableFrames.size = s.sys.availableFrames.size := by
    refine forLoop_go (P := fun i (s' : Kernel) => OwnedCleaned live d (256 + i) s s' ∧
      HolesLe (n + i) s' ∧ s'.sys.availableFrames.size = s.sys.availableFrames.size)
      ⟨.refl h, hn, rfl⟩ ?_
    rintro m hm s₁ ⟨hcleaned, hn₁, hsize₁⟩
    have hi : 256 + m < 1024 := by omega
    have hle : 256 ≤ 256 + m := Nat.le_add_right _ _
    obtain ⟨htable, hpages⟩ := hcleaned.next hown hi hle
    obtain ⟨bs₁, live₁, hlive₁, hmem₁⟩ := hcleaned.heap
    obtain ⟨s₂, hrun, hn₂, hsize₂⟩ := cleanTable_go uninit hlive₁
      (fun hne => htable ▸ OwnedCleaned.next_live hown hi hle hmem₁ (htable ▸ hne))
      (fun k hk e he => by
        rw [hpages k hk] at he
        obtain ⟨hguard, hhas⟩ := bitmapGet_eq_one_iff.mp (hown.used k (by omega) (by omega) e he)
        refine bitmapGet_eq_one_iff.mpr ⟨?_, (hcleaned.space.has _).mpr ⟨hhas, ?_⟩⟩
        · unfold bitmapGuard at hguard ⊢
          rwa [hsize₁]
        · -- a page before this one has another frame
          intro k' hk' hle' e' he' heq
          have hlt : k' < 1024 * 1024 := hk'.trans_le (Nat.mul_le_mul_right 1024 hi.le)
          have hsame := hown.distinct k (by omega) (by omega) k' hlt hle' e e' he he' heq.symm
          omega)
      (fun k hk k' hk' e e' he he' heq => by
        rw [hpages k hk] at he
        rw [hpages k' hk'] at he'
        exact hown.distinct k (by omega) (by omega) k' (by omega) (by omega) e e' he he' heq)
      hn₁ (by omega)
    exact ⟨s₂, hrun, hcleaned.step hown hi hle hrun, hn₂, hsize₂.trans hsize₁⟩
  obtain ⟨s', hrun, -, hs', -⟩ := hloop
  exact ⟨s', hrun, hs'⟩

/-- The frames of the pages of `d` above 1 GB are those of the bitmap, and its tables there are its
own. -/
structure Cleanable (p : Paging) (d : ℕ) : Prop where
  frames : ∀ k < 0x100000, 0x40000 ≤ k → ∀ e, p.pageOf d k = some e →
    e.frameAddress20Bits < availableFramesNum
  tables : ∀ i < 1024, 256 ≤ i → (p.directories d).tables i ≠ 0 →
    kernelHeapAddress ≤ (p.directories d).tables i

/-- A table in the heap is none of the kernel's. -/
theorem PagingInv.mem_of_heap (h : PagingInv D T p) (hd : d ∈ D) (hi : i < 1024)
    (hne : (p.directories d).tables i ≠ 0)
    (hle : kernelHeapAddress ≤ (p.directories d).tables i) : (p.directories d).tables i ∈ T := by
  refine (h.linked d hd i hi hne).resolve_right fun heq => ?_
  have hw := (h.window i hi (heq ▸ hne)).1
  rw [kernelPageTable_eq hi, ← heq] at hw
  unfold kernelHeapAddress at hle
  omega

theorem KernelInv.ownedSpace (h : KernelInv D T bs live s) (hd : d ∈ D)
    (hc : Cleanable s.sys d) : OwnedSpace live d s.sys := by
  have hT : ∀ i < 1024, 256 ≤ i → (s.sys.directories d).tables i ≠ 0 →
      (s.sys.directories d).tables i ∈ T := fun i hi hle hne =>
    h.pages.inv.mem_of_heap hd hi hne (hc.tables i hi hle hne)
  have hpage : ∀ k < 1024 * 1024, 256 * 1024 ≤ k → ∀ e, s.sys.pageOf d k = some e →
      (s.sys.directories d).tables (k / 1024) ∈ T ∧
      Maps s.sys ((s.sys.directories d).tables (k / 1024)) (k % 1024) e.frameAddress20Bits := by
    intro k hk hle e he
    obtain ⟨hne, hpres, rfl⟩ := Paging.pageOf_eq_some.mp he
    exact ⟨hT _ (by omega) (by omega) hne, hpres, rfl⟩
  refine ⟨h.pages.inv.ownTables hd, fun i hi hle hne => h.tables _ (hT i hi hle hne), ?_, ?_⟩
  · intro k hk hle e he
    obtain ⟨hmem, hm⟩ := hpage k hk hle e he
    have hlt := hc.frames k (by omega) (by omega) e he
    have hused := h.pages.inv.frames.used _ _ _ (.inl hmem) (by omega) hm hlt
    have hsize := h.pages.inv.frames.size
    unfold availableFramesNum physicalRamSize at hlt hsize
    exact bitmapGet_eq_one_iff.mpr ⟨bitmapGuard_of_lt (by omega) (by omega), hused⟩
  · intro k hk hle k' hk' hle' e e' he he' heq
    obtain ⟨hmem, hm⟩ := hpage k hk hle e he
    obtain ⟨hmem', hm'⟩ := hpage k' hk' hle' e' he'
    obtain ⟨htable, hentry⟩ := h.pages.inv.frames.distinct _ _ _ _ _ (.inl hmem') (.inl hmem)
      (by omega) (by omega) hm' (heq ▸ hm)
    have hblock := h.pages.inv.tables_inj hd (show k / 1024 < 1024 by omega) (by omega)
      (show k' / 1024 < 1024 by omega) (Paging.pageOf_eq_some.mp he).1 htable
    omega

theorem pagingClean_go (uninit : Paging → Mem → ℤ) (h : KernelInv D T bs live s) (hd : d ∈ D)
    (hc : Cleanable s.sys d) (hn : HolesLe n s) (hroom : n + 768 ≤ heapNodes) :
    ∃ s', pagingCleanAllNonKernelPagesFromPageDirectory uninit s d = .ok s' ∧ HolesLe (n + 768) s' :=
  pagingClean_returns uninit h.heap (h.ownedSpace hd hc) hn hroom

theorem BumpHeap.holesLe (h : BumpHeap kernelHeapAddress brk s) : HolesLe 1 s := by
  rcases h with ⟨hinv, hxs, -⟩ | ⟨hinv, hxs, -⟩
  · refine ⟨_, hinv, ?_⟩
    rw [holes_eq_nil hxs]
    exact Nat.zero_le 1
  · refine ⟨_, hinv, ?_⟩
    rw [holes_bump hxs rfl]
    exact le_rfl

end

end RawOS
