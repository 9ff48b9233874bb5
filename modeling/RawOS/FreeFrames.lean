import RawOS.KernelInv
import RawOS.Alloc.HeapExpand

/-!
# Free frames

Where enough frames are clear and the pages after the heap are not there, the calls that grow the
heap and the address spaces succeed. `Spare` says so of the pages, `KernelReady` of the kernel.
-/

namespace RawOS

/-! ## Frames -/

section

variable {D T : Set ℕ} {b b' : Bitmap} {p p' : Paging} {n f t u i : ℕ} {m m' : Mem}

theorem allocFrame_go (hsize : p.availableFrames.size = availableFramesNum / 8)
    (hroom : 0 < p.availableFrames.room) :
    ∃ f b, Claimed p.availableFrames b f ∧
      allocFrame p = .ok (f, { p with availableFrames := b }) := by
  obtain ⟨⟨f, p'⟩, hrun, b, hb, hp'⟩ := (allocFrame_spec hsize).exists_ok fun e he => by
    have hfull := Bitmap.room_eq_zero he.2
    omega
  exact ⟨f, b, hb, by rw [hrun, ← hp']⟩

theorem mapPage_go (hsize : p.availableFrames.size = availableFramesNum / 8)
    (hroom : 0 < p.availableFrames.room) (hnew : (p.tables t (n % 1024)).present = false) :
    ∃ f b, Claimed p.availableFrames b f ∧
      mapPage t n u p = .ok (f, { p with availableFrames := b }.setEntry t (n % 1024)
        (newPageEntry u f (p.tables t (n % 1024)))) := by
  obtain ⟨⟨f, p'⟩, hrun, -, b, hb, hp'⟩ := (mapPage_spec hsize).exists_ok fun e he => by
    rcases he with ⟨-, hpres⟩ | ⟨-, hfull⟩
    · rw [hnew] at hpres
      exact Bool.noConfusion hpres
    · omega
  exact ⟨f, b, hb, by rw [hrun, ← hp']⟩

/-! ## Pages of the kernel -/

/-- The only new pages are `n` and, for new tables, those in the window. -/
structure PageAdded (n : ℕ) (p p' : Paging) : Prop where
  page : ∀ k < 0x100000, ∀ f, KernelPage p' k f → KernelPage p k f ∨ k = n ∨
    ∃ i < 1024, k = kernelPageTable i / 4096 ∧ p.kernel.tables i = 0 ∧ p'.kernel.tables i ≠ 0
  tables : ∀ i, p'.kernel.tables i = 0 → p.kernel.tables i = 0
  room : p.availableFrames.room ≤ p'.availableFrames.room + 2

/-- A page of the kernel that is not there can be created. -/
theorem pagingCreateKernelPage_go (h : PagingInv D T p) (hn : n < 0x100000) (hnew : NoPage p n)
    (hroom : 2 ≤ p.availableFrames.room)
    (htable : p.kernel.tables (n / 1024) = 0 →
      NoPage p (kernelPageTable (n / 1024) / 4096) ∧ RingAssigned p) :
    ∃ f p' m', pagingCreateKernelPageWithAnyFrame n p m = .ok (f, p', m') ∧ PageAdded n p p' := by
  have hneeded : framesNeeded p n ≤ 2 := by
    unfold framesNeeded
    split_ifs <;> decide
  obtain ⟨⟨f, p', m'⟩, hrun, hc⟩ :=
    (pagingCreateKernelPage_spec h.kernelTables hn h.frames.size).exists_ok fun e he => by
      rcases he with ⟨-, hpage | ⟨hk, hpage⟩⟩ | ⟨-, hfull⟩ | ⟨-, hk, hring⟩
      · exact hpage hnew
      · exact hpage (htable hk).1
      · omega
      · exact hring (htable hk).2
  have hused : p.availableFrames.room = p'.availableFrames.room + framesNeeded p n := hc.room
  refine ⟨f, p', m', hrun, fun k hkn g hg => ?_, fun i hi => ?_, by omega⟩
  · refine (hc.pages k hkn g hg).imp_right (Or.imp_right fun ⟨hk, heq⟩ => ?_)
    refine ⟨n / 1024, by omega, heq, hk, ?_⟩
    rw [hc.table, kernelPageTable_eq (by omega)]
    omega
  · by_cases hi' : i = n / 1024
    · rw [hi', hc.table, kernelPageTable_eq (by omega)] at hi
      omega
    · exact hc.stays i hi' ▸ hi

theorem pagingEnv_createPage {uninit : Paging → Mem → ℤ}
    (hrun : pagingCreateKernelPageWithAnyFrame n p m = .ok (f, p', m')) :
    (pagingEnv uninit).createPage n p m = .ok (p', m') := by
  unfold pagingEnv
  dsimp only
  rw [hrun]
  rfl

/-! ## The pages after the heap -/

/-- The pages from `e` up to `limit` are not there, and more frames are clear than they need, by
`reserve`. A heap that ends at `e` can grow up to `top`. -/
structure Spare (top limit reserve e : ℕ) (p : Paging) : Prop where
  clear : ∀ n, e / 4096 ≤ n → n < limit / 4096 → NoPage p n
  window : ∀ i < 1024, p.kernel.tables i = 0 → NoPage p (kernelPageTable i / 4096)
  ring : top ≤ 0x800000 ∨ RingAssigned p
  room : reserve + (limit - e) / 4096 * 2 ≤ p.availableFrames.room

variable {top limit reserve reserve' e : ℕ}

/-- The kernel has no new page, and no table less. -/
theorem Spare.of_le {k : ℕ} (h : Spare top limit reserve e p)
    (hpage : ∀ n < 0x100000, ∀ f, KernelPage p' n f → KernelPage p n f)
    (htables : ∀ i < 1024, p'.kernel.tables i = 0 → p.kernel.tables i = 0)
    (hring : p'.processes = p.processes)
    (hroom : p.availableFrames.room ≤ p'.availableFrames.room + k) (hlimit : limit ≤ 0x100000000)
    (hreserve : reserve' + k ≤ reserve) : Spare top limit reserve' e p' where
  clear := fun n he hl f hf => h.clear n he hl f (hpage n (by omega) f hf)
  window := fun i hi hnone f hf => by
    have haddr := kernelPageTable_eq hi
    exact h.window i hi (htables i hi hnone) f (hpage _ (by omega) f hf)
  ring := h.ring.imp_right fun hr => by
    unfold RingAssigned
    rw [hring]
    exact hr
  room := by
    have := h.room
    omega

theorem Spare.create (h : Spare top limit reserve e p) (hinv : PagingInv D T p) (he : e % 4096 = 0)
    (hlow : kernelHeapAddress ≤ e) (hlt : e < top) (htop : top ≤ limit)
    (hlimit : limit ≤ 0x100000000) (hmod : limit % 4096 = 0) :
    ∃ f p' m', pagingCreateKernelPageWithAnyFrame (e / 4096) p m = .ok (f, p', m') ∧
      Spare top limit reserve (e + 4096) p' := by
  have hroom := h.room
  obtain ⟨f, p', m', hrun, ha⟩ :=
    pagingCreateKernelPage_go (m := m) hinv (show e / 4096 < 0x100000 by omega)
    (h.clear _ le_rfl (by omega)) (by omega) fun hnone => by
      refine ⟨h.window _ (by omega) hnone, h.ring.resolve_left fun hle => ?_⟩
      exact hinv.low _ (show e / 4096 / 1024 < 2 by omega) hnone
  have hg := (pagingCreateKernelPage_ok hinv (by omega) hrun).grown
  unfold kernelHeapAddress at hlow
  refine ⟨f, p', m', hrun, fun n hn hl g hg => ?_, fun i hi hnone g hg => ?_, ?_, ?_⟩
  · rcases ha.page n (by omega) g hg with hold | rfl | ⟨i, hi, rfl, -⟩
    · exact h.clear n (by omega) hl g hold
    · omega
    · rw [kernelPageTable_eq hi] at hn
      omega
  · have haddr := kernelPageTable_eq hi
    rcases ha.page _ (by omega) g hg with hold | heq | ⟨i', hi', heq, -, hne⟩
    · exact h.window i hi (ha.tables i hnone) g hold
    · omega
    · rw [kernelPageTable_eq hi, kernelPageTable_eq hi'] at heq
      obtain rfl : i' = i := by omega
      exact hne hnone
  · refine h.ring.imp_right fun hr => ?_
    unfold RingAssigned
    rw [hg.processes]
    exact hr
  · have := ha.room
    omega

/-- What the heap asks of the pages, and that they can be created up to `top`. -/
def SparePages (D T : Set ℕ) (top limit reserve e₀ : ℕ) (p₀ : Paging) (e : ℕ) (p : Paging) (m : Mem) :
    Prop :=
  HeapPages D T e₀ p₀ e p m ∧ kernelHeapAddress ≤ e ∧ (e ≤ top → Spare top limit reserve e p)

theorem sparePages_pagesOk (uninit : Paging → Mem → ℤ) (D T : Set ℕ) (e₀ : ℕ) (p₀ : Paging)
    (htop : top ≤ limit) (hlimit : limit ≤ 0x100000000) (hmod : limit % 4096 = 0) :
    PagesOk (pagingEnv uninit) kernelHeapAddress ∅ (SparePages D T top limit reserve e₀ p₀) where
  zero := fun h => (pagingEnv_pagesOk uninit D T e₀ p₀).zero h.1
  step := by
    rintro e p m p' m' ⟨hpages, hlow, hspare⟩ he hbase hlt hrun
    obtain ⟨hpages', hframe⟩ := (pagingEnv_pagesOk uninit D T e₀ p₀).step hpages he hbase hlt hrun
    refine ⟨⟨hpages', by omega, fun hle => ?_⟩, hframe⟩
    obtain ⟨f, p₁, m₁, hrun₁, hspare₁⟩ := (hspare (by omega)).create hpages.pages.inv he hlow (by omega)
      htop hlimit hmod (m := m)
    obtain ⟨⟨f', q, m₂⟩, hcreate, heq⟩ := bind_eq_ok.mp hrun
    rw [hrun₁] at hcreate
    cases hcreate
    cases heq
    exact hspare₁
  stable := fun ⟨h, hrest⟩ _ => ⟨⟨h.pages, h.le, h.grown, h.absent, h.same⟩, hrest⟩

theorem sparePages_go (uninit : Paging → Mem → ℤ) {e₀ : ℕ} {p₀ : Paging} {m : Mem}
    (htop : top ≤ limit) (hlimit : limit ≤ 0x100000000) (hmod : limit % 4096 = 0)
    (h : SparePages D T top limit reserve e₀ p₀ e p m) (he : e % 4096 = 0) (hlt : e < top) :
    ∃ r, (pagingEnv uninit).createPage (e / 4096) p m = .ok r := by
  obtain ⟨hpages, hlow, hspare⟩ := h
  obtain ⟨f, p', m', hrun, -⟩ := (hspare hlt.le).create hpages.pages.inv he hlow hlt htop hlimit hmod
    (m := m)
  refine ⟨(p', m'), ?_⟩
  exact pagingEnv_createPage hrun

end

/-! ## The kernel -/

/-- Nothing was released: the heap is used up to `brk`, and can grow up to `top`. -/
structure KernelReady (top limit reserve brk : ℕ) (s : Kernel) : Prop where
  bump : BumpHeap kernelHeapAddress brk s
  first : kernelHeapAddress + 65536 < brk
  spare : Spare top limit reserve (heapEnd s) s.sys
  le : heapEnd s ≤ top
  top_mod : top % 4096 = 0
  top_le : top ≤ limit
  limit_le : limit ≤ kernelStackFirstPage * 4096
  limit_mod : limit % 4096 = 0

section

variable {D T : Set ℕ} {bs : List Block} {live : List Live}
  {s s' : Kernel} {p' : Paging} {top limit reserve reserve' brk size alignment ptr d n u : ℕ}

theorem bumpPlace_zero (h : brk + 12 + size + 8 ≤ 4294967296) : BumpPlace brk size 0 (brk + 12) :=
  ⟨rfl, le_rfl, .inl rfl, h⟩

theorem getAlignedAddress_page {a : ℕ} (h : roundUp a < 4294967296) :
    getAlignedAddress a 0x1000 = roundUp a := by
  have hle := le_roundUp a
  have heq := getAlignedAddress_eq (a := a) (i := 12) (by omega) (by omega)
  rw [show (2 : ℕ) ^ 12 = 0x1000 from rfl] at heq
  rw [heq]
  unfold roundUp at h ⊢
  split_ifs with hmod
  · omega
  · rw [u32_of_lt (by omega)]
    omega

theorem bumpPlace_page (h : roundUp (brk + 12) + size + 8 ≤ 4294967296) :
    BumpPlace brk size 0x1000 (roundUp (brk + 12)) :=
  ⟨getAlignedAddress_page (by omega), le_roundUp _, validAlignment_page, h⟩

namespace KernelReady

theorem limit_lt (h : KernelReady top limit reserve brk s) : limit < 0x100000000 := by
  have hle := h.limit_le
  unfold kernelStackFirstPage kernelStackAddress kernelStackReservedPages at hle
  omega

/-- The pages change, but not those of the kernel. -/
theorem setSys {k : ℕ} (h : KernelReady top limit reserve brk s)
    (hpage : ∀ n < 0x100000, ∀ f, KernelPage p' n f → KernelPage s.sys n f)
    (htables : ∀ i < 1024, p'.kernel.tables i = 0 → s.sys.kernel.tables i = 0)
    (hring : p'.processes = s.sys.processes)
    (hroom : s.sys.availableFrames.room ≤ p'.availableFrames.room + k)
    (hreserve : reserve' + k ≤ reserve) :
    KernelReady top limit reserve' brk { s with sys := p' } where
  bump := by
    cases h.bump with
    | full hinv hxs hend => exact .full hinv hxs hend
    | hole hinv hxs hend => exact .hole hinv hxs hend
  first := h.first
  spare := h.spare.of_le hpage htables hring hroom h.limit_lt.le hreserve
  le := h.le
  top_mod := h.top_mod
  top_le := h.top_le
  limit_le := h.limit_le
  limit_mod := h.limit_mod

/-- With every process assigned a directory the heap may pass 8 MB. -/
theorem setTop {top' : ℕ} (h : KernelReady top limit reserve brk s) (hring : RingAssigned s.sys)
    (hle : heapEnd s ≤ top') (hmod : top' % 4096 = 0) (htop : top' ≤ limit) :
    KernelReady top' limit reserve brk s :=
  { h with
    spare := { h.spare with ring := .inr hring }
    le := hle
    top_mod := hmod
    top_le := htop }

/-- With the heap below 8 MB any processes may be in the ring. -/
theorem setProcesses (h : KernelReady top limit reserve brk s)
    (htop : top ≤ 0x800000) (processes : List Process) :
    KernelReady top limit reserve brk { s with sys := { s.sys with processes := processes } } where
  bump := by
    cases h.bump with
    | full hinv hxs hend => exact .full hinv hxs hend
    | hole hinv hxs hend => exact .hole hinv hxs hend
  first := h.first
  spare :=
    { clear := fun n he hl f hf => h.spare.clear n he hl f (hf.congr rfl rfl)
      window := fun i hi hnone f hf => h.spare.window i hi hnone f (hf.congr rfl rfl)
      ring := .inl htop
      room := h.spare.room }
  le := h.le
  top_mod := h.top_mod
  top_le := h.top_le
  limit_le := h.limit_le
  limit_mod := h.limit_mod

theorem mono (h : KernelReady top limit reserve brk s) (hreserve : reserve' ≤ reserve) :
    KernelReady top limit reserve' brk s :=
  { h with spare := { h.spare with room := le_trans (by omega) h.spare.room } }

/-- A request that ends below the limit succeeds. -/
theorem alloc (uninit : Paging → Mem → ℤ) (h : KernelReady top limit reserve brk s)
    (hinv : KernelInv D T bs live s)
    (hp : BumpPlace brk size alignment ptr) (hfits : ptr + size + 8 ≤ top) :
    ∃ s', kallocHeapAlloc (pagingEnv uninit) s size alignment = .ok (ptr, s') ∧
      KernelReady top limit reserve (bumpEnd ptr size (heapEnd s')) s' ∧
      heapEnd s' = max (heapEnd s) (roundUp (ptr + size + 8)) := by
  have hlt := h.limit_lt
  have hmod := h.limit_mod
  have htop := h.top_le
  have htmod := h.top_mod
  have hle := h.le
  have hplace := hp.le
  have hfirst := h.first
  have hbase : kernelHeapAddress ≤ heapEnd s := by
    have h0 := h.bump.le
    unfold heapEnd
    omega
  obtain ⟨s', hrun, ha⟩ := h.bump.alloc
    (sparePages_pagesOk uninit D T (heapEnd s) s.sys htop hlt.le hmod)
    (fun hI he hlt' => sparePages_go uninit htop hlt.le hmod hI he hlt') h.first
    ⟨hinv.pages.heapPages _, hbase, fun _ => h.spare⟩ hp hfits
  have hend : heapEnd s' = max (heapEnd s) (roundUp (ptr + size + 8)) := ha.heapEnd
  have hround : roundUp (ptr + size + 8) ≤ top := by
    unfold roundUp
    omega
  have hle' : heapEnd s' ≤ top := by
    rw [hend]
    exact max_le hle hround
  refine ⟨s', hrun, ⟨ha.bump, ?_, ha.pages.2.2 hle', hle', htmod, htop, h.limit_le, hmod⟩,
    hend⟩
  have hptr := (le_roundUp (ptr + size + 8)).trans (le_max_right (heapEnd s) _)
  rw [← hend] at hptr
  unfold bumpEnd
  split_ifs <;> omega

end KernelReady

end

end RawOS
