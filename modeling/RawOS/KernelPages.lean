import RawOS.KernelTables
import RawOS.Alloc.HeapAlloc

/-!
# Pages of the kernel

`pagingCreateKernelPage_spec`: the kernel gets the page, and if its table is missing the table, its
page in the window, and the links in the directories of the processes. `pagingEnv_pagesOk` is what
the heap asks of it.
-/

namespace RawOS

/-- Pages from `lo` to `hi` were created for the kernel: what it had it keeps, the tables of the
heap stay, and a directory that changed has a new table of the kernel. -/
structure KernelGrown (lo hi : ℕ) (p p' : Paging) : Prop where
  kernel : p'.kernelPageDirectory = p.kernelPageDirectory
  processes : p'.processes = p.processes
  frames : p'.frames = p.frames
  has : ∀ k, p.availableFrames.Has k → p'.availableFrames.Has k
  pages : ∀ n < 0x100000, ∀ f, KernelPage p n f → KernelPage p' n f
  tables : ∀ t, p'.tables t = p.tables t ∨
    ∃ i < 1024, t = kernelPageTable i ∧ (i < 2 ∨ lo / 1024 ≤ i ∧ i * 1024 < hi)
  directories : ∀ d i, (p'.directories d).tables i = (p.directories d).tables i ∧
      (p'.directories d).tablesX86Representation i = (p.directories d).tablesX86Representation i ∨
    lo / 1024 ≤ i ∧ i * 1024 < hi ∧ Active p d ∧ p.kernel.tables i = 0 ∧
      p'.kernel.tables i = kernelPageTable i ∧ kernelPageTable i ≠ 0 ∧ LinksKernel p' d i
  linked : ∀ i, p.kernel.tables i = 0 → p'.kernel.tables i ≠ 0 → ∀ q ∈ p.processes,
    ∃ d, q.pageDirectory = some d ∧ LinksKernel p' d i

section

variable {D T : Set ℕ} {p p' p'' : Paging} {lo mid hi n f t u i : ℕ} {m m' : Mem}

theorem KernelGrown.refl (p : Paging) (lo hi : ℕ) : KernelGrown lo hi p p where
  kernel := rfl
  processes := rfl
  frames := rfl
  has := fun _ h => h
  pages := fun _ _ _ h => h
  tables := fun _ => .inl rfl
  directories := fun _ _ => .inl ⟨rfl, rfl⟩
  linked := fun _ h h' => absurd h h'

theorem KernelGrown.mono {lo' hi' : ℕ} (h : KernelGrown lo hi p p') (hlo : lo' / 1024 ≤ lo / 1024)
    (hhi : hi ≤ hi') : KernelGrown lo' hi' p p' where
  kernel := h.kernel
  processes := h.processes
  frames := h.frames
  has := h.has
  pages := h.pages
  tables := fun t => (h.tables t).imp_right fun ⟨i, hi, ht, hb⟩ => ⟨i, hi, ht, by omega⟩
  directories := fun d i => (h.directories d i).imp_right fun ⟨hl, hh, hr⟩ =>
    ⟨by omega, by omega, hr⟩
  linked := h.linked

theorem KernelGrown.active (h : KernelGrown lo hi p p') {d : ℕ} : Active p' d ↔ Active p d := by
  unfold Active
  rw [h.kernel, h.processes]

/-- A table that the kernel has stays where it is. -/
theorem KernelGrown.kept (h : KernelGrown lo hi p p') (hne : p.kernel.tables i ≠ 0) (d : ℕ) :
    (p'.directories d).tables i = (p.directories d).tables i ∧
    (p'.directories d).tablesX86Representation i = (p.directories d).tablesX86Representation i := by
  rcases h.directories d i with h | ⟨-, -, -, hnone, -⟩
  · exact h
  · exact absurd hnone hne

theorem KernelGrown.kernel_tables (h : KernelGrown lo hi p p') (hne : p.kernel.tables i ≠ 0) :
    p'.kernel.tables i = p.kernel.tables i := by
  unfold Paging.kernel
  rw [h.kernel]
  exact (h.kept hne _).1

theorem KernelGrown.kernelKept (h : KernelGrown lo hi p p') : KernelKept p p' := fun n hn =>
  h.pages n (hn.trans_lt (by decide))

theorem KernelGrown.linksKernel {d : ℕ} (h : KernelGrown lo hi p p') (hd : LinksKernel p d i)
    (hne : p.kernel.tables i ≠ 0) : LinksKernel p' d i := by
  obtain ⟨h₁, h₂⟩ := h.kept hne d
  obtain ⟨h₃, h₄⟩ := h.kept hne p.kernelPageDirectory
  constructor
  · unfold Paging.kernel
    rw [h.kernel, h₁, h₃]
    exact hd.tables
  · unfold Paging.kernel
    rw [h.kernel, h₂, h₄]
    exact hd.x86

theorem KernelGrown.trans (h : KernelGrown lo hi p p') (h' : KernelGrown lo hi p' p'') :
    KernelGrown lo hi p p'' where
  kernel := h'.kernel.trans h.kernel
  processes := h'.processes.trans h.processes
  frames := h'.frames.trans h.frames
  has := fun k hk => h'.has k (h.has k hk)
  pages := fun n hn f hf => h'.pages n hn f (h.pages n hn f hf)
  tables := by
    intro t
    rcases h'.tables t with h₂ | hb
    · rcases h.tables t with h₁ | hb
      · exact .inl (h₂.trans h₁)
      · exact .inr hb
    · exact .inr hb
  directories := by
    intro d i
    rcases h.directories d i with ⟨h₁, h₁'⟩ | ⟨hl, hh, ha, hnone, hw, hne, hd⟩
    · rcases h'.directories d i with ⟨h₂, h₂'⟩ | ⟨hl, hh, ha, hnone, hw, hne, hd⟩
      · exact .inl ⟨h₂.trans h₁, h₂'.trans h₁'⟩
      · refine .inr ⟨hl, hh, h.active.mp ha, ?_, hw, hne, hd⟩
        rcases h.directories p.kernelPageDirectory i with ⟨h₃, -⟩ | ⟨-, -, -, h₃, -⟩
        · unfold Paging.kernel at hnone
          rw [h.kernel, h₃] at hnone
          exact hnone
        · exact h₃
    · -- the table is there when the second part begins
      have hk := h'.kernel_tables (hw ▸ hne)
      exact .inr ⟨hl, hh, ha, hnone, hk.trans hw, hne, h'.linksKernel hd (hw ▸ hne)⟩
  linked := by
    intro i hnone hne q hq
    by_cases hmid : p'.kernel.tables i = 0
    · exact h'.linked i hmid hne q (h.processes ▸ hq)
    · obtain ⟨d, hd, hl⟩ := h.linked i hnone hmid q hq
      exact ⟨d, hd, h'.linksKernel hl hmid⟩

theorem PagingInv.kernelTables (h : PagingInv D T p) : KernelTables p :=
  ⟨h.low, fun i hi hne => (h.window i hi hne).1⟩

/-- A page of the kernel whose table exists. -/
theorem PagingInv.mapKernelPage {b : Bitmap} (h : PagingInv D T p) (hn : n < 0x100000)
    (hk : p.kernel.tables (n / 1024) ≠ 0) (hentry : EntryAdded n f b p p')
    (hrange : n / 1024 < 2 ∨ lo ≤ n ∧ n < hi) :
    PagingInv D T p' ∧ KernelPage p' n f ∧ KernelGrown lo hi p p' := by
  have hmapped := hentry.pageGained h.kernelTables hn hk
  obtain ⟨hb, hnew, hp'⟩ := hentry
  have hbits : p'.availableFrames = b := by rw [hp']; rfl
  have hw := (h.window _ (by omega) hk).1
  refine ⟨?_, (hmapped.pages n hn f).mpr (.inr ⟨rfl, rfl⟩),
    ⟨?_, ?_, ?_, ?_, fun k hkn g hg => (hmapped.pages k hkn g).mpr (.inl hg), ?_, ?_, ?_⟩⟩
  · rw [hp']
    exact h.mapEntry hb (by omega) hnew (newPageEntry_frame hb.lt _)
  · rw [hp']
    rfl
  · rw [hp']
    rfl
  · rw [hp']
    rfl
  · intro k hk'
    rw [hbits, hb.has]
    exact .inr hk'
  · intro t
    by_cases ht : t = p.kernel.tables (n / 1024)
    · exact .inr ⟨n / 1024, by omega, ht.trans hw, by omega⟩
    · refine .inl ?_
      rw [hp']
      exact Function.update_of_ne ht ..
  · intro d i
    rw [hp']
    exact .inl ⟨rfl, rfl⟩
  · intro i hnone hne
    exact absurd (hmapped.kernel ▸ hnone) hne

/-- A new table of the kernel. -/
structure TableCreated (D T : Set ℕ) (i : ℕ) (p p' : Paging) : Prop where
  inv : PagingInv D T p'
  table : p'.kernel.tables i = kernelPageTable i
  zero : p'.tables (kernelPageTable i) = PageTable.zero
  grown : KernelGrown (i * 1024) (i * 1024 + 1) p p'

/-- A table is created in its place in the window, and all active directories have it. -/
theorem EntryAdded.tableCreated {b : Bitmap} {q : Paging}
    (h : EntryAdded (kernelPageTable i / 4096) f b p q) (hp : PagingInv D T p) (hi : i < 1024)
    (hnone : p.kernel.tables i = 0)
    (hlink : linkKernelTable (kernelPageTable i) i (u32 (f * 0x1000) ||| 0x7) p.processes
      (q.placeTable i (u32 (f * 0x1000) ||| 0x7)) = .ok p') : TableCreated D T i p p' := by
  have hadded := h.tableAdded hp.kernelTables hi hnone hlink
  obtain ⟨x, hx⟩ : ∃ x, x = u32 (f * 0x1000) ||| 0x7 := ⟨_, rfl⟩
  rw [← hx] at hlink
  have haddr := kernelPageTable_eq hi
  have hne : kernelPageTable i ≠ 0 := by omega
  have hlow := window_table hi
  have hrange : kernelPageTable i / 4096 / 1024 < 2 ∨
      i * 1024 ≤ kernelPageTable i / 4096 ∧ kernelPageTable i / 4096 < i * 1024 + 1 := .inl hlow
  have hkernel : q.kernel = p.kernel := by rw [h.eq]; rfl
  have hdir : q.directories = p.directories := by rw [h.eq]; rfl
  -- the page in the window, then the table, then the links
  obtain ⟨hinv₂, hpage, hgrown⟩ := hp.mapKernelPage (by omega) (hp.low _ hlow) h hrange
  have hring : q.processes = p.processes := hgrown.processes
  have hinv₃ := hinv₂.addKernelTable hi (hkernel ▸ hnone) hpage
  rw [← hx] at hinv₃
  have hinv := PagingInv.linkKernelTable hi hne hinv₃
    (fun r hr d hd => hinv₃.processes r (hring ▸ hr) d hd) Paging.setDirectoryEntry_tables_self
    Paging.setDirectoryEntry_x86_self hlink
  have hl : EntryLinked i (kernelPageTable i) x q p' := linkKernelTable_linked (hring ▸ hlink)
  obtain ⟨hall, hp'⟩ := linkKernelTable_eq hlink
  have hother : ∀ t, t ≠ kernelPageTable i → p'.tables t = q.tables t := fun t ht => by
    rw [hp']
    exact Paging.zeroTable_of_ne ht
  refine ⟨hinv, hadded.table, hadded.zero, hadded.kernel, hadded.processes, ?_, ?_,
    fun k hk g hg => (hadded.pages k hk g).mpr (.inl hg), ?_, ?_, ?_⟩
  · rw [hp']
    exact hgrown.frames
  · rw [hp']
    exact hgrown.has
  · intro t
    by_cases ht : t = kernelPageTable i
    · exact .inr ⟨i, hi, ht, .inr ⟨by omega, by omega⟩⟩
    · rw [hother t ht]
      exact hgrown.tables t
  · intro d i'
    rw [← hdir]
    by_cases hii : i' = i
    · subst hii
      by_cases hd : Active q d
      · exact .inr ⟨by omega, by omega, hgrown.active.mp hd, hnone, hl.kernelEntry.1, hne,
          hl.linksKernel hd⟩
      · rw [hl.same d hd]
        exact .inl ⟨rfl, rfl⟩
    · exact .inl (hl.stays hii)
  · intro i' hnone' hne' r hr
    obtain ⟨d, hd⟩ := Option.ne_none_iff_exists'.mp (hall r hr)
    by_cases hii : i' = i
    · subst hii
      exact ⟨d, hd, hl.linksKernel (hgrown.active.mpr (.inr (List.mem_map.mpr ⟨r, hr, hd⟩)))⟩
    · rw [hadded.stays i' hii] at hne'
      exact absurd hnone' hne'

theorem createKernelTable_ok {fuel : ℕ} (h : PagingInv D T p) (hi : i < 1024)
    (hnone : p.kernel.tables i = 0)
    (hrun : createKernelTable (pagingCreateKernelPageNested (fuel + 1)) i p m = .ok (p', m')) :
    TableCreated D T i p p' ∧ ∀ x, kernelHeapAddress ≤ x → m' x = m x := by
  obtain ⟨f, b, q, hentry, hlink, hm⟩ :=
    (createKernelTable_spec h.kernelTables hi hnone h.frames.size).of_ok hrun
  refine ⟨hentry.tableCreated h hi hnone hlink, fun x hx => ?_⟩
  dsimp only at hm
  rw [hm]
  refine store8_of_ne ?_
  have haddr := kernelPageTable_eq hi
  unfold kernelHeapAddress at hx
  omega

/-- What creating the page `n` of the kernel does. -/
structure KernelPageCreated (D T : Set ℕ) (n : ℕ) (p : Paging) (m : Mem) (f : ℕ) (p' : Paging)
    (m' : Mem) : Prop where
  inv : PagingInv D T p'
  page : KernelPage p' n f
  grown : KernelGrown n (n + 1) p p'
  fresh : ∀ g, ¬ KernelPage p n g
  mem : ∀ x, kernelHeapAddress ≤ x → x ≠ n * 4096 → m' x = m x

theorem pagingCreateKernelPage_ok (h : PagingInv D T p) (hn : n < 0x100000)
    (hrun : pagingCreateKernelPageWithAnyFrame n p m = .ok (f, p', m')) :
    KernelPageCreated D T n p m f p' m' := by
  unfold pagingCreateKernelPageWithAnyFrame tableDepth at hrun
  by_cases hk : p.kernel.tables (n / 1024) = 0
  · unfold pagingCreateKernelPageNested at hrun
    rw [if_pos hk] at hrun
    obtain ⟨⟨p₁, m₁⟩, htable, hrun⟩ := bind_eq_ok.mp hrun
    obtain ⟨⟨f', p₂⟩, hmap, hrun⟩ := bind_eq_ok.mp hrun
    cases hrun
    obtain ⟨hc, hm⟩ := createKernelTable_ok h (by omega) hk htable
    have hgrown : KernelGrown n (n + 1) p p₁ := hc.grown.mono (by omega) (by omega)
    have hk₁ : p₁.kernel.tables (n / 1024) ≠ 0 := by
      rw [hc.table, kernelPageTable_eq (by omega)]
      omega
    obtain ⟨b, hentry⟩ := (mapKernelPage_spec hk₁ hc.inv.frames.size).of_ok hmap
    obtain ⟨hinv, hpage, hgrown'⟩ := hc.inv.mapKernelPage hn hk₁ hentry
      (.inr ⟨le_rfl, Nat.lt_succ_self n⟩ : n / 1024 < 2 ∨ n ≤ n ∧ n < n + 1)
    refine ⟨hinv, hpage, hgrown.trans hgrown', fun g hg => hg.table hk, fun x hx hxn => ?_⟩
    rw [store8_of_ne hxn, hm x hx]
  · obtain ⟨hmap, hm⟩ := pagingCreateKernelPageNested_mapped hk hrun
    obtain ⟨b, hentry⟩ := (mapKernelPage_spec hk h.frames.size).of_ok hmap
    obtain ⟨hinv, hpage, hgrown⟩ := h.mapKernelPage hn hk hentry
      (.inr ⟨le_rfl, Nat.lt_succ_self n⟩ : n / 1024 < 2 ∨ n ≤ n ∧ n < n + 1)
    refine ⟨hinv, hpage, hgrown, fun g hg => ?_, fun x _ hxn => ?_⟩
    · have hpres := hg.maps.present
      rw [hentry.absent] at hpres
      exact Bool.noConfusion hpres
    · rw [hm]
      exact store8_of_ne hxn

/-! ## The pages of the heap -/

/-- The pages are in order, and the heap has its pages up to `e`, below the stack of the kernel. -/
structure PagesAt (D T : Set ℕ) (e : ℕ) (p : Paging) : Prop where
  inv : PagingInv D T p
  mapped : ∀ n, kernelHeapAddress / 4096 ≤ n → n < e / 4096 → ∃ f, KernelPage p n f
  le : e ≤ kernelStackFirstPage * 4096

theorem PagesAt.of_grown {e : ℕ} (h : PagesAt D T e p) (hinv : PagingInv D T p')
    (hg : KernelGrown lo hi p p') : PagesAt D T e p' := by
  refine ⟨hinv, fun n hn he => ?_, h.le⟩
  obtain ⟨f, hf⟩ := h.mapped n hn he
  have hle := h.le
  unfold kernelStackFirstPage kernelStackAddress kernelStackReservedPages at hle
  exact ⟨f, hg.pages n (by omega) f hf⟩

/-- What the heap asks of the pages when it ends at `e`, where it ended at `e₀` with the pages
`p₀`. -/
structure HeapPages (D T : Set ℕ) (e₀ : ℕ) (p₀ : Paging) (e : ℕ) (p : Paging) (m : Mem) : Prop where
  pages : PagesAt D T e p
  le : e₀ ≤ e
  grown : KernelGrown (e₀ / 4096) (e / 4096) p₀ p
  absent : ∀ n, e₀ / 4096 ≤ n → n < e / 4096 → ∀ f, ¬ KernelPage p₀ n f
  same : e = e₀ → p = p₀

theorem PagesAt.heapPages {e : ℕ} (h : PagesAt D T e p) (m : Mem) : HeapPages D T e p e p m :=
  ⟨h, le_rfl, .refl .., fun _ hn he => absurd hn (not_le.mpr he), fun _ => rfl⟩

theorem pagingEnv_pagesOk (uninit : Paging → Mem → ℤ) (D T : Set ℕ) (e₀ : ℕ) (p₀ : Paging) :
    PagesOk (pagingEnv uninit) kernelHeapAddress ∅ (HeapPages D T e₀ p₀) where
  zero := by
    rintro e p m ⟨p', m'⟩ ⟨hpages, -, -, -, -⟩ hrun
    obtain ⟨⟨f, q, m₁⟩, hcreate, -⟩ := bind_eq_ok.mp hrun
    obtain ⟨g, hg⟩ := hpages.inv.first
    exact (pagingCreateKernelPage_ok hpages.inv (by omega) hcreate).fresh g hg
  step := by
    rintro e p m p' m' ⟨hpages, hle, hgrown, habsent, -⟩ hmod hbase hlt hrun
    obtain ⟨⟨f, q, m₁⟩, hcreate, heq⟩ := bind_eq_ok.mp hrun
    cases heq
    have hc := pagingCreateKernelPage_ok hpages.inv (by omega) hcreate
    have hend := hpages.le
    -- the page is not that of the stack
    have hne : e / 4096 ≠ kernelStackFirstPage := by
      intro heq
      obtain ⟨g, hg⟩ := hpages.inv.stack
      exact hc.fresh g (heq ▸ hg)
    refine ⟨⟨⟨hc.inv, fun n hn hne' => ?_, by omega⟩, by omega, ?_, fun n hn hne' f' hf' => ?_,
      fun heq => absurd heq (by omega)⟩, fun x hx hxe _ => ?_⟩
    · by_cases hn' : n = e / 4096
      · subst hn'
        exact ⟨f, hc.page⟩
      · exact (hpages.of_grown hc.inv hc.grown).mapped n hn (by omega)
    · exact (hgrown.mono (by omega) (by omega)).trans (hc.grown.mono (by omega) (by omega))
    · by_cases hn' : n = e / 4096
      · subst hn'
        exact hc.fresh f' (hgrown.pages _ (by omega) f' hf')
      · exact habsent n hn (by omega) f' hf'
    · exact hc.mem x hx (by omega)
  stable := fun h _ => ⟨h.pages, h.le, h.grown, h.absent, h.same⟩

end

end RawOS
