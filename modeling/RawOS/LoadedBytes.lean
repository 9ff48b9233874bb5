import RawOS.HeapGrowths
import RawOS.ProcessLinks
import RawOS.ProcessSpaces

/-!
# An image in the frames of a process

The results about `rawx_load` ask of the pages what `ProcessPagesOk` says.
`paging_create_process_page_with_any_frame` keeps it for pages from 1 GB on, as long as the heap
stays below 1 GB (`loaderEnv_pagesOk`), and the bytes of the sections are then in the frames that
the process has (`loadImage_bytes`).
-/

namespace RawOS

/-- The loader works on the directory `d` of a process, in a heap below 1 GB. -/
structure LoadSpace (env : ProcessEnv) (D : Set ℕ) (d : ℕ) (s : Kernel) : Prop where
  run : ∃ own, KernelRun env.uninit s D own
  ne : d ≠ s.sys.kernelPageDirectory
  below : heapEnd s ≤ 0x40000000

/-- The page `n` is above 1 GB, and its table fits in the heap below. -/
structure PlacedAbove (env : ProcessEnv) (d n : ℕ) (s : Kernel) : Prop where
  above : 0x40000 ≤ n
  growths : CreateGrowths env.uninit (fun t => heapEnd t + pageSize ≤ 0x40000000) s d n

/-- The page `n` of `d`, from 1 GB on, is present. -/
structure HasPage (d : ℕ) (s : Kernel) (n : ℕ) : Prop where
  lt : n < 0x100000
  above : 0x40000 ≤ n
  present : s.sys.pageOf d n ≠ none

section

variable {env : ProcessEnv} {uninit : Paging → Mem → ℤ} {D T : Set ℕ} {bs : List Block}
  {live : List Live} {own : Set Live} {s s' : Kernel} {p : Paging} {m : Mem} {e : Panic}
  {d f i k n u x buffer size : ℕ} {stack kernelStack : Bool} {rli : RawxLoadInformation}

/-! ## Pages -/

theorem mapProcessPage_heapEnd (hrun : mapProcessPage s d n u = .ok (f, s')) :
    heapEnd s' = heapEnd s := by
  obtain ⟨⟨f', p⟩, -, hrun⟩ := bind_eq_ok.mp hrun
  cases hrun
  rfl

theorem pagingCreateProcessPage_le (h : KernelInv D T bs live s)
    (hg : CreateGrowths uninit (fun t => heapEnd t + pageSize ≤ 0x40000000) s d n)
    (hend : heapEnd s ≤ 0x40000000)
    (hrun : pagingCreateProcessPageWithAnyFrame uninit s d n u = .ok (f, s')) :
    heapEnd s' ≤ 0x40000000 := by
  by_cases htable : (s.sys.directories d).tables (n / 1024) = 0
  · rw [pagingCreateProcessPage_unmapped htable] at hrun
    obtain ⟨s₁, hcreate, hrun⟩ := bind_eq_ok.mp hrun
    obtain ⟨⟨t, s₀⟩, halloc, hcreate⟩ := bind_eq_ok.mp hcreate
    obtain ⟨address, -, hcreate⟩ := bind_eq_ok.mp hcreate
    cases hcreate
    have hle := (h.alloc_le_iff halloc).mpr (hg htable)
    rw [max_eq_right hend] at hle
    rw [mapProcessPage_heapEnd hrun]
    exact hle
  · rw [pagingCreateProcessPage_mapped htable] at hrun
    rw [mapProcessPage_heapEnd hrun]
    exact hend

/-- What the loader relies on holds of the pages of the kernel. -/
theorem loaderEnv_pagesOk (hd : d ∈ D) (e : Panic) :
    ProcessPagesOk ((loaderEnv env d).guarded (fun n _ s => PlacedAbove env d n s) e)
      (LoadSpace env D d) (HasPage d) := by
  have hcreated : ∀ {n u : ℕ} {s s' : Kernel}, LoadSpace env D d s → n < 0x100000 →
      ((loaderEnv env d).guarded (fun n _ s => PlacedAbove env d n s) e).createProcessPage n u s =
        .ok s' → 0x40000 ≤ n ∧ PageOnly d n s.sys s'.sys ∧ LoadSpace env D d s' := by
    intro n u s s' h hn hrun
    unfold LoaderEnv.guarded at hrun
    dsimp only at hrun
    split_ifs at hrun with hplaced
    obtain ⟨⟨f, s₁⟩, hpage, hrun⟩ := bind_eq_ok.mp hrun
    cases hrun
    obtain ⟨own, hk⟩ := h.run
    obtain ⟨T, bs, live, hinv, -⟩ := hk.inv
    have hend := pagingCreateProcessPage_le hinv hplaced.growths h.below hpage
    obtain ⟨hkept, -⟩ := pagingCreateProcessPage_kept hk hd h.ne hn hpage
    refine ⟨hplaced.above, pagingCreateProcessPage_only hinv hd h.ne hn hplaced.above hpage hend,
      ⟨_, hkept.run⟩, ?_, hend⟩
    rw [hkept.keeps.kernel]
    exact h.ne
  refine ⟨fun h hn hrun => (hcreated h hn hrun).2.2, fun h hn hrun hp => ?_, fun h hn hrun => ?_,
    fun h hn hrun hq => ?_⟩
  · obtain ⟨-, honly, -⟩ := hcreated h hn hrun
    exact hp.present honly.new
  · obtain ⟨hle, honly, -⟩ := hcreated h hn hrun
    exact ⟨hn, hle, honly.present⟩
  · obtain ⟨-, honly, -⟩ := hcreated h hn hrun
    refine ⟨hq.lt, hq.above, ?_⟩
    rw [honly.others _ hq.lt hq.above fun heq => hq.present (heq ▸ honly.new)]
    exact hq.present

/-! ## Bytes -/

/-- The guard does not matter for the stubs, nor for the file. -/
theorem fillCallAddresses_guarded {σ : Type} (env : LoaderEnv σ) (K : ℕ → ℕ → σ → Prop) (e : Panic)
    (start : ℕ) (data : Mem) : ∀ n,
    fillCallAddresses (env.guarded K e) start data n = fillCallAddresses env start data n
  | 0 => rfl
  | n + 1 => by
    unfold fillCallAddresses
    rw [fillCallAddresses_guarded env K e start data n]
    rfl

theorem resolveSection_guarded {σ : Type} (env : LoaderEnv σ) (K : ℕ → ℕ → σ → Prop) (e : Panic)
    (data : Mem) (i : ℕ) : resolveSection (env.guarded K e) data i = resolveSection env data i := by
  unfold resolveSection
  rw [fillCallAddresses_guarded]

theorem fileAt_guarded {σ : Type} (env : LoaderEnv σ) (K : ℕ → ℕ → σ → Prop) (e : Panic) (data : Mem) :
    ∀ i, fileAt (env.guarded K e) data i = fileAt env data i
  | 0 => rfl
  | i + 1 => by
    unfold fileAt
    rw [fileAt_guarded env K e data i, resolveSection_guarded]

/-- A frame from 1 GB on is that of one page of `d`. -/
theorem PagingInv.pageFrame_inj (h : PagingInv D T p) (hd : d ∈ D) (hn : n < 0x100000)
    (hle : 0x40000 ≤ n) (hk : k < 0x100000) {e e' : PageEntry} (he : p.pageOf d n = some e)
    (he' : p.pageOf d k = some e') (heq : e.frameAddress20Bits = e'.frameAddress20Bits) : n = k := by
  obtain ⟨hne, hpresent, rfl⟩ := Paging.pageOf_eq_some.mp he
  obtain ⟨hne', hpresent', rfl⟩ := Paging.pageOf_eq_some.mp he'
  obtain ⟨htable, hindex⟩ := h.frames.distinct _ _ _ _ _
    (h.inUse_linked hd (show n / 1024 < 1024 by omega) hne)
    (h.inUse_linked hd (show k / 1024 < 1024 by omega) hne')
    (Nat.mod_lt _ (by decide)) (Nat.mod_lt _ (by decide)) ⟨hpresent, rfl⟩ ⟨hpresent', heq.symm⟩
  have hi := h.tables_inj hd (show n / 1024 < 1024 by omega) (by omega)
    (show k / 1024 < 1024 by omega) hne htable.symm
  omega

theorem pageWithFrame_eq_some (hn : n < 0x100000)
    (hpage : (p.pageOf d n).map PageEntry.frameAddress20Bits = some f)
    (hfirst : ∀ k < n, (p.pageOf d k).map PageEntry.frameAddress20Bits ≠ some f) :
    pageWithFrame p d f = some n := by
  have hfind : ∀ k, n < k → (List.range k).find? (fun n =>
      (p.pageOf d n).map PageEntry.frameAddress20Bits = some f) = some n := by
    intro k hk
    refine List.find?_range_eq_some.mpr ⟨decide_eq_true hpage, List.mem_range.mpr hk, fun j hj => ?_⟩
    rw [Bool.not_eq_true', decide_eq_false_iff_not]
    exact hfirst j hj
  exact hfind 0x100000 hn

/-- What is stored to the frames is the memory of the process. -/
theorem processMemory_storeMemory (h : PagingInv D T p) (hd : d ∈ D) (hx : x / 0x1000 < 0x100000)
    (hle : 0x40000 ≤ x / 0x1000) (hpage : p.pageOf d (x / 0x1000) ≠ none) (m : Mem) :
    processMemory (storeMemory p d m) d x = m x := by
  obtain ⟨e, he⟩ := Option.ne_none_iff_exists'.mp hpage
  have hframe : pageWithFrame p d e.frameAddress20Bits = some (x / 0x1000) := by
    refine pageWithFrame_eq_some hx (congrArg _ he) fun k hk hsome => ?_
    obtain ⟨e', he', heq⟩ := Option.map_eq_some_iff.mp hsome
    exact hk.ne' (h.pageFrame_inj hd hx hle (hk.trans hx) he he' heq.symm)
  obtain ⟨stored, hstored⟩ : ∃ stored, stored = storedFrames p d m := ⟨_, rfl⟩
  have hbyte : stored e.frameAddress20Bits (x % 0x1000) = m x := by
    rw [hstored, storedFrames_some hframe, if_pos (Nat.mod_lt _ (by decide)), Nat.div_add_mod']
  unfold storeMemory
  rw [← hstored]
  unfold processMemory
  have hsame : ({ p with frames := stored } : Paging).pageOf d (x / 0x1000) = some e := he
  rw [hsame]
  exact hbyte

/-- After a load whose pages are from 1 GB on, in a heap that stays below, the process has the bytes
of the sections in its frames: each page of a section the first `0x1000` bytes of its data. -/
theorem loadImage_bytes (h : KernelRun env.uninit s D own) (hd : d ∈ D)
    (hk : d ≠ s.sys.kernelPageDirectory) (hend : heapEnd s ≤ 0x40000000)
    (hst : StubsFit (loaderEnv env d))
    (hpages : ImagePages env (PlacedAbove env d) s d buffer size stack kernelStack)
    (hrun : loadImage env s d buffer size stack kernelStack = .ok (rli, s')) :
    ∀ i, Reaches (loaderEnv env d) (imageFile s buffer) i →
      sectionKind (fileAt (loaderEnv env d) (imageFile s buffer) i) i ≠ .other →
      ∀ k < copiedSize (loaderEnv env d) (fileAt (loaderEnv env d) (imageFile s buffer) i) i,
        processMemory s'.sys d
            (u32 (sectionAddress (fileAt (loaderEnv env d) (imageFile s buffer) i) i + k)) =
          fileAt (loaderEnv env d) (imageFile s buffer) (i + 1)
            (u32 (sectionFilePtrToData (fileAt (loaderEnv env d) (imageFile s buffer) i) i +
              k % 0x1000)) := by
  intro i hreaches hkind k hk'
  obtain ⟨memory, l, hload, rfl⟩ := loadImage_loaded hrun
  have hguarded := (hpages memory .outOfFuel).trans hload
  have hspace : LoadSpace env D d s := ⟨⟨own, h⟩, hk, hend⟩
  have hfile := fileAt_guarded (loaderEnv env d) (fun n _ s => PlacedAbove env d n s) .outOfFuel
    (imageFile s buffer)
  have hbytes := rawxLoad_bytes (loaderEnv_pagesOk hd .outOfFuel) hst hspace hguarded i
  unfold Reaches copiedSize at *
  simp only [hfile, resolveSection_guarded] at hbytes
  obtain ⟨hpage, hbyte⟩ := hbytes hreaches hkind k hk'
  obtain ⟨hkept, -⟩ := (loadKept_loaderInv hd hk).rawxLoad
    (l := ⟨s, memory, imageFile s buffer, []⟩) ⟨⟨h, .refl D s.sys, subset_rfl⟩, rfl⟩ hload
  obtain ⟨T, bs, live, hinv, -⟩ := hkept.run.inv
  rw [← hbyte]
  exact processMemory_storeMemory hinv.pages.inv hd hpage.lt hpage.above hpage.present l.mem

end

end RawOS
