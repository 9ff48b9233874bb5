import RawOS.KernelInv

/-!
# Cloning a page directory

`pagingClone_ok` says what `paging_clone_page_directory_for_new_process` does: the kernel stays in
order, and as long as the heap lies below 1 GB the pages above are copied one by one.
-/

namespace RawOS

/-- `entry'` is a copy of the page `entry` on a frame that the pages `p` do not use. -/
structure CopiedEntry (p p' : Paging) (entry entry' : PageEntry) : Prop where
  eq : entry' = { entry with
    frameAddress20Bits := entry'.frameAddress20Bits, userMode := true }
  lt : entry'.frameAddress20Bits < availableFramesNum
  clear : ¬ p.availableFrames.Has entry'.frameAddress20Bits
  has : p'.availableFrames.Has entry'.frameAddress20Bits
  bytes : p'.frames entry'.frameAddress20Bits = p.frames entry.frameAddress20Bits

/-- The first `n` entries of the table `source` were copied to the table `t`. -/
structure TableCopied (source t n : ℕ) (p p' : Paging) : Prop where
  directories : p'.directories = p.directories
  kernel : p'.kernelPageDirectory = p.kernelPageDirectory
  processes : p'.processes = p.processes
  others : ∀ t', t' ≠ t → p'.tables t' = p.tables t'
  copied : ∀ j < n, (p.tables source j).present = true →
    CopiedEntry p p' (p.tables source j) (p'.tables t j)
  rest : ∀ j, n ≤ j ∨ (p.tables source j).present = false → p'.tables t j = p.tables t j
  frames : ∀ f, p.availableFrames.Has f ∨ availableFramesNum ≤ f → p'.frames f = p.frames f
  has : ∀ f, p.availableFrames.Has f → p'.availableFrames.Has f

section

variable {uninit : Paging → Mem → ℤ} {D T : Set ℕ} {bs : List Block} {live : List Live}
  {s s' : Kernel} {p p' : Paging} {source c d t i n f lo : ℕ}

theorem TableCopied.refl (source t : ℕ) (p : Paging) : TableCopied source t 0 p p where
  directories := rfl
  kernel := rfl
  processes := rfl
  others := fun _ _ => rfl
  copied := fun _ h => absurd h (Nat.not_lt_zero _)
  rest := fun _ _ => rfl
  frames := fun _ _ => rfl
  has := fun _ h => h

/-- One page: it is not present, or it gets a frame. -/
theorem clonePage_ok {j : ℕ} (hsize : p.availableFrames.size = availableFramesNum / 8)
    (hrun : clonePage source t i j p = .ok p') :
    (p.tables ((p.directories source).tables i) j).present = false ∧ p' = p ∨
    (p.tables ((p.directories source).tables i) j).present = true ∧
      ∃ f b, Claimed p.availableFrames b f ∧
        p' = { { p with availableFrames := b }.setEntry t j
            { p.tables ((p.directories source).tables i) j with
              frameAddress20Bits := f, userMode := true } with
          frames := Function.update p.frames f
            (p.frames (p.tables ((p.directories source).tables i) j).frameAddress20Bits) } := by
  unfold clonePage at hrun
  dsimp only at hrun
  cases hpres : (p.tables ((p.directories source).tables i) j).present with
  | false =>
    rw [hpres] at hrun
    cases hrun
    exact .inl ⟨rfl, rfl⟩
  | true =>
    rw [hpres, if_pos rfl] at hrun
    obtain ⟨⟨f, p₁⟩, halloc, hrun⟩ := bind_eq_ok.mp hrun
    obtain ⟨b, hb, hp₁⟩ := (allocFrame_spec hsize).of_ok halloc
    dsimp only at hb hp₁ hrun
    subst hp₁
    cases hrun
    have hf : f % 0x100000 = f := by
      have hlt := hb.lt
      unfold availableFramesNum physicalRamSize at hlt
      exact Nat.mod_eq_of_lt (by omega)
    refine .inr ⟨rfl, f, b, hb, ?_⟩
    unfold pagingCopyFrame Paging.setEntry
    dsimp only
    rw [hf, hpres]

/-- A page that was copied. -/
theorem TableCopied.step {p₁ : Paging} (h : TableCopied ((p.directories source).tables i) t n p p₁)
    (hinv : PagingInv D T p) (hinv₁ : PagingInv D T p₁) (hn : n < 1024)
    (huse : InUse T p ((p.directories source).tables i))
    (hne : (p.directories source).tables i ≠ t) (hzero : (p.tables t n).present = false)
    (hrun : clonePage source t i n p₁ = .ok p') :
    TableCopied ((p.directories source).tables i) t (n + 1) p p' ∧ PagingInv D T p' := by
  obtain ⟨ts, hts⟩ : ∃ ts, ts = (p.directories source).tables i := ⟨_, rfl⟩
  rw [← hts] at h huse hne ⊢
  have hts₁ : (p₁.directories source).tables i = ts := by rw [h.directories, hts]
  have hsrc : p₁.tables ts n = p.tables ts n := congrFun (h.others ts hne) n
  have hrun' := clonePage_ok hinv₁.frames.size hrun
  rw [hts₁, hsrc] at hrun'
  rcases hrun' with ⟨hpres, rfl⟩ | ⟨hpres, f, b, hb, hp'⟩
  · refine ⟨{ h with
      copied := ?_
      rest := fun j hj => h.rest j (hj.imp_left fun h => by omega) }, hinv₁⟩
    intro j hj hp
    by_cases hjn : j = n
    · subst hjn
      rw [hpres] at hp
      exact Bool.noConfusion hp
    · exact h.copied j (by omega) hp
  · have hold : p₁.tables t n = p.tables t n := h.rest n (.inl le_rfl)
    have hclear : ¬ p.availableFrames.Has f := fun hf => hb.clear (h.has f hf)
    have hself : p'.tables t n = { p.tables ts n with frameAddress20Bits := f, userMode := true } := by
      rw [hp']
      exact Paging.setEntry_self
    have hother : ∀ t' j', t' ≠ t ∨ j' ≠ n → p'.tables t' j' = p₁.tables t' j' := fun t' j' hne => by
      rw [hp']
      exact Paging.setEntry_of_ne hne
    have hbits : ∀ k, p'.availableFrames.Has k ↔ k = f ∨ p₁.availableFrames.Has k := by
      rw [hp']
      exact hb.has
    have hframes : ∀ k, k ≠ f → p'.frames k = p₁.frames k := fun k hk => by
      rw [hp']
      exact Function.update_of_ne hk ..
    have hframe : p'.frames f = p₁.frames (p.tables ts n).frameAddress20Bits := by
      rw [hp']
      exact Function.update_self ..
    -- the bytes of the source are those before the loop
    have hbytes : p₁.frames (p.tables ts n).frameAddress20Bits =
        p.frames (p.tables ts n).frameAddress20Bits := by
      refine h.frames _ ?_
      by_cases hlt : (p.tables ts n).frameAddress20Bits < availableFramesNum
      · exact .inl (hinv.frames.used ts n _ huse hn ⟨hpres, rfl⟩ hlt)
      · exact .inr (not_lt.mp hlt)
    refine ⟨⟨?_, ?_, ?_, ?_, ?_, ?_, ?_, ?_⟩, ?_⟩
    · rw [hp']
      exact h.directories
    · rw [hp']
      exact h.kernel
    · rw [hp']
      exact h.processes
    · intro t' ht'
      rw [← h.others t' ht']
      funext j
      exact hother t' j (.inl ht')
    · intro j hj hp
      by_cases hjn : j = n
      · subst hjn
        rw [hself]
        exact ⟨rfl, hb.lt, hclear, (hbits f).mpr (.inl rfl), hframe.trans hbytes⟩
      · rw [hother t j (.inr hjn)]
        obtain ⟨h₁, h₂, h₃, h₄, h₅⟩ := h.copied j (by omega) hp
        refine ⟨h₁, h₂, h₃, (hbits _).mpr (.inr h₄), ?_⟩
        rw [hframes _ fun heq => hb.clear (heq ▸ h₄)]
        exact h₅
    · intro j hj
      have hjn : j ≠ n := by
        rintro rfl
        rcases hj with hj | hj
        · omega
        · rw [hpres] at hj
          exact Bool.noConfusion hj
      rw [hother t j (.inr hjn)]
      exact h.rest j (hj.imp_left fun h => by omega)
    · intro k hk
      rw [hframes k, h.frames k hk]
      rintro rfl
      rcases hk with hk | hk
      · exact hclear hk
      · exact absurd hb.lt (not_lt.mpr hk)
    · exact fun k hk => (hbits k).mpr (.inr (h.has k hk))
    · rw [hp']
      exact (hinv₁.mapEntry hb hn (hold ▸ hzero) rfl).setFrames _

/-- The inner loop. -/
theorem copyLoop_ok (hinv : PagingInv D T p) (huse : InUse T p ((p.directories source).tables i))
    (hne : (p.directories source).tables i ≠ t) (hzero : p.tables t = PageTable.zero)
    (hrun : forLoop (clonePage source t i) 1024 p = .ok p') :
    TableCopied ((p.directories source).tables i) t 1024 p p' ∧ PagingInv D T p' := by
  refine forLoop_ok (P := fun n q => TableCopied ((p.directories source).tables i) t n p q ∧
    PagingInv D T q) ⟨.refl _ t p, hinv⟩ ?_ hrun
  rintro n hn q q' ⟨hc, hq⟩ hstep
  exact hc.step hinv hq hn huse hne (by rw [hzero]; rfl) hstep

/-! ## What stays -/

theorem PagingInv.active (h : PagingInv D T p) (hd : Active p d) : d ∈ D := by
  rcases hd with rfl | hd
  · exact h.kernel
  · obtain ⟨q, hq, heq⟩ := List.mem_map.mp hd
    exact h.processes q hq d heq

/-- The entries from `lo` on of the directories `D` and their tables stay, and so do the frames that
are used. -/
structure AboveKept (lo : ℕ) (D T : Set ℕ) (p p' : Paging) : Prop where
  entries : ∀ d ∈ D, ∀ i < 1024, lo ≤ i → (p'.directories d).tables i = (p.directories d).tables i ∧
    (p'.directories d).tablesX86Representation i = (p.directories d).tablesX86Representation i
  tables : ∀ t ∈ T, p'.tables t = p.tables t
  window : ∀ i < 1024, lo ≤ i → p.kernel.tables i ≠ 0 →
    p'.tables (p.kernel.tables i) = p.tables (p.kernel.tables i)
  frames : ∀ f, p.availableFrames.Has f ∨ availableFramesNum ≤ f → p'.frames f = p.frames f
  has : ∀ f, p.availableFrames.Has f → p'.availableFrames.Has f

theorem AboveKept.refl (lo : ℕ) (D T : Set ℕ) (p : Paging) : AboveKept lo D T p p where
  entries := fun _ _ _ _ _ => ⟨rfl, rfl⟩
  tables := fun _ _ => rfl
  window := fun _ _ _ _ => rfl
  frames := fun _ _ => rfl
  has := fun _ h => h

theorem AboveKept.trans {D' T' : Set ℕ} {p'' : Paging} (h : AboveKept lo D T p p')
    (h' : AboveKept lo D' T' p' p'') (hk : p'.kernelPageDirectory = p.kernelPageDirectory)
    (hkD : p.kernelPageDirectory ∈ D) (hD : D ⊆ D') (hT : T ⊆ T') : AboveKept lo D T p p'' where
  entries := fun d hd i hi hle =>
    ⟨(h'.entries d (hD hd) i hi hle).1.trans (h.entries d hd i hi hle).1,
      (h'.entries d (hD hd) i hi hle).2.trans (h.entries d hd i hi hle).2⟩
  tables := fun t ht => (h'.tables t (hT ht)).trans (h.tables t ht)
  window := fun i hi hle hne => by
    have hsame : p'.kernel.tables i = p.kernel.tables i := by
      unfold Paging.kernel
      rw [hk]
      exact (h.entries _ hkD i hi hle).1
    rw [← h.window i hi hle hne, ← hsame]
    exact h'.window i hi hle (hsame ▸ hne)
  frames := fun f hf => (h'.frames f (hf.imp_left (h.has f))).trans (h.frames f hf)
  has := fun f hf => h'.has f (h.has f hf)

/-- Pages of the kernel below those of table `lo`. -/
theorem KernelGrown.aboveKept {a b : ℕ} (h : KernelGrown a b p p') (hinv : PagingInv D T p)
    (hlo : 2 ≤ lo) (hle : b ≤ lo * 1024) : AboveKept lo D T p p' where
  entries := fun d _ i _ hi' => by
    rcases h.directories d i with h | ⟨-, hlt, -⟩
    · exact h
    · omega
  tables := fun t ht => by
    rcases h.tables t with h | ⟨i, hi', rfl, -⟩
    · exact h
    · have hlow := (hinv.heap _ ht).2.1
      rw [kernelPageTable_eq hi'] at hlow
      unfold kernelHeapAddress at hlow
      omega
  window := fun i hi' hle' hne => by
    rcases h.tables (p.kernel.tables i) with h | ⟨i', hi'', heq, hb⟩
    · exact h
    · rw [(hinv.window i hi' hne).1, kernelPageTable_eq hi', kernelPageTable_eq hi''] at heq
      omega
  frames := fun f _ => congrFun h.frames f
  has := h.has

/-- An allocation that does not grow the heap from table `lo` on. -/
theorem KernelAlloc.aboveKept {size alignment : ℕ} (h : KernelAlloc D T live size alignment s c s')
    (hinv : PagingInv D T s.sys) (hlo : 256 ≤ lo)
    (hend : heapEnd s' ≤ max (heapEnd s) (lo * 0x400000)) : AboveKept lo D T s.sys s'.sys := by
  rcases le_max_iff.mp hend with hend | hend
  · rw [h.same (le_antisymm hend h.le)]
    exact .refl lo D T s.sys
  · exact h.grown.aboveKept hinv (by omega) (by omega)

theorem TableCopied.aboveKept (h : TableCopied source t n p p')
    (ht : ¬ InUse T p t) : AboveKept lo D T p p' where
  entries := fun _ _ _ _ _ => by
    rw [h.directories]
    exact ⟨rfl, rfl⟩
  tables := fun t' ht' => h.others t' fun heq => ht (.inl (heq ▸ ht'))
  window := fun i hi _ hne => h.others _ fun heq => ht (heq ▸ .inr ⟨hne, i, hi, rfl⟩)
  frames := h.frames
  has := h.has

theorem AboveKept.zeroTable (ht : ¬ InUse T p t) : AboveKept lo D T p (p.zeroTable t) where
  entries := fun _ _ _ _ _ => ⟨rfl, rfl⟩
  tables := fun _ ht' => Paging.zeroTable_of_ne fun heq => ht (.inl (heq ▸ ht'))
  window := fun i hi _ hne => Paging.zeroTable_of_ne fun heq => ht (heq ▸ .inr ⟨hne, i, hi, rfl⟩)
  frames := fun _ _ => rfl
  has := fun _ h => h

theorem AboveKept.setDirectoryEntry {x : ℕ} (hd : d ∉ D) :
    AboveKept lo D T p (p.setDirectoryEntry d i t x) where
  entries := fun d' hd' i' _ _ => by
    have hne : d' ≠ d := by
      rintro rfl
      exact hd hd'
    exact ⟨Paging.setDirectoryEntry_tables_of_ne (.inl hne),
      Paging.setDirectoryEntry_x86_of_ne (.inl hne)⟩
  tables := fun _ _ => rfl
  window := fun _ _ _ _ => rfl
  frames := fun _ _ => rfl
  has := fun _ h => h

theorem AboveKept.zeroDirectory (hd : d ∉ D) : AboveKept lo D T p (p.zeroDirectory d) where
  entries := fun d' hd' _ _ _ => by
    have hne : d' ≠ d := by
      rintro rfl
      exact hd hd'
    have heq : (p.zeroDirectory d).directories d' = p.directories d' := Function.update_of_ne hne ..
    rw [heq]
    exact ⟨rfl, rfl⟩
  tables := fun _ _ => rfl
  window := fun _ _ _ _ => rfl
  frames := fun _ _ => rfl
  has := fun _ h => h

/-! ## A table -/

/-- What the outer loop does with a table of the source: the new table, the kernel after the
allocation, and the pages after the copy. -/
structure TableCloned (D T : Set ℕ) (live : List Live) (source c i : ℕ) (s : Kernel) (t : ℕ)
    (s₁ : Kernel) (p : Paging) (x : ℕ) (s' : Kernel) : Prop where
  alloc : KernelAlloc D T live sizeofPageTable 0x1000 s t s₁
  unused : ¬ InUse T s₁.sys t
  pos : t ≠ 0
  copied : TableCopied ((s₁.sys.directories source).tables i) t 1024 (s₁.sys.zeroTable t) p
  inv : ∃ bs, KernelInv D (insert t T) bs (tableAt t :: live) s'
  kept : KernelKept s₁.sys s'.sys
  result : s' = { s₁ with sys := p.setDirectoryEntry c i t x }

theorem cloneTable_ok (h : KernelInv D T bs live s) (hsource : source ∈ D) (hc : c ∈ D)
    (hk : c ≠ s.sys.kernelPageDirectory) (hi : i < 1024)
    (hrun : cloneTable uninit source c i s = .ok s') :
    (s.sys.directories source).tables i = 0 ∧ s' = s ∨
    (s.sys.directories source).tables i ≠ 0 ∧
      ∃ t s₁ p x, TableCloned D T live source c i s t s₁ p x s' := by
  unfold cloneTable at hrun
  by_cases h0 : (s.sys.directories source).tables i = 0
  · rw [if_neg (not_not.mpr h0)] at hrun
    cases hrun
    exact .inl ⟨h0, rfl⟩
  · rw [if_pos h0] at hrun
    refine .inr ⟨h0, ?_⟩
    obtain ⟨⟨t, s₁⟩, halloc, hrun⟩ := bind_eq_ok.mp hrun
    obtain ⟨p, hloop, hrun⟩ := bind_eq_ok.mp hrun
    obtain ⟨address, haddress, hrun⟩ := bind_eq_ok.mp hrun
    cases hrun
    have ha := kallocHeapAlloc_ok h validAlignment_page halloc
    obtain ⟨hmod, hle, -⟩ := ha.aligned (by decide)
    obtain ⟨bs', f, hinv, hf, -, hnot⟩ := ha.addTable h
    have ht0 : t ≠ 0 := by
      unfold kernelHeapAddress at hle
      omega
    obtain ⟨bs₁, hi₁⟩ := ha.inv
    -- the table of the source
    have hne : (s₁.sys.directories source).tables i ≠ 0 := by
      rcases ha.grown.directories source i with ⟨h₁, -⟩ | ⟨-, -, -, -, hw, hne, hl⟩
      · rw [h₁]
        exact h0
      · rw [hl.tables, hw]
        exact hne
    have huse : InUse T s₁.sys ((s₁.sys.directories source).tables i) :=
      hi₁.pages.inv.inUse_linked hsource hi hne
    have hts : (s₁.sys.directories source).tables i ≠ t := fun heq => hnot (heq ▸ huse)
    have huse' : InUse (insert t T) (s₁.sys.zeroTable t) ((s₁.sys.directories source).tables i) :=
      huse.imp_left .inr
    obtain ⟨hcopied, hp⟩ := copyLoop_ok hinv.pages.inv huse' hts (Function.update_self ..) hloop
    have hkept : KernelKept (s₁.sys.zeroTable t) p := by
      refine .of_eq ?_ fun i' hi' hne' => hcopied.others _ fun heq => hnot ?_
      · unfold Paging.kernel
        rw [hcopied.directories, hcopied.kernel]
      · exact heq ▸ .inr ⟨hne', i', hi', rfl⟩
    have hlt : t / 4096 ≤ kernelStackFirstPage := (hinv.pages.inv.heap t (.inl rfl)).2.2.1.le
    have hf' := hkept _ hlt f hf
    rw [getPhysicalAddress_kernel hf', hmod, Nat.add_zero] at haddress
    obtain rfl := Except.ok.inj haddress
    have hck : c ≠ p.kernelPageDirectory := by
      rw [hcopied.kernel]
      show c ≠ s₁.sys.kernelPageDirectory
      rw [ha.grown.kernel]
      exact hk
    have hinv' : KernelInv D (insert t T) bs' (tableAt t :: live) { s₁ with sys := p } := by
      refine ⟨hinv.heap, hinv.pages.of_kept hp hkept, hinv.first, fun d hd hdk => ?_, hinv.tables,
        hcopied.kernel ▸ hinv.below⟩
      refine hinv.directories d hd ?_
      rw [← hcopied.kernel]
      exact hdk
    have hkept₁ : KernelKept s₁.sys (s₁.sys.zeroTable t) := by
      refine .of_eq rfl fun i' hi' hne' => Paging.zeroTable_of_ne ?_
      rintro heq
      exact hnot (heq ▸ .inr ⟨hne', i', hi', rfl⟩)
    have hkept₂ : KernelKept p (p.setDirectoryEntry c i t (u32 (f * 0x1000) ||| 0x7)) :=
      .of_eq (Paging.setDirectoryEntry_of_ne hck.symm) fun _ _ _ => rfl
    refine ⟨t, s₁, p, _, ha, hnot, ht0, hcopied, ⟨bs', ?_⟩, (hkept₁.trans hkept).trans hkept₂, rfl⟩
    refine hinv'.setDirectoryEntry hc hck (.inr ⟨.inl (.inl rfl), f, hf', rfl⟩) ?_
    intro _ d' hd' i' hi' _ _
    show (p.directories d').tables i' ≠ t
    rw [hcopied.directories]
    exact hi₁.pages.inv.not_linked ht0 hnot hd' hi'

/-! ## A directory -/

/-- Table `i` of the source was copied to a table of the clone that is not one of `T`. -/
structure EntryCopied (T T' : Set ℕ) (source c i : ℕ) (p p' : Paging) : Prop where
  absent : (p.directories source).tables i = 0 → (p'.directories c).tables i = 0
  fresh : (p.directories source).tables i ≠ 0 →
    (p'.directories c).tables i ∈ T' ∧ (p'.directories c).tables i ∉ T
  pages : (p.directories source).tables i ≠ 0 → ∀ j < 1024,
    (p.tables ((p.directories source).tables i) j).present = true →
    CopiedEntry p p' (p.tables ((p.directories source).tables i) j)
      (p'.tables ((p'.directories c).tables i) j)
  rest : (p.directories source).tables i ≠ 0 → ∀ j < 1024,
    (p.tables ((p.directories source).tables i) j).present = false →
    p'.tables ((p'.directories c).tables i) j = PageEntry.zero

/-- A copy stays. -/
theorem EntryCopied.kept {T' T'' : Set ℕ} {p'' : Paging} (h : EntryCopied T T' source c i p p')
    (hk : AboveKept lo D T' p' p'') (hT : T' ⊆ T'')
    (hc : (p''.directories c).tables i = (p'.directories c).tables i) :
    EntryCopied T T'' source c i p p'' where
  absent := fun h0 => hc.trans (h.absent h0)
  fresh := fun h0 => by
    rw [hc]
    exact (h.fresh h0).imp_left fun h => hT h
  pages := fun h0 j hj hp => by
    obtain ⟨h₁, h₂, h₃, h₄, h₅⟩ := h.pages h0 j hj hp
    rw [hc, hk.tables _ (h.fresh h0).1]
    exact ⟨h₁, h₂, h₃, hk.has _ h₄, (hk.frames _ (.inl h₄)).trans h₅⟩
  rest := fun h0 j hj hp => by
    rw [hc, hk.tables _ (h.fresh h0).1]
    exact h.rest h0 j hj hp

/-- The tables from 256 up to `n` of the source were copied to `c`. From table `lo` on all stays, as
long as the heap does not grow there. -/
structure DirectoryCopied (D T : Set ℕ) (live : List Live) (source c n : ℕ) (s : Kernel)
    (T' : Set ℕ) (live' : List Live) (s' : Kernel) : Prop where
  inv : ∃ bs, KernelInv (insert c D) T' bs live' s'
  mono : T ⊆ T'
  old : ∀ l ∈ live, l ∈ live'
  fresh : (∀ l ∈ live, l.ptr ≠ c) ∧ ∀ t ∈ T', t ∈ T ∨ ∀ l ∈ live, l.ptr ≠ t
  new : ∀ l ∈ live', l ∈ live ∨ l = directoryAt c ∨
    ∃ i < n, 256 ≤ i ∧ (s'.sys.directories c).tables i ≠ 0 ∧
      l = tableAt ((s'.sys.directories c).tables i)
  kernel : s'.sys.kernelPageDirectory = s.sys.kernelPageDirectory
  processes : s'.sys.processes = s.sys.processes
  le : heapEnd s ≤ heapEnd s'
  has : ∀ f, s.sys.availableFrames.Has f → s'.sys.availableFrames.Has f
  pages : KernelKept s.sys s'.sys
  absent : ∀ k, heapEnd s / 4096 ≤ k → k < heapEnd s' / 4096 → ∀ f, ¬ KernelPage s.sys k f
  rest : ∀ i, i < 256 ∨ n ≤ i → (s'.sys.directories c).tables i = 0 ∧
    (s'.sys.directories c).tablesX86Representation i = 0
  kept : ∀ lo, 256 ≤ lo → heapEnd s' ≤ max (heapEnd s) (lo * 0x400000) →
    AboveKept lo D T s.sys s'.sys ∧ ∀ i < n, lo ≤ i → EntryCopied T T' source c i s.sys s'.sys

/-- The directory of the clone. -/
theorem DirectoryCopied.alloc (h : KernelInv D T bs live s)
    (ha : KernelAlloc D T live sizeofPageDirectory 0x1000 s c s') :
    c ∉ D ∧ DirectoryCopied D T live source c 256 s T (directoryAt c :: live)
      { s' with sys := s'.sys.zeroDirectory c } := by
  obtain ⟨bs', hi⟩ := ha.inv
  obtain ⟨-, hle, -⟩ := ha.aligned le_rfl
  have hcD : c ∉ D := by
    intro hcD
    by_cases hk : c = s.sys.kernelPageDirectory
    · have hbelow := h.below
      omega
    · exact ha.fresh _ (h.directories c hcD hk) rfl
  have hself : (s'.sys.zeroDirectory c).directories c = PageDirectory.zero :=
    Function.update_self ..
  have hkernel : (s'.sys.zeroDirectory c).kernel = s'.sys.kernel := by
    refine Function.update_of_ne ?_ ..
    rintro heq
    exact hcD (heq ▸ hi.pages.inv.kernel)
  refine ⟨hcD, ⟨bs', hi.heap, hi.pages.of_kept (hi.pages.inv.addDirectory hcD)
    (.of_eq hkernel fun _ _ _ => rfl), hi.first, ?_, hi.tables, hi.below⟩, subset_rfl,
    fun l hl => .tail _ hl, ⟨ha.fresh, fun t ht => .inl ht⟩, ?_, ha.grown.kernel,
    ha.grown.processes, ha.le, ha.grown.has, ?_, ha.absent,
    fun i _ => ?_, fun lo hlo hend => ⟨?_, fun i hi hle => absurd hle (by omega)⟩⟩
  · rintro d (rfl | hd) hk
    · exact List.mem_cons_self
    · exact hi.directories d hd hk
  · intro l hl
    rcases List.mem_cons.mp hl with rfl | hl
    · exact .inr (.inl rfl)
    · exact .inl hl
  · have hzero : KernelKept s'.sys (s'.sys.zeroDirectory c) := .of_eq hkernel fun _ _ _ => rfl
    exact ha.grown.kernelKept.trans hzero
  · show ((s'.sys.zeroDirectory c).directories c).tables i = 0 ∧ _
    rw [hself]
    exact ⟨rfl, rfl⟩
  · exact (ha.aboveKept h.pages.inv hlo hend).trans (.zeroDirectory hcD) ha.grown.kernel
      h.pages.inv.kernel subset_rfl subset_rfl

/-- What stays from the allocation to the end of the copy, and to the entry of the clone. -/
theorem TableCloned.aboveKept {s₁ : Kernel} {q : Paging} {x : ℕ}
    (h : TableCloned (insert c D) T live source c i s t s₁ q x s')
    (hinv : KernelInv (insert c D) T bs live s) (hc : c ∉ D) (hk : s.sys.kernelPageDirectory ∈ D)
    (hlo : 256 ≤ lo) (hend : heapEnd s₁ ≤ max (heapEnd s) (lo * 0x400000)) :
    AboveKept lo (insert c D) T s.sys (s₁.sys.zeroTable t) ∧ AboveKept lo D T s.sys s'.sys := by
  obtain ⟨ha, hnot, -, htab, -, -, rfl⟩ := h
  have hk₁ : s.sys.kernelPageDirectory ∈ insert c D := hinv.pages.inv.kernel
  have hzero : AboveKept lo (insert c D) T s.sys (s₁.sys.zeroTable t) :=
    (ha.aboveKept hinv.pages.inv hlo hend).trans (.zeroTable hnot) ha.grown.kernel hk₁ subset_rfl
      subset_rfl
  have hnot' : ¬ InUse T (s₁.sys.zeroTable t) t := hnot
  have hcopy : AboveKept lo (insert c D) T s.sys q :=
    hzero.trans (htab.aboveKept hnot') ha.grown.kernel hk₁ subset_rfl subset_rfl
  refine ⟨hzero, AboveKept.trans ⟨fun d hd => hcopy.entries d (.inr hd), hcopy.tables, hcopy.window,
    hcopy.frames, hcopy.has⟩ (.setDirectoryEntry hc) (htab.kernel.trans ha.grown.kernel) hk
    subset_rfl subset_rfl⟩

/-- The table of the source is as it was in `s`, and its pages were copied. -/
theorem TableCloned.entryCopied {T₁ : Set ℕ} {live₁ : List Live} {s₁ s₂ : Kernel} {q : Paging} {x : ℕ}
    (h : TableCloned (insert c D) T₁ live₁ source c i s₁ t s₂ q x s') (hinv : KernelInv D T bs live s)
    (hsource : source ∈ D) (hi : i < 1024) (hle : lo ≤ i) (hT : T ⊆ T₁)
    (hkernel : s₁.sys.kernelPageDirectory = s.sys.kernelPageDirectory)
    (hhas : ∀ f, s.sys.availableFrames.Has f → s₁.sys.availableFrames.Has f)
    (habove : AboveKept lo D T s.sys s₁.sys)
    (hzero : AboveKept lo (insert c D) T₁ s₁.sys (s₂.sys.zeroTable t))
    (h0 : (s₁.sys.directories source).tables i ≠ 0) :
    EntryCopied T (insert t T₁) source c i s.sys s'.sys := by
  obtain ⟨ha, hnot, -, htab, -, -, rfl⟩ := h
  have htT : t ∉ T := fun ht => hnot (.inl (hT ht))
  have hself : ((q.setDirectoryEntry c i t x).directories c).tables i = t :=
    Paging.setDirectoryEntry_tables_self
  have hold := (habove.entries source hsource i hi hle).1
  have hsrc : (s₂.sys.directories source).tables i = (s.sys.directories source).tables i :=
    (hzero.entries source (.inr hsource) i hi hle).1.trans hold
  have hne : (s.sys.directories source).tables i ≠ 0 := hold ▸ h0
  obtain ⟨ts, hts⟩ : ∃ ts, ts = (s.sys.directories source).tables i := ⟨_, rfl⟩
  rw [hsrc, ← hts] at htab
  have hall := habove.trans hzero hkernel hinv.pages.inv.kernel (Set.subset_insert c D) hT
  have hsame : (s₂.sys.zeroTable t).tables ts = s.sys.tables ts := by
    rcases hinv.pages.inv.linked source hsource i hi hne with hT | hkt
    · exact hall.tables ts (hts ▸ hT)
    · have hw := hall.window i hi hle (hkt ▸ hne)
      rw [← hkt, ← hts] at hw
      exact hw
  refine ⟨fun h0 => absurd h0 hne, fun _ => ?_, fun _ j hj hp => ?_, fun _ j hj hp => ?_⟩
  · show ((q.setDirectoryEntry c i t x).directories c).tables i ∈ _ ∧ _
    rw [hself]
    exact ⟨.inl rfl, htT⟩
  · rw [← hts] at hp ⊢
    rw [← hsame] at hp ⊢
    obtain ⟨h₁, h₂, h₃, h₄, h₅⟩ := htab.copied j hj hp
    show CopiedEntry _ _ _ (q.tables (((q.setDirectoryEntry c i t x).directories c).tables i) j)
    rw [hself]
    refine ⟨h₁, h₂, fun hf => h₃ (ha.grown.has _ (hhas _ hf)), h₄, h₅.trans ?_⟩
    rw [hsame]
    -- the frame of a page is used
    have hframe : s.sys.availableFrames.Has (s.sys.tables ts j).frameAddress20Bits ∨
        availableFramesNum ≤ (s.sys.tables ts j).frameAddress20Bits := by
      by_cases hlt : (s.sys.tables ts j).frameAddress20Bits < availableFramesNum
      · refine .inl (hinv.pages.inv.frames.used ts j _ ?_ hj ⟨hsame ▸ hp, rfl⟩ hlt)
        rw [hts]
        exact hinv.pages.inv.inUse_linked hsource hi hne
      · exact .inr (not_lt.mp hlt)
    exact hall.frames _ hframe
  · rw [← hts, ← hsame] at hp
    show q.tables (((q.setDirectoryEntry c i t x).directories c).tables i) j = _
    rw [hself, htab.rest j (.inr hp)]
    exact Paging.zeroTable_self

/-- A table of the source was copied. -/
theorem DirectoryCopied.step {T₁ : Set ℕ} {live₁ : List Live} {s₁ : Kernel}
    (h : DirectoryCopied D T live source c i s T₁ live₁ s₁) (hinv : KernelInv D T bs live s)
    (hsource : source ∈ D) (hc : c ∉ D) (hi : i < 1024) (hle : 256 ≤ i)
    (hrun : cloneTable uninit source c i s₁ = .ok s') :
    ∃ T' live', DirectoryCopied D T live source c (i + 1) s T' live' s' := by
  obtain ⟨bs₁, hinv₁⟩ := h.inv
  have hck : c ≠ s₁.sys.kernelPageDirectory := by
    rw [h.kernel]
    rintro rfl
    exact hc hinv.pages.inv.kernel
  rcases cloneTable_ok hinv₁ (.inr hsource) (.inl rfl) hck hi hrun with
    ⟨h0, rfl⟩ | ⟨h0, t, s₂, q, x, htc⟩
  · -- the source has no table
    refine ⟨T₁, live₁, { h with new := ?_, rest := fun k hk => h.rest k (by omega), kept := ?_ }⟩
    · intro l hl
      rcases h.new l hl with h | h | ⟨k, hk, h⟩
      · exact .inl h
      · exact .inr (.inl h)
      · exact .inr (.inr ⟨k, by omega, h⟩)
    · intro lo hlo hend
      obtain ⟨habove, hcopied⟩ := h.kept lo hlo hend
      refine ⟨habove, fun k hk hle' => ?_⟩
      by_cases hki : k = i
      · subst hki
        have h0' : (s.sys.directories source).tables k = 0 :=
          (habove.entries source hsource k hi hle').1.symm.trans h0
        exact ⟨fun _ => (h.rest k (.inr le_rfl)).1, fun hne => absurd h0' hne,
          fun hne => absurd h0' hne, fun hne => absurd h0' hne⟩
      · exact hcopied k (by omega) hle'
  · have htc' := htc
    obtain ⟨ha, hnot, ht0, htab, hinv', hkept, rfl⟩ := htc'
    obtain ⟨bs₂, hinv₂⟩ := ha.inv
    have hcactive : ¬ Active s₁.sys c := fun hact => by
      have hact' : Active s.sys c := by
        unfold Active at hact ⊢
        rw [← h.kernel, ← h.processes]
        exact hact
      exact hc (hinv.pages.inv.active hact')
    -- the directory of the clone
    have hclone : ∀ k, k ≠ i → ((q.setDirectoryEntry c i t x).directories c).tables k =
        (s₁.sys.directories c).tables k ∧
        ((q.setDirectoryEntry c i t x).directories c).tablesX86Representation k =
          (s₁.sys.directories c).tablesX86Representation k := by
      intro k hk
      rw [Paging.setDirectoryEntry_tables_of_ne (.inr hk), Paging.setDirectoryEntry_x86_of_ne (.inr hk),
        htab.directories]
      exact (ha.grown.directories c k).resolve_right fun h => hcactive h.2.2.1
    have hself : ((q.setDirectoryEntry c i t x).directories c).tables i = t :=
      Paging.setDirectoryEntry_tables_self
    refine ⟨insert t T₁, tableAt t :: live₁, hinv', fun u hu => .inr (h.mono hu),
      fun l hl => .tail _ (h.old l hl), ⟨h.fresh.1, ?_⟩, ?_, ?_, ?_, ha.le.trans' h.le, fun f hf => ?_,
      (h.pages.trans ha.grown.kernelKept).trans hkept, fun k hk hlt f hf => ?_,
      fun k hk => ?_, fun lo hlo hend => ?_⟩
    · rintro u (rfl | hu)
      · exact .inr fun l hl => ha.fresh l (h.old l hl)
      · exact h.fresh.2 u hu
    · intro l hl
      rcases List.mem_cons.mp hl with rfl | hl
      · refine .inr (.inr ⟨i, Nat.lt_succ_self i, hle, ?_, ?_⟩)
        · rw [hself]
          exact ht0
        · rw [hself]
      · rcases h.new l hl with h | h | ⟨k, hk, hle', hne, heq⟩
        · exact .inl h
        · exact .inr (.inl h)
        · have hsame := (hclone k (by omega)).1
          exact .inr (.inr ⟨k, by omega, hle', by rw [hsame]; exact hne, by rw [hsame]; exact heq⟩)
    · exact htab.kernel.trans (ha.grown.kernel.trans h.kernel)
    · exact htab.processes.trans (ha.grown.processes.trans h.processes)
    · exact htab.has f (ha.grown.has f (h.has f hf))
    · by_cases hmid : k < heapEnd s₁ / 4096
      · exact h.absent k hk hmid f hf
      · have hend₂ : heapEnd s₂ ≤ kernelStackFirstPage * 4096 := hinv₂.pages.le
        have hlt' : k < heapEnd s₂ / 4096 := hlt
        exact ha.absent k (not_lt.mp hmid) hlt' f (h.pages k (by omega) f hf)
    · obtain ⟨h₁, h₂⟩ := hclone k (by omega)
      obtain ⟨h₃, h₄⟩ := h.rest k (by omega)
      exact ⟨h₁.trans h₃, h₂.trans h₄⟩
    · have hend₂ : heapEnd s₂ ≤ max (heapEnd s) (lo * 0x400000) := hend
      obtain ⟨habove, hcopied⟩ := h.kept lo hlo (ha.le.trans hend₂)
      have hk₁ : s₁.sys.kernelPageDirectory ∈ insert c D := hinv₁.pages.inv.kernel
      obtain ⟨hzero, hstep⟩ := htc.aboveKept hinv₁ hc (h.kernel ▸ hinv.pages.inv.kernel) hlo
        (hend₂.trans (max_le_max_right _ h.le))
      refine ⟨habove.trans hstep h.kernel hinv.pages.inv.kernel subset_rfl h.mono, fun k hk hle' => ?_⟩
      by_cases hki : k = i
      · subst hki
        exact htc.entryCopied hinv hsource hi hle' h.mono h.kernel h.has habove hzero h0
      · exact (hcopied k (by omega) hle').kept hstep (Set.subset_insert t T₁) (hclone k hki).1

/-! ## The kernel's part -/

/-- The entries below `n` of the source were linked to `c`. -/
structure LowLinked (source c n : ℕ) (p p' : Paging) : Prop where
  bitmap : p'.availableFrames = p.availableFrames
  kernel : p'.kernelPageDirectory = p.kernelPageDirectory
  tables : p'.tables = p.tables
  frames : p'.frames = p.frames
  processes : p'.processes = p.processes
  others : ∀ d, d ≠ c → p'.directories d = p.directories d
  linked : ∀ i < n, (p.directories source).tables i ≠ 0 →
    (p'.directories c).tables i = (p.directories source).tables i ∧
    (p'.directories c).tablesX86Representation i = (p.directories source).tablesX86Representation i
  rest : ∀ i, n ≤ i ∨ (p.directories source).tables i = 0 →
    (p'.directories c).tables i = (p.directories c).tables i ∧
    (p'.directories c).tablesX86Representation i = (p.directories c).tablesX86Representation i

theorem LowLinked.refl (source c : ℕ) (p : Paging) : LowLinked source c 0 p p where
  bitmap := rfl
  kernel := rfl
  tables := rfl
  frames := rfl
  processes := rfl
  others := fun _ _ => rfl
  linked := fun _ h => absurd h (Nat.not_lt_zero _)
  rest := fun _ _ => ⟨rfl, rfl⟩

theorem LowLinked.step {p₁ : Paging} (h : LowLinked source c n p p₁) (hne : source ≠ c) :
    LowLinked source c (n + 1) p (cloneLink source c n p₁) := by
  have hs : p₁.directories source = p.directories source := h.others source hne
  unfold cloneLink
  rw [hs]
  by_cases h0 : (p.directories source).tables n = 0
  · rw [if_neg (not_not.mpr h0)]
    refine { h with
      linked := fun i hi hi' => h.linked i ?_ hi'
      rest := fun i hi => h.rest i (by omega) }
    refine lt_of_le_of_ne (by omega) ?_
    rintro rfl
    exact hi' h0
  · rw [if_pos h0]
    refine ⟨h.bitmap, h.kernel, h.tables, h.frames, h.processes, fun d hd => ?_, fun i hi hi' => ?_,
      fun i hi => ?_⟩
    · rw [Paging.setDirectoryEntry_of_ne hd]
      exact h.others d hd
    · by_cases hin : i = n
      · subst hin
        exact ⟨Paging.setDirectoryEntry_tables_self, Paging.setDirectoryEntry_x86_self⟩
      · rw [Paging.setDirectoryEntry_tables_of_ne (.inr hin),
          Paging.setDirectoryEntry_x86_of_ne (.inr hin)]
        exact h.linked i (by omega) hi'
    · have hin : i ≠ n := by
        rintro rfl
        rcases hi with hi | hi
        · omega
        · exact h0 hi
      rw [Paging.setDirectoryEntry_tables_of_ne (.inr hin),
        Paging.setDirectoryEntry_x86_of_ne (.inr hin)]
      exact h.rest i (hi.imp_left fun h => by omega)

/-- An entry of the kernel's part is linked. -/
theorem KernelInv.cloneLink (h : KernelInv D T bs live s) (hsource : source ∈ D) (hc : c ∈ D)
    (hk : c ≠ s.sys.kernelPageDirectory) (hi : i < 256) :
    KernelInv D T bs live { s with sys := cloneLink source c i s.sys } := by
  unfold RawOS.cloneLink
  by_cases h0 : (s.sys.directories source).tables i = 0
  · rw [if_neg (not_not.mpr h0)]
    exact h
  · rw [if_pos h0]
    refine h.setDirectoryEntry hc hk (.inr ⟨?_, ?_⟩) ?_
    · exact (h.pages.inv.linked source hsource i (by omega) h0).imp_right fun heq => ⟨h0, heq⟩
    · rcases h.pages.inv.synced source hsource i (by omega) with ⟨hz, -⟩ | ⟨-, hf⟩
      · exact absurd hz h0
      · exact hf
    · -- a table above 1 GB is nowhere else
      intro hT d' hd' i' hi' hle _ heq
      have hown := h.pages.inv.owned d' hd' i' hi' (by omega) (heq ▸ hT) source hsource i (by omega)
        heq.symm
      omega

theorem linkLoop_ok (h : KernelInv D T bs live s) (hsource : source ∈ D) (hc : c ∈ D)
    (hk : c ≠ s.sys.kernelPageDirectory) (hne : source ≠ c)
    (hrun : forLoop (fun i p => .ok (RawOS.cloneLink source c i p)) 256 s.sys = .ok p') :
    LowLinked source c 256 s.sys p' ∧ KernelInv D T bs live { s with sys := p' } := by
  refine forLoop_ok (P := fun n q => LowLinked source c n s.sys q ∧
    KernelInv D T bs live { s with sys := q }) ⟨.refl source c s.sys, h⟩ ?_ hrun
  rintro n hn q q' ⟨hl, hq⟩ hstep
  cases hstep
  refine ⟨hl.step hne, hq.cloneLink hsource hc ?_ hn⟩
  show c ≠ q.kernelPageDirectory
  rw [hl.kernel]
  exact hk

/-! ## The clone -/

/-- What cloning the directory `source` does. From table `lo` on all stays and is copied, as long as
the heap does not grow there. -/
structure DirectoryCloned (D T : Set ℕ) (live : List Live) (source : ℕ) (s : Kernel) (c : ℕ)
    (T' : Set ℕ) (live' : List Live) (s' : Kernel) : Prop where
  new : c ∉ D
  inv : ∃ bs, KernelInv (insert c D) T' bs live' s'
  mono : T ⊆ T'
  old : ∀ l ∈ live, l ∈ live'
  fresh : (∀ l ∈ live, l.ptr ≠ c) ∧ ∀ t ∈ T', t ∈ T ∨ ∀ l ∈ live, l.ptr ≠ t
  blocks : ∀ l ∈ live', l ∈ live ∨ l = directoryAt c ∨
    ∃ i < 1024, 256 ≤ i ∧ (s'.sys.directories c).tables i ≠ 0 ∧
      l = tableAt ((s'.sys.directories c).tables i)
  kernel : s'.sys.kernelPageDirectory = s.sys.kernelPageDirectory
  processes : s'.sys.processes = s.sys.processes
  le : heapEnd s ≤ heapEnd s'
  has : ∀ f, s.sys.availableFrames.Has f → s'.sys.availableFrames.Has f
  absent : ∀ k, heapEnd s / 4096 ≤ k → k < heapEnd s' / 4096 → ∀ f, ¬ KernelPage s.sys k f
  linked : ∀ i < 256, (s'.sys.directories c).tables i = (s'.sys.directories source).tables i ∧
    (s'.sys.directories c).tablesX86Representation i =
      (s'.sys.directories source).tablesX86Representation i
  kept : ∀ lo, 256 ≤ lo → heapEnd s' ≤ max (heapEnd s) (lo * 0x400000) →
    AboveKept lo D T s.sys s'.sys ∧ ∀ i < 1024, lo ≤ i → EntryCopied T T' source c i s.sys s'.sys

/-- The outer loop, as far as table `256 + n`. -/
theorem cloneLoop_ok {s₀ s₁ : Kernel} (h : KernelInv D T bs live s) (hsource : source ∈ D)
    (halloc : kallocAllocAligned uninit s sizeofPageDirectory 0x1000 = .ok (c, s₀))
    (hn : n ≤ 1024 - 1024 / 4)
    (hrun : forLoop (fun i => cloneTable uninit source c (1024 / 4 + i)) n
      { s₀ with sys := s₀.sys.zeroDirectory c } = .ok s₁) :
    c ∉ D ∧ ∃ T' live', DirectoryCopied D T live source c (256 + n) s T' live' s₁ := by
  obtain ⟨hc, hstart⟩ := @DirectoryCopied.alloc _ _ _ _ _ _ source _ h
    (kallocHeapAlloc_ok h validAlignment_page halloc)
  exact ⟨hc, forLoop_ok
    (P := fun n q => ∃ T' live', DirectoryCopied D T live source c (256 + n) s T' live' q)
    ⟨T, _, hstart⟩ (fun i hi q q' ⟨T₁, live₁, hq⟩ hstep =>
      hq.step h hsource hc (by omega) (by omega) hstep) hrun⟩

/-- `paging_clone_page_directory_for_new_process`. -/
theorem pagingClone_ok (h : KernelInv D T bs live s) (hsource : source ∈ D)
    (hrun : pagingClonePageDirectoryForNewProcess uninit s source = .ok (c, s')) :
    ∃ T' live', DirectoryCloned D T live source s c T' live' s' := by
  unfold pagingClonePageDirectoryForNewProcess at hrun
  obtain ⟨⟨c', s₀⟩, halloc, hrun⟩ := bind_eq_ok.mp hrun
  obtain ⟨s₁, hcopy, hrun⟩ := bind_eq_ok.mp hrun
  obtain ⟨p, hlink, hrun⟩ := bind_eq_ok.mp hrun
  cases hrun
  obtain ⟨hc, T', live', hd⟩ := cloneLoop_ok h hsource halloc le_rfl hcopy
  have hne : source ≠ c := fun heq => hc (heq ▸ hsource)
  obtain ⟨bs₁, hinv₁⟩ := hd.inv
  have hck : c ≠ s₁.sys.kernelPageDirectory := by
    rw [hd.kernel]
    rintro rfl
    exact hc h.pages.inv.kernel
  obtain ⟨hlow, hinv⟩ := linkLoop_ok hinv₁ (.inr hsource) (.inl rfl) hck hne hlink
  have hhigh : ∀ i, 256 ≤ i → (p.directories c).tables i = (s₁.sys.directories c).tables i :=
    fun i hi => (hlow.rest i (.inl hi)).1
  have hlast : 256 + (1024 - 1024 / 4) = 1024 := rfl
  rw [hlast] at hd
  refine ⟨T', live', hc, ⟨bs₁, hinv⟩, hd.mono, hd.old, hd.fresh, fun l hl => ?_,
    hlow.kernel.trans hd.kernel, hlow.processes.trans hd.processes, hd.le, fun f hf => ?_, hd.absent,
    fun i hi => ?_, fun lo hlo hend => ?_⟩
  · rcases hd.new l hl with hl | hl | ⟨i, hi, hle, hnz, heq⟩
    · exact .inl hl
    · exact .inr (.inl hl)
    · refine .inr (.inr ⟨i, hi, hle, ?_, ?_⟩)
      · show (p.directories c).tables i ≠ 0
        rw [hhigh i hle]
        exact hnz
      · show l = tableAt ((p.directories c).tables i)
        rw [hhigh i hle]
        exact heq
  · show p.availableFrames.Has f
    rw [hlow.bitmap]
    exact hd.has f hf
  · show (p.directories c).tables i = (p.directories source).tables i ∧
      (p.directories c).tablesX86Representation i =
        (p.directories source).tablesX86Representation i
    rw [hlow.others source hne]
    by_cases h0 : (s₁.sys.directories source).tables i = 0
    · obtain ⟨h₁, h₂⟩ := hlow.rest i (.inr h0)
      obtain ⟨h₃, h₄⟩ := hd.rest i (.inl hi)
      rcases hinv₁.pages.inv.synced source (.inr hsource) i (by omega) with ⟨h₅, h₆⟩ | ⟨h₅, -⟩
      · exact ⟨h₁.trans (h₃.trans h₅.symm), h₂.trans (h₄.trans h₆.symm)⟩
      · exact absurd h0 h₅
    · exact hlow.linked i hi h0
  · obtain ⟨habove, hcopied⟩ := hd.kept lo hlo hend
    have hstep : AboveKept lo D T' s₁.sys p := by
      refine ⟨fun d hd' i _ _ => ?_, fun t _ => congrFun hlow.tables t, fun i _ _ _ =>
        congrFun hlow.tables _, fun f _ => congrFun hlow.frames f, fun f hf => ?_⟩
      · rw [hlow.others d fun heq => hc (heq ▸ hd')]
        exact ⟨rfl, rfl⟩
      · rw [hlow.bitmap]
        exact hf
    exact ⟨habove.trans hstep hd.kernel h.pages.inv.kernel subset_rfl hd.mono,
      fun i hi hle => (hcopied i hi hle).kept hstep subset_rfl (hhigh i (hlo.trans hle))⟩

end

end RawOS
