import Mathlib.Order.Interval.Finset.Nat
import RawOS.CallsReturn
import RawOS.KernelRun

/-!
# After the boot

`exists_kernelReady`: on a machine with all its memory `paging_init` and `kalloc_init` return, and
the frames and pages that are free then are enough for what the kernel asks for.
-/

namespace RawOS

section

variable {uninit : Paging → Mem → ℤ} {D T : Set ℕ} {p : Paging} {m : Mem}
  {top limit reserve : ℕ} {I : ℕ → Paging → Mem → Prop}

theorem poweredOn_clear (k : ℕ) : ¬ poweredOn.availableFrames.Has k := by
  simp [Bitmap.Has, poweredOn, bitmapInit]

/-- The frames between the window and the stack are clear. -/
theorem Initialised.room (h : Initialised poweredOn p) : 783360 ≤ p.availableFrames.room := by
  have hsub : Finset.Ico 0x401 0xBF801 ⊆
      (Finset.range availableFramesNum).filter fun k => ¬ p.availableFrames.Has k := by
    intro k hk
    rw [Finset.mem_Ico] at hk
    rw [Finset.mem_filter, Finset.mem_range]
    refine ⟨lt_of_lt_of_le hk.2 (by decide), fun hf => ?_⟩
    rcases h.has k hf with hold | hpage
    · exact poweredOn_clear k hold
    · unfold InitPage kernelStackFirstPage kernelStackAddress kernelStackReservedPages at hpage
      omega
  have hcard := Finset.card_le_card hsub
  rw [Nat.card_Ico] at hcard
  exact hcard

/-- The pages of the heap are not there yet. -/
theorem Initialised.spare (h : Initialised poweredOn p)
    (hlimit : limit ≤ kernelStackFirstPage * 4096)
    (hroom : reserve + (limit - kernelHeapAddress) / 4096 * 2 ≤ 783360) :
    Spare 0x800000 limit reserve kernelHeapAddress p where
  clear := fun n hn hl f hf => by
    unfold kernelStackFirstPage kernelStackAddress kernelStackReservedPages at hlimit
    have hpage := h.pages n (by omega) f hf
    unfold InitPage kernelStackFirstPage kernelStackAddress kernelStackReservedPages at hpage
    unfold kernelHeapAddress at hn
    omega
  window := fun i hi hnone f hf => by
    have haddr := kernelPageTable_eq hi
    have hpage := h.pages _ (by omega) f hf
    refine h.exist i hi ?_ hnone
    unfold InitPage kernelStackFirstPage kernelStackAddress kernelStackReservedPages at hpage
    unfold InitTable
    omega
  ring := .inl le_rfl
  room := hroom.trans h.room

/-- `kalloc_init` where its pages can be created. -/
theorem kallocInit_go (hP : PagesOk (pagingEnv uninit) kernelHeapAddress ∅ I)
    (hgo : ∀ {e p m}, I e p m → e % 4096 = 0 → e < 0x511000 →
      ∃ r, (pagingEnv uninit).createPage (e / 4096) p m = .ok r)
    (hI : I kernelHeapAddress p m) :
    ∃ s, kallocInit uninit 1 p m = .ok s ∧ heapEnd s = 0x511000 ∧ I 0x511000 s.sys s.mem ∧
      BumpHeap kernelHeapAddress 0x510015 s := by
  have hspec : Ends (kallocHeapCreate (pagingEnv uninit) p m kernelHeapAddress 1) _ _ :=
    kallocHeapCreate_spec hP hI (by decide) (by decide) (by decide) (by decide)
  cases hcreate : kallocHeapCreate (pagingEnv uninit) p m kernelHeapAddress 1 with
  | error e =>
    rw [hcreate] at hspec
    obtain ⟨a, p', m', hI', hmod, -, hlt, herr⟩ := hspec
    obtain ⟨r, hr⟩ := hgo hI' hmod hlt
    rw [hr] at herr
    cases herr
  | ok s₀ =>
    rw [hcreate] at hspec
    obtain ⟨hheap, hsize, hI₀⟩ := hspec
    obtain ⟨b, hb⟩ : ∃ b : Block, b = ⟨kernelHeapAddress + 65536, 1 * 4096 - 20, false⟩ := ⟨_, rfl⟩
    have hbs : 1 ≤ b.size := by
      rw [hb]
      decide
    rw [← hb] at hheap
    obtain ⟨s, hrun, hserved⟩ := @kallocHeapAlloc_bump _ _ _ [] _ _ _ _ (pagingEnv uninit) hheap
      (fun x hx => absurd hx List.not_mem_nil) (by rw [hb]) hbs (Hole.fits_zero (k := b.key) hbs)
      (serves_zero hbs) (fun h => absurd rfl h) 1048577
    have hinit := hserved.inv.shape.initialAddr
    have hinit₀ := hheap.shape.initialAddr
    have hend : heapEnd s = 0x511000 := by
      unfold heapEnd
      rw [hinit, hserved.heapSize, hsize]
      rfl
    have hend₀ : s₀.heap.initialAddr + s₀.heap.size = 0x511000 := by
      rw [hinit₀, hsize]
      rfl
    have hinv : HeapInv kernelHeapAddress ([⟨kernelHeapAddress + 65536, 1, true⟩] ++
        [⟨0x510015, 4055, false⟩]) s.heap s.mem := by
      have htake : pad 0 [] ++ (b.shift 0).take 1 ++ [] =
          [⟨kernelHeapAddress + 65536, 1, true⟩] ++ [⟨0x510015, 4055, false⟩] := by
        rw [hb]
        rfl
      rw [← htake]
      exact hserved.inv
    refine ⟨s, ?_, hend, ?_, .hole hinv (fun x hx => ?_) hend.symm⟩
    · unfold kallocInit
      rw [hcreate, ok_bind]
      have hrun' : kallocHeapAlloc (pagingEnv uninit) s₀ 1 0 = .ok (b.user + 0, s) := hrun
      rw [hrun']
      rfl
    · rw [hserved.sys]
      refine hP.stable hI₀ fun x hx => hserved.frame x ?_
      rw [hend₀]
      exact hx.imp_right fun h => .inl (h.resolve_right (Set.notMem_empty x))
    · rw [List.mem_singleton] at hx
      rw [hx]

/-- The kernel after `kalloc_init`. -/
structure KernelBooted (uninit : Paging → Mem → ℤ) (limit reserve : ℕ) (s : Kernel) : Prop where
  run : KernelRun uninit s {s.sys.kernelPageDirectory} ∅
  inv : ∃ bs, KernelInv {s.sys.kernelPageDirectory} ∅ bs [firstByte] s
  ready : KernelReady 0x800000 limit reserve 0x510015 s
  tables : TablesIn {766, 767, 768} 0x800000 s.sys.kernelPageDirectory s.sys
  processes : s.sys.processes = []

/-- `paging_init` and `kalloc_init` return. -/
theorem exists_kallocInit (uninit : Paging → Mem → ℤ) (hle : 0x800000 ≤ limit)
    (hlimit : limit ≤ kernelStackFirstPage * 4096) (hmod : limit % 4096 = 0)
    (hroom : reserve + (limit - kernelHeapAddress) / 4096 * 2 ≤ 783360) :
    ∃ p s, pagingInit 0x30000 poweredOn = .ok p ∧ kallocInit uninit 1 p (fun _ => 0) = .ok s ∧
      KernelBooted uninit limit reserve s ∧ ∀ i < 1024, s.sys.kernel.tables i ≠ 0 → InitTable i := by
  obtain ⟨p, hp, hinit⟩ := exists_pagingInit
  have hlt : limit ≤ 0x100000000 := by
    unfold kernelStackFirstPage kernelStackAddress kernelStackReservedPages at hlimit
    omega
  have hspare := hinit.spare hlimit hroom
  obtain ⟨s, hrun, hend, hpages, hbump⟩ := kallocInit_go (m := fun _ => 0)
    (sparePages_pagesOk uninit {p.kernelPageDirectory} ∅ kernelHeapAddress p hle hlt hmod)
    (fun hI he he' => sparePages_go uninit hle hlt hmod hI he (he'.trans (by decide)))
    ⟨hinit.inv.heapPages _, le_rfl, fun _ => hspare⟩
  obtain ⟨⟨bs, hinv⟩, hgrown⟩ := kallocInit_ok hinit.inv rfl rfl hinit.below hrun
  rw [← hgrown.kernel] at hinv
  rw [hend] at hgrown
  have htables : ∀ i < 1024, s.sys.kernel.tables i ≠ 0 → InitTable i := by
    intro i hi hne
    rcases hgrown.directories s.sys.kernelPageDirectory i with ⟨hsame, -⟩ | ⟨-, hlt, -⟩
    · refine hinit.tables i hi ?_
      unfold Paging.kernel
      rw [← hgrown.kernel, ← hsame]
      exact hne
    · exact .inl (by omega)
  have hbooted : Booted p fun _ => 0 := .init (by decide) rfl hp
  refine ⟨p, s, hp, hrun, ⟨.init hbooted hrun, ⟨bs, hinv⟩,
    ⟨hbump, by decide, ?_, ?_, by decide, hle, hlimit, hmod⟩, ?_, ?_⟩, htables⟩
  · rw [hend]
    exact hpages.2.2 (by decide)
  · rw [hend]
    decide
  · intro i hi hi' hor
    have htable := htables i hi (hor.resolve_right (by omega))
    unfold InitTable at htable
    simp only [Finset.mem_insert, Finset.mem_singleton]
    omega
  · rw [hgrown.processes, hinit.processes]
    rfl

theorem exists_kernelBooted (uninit : Paging → Mem → ℤ) (hle : 0x800000 ≤ limit)
    (hlimit : limit ≤ kernelStackFirstPage * 4096) (hmod : limit % 4096 = 0)
    (hroom : reserve + (limit - kernelHeapAddress) / 4096 * 2 ≤ 783360) :
    ∃ s, KernelBooted uninit limit reserve s := by
  obtain ⟨p, s, -, -, h, -⟩ := exists_kallocInit uninit hle hlimit hmod hroom
  exact ⟨s, h⟩

end

end RawOS
