import RawOS.KernelInv

/-!
# `alloc/kalloc.c`

`kalloc_init` takes one byte off the new heap and keeps it, so the first block is in use for good.
A `KallocRun` is `kalloc_init` and any calls of the functions of this file; it is a `HeapRun` in
which that byte is live (`KallocRun.heapRun`), and so no assertion of the heap fails in it
(`kallocRun_noAssertion`).
-/

namespace RawOS

section

variable {σ : Type} (env : PageEnv σ)

/-- `kalloc_init`, on any pages. -/
def kallocInitOn (sys : σ) (m : Mem) (initialPages : ℕ) : Except Panic (HeapState σ) := do
  let s ← kallocHeapCreate env sys m kernelHeapAddress initialPages
  let (_, s) ← kallocHeapAlloc env s 1 0x0
  return s

/-- `kalloc_realloc`. -/
def kallocRealloc (s : HeapState σ) (ptr oldSize newSize : ℕ) : Except Panic (ℕ × HeapState σ) := do
  if newSize ≤ oldSize then return (ptr, s)
  let (mem, s) ← kallocHeapAlloc env s newSize 0x0
  let s := { s with mem := memcpy s.mem mem ptr oldSize }
  let s ← kallocHeapFree env s ptr
  return (mem, s)

end

/-- The kernel calls it on its own pages. -/
example (uninit : Paging → Mem → ℤ) (initialPages : ℕ) (p : Paging) (m : Mem) :
    kallocInit uninit initialPages p m = kallocInitOn (pagingEnv uninit) p m initialPages := rfl

/-! ## Runs -/

/-- The heap after `kalloc_init` and any sequence of allocations, releases of live allocations and
reallocations of them, and the live allocations, without the byte of `kalloc_init`. -/
inductive KallocRun {σ : Type} (env : PageEnv σ) : HeapState σ → List Live → Prop where
  | init {sys : σ} {m : Mem} {initialPages : ℕ} {s : HeapState σ} :
    1 ≤ initialPages → kernelHeapAddress + (16 + initialPages) * 4096 ≤ 4294967296 →
    kallocInitOn env sys m initialPages = .ok s → KallocRun env s []
  | alloc {s s' : HeapState σ} {live : List Live} {size alignment p : ℕ} :
    KallocRun env s live → ValidAlignment alignment →
    kallocHeapAlloc env s size alignment = .ok (p, s') →
    KallocRun env s' (⟨p, size, alignment⟩ :: live)
  | free {s s' : HeapState σ} {live : List Live} {l : Live} :
    KallocRun env s live → l ∈ live → kallocHeapFree env s l.ptr = .ok s' →
    KallocRun env s' (live.erase l)
  | reallocKept {s s' : HeapState σ} {live : List Live} {l : Live} {oldSize newSize p : ℕ} :
    KallocRun env s live → l ∈ live → newSize ≤ oldSize →
    kallocRealloc env s l.ptr oldSize newSize = .ok (p, s') → KallocRun env s' live
  | reallocMoved {s s' : HeapState σ} {live : List Live} {l : Live} {oldSize newSize p : ℕ} :
    KallocRun env s live → l ∈ live → oldSize < newSize →
    kallocRealloc env s l.ptr oldSize newSize = .ok (p, s') →
    KallocRun env s' (⟨p, newSize, 0⟩ :: live.erase l)
  | write {s : HeapState σ} {live : List Live} {m : Mem} {sys : σ} :
    KallocRun env s live →
    (∀ x, kernelHeapAddress ≤ x → x < s.heap.initialAddr + s.heap.size →
      (∀ l ∈ live, ¬ l.Owns s.mem x) → m x = s.mem x) →
    KallocRun env ⟨s.heap, m, sys⟩ live

section

variable {σ : Type} {env : PageEnv σ} {base size alignment p : ℕ} {sys : σ} {m : Mem}
  {s s' : HeapState σ} {live : List Live} {l : Live} {e : Panic}

/-- The bytes that were asked for without an alignment are the owner's. -/
theorem HeapRun.owns (hK : KeepsHeap env base) (h : HeapRun env base s live) (hl : l ∈ live)
    (h0 : l.alignment = 0) {x : ℕ} (h₁ : l.ptr ≤ x) (h₂ : x < l.ptr + l.size) : l.Owns s.mem x := by
  obtain ⟨bs, hi⟩ := h.inv hK
  exact hi.owns hl h0 h₁ h₂

/-- What was just allocated is a new pointer. -/
theorem HeapRun.alloc_fresh (hK : KeepsHeap env base)
    (h : HeapRun env base s (⟨p, size, alignment⟩ :: live)) : ∀ l ∈ live, l.ptr ≠ p := by
  obtain ⟨bs, hi⟩ := h.inv hK
  intro l hl heq
  have hnodup := hi.nodup
  rw [List.map_cons, List.nodup_cons] at hnodup
  exact hnodup.1 (List.mem_map.mpr ⟨l, hl, heq⟩)

/-- An allocation leaves the bytes of the others alone. -/
theorem HeapRun.alloc_frame (hK : KeepsHeap env base) (h : HeapRun env base s live)
    (hv : ValidAlignment alignment)
    (hfirst : alignment ≠ 0 → headerUsed s.mem s.heap.initialAddr ≠ 0)
    (hrun : kallocHeapAlloc env s size alignment = .ok (p, s')) (hl : l ∈ live) {x : ℕ}
    (hx : l.Owns s.mem x) : s'.mem x = s.mem x := by
  obtain ⟨bs, hi⟩ := h.inv hK
  obtain ⟨bs', ha⟩ := (kallocHeapAlloc_spec (hK.pagesOk ∅) hi.heap trivial
    (fun x hx => absurd hx (Set.notMem_empty x)) hv fun ha => hi.heap.first_used (hfirst ha)).of_ok
    hrun
  exact ha.frame x (hx.payload hi hl) (Set.notMem_empty x)

/-- A release leaves the bytes of the others alone. -/
theorem HeapRun.free_frame (hK : KeepsHeap env base) (h : HeapRun env base s live)
    (hrun : kallocHeapFree env s l.ptr = .ok s') (hl : l ∈ live) {l' : Live} (hl' : l' ∈ live)
    (hne : l'.ptr ≠ l.ptr) {x : ℕ} (hx : l'.Owns s.mem x) : s'.mem x = s.mem x := by
  obtain ⟨bs, hi⟩ := h.inv hK
  obtain ⟨b, hb, hbu, hbp, -⟩ := hi.held l hl
  obtain ⟨c, hc, hcu, hcp, -⟩ := hi.held l' hl'
  rw [← hbp] at hrun
  obtain ⟨bs', hf⟩ := (kallocHeapFree_spec hi.heap hb hbu).of_ok hrun
  obtain ⟨h₁, -, h₂⟩ := hx
  have hhead : l'.ptr - 12 = c.addr := by
    unfold Block.user at hcp
    omega
  rw [hhead, (hi.heap.shape.stands c hc).header.size] at h₂
  refine hf.frame x (.inr (.inr ⟨c, hc, ?_, hcu, by omega, ?_⟩))
  · rintro rfl
    exact hne (hcp.symm.trans hbp)
  · unfold Block.user at hcp
    unfold Block.footer
    omega

/-- Two live allocations without an alignment lie apart, in the address space. -/
theorem HeapRun.apart (hK : KeepsHeap env base) (h : HeapRun env base s live) (hl : l ∈ live)
    (h0 : l.alignment = 0) {l' : Live} (hl' : l' ∈ live) (h0' : l'.alignment = 0)
    (hne : l.ptr ≠ l'.ptr) : l.ptr + l.size ≤ l'.ptr ∨ l'.ptr + l'.size ≤ l.ptr := by
  obtain ⟨bs, hi⟩ := h.inv hK
  obtain ⟨b, hb, -, hbp, hfit⟩ := hi.exists_block hl fun ha => absurd h0 ha
  obtain ⟨c, hc, -, hcp, hfit'⟩ := hi.exists_block hl' fun ha => absurd h0' ha
  rcases hi.heap.shape.tiles.apart hb hc with rfl | h | h
  · exact absurd (hbp.symm.trans hcp) hne
  all_goals
    unfold Block.next at h
    unfold Block.user at hbp hcp
    omega

theorem HeapRun.bounds (hK : KeepsHeap env base) (h : HeapRun env base s live) (hl : l ∈ live)
    (h0 : l.alignment = 0) : 0 < l.ptr ∧ l.ptr + l.size ≤ 4294967296 := by
  obtain ⟨bs, hi⟩ := h.inv hK
  obtain ⟨b, hb, -, hbp, hfit⟩ := hi.exists_block hl fun ha => absurd h0 ha
  have hle := hi.heap.shape.next_le hb
  unfold Block.user at hbp
  omega

/-- The bytes that are copied into a new allocation are its own. -/
theorem HeapRun.copy {oldSize : ℕ} (hK : KeepsHeap env base)
    (h : HeapRun env base s (⟨p, size, 0⟩ :: live)) (hlt : oldSize < size) :
    HeapRun env base { s with mem := memcpy s.mem p l.ptr oldSize } (⟨p, size, 0⟩ :: live) := by
  refine h.write fun x _ _ hx => memcpy_of_outside ?_
  by_contra hin
  exact hx _ List.mem_cons_self (h.owns hK List.mem_cons_self rfl (by dsimp only; omega)
    (by dsimp only; omega))

/-- The first block is in use where the byte of `kalloc_init` is live. -/
theorem HeapRun.first_used (hK : KeepsHeap env kernelHeapAddress)
    (h : HeapRun env kernelHeapAddress s (live ++ [firstByte])) :
    headerUsed s.mem s.heap.initialAddr ≠ 0 := by
  obtain ⟨bs, hi⟩ := h.inv hK
  obtain ⟨c, hc, hcu, hca⟩ := hi.first_used (List.mem_append_right _ List.mem_cons_self)
  rw [← hca, (hi.heap.shape.stands c hc).header.used, hcu]
  decide

/-- `kalloc_realloc` to a larger block is an allocation, writes into it, and a release. -/
theorem HeapRun.realloc {oldSize newSize : ℕ} (hK : KeepsHeap env base)
    (h : HeapRun env base s live) (hl : l ∈ live) (hlt : oldSize < newSize)
    (hrun : kallocRealloc env s l.ptr oldSize newSize = .ok (p, s')) :
    HeapRun env base s' (⟨p, newSize, 0⟩ :: live.erase l) := by
  unfold kallocRealloc at hrun
  rw [if_neg (by omega)] at hrun
  obtain ⟨⟨q, s₁⟩, halloc, hrun⟩ := bind_eq_ok.mp hrun
  obtain ⟨s₂, hfree, hrun⟩ := bind_eq_ok.mp hrun
  cases hrun
  have h₁ := h.alloc (.inl rfl) (fun h0 => absurd rfl h0) halloc
  have h₂ := h₁.copy hK (l := l) hlt
  have h₃ := h₂.free (.tail _ hl) hfree
  rwa [List.erase_cons_tail] at h₃
  rintro heq
  exact h₁.alloc_fresh hK l hl (congrArg Live.ptr (beq_iff_eq.mp heq).symm)

/-- After `kalloc_init` the first byte of the heap is live. -/
theorem kallocInitOn_run {initialPages : ℕ} (hK : KeepsHeap env kernelHeapAddress)
    (hpages : 1 ≤ initialPages) (hfits : kernelHeapAddress + (16 + initialPages) * 4096 ≤ 4294967296)
    (hrun : kallocInitOn env sys m initialPages = .ok s) :
    HeapRun env kernelHeapAddress s [firstByte] := by
  obtain ⟨s₀, hcreate, hrun⟩ := bind_eq_ok.mp hrun
  obtain ⟨⟨p, s₁⟩, halloc, hrun⟩ := bind_eq_ok.mp hrun
  cases hrun
  have hheap := (kallocHeapCreate_inv (hK.pagesOk ∅) trivial hfits hcreate).1
  obtain ⟨rfl, -⟩ := kallocAlloc_first hheap hpages halloc
  exact (HeapRun.create hfits hcreate).alloc (.inl rfl) (fun h0 => absurd rfl h0) halloc

/-- A run of `kalloc.c` is one of the heap, in which the first byte stays live. -/
theorem KallocRun.heapRun (hK : KeepsHeap env kernelHeapAddress) (h : KallocRun env s live) :
    HeapRun env kernelHeapAddress s (live ++ [firstByte]) := by
  induction h with
  | init hpages hfits hrun => exact kallocInitOn_run hK hpages hfits hrun
  | alloc _ hv hrun ih => exact ih.alloc hv (fun _ => ih.first_used hK) hrun
  | free _ hl hrun ih =>
    have h₁ := ih.free (List.mem_append_left _ hl) hrun
    rwa [List.erase_append_left _ hl] at h₁
  | reallocKept _ _ hle hrun ih =>
    unfold kallocRealloc at hrun
    rw [if_pos hle] at hrun
    cases hrun
    exact ih
  | reallocMoved _ hl hlt hrun ih =>
    have h₁ := ih.realloc hK (List.mem_append_left _ hl) hlt hrun
    rwa [List.erase_append_left _ hl] at h₁
  | write _ hm ih =>
    exact ih.write fun x h₁ h₂ hx => hm x h₁ h₂ fun l hl => hx l (List.mem_append_left _ hl)

/-! ## Assertions -/

/-- The texts of the assertions of `kalloc_heap_alloc` and `kalloc_heap_free`. -/
def heapAssertions : List String :=
  ["kalloc: found hole in inconsistent state (expected used=0, but got used=%u).",
    "kalloc: aligned space must be greater or equal to original space",
    "kalloc: aligned-alloc is not supported when heap is empty",
    "kalloc: new footer address must be greater than previous footer address",
    "kalloc: found hole in inconsistent state (expected used=1, but got used=%u)."]

/-- One of them failed. -/
def HeapAssertion (e : Panic) : Prop := ∃ message ∈ heapAssertions, e = .assertFailed message

theorem not_heapAssertion_poolExhausted : ¬ HeapAssertion poolExhausted := by
  rintro ⟨message, hmem, he⟩
  cases he
  exact absurd hmem (by decide)

theorem External.not_heapAssertion
    (hpage : ∀ page sys m e, env.createPage page sys m = .error e → ¬ HeapAssertion e)
    (he : External env e) : ¬ HeapAssertion e := by
  rcases he with rfl | ⟨page, sys, m, herr⟩
  · exact not_heapAssertion_poolExhausted
  · exact hpage _ _ _ _ herr

/-- The call does not end in a failed assertion of the heap. -/
def NoAssertion {α : Type} (x : Except Panic α) : Prop :=
  Ends x (fun _ => True) fun e => ¬ HeapAssertion e

section

variable (hK : KeepsHeap env base)
  (hpage : ∀ page sys m e, env.createPage page sys m = .error e → ¬ HeapAssertion e)
include hK hpage

theorem HeapRun.alloc_noAssertion (h : HeapRun env base s live) (hv : ValidAlignment alignment)
    (hfirst : alignment ≠ 0 → headerUsed s.mem s.heap.initialAddr ≠ 0) :
    NoAssertion (kallocHeapAlloc env s size alignment) := by
  obtain ⟨bs, hi⟩ := h.inv hK
  exact (kallocHeapAlloc_spec (hK.pagesOk ∅) hi.heap trivial
    (fun x hx => absurd hx (Set.notMem_empty x)) hv fun ha => hi.heap.first_used (hfirst ha)).mono
    (fun _ _ => trivial) fun _ he => he.not_heapAssertion hpage

theorem HeapRun.free_noAssertion (h : HeapRun env base s live) (hl : l ∈ live) :
    NoAssertion (kallocHeapFree env s l.ptr) := by
  obtain ⟨bs, hi⟩ := h.inv hK
  obtain ⟨b, hb, hbu, hbp, -⟩ := hi.held l hl
  rw [← hbp]
  exact (kallocHeapFree_spec hi.heap hb hbu).mono (fun _ _ => trivial)
    fun _ he => he.1.external.not_heapAssertion hpage

theorem HeapRun.realloc_noAssertion (h : HeapRun env base s live) (hl : l ∈ live)
    (oldSize newSize : ℕ) : NoAssertion (kallocRealloc env s l.ptr oldSize newSize) := by
  unfold kallocRealloc
  split_ifs with hle
  · exact trivial
  · have halloc : NoAssertion (kallocHeapAlloc env s newSize 0) :=
      h.alloc_noAssertion hK hpage (.inl rfl) fun h0 => absurd rfl h0
    cases hrun : kallocHeapAlloc env s newSize 0 with
    | error e =>
      rw [hrun] at halloc
      exact halloc
    | ok r =>
      obtain ⟨q, s₁⟩ := r
      have h₁ := h.alloc (.inl rfl) (fun h0 => absurd rfl h0) hrun
      have h₂ := h₁.copy hK (l := l) (not_le.mp hle)
      exact (h₂.free_noAssertion hK hpage (.tail _ hl)).bind fun _ _ => trivial

end

/-- In no run of `kalloc.c` an assertion of the heap fails. -/
theorem kallocRun_noAssertion (hK : KeepsHeap env kernelHeapAddress)
    (hpage : ∀ page sys m e, env.createPage page sys m = .error e → ¬ HeapAssertion e)
    (h : KallocRun env s live) :
    (∀ size alignment, ValidAlignment alignment →
      NoAssertion (kallocHeapAlloc env s size alignment)) ∧
    (∀ l ∈ live, NoAssertion (kallocHeapFree env s l.ptr)) ∧
    ∀ l ∈ live, ∀ oldSize newSize, NoAssertion (kallocRealloc env s l.ptr oldSize newSize) := by
  have hrun := h.heapRun hK
  refine ⟨fun size alignment hv => hrun.alloc_noAssertion hK hpage hv fun _ => hrun.first_used hK,
    fun l hl => hrun.free_noAssertion hK hpage (List.mem_append_left _ hl),
    fun l hl => hrun.realloc_noAssertion hK hpage (List.mem_append_left _ hl)⟩

/-- A heap of one page after `kalloc_init`. -/
theorem exists_flatInit : ∃ s, KallocRun flatEnv s [] ∧
    HeapInv 0x500000 [⟨0x510000, 1, true⟩, ⟨0x510015, 4055, false⟩] s.heap s.mem := by
  obtain ⟨s₀, hcreate, hinv₀⟩ := exists_flatCreate (show 0 < 1 by decide) (by decide)
  obtain ⟨s₁, hrun₁, hinv₁⟩ := @kallocHeapAlloc_flat [] _ _ 1 _ hinv₀
    (fun x hx => absurd hx List.not_mem_nil) (by decide)
  have hinit : kallocInitOn flatEnv () (fun _ => 0) 1 = .ok s₁ := by
    unfold kallocInitOn
    have hcreate' : kallocHeapCreate flatEnv () (fun _ => 0) kernelHeapAddress 1 = .ok s₀ := hcreate
    rw [hcreate', ok_bind, hrun₁]
    rfl
  exact ⟨s₁, .init (by decide) (by decide) hinit, hinv₁⟩

/-- A run with one live allocation. -/
theorem exists_flatAlloc {size : ℕ} (hsize : size + 20 < 4055) :
    ∃ s, KallocRun flatEnv s [⟨0x510021, size, 0⟩] ∧
      HeapInv 0x500000 [⟨0x510000, 1, true⟩, ⟨0x510015, size, true⟩,
        ⟨0x510015 + size + 20, 4055 - size - 20, false⟩] s.heap s.mem := by
  obtain ⟨s, h, hinv⟩ := exists_flatInit
  obtain ⟨s', hrun, hinv'⟩ := @kallocHeapAlloc_flat [⟨0x510000, 1, true⟩] _ _ size _ hinv (by simp)
    hsize
  exact ⟨s', .alloc h (.inl rfl) hrun, hinv'⟩

theorem kallocRun_noAssertion_byte : ∃ s, KallocRun flatEnv s [⟨0x510021, 1, 0⟩] ∧
    NoAssertion (kallocHeapAlloc flatEnv s 4096 4096) ∧
    NoAssertion (kallocHeapFree flatEnv s 0x510021) := by
  obtain ⟨s, h, -⟩ := exists_flatAlloc (show 1 + 20 < 4055 by decide)
  obtain ⟨halloc, hfree, -⟩ := kallocRun_noAssertion (flatEnv_keepsHeap _) (fun page sys m e he => by
    unfold flatEnv at he
    dsimp only at he
    split_ifs at he
    cases he
    rintro ⟨message, hmem, heq⟩
    cases heq
    exact absurd hmem (by decide)) h
  exact ⟨s, h, halloc 4096 4096 validAlignment_page, hfree ⟨0x510021, 1, 0⟩ List.mem_cons_self⟩

end

end RawOS
