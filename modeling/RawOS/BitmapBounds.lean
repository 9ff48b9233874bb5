import RawOS.KernelRun

/-!
# The bounds of the frame bitmap

`bitmap_set`, `bitmap_clear` and `bitmap_get` compare the number of a byte with the number of bits,
so the assertion lets the seven eighths of its range through that lie outside the array
(`bitmapGuard_outside_iff`). `paging_init` uses that: the first page of the kernel's stack has the
frame `AVAILABLE_FRAMES_NUM`, whose bit is in the byte after the array.
-/

namespace RawOS

/-- The bits of `b` stay set. -/
structure BitsKept (b b' : Bitmap) : Prop where
  size : b'.size = b.size
  has : ∀ k, b.Has k → b'.Has k

/-- The bytes after the array are not written. -/
def KeepsOutside (b b' : Bitmap) : Prop := ∀ i, b'.size ≤ i → b'.data i = b.data i

section

variable {b b' b'' : Bitmap} {index fuel n f i final : ℕ} {p p' : Paging}

theorem BitsKept.refl (b : Bitmap) : BitsKept b b := ⟨rfl, fun _ h => h⟩

theorem BitsKept.trans (h : BitsKept b b') (h' : BitsKept b' b'') : BitsKept b b'' :=
  ⟨h'.size.trans h.size, fun k hk => h'.has k (h.has k hk)⟩

theorem BitsKept.of_bitmapSet (h : bitmapSet b index = .ok b') : BitsKept b b' :=
  ⟨bitmapSet_size h, fun _ hk => (has_bitmapSet h).mpr (.inr hk)⟩

/-- The indexes that pass the assertion although their byte is not in the array. -/
theorem bitmapGuard_outside_iff (h : b.size * 8 < 4294967296) :
    bitmapGuard b index ∧ ¬ index / 8 < b.size ↔ b.size ≤ index / 8 ∧ index / 8 < 8 * b.size := by
  unfold bitmapGuard
  rw [u32_of_lt h]
  omega

/-- A new mapping sets the bit of its frame. -/
theorem createPrePagingMapping_bits :
    ∀ {fuel : ℕ} {p p' : Paging} {n f : ℕ}, createPrePagingMapping fuel p n f = .ok p' →
      BitsKept p.availableFrames p'.availableFrames ∧ p'.availableFrames.Has f
  | 0, _, _, _, _, hrun => by cases hrun
  | fuel + 1, p, p', n, f, hrun => by
    unfold createPrePagingMapping at hrun
    dsimp only at hrun
    -- the mapping itself, once the table exists
    have hmap : ∀ p₁ : Paging, (do
          let availableFrames ← bitmapSet p₁.availableFrames f
          return { p₁ with availableFrames := availableFrames }.setEntry (p₁.kernel.tables (n / 1024))
            (n % 1024) { PageEntry.zero with
              present := true, writable := true, frameAddress20Bits := f % 0x100000 }) =
        Except.ok p' → BitsKept p₁.availableFrames p'.availableFrames ∧ p'.availableFrames.Has f := by
      intro p₁ hset
      obtain ⟨b, hb, hset⟩ := bind_eq_ok.mp hset
      cases hset
      exact ⟨.of_bitmapSet hb, (has_bitmapSet hb).mpr (.inl rfl)⟩
    split_ifs at hrun
    · obtain ⟨p₁, htable, hrun⟩ := bind_eq_ok.mp hrun
      obtain ⟨hkept, hhas⟩ := hmap p₁ hrun
      exact ⟨(createPrePagingMapping_bits htable).1.trans hkept, hhas⟩
    · exact hmap p hrun

theorem createPrePagingPageTable_bits
    (hrun : createPrePagingPageTable (createPrePagingMapping fuel) p i = .ok p') :
    BitsKept p.availableFrames p'.availableFrames :=
  (createPrePagingMapping_bits hrun).1

/-- A loop whose body keeps the bits. -/
theorem forLoop_bits {body : ℕ → Paging → Except Panic Paging} {count : ℕ}
    (hbody : ∀ i p p', body i p = .ok p' → BitsKept p.availableFrames p'.availableFrames)
    (hrun : forLoop body count p = .ok p') : BitsKept p.availableFrames p'.availableFrames :=
  forLoop_ok (P := fun _ q => BitsKept p.availableFrames q.availableFrames) (.refl _)
    (fun i _ q q' hq hstep => hq.trans (hbody i q q' hstep)) hrun

/-- A loop whose body keeps the bits and sets that of its first frame. -/
theorem forLoop_first {page : ℕ → ℕ} {count : ℕ} (hcount : 0 < count)
    (hrun : forLoop (fun i p => createPrePagingMapping tableDepth p (page i) (page i)) count p =
      .ok p') : p'.availableFrames.Has (page 0) := by
  refine forLoop_ok (P := fun n q => 0 < n → q.availableFrames.Has (page 0))
    (fun h => absurd h (lt_irrefl 0)) (fun i _ q q' hq hstep _ => ?_) hrun hcount
  obtain ⟨hkept, hhas⟩ := createPrePagingMapping_bits hstep
  rcases Nat.eq_zero_or_pos i with rfl | hi
  · exact hhas
  · exact hkept.has _ (hq hi)

/-- `paging_init` sets the bit after the array. -/
theorem pagingInit_has (hrun : pagingInit final p = .ok p') :
    p'.availableFrames.Has availableFramesNum ∧
      p'.availableFrames.size = availableFramesNum / 8 := by
  unfold pagingInit at hrun
  obtain ⟨_, -, hrun⟩ := bind_eq_ok.mp hrun
  obtain ⟨_, -, hrun⟩ := bind_eq_ok.mp hrun
  obtain ⟨p₁, hrun₁, hrun⟩ := bind_eq_ok.mp hrun
  obtain ⟨p₂, hrun₂, hrun⟩ := bind_eq_ok.mp hrun
  obtain ⟨p₃, hrun₃, hrun⟩ := bind_eq_ok.mp hrun
  obtain ⟨p₄, hrun₄, hrun₅⟩ := bind_eq_ok.mp hrun
  have hmap : ∀ (page : ℕ → ℕ) i q q', createPrePagingMapping tableDepth q (page i) (page i) = .ok q' →
      BitsKept q.availableFrames q'.availableFrames := fun page i q q' hq =>
    (createPrePagingMapping_bits hq).1
  have h₁ := forLoop_bits (fun i q q' hq => createPrePagingPageTable_bits hq) hrun₁
  have h₂ := forLoop_bits (hmap fun i => kernelStackAddress / 0x1000 - i) hrun₂
  have h₃ := forLoop_bits (hmap fun i => 0xA0000 / 0x1000 + i) hrun₃
  have h₄ := forLoop_bits (hmap fun i => i) hrun₄
  have h₅ := forLoop_bits (fun i q q' hq => by
    obtain ⟨b, hb, hq⟩ := bind_eq_ok.mp hq
    cases hq
    exact .of_bitmapSet hb) hrun₅
  have hfirst : p₂.availableFrames.Has availableFramesNum :=
    @forLoop_first _ _ (fun i => kernelStackAddress / 0x1000 - i) _ (by decide) hrun₂
  exact ⟨h₅.has _ (h₄.has _ (h₃.has _ hfirst)),
    h₅.size.trans (h₄.size.trans (h₃.size.trans (h₂.size.trans h₁.size)))⟩

/-- A bit outside the array that was set. -/
theorem not_keepsOutside (hsize : b'.size ≤ index / 8) (hold : ¬ b.Has index) (hnew : b'.Has index) :
    ¬ KeepsOutside b b' := by
  intro hkeeps
  unfold Bitmap.Has at hold hnew
  rw [hkeeps _ hsize] at hnew
  exact hold hnew

/-- Every `paging_init` sets a bit whose byte is not in the array, and the assertions let exactly
the indexes in the following seven times the array through. -/
theorem bitmap_outside (hrun : pagingInit final p = .ok p') (hb : b.size * 8 < 4294967296)
    (index : ℕ) :
    (p'.availableFrames.Has availableFramesNum ∧
      ¬ availableFramesNum / 8 < p'.availableFrames.size ∧
      (¬ p.availableFrames.Has availableFramesNum →
        ¬ KeepsOutside p.availableFrames p'.availableFrames)) ∧
    (bitmapGuard b index ∧ ¬ index / 8 < b.size ↔
      b.size ≤ index / 8 ∧ index / 8 < 8 * b.size) := by
  obtain ⟨hhas, hsize⟩ := pagingInit_has hrun
  refine ⟨⟨hhas, not_lt.mpr hsize.le, fun hold => ?_⟩, bitmapGuard_outside_iff hb⟩
  exact not_keepsOutside hsize.le hold hhas

theorem bitmap_outside_poweredOn : ∃ p', pagingInit 0x30000 poweredOn = .ok p' ∧
    ¬ availableFramesNum / 8 < p'.availableFrames.size ∧
    (bitmapGuard p'.availableFrames availableFramesNum ∧
      ¬ availableFramesNum / 8 < p'.availableFrames.size ↔
      p'.availableFrames.size ≤ availableFramesNum / 8 ∧
        availableFramesNum / 8 < 8 * p'.availableFrames.size) := by
  obtain ⟨p', hrun, -⟩ := @pagingInit_spec 0x30000 poweredOn (by decide) rfl
  have hsize : p'.availableFrames.size * 8 < 4294967296 := by
    rw [(pagingInit_has hrun).2]
    decide
  have h := bitmap_outside hrun hsize availableFramesNum
  exact ⟨p', hrun, h.1.2.1, h.2⟩

/-- For an image that ends at `0x30000`, `paging_init` writes a byte that is not in the bitmap. -/
theorem not_keepsOutside_pagingInit : ∃ p', pagingInit 0x30000 poweredOn = .ok p' ∧
    ¬ KeepsOutside poweredOn.availableFrames p'.availableFrames := by
  obtain ⟨p', hrun, -⟩ := @pagingInit_spec 0x30000 poweredOn (by decide) rfl
  obtain ⟨hhas, hsize⟩ := pagingInit_has hrun
  exact ⟨p', hrun, not_keepsOutside hsize.le (by decide) hhas⟩

end

end RawOS
