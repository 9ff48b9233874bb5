import RawOS.Bitmap
import Mathlib.Order.Bounds.Basic
import Mathlib.Data.Finset.Range
import Mathlib.Data.Finset.Filter
import Mathlib.Data.Finset.Insert
import Mathlib.Data.Finset.Erase

/-!
# A bitmap as a finite set

`bitmap_set` and `bitmap_clear` insert and erase an index, `bitmap_get` tests one, and
`bitmap_get_first_clear` finds the least one that is not in the set. All of this is right as long as
the number of bits is a `u32`: from 2 ^ 29 bytes on the product `bitmap->size * 8` wraps.
-/

namespace RawOS

/-- A call that changes a bitmap. -/
inductive BitOp where
  | set (index : ℕ)
  | clear (index : ℕ)
  deriving DecidableEq, Repr

def BitOp.index : BitOp → ℕ
  | .set index => index
  | .clear index => index

def BitOp.run (bitmap : Bitmap) : BitOp → Except Panic Bitmap
  | .set index => bitmapSet bitmap index
  | .clear index => bitmapClear bitmap index

def bitmapRun (ops : List BitOp) (bitmap : Bitmap) : Except Panic Bitmap :=
  ops.foldlM BitOp.run bitmap

/-! ## The abstract set -/

/-- What a call does to a set. -/
def BitOp.apply (s : Finset ℕ) : BitOp → Finset ℕ
  | .set index => insert index s
  | .clear index => s.erase index

def setRun (ops : List BitOp) (s : Finset ℕ) : Finset ℕ := ops.foldl BitOp.apply s

/-- The bits of the array that are set. -/
def Bitmap.bits (bitmap : Bitmap) : Finset ℕ := (Finset.range (8 * bitmap.size)).filter bitmap.Has

/-- The bitmap is the set `s`, and its functions say so. -/
structure RepresentsSet (bitmap : Bitmap) (s : Finset ℕ) : Prop where
  bits : bitmap.bits = s
  get : ∀ index < 8 * bitmap.size, index < 4294967296 →
    bitmapGet bitmap index = .ok (if index ∈ s then 1 else 0)
  firstClear : ∀ index, bitmapGetFirstClear bitmap = .ok index ↔
    IsLeast {k | k < 8 * bitmap.size ∧ k ∉ s} index
  full : bitmapGetFirstClear bitmap = .error (.panic "Bitmap full!") ↔
    s = Finset.range (8 * bitmap.size)

/-- Every run of calls on a bitmap of `n` bytes is a run on its set. An index is a `u32`. -/
def BitmapRefines (n : ℕ) : Prop :=
  ∀ bitmap : Bitmap, bitmap.size = n → ∀ ops : List BitOp,
    (∀ op ∈ ops, op.index < 8 * n ∧ op.index < 4294967296) →
    ∃ bitmap', bitmapRun ops bitmap = .ok bitmap' ∧ bitmap'.size = n ∧
      (∀ i, n ≤ i → bitmap'.data i = bitmap.data i) ∧
      RepresentsSet bitmap' (setRun ops bitmap.bits)

section

variable {bitmap bitmap' : Bitmap} {op : BitOp} {n k : ℕ}

theorem mem_bits : k ∈ bitmap.bits ↔ k < 8 * bitmap.size ∧ bitmap.Has k := by
  unfold Bitmap.bits
  rw [Finset.mem_filter, Finset.mem_range]

/-- One call: it returns, changes its own bit only, and no byte after the array. -/
theorem BitOp.run_spec (hsize : bitmap.size * 8 < 4294967296) (hindex : op.index < 8 * bitmap.size) :
    ∃ bitmap', op.run bitmap = .ok bitmap' ∧ bitmap'.size = bitmap.size ∧
      (∀ i, bitmap.size ≤ i → bitmap'.data i = bitmap.data i) ∧
      bitmap'.bits = op.apply bitmap.bits := by
  have hguard := bitmapGuard_of_lt hsize hindex
  have houtside : ∀ i, bitmap.size ≤ i → i ≠ op.index / 8 := by omega
  cases op with
  | set index =>
    have hrun := bitmapSet_eq_ok.mpr ⟨hguard, rfl⟩
    refine ⟨_, hrun, bitmapSet_size hrun, fun i hi => Function.update_of_ne (houtside i hi) .., ?_⟩
    ext k
    rw [BitOp.apply, Finset.mem_insert, mem_bits, mem_bits, has_bitmapSet hrun, bitmapSet_size hrun]
    constructor
    · rintro ⟨hk, rfl | hhas⟩
      · exact .inl rfl
      · exact .inr ⟨hk, hhas⟩
    · rintro (rfl | ⟨hk, hhas⟩)
      · exact ⟨hindex, .inl rfl⟩
      · exact ⟨hk, .inr hhas⟩
  | clear index =>
    have hrun := bitmapClear_eq_ok.mpr ⟨hguard, rfl⟩
    refine ⟨_, hrun, bitmapClear_size hrun, fun i hi => Function.update_of_ne (houtside i hi) .., ?_⟩
    ext k
    rw [BitOp.apply, Finset.mem_erase, mem_bits, mem_bits, has_bitmapClear hrun,
      bitmapClear_size hrun]
    exact and_left_comm

theorem bitmapRun_cons {ops : List BitOp} :
    bitmapRun (op :: ops) bitmap = op.run bitmap >>= bitmapRun ops :=
  List.foldlM_cons

/-- A run of calls: what each keeps, the whole run keeps. -/
theorem bitmapRun_spec : ∀ {ops : List BitOp} {bitmap : Bitmap},
    bitmap.size * 8 < 4294967296 → (∀ op ∈ ops, op.index < 8 * bitmap.size) →
    ∃ bitmap', bitmapRun ops bitmap = .ok bitmap' ∧ bitmap'.size = bitmap.size ∧
      (∀ i, bitmap.size ≤ i → bitmap'.data i = bitmap.data i) ∧
      bitmap'.bits = setRun ops bitmap.bits
  | [], bitmap, _, _ => ⟨bitmap, rfl, rfl, fun _ _ => rfl, rfl⟩
  | op :: ops, bitmap, hsize, hindex => by
    obtain ⟨b₁, hrun₁, hsize₁, hdata₁, hbits₁⟩ := BitOp.run_spec hsize (hindex op List.mem_cons_self)
    obtain ⟨b₂, hrun₂, hsize₂, hdata₂, hbits₂⟩ :=
      @bitmapRun_spec ops b₁ (by omega) fun op' hop' => by
        rw [hsize₁]
        exact hindex op' (List.mem_cons_of_mem op hop')
    refine ⟨b₂, ?_, hsize₂.trans hsize₁, fun i hi => ?_, ?_⟩
    · rw [bitmapRun_cons, hrun₁, ok_bind, hrun₂]
    · exact (hdata₂ i (hsize₁ ▸ hi)).trans (hdata₁ i hi)
    · rw [hbits₂, hbits₁]
      rfl

/-! ## The functions that read -/

theorem notMem_bits (hk : k < 8 * bitmap.size) : k ∉ bitmap.bits ↔ ¬ bitmap.Has k := by
  rw [mem_bits, not_and]
  exact ⟨fun h => h hk, fun h _ => h⟩

theorem bits_eq_range :
    bitmap.bits = Finset.range (8 * bitmap.size) ↔ ∀ k < 8 * bitmap.size, bitmap.Has k := by
  unfold Bitmap.bits
  rw [Finset.filter_eq_self]
  exact forall_congr' fun k => by rw [Finset.mem_range]

/-- The scan has one result: the least clear bit, or the panic of a full bitmap. -/
theorem representsSet_bits (hsize : bitmap.size * 8 < 4294967296) :
    RepresentsSet bitmap bitmap.bits := by
  have hfirst := bitmapGetFirstClear_spec hsize.le
  refine ⟨rfl, fun index hindex _ => ?_, fun index => ?_, ?_⟩
  · rw [bitmapGet_spec (bitmapGuard_of_lt hsize hindex)]
    exact congrArg Except.ok (if_congr (by rw [mem_bits, and_iff_right hindex]) rfl rfl)
  · constructor
    · intro heq
      rw [heq] at hfirst
      obtain ⟨hlt, hclear, hleast⟩ := hfirst
      refine ⟨⟨hlt, (notMem_bits hlt).mpr hclear⟩, fun k hk => ?_⟩
      by_contra hlt'
      exact (notMem_bits hk.1).mp hk.2 (hleast k (not_le.mp hlt'))
    · rintro ⟨⟨hlt, hclear⟩, hleast⟩
      cases heq : bitmapGetFirstClear bitmap with
      | ok index' =>
        rw [heq] at hfirst
        obtain ⟨hlt', hclear', hleast'⟩ := hfirst
        have hle : index ≤ index' := hleast ⟨hlt', (notMem_bits hlt').mpr hclear'⟩
        have hge : ¬ index < index' := fun h => (notMem_bits hlt).mp hclear (hleast' index h)
        rw [show index' = index by omega]
      | error e =>
        rw [heq] at hfirst
        exact absurd (hfirst.2 index hlt) ((notMem_bits hlt).mp hclear)
  · rw [bits_eq_range]
    constructor
    · intro heq
      rw [heq] at hfirst
      exact hfirst.2
    · intro hfull
      cases heq : bitmapGetFirstClear bitmap with
      | ok index =>
        rw [heq] at hfirst
        exact absurd (hfull index hfirst.1) hfirst.2.1
      | error e =>
        rw [heq] at hfirst
        rw [hfirst.1]

/-! ## Where the number of bits is no `u32` -/

/-- What the scan returns is a `u32`. -/
theorem bitmapGetFirstClear_lt (h : bitmapGetFirstClear bitmap = .ok k) : k < 4294967296 := by
  unfold bitmapGetFirstClear at h
  cases hscan : (List.range bitmap.size).findSome? (bitmapFirstClearOfByte bitmap) with
  | none =>
    rw [hscan] at h
    cases h
  | some index =>
    rw [hscan] at h
    obtain rfl := Except.ok.inj h
    obtain ⟨i, -, hbyte, -⟩ := findSome?_range_eq_some hscan
    obtain ⟨j, -, hbit, -⟩ := findSome?_range_eq_some hbyte
    split_ifs at hbit
    obtain rfl := Option.some.inj hbit
    exact Nat.mod_lt _ (by decide)

/-- The bitmap of `n` bytes in which the bits that a `u32` can name are set, and no other. -/
def namedBits (n : ℕ) : Bitmap := ⟨fun i => if i < 536870912 then 255 else 0, n⟩

theorem has_namedBits : (namedBits n).Has k ↔ k < 4294967296 := by
  have hones : ∀ j < 8, (255 : UInt8).toBitVec.getLsbD j = true := by decide
  unfold namedBits Bitmap.Has
  dsimp only
  by_cases hk : k < 4294967296
  · rw [if_pos (by omega)]
    exact iff_of_true (hones _ (by omega)) hk
  · rw [if_neg (by omega)]
    exact iff_of_false (by simp) hk

/-- The least clear bit of a bitmap with more than 2 ^ 32 bits may be one that no `u32` names. -/
theorem not_bitmapRefines_of_lt (h : 4294967296 < 8 * n) : ¬ BitmapRefines n := by
  intro hrefines
  obtain ⟨b, hrun, -, -, hb⟩ := hrefines (namedBits n) rfl [] fun op hop =>
    absurd hop List.not_mem_nil
  obtain rfl := Except.ok.inj hrun
  have hleast : IsLeast {k | k < 8 * (namedBits n).size ∧ k ∉ (namedBits n).bits} 4294967296 := by
    refine ⟨⟨h, ?_⟩, fun k hk => ?_⟩
    · rw [notMem_bits h, has_namedBits]
      exact lt_irrefl _
    · obtain ⟨hlt, hclear⟩ := hk
      exact not_lt.mp fun hnamed => (notMem_bits hlt).mp hclear (has_namedBits.mpr hnamed)
  exact absurd (bitmapGetFirstClear_lt ((hb.firstClear _).mpr hleast)) (lt_irrefl _)

/-- With 2 ^ 32 bits, `bitmap->size * 8` is zero and the assertions let no index through. -/
theorem not_bitmapRefines_wrapped : ¬ BitmapRefines 536870912 := by
  intro hrefines
  obtain ⟨b, hrun, -⟩ := hrefines (namedBits 536870912) rfl [.set 0] fun op hop => by
    obtain rfl := List.mem_singleton.mp hop
    decide
  rw [bitmapRun_cons] at hrun
  obtain ⟨b₁, hset, -⟩ := bind_eq_ok.mp hrun
  exact absurd (bitmapSet_eq_ok.mp hset).1 (by decide)

/-- The bitmaps of `n` bytes are finite sets exactly if the number of their bits is a `u32`. -/
theorem bitmapRefines_iff : BitmapRefines n ↔ 8 * n < 4294967296 := by
  constructor
  · intro h
    by_contra hlt
    rcases (not_lt.mp hlt).lt_or_eq with hgt | heq
    · exact not_bitmapRefines_of_lt hgt h
    · obtain rfl : n = 536870912 := by omega
      exact not_bitmapRefines_wrapped h
  · intro h bitmap hn ops hops
    subst hn
    obtain ⟨bitmap', hrun, hsize, hdata, hbits⟩ :=
      bitmapRun_spec (by omega : bitmap.size * 8 < 4294967296) fun op hop => (hops op hop).1
    refine ⟨bitmap', hrun, hsize, hdata, ?_⟩
    rw [← hbits]
    exact representsSet_bits (by omega)

/-- A bitmap whose size is a `u32` need not be a set: the one of 2 ^ 29 bytes is none. -/
theorem not_forall_bitmapRefines : ¬ ∀ n < 4294967296, BitmapRefines n := fun h =>
  not_bitmapRefines_wrapped (h 536870912 (by decide))

end

end RawOS
