import RawOS.Alloc.AvlRep

/-!
# Lists of blocks

The heap without its memory: a list of blocks that tile an interval (`Tiles`), the holes among
them, and what an allocation does to the list. A hole is taken by `Block.take`, which may leave a
smaller hole, after `pad` has given the space before the aligned address to the block before it.
-/

namespace RawOS

/-! ## Blocks -/

/-- A block, by the address of its header. -/
@[ext] structure Block where
  addr : ℕ
  size : ℕ
  used : Bool
  deriving DecidableEq

namespace Block

/-- The address that the user sees. -/
def user (b : Block) : ℕ := b.addr + 12
def footer (b : Block) : ℕ := b.addr + 12 + b.size
/-- The end of the block. -/
def next (b : Block) : ℕ := b.addr + b.size + 20

/-- The key of the block in the tree of holes. -/
def key (b : Block) : Hole := hole b.size b.user

@[simp] theorem key_size (b : Block) : b.key.size = b.size := rfl
@[simp] theorem key_addr (b : Block) : b.key.addr = b.addr + 12 := rfl

end Block

/-- The blocks lie one after the other from `a` to `e`. -/
def Tiles : ℕ → List Block → ℕ → Prop
  | a, [], e => a = e
  | a, b :: bs, e => b.addr = a ∧ Tiles b.next bs e

/-- No two holes touch. -/
def Separated (bs : List Block) : Prop :=
  ∀ b ∈ bs, ∀ c ∈ bs, b.next = c.addr → b.used = true ∨ c.used = true

/-- The keys of the holes. -/
def holes (bs : List Block) : List Hole := (bs.filter fun b => !b.used).map Block.key

/-- A hole touches `b`. -/
def FreeNeighbour (bs : List Block) (b : Block) : Prop :=
  ∃ c ∈ bs, c.used = false ∧ (c.next = b.addr ∨ b.next = c.addr)

/-- The bytes of the used blocks. -/
def Payload (bs : List Block) (x : ℕ) : Prop :=
  ∃ b ∈ bs, b.used = true ∧ b.user ≤ x ∧ x < b.footer

theorem payload_congr {bs bs' : List Block} (h : ∀ b : Block, b.used = true → (b ∈ bs' ↔ b ∈ bs))
    {x : ℕ} : Payload bs' x ↔ Payload bs x :=
  exists_congr fun b => by
    constructor
    · rintro ⟨hb, hu, hx⟩
      exact ⟨(h b hu).mp hb, hu, hx⟩
    · rintro ⟨hb, hu, hx⟩
      exact ⟨(h b hu).mpr hb, hu, hx⟩

section Tiles

variable {a e : ℕ} {b c : Block} {bs xs ys : List Block}

theorem tiles_append : Tiles a (xs ++ ys) e ↔ ∃ c, Tiles a xs c ∧ Tiles c ys e := by
  induction xs generalizing a with
  | nil => simp [Tiles]
  | cons b xs ih => simp only [List.cons_append, Tiles, ih, ← exists_and_left, and_assoc]

@[simp] theorem tiles_nil : Tiles a [] e ↔ a = e := Iff.rfl

@[simp] theorem tiles_cons : Tiles a (b :: bs) e ↔ b.addr = a ∧ Tiles b.next bs e := Iff.rfl

theorem Tiles.le (h : Tiles a bs e) : a ≤ e := by
  induction bs generalizing a with
  | nil => exact h.le
  | cons b bs ih =>
    obtain ⟨rfl, h⟩ := h
    have := ih h
    unfold Block.next at this
    omega

theorem Tiles.mem (h : Tiles a bs e) (hb : b ∈ bs) : a ≤ b.addr ∧ b.next ≤ e := by
  induction bs generalizing a with
  | nil => exact absurd hb List.not_mem_nil
  | cons c bs ih =>
    obtain ⟨rfl, h⟩ := h
    rcases List.mem_cons.mp hb with rfl | hb
    · exact ⟨le_rfl, h.le⟩
    · obtain ⟨h₁, h₂⟩ := ih h hb
      unfold Block.next at h₁
      exact ⟨by omega, h₂⟩

/-- Two blocks are the same or apart. -/
theorem Tiles.apart (h : Tiles a bs e) (hb : b ∈ bs) (hc : c ∈ bs) :
    b = c ∨ b.next ≤ c.addr ∨ c.next ≤ b.addr := by
  induction bs generalizing a with
  | nil => exact absurd hb List.not_mem_nil
  | cons d bs ih =>
    obtain ⟨rfl, h⟩ := h
    rcases List.mem_cons.mp hb with rfl | hb'
    · rcases List.mem_cons.mp hc with rfl | hc'
      · exact .inl rfl
      · exact .inr (.inl (h.mem hc').1)
    · rcases List.mem_cons.mp hc with rfl | hc'
      · exact .inr (.inr (h.mem hb').1)
      · exact ih h hb' hc'

theorem Tiles.eq_of_addr (h : Tiles a bs e) (hb : b ∈ bs) (hc : c ∈ bs)
    (hbc : b.addr = c.addr) : b = c := by
  rcases h.apart hb hc with h | h | h
  · exact h
  all_goals
    unfold Block.next at h
    omega

theorem Tiles.payload (h : Tiles a bs e) {x : ℕ} (hx : Payload bs x) : a ≤ x ∧ x < e := by
  obtain ⟨b, hb, -, h₁, h₂⟩ := hx
  have := h.mem hb
  unfold Block.user Block.footer Block.next at *
  omega

/-- The bytes of the used blocks are not in a hole. -/
theorem Tiles.payload_apart (h : Tiles a bs e) (hb : b ∈ bs) (hbu : b.used = false) {x : ℕ}
    (hx : Payload bs x) : x < b.addr ∨ b.next ≤ x := by
  obtain ⟨c, hc, hcu, h₁, h₂⟩ := hx
  unfold Block.user Block.footer at *
  rcases h.apart hc hb with rfl | h₃ | h₃
  · rw [hbu] at hcu
    exact Bool.noConfusion hcu
  all_goals
    unfold Block.next at *
    omega

/-- The last block. -/
theorem Tiles.last (h : Tiles a bs e) (hlt : a < e) :
    ∃ xs b, bs = xs ++ [b] ∧ Tiles a xs b.addr ∧ b.next = e := by
  rcases List.eq_nil_or_concat bs with rfl | ⟨xs, b, rfl⟩
  · exact absurd h hlt.ne
  · rw [List.concat_eq_append] at h ⊢
    obtain ⟨c, hxs, rfl, hb⟩ := tiles_append.mp h
    exact ⟨xs, b, rfl, hxs, hb⟩

/-- The block at an address, and what starts inside it. -/
theorem Tiles.not_inside (h : Tiles a bs e) (hb : b ∈ bs) (hc : c ∈ bs) (hlt : b.addr < c.addr) :
    b.next ≤ c.addr := by
  rcases h.apart hb hc with rfl | h | h
  · exact absurd hlt (lt_irrefl _)
  · exact h
  · unfold Block.next at h
    omega

/-- What is before a block, and what is after it. -/
theorem Tiles.around (h : Tiles a (xs ++ b :: ys) e) : Tiles a xs b.addr ∧ Tiles b.next ys e := by
  obtain ⟨_, hxs, rfl, hys⟩ := tiles_append.mp h
  exact ⟨hxs, hys⟩

/-- A block with what is before and after it. -/
theorem Tiles.split (h : Tiles a bs e) (hb : b ∈ bs) :
    ∃ xs ys, bs = xs ++ b :: ys ∧ Tiles a xs b.addr ∧ Tiles b.next ys e := by
  obtain ⟨xs, ys, rfl⟩ := List.append_of_mem hb
  exact ⟨xs, ys, rfl, h.around⟩

end Tiles

section Holes

variable {bs xs ys : List Block} {b : Block} {k : Hole}

@[simp] theorem holes_append : holes (xs ++ ys) = holes xs ++ holes ys := by
  simp [holes]

@[simp] theorem holes_nil : holes [] = [] := rfl

theorem holes_cons_used (h : b.used = true) : holes (b :: bs) = holes bs := by
  simp [holes, h]

theorem holes_cons_free (h : b.used = false) : holes (b :: bs) = b.key :: holes bs := by
  simp [holes, h]

theorem mem_holes : k ∈ holes bs ↔ ∃ b ∈ bs, b.used = false ∧ b.key = k := by
  simp [holes, and_assoc]

theorem key_inj {b c : Block} : b.key = c.key ↔ b.size = c.size ∧ b.addr = c.addr := by
  unfold Block.key Block.user
  rw [hole_inj]
  omega

end Holes

/-! ## Operations -/

namespace Block

/-- The hole `b` becomes a block for `size` bytes, and a smaller hole if enough is left. -/
def take (b : Block) (size : ℕ) : List Block :=
  if size + 20 < b.size then
    [⟨b.addr, size, true⟩, ⟨b.addr + size + 20, b.size - size - 20, false⟩]
  else [⟨b.addr, b.size, true⟩]

/-- The first `d` bytes of the hole are given away. -/
def shift (b : Block) (d : ℕ) : Block := ⟨b.addr + d, b.size - d, b.used⟩

/-- The size of the block that `take` makes. -/
def takenSize (b : Block) (size : ℕ) : ℕ := if size + 20 < b.size then size else b.size

end Block

/-- A page at `e` becomes a hole, or part of the last hole. -/
def expand (e : ℕ) : List Block → List Block
  | [] => []
  | [b] => if b.used then [b, ⟨e, 4076, false⟩] else [{ b with size := b.size + 4096 }]
  | b :: c :: bs => b :: expand e (c :: bs)

/-- The last block gets `d` bytes more. -/
def pad (d : ℕ) : List Block → List Block
  | [] => []
  | [p] => [{ p with size := p.size + d }]
  | p :: q :: xs => p :: pad d (q :: xs)

section Operations

variable {a e size d : ℕ} {b c x : Block} {xs ys : List Block}

theorem expand_used (hb : b.used = true) :
    ∀ xs : List Block, expand e (xs ++ [b]) = xs ++ [b] ++ [⟨e, 4076, false⟩]
  | [] => if_pos hb
  | [x] => congrArg (x :: ·) (expand_used hb [])
  | x :: y :: xs => congrArg (x :: ·) (expand_used hb (y :: xs))

theorem expand_free (hb : b.used = false) :
    ∀ xs : List Block, expand e (xs ++ [b]) = xs ++ [{ b with size := b.size + 4096 }]
  | [] => if_neg (by simp [hb])
  | [x] => congrArg (x :: ·) (expand_free hb [])
  | x :: y :: xs => congrArg (x :: ·) (expand_free hb (y :: xs))

/-- The used blocks stay. -/
theorem mem_expand (hx : x.used = true) : x ∈ expand e xs ↔ x ∈ xs := by
  rcases List.eq_nil_or_concat xs with rfl | ⟨xs, b, rfl⟩
  · exact Iff.rfl
  rw [List.concat_eq_append]
  cases hb : b.used with
  | true =>
    have hne : x ≠ ⟨e, 4076, false⟩ := by
      rintro rfl
      exact Bool.noConfusion hx
    simp [expand_used hb, hne]
  | false =>
    have hxb : x ≠ b := by
      rintro rfl
      simp [hb] at hx
    have hxc : x ≠ { b with size := b.size + 4096 } := by
      rintro rfl
      simp [hb] at hx
    simp [expand_free hb, hxb, hxc]

@[simp] theorem shift_zero (b : Block) : b.shift 0 = b := rfl

@[simp] theorem pad_zero : ∀ xs : List Block, pad 0 xs = xs
  | [] => rfl
  | [_] => rfl
  | p :: q :: xs => congrArg (p :: ·) (pad_zero (q :: xs))

@[simp] theorem pad_append (d : ℕ) (p : Block) :
    ∀ xs : List Block, pad d (xs ++ [p]) = xs ++ [{ p with size := p.size + d }]
  | [] => rfl
  | [_] => rfl
  | q :: r :: xs => congrArg (q :: ·) (pad_append d p (r :: xs))

theorem holes_pad : ∀ xs : List Block, (∀ p ∈ xs.getLast?, p.used = true) → holes (pad d xs) = holes xs
  | [], _ => rfl
  | [p], h => by
    have hp : p.used = true := h p rfl
    rw [pad, holes_cons_used hp, holes_cons_used (b := { p with size := p.size + d }) hp]
  | p :: q :: xs, h => by
    have ih := holes_pad (q :: xs) h
    show holes ([p] ++ pad d (q :: xs)) = holes ([p] ++ (q :: xs))
    rw [holes_append, ih, holes_append]

/-- Padding keeps every block, the last one longer. -/
theorem mem_pad : ∀ {xs : List Block}, c ∈ xs →
    ∃ c' ∈ pad d xs, c'.used = c.used ∧ c'.addr = c.addr ∧ c.size ≤ c'.size
  | [p], hc => by
    obtain rfl := List.mem_singleton.mp hc
    exact ⟨_, List.mem_singleton_self _, rfl, rfl, Nat.le_add_right _ _⟩
  | p :: q :: xs, hc => by
    rcases List.mem_cons.mp hc with rfl | hc
    · exact ⟨c, List.mem_cons_self, rfl, rfl, le_rfl⟩
    · obtain ⟨c', hc', hrest⟩ := mem_pad hc
      exact ⟨c', List.mem_cons_of_mem _ hc', hrest⟩

theorem mem_of_mem_pad : ∀ {xs : List Block}, c ∈ pad d xs →
    ∃ c' ∈ xs, c'.used = c.used ∧ c'.addr = c.addr
  | [p], hc => by
    obtain rfl := List.mem_singleton.mp hc
    exact ⟨p, List.mem_singleton_self p, rfl, rfl⟩
  | p :: q :: xs, hc => by
    rcases List.mem_cons.mp hc with rfl | hc
    · exact ⟨c, List.mem_cons_self, rfl, rfl⟩
    · obtain ⟨c', hc', hrest⟩ := mem_of_mem_pad hc
      exact ⟨c', List.mem_cons_of_mem _ hc', hrest⟩

theorem tiles_take : Tiles b.addr (b.take size) b.next := by
  unfold Block.take
  split_ifs with h
  · refine ⟨rfl, ?_, ?_⟩
    · unfold Block.next
      rfl
    · unfold Block.next
      rw [tiles_nil]
      dsimp only
      omega
  · exact ⟨rfl, rfl⟩

/-- The used block that `take` makes. -/
theorem mem_take_used (hx : x.used = true) :
    x ∈ b.take size ↔ x = ⟨b.addr, b.takenSize size, true⟩ := by
  unfold Block.take Block.takenSize
  split_ifs with h
  · have hne : x ≠ ⟨b.addr + size + 20, b.size - size - 20, false⟩ := by
      rintro rfl
      exact Bool.noConfusion hx
    simp [hne]
  · simp

theorem le_takenSize (h : size ≤ b.size) : size ≤ b.takenSize size := by
  unfold Block.takenSize
  split_ifs <;> omega

theorem holes_take (b : Block) (size : ℕ) : holes (b.take size) =
    if size + 20 < b.size then [hole (b.size - size - 20) (b.addr + size + 32)] else [] := by
  unfold Block.take
  split_ifs <;> rfl

/-- Taking a hole separates its neighbours as before. -/
theorem separated_take (ht : Tiles a (xs ++ b :: ys) e) (h : Separated (xs ++ b :: ys))
    (hb : b.used = false) : Separated (xs ++ b.take size ++ ys) := by
  -- a block of the new list is an old one or in the interval of `b`, and then used or at its end
  have key : ∀ x ∈ xs ++ b.take size ++ ys, x ∈ xs ++ b :: ys ∨
      x.used = true ∨ x.used = false ∧ b.addr < x.addr ∧ x.next = b.next := by
    intro x hx
    simp only [List.mem_append, List.mem_cons] at hx ⊢
    rcases hx with (hx | hx) | hx
    · exact .inl (.inl hx)
    · right
      cases hu : x.used with
      | true => exact .inl rfl
      | false =>
        unfold Block.take at hx
        split_ifs at hx with hs
        · simp only [List.mem_cons, List.not_mem_nil, or_false] at hx
          rcases hx with rfl | rfl
          · exact Bool.noConfusion hu
          · unfold Block.next
            dsimp only
            exact .inr ⟨rfl, by omega, by omega⟩
        · rw [List.mem_singleton.mp hx] at hu
          exact Bool.noConfusion hu
    · exact .inl (.inr (.inr hx))
  intro x hx y hy hxy
  rcases key x hx with hx' | hx' | ⟨hxu, hxa, hxn⟩
  · rcases key y hy with hy' | hy' | ⟨hyu, hya, hyn⟩
    · exact h x hx' y hy' hxy
    · exact .inr hy'
    · exfalso
      rcases ht.apart hx' (c := b) (by simp) with rfl | h | h
      all_goals
        unfold Block.next at *
        omega
  · exact .inl hx'
  · rcases key y hy with hy' | hy' | ⟨hyu, hya, hyn⟩
    · right
      simpa [hb] using h b (by simp) y hy' (hxn.symm.trans hxy)
    · exact .inr hy'
    · unfold Block.next at *
      omega

/-- Giving the start of a hole to the block before it separates the blocks as before. -/
theorem separated_shift {p : Block} (ht : Tiles a (xs ++ [p] ++ b :: ys) e)
    (h : Separated (xs ++ [p] ++ b :: ys)) (hb : b.used = false) (hp : p.used = true)
    (hdb : d ≤ b.size) : Separated (pad d (xs ++ [p]) ++ b.shift d :: ys) := by
  rw [pad_append]
  have hsn : (b.shift d).next = b.next := by
    unfold Block.next Block.shift
    dsimp only
    omega
  have key : ∀ x ∈ xs ++ [{ p with size := p.size + d }] ++ b.shift d :: ys,
      x.used = true ∨ x = b.shift d ∨ x ∈ xs ++ [p] ++ b :: ys := by
    intro x hx
    simp only [List.mem_append, List.mem_cons, List.not_mem_nil, or_false] at hx ⊢
    rcases hx with (hx | rfl) | hx | hx
    · simp [hx]
    · exact .inl hp
    · simp [hx]
    · simp [hx]
  intro x hx y hy hxy
  rcases key x hx with hx' | rfl | hx'
  · exact .inl hx'
  · rcases key y hy with hy' | rfl | hy'
    · exact .inr hy'
    · have hsa : (b.shift d).addr < (b.shift d).next := by
        unfold Block.next
        omega
      omega
    · right
      simpa [hb] using h b (by simp) y hy' (hsn.symm.trans hxy)
  · rcases key y hy with hy' | rfl | hy'
    · exact .inr hy'
    · left
      have hsa : (b.shift d).addr = b.addr + d := rfl
      have hxa : x.next = b.addr := by
        rcases ht.apart hx' (c := b) (by simp) with rfl | h | h
        all_goals
          unfold Block.next at *
          omega
      simpa [hb] using h x hx' b (by simp) hxa
    · exact h x hx' y hy' hxy

/-- A hole in the place of the block `b`, between used blocks. -/
theorem separated_hole {f : Block} (hxs : Tiles a xs f.addr) (hys : Tiles f.next ys e)
    (h : Separated (xs ++ ys)) (hleft : ∀ x ∈ xs, x.next = f.addr → x.used = true)
    (hright : ∀ y ∈ ys, f.next = y.addr → y.used = true) : Separated (xs ++ f :: ys) := by
  have key : ∀ x ∈ xs ++ f :: ys, x = f ∨ x ∈ xs ∨ x ∈ ys := fun x hx => by
    simp only [List.mem_append, List.mem_cons] at hx
    rcases hx with hx | hx | hx <;> simp [hx]
  intro x hx y hy hxy
  rcases key x hx with rfl | hx'
  · right
    rcases key y hy with rfl | hy' | hy'
    · unfold Block.next at hxy
      omega
    · have := (hxs.mem hy').2
      unfold Block.next at *
      omega
    · exact hright y hy' hxy
  · rcases key y hy with rfl | hy'
    · left
      rcases hx' with hx' | hx'
      · exact hleft x hx' hxy
      · have := (hys.mem hx').1
        unfold Block.next at *
        omega
    · exact h x (List.mem_append.mpr hx') y (List.mem_append.mpr hy') hxy

end Operations

end RawOS
