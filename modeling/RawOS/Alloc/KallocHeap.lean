import RawOS.Alloc.KallocAvl

/-!
# `alloc/kalloc_heap.c`

The kernel heap: a sequence of blocks between a header of 12 bytes and a footer of 8, the free
ones indexed by the tree of holes. The heap grows page by page through
`paging_create_kernel_page_with_any_frame`, which is a parameter here (`PageEnv`): it works on a
state `σ` of its own and on the memory.
-/

namespace RawOS

def heapHeaderMagic : ℕ := 0xABCD
def heapFooterMagic : ℕ := 0xEF01
def numPagesReservedForAvl : ℕ := 16
def pageSize : ℕ := 4096
/-- `sizeof(Kalloc_Heap_Header)`. -/
def sizeofHeader : ℕ := 12
/-- `sizeof(Kalloc_Heap_Footer)`. -/
def sizeofFooter : ℕ := 8

/-! ## Headers and footers -/

def headerMagic (m : Mem) (h : ℕ) : ℕ := load16 m h
def headerSize (m : Mem) (h : ℕ) : ℕ := load32 m (h + 4)
def headerUsed (m : Mem) (h : ℕ) : ℤ := loadS32 m (h + 8)
def footerMagic (m : Mem) (f : ℕ) : ℕ := load16 m f
def footerHeader (m : Mem) (f : ℕ) : ℕ := load32 m (f + 4)

def setHeaderMagic (m : Mem) (h : ℕ) : Mem := store16 m h heapHeaderMagic
def setHeaderSize (m : Mem) (h v : ℕ) : Mem := store32 m (h + 4) v
def setHeaderUsed (m : Mem) (h : ℕ) (v : ℤ) : Mem := storeS32 m (h + 8) v
def setFooterMagic (m : Mem) (f : ℕ) : Mem := store16 m f heapFooterMagic
def setFooterHeader (m : Mem) (f v : ℕ) : Mem := store32 m (f + 4) v

/-! ## State -/

/-- `Kalloc_Heap`. -/
structure KallocHeap where
  avlInitialAddr : ℕ
  initialAddr : ℕ
  size : ℕ
  avl : KallocAVL

/-- What the heap runs on: `paging_create_kernel_page_with_any_frame`, and the values that
uninitialised locals happen to have. -/
structure PageEnv (σ : Type) where
  createPage : ℕ → σ → Mem → Except Panic (σ × Mem)
  uninit : σ → Mem → ℤ

/-- The heap, the memory and the state of the pages. -/
structure HeapState (σ : Type) where
  heap : KallocHeap
  mem : Mem
  sys : σ

section

variable {σ : Type} (env : PageEnv σ)

/-- `kalloc_avl_insert` on the tree of the heap, which ignores the result. -/
def heapAvlInsert (s : HeapState σ) (holeSize holeAddr : ℕ) : Except Panic (HeapState σ) := do
  let (_, avl, m) ← kallocAvlInsert (env.uninit s.sys s.mem) s.mem s.heap.avl holeSize holeAddr
  return { s with heap := { s.heap with avl := avl }, mem := m }

/-- `kalloc_avl_remove` on the tree of the heap, which ignores the result. -/
def heapAvlRemove (s : HeapState σ) (holeSize holeAddr : ℕ) : Except Panic (HeapState σ) := do
  let (_, avl, m) ← kallocAvlRemove (env.uninit s.sys s.mem) s.mem s.heap.avl holeSize holeAddr
  return { s with heap := { s.heap with avl := avl }, mem := m }

/-! ## Creation -/

/-- The loop of `kalloc_heap_create`: `n` pages from page `start` on. -/
def createPages (start : ℕ) (sys : σ) (m : Mem) : ℕ → Except Panic (σ × Mem)
  | 0 => .ok (sys, m)
  | n + 1 => do
    let (sys, m) ← createPages start sys m n
    env.createPage (u32 (start + n)) sys m

def kallocHeapCreate (sys : σ) (m : Mem) (initialAddr initialPages : ℕ) :
    Except Panic (HeapState σ) := do
  assert (initialAddr % 0x1000 = 0)
    "kalloc: initial address must be aligned to 0x1000, but got 0x%u!"
  assert (u32 (initialPages * pageSize) ≥ sizeofFooter + sizeofHeader)
    "kalloc: insufficient number of initial pages (%u)."
  let (sys, m) ← createPages env (initialAddr / pageSize) sys m
    (u32 (numPagesReservedForAvl + initialPages))
  let firstHeader := u32 (initialAddr + numPagesReservedForAvl * pageSize)
  let size := u32 (initialPages * pageSize)
  let (avl, m) ← kallocAvlInit m initialAddr (numPagesReservedForAvl * pageSize)
  let firstFooter := u32Sub (u32 (firstHeader + size)) sizeofFooter
  let m := setHeaderMagic m firstHeader
  let m := setHeaderSize m firstHeader (u32Sub (u32Sub size sizeofHeader) sizeofFooter)
  let m := setHeaderUsed m firstHeader 0
  let m := setFooterHeader m firstFooter firstHeader
  let m := setFooterMagic m firstFooter
  heapAvlInsert env
    { heap := ⟨initialAddr, firstHeader, size, avl⟩, mem := m, sys := sys }
    (headerSize m firstHeader) (u32 (firstHeader + sizeofHeader))

/-! ## Allocation -/

/-- `kalloc_heap_alloc`: if the aligned address is above the hole's, the space between goes to the
previous block. The result is the memory and `hole_size`. -/
def alignHole (m : Mem) (initialAddr targetHoleHeader userSpace alignedUserSpace holeSize : ℕ) :
    Except Panic (Mem × ℕ) :=
  if alignedUserSpace > userSpace then do
    let targetAlignedHoleHeader := u32Sub alignedUserSpace sizeofHeader
    assert (targetHoleHeader ≠ initialAddr)
      "kalloc: aligned-alloc is not supported when heap is empty"
    let targetHoleFooter := u32 (targetHoleHeader + sizeofHeader + headerSize m targetHoleHeader)
    let previousFooter := u32Sub targetHoleHeader sizeofFooter
    let previousHeader := footerHeader m previousFooter
    let newPreviousFooter := u32Sub targetAlignedHoleHeader sizeofFooter
    assert (newPreviousFooter > previousFooter)
      "kalloc: new footer address must be greater than previous footer address"
    let m := setHeaderSize m previousHeader
      (u32 (headerSize m previousHeader + u32Sub newPreviousFooter previousFooter))
    let m := setFooterHeader m newPreviousFooter previousHeader
    let m := setFooterMagic m newPreviousFooter
    let m := setFooterHeader m targetHoleFooter targetAlignedHoleHeader
    return (m, u32Sub holeSize (u32Sub alignedUserSpace userSpace))
  else .ok (m, holeSize)

/-- The end of `kalloc_heap_alloc` for a hole whose header is in place: split it if enough is
left, and mark the block used. -/
def splitHole (s : HeapState σ) (targetHoleHeader holeSize size : ℕ) :
    Except Panic (HeapState σ) :=
  if headerSize s.mem targetHoleHeader > u32 (size + sizeofHeader + sizeofFooter) then
    let newBlockFooter := u32 (targetHoleHeader + sizeofHeader + size)
    let newHoleHeader := u32 (newBlockFooter + sizeofFooter)
    let newHoleFooter :=
      u32 (targetHoleHeader + sizeofHeader + headerSize s.mem targetHoleHeader)
    let m := setHeaderSize s.mem targetHoleHeader size
    let m := setHeaderUsed m targetHoleHeader 1
    let m := setFooterMagic m newBlockFooter
    let m := setFooterHeader m newBlockFooter targetHoleHeader
    let m := setHeaderMagic m newHoleHeader
    let m := setHeaderSize m newHoleHeader
      (u32Sub (u32Sub (u32Sub holeSize size) sizeofHeader) sizeofFooter)
    let m := setHeaderUsed m newHoleHeader 0
    let m := setFooterHeader m newHoleFooter newHoleHeader
    heapAvlInsert env { s with mem := m } (headerSize m newHoleHeader)
      (u32 (newHoleHeader + sizeofHeader))
  else .ok { s with mem := setHeaderUsed s.mem targetHoleHeader 1 }

/-- `kalloc_heap_alloc` where a hole is found. -/
def allocHole (s : HeapState σ) (userSpace size alignment : ℕ) :
    Except Panic (ℕ × HeapState σ) := do
  let targetHoleHeader := u32Sub userSpace sizeofHeader
  assert (headerUsed s.mem targetHoleHeader = 0)
    "kalloc: found hole in inconsistent state (expected used=0, but got used=%u)."
  let s ← heapAvlRemove env s (headerSize s.mem targetHoleHeader) userSpace
  let holeSize := headerSize s.mem targetHoleHeader
  let alignedUserSpace := getAlignedAddress userSpace alignment
  let targetAlignedHoleHeader := u32Sub alignedUserSpace sizeofHeader
  assert (alignedUserSpace ≥ userSpace)
    "kalloc: aligned space must be greater or equal to original space"
  let (m, holeSize) ←
    alignHole s.mem s.heap.initialAddr targetHoleHeader userSpace alignedUserSpace holeSize
  let m := setHeaderMagic m targetAlignedHoleHeader
  let m := setHeaderUsed m targetAlignedHoleHeader 0
  let m := setHeaderSize m targetAlignedHoleHeader holeSize
  let s ← splitHole env { s with mem := m } targetAlignedHoleHeader holeSize size
  return (alignedUserSpace, s)

/-- `kalloc_heap_alloc` once the page after the heap exists: it becomes a hole, or part of the
hole at the end. -/
def growHeap (s : HeapState σ) : Except Panic (HeapState σ) :=
  let m := s.mem
  let lastFooter := u32Sub (u32 (s.heap.initialAddr + s.heap.size)) sizeofFooter
  let lastHeader := footerHeader m lastFooter
  let heap := { s.heap with size := u32 (s.heap.size + pageSize) }
  if headerUsed m lastHeader ≠ 0 then
    let newHoleHeader := u32 (lastFooter + sizeofFooter)
    let newHoleFooter := u32Sub (u32 (newHoleHeader + pageSize)) sizeofFooter
    let m := setHeaderMagic m newHoleHeader
    let m := setHeaderSize m newHoleHeader (pageSize - sizeofHeader - sizeofFooter)
    let m := setHeaderUsed m newHoleHeader 0
    let m := setFooterMagic m newHoleFooter
    let m := setFooterHeader m newHoleFooter newHoleHeader
    heapAvlInsert env { s with heap := heap, mem := m } (headerSize m newHoleHeader)
      (u32 (newHoleHeader + sizeofHeader))
  else do
    let newFooter := u32Sub (u32 (heap.initialAddr + heap.size)) sizeofFooter
    let m := setFooterMagic m newFooter
    let m := setFooterHeader m newFooter lastHeader
    let s ← heapAvlRemove env { s with heap := heap, mem := m } (headerSize m lastHeader)
      (u32 (lastHeader + sizeofHeader))
    let m := setHeaderSize s.mem lastHeader (u32 (headerSize s.mem lastHeader + pageSize))
    heapAvlInsert env { s with mem := m } (headerSize m lastHeader)
      (u32 (lastHeader + sizeofHeader))

/-- `kalloc_heap_alloc` where no hole is found: grow the heap by a page. -/
def expandHeap (s : HeapState σ) : Except Panic (HeapState σ) := do
  let (sys, m) ← env.createPage (u32 (s.heap.initialAddr + s.heap.size) / pageSize) s.sys s.mem
  growHeap env { s with mem := m, sys := sys }

/-- `kalloc_heap_alloc`, growing the heap less than `fuel` times. -/
def kallocHeapAllocLoop : ℕ → HeapState σ → ℕ → ℕ → Except Panic (ℕ × HeapState σ)
  | 0, _, _, _ => .error .outOfFuel
  | fuel + 1, s, size, alignment => do
    let userSpace ← kallocAvlFindHole s.mem s.heap.avl size alignment
    if userSpace ≠ 0 then allocHole env s userSpace size alignment
    else
      let s ← expandHeap env s
      kallocHeapAllocLoop fuel s size alignment

/-- More pages than the address space has. -/
def heapFuel : ℕ := 1048578

def kallocHeapAlloc (s : HeapState σ) (size alignment : ℕ) : Except Panic (ℕ × HeapState σ) :=
  kallocHeapAllocLoop env heapFuel s size alignment

/-! ## Release -/

/-- `kalloc_heap_free`: merge the block at `header` into a hole before it. The result is the
header of the merged block. -/
def mergePrevious (s : HeapState σ) (header footer : ℕ) : Except Panic (ℕ × HeapState σ) :=
  if header ≠ s.heap.initialAddr then
    let previousFooter := u32Sub header sizeofFooter
    let previousHeader := footerHeader s.mem previousFooter
    if headerUsed s.mem previousHeader = 0 then do
      let s ← heapAvlRemove env s (headerSize s.mem previousHeader)
        (u32 (previousHeader + sizeofHeader))
      let m := setHeaderSize s.mem previousHeader
        (u32 (headerSize s.mem previousHeader + (headerSize s.mem header + sizeofHeader +
          sizeofFooter)))
      let m := setFooterHeader m footer previousHeader
      return (previousHeader, { s with mem := m })
    else .ok (header, s)
  else .ok (header, s)

/-- `kalloc_heap_free`: merge a hole after the block at `header` into it. -/
def mergeNext (s : HeapState σ) (header footer : ℕ) : Except Panic (HeapState σ) :=
  if footer ≠ u32Sub (u32 (s.heap.initialAddr + s.heap.size)) sizeofFooter then
    let nextHeader := u32 (footer + sizeofFooter)
    let nextFooter := u32 (nextHeader + sizeofHeader + headerSize s.mem nextHeader)
    if headerUsed s.mem nextHeader = 0 then do
      let s ← heapAvlRemove env s (headerSize s.mem nextHeader) (u32 (nextHeader + sizeofHeader))
      let m := setHeaderSize s.mem header
        (u32 (headerSize s.mem header + (headerSize s.mem nextHeader + sizeofHeader +
          sizeofFooter)))
      return { s with mem := setFooterHeader m nextFooter header }
    else .ok s
  else .ok s

def kallocHeapFree (s : HeapState σ) (ptr : ℕ) : Except Panic (HeapState σ) := do
  let header := u32Sub ptr sizeofHeader
  let footer := u32 (ptr + headerSize s.mem header)
  assert (headerUsed s.mem header = 1)
    "kalloc: found hole in inconsistent state (expected used=1, but got used=%u)."
  let (header, s) ← mergePrevious env s header footer
  let s ← mergeNext env s header footer
  let m := setHeaderUsed s.mem header 0
  heapAvlInsert env { s with mem := m } (headerSize m header) (u32 (header + sizeofHeader))

end

end RawOS
