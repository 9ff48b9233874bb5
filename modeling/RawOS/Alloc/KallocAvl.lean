import RawOS.Util

/-!
# `alloc/kalloc_avl.c`

The tree of holes of the kernel heap. Nodes are 20-byte records in memory, taken from a pool that
is threaded as a doubly linked free list; a pointer is an address, `0` the null pointer. The
functions below read and write the nodes in memory in the order of the source.

The two outputs that `insert_internal` and `remove_internal` return by pointer,
`subtree_height_changed` and `error` (`not_found`), are part of the state they thread. The first
is an uninitialised local of `kalloc_avl_insert` and `kalloc_avl_remove`, so its initial value is
a parameter of both.
-/

namespace RawOS

/-- `sizeof(Kalloc_AVL_Node)`. -/
def sizeofAvlNode : ℕ := 20

/-- `Kalloc_AVL`. -/
structure KallocAVL where
  free : ℕ
  root : ℕ
  deriving DecidableEq

/-! ## The fields of a node -/

def nodeLeft (m : Mem) (p : ℕ) : ℕ := load32 m p
def nodeRight (m : Mem) (p : ℕ) : ℕ := load32 m (p + 4)
def nodeHeight (m : Mem) (p : ℕ) : ℤ := loadS32 m (p + 8)
def nodeHoleSize (m : Mem) (p : ℕ) : ℕ := load32 m (p + 12)
def nodeHoleAddr (m : Mem) (p : ℕ) : ℕ := load32 m (p + 16)

def setLeft (m : Mem) (p v : ℕ) : Mem := store32 m p v
def setRight (m : Mem) (p v : ℕ) : Mem := store32 m (p + 4) v
def setHeight (m : Mem) (p : ℕ) (v : ℤ) : Mem := storeS32 m (p + 8) v
def setHoleSize (m : Mem) (p v : ℕ) : Mem := store32 m (p + 12) v
def setHoleAddr (m : Mem) (p v : ℕ) : Mem := store32 m (p + 16) v

/-! ## Comparisons -/

/-- Compare the sizes of two holes. -/
def compareHoleSize (s₁ s₂ : ℕ) : ℤ :=
  if s₁ > s₂ then 1 else if s₁ < s₂ then -1 else 0

/-- Compare two holes, by size and then by address. -/
def compareHole (h₁Size h₁Addr h₂Size h₂Addr : ℕ) : ℤ :=
  if h₁Size > h₂Size then 1
  else if h₁Size < h₂Size then -1
  else if h₁Addr > h₂Addr then 1
  else if h₁Addr < h₂Addr then -1
  else 0

/-! ## The pool -/

/-- The body of the loop of `kalloc_avl_init` for node `i` of `numNodes`. -/
def kallocAvlInitNode (m : Mem) (data numNodes i : ℕ) : Mem :=
  let previous := if i > 0 then data + sizeofAvlNode * (i - 1) else 0
  let current := data + sizeofAvlNode * i
  let next := if i ≠ numNodes - 1 then data + sizeofAvlNode * (i + 1) else 0
  let m := setLeft m current previous
  let m := setRight m current next
  let m := setHoleSize m current 0
  let m := setHoleAddr m current 0
  setHeight m current 0

/-- The first `n` iterations of the loop of `kalloc_avl_init`. -/
def kallocAvlInitLoop (m : Mem) (data numNodes : ℕ) : ℕ → Mem
  | 0 => m
  | n + 1 => kallocAvlInitNode (kallocAvlInitLoop m data numNodes n) data numNodes n

def kallocAvlInit (m : Mem) (data dataSize : ℕ) : Except Panic (KallocAVL × Mem) := do
  assert (dataSize ≥ sizeofAvlNode)
    "kalloc_avl: can't initiate. data_size must be greater or equal to the size of the node"
  let numNodes := dataSize / sizeofAvlNode
  return ({ free := data, root := 0 }, kallocAvlInitLoop m data numNodes numNodes)

/-- The state of an insertion or a removal: memory, `avl->free`, `*subtree_height_changed`, and
`*error` or `*not_found`. -/
structure AvlState where
  mem : Mem
  free : ℕ
  subtreeHeightChanged : ℤ
  status : ℤ

def getFreeNode (s : AvlState) : Except Panic (ℕ × AvlState) := do
  let target := s.free
  assert (target ≠ 0) "kalloc_avl: no free node available"
  let right := nodeRight s.mem s.free
  if right ≠ 0 then
    assert (nodeLeft s.mem right = target) "kalloc_avl: next node is not pointing to current"
    let m := setLeft s.mem right 0
    return (target, { s with mem := m, free := nodeRight m s.free })
  else
    return (target, { s with free := right })

def putFreeNode (s : AvlState) (node : ℕ) : Except Panic AvlState := do
  let previousRoot := s.free
  let m := setLeft s.mem node 0
  let m := setRight m node previousRoot
  if previousRoot ≠ 0 then
    assert (nodeLeft m previousRoot = 0)
      "kalloc_avl: previous root free node had something on the left"
    return { s with mem := setLeft m previousRoot node, free := node }
  else
    return { s with mem := m, free := node }

/-! ## Search -/

/-- `get_aligned_address`: `address` rounded up to `alignment`. `hole_has_alignment_space` has the
same computation inline. -/
def getAlignedAddress (address alignment : ℕ) : ℕ :=
  if alignment ≠ 0 then
    if address &&& (alignment - 1) ≠ 0 then
      u32 ((address &&& (4294967295 - (alignment - 1))) + alignment)
    else address
  else address

def holeHasAlignmentSpace (m : Mem) (node wantedSize alignment : ℕ) : Prop :=
  let alignedAddr := getAlignedAddress (nodeHoleAddr m node) alignment
  nodeHoleSize m node ≥ u32 (wantedSize + u32Sub alignedAddr (nodeHoleAddr m node))

instance (m : Mem) (node wantedSize alignment : ℕ) :
    Decidable (holeHasAlignmentSpace m node wantedSize alignment) :=
  inferInstanceAs (Decidable (_ ≥ _))

/-- `avl_find_hole_internal`, down to depth `fuel`. -/
def avlFindHoleInternal (m : Mem) : ℕ → ℕ → ℕ → ℕ → Except Panic ℕ
  | 0, _, _, _ => .error .outOfFuel
  | fuel + 1, node, holeSize, alignment =>
    if node = 0 then .ok 0
    else
      let comparison := compareHoleSize holeSize (nodeHoleSize m node)
      if comparison > 0 ∨ ¬ holeHasAlignmentSpace m node holeSize alignment then
        avlFindHoleInternal m fuel (nodeRight m node) holeSize alignment
      else do
        let holeAddr ← avlFindHoleInternal m fuel (nodeLeft m node) holeSize alignment
        return if holeAddr ≠ 0 then holeAddr else nodeHoleAddr m node

/-- Deeper than any recursion over distinct 20-byte nodes. -/
def avlFuel : ℕ := 4294967296

def kallocAvlFindHole (m : Mem) (avl : KallocAVL) (holeSize alignment : ℕ) : Except Panic ℕ :=
  avlFindHoleInternal m avlFuel avl.root holeSize alignment

/-! ## Rotations -/

def updateNodeHeight (m : Mem) (node : ℕ) : Mem :=
  let leftHeight := if nodeLeft m node ≠ 0 then nodeHeight m (nodeLeft m node) else 0
  let rightHeight := if nodeRight m node ≠ 0 then nodeHeight m (nodeRight m node) else 0
  setHeight m node (max rightHeight leftHeight + 1)

def rotateRight (m : Mem) (root : ℕ) : ℕ × Mem :=
  let pivot := nodeLeft m root
  let m := setLeft m root (nodeRight m pivot)
  let m := setRight m pivot root
  let m := updateNodeHeight m root
  let m := updateNodeHeight m pivot
  (pivot, m)

def rotateLeft (m : Mem) (root : ℕ) : ℕ × Mem :=
  let pivot := nodeRight m root
  let m := setRight m root (nodeLeft m pivot)
  let m := setLeft m pivot root
  let m := updateNodeHeight m root
  let m := updateNodeHeight m pivot
  (pivot, m)

def doubleRotateRight (m : Mem) (root : ℕ) : ℕ × Mem :=
  let top := root
  let middle := nodeLeft m root
  let bottom := nodeRight m middle
  let m := setRight m middle (nodeLeft m bottom)
  let m := setLeft m top (nodeRight m bottom)
  let m := setLeft m bottom middle
  let m := setRight m bottom top
  let m := updateNodeHeight m top
  let m := updateNodeHeight m middle
  let m := updateNodeHeight m bottom
  (bottom, m)

def doubleRotateLeft (m : Mem) (root : ℕ) : ℕ × Mem :=
  let top := root
  let middle := nodeRight m root
  let bottom := nodeLeft m middle
  let m := setLeft m middle (nodeRight m bottom)
  let m := setRight m top (nodeLeft m bottom)
  let m := setLeft m bottom top
  let m := setRight m bottom middle
  let m := updateNodeHeight m top
  let m := updateNodeHeight m middle
  let m := updateNodeHeight m bottom
  (bottom, m)

def getBalanceFactor (m : Mem) (node : ℕ) : ℤ :=
  let left := nodeLeft m node
  let right := nodeRight m node
  let leftHeight := if left ≠ 0 then nodeHeight m left else 0
  let rightHeight := if right ≠ 0 then nodeHeight m right else 0
  rightHeight - leftHeight

/-! ## Insertion -/

/-- `insert_internal` after the call for the right subtree: the new root of the subtree at
`node`. -/
def insertFixRight (s : AvlState) (node : ℕ) : Except Panic (ℕ × AvlState) :=
  if s.subtreeHeightChanged ≠ 0 then do
    let balanceFactor := getBalanceFactor s.mem node
    assert (balanceFactor ≥ 0 ∧ balanceFactor ≤ 2)
      "heap_avl: balance_factor must be between 0 and 2, but got %u"
    if balanceFactor = 0 then
      return (node, { s with subtreeHeightChanged := 0 })
    else if balanceFactor = 1 then
      return (node, { s with
        mem := setHeight s.mem node (nodeHeight s.mem node + 1), subtreeHeightChanged := 1 })
    else if balanceFactor = 2 then
      let rightChildBalanceFactor := getBalanceFactor s.mem (nodeRight s.mem node)
      let rotated :=
        if rightChildBalanceFactor = -1 then doubleRotateLeft s.mem node
        else rotateLeft s.mem node
      return (rotated.1, { s with mem := rotated.2, subtreeHeightChanged := 0 })
    else return (node, s)
  else return (node, s)

/-- `insert_internal` after the call for the left subtree. -/
def insertFixLeft (s : AvlState) (node : ℕ) : Except Panic (ℕ × AvlState) :=
  if s.subtreeHeightChanged ≠ 0 then do
    let balanceFactor := getBalanceFactor s.mem node
    assert (balanceFactor ≥ -2 ∧ balanceFactor ≤ 0)
      "heap_avl: balance_factor must be between -2 and 0, but got %u"
    if balanceFactor = 0 then
      return (node, { s with subtreeHeightChanged := 0 })
    else if balanceFactor = -1 then
      return (node, { s with
        mem := setHeight s.mem node (nodeHeight s.mem node + 1), subtreeHeightChanged := 1 })
    else if balanceFactor = -2 then
      let leftChildBalanceFactor := getBalanceFactor s.mem (nodeLeft s.mem node)
      let rotated :=
        if leftChildBalanceFactor = 1 then doubleRotateRight s.mem node
        else rotateRight s.mem node
      return (rotated.1, { s with mem := rotated.2, subtreeHeightChanged := 0 })
    else return (node, s)
  else return (node, s)

/-- `insert_internal`, down to depth `fuel`: the new root of the subtree at `avlNode`. -/
def insertInternal : ℕ → AvlState → ℕ → ℕ → ℕ → Except Panic (ℕ × AvlState)
  | 0, _, _, _, _ => .error .outOfFuel
  | fuel + 1, s, avlNode, holeSize, holeAddr =>
    if avlNode = 0 then do
      let (node, s) ← getFreeNode s
      if node = 0 then return (0, { s with status := 1 })
      else
        let m := setHoleAddr s.mem node holeAddr
        let m := setHoleSize m node holeSize
        let m := setLeft m node 0
        let m := setRight m node 0
        let m := setHeight m node 1
        return (node, { s with mem := m, subtreeHeightChanged := 1 })
    else do
      let comparison :=
        compareHole holeSize holeAddr (nodeHoleSize s.mem avlNode) (nodeHoleAddr s.mem avlNode)
      assert (comparison ≠ 0) "heap_avl: Trying to insert same element to AVL."
      if comparison > 0 then
        let (right, s) ← insertInternal fuel s (nodeRight s.mem avlNode) holeSize holeAddr
        insertFixRight { s with mem := setRight s.mem avlNode right } avlNode
      else if comparison < 0 then
        let (left, s) ← insertInternal fuel s (nodeLeft s.mem avlNode) holeSize holeAddr
        insertFixLeft { s with mem := setLeft s.mem avlNode left } avlNode
      else return (avlNode, s)

/-- Insert a hole; `uninit` is what the uninitialised `subtree_height_changed` holds. The result
is `error`. -/
def kallocAvlInsert (uninit : ℤ) (m : Mem) (avl : KallocAVL) (holeSize holeAddr : ℕ) :
    Except Panic (ℤ × KallocAVL × Mem) := do
  let s : AvlState := { mem := m, free := avl.free, subtreeHeightChanged := uninit, status := 0 }
  let (root, s) ← insertInternal avlFuel s avl.root holeSize holeAddr
  return (s.status, { free := s.free, root := root }, s.mem)

/-! ## Removal -/

/-- The loop of `find_predecessor`: follow right children, at most `fuel` of them. -/
def findPredecessorLoop (m : Mem) : ℕ → ℕ → Except Panic ℕ
  | 0, _ => .error .outOfFuel
  | fuel + 1, current =>
    if nodeRight m current ≠ 0 then findPredecessorLoop m fuel (nodeRight m current)
    else .ok current

def findPredecessor (m : Mem) (node : ℕ) : Except Panic ℕ :=
  findPredecessorLoop m avlFuel (nodeLeft m node)

/-- `remove_internal` after the call for the right subtree. -/
def removeFixRight (s : AvlState) (node : ℕ) : Except Panic (ℕ × AvlState) :=
  if s.subtreeHeightChanged ≠ 0 then do
    let balanceFactor := getBalanceFactor s.mem node
    assert (balanceFactor ≥ -2 ∧ balanceFactor ≤ 0)
      "heap_avl: balance_factor must be between -2 and 0, but got %u"
    if balanceFactor = 0 then
      return (node, { s with
        mem := setHeight s.mem node (nodeHeight s.mem node - 1), subtreeHeightChanged := 1 })
    else if balanceFactor = -1 then
      return (node, { s with subtreeHeightChanged := 0 })
    else if balanceFactor = -2 then
      let leftChildBalanceFactor := getBalanceFactor s.mem (nodeLeft s.mem node)
      let rotated :=
        if leftChildBalanceFactor = 1 then doubleRotateRight s.mem node
        else rotateRight s.mem node
      return (rotated.1, { s with
        mem := rotated.2
        subtreeHeightChanged := if getBalanceFactor rotated.2 rotated.1 = 1 then 0 else 1 })
    else return (node, s)
  else return (node, s)

/-- `remove_internal` after the call for the left subtree. -/
def removeFixLeft (s : AvlState) (node : ℕ) : Except Panic (ℕ × AvlState) :=
  if s.subtreeHeightChanged ≠ 0 then do
    let balanceFactor := getBalanceFactor s.mem node
    assert (balanceFactor ≥ 0 ∧ balanceFactor ≤ 2)
      "heap_avl: balance_factor must be between 0 and 2, but got %u"
    if balanceFactor = 0 then
      return (node, { s with
        mem := setHeight s.mem node (nodeHeight s.mem node - 1), subtreeHeightChanged := 1 })
    else if balanceFactor = 1 then
      return (node, { s with subtreeHeightChanged := 0 })
    else if balanceFactor = 2 then
      let rightChildBalanceFactor := getBalanceFactor s.mem (nodeRight s.mem node)
      let rotated :=
        if rightChildBalanceFactor = -1 then doubleRotateLeft s.mem node
        else rotateLeft s.mem node
      return (rotated.1, { s with
        mem := rotated.2
        subtreeHeightChanged := if getBalanceFactor rotated.2 rotated.1 = -1 then 0 else 1 })
    else return (node, s)
  else return (node, s)

/-- `remove_internal` where `avlNode` holds the key and only its child `child` may exist. The
caller clears the pointer to it. -/
def removePromote (s : AvlState) (avlNode child : ℕ) (clear : Mem → Mem) :
    Except Panic (ℕ × AvlState) := do
  let m := setHoleSize s.mem avlNode (nodeHoleSize s.mem child)
  let m := setHoleAddr m avlNode (nodeHoleAddr m child)
  let s ← putFreeNode { s with mem := m } child
  let m := clear s.mem
  return (avlNode, { s with
    mem := setHeight m avlNode (nodeHeight m avlNode - 1), subtreeHeightChanged := 1 })

/-- `remove_internal`, down to depth `fuel`: the new root of the subtree at `avlNode`. -/
def removeInternal : ℕ → AvlState → ℕ → ℕ → ℕ → Except Panic (ℕ × AvlState)
  | 0, _, _, _, _ => .error .outOfFuel
  | fuel + 1, s, avlNode, holeSize, holeAddr =>
    if avlNode = 0 then .ok (0, { s with status := 1 })
    else
      let comparison :=
        compareHole holeSize holeAddr (nodeHoleSize s.mem avlNode) (nodeHoleAddr s.mem avlNode)
      let left := nodeLeft s.mem avlNode
      let right := nodeRight s.mem avlNode
      if comparison = 0 then
        if left = 0 ∧ right = 0 then do
          let s ← putFreeNode s avlNode
          return (0, { s with subtreeHeightChanged := 1 })
        else if left = 0 then
          removePromote s avlNode right fun m => setRight m avlNode 0
        else if right = 0 then
          removePromote s avlNode left fun m => setLeft m avlNode 0
        else do
          -- the predecessor's key replaces the node's and is removed below it
          let predecessor ← findPredecessor s.mem avlNode
          let size := nodeHoleSize s.mem predecessor
          let addr := nodeHoleAddr s.mem predecessor
          let comparison :=
            compareHole size addr (nodeHoleSize s.mem avlNode) (nodeHoleAddr s.mem avlNode)
          let m := setHoleSize s.mem avlNode size
          let s := { s with mem := setHoleAddr m avlNode (nodeHoleAddr m predecessor) }
          if comparison > 0 then
            let (right, s) ← removeInternal fuel s (nodeRight s.mem avlNode) size addr
            removeFixRight { s with mem := setRight s.mem avlNode right } avlNode
          else
            let (left, s) ← removeInternal fuel s (nodeLeft s.mem avlNode) size addr
            removeFixLeft { s with mem := setLeft s.mem avlNode left } avlNode
      else if comparison > 0 then do
        let (right, s) ← removeInternal fuel s right holeSize holeAddr
        removeFixRight { s with mem := setRight s.mem avlNode right } avlNode
      else do
        let (left, s) ← removeInternal fuel s left holeSize holeAddr
        removeFixLeft { s with mem := setLeft s.mem avlNode left } avlNode

/-- Remove a hole; `uninit` is what the uninitialised `subtree_height_changed` holds. The result
is `not_found`. -/
def kallocAvlRemove (uninit : ℤ) (m : Mem) (avl : KallocAVL) (holeSize holeAddr : ℕ) :
    Except Panic (ℤ × KallocAVL × Mem) := do
  let s : AvlState := { mem := m, free := avl.free, subtreeHeightChanged := uninit, status := 0 }
  let (root, s) ← removeInternal avlFuel s avl.root holeSize holeAddr
  return (s.status, { free := s.free, root := root }, s.mem)

end RawOS
