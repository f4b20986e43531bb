import Cuore.Mem.Common
import Cuore.Framework.Bytes

/-!
# The kernel heap (`mem/heap.c`)

The heap lives in byte-addressed virtual memory.  A block is a `BlockHeader` of 48 bytes with the
payload behind it; all blocks are in one doubly linked list, region after region.  Allocations of
up to 128 bytes come from three pools of slots, each with one page of its own in the list.

Headers are read and written field by field, at their offsets, so that the order of the writes and
their overlap with other headers are those of the source.

`heap_grow` and `heap_init` get their memory from the page allocator, the virtual memory manager
and the page tables.  Here their answers are a parameter: the address of the mapped range, or zero
if one of them failed.  `malloc` may grow several times before a block fits, so it takes the list
of answers still to come; when the list is exhausted the memory is.  `owned` is the virtual memory
manager's record of the ranges that the heap holds.  A panic is `none`.
-/

namespace Cuore

/-! ## Block headers -/

/-- `HEAP_MAGIC`. -/
def heapMagic : ℕ := 0x1E160E06

/-- `HEAP_ALIGNMENT`. -/
def heapAlignment : ℕ := 16

/-- `MIN_SPLIT_SIZE`. -/
def minSplitSize : ℕ := 16

/-- `PAGES_PER_GROWTH`. -/
def pagesPerGrowth : ℕ := 4

/-- `MAX_POOL_PAGES`. -/
def maxPoolPages : ℕ := 64

/-- `pool_sizes`. -/
def poolSizes : List ℕ := [32, 64, 128]

/-- `BH_FREE`. -/
def bhFree : ℕ := 1

/-- `BH_POOL_BLOCK`. -/
def bhPoolBlock : ℕ := 2

/-- `BH_BOUNDARY_START`. -/
def bhBoundaryStart : ℕ := 4

/-- `sizeof(BlockHeader)`. -/
def bhSize : ℕ := 48

/-- The fields of a `BlockHeader`. -/
structure BlockHeader where
  magic : ℕ
  flags : ℕ
  size : ℕ
  binSize : ℕ
  usedSlots : ℕ
  next : ℕ
  prev : ℕ
  deriving DecidableEq, Repr

/-- The header at an address. -/
def readHeader (m : Memory) (b : ℕ) : BlockHeader where
  magic := m.load b 4
  flags := m.load (b + 4) 4
  size := m.load (b + 8) 8
  binSize := m.load (b + 16) 8
  usedSlots := m.load (b + 24) 4
  next := m.load (b + 32) 8
  prev := m.load (b + 40) 8

section Fields

variable (m : Memory) (b v : ℕ)

/-- `*b = (BlockHeader){0}`. -/
def clearHeader : Memory := m.fill b bhSize 0

/-- `b->magic = v`. -/
def setMagic : Memory := m.store b 4 v

/-- `b->flags = v`. -/
def setFlags : Memory := m.store (b + 4) 4 v

/-- `b->size = v`. -/
def setSize : Memory := m.store (b + 8) 8 v

/-- `b->bin_size = v`. -/
def setBinSize : Memory := m.store (b + 16) 8 v

/-- `b->used_slots = v`. -/
def setUsedSlots : Memory := m.store (b + 24) 4 v

/-- `b->next = v`. -/
def setNext : Memory := m.store (b + 32) 8 v

/-- `b->prev = v`. -/
def setPrev : Memory := m.store (b + 40) 8 v

/-- `BH_IS_FREE(b)`. -/
def bhIsFree : Bool := (readHeader m b).flags &&& bhFree != 0

/-- `BH_IS_POOL(b)`. -/
def bhIsPool : Bool := (readHeader m b).flags &&& bhPoolBlock != 0

/-- `BH_IS_BOUNDARY(b)`. -/
def bhIsBoundary : Bool := (readHeader m b).flags &&& bhBoundaryStart != 0

/-- `BH_SET_FREE(b)`. -/
def bhSetFree : Memory := setFlags m b ((readHeader m b).flags ||| bhFree)

/-- `BH_CLR_FREE(b)`, on 32-bit flags. -/
def bhClrFree : Memory := setFlags m b ((readHeader m b).flags &&& (2 ^ 32 - 1 - bhFree))

end Fields

/-! ## The heap -/

/-- `FixedPool`. -/
structure FixedPool where
  blockSize : ℕ
  freeList : ℕ
  deriving DecidableEq, Repr

/-- The static variables of the heap, with the memory they point into and the ranges it holds. -/
structure Heap where
  mem : Memory
  head : ℕ
  tail : ℕ
  lastFit : ℕ
  pools : List FixedPool
  poolPageRegistry : List ℕ
  owned : List (ℕ × ℕ)

/-- `ptr & ~(PAGE_SIZE - 1)`. -/
def pageBase (ptr : ℕ) : ℕ := ptr &&& wnot (pageSize - 1)

/-- `is_pool_page`. -/
def isPoolPage (h : Heap) (page : ℕ) : Bool := h.poolPageRegistry.contains page

/-- `PTE_STATE_HEAP_POOL`, `PTE_STATE_HEAP_BLOCK` and `PTE_STATE_NOINFO`. -/
inductive PtrType
  | pool
  | block
  | noinfo
  deriving DecidableEq, Repr

/-- `get_ptr_type`. -/
def getPtrType (h : Heap) (ptr : ℕ) : PtrType :=
  if isPoolPage h (pageBase ptr) then .pool
  else if (readHeader h.mem (ptr - bhSize)).magic = heapMagic then .block
  else .noinfo

/-- `ALIGN(HEAP_ALIGNMENT, size)`. -/
def alignHeap (size : ℕ) : ℕ := wadd size (heapAlignment - 1) &&& wnot (heapAlignment - 1)

/-- `list_append`. -/
def listAppend (h : Heap) (bh : ℕ) : Heap :=
  let m := setNext h.mem bh 0
  let m := setPrev m bh h.tail
  let m := if h.tail ≠ 0 then setNext m h.tail bh else m
  { h with mem := m, tail := bh, head := if h.head = 0 then bh else h.head }

/-- `list_unlink`. -/
def listUnlink (h : Heap) (bh : ℕ) : Heap :=
  let prev := (readHeader h.mem bh).prev
  let h := if prev ≠ 0 then { h with mem := setNext h.mem prev (readHeader h.mem bh).next }
    else { h with head := (readHeader h.mem bh).next }
  let next := (readHeader h.mem bh).next
  let h := if next ≠ 0 then { h with mem := setPrev h.mem next (readHeader h.mem bh).prev }
    else { h with tail := (readHeader h.mem bh).prev }
  if h.lastFit = bh then { h with lastFit := 0 } else h

/-! ## Growing -/

/-- The pages that `heap_grow` asks for. -/
def growPages (sizeNeeded : ℕ) : ℕ :=
  let pages := wsub (wadd (wadd sizeNeeded bhSize) pageSize) 1 / pageSize
  if pages < pagesPerGrowth then pagesPerGrowth else pages

/-- `heap_grow`, once the pages are allocated and mapped at `virt`. -/
def heapGrow (h : Heap) (sizeNeeded virt : ℕ) : Heap :=
  let pages := growPages sizeNeeded
  let m := clearHeader h.mem virt
  let m := setMagic m virt heapMagic
  let m := setSize m virt (wsub (pages * pageSize) bhSize)
  let m := setFlags m virt (bhFree ||| bhBoundaryStart)
  listAppend { h with mem := m, owned := h.owned ++ [(virt, pages * pageSize)] } virt

/-- The loop of `heap_init_pools` that threads the slots of a page. -/
def threadSlots (binSize data : ℕ) : ℕ → Memory × ℕ → Memory × ℕ
  | 0, r => r
  | j + 1, r =>
    let (m, freeList) := threadSlots binSize data j r
    (m.store (data + j * binSize) 8 freeList, data + j * binSize)

/-- One round of `heap_init_pools`. -/
def heapInitPool (h : Heap) (binSize virt : ℕ) : Option Heap :=
  if virt = 0 ∨ h.poolPageRegistry.length ≥ maxPoolPages then none
  else
    let m := clearHeader h.mem virt
    let m := setMagic m virt heapMagic
    let m := setFlags m virt bhPoolBlock
    let m := setBinSize m virt binSize
    let m := setSize m virt (pageSize - bhSize)
    let m := setUsedSlots m virt 0
    let h := listAppend { h with
      mem := m
      poolPageRegistry := h.poolPageRegistry ++ [virt]
      owned := h.owned ++ [(virt, pageSize)] } virt
    let slots := (readHeader h.mem virt).size / binSize
    let (m, freeList) := threadSlots binSize (virt + bhSize) slots (h.mem, 0)
    some { h with mem := m, pools := h.pools ++ [⟨binSize, freeList⟩] }

/-- `heap_init`, with the range and the three pool pages it is given. -/
def heapInit (mem : Memory) (size virt pool0 pool1 pool2 : ℕ) : Option Heap := do
  if virt = 0 then none
  else
    let pages := wsub (wadd size pageSize) 1 / pageSize
    let m := clearHeader mem virt
    let m := setMagic m virt heapMagic
    let m := setSize m virt (wsub (pages * pageSize) bhSize)
    let m := setFlags m virt (bhFree ||| bhBoundaryStart)
    let m := setNext m virt 0
    let m := setPrev m virt 0
    let h : Heap := ⟨m, virt, virt, 0, [], [], [(virt, pages * pageSize)]⟩
    let h ← heapInitPool h 32 pool0
    let h ← heapInitPool h 64 pool1
    heapInitPool h 128 pool2

/-! ## Allocating -/

/-- The pool loop of `malloc`: the slot taken and the pools after it, if one has a slot. -/
def takeSlot (m : Memory) (size : ℕ) : List FixedPool → Option (ℕ × List FixedPool)
  | [] => none
  | p :: ps =>
    if size ≤ p.blockSize ∧ p.freeList ≠ 0 then
      some (p.freeList, { p with freeList := m.load p.freeList 8 } :: ps)
    else (takeSlot m size ps).map fun r => (r.1, p :: r.2)

/-- The search loop of `malloc` from `curr` on: the block found, or zero.  It visits each block at
most once, and there are fewer than `2 ^ 64` of them. -/
def searchFit (m : Memory) (head start size : ℕ) : ℕ → ℕ → Bool → Option ℕ
  | 0, _, _ => none
  | fuel + 1, curr, wrapped =>
    if curr = 0 then some 0
    else if (readHeader m curr).magic ≠ heapMagic then none
    else if bhIsFree m curr && !bhIsPool m curr && decide ((readHeader m curr).size ≥ size) then
      some curr
    else
      let curr := (readHeader m curr).next
      -- wrapped around to `head`, which is not `start` then
      if curr = 0 ∧ wrapped = false then
        if start ≠ head then searchFit m head start size fuel head true else some 0
      else if curr = start then some 0
      else searchFit m head start size fuel curr wrapped

/-- Take the block that was found, with a split if enough is left. -/
def takeBlock (h : Heap) (size curr : ℕ) : ℕ × Heap :=
  let c := readHeader h.mem curr
  let h :=
    if c.size ≥ wadd (wadd size bhSize) minSplitSize then
      let split := curr + bhSize + size
      let m := clearHeader h.mem split
      let m := setMagic m split heapMagic
      let m := setSize m split (wsub (wsub (readHeader m curr).size size) bhSize)
      let m := setFlags m split bhFree
      let m := setNext m split (readHeader m curr).next
      let m := setPrev m split curr
      let h := if (readHeader m curr).next ≠ 0 then
          { h with mem := setPrev m (readHeader m curr).next split }
        else { h with mem := m, tail := split }
      let m := setNext h.mem curr split
      { h with mem := setSize m curr size }
    else h
  (curr + bhSize, { h with mem := bhClrFree h.mem curr, lastFit := curr })

/-- The part of `malloc` behind the pools: search, and grow until a block fits or growing fails. -/
def mallocBlock (size : ℕ) : List ℕ → Heap → Option (ℕ × Heap)
  | grants, h => do
    let start := if h.lastFit ≠ 0 then h.lastFit else h.head
    let curr ← searchFit h.mem h.head start size word start false
    if curr ≠ 0 then some (takeBlock h size curr)
    else
      match grants with
      | [] => some (0, h)
      | virt :: grants =>
        if virt = 0 then some (0, h) else mallocBlock size grants (heapGrow h size virt)

/-- `malloc`. -/
def malloc (grants : List ℕ) (h : Heap) (size : ℕ) : Option (ℕ × Heap) :=
  if size = 0 then some (0, h)
  else
    match takeSlot h.mem size h.pools with
    | some (ptr, pools) =>
      let bh := pageBase ptr
      let m := setUsedSlots h.mem bh ((readHeader h.mem bh).usedSlots + 1)
      some (ptr, { h with mem := m, pools := pools })
    | none => mallocBlock (alignHeap size) grants h

/-! ## Freeing -/

/-- The loop of `_free` that takes the slots of a page out of a free list. -/
def dropPage (page : ℕ) : ℕ → Memory → ℕ → ℕ → ℕ → Option (Memory × ℕ)
  | 0, _, _, _, _ => none
  | fuel + 1, m, freeList, prevNode, currNode =>
    if currNode = 0 then some (m, freeList)
    else
      let next := m.load currNode 8
      if pageBase currNode = page then
        if prevNode ≠ 0 then dropPage page fuel (m.store prevNode 8 next) freeList prevNode next
        else dropPage page fuel m next prevNode next
      else dropPage page fuel m freeList currNode next

/-- Remove a page from the registry: the last entry takes its place. -/
def unregister (page : ℕ) (registry : List ℕ) : List ℕ :=
  if registry.contains page then
    (registry.set (registry.idxOf page) (registry.getLastD 0)).dropLast
  else registry

/-- The pool part of `_free`. -/
def freeSlot (h : Heap) (ptr : ℕ) : Option Heap := do
  let bh := pageBase ptr
  let bin := (readHeader h.mem bh).binSize
  let binIdx := h.pools.findIdx fun p => p.blockSize == bin
  let pool ← h.pools[binIdx]?
  let m := h.mem.store ptr 8 pool.freeList
  let m :=
    if (readHeader m bh).usedSlots > 0 then setUsedSlots m bh ((readHeader m bh).usedSlots - 1)
    else m
  if (readHeader m bh).usedSlots = 0 then
    let (m, freeList) ← dropPage bh word m ptr 0 ptr
    let h := { h with
      mem := m
      pools := h.pools.set binIdx { pool with freeList := freeList }
      poolPageRegistry := unregister bh h.poolPageRegistry }
    let h := listUnlink h bh
    some { h with owned := h.owned.erase (bh, pageSize) }
  else some { h with mem := m, pools := h.pools.set binIdx { pool with freeList := ptr } }

/-- The forward coalescing of `_free`. -/
def coalesceForward (h : Heap) (block : ℕ) : Heap :=
  let next := (readHeader h.mem block).next
  if next ≠ 0 ∧ bhIsFree h.mem next ∧ !bhIsPool h.mem next ∧ !bhIsBoundary h.mem next then
    let fwd := next
    let m := setSize h.mem block (wadd (readHeader h.mem block).size
      (wadd bhSize (readHeader h.mem fwd).size))
    let m := setNext m block (readHeader m fwd).next
    let h := if (readHeader m fwd).next ≠ 0 then
        { h with mem := setPrev m (readHeader m fwd).next block }
      else { h with mem := m, tail := block }
    if h.lastFit = fwd then { h with lastFit := block } else h
  else h

/-- The backward coalescing of `_free`. -/
def coalesceBackward (h : Heap) (block : ℕ) : Heap :=
  let prev := (readHeader h.mem block).prev
  if prev ≠ 0 ∧ bhIsFree h.mem prev ∧ !bhIsPool h.mem prev ∧ !bhIsBoundary h.mem block then
    let bwd := prev
    let m := setSize h.mem bwd (wadd (readHeader h.mem bwd).size
      (wadd bhSize (readHeader h.mem block).size))
    let m := setNext m bwd (readHeader m block).next
    let h := if (readHeader m block).next ≠ 0 then
        { h with mem := setPrev m (readHeader m block).next bwd }
      else { h with mem := m, tail := bwd }
    if h.lastFit = block then { h with lastFit := bwd } else h
  else h

/-- The block part of `_free`. -/
def freeBlock (h : Heap) (ptr : ℕ) : Option Heap :=
  let block := ptr - bhSize
  if (readHeader h.mem block).magic ≠ heapMagic then none
  else
    let h := { h with mem := bhSetFree h.mem block }
    some (coalesceBackward (coalesceForward h block) block)

/-- `_free`. -/
def freeTyped (h : Heap) (ptr : ℕ) (type : PtrType) : Option Heap :=
  if ptr = 0 then some h
  else
    match type with
    | .pool => freeSlot h ptr
    | .block => freeBlock h ptr
    | .noinfo => none

/-- `free`. -/
def free (h : Heap) (ptr : ℕ) : Option Heap :=
  if ptr = 0 then some h
  else
    let type := getPtrType h ptr
    if type = .noinfo then none else freeTyped h ptr type

/-! ## Reallocating, zeroing -/

/-- `memset(ptr, 0, n)`. -/
def zeroBytes (m : Memory) (ptr n : ℕ) : Option Memory :=
  if ptr = 0 ∨ !rangeIsSafe ptr n then none else some (m.fill ptr n 0)

/-- `memcpy(dest, src, n)`: the bytes are copied one after the other, upwards. -/
def copyBytes (m : Memory) (dest src n : ℕ) : Option Memory :=
  if dest = 0 ∨ src = 0 ∨ !rangeIsSafe dest n ∨ !rangeIsSafe src n then none
  else some ((List.range n).foldl (fun m i => m.store (dest + i) 1 (m (src + i)).toNat) m)

/-- The in-place growth of `realloc` into the next block. -/
def expandBlock (h : Heap) (curr newSize combined : ℕ) : Heap :=
  if combined ≥ wadd (wadd newSize bhSize) minSplitSize then
    let oldNext := (readHeader h.mem curr).next
    let m := setSize h.mem curr newSize
    let split := curr + bhSize + newSize
    let m := clearHeader m split
    let m := setMagic m split heapMagic
    let m := setSize m split (wsub (wsub combined newSize) bhSize)
    let m := setFlags m split bhFree
    let m := setNext m split (readHeader m oldNext).next
    let m := setPrev m split curr
    let h := if (readHeader m split).next ≠ 0 then
        { h with mem := setPrev m (readHeader m split).next split }
      else { h with mem := m, tail := split }
    let h := { h with mem := setNext h.mem curr split }
    if h.lastFit = oldNext then { h with lastFit := split } else h
  else
    let h := if h.lastFit = (readHeader h.mem curr).next then { h with lastFit := curr } else h
    let m := setSize h.mem curr combined
    let m := setNext m curr (readHeader m (readHeader m curr).next).next
    if (readHeader m curr).next ≠ 0 then { h with mem := setPrev m (readHeader m curr).next curr }
    else { h with mem := m, tail := curr }

/-- The end of `realloc`: a new allocation, the old bytes copied, the old allocation freed. -/
def moveTo (grants : List ℕ) (h : Heap) (ptr newSize oldSize : ℕ) (type : PtrType) :
    Option (ℕ × Heap) := do
  let (new, h) ← malloc grants h newSize
  if new ≠ 0 then
    let m ← copyBytes h.mem new ptr oldSize
    let h ← freeTyped { h with mem := m } ptr type
    some (new, h)
  else some (0, h)

/-- The next block can be absorbed. -/
def canExpand (m : Memory) (curr : ℕ) : Bool :=
  let next := (readHeader m curr).next
  next != 0 && bhIsFree m next && !bhIsPool m next && !bhIsBoundary m next

/-- `combined` in `realloc`. -/
def combinedSize (m : Memory) (curr : ℕ) : ℕ :=
  wadd (wadd (readHeader m curr).size bhSize) (readHeader m (readHeader m curr).next).size

/-- `realloc`. -/
def realloc (grants : List ℕ) (h : Heap) (ptr newSize : ℕ) : Option (ℕ × Heap) :=
  if ptr = 0 then malloc grants h newSize
  else if newSize = 0 then (freeTyped h ptr (getPtrType h ptr)).map fun h => (0, h)
  else
    let newSize := alignHeap newSize
    match getPtrType h ptr with
    | .pool =>
      let oldSize := (readHeader h.mem (pageBase ptr)).binSize
      if newSize ≤ oldSize then some (ptr, h) else moveTo grants h ptr newSize oldSize .pool
    | .block =>
      let curr := ptr - bhSize
      let oldSize := (readHeader h.mem curr).size
      if (readHeader h.mem curr).magic ≠ heapMagic then none
      else if oldSize ≥ newSize then some (ptr, h)
      else if canExpand h.mem curr ∧ combinedSize h.mem curr ≥ newSize then
        some (ptr, expandBlock h curr newSize (combinedSize h.mem curr))
      else moveTo grants h ptr newSize oldSize .block
    | .noinfo => none

/-- `zalloc`. -/
def zalloc (grants : List ℕ) (h : Heap) (size : ℕ) : Option (ℕ × Heap) := do
  let (p, h) ← malloc grants h size
  if p ≠ 0 then
    let m ← zeroBytes h.mem p size
    some (p, { h with mem := m })
  else some (p, h)

/-- The usable size of an allocation, as `zfree` determines it. -/
def capacity (h : Heap) (ptr : ℕ) : ℕ :=
  match getPtrType h ptr with
  | .pool => (readHeader h.mem (pageBase ptr)).binSize
  | .block => (readHeader h.mem (ptr - bhSize)).size
  | .noinfo => 0

/-- `zfree`. -/
def zfree (h : Heap) (ptr : ℕ) : Option Heap := do
  if ptr = 0 then some h
  else
    let type := getPtrType h ptr
    if type = .noinfo then none
    else
      let size := capacity h ptr
      let m ← if size > 0 then zeroBytes h.mem ptr size else some h.mem
      freeTyped { h with mem := m } ptr type

end Cuore
