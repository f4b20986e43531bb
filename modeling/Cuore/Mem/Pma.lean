import Cuore.Mem.Common
import Cuore.Mem.Cmm
import Cuore.Framework.Chains

/-!
# The physical memory allocator (`mem/pma.c`)

Free physical memory is kept in blocks, each with a header at its start: two links and the size,
with bit 0 as a flag.  A zone has 32 times 32 lists of blocks, by size, in the manner of TLSF, and
bitmaps of the lists that are not empty.  The two zones, below 4 GiB and from there on, share one
bitmap of pages in which a set bit is a page that is not free.  Allocated memory has no header.

Headers are reached through the direct map, so a block is the physical address it starts at, and
`hdr` is the header found there, in free and in allocated memory alike.  The `block_null` of a zone
is a header outside the direct map, and the null pointer points outside of it too; both get
addresses that no block has.  Writing through a null pointer faults, and so does a list index
beyond the arrays; both are the outcome `none`, as is the panic of `pma_init`.

The byte sizes that are computed from what a caller asks for can wrap; they are computed on 64-bit
words.  Addresses of pages that exist do not, and memory ends below `2 ^ 48` in `pma_init`.
-/

namespace Cuore

open Function

/-! ## Data -/

/-- `pma_normal` and `pma_low`. -/
inductive PmaZoneId
  | normal | low
  deriving DecidableEq, Repr

/-- `pma_free_block_t`. -/
structure PmaFreeBlock where
  prev : ℕ
  next : ℕ
  size : ℕ
  deriving DecidableEq, Repr

/-- `pma_zone_t`. -/
structure PmaZone where
  totalPages : ℕ
  flBitmap : ℕ
  slBitmap : ℕ → ℕ
  blocks : ℕ → ℕ → ℕ

/-- The two zones, the bitmap they share, and the headers in physical memory. -/
structure Pma where
  hdr : ℕ → PmaFreeBlock
  bitmap : ℕ → Bool
  zone : PmaZoneId → PmaZone

/-- `&z->block_null`. -/
def pmaBlockNull : PmaZoneId → ℕ
  | .normal => 1
  | .low => 2

/-- The null pointer. -/
def pmaNull : ℕ := 3

/-- `PMA_ZONE_32BIT`. -/
def pmaZone32bit : ℕ := 0x100000000 / pageSize

/-- `PMA_FL_INDEX_COUNT` and `PMA_SL_INDEX_COUNT`. -/
def pmaIndexCount : ℕ := 32

/-- `PMA_SMALL_BLOCK_SIZE`. -/
def pmaSmallBlockSize : ℕ := 2 ^ 17

/-- `PMA_BLOCK_HEADER_SIZE`. -/
def pmaBlockHeaderSize : ℕ := 24

namespace Pma

/-- `block->prev = p`. -/
def setPrev (s : Pma) (a p : ℕ) : Pma := { s with hdr := update s.hdr a { s.hdr a with prev := p } }

/-- `block->next = q`. -/
def setNext (s : Pma) (a q : ℕ) : Pma := { s with hdr := update s.hdr a { s.hdr a with next := q } }

/-- `block->size = n`. -/
def setSize (s : Pma) (a n : ℕ) : Pma := { s with hdr := update s.hdr a { s.hdr a with size := n } }

/-- `z->blocks[fl][sl] = a`. -/
def setHead (s : Pma) (z : PmaZoneId) (fl sl a : ℕ) : Pma :=
  { s with zone := update s.zone z { s.zone z with
      blocks := update (s.zone z).blocks fl (update ((s.zone z).blocks fl) sl a) } }

/-- `z->sl_bitmap[fl] = w`. -/
def setSlBitmap (s : Pma) (z : PmaZoneId) (fl w : ℕ) : Pma :=
  { s with zone := update s.zone z { s.zone z with slBitmap := update (s.zone z).slBitmap fl w } }

/-- `z->fl_bitmap = w`. -/
def setFlBitmap (s : Pma) (z : PmaZoneId) (w : ℕ) : Pma :=
  { s with zone := update s.zone z { s.zone z with flBitmap := w } }

end Pma

/-! ## Bit manipulation and blocks -/

/-- `pma_ffs`: the least bit that is set. -/
def pmaFfs (w : ℕ) : Option ℕ := (List.range 64).find? w.testBit

/-- `pma_fls`, for a word that is not zero. -/
def pmaFls (w : ℕ) : ℕ := w.log2

/-- `block_size`. -/
def PmaFreeBlock.blockSize (b : PmaFreeBlock) : ℕ := b.size &&& wnot 1

/-- `block_set_size`. -/
def blockSetSize (s : Pma) (a sz : ℕ) : Pma := s.setSize a (sz ||| ((s.hdr a).size &&& 1))

/-- `block_mark_used`. -/
def blockMarkUsed (s : Pma) (a : ℕ) : Pma := s.setSize a ((s.hdr a).size &&& wnot 1)

/-- `tlsf_mapping_insert`: the two indices of the list for a size. -/
def tlsfMappingInsert (size : ℕ) : ℕ × ℕ :=
  if size < pmaSmallBlockSize then (0, size >>> 12)
  else
    let fl := pmaFls size
    (fl - 16, (size >>> (fl - 5)) ^^^ 2 ^ 5)

/-! ## Free lists -/

/-- `tlsf_remove_free_block`. -/
def tlsfRemoveFreeBlock (z : PmaZoneId) (b fl sl : ℕ) (s : Pma) : Option Pma :=
  let prev := (s.hdr b).prev
  let next := (s.hdr b).next
  if next = pmaNull ∨ prev = pmaNull then none
  else
    let s := (s.setPrev next prev).setNext prev next
    if (s.zone z).blocks fl sl = b then
      let s := s.setHead z fl sl next
      if next = pmaBlockNull z then
        let s := s.setSlBitmap z fl ((s.zone z).slBitmap fl &&& wnot (2 ^ sl))
        if (s.zone z).slBitmap fl = 0 then
          some (s.setFlBitmap z ((s.zone z).flBitmap &&& wnot (2 ^ fl)))
        else some s
      else some s
    else some s

/-- `tlsf_insert_free_block`. -/
def tlsfInsertFreeBlock (z : PmaZoneId) (b fl sl : ℕ) (s : Pma) : Option Pma :=
  let current := (s.zone z).blocks fl sl
  if current = pmaNull then none
  else
    let s := ((s.setNext b current).setPrev b (pmaBlockNull z)).setPrev current b
    let s := s.setHead z fl sl b
    let s := s.setFlBitmap z ((s.zone z).flBitmap ||| 2 ^ fl)
    some (s.setSlBitmap z fl ((s.zone z).slBitmap fl ||| 2 ^ sl))

/-- `tlsf_block_remove`. -/
def tlsfBlockRemove (z : PmaZoneId) (b : ℕ) (s : Pma) : Option Pma :=
  let (fl, sl) := tlsfMappingInsert (s.hdr b).blockSize
  if fl < pmaIndexCount then tlsfRemoveFreeBlock z b fl sl s else none

/-- `tlsf_block_insert`. -/
def tlsfBlockInsert (z : PmaZoneId) (b : ℕ) (s : Pma) : Option Pma :=
  let (fl, sl) := tlsfMappingInsert (s.hdr b).blockSize
  if fl < pmaIndexCount then tlsfInsertFreeBlock z b fl sl s else none

/-- `tlsf_search_suitable`: the first block of the first list that is not empty, from the indices
on, with the indices of the list. -/
def tlsfSearchSuitable (z : PmaZoneId) (fl sl : ℕ) (s : Pma) : Option (Option (ℕ × ℕ × ℕ)) :=
  let slMap := (s.zone z).slBitmap fl &&& wnot (2 ^ sl - 1)
  if slMap = 0 then
    let flMap := (s.zone z).flBitmap &&& wnot (2 ^ (fl + 1) - 1)
    if flMap = 0 then some none
    else do
      let fl ← pmaFfs flMap
      let sl ← pmaFfs ((s.zone z).slBitmap fl)
      some (some ((s.zone z).blocks fl sl, fl, sl))
  else do
    let sl ← pmaFfs slMap
    some (some ((s.zone z).blocks fl sl, fl, sl))

/-- `tlsf_locate_free`: takes a block from the lists, if there is one. -/
def tlsfLocateFree (z : PmaZoneId) (size : ℕ) (s : Pma) : Option (Option ℕ × Pma) :=
  if size = 0 then some (none, s)
  else
    let (fl, sl) := tlsfMappingInsert size
    if fl < pmaIndexCount then do
      match ← tlsfSearchSuitable z fl sl s with
      | none => some (none, s)
      | some (b, fl, sl) =>
        let s ← tlsfRemoveFreeBlock z b fl sl s
        some (some b, s)
    else some (none, s)

/-- `block_split`: the first `size` bytes of a block, and the address of the rest. -/
def blockSplit (b size : ℕ) (s : Pma) : ℕ × Pma :=
  let remaining := wadd b size
  let total := (s.hdr b).blockSize
  let s := s.setSize remaining (wsub total size ||| 1)
  (remaining, blockSetSize s b size)

/-! ## The bitmap -/

/-- `pma_page_is_free`. -/
def pmaPageIsFree (z : PmaZoneId) (pfn : ℕ) (s : Pma) : Bool :=
  decide (pfn < (s.zone z).totalPages) && !s.bitmap pfn

/-- `pma_page_set_free`. -/
def pmaPageSetFree (z : PmaZoneId) (pfn : ℕ) (s : Pma) : Pma :=
  if pfn ≥ (s.zone z).totalPages then s else { s with bitmap := update s.bitmap pfn false }

/-- `pma_page_set_used`. -/
def pmaPageSetUsed (z : PmaZoneId) (pfn : ℕ) (s : Pma) : Pma :=
  if pfn ≥ (s.zone z).totalPages then s else { s with bitmap := update s.bitmap pfn true }

/-- A loop over `n` pages from `start` on. -/
def pmaForPages (f : ℕ → Pma → Pma) (start n : ℕ) (s : Pma) : Pma :=
  (List.range n).foldl (fun s i => f (start + i) s) s

/-- `pma_find_free_start`. -/
def pmaFindFreeStart (z : PmaZoneId) (s : Pma) : ℕ → ℕ
  | 0 => 0
  | pfn + 1 => if pmaPageIsFree z pfn s then pmaFindFreeStart z s pfn else pfn + 1

/-- The loop of `pma_find_free_end`, of which `total_pages` rounds are enough. -/
def pmaFindFreeEndLoop (z : PmaZoneId) (s : Pma) : ℕ → ℕ → ℕ
  | 0, pfn => pfn
  | n + 1, pfn => if pmaPageIsFree z pfn s then pmaFindFreeEndLoop z s n (pfn + 1) else pfn

/-- `pma_find_free_end`. -/
def pmaFindFreeEnd (z : PmaZoneId) (s : Pma) (pfn : ℕ) : ℕ :=
  pmaFindFreeEndLoop z s ((s.zone z).totalPages - pfn) pfn

/-! ## Initialisation -/

/-- `pma_zone_init`. -/
def pmaZoneInit (z : PmaZoneId) (totalPages : ℕ) : PmaZone where
  totalPages := totalPages
  flBitmap := 0
  slBitmap := fun _ => 0
  blocks := fun _ _ => pmaBlockNull z

/-- The number of pages that `pma_init` gives to a zone, of `totalPages` in the machine. -/
def pmaZoneTotal (totalPages : ℕ) : PmaZoneId → ℕ
  | .normal => totalPages
  | .low => min totalPages pmaZone32bit

/-- `pma_zone_add_region`. -/
def pmaZoneAddRegion (z : PmaZoneId) (physBase length : ℕ) (s : Pma) : Option Pma :=
  if length < pmaBlockHeaderSize then some s
  else
    let start := alignUp pageSize physBase
    let stop := alignDown pageSize (physBase + length)
    if stop ≤ start then some s
    else
      -- skip page 0
      let start := if start = 0 then pageSize else start
      if stop ≤ start then some s
      else
        let regionBytes := stop - start
        let s := pmaForPages (pmaPageSetFree z) (start / pageSize) (regionBytes / pageSize) s
        let s := { s with hdr := update s.hdr start ⟨pmaNull, pmaNull, regionBytes ||| 1⟩ }
        tlsfBlockInsert z start s

/-- A step that is only taken if `c` holds. -/
def pmaWhen (c : Prop) [Decidable c] (f : Pma → Option Pma) (s : Pma) : Option Pma :=
  if c then f s else some s

lemma pmaWhen_pos {c : Prop} [Decidable c] {f : Pma → Option Pma} {s : Pma} (h : c) :
    pmaWhen c f s = f s := if_pos h

lemma pmaWhen_neg {c : Prop} [Decidable c] {f : Pma → Option Pma} {s : Pma} (h : ¬c) :
    pmaWhen c f s = some s := if_neg h

/-- Add the memory from `start` to `stop` to the two zones, split at 4 GiB. -/
def pmaAddSplit (start stop : ℕ) (s : Pma) : Option Pma := do
  let lowEnd := min stop (pmaZone32bit * pageSize)
  let s ← pmaWhen (lowEnd > start) (pmaZoneAddRegion .low start (lowEnd - start)) s
  let normalStart := max start (pmaZone32bit * pageSize)
  pmaWhen (stop > normalStart) (pmaZoneAddRegion .normal normalStart (stop - normalStart)) s

/-- `cmm_get_ram_top`, of the map that `cmm_init` has built. -/
def cmmGetRamTop (regions : List CmmRegion) : ℕ :=
  regions.foldl (fun top r => if r.type = .usable ∧ r.limit > top then r.limit else top) 0

/-- A round of the loop of `pma_init` that adds the usable regions. -/
def pmaInitRegion (bitmapPhys bitmapReserved totalPages : ℕ) (r : CmmRegion) (s : Pma) :
    Option Pma :=
  if r.type ≠ .usable then some s
  else if r.base ≤ bitmapPhys ∧ r.base + r.length > bitmapPhys then do
    let s ← pmaWhen (bitmapPhys > r.base) (pmaAddSplit r.base bitmapPhys) s
    -- mark bitmap pages as used
    let s := pmaForPages (fun p s =>
        if p < totalPages then { s with bitmap := update s.bitmap p true } else s)
      (bitmapPhys / pageSize) ((bitmapPhys + bitmapReserved) / pageSize - bitmapPhys / pageSize) s
    let after := bitmapPhys + bitmapReserved
    pmaWhen (after < r.base + r.length) (pmaAddSplit after (r.base + r.length)) s
  else pmaAddSplit r.base (r.base + r.length) s

/-- `bitmap_reserved`. -/
def pmaBitmapReserved (totalPages : ℕ) : ℕ :=
  ((totalPages + 7) / 8 + pageSize - 1) / pageSize * pageSize

/-- `pma_init`, on the map that `cmm_init` has built.  What the headers hold at boot is unknown. -/
def pmaInit (regions : List CmmRegion) (hdr : ℕ → PmaFreeBlock) : Option Pma := do
  let totalPages := cmmGetRamTop regions / pageSize
  let bitmapReserved := pmaBitmapReserved totalPages
  let r ← regions.find? fun r => r.type == .usable && decide (r.length ≥ bitmapReserved)
  let nullHdr := fun z => ⟨pmaBlockNull z, pmaBlockNull z, 0⟩
  let hdr := update (update hdr (pmaBlockNull .normal) (nullHdr .normal)) (pmaBlockNull .low)
    (nullHdr .low)
  let s : Pma := ⟨hdr, fun _ => true, fun z => pmaZoneInit z (pmaZoneTotal totalPages z)⟩
  regions.foldlM (fun s r' => pmaInitRegion r.base bitmapReserved totalPages r' s) s

/-! ## Allocation -/

/-- The part of `pma_alloc_from_zone` behind the gap: take `size` bytes of a block that has been
taken from the lists. -/
def pmaTakeBlock (z : PmaZoneId) (size block : ℕ) (s : Pma) : Option (ℕ × Pma) :=
  let bSize := (s.hdr block).blockSize
  let finish := fun s =>
    some (block, pmaForPages (pmaPageSetUsed z) (block / pageSize) (size / pageSize)
      (blockMarkUsed s block))
  if bSize > wadd size pmaBlockHeaderSize then do
    let (rest, s) := blockSplit block size s
    let s ← tlsfBlockInsert z rest s
    finish s
  else if bSize < size then do
    let s ← tlsfBlockInsert z block s
    some (0, s)
  else finish s

/-- The part of `pma_alloc_from_zone` behind `tlsf_locate_free`, with the block it has found. -/
def pmaAllocFromBlock (z : PmaZoneId) (size align block : ℕ) (s : Pma) : Option (ℕ × Pma) :=
  let allocPhys := wadd block (align - 1) &&& wnot (align - 1)
  let headGap := wsub allocPhys block
  if headGap ≥ pmaBlockHeaderSize then do
    let (rest, s) := blockSplit block headGap s
    let s ← tlsfBlockInsert z block s
    pmaTakeBlock z size rest s
  else if headGap > 0 then do
    let s ← tlsfBlockInsert z block s
    some (0, s)
  else pmaTakeBlock z size block s

/-- `size`, as `pma_alloc_from_zone` rounds it. -/
def pmaRequestSize (size : ℕ) : ℕ :=
  let size := wadd size (pageSize - 1) &&& wnot (pageSize - 1)
  if size < pmaBlockHeaderSize then pmaBlockHeaderSize else size

/-- `search_size`. -/
def pmaSearchSize (size align : ℕ) : ℕ :=
  if align > pageSize then wadd size (align - pageSize) else size

/-- `pma_alloc_from_zone`. -/
def pmaAllocFromZone (z : PmaZoneId) (size align : ℕ) (s : Pma) : Option (ℕ × Pma) := do
  let size := pmaRequestSize size
  let (block, s) ← tlsfLocateFree z (pmaSearchSize size align) s
  match block with
  | none => some (0, s)
  | some block => pmaAllocFromBlock z size align block s

/-- The zones in turn: `pma_normal`, and `pma_low` if that fails. -/
def pmaAllocFromZones (size align : ℕ) (s : Pma) : Option (ℕ × Pma) := do
  let (ret, s) ← pmaAllocFromZone .normal size align s
  if ret = 0 then pmaAllocFromZone .low size align s else some (ret, s)

/-- `pma_alloc_pages`. -/
def pmaAllocPages (count : ℕ) (s : Pma) : Option (ℕ × Pma) :=
  pmaAllocFromZones (wmul count pageSize) pageSize s

/-- `pma_alloc_pages_2mb`. -/
def pmaAllocPages2mb (count : ℕ) (s : Pma) : Option (ℕ × Pma) :=
  pmaAllocFromZones (wmul count pageSize2mb) pageSize2mb s

/-- `pma_alloc_pages_low`. -/
def pmaAllocPagesLow (count : ℕ) (s : Pma) : Option (ℕ × Pma) :=
  pmaAllocFromZone .low (wmul count pageSize) pageSize s

/-! ## Freeing -/

/-- The part of `pma_zone_free_range` that coalesces backward: the first page of the merged
block. -/
def pmaCoalesceBackward (z : PmaZoneId) (startPfn : ℕ) (s : Pma) : Option (ℕ × Pma) :=
  if startPfn > 0 ∧ pmaPageIsFree z (startPfn - 1) s then do
    let prevStart := pmaFindFreeStart z s (startPfn - 1)
    let s ← tlsfBlockRemove z (prevStart * pageSize) s
    some (prevStart, s)
  else some (startPfn, s)

/-- The part of `pma_zone_free_range` that coalesces forward: the end of the merged block. -/
def pmaCoalesceForward (z : PmaZoneId) (mergeEnd : ℕ) (s : Pma) : Option (ℕ × Pma) :=
  if mergeEnd < (s.zone z).totalPages ∧ pmaPageIsFree z mergeEnd s then do
    let nextEnd := pmaFindFreeEnd z s mergeEnd
    let s ← tlsfBlockRemove z (mergeEnd * pageSize) s
    some (nextEnd, s)
  else some (mergeEnd, s)

/-- `pma_zone_free_range`. -/
def pmaZoneFreeRange (z : PmaZoneId) (phys count : ℕ) (s : Pma) : Option Pma :=
  if count = 0 then some s
  else if wadd phys (wmul count pageSize) > wmul (s.zone z).totalPages pageSize then some s
  else do
    let startPfn := phys / pageSize
    let s := pmaForPages (pmaPageSetFree z) startPfn count s
    let (mergeStart, s) ← pmaCoalesceBackward z startPfn s
    let (mergeEnd, s) ← pmaCoalesceForward z (startPfn + count) s
    let mergedSize := (mergeEnd - mergeStart) * pageSize
    if mergedSize ≥ pmaBlockHeaderSize then
      let b := mergeStart * pageSize
      tlsfBlockInsert z b { s with hdr := update s.hdr b ⟨pmaNull, pmaNull, mergedSize ||| 1⟩ }
    else some s

/-- `pma_free_pages`. -/
def pmaFreePages (phys count : ℕ) (s : Pma) : Option Pma :=
  if phys = 0 then some s
  else do
    let lowLimit := pmaZone32bit * pageSize
    let stop := wadd phys (wmul count pageSize)
    let lowEnd := min stop lowLimit
    let s ← pmaWhen (lowEnd > phys) (pmaZoneFreeRange .low phys ((lowEnd - phys) / pageSize)) s
    let normalStart := max phys lowLimit
    pmaWhen (stop > normalStart)
      (pmaZoneFreeRange .normal normalStart ((stop - normalStart) / pageSize)) s

end Cuore
