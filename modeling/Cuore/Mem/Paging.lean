import Cuore.Mem.Common
import Cuore.Framework.Bytes

/-!
# Page tables (`mem/paging.c`)

Page tables live in physical memory and are reached through the direct map, so a table pointer
is modelled by the physical address it stands for: `phys + hhdm_offset` is written `phys`.
Memory is byte-addressed and an entry is the eight-byte integer at its place.  Physical
addresses have 52 bits; a pointer that stands for an address beyond them is outside the direct
map, where `range_is_safe` panics or the access faults.  Both are the outcome `none`.

`pma_alloc_pages(1)` is the page allocator's business.  Its answers are a parameter: `pages k`
is what the `k`-th call returns, zero for a failure, and the state counts the calls made.

`walk_to_level`, with its table creation and its splitting of huge entries, the three map and
the three unmap functions, `paging_get_pte` and `paging_get_phys` follow the source.
-/

namespace Cuore

/-! ## Entries -/

/-- `PTE_PRESENT`. -/
def ptePresent : ℕ := 2 ^ 0

/-- `PTE_WRITABLE`. -/
def pteWritable : ℕ := 2 ^ 1

/-- `PTE_USER`. -/
def pteUser : ℕ := 2 ^ 2

/-- `PTE_HUGE_PAGE`. -/
def pteHugePage : ℕ := 2 ^ 7

/-- `PTE_GLOBAL`. -/
def pteGlobal : ℕ := 2 ^ 8

/-- `PTE_NX`. -/
def pteNx : ℕ := 2 ^ 63

/-- `PTE_ADDR_MASK`. -/
def pteAddrMask : ℕ := 0x000FFFFFFFFFFFF000

/-- Physical addresses are below `2 ^ 52`. -/
def physLimit : ℕ := 2 ^ 52

/-- `table[index]`. -/
@[irreducible] def readEntry (m : Memory) (table index : ℕ) : ℕ := m.load (table + 8 * index) 8

/-- `table[index] = e`. -/
@[irreducible] def writeEntry (m : Memory) (table index e : ℕ) : Memory :=
  m.store (table + 8 * index) 8 e

/-- `(virt >> (12 + level * 9)) & 0x1FF`. -/
def pageIndex (virt level : ℕ) : ℕ := (virt >>> (12 + level * 9)) &&& 0x1FF

/-! ## Walking and creating tables -/

/-- Physical memory, and how many calls of `pma_alloc_pages` and `pma_alloc_pages_2mb` have
been made. -/
structure PhysState where
  mem : Memory
  calls : ℕ
  calls2mb : ℕ

/-- The entries that replace a huge entry of `level`: its page in 512 pieces. -/
def splitEntry (entry level i : ℕ) : ℕ :=
  let basePhys := entry &&& wnot (2 ^ (12 + level * 9) - 1)
  let subFlags := (entry &&& 0xFFF) ||| (entry &&& pteNx)
  let subFlags := subFlags &&& wnot pteHugePage
  let subFlags := subFlags &&& wnot pteGlobal
  let subPageSize := 2 ^ (12 + (level - 1) * 9)
  let e := wadd basePhys (i * subPageSize) ||| subFlags
  if level > 1 then e ||| pteHugePage else e

/-- The loop that fills a table. -/
@[irreducible] def writeTable (m : Memory) (table : ℕ) (e : ℕ → ℕ) : Memory :=
  (List.range 512).foldl (fun m i => writeEntry m table i (e i)) m

section Walk

variable (pages : ℕ → ℕ)

/-- `walk_to_level`, from the table `table` of `level` on: the table of `target` on the path
of `virt`, if any. -/
def walkToLevel (virt target : ℕ) (allocate : Bool) :
    ℕ → ℕ → PhysState → Option (Option ℕ × PhysState)
  | 0, table, s => some (some table, s)
  | level + 1, table, s =>
    if level + 1 ≤ target then some (some table, s)
    else if table ≥ physLimit then none
    else
      let index := pageIndex virt (level + 1)
      let entry := readEntry s.mem table index
      if entry &&& ptePresent = 0 then
        if !allocate then some (none, s)
        else
          let new := pages s.calls
          let s := { s with calls := s.calls + 1 }
          if new = 0 then some (none, s)
          else if new ≥ physLimit then none
          else
            let m := s.mem.fill new pageSize 0
            let m := writeEntry m table index (new ||| (ptePresent ||| pteWritable))
            walkToLevel virt target allocate level new { s with mem := m }
      else if entry &&& pteHugePage ≠ 0 then
        if !allocate then some (none, s)
        else
          let new := pages s.calls
          let s := { s with calls := s.calls + 1 }
          if new = 0 then some (none, s)
          else if new ≥ physLimit then none
          else
            let m := writeTable s.mem new (splitEntry entry (level + 1))
            let tableFlags := entry &&& (ptePresent ||| pteWritable ||| pteUser ||| pteNx)
            let m := writeEntry m table index (new ||| tableFlags)
            walkToLevel virt target allocate level new { s with mem := m }
      else walkToLevel virt target allocate level (entry &&& pteAddrMask) s

/-- `*p = e` for the entry `p` of a table. -/
def storeEntry (table index e : ℕ) (s : PhysState) : Option PhysState :=
  if table ≥ physLimit then none else some { s with mem := writeEntry s.mem table index e }

/-- `paging_get_pte`: the table and the index of the entry, if any. -/
def pagingGetPte (levels top virt : ℕ) (allocate : Bool) (s : PhysState) :
    Option (Option (ℕ × ℕ) × PhysState) := do
  let (table, s) ← walkToLevel pages virt 0 allocate (levels - 1) top s
  some (table.map fun t => (t, pageIndex virt 0), s)

/-- `paging_map_page_noflush`. -/
def pagingMapPageNoflush (levels top virt phys flags : ℕ) (s : PhysState) : Option PhysState := do
  let (pte, s) ← pagingGetPte pages levels top virt true s
  match pte with
  | none => some s
  | some (table, index) => storeEntry table index ((phys &&& wnot 0xFFF) ||| flags) s

/-- `paging_unmap_page_noflush`. -/
def pagingUnmapPageNoflush (levels top virt : ℕ) (s : PhysState) : Option PhysState := do
  let (pte, s) ← pagingGetPte pages levels top virt false s
  match pte with
  | none => some s
  | some (table, index) =>
    if table ≥ physLimit then none
    else if readEntry s.mem table index &&& ptePresent ≠ 0 then storeEntry table index 0 s
    else some s

/-- The common body of `paging_map_2mb_noflush` and `paging_map_1gb_noflush`. -/
def pagingMapHuge (target size levels top virt phys flags : ℕ) (s : PhysState) :
    Option PhysState := do
  let (table, s) ← walkToLevel pages virt target true (levels - 1) top s
  match table with
  | none => some s
  | some table =>
    storeEntry table (pageIndex virt target)
      ((phys &&& wnot (size - 1)) ||| flags ||| pteHugePage) s

/-- The common body of `paging_unmap_2mb_noflush` and `paging_unmap_1gb_noflush`. -/
def pagingUnmapHuge (target levels top virt : ℕ) (s : PhysState) : Option PhysState := do
  let (table, s) ← walkToLevel pages virt target false (levels - 1) top s
  match table with
  | none => some s
  | some table =>
    if table ≥ physLimit then none
    else if readEntry s.mem table (pageIndex virt target) &&& ptePresent ≠ 0 then
      storeEntry table (pageIndex virt target) 0 s
    else some s

/-- `paging_map_2mb_noflush`. -/
def pagingMap2mbNoflush (levels top virt phys flags : ℕ) (s : PhysState) : Option PhysState :=
  pagingMapHuge pages 1 pageSize2mb levels top virt phys flags s

/-- `paging_unmap_2mb_noflush`. -/
def pagingUnmap2mbNoflush (levels top virt : ℕ) (s : PhysState) : Option PhysState :=
  pagingUnmapHuge pages 1 levels top virt s

/-- `paging_map_1gb_noflush`. -/
def pagingMap1gbNoflush (levels top virt phys flags : ℕ) (s : PhysState) : Option PhysState :=
  pagingMapHuge pages 2 pageSize1gb levels top virt phys flags s

/-- `paging_unmap_1gb_noflush`. -/
def pagingUnmap1gbNoflush (levels top virt : ℕ) (s : PhysState) : Option PhysState :=
  pagingUnmapHuge pages 2 levels top virt s

end Walk

/-! ## Reading a translation back -/

/-- The loop of `paging_get_phys`, from the table `table` of `level` on. -/
def getPhysFrom (m : Memory) (vaddr : ℕ) : ℕ → ℕ → Option ℕ
  | 0, table =>
    if table ≥ physLimit then none
    else
      let entry := readEntry m table ((vaddr >>> 12) &&& 0x1FF)
      if entry &&& ptePresent = 0 then some 0
      else some (wadd (entry &&& pteAddrMask) (vaddr &&& 0xFFF))
  | level + 1, table =>
    if table ≥ physLimit then none
    else
      let entry := readEntry m table (pageIndex vaddr (level + 1))
      if entry &&& ptePresent = 0 then some 0
      else if entry &&& pteHugePage ≠ 0 then
        let pageOffsetMask := 2 ^ (12 + (level + 1) * 9) - 1
        some (wadd (entry &&& wnot pageOffsetMask) (vaddr &&& pageOffsetMask))
      else getPhysFrom m vaddr level (entry &&& pteAddrMask)

/-- `paging_get_phys`. -/
def pagingGetPhys (m : Memory) (levels top vaddr : ℕ) : Option ℕ :=
  getPhysFrom m vaddr (levels - 1) top

end Cuore
