import Cuore.Mem.Paging.Frame

/-!
# Loading ELF images (`binfmt/elf64.c`)

`elf64_parse` reads the ELF header and the program headers of a file, maps the pages of each
`PT_LOAD` segment into the target table, and copies the segment's bytes through the direct map.

The file lies in kernel memory at `fileData`, so that its bytes, and whatever surrounds them, are
a memory of their own; pointer arithmetic wraps as in the source.  Physical memory, page tables
and the answers of the page allocator are those of the paging model, with a second stream of
answers for `pma_alloc_pages_2mb(1)`.

A segment is mapped by three loops: 4 KiB pages up to the first 2 MiB boundary, 2 MiB pages, and
4 KiB pages from the last 2 MiB boundary on.  A loop body either goes on, makes `elf64_parse`
return its zeroed result, or panics (`Step`).
-/

namespace Cuore

/-! ## Headers -/

/-- The fields of `Elf64_Ehdr` that the loader reads. -/
structure Elf64Ehdr where
  eIdent : List ℕ
  eType : ℕ
  eMachine : ℕ
  eEntry : ℕ
  ePhoff : ℕ
  ePhentsize : ℕ
  ePhnum : ℕ
  deriving DecidableEq, Repr

/-- The fields of `Elf64_Phdr` that the loader reads. -/
structure Elf64Phdr where
  pType : ℕ
  pFlags : ℕ
  pOffset : ℕ
  pVaddr : ℕ
  pFilesz : ℕ
  pMemsz : ℕ
  deriving DecidableEq, Repr

/-- The header at `file_data`. -/
def readEhdr (file : Memory) (fileData : ℕ) : Elf64Ehdr where
  eIdent := (List.range 6).map fun i => file.load (fileData + i) 1
  eType := file.load (fileData + 16) 2
  eMachine := file.load (fileData + 18) 2
  eEntry := file.load (fileData + 24) 8
  ePhoff := file.load (fileData + 32) 8
  ePhentsize := file.load (fileData + 54) 2
  ePhnum := file.load (fileData + 56) 2

/-- The program header at a pointer. -/
def readPhdr (file : Memory) (p : ℕ) : Elf64Phdr where
  pType := file.load p 4
  pFlags := file.load (p + 4) 4
  pOffset := file.load (p + 8) 8
  pVaddr := file.load (p + 16) 8
  pFilesz := file.load (p + 32) 8
  pMemsz := file.load (p + 40) 8

/-- `PF_X`. -/
def pfX : ℕ := 1

/-- `PF_W`. -/
def pfW : ℕ := 2

/-- `PT_LOAD`. -/
def ptLoad : ℕ := 1

/-- The checks on magic, class, data encoding and machine: `0x7f`, `'E'`, `'L'`, `'F'`,
`ELFCLASS64`, `ELFDATA2LSB` and `EM_X86_64`. -/
def Elf64Ehdr.identOk (h : Elf64Ehdr) : Bool :=
  h.eIdent == [0x7f, 0x45, 0x4c, 0x46, 2, 1] && h.eMachine == 62

/-! ## Control flow -/

/-- A piece of `elf64_parse`: `none` is a panic or a fault, `false` a `return ret` before the
end, `true` going on. -/
def Step := PhysState → Option (Bool × PhysState)

/-- Go on with `g` unless `f` returned. -/
def Step.seq (f g : Step) : Step := fun s =>
  match f s with
  | none => none
  | some (false, s') => some (false, s')
  | some (true, s') => g s'

/-- Nothing. -/
def Step.skip : Step := fun s => some (true, s)

/-- `return ret`. -/
def Step.ret : Step := fun s => some (false, s)

/-- `n` rounds of a loop whose variable starts at `addr` and grows by `step`. -/
def Step.rounds (step : ℕ) (body : ℕ → Step) : ℕ → ℕ → Step
  | 0, _ => Step.skip
  | n + 1, addr => (body addr).seq (Step.rounds step body n (addr + step))

/-- `for (addr = start; addr < stop; addr += step)`, for bounds that are multiples of `step`, so
that the variable does not wrap before it reaches `stop`. -/
def Step.forAddr (start stop step : ℕ) (body : ℕ → Step) : Step :=
  Step.rounds step body ((stop - start) / step) start

/-! ## Mapping a segment -/

section Parse

variable (pages pages2mb : ℕ → ℕ) (levels top : ℕ)

/-- The flags of a page that is mapped already: writable or executable if either asks for it. -/
def combineFlags (existingFlags flags : ℕ) : ℕ :=
  let combined := existingFlags ||| (flags &&& pteWritable)
  if flags &&& pteNx = 0 then combined &&& wnot pteNx else combined

/-- The flags found in the entry of level 0, or the segment's own if there is none. -/
def existingFlags (addr flags : ℕ) (s : PhysState) : Option ℕ := do
  let (pte, s) ← pagingGetPte pages levels top addr false s
  match pte with
  | none => some flags
  | some (table, index) =>
    if table ≥ physLimit then none
    else some (readEntry s.mem table index &&&
      (ptePresent ||| pteUser ||| pteWritable ||| pteNx))

/-- `memset((void *)(phys + hhdm_offset), 0, n)`. -/
def zeroPhys (phys n : ℕ) (s : PhysState) : Option PhysState :=
  if phys + n > physLimit then none else some { s with mem := s.mem.fill phys n 0 }

/-- The body of the two 4 KiB loops. -/
def mapSmall (flags addr : ℕ) : Step := fun s => do
  let existingPhys ← pagingGetPhys s.mem levels top addr
  if existingPhys = 0 then
    let phys := pages s.calls
    let s := { s with calls := s.calls + 1 }
    if phys = 0 then some (false, s)
    else
      let s ← pagingMapPageNoflush pages levels top addr phys flags s
      let s ← zeroPhys phys pageSize s
      some (true, s)
  else
    let existing ← existingFlags pages levels top addr flags s
    let s ← pagingMapPageNoflush pages levels top addr existingPhys (combineFlags existing flags) s
    some (true, s)

/-- The body of the 2 MiB loop. -/
def mapHuge (flags addr : ℕ) : Step := fun s => do
  let existingPhys ← pagingGetPhys s.mem levels top addr
  if existingPhys = 0 then
    let phys := pages2mb s.calls2mb
    let s := { s with calls2mb := s.calls2mb + 1 }
    if phys = 0 then some (false, s)
    else
      let s ← pagingMap2mbNoflush pages levels top addr phys flags s
      let s ← zeroPhys phys pageSize2mb s
      some (true, s)
  else
    let existingBase := existingPhys &&& wnot (pageSize2mb - 1)
    let existing ← existingFlags pages levels top addr flags s
    let s ← pagingMap2mbNoflush pages levels top addr existingBase (combineFlags existing flags) s
    some (true, s)

/-- `seg_start`. -/
def Elf64Phdr.segStart (ph : Elf64Phdr) : ℕ := ph.pVaddr &&& wnot (pageSize - 1)

/-- `seg_end`. -/
def Elf64Phdr.segEnd (ph : Elf64Phdr) : ℕ :=
  wsub (wadd (wadd ph.pVaddr ph.pMemsz) pageSize) 1 &&& wnot (pageSize - 1)

/-- `huge_start`. -/
def Elf64Phdr.hugeStart (ph : Elf64Phdr) : ℕ :=
  wsub (wadd ph.segStart pageSize2mb) 1 &&& wnot (pageSize2mb - 1)

/-- `huge_end`. -/
def Elf64Phdr.hugeEnd (ph : Elf64Phdr) : ℕ := ph.segEnd &&& wnot (pageSize2mb - 1)

/-- `flags`. -/
def Elf64Phdr.pteFlags (user : Bool) (ph : Elf64Phdr) : ℕ :=
  let flags := ptePresent
  let flags := if user then flags ||| pteUser else flags
  let flags := if ph.pFlags &&& pfW ≠ 0 then flags ||| pteWritable else flags
  if ph.pFlags &&& pfX = 0 then flags ||| pteNx else flags

/-- The three mapping loops. -/
def mapSegment (user : Bool) (ph : Elf64Phdr) : Step :=
  let flags := ph.pteFlags user
  (Step.forAddr ph.segStart (min ph.hugeStart ph.segEnd) pageSize
      (mapSmall pages levels top flags)).seq
    ((Step.forAddr ph.hugeStart ph.hugeEnd pageSize2mb
        (mapHuge pages pages2mb levels top flags)).seq
      (Step.forAddr ph.hugeEnd ph.segEnd pageSize (mapSmall pages levels top flags)))

/-! ## Filling a segment -/

/-- `while (copy_size)`.  Every round consumes at least one byte, so `copy_size` rounds are
enough. -/
def copyLoop (file : Memory) : ℕ → ℕ → ℕ → ℕ → Step
  | 0, _, _, _ => Step.skip
  | fuel + 1, copyStart, src, copySize => fun s =>
    if copySize = 0 then some (true, s)
    else do
      let page := copyStart &&& wnot (pageSize - 1)
      let off := copyStart &&& (pageSize - 1)
      let chunk := if pageSize - off > copySize then copySize else pageSize - off
      let phys ← pagingGetPhys s.mem levels top page
      if phys = 0 then some (false, s)
      else if src = 0 ∨ !rangeIsSafe src chunk ∨ phys + off + chunk > physLimit then none
      else
        let m := s.mem.copyFrom (phys + off) chunk file src
        copyLoop file fuel (wadd copyStart chunk) (wadd src chunk) (copySize - chunk)
          { s with mem := m }

/-- `while (bss_size)`. -/
def bssLoop : ℕ → ℕ → ℕ → Step
  | 0, _, _ => Step.skip
  | fuel + 1, bssStart, bssSize => fun s =>
    if bssSize = 0 then some (true, s)
    else do
      let page := bssStart &&& wnot (pageSize - 1)
      let off := bssStart &&& (pageSize - 1)
      let chunk := if pageSize - off > bssSize then bssSize else pageSize - off
      let phys ← pagingGetPhys s.mem levels top page
      if phys = 0 then some (false, s)
      else
        let s ← zeroPhys (phys + off) chunk s
        bssLoop fuel (wadd bssStart chunk) (bssSize - chunk) s

/-- The copy and the zeroing behind it. -/
def fillSegment (file : Memory) (fileData : ℕ) (ph : Elf64Phdr) : Step :=
  (copyLoop levels top file ph.pFilesz ph.pVaddr (wadd fileData ph.pOffset) ph.pFilesz).seq
    (if ph.pMemsz > ph.pFilesz then
      bssLoop levels top (ph.pMemsz - ph.pFilesz) (wadd ph.pVaddr ph.pFilesz)
        (ph.pMemsz - ph.pFilesz)
    else Step.skip)

/-- One round of the program header loop. -/
def loadSegment (file : Memory) (fileData fileSize : ℕ) (user : Bool) (ph : Elf64Phdr) : Step :=
  if ph.pType ≠ ptLoad then Step.skip
  else if wadd ph.pOffset ph.pFilesz > fileSize then Step.ret
  else (mapSegment pages pages2mb levels top user ph).seq (fillSegment levels top file fileData ph)

/-- The program header loop over a list of headers. -/
def loadSegments (file : Memory) (fileData fileSize : ℕ) (user : Bool) : List Elf64Phdr → Step
  | [] => Step.skip
  | ph :: phs => (loadSegment pages pages2mb levels top file fileData fileSize user ph).seq
      (loadSegments file fileData fileSize user phs)

end Parse

/-! ## The parser -/

/-- `elf64_parser_ret`. -/
structure Elf64ParserRet where
  status : ℕ
  entry : ℕ
  phnum : ℕ
  topVaddr : ℕ
  deriving DecidableEq, Repr

/-- The program headers of a file. -/
def programHeaders (file : Memory) (fileData : ℕ) : List Elf64Phdr :=
  let eh := readEhdr file fileData
  (List.range eh.ePhnum).map fun i =>
    readPhdr file (wadd (wadd fileData eh.ePhoff) (i * eh.ePhentsize))

/-- `highest_vaddr` after the program header loop. -/
def highestVaddr (phs : List Elf64Phdr) : ℕ :=
  phs.foldl (fun h ph => if ph.pType = ptLoad ∧ ph.segEnd > h then ph.segEnd else h) 0

/-- `elf64_parse`. -/
def elf64Parse (pages pages2mb : ℕ → ℕ) (levels : ℕ) (file : Memory)
    (fileData fileSize targetPml4Phys : ℕ) (user : Bool) (s : PhysState) :
    Option (Elf64ParserRet × PhysState) :=
  let ret : Elf64ParserRet := ⟨0, 0, 0, 0⟩
  if fileData = 0 then some (ret, s)
  else
    let eh := readEhdr file fileData
    if !eh.identOk then some (ret, s)
    else if wadd eh.ePhoff (eh.ePhnum * eh.ePhentsize) > fileSize then some (ret, s)
    else if eh.eType ≠ 2 ∧ eh.eType ≠ 3 then some (ret, s)
    else
      let phs := programHeaders file fileData
      match loadSegments pages pages2mb levels targetPml4Phys file fileData fileSize user phs s with
      | none => none
      | some (false, s') => some (ret, s')
      | some (true, s') => some (⟨1, eh.eEntry, eh.ePhnum, highestVaddr phs⟩, s')

end Cuore
