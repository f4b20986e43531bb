import Cuore.Disk.Partition
import Cuore.Math.Crc32

/-!
# GUID partition tables (`disk/gpt.c`)

The header of the table is in sector 1, with a copy in the last sector of the disk, and the entries
in an array of sectors that the header points to.  Header and array each carry a checksum, the
header's over itself with the checksum field zeroed.

`gpt_parse` believes what the header says: the number and the size of the entries, and where they
are.  The size of the array is computed in 32 bits, and an entry is read with all its fields
whatever size the header gives.

`gpt_install` writes a protective boot sector, the array twice and the header twice.
`gptInstall_bytes` says what the disk holds afterwards, and `gptParse_gptInstall` that `gpt_parse`
takes it back.
-/

namespace Cuore

/-! ## The layout -/

/-- `"EFI PART"`. -/
def efiPart : List UInt8 := [0x45, 0x46, 0x49, 0x20, 0x50, 0x41, 0x52, 0x54]

/-- `GUID_EMPTY`. -/
def guidEmpty : List UInt8 := List.replicate 16 0

/-- `GUID_LINUX_FILESYSTEM`, as `GUIDE_PARSE` lays it out. -/
def guidLinuxFilesystem : List UInt8 :=
  [0xAF, 0x3D, 0xC6, 0x0F, 0x83, 0x84, 0x72, 0x47, 0x8E, 0x79, 0x3D, 0x69, 0xD8, 0x47, 0x7D, 0xE4]

namespace GptHeader

/-- `header->signature`. -/
def signature (header : Memory) : List UInt8 := header.bytesAt 0 8

/-- `header->header_size`. -/
def headerSize (header : Memory) : ℕ := header.load 12 4

/-- `header->header_crc32`. -/
def headerCrc32 (header : Memory) : ℕ := header.load 16 4

/-- `header->partition_entry_lba`. -/
def partitionEntryLba (header : Memory) : ℕ := header.load 72 8

/-- `header->num_partition_entries`. -/
def numPartitionEntries (header : Memory) : ℕ := header.load 80 4

/-- `header->sizeof_partition_entry`. -/
def sizeofPartitionEntry (header : Memory) : ℕ := header.load 84 4

/-- `header->partition_entry_array_crc32`. -/
def partitionEntryArrayCrc32 (header : Memory) : ℕ := header.load 88 4

/-- `array_size`, a `uint32_t`. -/
def arraySize (header : Memory) : ℕ :=
  numPartitionEntries header * sizeofPartitionEntry header % 2 ^ 32

/-- `sectors_to_read`; the sum wraps as well. -/
def sectorsToRead (header : Memory) : ℕ := (arraySize header + 511) % 2 ^ 32 / 512

/-- The check of the header's own checksum, made with that field zeroed. -/
def crcOk (header : Memory) : Bool :=
  crc32 (header.store 16 4 0) 0 (headerSize header) = headerCrc32 header

/-- The check of the array's checksum. -/
def arrayCrcOk (header array : Memory) : Bool :=
  crc32 array 0 (arraySize header) = partitionEntryArrayCrc32 header

end GptHeader

/-- The type of the entry at `a`. -/
def gptTypeGuid (array : Memory) (a : ℕ) : List UInt8 := array.bytesAt a 16

/-- The fields of a node that `gpt_parse` fills in for the entry at `a`, which is all of them. -/
def gptPartition (dev : ℕ) (array : Memory) (a i : ℕ) : Partition where
  startLba := array.load (a + 32) 8
  sectorCount := wadd (wsub (array.load (a + 40) 8) (array.load (a + 32) 8)) 1
  partitionId := i
  typeId := 0
  guid := gptTypeGuid array a
  disk := dev
  isGpt := true

/-! ## Parsing -/

/-- The loop of `gpt_parse` over the entries that are left.  It ends when `malloc` fails. -/
def gptLoop (dev : ℕ) (array : Memory) (entrySize : ℕ) : List ℕ → DiskDev → Option DiskDev
  | [], d => some d
  | i :: is, d =>
    if gptTypeGuid array (i * entrySize % 2 ^ 32) = guidEmpty then gptLoop dev array entrySize is d
    else if d.mallocNode.1 = 0 then some d.mallocNode.2
    else ((d.mallocNode.2.setPart d.mallocNode.1
        fun _ => gptPartition dev array (i * entrySize % 2 ^ 32) i).partitionRegister
      d.mallocNode.1).bind (gptLoop dev array entrySize is)

/-- `gpt_parse`.  It is `none` if `dmalloc32` fails, which nobody checks, or if the walk in
`partition_register` does not end. -/
def gptParse (io : DiskIo) (d : DiskDev) : Option DiskDev :=
  (io.dmalloc32 512).bind fun sectorRes =>
    match io.readSectors 1 1 sectorRes with
    | none => some d
    | some header =>
      if GptHeader.signature header ≠ efiPart then some d
      else if ¬ GptHeader.crcOk header then some d
      -- the checksum is put back into its field here
      else (io.dmalloc32 (GptHeader.arraySize header)).bind fun arrayRes =>
        match io.readSectors (GptHeader.partitionEntryLba header) (GptHeader.sectorsToRead header)
          arrayRes with
        | none => some d
        | some array =>
          if ¬ GptHeader.arrayCrcOk header array then some d
          else gptLoop d.addr array (GptHeader.sizeofPartitionEntry header)
            (List.range (GptHeader.numPartitionEntries header)) d

/-! ## Installing -/

/-- A `char` is signed, and widened to 16 bits with its sign. -/
def char16 (c : UInt8) : ℕ := if c.toNat < 128 then c.toNat else c.toNat + 0xFF00

/-- The loop of `gpt_install` that copies the name, from character `i` on, at most `n` of them. -/
def gptName (fsName : Memory) : ℕ → ℕ → Memory → Memory
  | 0, _, array => array
  | n + 1, i, array =>
    if fsName i = 0 then array
    else gptName fsName n (i + 1) (array.store (56 + 2 * i) 2 (char16 (fsName i)))

/-- The type that goes into the entry. -/
def gptType (typeGuid : Option Memory) : List UInt8 :=
  match typeGuid with
  | some guid => guid.bytesAt 0 16
  | none => guidLinuxFilesystem

/-- The array of entries that `gpt_install` builds in `array`. -/
def gptArray (array : Memory) (diskSectors : ℕ) (fsName typeGuid : Option Memory) : Memory :=
  let array := array.fill 0 16384 0
  let array := array.copyFrom 0 16 (fun i => (gptType typeGuid).getD i 0) 0
  let array := array.fill 16 16 0xAA
  let array := array.store 32 8 2048
  let array := array.store 40 8 (diskSectors - 34)
  match fsName with
  | some fsName => gptName fsName 36 0 array
  | none => array

/-- The protective boot sector. -/
def gptMbr (sector : Memory) (diskSectors : ℕ) : Memory :=
  let sector := sector.fill 0 512 0
  let sector := sector.store 450 1 0xEE
  let sector := sector.store 454 4 1
  let sector := sector.store 458 4
    (if diskSectors > 0xFFFFFFFF then 0xFFFFFFFF else diskSectors - 1)
  let sector := sector.store 510 1 0x55
  sector.store 511 1 0xAA

/-- The checksum of a header is put in its place, computed with zero there. -/
def gptSeal (header : Memory) : Memory :=
  let header := header.store 16 4 0
  header.store 16 4 (crc32 header 0 92)

/-- The first header, without its checksum. -/
def gptHeaderFields (sector : Memory) (diskSectors arrayCrc : ℕ) : Memory :=
  let header := sector.fill 0 512 0
  let header := header.copyFrom 0 8 (fun i => efiPart.getD i 0) 0
  let header := header.store 8 4 0x00010000
  let header := header.store 12 4 92
  let header := header.store 24 8 1
  let header := header.store 32 8 (diskSectors - 1)
  let header := header.store 40 8 34
  let header := header.store 48 8 (diskSectors - 34)
  let header := header.fill 56 16 0xCC
  let header := header.store 72 8 2
  let header := header.store 80 4 128
  let header := header.store 84 4 128
  header.store 88 4 arrayCrc

/-- The copy of the header for the end of the disk, without its checksum. -/
def gptBackupFields (header : Memory) (diskSectors : ℕ) : Memory :=
  let header := header.store 24 8 (diskSectors - 1)
  let header := header.store 32 8 1
  header.store 72 8 (diskSectors - 33)

/-- `gpt_install`.  It is `none` if `dmalloc32` fails, which nobody checks. -/
def gptInstall (io : DiskIo) (fsName typeGuid : Option Memory) : Option DiskIo :=
  if io.totalSectors < 68 then some io
  else (io.dmalloc32 512).bind fun sectorRes => (io.dmalloc32 16384).map fun arrayRes =>
    let array := gptArray arrayRes io.totalSectors fsName typeGuid
    let mbr := gptMbr sectorRes io.totalSectors
    let header := gptSeal (gptHeaderFields mbr io.totalSectors (crc32 array 0 16384))
    let backup := gptSeal (gptBackupFields header io.totalSectors)
    let io' := io.writeSectors 0 1 mbr
    let io' := io'.writeSectors 2 32 array
    let io' := io'.writeSectors (io.totalSectors - 33) 32 array
    let io' := io'.writeSectors 1 1 header
    io'.writeSectors (io.totalSectors - 1) 1 backup

/-! ## What is written -/

section Array

variable {array : Memory} {fsName typeGuid : Option Memory} {n : ℕ}

lemma gptName_of_outside {name array : Memory} {k i x : ℕ}
    (h : x < 56 + 2 * i ∨ 56 + 2 * (i + k) ≤ x) :
    gptName name k i array x = array x := by
  induction k generalizing i array with
  | zero => rfl
  | succ k ih =>
    rw [gptName]
    split_ifs with hend
    · rfl
    · rw [ih (by omega), Memory.store_of_outside (by omega)]

/-- The name is the last field of the first entry. -/
lemma gptArray_of_outside {x : ℕ} (h : x < 48 ∨ 128 ≤ x) :
    gptArray array n fsName typeGuid x =
      ((((array.fill 0 16384 0).copyFrom 0 16 (fun i => (gptType typeGuid).getD i 0) 0).fill 16 16
        0xAA).store 32 8 2048 |>.store 40 8 (n - 34)) x := by
  unfold gptArray
  cases fsName with
  | none => rfl
  | some name => exact gptName_of_outside (by omega)

lemma length_gptType (typeGuid : Option Memory) : (gptType typeGuid).length = 16 := by
  cases typeGuid with
  | none => rfl
  | some guid => simp [gptType, Memory.bytesAt]

lemma gptTypeGuid_gptArray (array : Memory) (n : ℕ) (fsName typeGuid : Option Memory) :
    gptTypeGuid (gptArray array n fsName typeGuid) 0 = gptType typeGuid := by
  have hlen := length_gptType typeGuid
  rw [gptTypeGuid]
  refine List.ext_getElem (by simp [Memory.bytesAt, hlen]) fun i hi _ => ?_
  have hi16 : i < 16 := by simpa [Memory.bytesAt] using hi
  simp only [Memory.bytesAt, List.getElem_map, List.getElem_range, Nat.zero_add]
  rw [gptArray_of_outside (by omega), Memory.store_of_outside (by omega),
    Memory.store_of_outside (by omega), Memory.fill_of_outside (by omega),
    Memory.copyFrom_of_inside (by omega) (by omega)]
  simp [hlen, hi16]

lemma load_gptArray {a : ℕ} (h : a + 8 ≤ 48) : (gptArray array n fsName typeGuid).load a 8 =
    ((((array.fill 0 16384 0).copyFrom 0 16 (fun i => (gptType typeGuid).getD i 0) 0).fill 16 16
        0xAA).store 32 8 2048 |>.store 40 8 (n - 34)).load a 8 :=
  Memory.load_congr fun x _ hx => gptArray_of_outside (by omega)

/-- All other entries are empty. -/
lemma gptTypeGuid_gptArray_rest (array : Memory) (n : ℕ) (fsName typeGuid : Option Memory) {i : ℕ}
    (hi : 1 ≤ i) (hi' : i < 128) :
    gptTypeGuid (gptArray array n fsName typeGuid) (i * 128) = guidEmpty := by
  refine List.ext_getElem (by simp [gptTypeGuid, Memory.bytesAt, guidEmpty]) fun j hj _ => ?_
  have hj16 : j < 16 := by simpa [gptTypeGuid, Memory.bytesAt] using hj
  simp only [gptTypeGuid, Memory.bytesAt, List.getElem_map, List.getElem_range, guidEmpty,
    List.getElem_replicate]
  rw [gptArray_of_outside (by omega), Memory.store_of_outside (by omega),
    Memory.store_of_outside (by omega), Memory.fill_of_outside (by omega),
    Memory.copyFrom_of_outside (by omega), Memory.fill_of_inside (by omega) (by omega)]

end Array

/-- A header that says where the array is, with 128 entries of 128 bytes each. -/
structure GptHeader.Standard (header : Memory) (lba arrayCrc : ℕ) : Prop where
  signature : GptHeader.signature header = efiPart
  headerSize : GptHeader.headerSize header = 92
  partitionEntryLba : GptHeader.partitionEntryLba header = lba
  numPartitionEntries : GptHeader.numPartitionEntries header = 128
  sizeofPartitionEntry : GptHeader.sizeofPartitionEntry header = 128
  partitionEntryArrayCrc32 : GptHeader.partitionEntryArrayCrc32 header = arrayCrc

namespace GptHeader.Standard

variable {header header' : Memory} {lba arrayCrc : ℕ}

/-- Nothing but the checksum of the header is left open. -/
lemma congr (h : GptHeader.Standard header lba arrayCrc)
    (hsame : ∀ x < 92, x < 16 ∨ 20 ≤ x → header' x = header x) :
    GptHeader.Standard header' lba arrayCrc := by
  have hload : ∀ a k, a + k ≤ 92 → (a + k ≤ 16 ∨ 20 ≤ a) → header'.load a k = header.load a k :=
    fun a k hk hout => Memory.load_congr fun x _ _ => hsame x (by omega) (by omega)
  refine ⟨?_, ?_, ?_, ?_, ?_, ?_⟩
  · rw [← h.signature]
    exact Memory.bytesAt_congr fun i hi => hsame _ (by omega) (by omega)
  · exact (hload _ _ (by omega) (by omega)).trans h.headerSize
  · exact (hload _ _ (by omega) (by omega)).trans h.partitionEntryLba
  · exact (hload _ _ (by omega) (by omega)).trans h.numPartitionEntries
  · exact (hload _ _ (by omega) (by omega)).trans h.sizeofPartitionEntry
  · exact (hload _ _ (by omega) (by omega)).trans h.partitionEntryArrayCrc32

lemma arraySize (h : GptHeader.Standard header lba arrayCrc) :
    GptHeader.arraySize header = 16384 := by
  rw [GptHeader.arraySize, h.numPartitionEntries, h.sizeofPartitionEntry]
  rfl

lemma sectorsToRead (h : GptHeader.Standard header lba arrayCrc) :
    GptHeader.sectorsToRead header = 32 := by
  rw [GptHeader.sectorsToRead, h.arraySize]
  rfl

/-- A sealed header passes the check, wherever its bytes are read from. -/
lemma crcOk (h : GptHeader.Standard header lba arrayCrc)
    (hsame : ∀ x < 92, header' x = gptSeal header x) : GptHeader.crcOk header' = true := by
  have h' : GptHeader.Standard header' lba arrayCrc := h.congr fun x hx hout => by
    rw [hsame x hx, gptSeal, Memory.store_of_outside (by omega), Memory.store_of_outside (by omega)]
  have hcrc : GptHeader.headerCrc32 header' = crc32 (header.store 16 4 0) 0 92 := by
    rw [GptHeader.headerCrc32, Memory.load_congr fun x _ hx => hsame x (by omega), gptSeal,
      Memory.load_store_self]
    exact Nat.mod_eq_of_lt (crc32_lt _ _ _)
  rw [GptHeader.crcOk, hcrc, h'.headerSize, decide_eq_true_eq]
  refine crc32_congr fun x hx => ?_
  rw [Nat.zero_add]
  by_cases hin : 16 ≤ x ∧ x < 16 + 4
  · simp [Memory.store, hin]
  · rw [Memory.store_of_outside (by omega), Memory.store_of_outside (by omega), hsame x hx, gptSeal,
      Memory.store_of_outside (by omega), Memory.store_of_outside (by omega)]

end GptHeader.Standard

/-- The first header is a standard one. -/
lemma standard_gptHeaderFields {sector : Memory} {n arrayCrc : ℕ} (hcrc : arrayCrc < 2 ^ 32) :
    GptHeader.Standard (gptHeaderFields sector n arrayCrc) 2 arrayCrc := by
  refine ⟨?_, ?_, ?_, ?_, ?_, ?_⟩
  · refine List.ext_getElem (by simp [GptHeader.signature, Memory.bytesAt, efiPart]) fun i
      hi _ => ?_
    have hi8 : i < 8 := by simpa [GptHeader.signature, Memory.bytesAt] using hi
    simp only [GptHeader.signature, Memory.bytesAt, List.getElem_map, List.getElem_range,
      Nat.zero_add, gptHeaderFields]
    rw [Memory.store_of_outside (by omega), Memory.store_of_outside (by omega),
      Memory.store_of_outside (by omega), Memory.store_of_outside (by omega),
      Memory.fill_of_outside (by omega), Memory.store_of_outside (by omega),
      Memory.store_of_outside (by omega), Memory.store_of_outside (by omega),
      Memory.store_of_outside (by omega), Memory.store_of_outside (by omega),
      Memory.store_of_outside (by omega), Memory.copyFrom_of_inside (by omega) (by omega)]
    simp [efiPart, hi8]
  all_goals
    simp (disch := omega) only [GptHeader.headerSize, GptHeader.partitionEntryLba,
      GptHeader.numPartitionEntries, GptHeader.sizeofPartitionEntry,
      GptHeader.partitionEntryArrayCrc32, gptHeaderFields, Memory.load_store_of_disjoint,
      Memory.load_fill_of_disjoint, Memory.load_store_self]
    try omega

/-- Sealing a header changes its checksum only. -/
lemma gptSeal_of_outside {header : Memory} {x : ℕ} (h : x < 16 ∨ 20 ≤ x) :
    gptSeal header x = header x := by
  rw [gptSeal, Memory.store_of_outside (by omega), Memory.store_of_outside (by omega)]

/-- The copy of the header is a standard one too. -/
lemma standard_gptBackupFields {header : Memory} {n lba arrayCrc : ℕ} (hn : n ≤ 2 ^ 32)
    (h : GptHeader.Standard header lba arrayCrc) :
    GptHeader.Standard (gptBackupFields header n) (n - 33) arrayCrc := by
  have hsig : GptHeader.signature (gptBackupFields header n) = efiPart := by
    rw [← h.signature]
    refine Memory.bytesAt_congr fun i hi => ?_
    rw [gptBackupFields, Memory.store_of_outside (by omega), Memory.store_of_outside (by omega),
      Memory.store_of_outside (by omega)]
  refine ⟨hsig, ?_, ?_, ?_, ?_, ?_⟩
  · simp (disch := omega) only [GptHeader.headerSize, gptBackupFields,
      Memory.load_store_of_disjoint]
    exact h.headerSize
  · rw [GptHeader.partitionEntryLba, gptBackupFields, Memory.load_store_self]
    exact Nat.mod_eq_of_lt (by omega)
  · simp (disch := omega) only [GptHeader.numPartitionEntries, gptBackupFields,
      Memory.load_store_of_disjoint]
    exact h.numPartitionEntries
  · simp (disch := omega) only [GptHeader.sizeofPartitionEntry, gptBackupFields,
      Memory.load_store_of_disjoint]
    exact h.sizeofPartitionEntry
  · simp (disch := omega) only [GptHeader.partitionEntryArrayCrc32, gptBackupFields,
      Memory.load_store_of_disjoint]
    exact h.partitionEntryArrayCrc32

/-- What is on a disk with a table: the array twice, and a header for each. -/
structure HasGpt (io : DiskIo) (n : ℕ) (array : Memory) : Prop where
  entries : ∀ x < 16384, io.bytes (2 * 512 + x) = array x
  backupEntries : ∀ x < 16384, io.bytes ((n - 33) * 512 + x) = array x
  header : ∃ header, GptHeader.Standard header 2 (crc32 array 0 16384) ∧
    ∀ x < 512, io.bytes (1 * 512 + x) = gptSeal header x
  backup : ∃ header, GptHeader.Standard header (n - 33) (crc32 array 0 16384) ∧
    ∀ x < 512, io.bytes ((n - 1) * 512 + x) = gptSeal header x

/-- **What `gpt_install` leaves on the disk.** -/
lemma hasGpt_gptInstall {io : DiskIo} (fsName typeGuid : Option Memory) (hlo : 68 ≤ io.totalSectors)
    (hhi : io.totalSectors ≤ 2 ^ 32) (hdma : ∀ size, (io.dmalloc32 size).isSome) :
    ∃ io' arrayRes, gptInstall io fsName typeGuid = some io' ∧
      HasGpt io' io.totalSectors (gptArray arrayRes io.totalSectors fsName typeGuid) ∧
      io'.readOk = io.readOk ∧ io'.dmalloc32 = io.dmalloc32 ∧
      io'.totalSectors = io.totalSectors := by
  obtain ⟨sectorRes, hsector⟩ := Option.isSome_iff_exists.mp (hdma 512)
  obtain ⟨arrayRes, harray⟩ := Option.isSome_iff_exists.mp (hdma 16384)
  set n := io.totalSectors with hn
  set array := gptArray arrayRes n fsName typeGuid with harr
  set header := gptHeaderFields (gptMbr sectorRes n) n (crc32 array 0 16384) with hheader
  have hstd : GptHeader.Standard header 2 (crc32 array 0 16384) :=
    standard_gptHeaderFields (crc32_lt _ _ _)
  have hsealed : GptHeader.Standard (gptSeal header) 2 (crc32 array 0 16384) :=
    hstd.congr fun x _ hx => gptSeal_of_outside hx
  rw [gptInstall, if_neg (by omega), hsector, harray]
  refine ⟨_, arrayRes, rfl, ⟨fun x hx => ?_, fun x hx => ?_, ⟨header, hstd, fun x hx => ?_⟩,
    ⟨_, standard_gptBackupFields hhi hsealed, fun x hx => ?_⟩⟩, rfl, rfl, rfl⟩
  · rw [DiskIo.writeSectors_of_outside (by omega) (by omega),
      DiskIo.writeSectors_of_outside (by omega) (by omega),
      DiskIo.writeSectors_of_outside (by omega) (by omega)]
    exact DiskIo.writeSectors_of_inside (by omega) (by omega)
  · rw [DiskIo.writeSectors_of_outside (by omega) (by omega),
      DiskIo.writeSectors_of_outside (by omega) (by omega)]
    exact DiskIo.writeSectors_of_inside (by omega) (by omega)
  · rw [DiskIo.writeSectors_of_outside (by omega) (by omega)]
    exact DiskIo.writeSectors_of_inside (by omega) (by omega)
  · exact DiskIo.writeSectors_of_inside (by omega) (by omega)

/-! ## Reading it back -/

/-- A header read from sector `lba` passes the checks of `gpt_parse`, and so does the array that it
points to. -/
def GptValidAt (io : DiskIo) (lba : ℕ) : Prop :=
  ∀ buffer header, io.readSectors lba 1 buffer = some header →
    GptHeader.signature header = efiPart ∧ GptHeader.crcOk header = true ∧
      ∀ buffer array, io.readSectors (GptHeader.partitionEntryLba header)
        (GptHeader.sectorsToRead header) buffer = some array →
          GptHeader.arrayCrcOk header array = true

/-- A sealed header with its array. -/
lemma gptValidAt_of_standard {io : DiskIo} {lba entryLba : ℕ} {header array : Memory}
    (hlba : lba < 2 ^ 32) (hentry : entryLba < 2 ^ 32)
    (hstd : GptHeader.Standard header entryLba (crc32 array 0 16384))
    (hheader : ∀ x < 512, io.bytes (lba * 512 + x) = gptSeal header x)
    (harray : ∀ x < 16384, io.bytes (entryLba * 512 + x) = array x) : GptValidAt io lba := by
  intro buffer header' hread
  have hsame : ∀ x < 92, header' x = gptSeal header x := fun x hx => by
    rw [DiskIo.readSectors_eq_some hread hlba (by omega), hheader x (by omega)]
  have hstd' : GptHeader.Standard header' entryLba (crc32 array 0 16384) :=
    hstd.congr fun x hx hout => by rw [hsame x hx, gptSeal_of_outside hout]
  refine ⟨hstd'.signature, hstd.crcOk hsame, fun buffer array' hread' => ?_⟩
  rw [hstd'.partitionEntryLba, hstd'.sectorsToRead] at hread'
  rw [GptHeader.arrayCrcOk, hstd'.arraySize, hstd'.partitionEntryArrayCrc32, decide_eq_true_eq]
  refine crc32_congr fun x hx => ?_
  rw [Nat.zero_add, DiskIo.readSectors_eq_some hread' hentry (by omega), harray x hx]

/-- Empty entries are passed over. -/
lemma gptLoop_of_empty {dev entrySize : ℕ} {array : Memory} {is : List ℕ} (d : DiskDev)
    (h : ∀ i ∈ is, gptTypeGuid array (i * entrySize % 2 ^ 32) = guidEmpty) :
    gptLoop dev array entrySize is d = some d := by
  induction is with
  | nil => rfl
  | cons i is ih =>
    rw [gptLoop, if_pos (h i List.mem_cons_self)]
    exact ih fun j hj => h j (List.mem_cons_of_mem _ hj)

/-- What `gpt_parse` reads, if it succeeds. -/
structure GptReads (io : DiskIo) (header array : Memory) : Prop where
  readHeader : ∃ buffer, io.dmalloc32 512 = some buffer ∧ io.readSectors 1 1 buffer = some header
  signature : GptHeader.signature header = efiPart
  crcOk : GptHeader.crcOk header = true
  readArray : ∃ buffer, io.dmalloc32 (GptHeader.arraySize header) = some buffer ∧
    io.readSectors (GptHeader.partitionEntryLba header) (GptHeader.sectorsToRead header) buffer =
      some array
  arrayCrcOk : GptHeader.arrayCrcOk header array = true

/-- A `gpt_parse` that succeeds goes through the entries. -/
lemma GptReads.gptParse_eq {io : DiskIo} {header array : Memory} (h : GptReads io header array)
    (d : DiskDev) :
    gptParse io d = gptLoop d.addr array (GptHeader.sizeofPartitionEntry header)
      (List.range (GptHeader.numPartitionEntries header)) d := by
  obtain ⟨buffer, hdma, hread⟩ := h.readHeader
  obtain ⟨buffer', hdma', hread'⟩ := h.readArray
  rw [gptParse, hdma]
  simp only [Option.bind_some, hread, h.signature, h.crcOk, hdma', hread', h.arrayCrcOk, ne_eq,
    not_true_eq_false, if_false]

/-- The table of a disk passes all the checks. -/
lemma HasGpt.gptReads {io : DiskIo} {n : ℕ} {array : Memory} (h : HasGpt io n array)
    (hdma : ∀ size, (io.dmalloc32 size).isSome) (hread : ∀ lba count, io.readOk lba count = true) :
    ∃ header array', GptReads io header array' ∧
      GptHeader.Standard header 2 (crc32 array 0 16384) ∧ ∀ x < 16384, array' x = array x := by
  obtain ⟨sectorRes, hsector⟩ := Option.isSome_iff_exists.mp (hdma 512)
  obtain ⟨sealed, hstd, hsealed⟩ := h.header
  obtain ⟨header, hread1⟩ := DiskIo.exists_readSectors hread 1 1 sectorRes
  have hstd' : GptHeader.Standard header 2 (crc32 array 0 16384) := by
    refine hstd.congr fun x hx hout => ?_
    rw [DiskIo.readSectors_eq_some hread1 (by omega) (by omega), hsealed x (by omega),
      gptSeal_of_outside hout]
  obtain ⟨arrayRes, harray⟩ := Option.isSome_iff_exists.mp (hdma (GptHeader.arraySize header))
  obtain ⟨array', hread2⟩ := DiskIo.exists_readSectors hread (GptHeader.partitionEntryLba header)
    (GptHeader.sectorsToRead header) arrayRes
  have hvalid : GptValidAt io 1 :=
    gptValidAt_of_standard (by omega) (by omega) hstd hsealed h.entries
  obtain ⟨hsig, hcrc, hall⟩ := hvalid _ _ hread1
  refine ⟨header, array', ⟨⟨_, hsector, hread1⟩, hsig, hcrc, ⟨_, harray, hread2⟩, hall _ _ hread2⟩,
    hstd', fun x hx => ?_⟩
  rw [hstd'.partitionEntryLba, hstd'.sectorsToRead] at hread2
  rw [DiskIo.readSectors_eq_some hread2 (by omega) (by omega), h.entries x hx]

/-- The loop registers the first entry of the array and passes over the others. -/
lemma gptLoop_gptArray {arrayRes array : Memory} {n : ℕ} {fsName typeGuid : Option Memory}
    (hlo : 2082 ≤ n) (hhi : n ≤ 2 ^ 32) (hused : gptType typeGuid ≠ guidEmpty)
    (harray : ∀ x < 16384, array x = gptArray arrayRes n fsName typeGuid x) {d : DiskDev}
    (hmalloc : d.alloc d.mallocs ≠ 0) : gptLoop d.addr array 128 (List.range 128) d =
      (d.mallocNode.2.setPart d.mallocNode.1 fun _ =>
        ⟨2048, n - 2081, 0, 0, gptType typeGuid, d.addr, true⟩).partitionRegister
          d.mallocNode.1 := by
  have htype : gptTypeGuid array 0 = gptType typeGuid := by
    rw [← gptTypeGuid_gptArray arrayRes n fsName]
    exact Memory.bytesAt_congr fun i hi => harray _ (by omega)
  have hstart : array.load 32 8 = 2048 := by
    rw [Memory.load_congr fun x _ hx => harray x (by omega), load_gptArray (by omega),
      Memory.load_store_of_disjoint (by omega), Memory.load_store_self]
    rfl
  have hend : array.load 40 8 = n - 34 := by
    rw [Memory.load_congr fun x _ hx => harray x (by omega), load_gptArray (by omega),
      Memory.load_store_self]
    exact Nat.mod_eq_of_lt (by omega)
  have hcount : wadd (wsub (n - 34) 2048) 1 = n - 2081 := by
    rw [wsub_of_le (by omega) (by simp only [word]; omega), wadd_of_lt (by simp only [word]; omega)]
    omega
  have hpart : gptPartition d.addr array 0 0 =
      ⟨2048, n - 2081, 0, 0, gptType typeGuid, d.addr, true⟩ := by
    rw [gptPartition, htype, Nat.zero_add, Nat.zero_add, hstart, hend, hcount]
  have hrest : ∀ i ∈ List.range' 1 127, gptTypeGuid array (i * 128 % 2 ^ 32) = guidEmpty := by
    intro i hi
    rw [List.mem_range'_1] at hi
    rw [Nat.mod_eq_of_lt (by omega),
      ← gptTypeGuid_gptArray_rest arrayRes n fsName typeGuid hi.1 (by omega)]
    exact Memory.bytesAt_congr fun j hj => harray _ (by omega)
  have hrange : List.range 128 = 0 :: List.range' 1 127 := by decide
  have hnew : d.mallocNode.1 ≠ 0 := hmalloc
  rw [hrange, gptLoop, Nat.zero_mul, Nat.zero_mod, if_neg (by rw [htype]; exact hused), if_neg hnew,
    hpart]
  rw [Option.bind_congr fun d' _ => gptLoop_of_empty d' hrest, Option.bind_fun_some]

/-- **The round trip.**  What `gpt_install` writes passes the checks of `gpt_parse`, which registers
the one partition of the table: its node is filled in and linked behind the nodes of the device,
and if the node's own pointer is null, the device's list is one longer.  The end of the disk holds a
valid copy of the table. -/
theorem gptParse_gptInstall {io : DiskIo} {d : DiskDev} {l : List ℕ}
    (fsName typeGuid : Option Memory)
    (hlo : 2082 ≤ io.totalSectors) (hhi : io.totalSectors ≤ 2 ^ 32)
    (hdma : ∀ size, (io.dmalloc32 size).isSome) (hread : ∀ lba count, io.readOk lba count = true)
    (hguid : ∀ guid, typeGuid = some guid → guid.bytesAt 0 16 ≠ guidEmpty) (hdev : d.addr ≠ 0)
    (hmalloc : d.alloc d.mallocs ≠ 0) (hl : d.Chain l) (hlen : l.length + 1 < word) :
    ∃ io' d' part, gptInstall io fsName typeGuid = some io' ∧ GptValidAt io' 1 ∧
      gptParse io' d = some d' ∧
      part = ⟨2048, io.totalSectors - 2081, 0, 0, gptType typeGuid, d.addr, true⟩ ∧
      d'.registered = d.registered ++ [part] ∧ d'.mallocs = d.mallocs + 1 ∧
      (d'.nodes (d.alloc d.mallocs)).part = part ∧ d'.endPointer l = d.alloc d.mallocs ∧
      (d.alloc d.mallocs ∉ l → (d.nodes (d.alloc d.mallocs)).next = 0 →
        ∃ old, d.partitionList = some old ∧ d'.partitionList = some (old ++ [part])) ∧
      GptValidAt io' (io.totalSectors - 1) ∧
      (∀ buffer backup, io'.readSectors (io.totalSectors - 1) 1 buffer = some backup →
        GptHeader.partitionEntryLba backup = io.totalSectors - 33) ∧
      ∀ x < 32 * 512, io'.bytes ((io.totalSectors - 33) * 512 + x) = io'.bytes (2 * 512 + x) := by
  obtain ⟨io', arrayRes, hio', hgpt, hreadOk, hdma', -⟩ :=
    hasGpt_gptInstall fsName typeGuid (by omega) hhi hdma
  set n := io.totalSectors with hn
  set array := gptArray arrayRes n fsName typeGuid with harr
  obtain ⟨header', array', hreads, hstd₁, harray'⟩ :=
    hgpt.gptReads (by rwa [hdma']) (by rwa [hreadOk])
  have hparse := hreads.gptParse_eq d
  rw [hstd₁.numPartitionEntries, hstd₁.sizeofPartitionEntry] at hparse
  have hused : gptType typeGuid ≠ guidEmpty := by
    cases typeGuid with
    | none => decide
    | some guid => exact hguid guid rfl
  rw [gptLoop_gptArray hlo hhi hused harray' hmalloc] at hparse
  -- the device when the node has been filled in
  set a := d.alloc d.mallocs with hadef
  set part : Partition := ⟨2048, n - 2081, 0, 0, gptType typeGuid, d.addr, true⟩ with hpart
  set d₁ := d.mallocNode.2.setPart a fun _ => part with hd₁
  have hself : (d₁.nodes a).part = part := by simp [hd₁, DiskDev.setPart]
  have hdisk : (d₁.nodes a).part.disk ≠ 0 := by rw [hself]; exact hdev
  have hother : ∀ x, x ≠ a → d₁.nodes x = d.nodes x := fun x hx => by
    simp [hd₁, DiskDev.setPart, DiskDev.mallocNode, hx]
  have hchain : d₁.Chain l := hl.congr fun x _ => DiskDev.next_setPart _ _ _ _
  obtain ⟨d', hd', hreg, hmallocs, hend, hparts⟩ :=
    DiskDev.exists_partitionRegister hmalloc hdisk hchain (by omega)
  obtain ⟨header, hstd, hheader⟩ := hgpt.header
  obtain ⟨backup, hstd', hbackup⟩ := hgpt.backup
  refine ⟨io', d', part, hio', ?_, hparse.trans hd', rfl, ?_, hmallocs, ?_, hend,
    fun hal hnext => ?_, ?_, fun buffer backup' hread' => ?_, fun x hx => ?_⟩
  · exact gptValidAt_of_standard (by omega) (by omega) hstd hheader hgpt.entries
  · rw [hreg, hself]
    rfl
  · rw [hparts, hself]
  · obtain ⟨old, hold, hnew⟩ := DiskDev.partitionList_partitionRegister hmalloc hdisk hchain hlen
      hal ((DiskDev.next_setPart _ _ _ _).trans hnext) hd'
    obtain ⟨l', hl', hlen', rfl⟩ := DiskDev.partitionList_eq_some.mp hold
    obtain rfl := hl'.unique hchain
    refine ⟨_, DiskDev.partitionList_eq_some.mpr ⟨l', hl, hlen', ?_⟩, by rw [hnew, hself]⟩
    exact List.map_congr_left fun x hx => by rw [hother x fun h => hal (h ▸ hx)]
  · exact gptValidAt_of_standard (by omega) (by omega) hstd' hbackup hgpt.backupEntries
  · have hstd'' : GptHeader.Standard backup' (n - 33) (crc32 array 0 16384) := by
      refine hstd'.congr fun x hx hout => ?_
      rw [DiskIo.readSectors_eq_some hread' (by omega) (by omega), hbackup x (by omega),
        gptSeal_of_outside hout]
    exact hstd''.partitionEntryLba
  · rw [hgpt.backupEntries x (by omega), hgpt.entries x (by omega)]

/-- A blank disk of 4096 sectors. -/
def blankDisk : DiskIo where
  bytes := fun _ => 0
  totalSectors := 4096
  readOk := fun _ _ => true
  dmalloc32 := fun _ => some fun _ => 0

/-- A device without partitions, with nodes of zeros to come. -/
def bareDevice : DiskDev where
  addr := 1
  partitions := 0
  nodes := fun _ => ⟨⟨0, 0, 0, 0, [], 0, false⟩, 0⟩
  alloc := fun i => 16 * (i + 1)
  mallocs := 0
  registered := []

/-- A blank disk of 2 MiB, and a device without partitions. -/
theorem gptParse_gptInstall_blankDisk : ∃ io' d' part, gptInstall blankDisk none none = some io' ∧
    GptValidAt io' 1 ∧ gptParse io' bareDevice = some d' ∧
    part = ⟨2048, 2015, 0, 0, guidLinuxFilesystem, 1, true⟩ ∧ d'.registered = [part] ∧
    (d'.nodes 16).part = part ∧ d'.partitions = 16 ∧ d'.partitionList = some [part] ∧
    GptValidAt io' 4095 ∧
    ∀ x < 32 * 512, io'.bytes (4063 * 512 + x) = io'.bytes (2 * 512 + x) := by
  obtain ⟨io', d', part, hio', hvalid, hparse, hpart, hreg, -, hnode, hend, hlist, hvalid', -,
    hcopy⟩ := gptParse_gptInstall none none
    (show 2082 ≤ blankDisk.totalSectors by decide) (by decide) (fun _ => rfl) (fun _ _ => rfl)
    (fun _ h => nomatch h) (show bareDevice.addr ≠ 0 by decide) (by decide)
    (show bareDevice.Chain [] from .nil) (by decide)
  obtain ⟨old, hold, hnew⟩ := hlist List.not_mem_nil rfl
  obtain rfl : old = [] := (Option.some.inj hold).symm
  exact ⟨io', d', part, hio', hvalid, hparse, hpart, hreg, hnode, hend, hnew, hvalid', hcopy⟩

end Cuore
