import Cuore.Disk.Partition

/-!
# Boot-sector partition tables (`disk/mbr.c`)

The boot sector holds four entries of 16 bytes at byte 446 and the signature `0xAA55` at byte 510.
`mbr_parse` gives up (with 1) without the signature, leaves the disk to `gpt_parse` (with 2) when an
entry is of type `0xEE`, and else registers a partition for each entry whose type is not 0.

The loop over the entries is a sequence of registrations as long as `malloc` succeeds
(`mbrLoop_eq_registerAll`).  It fills in every field of a node apart from `partition_id` and `guid`.
-/

namespace Cuore

/-- The byte at which entry `i` of the table starts. -/
def mbrEntry (i : ℕ) : ℕ := 446 + 16 * i

/-- `mbr->partitions[i].partition_type`. -/
def mbrType (mbr : Memory) (i : ℕ) : ℕ := mbr.load (mbrEntry i + 4) 1

/-- The fields of a node that `mbr_parse` fills in for entry `i`. -/
def mbrFill (dev : ℕ) (mbr : Memory) (i : ℕ) (entry : Partition) : Partition :=
  { entry with
    startLba := mbr.load (mbrEntry i + 8) 4
    sectorCount := mbr.load (mbrEntry i + 12) 4
    typeId := mbrType mbr i
    disk := dev
    isGpt := false }

/-- The loop of `mbr_parse` over the entries that are left.  An entry is dropped if `malloc`
fails. -/
def mbrLoop (dev : ℕ) (mbr : Memory) : List ℕ → DiskDev → Option DiskDev
  | [], d => some d
  | i :: is, d =>
    if mbrType mbr i = 0 then mbrLoop dev mbr is d
    else if d.mallocNode.1 = 0 then mbrLoop dev mbr is d.mallocNode.2
    else ((d.mallocNode.2.setPart d.mallocNode.1 (mbrFill dev mbr i)).partitionRegister
      d.mallocNode.1).bind (mbrLoop dev mbr is)

/-- Some entry of the table is of type `0xEE`. -/
def hasProtective (mbr : Memory) : Bool := (List.range 4).any fun i => mbrType mbr i = 0xEE

/-- `mbr_parse`: what it returns, and the device afterwards.  It is `none` if the walk in
`partition_register` does not end. -/
def mbrParse (io : DiskIo) (d : DiskDev) : Option (ℕ × DiskDev) :=
  match io.dmalloc32 512 with
  | none => some (1, d)
  | some buffer =>
    match io.readSectors 0 1 buffer with
    | none => some (1, d)
    | some mbr =>
      if mbr.load 510 2 ≠ 0xAA55 then some (1, d)
      else if hasProtective mbr then some (2, d)
      else (mbrLoop d.addr mbr (List.range 4) d).map fun d => (0, d)

/-- The boot sector that `mbr_install` writes, built in `sector`. -/
def mbrSector (sector : Memory) (typeId : UInt8) : Memory :=
  let sector := sector.fill 0 512 0
  let sector := sector.store 446 1 0x80
  let sector := sector.store 447 1 0x00
  let sector := sector.store 448 1 0x01
  let sector := sector.store 449 1 0x01
  let sector := sector.store 450 1 (if typeId ≠ 0 then typeId.toNat else 0x83)
  let sector := sector.store 451 1 0x00
  let sector := sector.store 452 1 0x01
  let sector := sector.store 453 1 0x01
  let sector := sector.store 454 4 2048
  let sector := sector.store 458 4 0xFFFE
  let sector := sector.store 510 1 0x55
  sector.store 511 1 0xAA

/-- `mbr_install`. -/
def mbrInstall (io : DiskIo) (typeId : UInt8) : DiskIo :=
  match io.dmalloc32 512 with
  | none => io
  | some buffer =>
    let io := io.writeSectors 0 1 (mbrSector buffer typeId)
    io.writeSectors 2048 1 ((mbrSector buffer typeId).fill 0 512 0)

/-! ## What the loop registers -/

section Loop

variable {d d' : DiskDev} {dev : ℕ} {mbr : Memory} {is : List ℕ}

/-- The entries of the table that are in use. -/
def mbrUsed (mbr : Memory) (is : List ℕ) : List ℕ := is.filter fun i => mbrType mbr i ≠ 0

/-- What is filled in for them, one after the other. -/
def mbrFills (dev : ℕ) (mbr : Memory) (is : List ℕ) : List (Partition → Partition) :=
  (mbrUsed mbr is).map (mbrFill dev mbr)

lemma setsDisk_mbrFills (hdev : dev ≠ 0) : DiskDev.SetsDisk (mbrFills dev mbr is) := by
  intro f hf p
  obtain ⟨i, -, rfl⟩ := List.mem_map.mp hf
  exact hdev

/-- As long as `malloc` succeeds, each entry in use is registered. -/
lemma mbrLoop_eq_registerAll (hne : ∀ a ∈ d.nextAllocs (mbrFills dev mbr is).length, a ≠ 0) :
    mbrLoop dev mbr is d = d.registerAll (mbrFills dev mbr is) := by
  induction is generalizing d with
  | nil => rfl
  | cons i is ih =>
    by_cases htype : mbrType mbr i = 0
    · have hfills : mbrFills dev mbr (i :: is) = mbrFills dev mbr is := by
        simp [mbrFills, mbrUsed, htype]
      rw [hfills] at hne ⊢
      rw [mbrLoop, if_pos htype, ih hne]
    · have hfills : mbrFills dev mbr (i :: is) = mbrFill dev mbr i :: mbrFills dev mbr is := by
        simp [mbrFills, mbrUsed, htype]
      rw [hfills, List.length_cons, DiskDev.nextAllocs_succ] at hne
      have hnew : d.mallocNode.1 ≠ 0 := hne _ List.mem_cons_self
      rw [mbrLoop, if_neg htype, if_neg hnew, hfills, DiskDev.registerAll, DiskDev.addPartition]
      refine Option.bind_congr fun d₁ hd₁ => ih fun a ha => hne a (List.mem_cons_of_mem _ ?_)
      rwa [DiskDev.nextAllocs_of_addPartition hd₁] at ha

end Loop

end Cuore
