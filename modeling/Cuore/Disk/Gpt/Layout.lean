import Cuore.Disk.Gpt
import Cuore.Framework.Piece

/-!
# The layout that `gpt_install` writes (`disk/gpt.c`)

`gpt_install` accepts every disk with room for the two headers and the two arrays, from 68 sectors
on.  The partition it declares starts at sector 2048 whatever the size of the disk, so on a small
disk it starts behind its end; and the driver takes a sector number of 32 bits, so on a large disk
the copies for the end of the disk are written elsewhere.

`gptImage` is what `gpt_install` builds, `GptImage.writes` what it hands to the driver
(`gptInstall_eq_writes`), and `gptInstall_valid_iff` says for which sizes the layout is right.
-/

namespace Cuore

namespace GptHeader

/-- `header->my_lba`. -/
def myLba (header : Memory) : ℕ := header.load 24 8

/-- `header->alternate_lba`. -/
def alternateLba (header : Memory) : ℕ := header.load 32 8

/-- `header->first_usable_lba`. -/
def firstUsableLba (header : Memory) : ℕ := header.load 40 8

/-- `header->last_usable_lba`. -/
def lastUsableLba (header : Memory) : ℕ := header.load 48 8

end GptHeader

/-- `entry->starting_lba` of the first entry. -/
def gptStartingLba (array : Memory) : ℕ := array.load 32 8

/-- `entry->ending_lba` of the first entry. -/
def gptEndingLba (array : Memory) : ℕ := array.load 40 8

/-! ## What is built and written -/

/-- A request to the driver: `count` sectors of a buffer, from sector `lba` on. -/
structure SectorWrite where
  lba : ℕ
  count : ℕ
  buffer : Memory

namespace SectorWrite

/-- The sector that the driver starts at. -/
def physical (w : SectorWrite) : ℕ := w.lba % 2 ^ 32

/-- The request, carried out. -/
def run (io : DiskIo) (w : SectorWrite) : DiskIo := io.writeSectors w.lba w.count w.buffer

end SectorWrite

/-- The contents of the two buffers at the times they are written. -/
structure GptImage where
  mbr : Memory
  array : Memory
  header : Memory
  backup : Memory

/-- What `gpt_install` builds for a disk of `n` sectors, in buffers with these contents. -/
def gptImage (sectorRes arrayRes : Memory) (n : ℕ) (fsName typeGuid : Option Memory) : GptImage :=
  let array := gptArray arrayRes n fsName typeGuid
  let mbr := gptMbr sectorRes n
  let header := gptSeal (gptHeaderFields mbr n (crc32 array 0 16384))
  { mbr := mbr
    array := array
    header := header
    backup := gptSeal (gptBackupFields header n) }

namespace GptImage

/-- The requests of `gpt_install`, in their order. -/
def writes (g : GptImage) (n : ℕ) : List SectorWrite :=
  [⟨0, 1, g.mbr⟩, ⟨2, 32, g.array⟩, ⟨n - 33, 32, g.array⟩, ⟨1, 1, g.header⟩, ⟨n - 1, 1, g.backup⟩]

/-- The sectors at which the headers say that these requests begin. -/
def named (g : GptImage) : List ℕ :=
  [0, GptHeader.partitionEntryLba g.header, GptHeader.partitionEntryLba g.backup,
    GptHeader.myLba g.header, GptHeader.myLba g.backup]

/-- The boot sector, the first header and its array, the partition, the copy of the array and the
copy of the header, as the headers declare them. -/
def regions (g : GptImage) : List Piece :=
  [⟨0, 1⟩, ⟨GptHeader.myLba g.header, 1⟩, ⟨GptHeader.partitionEntryLba g.header, 32⟩,
    ⟨gptStartingLba g.array, gptEndingLba g.array + 1 - gptStartingLba g.array⟩,
    ⟨GptHeader.partitionEntryLba g.backup, 32⟩, ⟨GptHeader.myLba g.backup, 1⟩]

/-- The partition is within the bounds that a header gives. -/
def Usable (g : GptImage) (header : Memory) : Prop :=
  GptHeader.firstUsableLba header ≤ gptStartingLba g.array ∧
    gptStartingLba g.array ≤ gptEndingLba g.array ∧
    gptEndingLba g.array ≤ GptHeader.lastUsableLba header

/-- The layout of a disk of `n` sectors is right. -/
structure Valid (g : GptImage) (n : ℕ) : Prop where
  packed : Packed g.regions
  inside : ∀ r ∈ g.regions, r.stop ≤ n
  usable : g.Usable g.header
  usableBackup : g.Usable g.backup
  placed : (g.writes n).map SectorWrite.physical = g.named
  alternate : GptHeader.alternateLba g.header = GptHeader.myLba g.backup
  alternateBackup : GptHeader.alternateLba g.backup = GptHeader.myLba g.header

end GptImage

/-- `gpt_install` makes these requests. -/
lemma gptInstall_eq_writes {io : DiskIo} {sectorRes arrayRes : Memory}
    (hlo : 68 ≤ io.totalSectors) (hsector : io.dmalloc32 512 = some sectorRes)
    (harray : io.dmalloc32 16384 = some arrayRes) (fsName typeGuid : Option Memory) :
    gptInstall io fsName typeGuid =
      some (((gptImage sectorRes arrayRes io.totalSectors fsName typeGuid).writes
        io.totalSectors).foldl SectorWrite.run io) := by
  rw [gptInstall, if_neg (by omega), hsector, harray]
  rfl

/-! ## The fields of the headers -/

section Fields

variable {header : Memory} {n a k : ℕ} {g : GptImage}

lemma load_gptSeal (h : a + k ≤ 16 ∨ 20 ≤ a) : (gptSeal header).load a k = header.load a k :=
  Memory.load_congr fun _ _ _ => gptSeal_of_outside (by omega)

/-- What the headers and the entry say, for a disk of `n` sectors. -/
structure GptImage.Declares (g : GptImage) (n : ℕ) : Prop where
  myLba : GptHeader.myLba g.header = 1
  alternateLba : GptHeader.alternateLba g.header = n - 1
  firstUsableLba : GptHeader.firstUsableLba g.header = 34
  lastUsableLba : GptHeader.lastUsableLba g.header = n - 34
  partitionEntryLba : GptHeader.partitionEntryLba g.header = 2
  myLbaBackup : GptHeader.myLba g.backup = n - 1
  alternateLbaBackup : GptHeader.alternateLba g.backup = 1
  firstUsableLbaBackup : GptHeader.firstUsableLba g.backup = 34
  lastUsableLbaBackup : GptHeader.lastUsableLba g.backup = n - 34
  partitionEntryLbaBackup : GptHeader.partitionEntryLba g.backup = n - 33
  startingLba : gptStartingLba g.array = 2048
  endingLba : gptEndingLba g.array = n - 34

lemma declares_gptImage (hhi : n < word) (sectorRes arrayRes : Memory)
    (fsName typeGuid : Option Memory) :
    (gptImage sectorRes arrayRes n fsName typeGuid).Declares n := by
  have hw : ∀ x ≤ n, x % 256 ^ 8 = x := fun x hx => Nat.mod_eq_of_lt (by
    simp only [word] at hhi
    omega)
  simp only [gptImage]
  constructor
  all_goals
    simp (disch := omega) only [GptHeader.myLba, GptHeader.alternateLba, GptHeader.firstUsableLba,
      GptHeader.lastUsableLba, GptHeader.partitionEntryLba, gptStartingLba, gptEndingLba,
      load_gptSeal, load_gptArray, gptHeaderFields, gptBackupFields,
      Memory.load_store_of_disjoint, Memory.load_fill_of_disjoint, Memory.load_store_self, hw]
  all_goals rfl

/-- **The layout is right** for disks of 2082 up to `2 ^ 32` sectors, and for no others that
`gpt_install` accepts. -/
lemma GptImage.Declares.valid_iff (h : g.Declares n) (hlo : 68 ≤ n) :
    g.Valid n ↔ 2082 ≤ n ∧ n ≤ 2 ^ 32 := by
  have hplaced : (g.writes n).map SectorWrite.physical = g.named ↔ n ≤ 2 ^ 32 := by
    simp only [GptImage.writes, GptImage.named, SectorWrite.physical, List.map_cons, List.map_nil,
      List.cons.injEq, and_true, h.partitionEntryLba, h.partitionEntryLbaBackup, h.myLba,
      h.myLbaBackup]
    omega
  have husable : ∀ header, GptHeader.firstUsableLba header = 34 →
      GptHeader.lastUsableLba header = n - 34 → (g.Usable header ↔ 2082 ≤ n) := by
    intro header hfirst hlast
    rw [GptImage.Usable, hfirst, hlast, h.startingLba, h.endingLba]
    omega
  constructor
  · intro hvalid
    exact ⟨(husable _ h.firstUsableLba h.lastUsableLba).mp hvalid.usable, hplaced.mp hvalid.placed⟩
  · rintro ⟨hsmall, hlarge⟩
    have hregions : g.regions = [⟨0, 1⟩, ⟨1, 1⟩, ⟨2, 32⟩, ⟨2048, n - 2081⟩, ⟨n - 33, 32⟩,
        ⟨n - 1, 1⟩] := by
      rw [GptImage.regions, h.myLba, h.partitionEntryLba, h.startingLba, h.endingLba,
        h.partitionEntryLbaBackup, h.myLbaBackup, show n - 34 + 1 - 2048 = n - 2081 by omega]
    refine ⟨?_, ?_, (husable _ h.firstUsableLba h.lastUsableLba).mpr hsmall,
      (husable _ h.firstUsableLbaBackup h.lastUsableLbaBackup).mpr hsmall, hplaced.mpr hlarge,
      h.alternateLba.trans h.myLbaBackup.symm, h.alternateLbaBackup.trans h.myLba.symm⟩
    · rw [hregions]
      simp only [packed_cons, List.forall_mem_cons, Piece.apart_iff, packed_nil]
      simp
      omega
    · rw [hregions]
      simp only [List.forall_mem_cons, Piece.stop]
      simp
      omega

end Fields

/-- **`gpt_install` writes a valid layout** exactly on disks of 2082 up to `2 ^ 32` sectors. -/
theorem gptInstall_valid_iff {io : DiskIo} {sectorRes arrayRes : Memory}
    (hlo : 68 ≤ io.totalSectors) (hhi : io.totalSectors < word)
    (hsector : io.dmalloc32 512 = some sectorRes) (harray : io.dmalloc32 16384 = some arrayRes)
    (fsName typeGuid : Option Memory) :
    gptInstall io fsName typeGuid =
        some (((gptImage sectorRes arrayRes io.totalSectors fsName typeGuid).writes
          io.totalSectors).foldl SectorWrite.run io) ∧
      ((gptImage sectorRes arrayRes io.totalSectors fsName typeGuid).Valid io.totalSectors ↔
        2082 ≤ io.totalSectors ∧ io.totalSectors ≤ 2 ^ 32) :=
  ⟨gptInstall_eq_writes hlo hsector harray fsName typeGuid,
    (declares_gptImage hhi sectorRes arrayRes fsName typeGuid).valid_iff hlo⟩

/-- The layout on a blank disk of 4096 sectors is right. -/
theorem gptInstall_valid_blankDisk :
    (gptImage (fun _ => 0) (fun _ => 0) blankDisk.totalSectors none none).Valid 4096 :=
  (gptInstall_valid_iff (show 68 ≤ blankDisk.totalSectors by decide)
    (by decide) rfl rfl none none).2.mpr
    (by decide)

/-- The smallest disk that is accepted, and one of more than `2 ^ 32` sectors. -/
theorem gptInstall_not_valid : ¬ (gptImage (fun _ => 0) (fun _ => 0) 68 none none).Valid 68 ∧
    ¬ (gptImage (fun _ => 0) (fun _ => 0) (2 ^ 32 + 1) none none).Valid (2 ^ 32 + 1) := by
  refine ⟨fun h => ?_, fun h => ?_⟩
  · have hsizes := ((declares_gptImage (by decide) _ _ _ _).valid_iff (by decide)).mp h
    exact absurd hsizes.1 (by decide)
  · have hsizes := ((declares_gptImage (by decide) _ _ _ _).valid_iff (by decide)).mp h
    exact absurd hsizes.2 (by decide)

end Cuore
