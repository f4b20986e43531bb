import Cuore.Disk.Tables

/-!
# Discovering partitions (`disk/diskinit.c`, `partition_refresh`)

There are two ways to a partition list.  `generic_disk_init` runs `mbr_parse`, and `gpt_parse` if
the boot sector says so (an entry of type `0xEE`).  `partition_refresh` drops the old list and
decides by the signature in sector 1.  `mbr_install` and `gpt_install` write their own structures
and leave the other's alone.

The two agree whenever they take the same parser, and when neither table has an entry.  They do not
when sector 1 holds a header while the boot sector is an ordinary one (`discovery_agrees_iff`), as
it is after `mbr_install` on a disk with a GUID partition table (`mbrInstall_after_gptInstall`).
-/

namespace Cuore

/-- `generic_disk_init`, for a device that has `read_sectors`. -/
def genericDiskInit (io : DiskIo) (d : DiskDev) : Option DiskDev :=
  (mbrParse io d).bind fun r => if r.1 = 2 then gptParse io r.2 else some r.2

/-- The loop of `partition_refresh` over the old list.  What `free` does to the memory of a node is
up to the heap; the pointer is read before. -/
def freeLoop (free : (ℕ → PartitionNode) → ℕ → ℕ → PartitionNode) :
    ℕ → (ℕ → PartitionNode) → ℕ → Option (ℕ → PartitionNode)
  | 0, _, _ => none
  | fuel + 1, nodes, current =>
    if current = 0 then some nodes
    else freeLoop free fuel (free nodes current) (nodes current).next

/-- `partition_refresh`. -/
def partitionRefresh (free : (ℕ → PartitionNode) → ℕ → ℕ → PartitionNode) (io : DiskIo)
    (d : DiskDev) :
    Option DiskDev :=
  (freeLoop free word d.nodes d.partitions).bind fun nodes =>
    let d := { d with nodes := nodes, partitions := 0 }
    match io.dmalloc32 512 with
    | none => some d
    | some buffer =>
      match io.readSectors 0 1 (buffer.fill 0 512 0) with
      | none => some d
      | some sector0 =>
        match io.readSectors 1 1 sector0 with
        | none => (mbrParse io d).map Prod.snd
        | some sector1 =>
          if sector1.bytesAt 0 8 = efiPart then gptParse io d else (mbrParse io d).map Prod.snd

/-! ## What the disk says -/

/-- Sector 1 starts with the signature of a header. -/
def hasEfiPart (io : DiskIo) : Prop := io.bytes.bytesAt 512 8 = efiPart

/-- The boot sector has its signature. -/
def hasBootSignature (io : DiskIo) : Prop := io.bytes.load 510 2 = 0xAA55

/-- The boot sector leaves the disk to the other table. -/
def isProtective (io : DiskIo) : Prop := hasBootSignature io ∧ hasProtective io.bytes = true

/-- Neither table has an entry that would be registered. -/
def noPartitions (io : DiskIo) (dev : ℕ) : Prop :=
  (hasBootSignature io → mbrTable io dev = []) ∧
    ∀ header array, GptReads io header array → gptFound header array dev = []

/-- Everything that the disk and `dmalloc32` are asked for succeeds. -/
structure DiskIo.Works (io : DiskIo) : Prop where
  dmalloc32 : ∀ size, (io.dmalloc32 size).isSome
  readOk : ∀ lba count, io.readOk lba count = true

section Paths

variable {io : DiskIo} {d : DiskDev}

/-- `mbr_parse` by what the disk says. -/
lemma mbrParse_cases (hio : io.Works) (d : DiskDev) :
    (¬ hasBootSignature io ∧ mbrParse io d = some (1, d)) ∨
    (isProtective io ∧ mbrParse io d = some (2, d)) ∨
    (hasBootSignature io ∧ ¬ isProtective io ∧ ∃ mbr, MbrReads io mbr) := by
  obtain ⟨buffer, hdma⟩ := Option.isSome_iff_exists.mp (hio.dmalloc32 512)
  obtain ⟨mbr, hread⟩ := DiskIo.exists_readSectors hio.readOk 0 1 buffer
  have hbytes : ∀ x < 512, mbr x = io.bytes x := fun x hx => by
    simpa using DiskIo.readSectors_eq_some hread (by omega) (show x < 1 * 512 by omega)
  have hsig : mbr.load 510 2 = io.bytes.load 510 2 :=
    Memory.load_congr fun x _ hx => hbytes x (by omega)
  have hprot : hasProtective mbr = hasProtective io.bytes := by
    have htype : ∀ i < 4, mbrType mbr i = mbrType io.bytes i := fun i hi =>
      Memory.load_congr fun x _ hx => hbytes x (by rw [mbrEntry] at hx; omega)
    simp [hasProtective, List.range_succ, htype]
  by_cases hboot : hasBootSignature io
  · by_cases hee : hasProtective io.bytes = true
    · refine .inr (.inl ⟨⟨hboot, hee⟩, ?_⟩)
      simp only [mbrParse, hdma, hread, hsig, show io.bytes.load 510 2 = 0xAA55 from hboot, hprot,
        hee,
        ne_eq, not_true_eq_false, if_false, if_true]
    · refine .inr (.inr ⟨hboot, fun h => hee h.2, mbr, ⟨_, hdma, hread⟩, hsig.trans hboot, ?_⟩)
      rw [hprot]
      simpa using hee
  · refine .inl ⟨hboot, ?_⟩
    have hne : io.bytes.load 510 2 ≠ 0xAA55 := hboot
    simp only [mbrParse, hdma, hread, hsig, ne_eq, hne, not_false_eq_true, if_true]

/-- `gpt_parse` without the signature does nothing. -/
lemma gptParse_of_not_hasEfiPart (hio : io.Works) (hefi : ¬ hasEfiPart io) (d : DiskDev) :
    gptParse io d = some d := by
  obtain ⟨buffer, hdma⟩ := Option.isSome_iff_exists.mp (hio.dmalloc32 512)
  obtain ⟨header, hread⟩ := DiskIo.exists_readSectors hio.readOk 1 1 buffer
  have hsig : GptHeader.signature header = io.bytes.bytesAt 512 8 :=
    Memory.bytesAt_congr fun i hi => by
      simpa using DiskIo.readSectors_eq_some hread (by omega) (show 0 + i < 1 * 512 by omega)
  rw [gptParse, hdma]
  simp only [Option.bind_some, hread, hsig, show io.bytes.bytesAt 512 8 ≠ efiPart from hefi, ne_eq,
    not_false_eq_true, if_true]

/-- `gpt_parse` either gives up or reads a table. -/
lemma gptParse_cases (hio : io.Works) (d : DiskDev) :
    ((∀ header array, ¬ GptReads io header array) ∧ gptParse io d = some d) ∨
    ∃ header array, GptReads io header array := by
  obtain ⟨buffer, hdma⟩ := Option.isSome_iff_exists.mp (hio.dmalloc32 512)
  obtain ⟨header, hread⟩ := DiskIo.exists_readSectors hio.readOk 1 1 buffer
  obtain ⟨buffer', hdma'⟩ :=
    Option.isSome_iff_exists.mp (hio.dmalloc32 (GptHeader.arraySize header))
  obtain ⟨array, hread'⟩ :=
    DiskIo.exists_readSectors hio.readOk (GptHeader.partitionEntryLba header)
    (GptHeader.sectorsToRead header) buffer'
  -- there is only one header and one array to be read
  have hunique : ∀ {header' array'}, GptReads io header' array' →
      header' = header ∧ array' = array := by
    intro header' array' h
    obtain ⟨b, hb, hheader⟩ := h.readHeader
    obtain rfl : buffer = b := Option.some.inj (hdma.symm.trans hb)
    obtain rfl : header = header' := Option.some.inj (hread.symm.trans hheader)
    obtain ⟨b', hb', harray⟩ := h.readArray
    obtain rfl : buffer' = b' := Option.some.inj (hdma'.symm.trans hb')
    exact ⟨rfl, Option.some.inj (harray.symm.trans hread')⟩
  by_cases hsig : GptHeader.signature header = efiPart
  · by_cases hcrc : GptHeader.crcOk header = true
    · by_cases harr : GptHeader.arrayCrcOk header array = true
      · exact .inr ⟨header, array, ⟨_, hdma, hread⟩, hsig, hcrc, ⟨_, hdma', hread'⟩, harr⟩
      · refine .inl ⟨fun header' array' h => harr ?_, ?_⟩
        · obtain ⟨rfl, rfl⟩ := hunique h
          exact h.arrayCrcOk
        · rw [gptParse, hdma]
          simp only [Option.bind_some, hread, hsig, hcrc, hdma', hread', harr, ne_eq,
            not_true_eq_false, if_false, Bool.false_eq_true, not_false_eq_true, if_true]
    · refine .inl ⟨fun header' array' h => hcrc ?_, ?_⟩
      · obtain ⟨rfl, rfl⟩ := hunique h
        exact h.crcOk
      · rw [gptParse, hdma]
        simp only [Option.bind_some, hread, hsig, hcrc, ne_eq, not_true_eq_false, if_false,
          Bool.false_eq_true, not_false_eq_true, if_true]
  · refine .inl ⟨fun header' array' h => hsig ?_, ?_⟩
    · obtain ⟨rfl, rfl⟩ := hunique h
      exact h.signature
    · rw [gptParse, hdma]
      simp only [Option.bind_some, hread, hsig, ne_eq, not_false_eq_true, if_true]

/-- `partition_refresh` of an empty list decides by sector 1. -/
lemma partitionRefresh_eq (hio : io.Works) (hempty : d.partitions = 0)
    (free : (ℕ → PartitionNode) → ℕ → ℕ → PartitionNode) :
    (hasEfiPart io → partitionRefresh free io d = gptParse io d) ∧
    (¬ hasEfiPart io → partitionRefresh free io d = (mbrParse io d).map Prod.snd) := by
  obtain ⟨buffer, hdma⟩ := Option.isSome_iff_exists.mp (hio.dmalloc32 512)
  obtain ⟨sector0, hread0⟩ := DiskIo.exists_readSectors hio.readOk 0 1 (buffer.fill 0 512 0)
  obtain ⟨sector1, hread1⟩ := DiskIo.exists_readSectors hio.readOk 1 1 sector0
  have hsig : sector1.bytesAt 0 8 = io.bytes.bytesAt 512 8 :=
    Memory.bytesAt_congr fun i hi => by
      simpa using DiskIo.readSectors_eq_some hread1 (by omega) (show 0 + i < 1 * 512 by omega)
  have hd : { d with nodes := d.nodes, partitions := 0 } = d := by rw [← hempty]
  have hfree : freeLoop free word d.nodes d.partitions = some d.nodes := by
    rw [hempty]
    rfl
  constructor
  · intro hefi
    simp only [partitionRefresh, hfree, Option.bind_some, hd, hdma, hread0, hread1, hsig,
      show io.bytes.bytesAt 512 8 = efiPart from hefi, if_true]
  · intro hefi
    simp only [partitionRefresh, hfree, Option.bind_some, hd, hdma, hread0, hread1, hsig,
      show io.bytes.bytesAt 512 8 ≠ efiPart from hefi, if_false]

/-- `malloc` returns distinct nodes with null pointers, as many as either table needs. -/
structure CleanNodes (io : DiskIo) (d : DiskDev) : Prop where
  mbr : ∀ mbr, MbrReads io mbr → d.Fresh [] (mbrUsed mbr (List.range 4)).length ∧
    d.Clean (mbrUsed mbr (List.range 4)).length
  gpt : ∀ header array, GptReads io header array →
    d.Fresh [] (gptFound header array d.addr).length ∧
      d.Clean (gptFound header array d.addr).length

lemma partitionList_of_empty (hempty : d.partitions = 0) : d.partitionList = some [] :=
  DiskDev.partitionList_eq_some.mpr ⟨[], DiskDev.chain_nil hempty, by decide, rfl⟩

/-- The list of `generic_disk_init` where the boot sector is an ordinary one. -/
lemma entries_genericDiskInit (hio : io.Works) (hdev : d.addr ≠ 0) (hempty : d.partitions = 0)
    (hnodes : CleanNodes io d) (hprot : ¬ isProtective io) :
    ∃ ps, (genericDiskInit io d).bind DiskDev.partitionList = some ps ∧
      (hasBootSignature io → ps.map Partition.entry = mbrTable io d.addr) ∧
      ∀ p ∈ ps, p.isGpt = false := by
  rcases mbrParse_cases hio d with ⟨hboot, hparse⟩ | ⟨h, -⟩ | ⟨-, -, mbr, hreads⟩
  · rw [genericDiskInit, hparse]
    exact ⟨[], partitionList_of_empty hempty, fun h => absurd h hboot, by simp⟩
  · exact absurd h hprot
  · obtain ⟨hfresh, hclean⟩ := hnodes.mbr mbr hreads
    obtain ⟨ps, hps, -, htable⟩ := (hreads.lists_iff hdev hempty hfresh d.nodes).mpr
      ⟨hclean, hclean, fun a _ => ⟨rfl, rfl⟩⟩
    have hgeneric : (genericDiskInit io d).bind DiskDev.partitionList = mbrList io d := by
      rw [genericDiskInit, mbrList, hreads.mbrParse_eq]
      cases mbrLoop d.addr mbr (List.range 4) d <;> rfl
    refine ⟨ps, hgeneric.trans hps, fun _ => htable, fun p hp => ?_⟩
    have hmem : p.entry ∈ mbrTable io d.addr := htable ▸ List.mem_map_of_mem hp
    obtain ⟨i, -, hi⟩ := List.mem_map.mp hmem
    exact (congrArg TableEntry.isGpt hi).symm

/-- The list of `gpt_parse`. -/
lemma entries_gptParse (hio : io.Works) (hdev : d.addr ≠ 0) (hempty : d.partitions = 0)
    (hnodes : CleanNodes io d) :
    ∃ ps, (gptParse io d).bind DiskDev.partitionList = some ps ∧
      (∀ header array, GptReads io header array → ps = gptFound header array d.addr) ∧
      ∀ p ∈ ps, p.isGpt = true := by
  rcases gptParse_cases hio d with ⟨hnone, hparse⟩ | ⟨header, array, hreads⟩
  · rw [hparse]
    exact ⟨[], partitionList_of_empty hempty, fun _ _ h => absurd h (hnone _ _), by simp⟩
  · obtain ⟨hfresh, hclean⟩ := hnodes.gpt header array hreads
    have hlist := (hreads.gptList_iff hdev hempty hfresh le_rfl).mpr ⟨hclean, rfl⟩
    refine ⟨_, hlist, fun header' array' hreads' => ?_, fun p hp => ?_⟩
    · obtain ⟨hfresh', hclean'⟩ := hnodes.gpt header' array' hreads'
      have hlist' := (hreads'.gptList_iff hdev hempty hfresh' le_rfl).mpr ⟨hclean', rfl⟩
      exact Option.some.inj (hlist.symm.trans hlist')
    · obtain ⟨i, -, hi⟩ := List.mem_filterMap.mp hp
      rw [gptEntryRead, gptEntry] at hi
      split_ifs at hi
      cases hi
      rfl

/-- Tables without entries leave the device alone. -/
lemma parse_of_noPartitions (hio : io.Works) (h : noPartitions io d.addr) :
    gptParse io d = some d ∧
      ∀ mbr, hasBootSignature io → MbrReads io mbr → mbrParse io d = some (0, d) := by
  constructor
  · rcases gptParse_cases hio d with ⟨-, hparse⟩ | ⟨header, array, hreads⟩
    · exact hparse
    · have hfound := h.2 header array hreads
      rw [gptFound] at hfound
      rw [hreads.gptParse_eq, gptLoop_eq_registerAll, hfound]
      · rfl
      · rw [hfound]
        exact fun a ha => absurd ha List.not_mem_nil
  · intro mbr hboot hreads
    have hfills : mbrFills d.addr mbr (List.range 4) = [] := by
      have hmap := hreads.map_entry_filled d.addr d
      rw [h.1 hboot, List.map_eq_nil_iff] at hmap
      exact List.eq_nil_of_length_eq_zero (by rw [← d.length_filled, hmap, List.length_nil])
    rw [hreads.mbrParse_eq, mbrLoop_eq_registerAll, hfills]
    · rfl
    · rw [hfills]
      exact fun a ha => absurd ha List.not_mem_nil

/-- The two paths do the same when they take the same parser, and when there is nothing to find. -/
lemma genericDiskInit_eq_partitionRefresh (hio : io.Works) (hempty : d.partitions = 0)
    (free : (ℕ → PartitionNode) → ℕ → ℕ → PartitionNode)
    (h : ¬ hasEfiPart io ∨ isProtective io ∨ noPartitions io d.addr) :
    genericDiskInit io d = partitionRefresh free io d := by
  obtain ⟨hrefresh, hrefresh'⟩ := partitionRefresh_eq hio hempty free
  by_cases hefi : hasEfiPart io
  · rw [hrefresh hefi]
    rcases mbrParse_cases hio d with ⟨hboot, hparse⟩ | ⟨-, hparse⟩ | ⟨hboot, hprot, mbr, hreads⟩
    · have hnone : noPartitions io d.addr := by
        rcases h with h | h | h
        · exact absurd hefi h
        · exact absurd h.1 hboot
        · exact h
      rw [genericDiskInit, hparse, (parse_of_noPartitions hio hnone).1]
      rfl
    · rw [genericDiskInit, hparse]
      rfl
    · have hnone : noPartitions io d.addr := by
        rcases h with h | h | h
        · exact absurd hefi h
        · exact absurd h hprot
        · exact h
      obtain ⟨hgpt, hmbr⟩ := parse_of_noPartitions hio hnone
      rw [genericDiskInit, hmbr mbr hboot hreads, hgpt]
      rfl
  · rw [hrefresh' hefi]
    rcases mbrParse_cases hio d with ⟨-, hparse⟩ | ⟨-, hparse⟩ | ⟨-, -, mbr, hreads⟩
    · rw [genericDiskInit, hparse]
      rfl
    · rw [genericDiskInit, hparse]
      exact gptParse_of_not_hasEfiPart hio hefi d
    · rw [genericDiskInit, hreads.mbrParse_eq]
      cases mbrLoop d.addr mbr (List.range 4) d <;> rfl

/-- **When the two paths agree.**  On an empty list, `generic_disk_init` and `partition_refresh` do
the same if sector 1 has no header, if the boot sector is protective, or if there is no entry in
either table. If the nodes of `malloc` are clean, they leave the same list in no other case.  Both
get the same stale bytes in a buffer of one size (`DiskIo.dmalloc32`). -/
theorem discovery_agrees_iff (hio : io.Works) (hdev : d.addr ≠ 0) (hempty : d.partitions = 0)
    (free : (ℕ → PartitionNode) → ℕ → ℕ → PartitionNode) :
    (¬ hasEfiPart io ∨ isProtective io ∨ noPartitions io d.addr →
      genericDiskInit io d = partitionRefresh free io d) ∧
    (CleanNodes io d →
      (((genericDiskInit io d).bind DiskDev.partitionList).map (List.map Partition.entry) =
          ((partitionRefresh free io d).bind DiskDev.partitionList).map (List.map Partition.entry) ↔
        ¬ hasEfiPart io ∨ isProtective io ∨ noPartitions io d.addr)) := by
  refine ⟨genericDiskInit_eq_partitionRefresh hio hempty free, fun hnodes =>
    ⟨fun hsame => ?_, fun h => ?_⟩⟩
  · by_contra hcon
    obtain ⟨hefi, hprot, hsome⟩ : hasEfiPart io ∧ ¬ isProtective io ∧ ¬ noPartitions io d.addr := by
      rw [not_or, not_or, not_not] at hcon
      exact hcon
    obtain ⟨ps, hps, htable, hmbr⟩ := entries_genericDiskInit hio hdev hempty hnodes hprot
    obtain ⟨qs, hqs, hfound, hgpt⟩ := entries_gptParse hio hdev hempty hnodes
    rw [(partitionRefresh_eq hio hempty free).1 hefi, hps, hqs] at hsame
    have hmap : ps.map Partition.entry = qs.map Partition.entry := Option.some.inj hsame
    -- an entry of one list would have to be of both kinds
    have hnil : ps = [] := by
      cases ps with
      | nil => rfl
      | cons p ps =>
        cases qs with
        | nil => simp at hmap
        | cons q qs =>
          have hkind := congrArg TableEntry.isGpt (List.cons.inj hmap).1
          have hp : p.isGpt = false := hmbr p List.mem_cons_self
          have hq : q.isGpt = true := hgpt q List.mem_cons_self
          exact absurd (hp.symm.trans (hkind.trans hq)) (by decide)
    subst hnil
    have hnil' : qs = [] := by simpa using hmap.symm
    exact hsome ⟨fun hboot => (htable hboot).symm, fun header array h =>
      (hfound header array h).symm.trans hnil'⟩
  · rw [genericDiskInit_eq_partitionRefresh hio hempty free h]

end Paths

/-- The nodes of the device without partitions are clean. -/
lemma cleanNodes_bareDevice (io : DiskIo) : CleanNodes io bareDevice := by
  have hfresh : ∀ n, bareDevice.Fresh [] n := fun n => by
    refine ⟨fun a ha => ?_, ?_⟩
    · obtain ⟨i, -, rfl⟩ := List.mem_map.mp ha
      simp [bareDevice]
    · rw [List.nil_append, DiskDev.nextAllocs]
      exact List.Nodup.map (fun i j hij => by simpa [bareDevice] using hij) List.nodup_range'
  exact ⟨fun _ _ => ⟨hfresh _, fun _ _ => rfl⟩, fun _ _ _ => ⟨hfresh _, fun _ _ => rfl⟩⟩

/-- The blank disk after `mbr_install`. -/
theorem discovery_agrees_mbrDisk :
    genericDiskInit mbrDisk bareDevice =
      partitionRefresh (fun nodes _ => nodes) mbrDisk bareDevice ∧
      (((genericDiskInit mbrDisk bareDevice).bind DiskDev.partitionList).map
        (List.map Partition.entry) =
        ((partitionRefresh (fun nodes _ => nodes) mbrDisk bareDevice).bind
            DiskDev.partitionList).map
          (List.map Partition.entry)) := by
  have hio : mbrDisk.Works := ⟨fun _ => rfl, fun _ _ => rfl⟩
  have hefi : ¬ hasEfiPart mbrDisk := by
    rw [hasEfiPart]
    decide +kernel
  have hall := discovery_agrees_iff hio (show bareDevice.addr ≠ 0 by decide) rfl
    fun nodes _ => nodes
  exact ⟨hall.1 (.inl hefi), (hall.2 (cleanNodes_bareDevice _)).mpr (.inl hefi)⟩

/-! ## A boot-sector table over a GUID partition table -/

section Over

variable {io : DiskIo} {typeId : UInt8}

/-- `mbr_install` writes two sectors. -/
lemma mbrInstall_of_outside {x : ℕ} (h : 512 ≤ x) (h' : x < 2048 * 512 ∨ 2049 * 512 ≤ x) :
    (mbrInstall io typeId).bytes x = io.bytes x := by
  rw [mbrInstall]
  cases io.dmalloc32 512 with
  | none => rfl
  | some buffer =>
    dsimp only
    rw [DiskIo.writeSectors_of_outside (by omega) (by omega),
      DiskIo.writeSectors_of_outside (by omega) (by omega)]

/-- The boot sector afterwards. -/
lemma mbrInstall_bootSector {buffer : Memory} (hdma : io.dmalloc32 512 = some buffer) {x : ℕ}
    (h : x < 512) : (mbrInstall io typeId).bytes x = mbrSector buffer typeId x := by
  rw [mbrInstall, hdma]
  dsimp only
  rw [DiskIo.writeSectors_of_outside (by omega) (by omega)]
  have hsector : (io.writeSectors 0 1 (mbrSector buffer typeId)).bytes (0 * 512 + x) =
      mbrSector buffer typeId x := DiskIo.writeSectors_of_inside (by omega) (by omega)
  simpa using hsector

/-- A table of the other kind survives. -/
lemma HasGpt.mbrInstall {n : ℕ} {array : Memory} (h : HasGpt io n array) (hn : 2082 ≤ n) :
    HasGpt (mbrInstall io typeId) n array := by
  obtain ⟨header, hstd, hheader⟩ := h.header
  obtain ⟨backup, hstd', hbackup⟩ := h.backup
  refine ⟨fun x hx => ?_, fun x hx => ?_, ⟨header, hstd, fun x hx => ?_⟩,
    ⟨backup, hstd', fun x hx => ?_⟩⟩
  · rw [mbrInstall_of_outside (by omega) (by omega), h.entries x hx]
  · rw [mbrInstall_of_outside (by omega) (by omega), h.backupEntries x hx]
  · rw [mbrInstall_of_outside (by omega) (by omega), hheader x hx]
  · rw [mbrInstall_of_outside (by omega) (by omega), hbackup x hx]

lemma HasGpt.hasEfiPart {n : ℕ} {array : Memory} (h : HasGpt io n array) : hasEfiPart io := by
  obtain ⟨header, hstd, hheader⟩ := h.header
  rw [Cuore.hasEfiPart, ← hstd.signature]
  refine Memory.bytesAt_congr fun i hi => ?_
  rw [show 512 + i = 1 * 512 + i by omega, hheader i (by omega), gptSeal_of_outside (by omega),
    Nat.zero_add]

/-- The type that ends up in the boot sector. -/
def mbrInstalledType (typeId : UInt8) : ℕ := if typeId ≠ 0 then typeId.toNat else 0x83

lemma mbrInstalledType_pos (typeId : UInt8) : mbrInstalledType typeId ≠ 0 := by
  rw [mbrInstalledType]
  split_ifs with h
  · exact fun h0 => h (UInt8.toNat_inj.mp h0)
  · decide

lemma mbrInstalledType_lt (typeId : UInt8) : mbrInstalledType typeId < 256 := by
  rw [mbrInstalledType]
  split_ifs
  · exact typeId.toNat_lt
  · decide

/-- What `mbr_install` puts into the boot sector: one entry, in the first place. -/
lemma mbrInstall_table (typeId : UInt8) {buffer : Memory} (hdma : io.dmalloc32 512 = some buffer)
    (dev : ℕ) :
    hasBootSignature (mbrInstall io typeId) ∧
    (∀ i < 4, mbrType (mbrInstall io typeId).bytes i =
      if i = 0 then mbrInstalledType typeId else 0) ∧
    mbrTable (mbrInstall io typeId) dev = [⟨2048, 65534, mbrInstalledType typeId, dev, false⟩] := by
  have hload : ∀ a k, a + k ≤ 512 → (mbrInstall io typeId).bytes.load a k =
      (mbrSector buffer typeId).load a k := fun a k hk =>
    Memory.load_congr fun x _ hx => mbrInstall_bootSector hdma (by omega)
  have htype : ∀ i < 4, mbrType (mbrInstall io typeId).bytes i =
      if i = 0 then mbrInstalledType typeId else 0 := by
    intro i hi
    rw [mbrType, hload _ _ (by rw [mbrEntry]; omega), mbrEntry, mbrSector]
    by_cases h0 : i = 0
    · subst h0
      simp (disch := omega) only [Memory.load_store_of_disjoint, Memory.load_store_self, if_true]
      exact Nat.mod_eq_of_lt (mbrInstalledType_lt typeId)
    · rw [if_neg h0]
      simp (disch := omega) only [Memory.load_store_of_disjoint, Memory.load_fill_zero]
  refine ⟨?_, htype, ?_⟩
  · rw [hasBootSignature, hload _ _ (by omega), mbrSector, Memory.load_add _ _ 1 1]
    simp (disch := omega) only [Memory.load_store_of_disjoint, Memory.load_store_self]
    rfl
  · have hused : ((List.range 4).filter fun i =>
      mbrType (mbrInstall io typeId).bytes i ≠ 0) = [0] := by
      rw [List.filter_congr (q := fun i => decide (i = 0)) fun i hi => ?_]
      · decide
      · rw [htype i (List.mem_range.mp hi)]
        by_cases h0 : i = 0
        · simp [h0, mbrInstalledType_pos]
        · simp [h0]
    rw [mbrTable, hused, List.map_singleton, htype 0 (by omega), if_pos rfl,
      hload _ _ (by rw [mbrEntry]; omega), hload _ _ (by rw [mbrEntry]; omega), mbrEntry, mbrSector]
    simp (disch := omega) only [Memory.load_store_of_disjoint, Memory.load_store_self]
    rfl

end Over

/-- **The old table comes back.**  After `gpt_install` and then `mbr_install`, with any type other
than `0xEE`, `generic_disk_init` finds the new partition and `partition_refresh` the old one. -/
lemma mbrInstall_after_gptInstall (io : DiskIo) (hio : io.Works) (hlo : 2082 ≤ io.totalSectors)
    (hhi : io.totalSectors ≤ 2 ^ 32) {typeId : UInt8} (htype : mbrInstalledType typeId ≠ 0xEE) :
    ∃ io', gptInstall io none none = some io' ∧
      ((genericDiskInit (mbrInstall io' typeId) bareDevice).bind DiskDev.partitionList).map
        (List.map Partition.entry) = some [⟨2048, 65534, mbrInstalledType typeId, 1, false⟩] ∧
      ((partitionRefresh (fun nodes _ => nodes) (mbrInstall io' typeId) bareDevice).bind
        DiskDev.partitionList).map (List.map Partition.entry) =
        some [⟨2048, io.totalSectors - 2081, 0, 1, true⟩] := by
  obtain ⟨io', arrayRes, hio', hgpt, hread, hdma, -⟩ :=
    hasGpt_gptInstall none none (by omega) hhi hio.dmalloc32
  obtain ⟨buffer, hbuffer⟩ := Option.isSome_iff_exists.mp (hio.dmalloc32 512)
  rw [← hdma] at hbuffer
  have hworks : (mbrInstall io' typeId).Works := by
    rw [mbrInstall, hbuffer]
    exact ⟨by simpa [DiskIo.writeSectors, hdma] using hio.dmalloc32,
      by simpa [DiskIo.writeSectors, hread] using hio.readOk⟩
  have hgpt' : HasGpt (mbrInstall io' typeId) io.totalSectors _ := hgpt.mbrInstall hlo
  obtain ⟨hboot, htypes, htable⟩ := mbrInstall_table typeId hbuffer bareDevice.addr
  have hprot : ¬ isProtective (mbrInstall io' typeId) := by
    rintro ⟨-, hee⟩
    simp [hasProtective, List.range_succ, htypes, htype] at hee
  refine ⟨io', hio', ?_, ?_⟩
  · obtain ⟨ps, hps, hentries, -⟩ :=
      entries_genericDiskInit hworks (d := bareDevice) (by decide) rfl
      (cleanNodes_bareDevice _) hprot
    rw [hps, Option.map_some, hentries hboot, htable]
    rfl
  · rw [(partitionRefresh_eq hworks (d := bareDevice) rfl _).1 hgpt'.hasEfiPart]
    obtain ⟨header, array, hreads, hstd, harray⟩ := hgpt'.gptReads hworks.dmalloc32 hworks.readOk
    rw [hreads.gptParse_eq, hstd.numPartitionEntries, hstd.sizeofPartitionEntry,
      gptLoop_gptArray hlo hhi (by decide) harray (by decide)]
    rfl

/-- The blank disk with a GUID partition table and then a boot-sector table. -/
theorem mbrInstall_over_gptInstall_blankDisk : ∃ io', gptInstall blankDisk none none = some io' ∧
    ((genericDiskInit (mbrInstall io' 0) bareDevice).bind DiskDev.partitionList).map
      (List.map Partition.entry) = some [⟨2048, 65534, 0x83, 1, false⟩] ∧
    ((partitionRefresh (fun nodes _ => nodes) (mbrInstall io' 0) bareDevice).bind
      DiskDev.partitionList).map (List.map Partition.entry) = some [⟨2048, 2015, 0, 1, true⟩] :=
  mbrInstall_after_gptInstall blankDisk ⟨fun _ => rfl, fun _ _ => rfl⟩ (by decide) (by decide)
    (by decide)

end Cuore
