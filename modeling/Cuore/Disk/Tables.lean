import Cuore.Disk.Gpt
import Cuore.Disk.Mbr

/-!
# Partition lists and partition tables

What `mbr_parse` and `gpt_parse` leave in `dev->partitions`, against the table on the disk.  The
nodes come from `malloc`, whose memory holds what was there before, and two things of it survive.

* `partition_register` never sets `next` of the node that it appends.  The list is the table exactly
  if all nodes happened to have null there (`partitionList_registerAll`, `clean_of_registerAll`).
* `mbr_parse` sets neither `partition_id` nor `guid`.

`gpt_parse` sets all fields, but an entry can reach past the sectors that were read, since the size
of an entry and the number of entries are believed; there it reads the rest of the buffer.  No entry
of a table that fits does (`EntriesRead.of_tableFits`).
-/

namespace Cuore

/-! ## Lists of a device -/

namespace DiskDev

variable {d d' : DiskDev} {fs : List (Partition → Partition)}

/-- The next `n` nodes have null pointers. -/
def Clean (d : DiskDev) (n : ℕ) : Prop := ∀ a ∈ d.nextAllocs n, (d.nodes a).next = 0

/-- The device with other contents of the memory. -/
def withMemory (d : DiskDev) (nodes : ℕ → PartitionNode) : DiskDev := { d with nodes := nodes }

lemma chain_nil (hempty : d.partitions = 0) : d.Chain [] := by
  rw [Chain, hempty]
  exact .nil

lemma length_fillWith {nodes : ℕ → PartitionNode} {as : List ℕ} (h : as.length = fs.length) :
    (fillWith nodes fs as).length = fs.length := by
  induction fs generalizing as with
  | nil => rfl
  | cons f fs ih =>
    cases as with
    | nil => simp at h
    | cons a as => simpa [fillWith] using ih (by simpa using h)

lemma length_filled (d : DiskDev) (fs : List (Partition → Partition)) :
    (d.filled fs).length = fs.length :=
  length_fillWith (by simp [nextAllocs])

/-- On an empty list, clean nodes come out as the list of what was filled in. -/
lemma partitionList_registerAll (hempty : d.partitions = 0) (hlen : fs.length < word)
    (hfresh : d.Fresh [] fs.length) (hdisk : SetsDisk fs) (hclean : d.Clean fs.length) :
    ∃ d', d.registerAll fs = some d' ∧ d'.partitionList = some (d.filled fs) := by
  obtain ⟨d', hd', hl', hmap, -, -⟩ :=
    registerAll_list (chain_nil hempty) (by simpa using hlen) hfresh
    hdisk hclean
  refine ⟨d', hd', partitionList_eq_some.mpr ⟨_, hl', ?_, by simpa using hmap.symm⟩⟩
  simpa [nextAllocs] using hlen

/-- On an empty list, a list that is not longer than what was filled in comes from clean nodes. -/
lemma clean_of_registerAll {ps : List Partition} (hempty : d.partitions = 0)
    (hlen : fs.length < word)
    (hfresh : d.Fresh [] fs.length) (hdisk : SetsDisk fs) (hd : d.registerAll fs = some d')
    (hps : d'.partitionList = some ps) (hle : ps.length ≤ fs.length) : d.Clean fs.length := by
  obtain ⟨l', hl', -, rfl⟩ := partitionList_eq_some.mp hps
  exact next_eq_zero_of_registerAll (chain_nil hempty) (by simpa using hlen) hfresh hdisk hd hl'
    (by simpa using hle)

/-- The two together. -/
lemma partitionList_iff_clean {ps : List Partition} (hempty : d.partitions = 0)
    (hlen : fs.length < word) (hfresh : d.Fresh [] fs.length) (hdisk : SetsDisk fs)
    (hle : ps.length ≤ fs.length) :
    (d.registerAll fs).bind partitionList = some ps ↔ d.Clean fs.length ∧ ps = d.filled fs := by
  constructor
  · intro h
    obtain ⟨d', hd', hps⟩ := Option.bind_eq_some_iff.mp h
    have hclean := clean_of_registerAll hempty hlen hfresh hdisk hd' hps hle
    obtain ⟨d'', hd'', hps''⟩ := partitionList_registerAll hempty hlen hfresh hdisk hclean
    obtain rfl : d' = d'' := Option.some.inj (hd'.symm.trans hd'')
    exact ⟨hclean, Option.some.inj (hps.symm.trans hps'')⟩
  · rintro ⟨hclean, rfl⟩
    obtain ⟨d', hd', hps⟩ := partitionList_registerAll hempty hlen hfresh hdisk hclean
    rw [hd']
    exact hps

end DiskDev

/-! ## Boot-sector tables -/

/-- What `mbr_parse` reads, if it succeeds. -/
structure MbrReads (io : DiskIo) (mbr : Memory) : Prop where
  read : ∃ buffer, io.dmalloc32 512 = some buffer ∧ io.readSectors 0 1 buffer = some mbr
  signature : mbr.load 510 2 = 0xAA55
  unprotected : hasProtective mbr = false

/-- The list that `mbr_parse` leaves, if it is finite. -/
def mbrList (io : DiskIo) (d : DiskDev) : Option (List Partition) :=
  (mbrParse io d).bind fun r => r.2.partitionList

/-- What an entry of a table says of a partition. -/
structure TableEntry where
  startLba : ℕ
  sectorCount : ℕ
  typeId : ℕ
  disk : ℕ
  isGpt : Bool
  deriving DecidableEq, Repr

/-- The part of a partition that a boot-sector entry determines. -/
def Partition.entry (p : Partition) : TableEntry :=
  ⟨p.startLba, p.sectorCount, p.typeId, p.disk, p.isGpt⟩

/-- The non-empty entries of the boot sector of a disk, in order. -/
def mbrTable (io : DiskIo) (dev : ℕ) : List TableEntry :=
  ((List.range 4).filter fun i => mbrType io.bytes i ≠ 0).map fun i =>
    ⟨io.bytes.load (mbrEntry i + 8) 4, io.bytes.load (mbrEntry i + 12) 4, mbrType io.bytes i, dev,
      false⟩

section Mbr

variable {io : DiskIo} {mbr : Memory} {d : DiskDev}

lemma MbrReads.eq_bytes (h : MbrReads io mbr) {x : ℕ} (hx : x < 512) : mbr x = io.bytes x := by
  obtain ⟨buffer, -, hread⟩ := h.read
  simpa using DiskIo.readSectors_eq_some hread (by omega) (show x < 1 * 512 by omega)

/-- A table of four entries lies in the sector. -/
lemma MbrReads.load_eq (h : MbrReads io mbr) {a k : ℕ} (ha : a + k ≤ 512) :
    mbr.load a k = io.bytes.load a k :=
  Memory.load_congr fun _ _ hx => h.eq_bytes (by omega)

lemma MbrReads.mbrParse_eq (h : MbrReads io mbr) (d : DiskDev) :
    mbrParse io d = (mbrLoop d.addr mbr (List.range 4) d).map fun d => (0, d) := by
  obtain ⟨buffer, hdma, hread⟩ := h.read
  simp only [mbrParse, hdma, hread, h.signature, h.unprotected, ne_eq, not_true_eq_false, if_false,
    Bool.false_eq_true]

lemma MbrReads.mbrList_eq (h : MbrReads io mbr)
    (hne : ∀ a ∈ d.nextAllocs (mbrFills d.addr mbr (List.range 4)).length, a ≠ 0) :
    mbrList io d = (d.registerAll (mbrFills d.addr mbr (List.range 4))).bind
      DiskDev.partitionList := by
  rw [mbrList, h.mbrParse_eq, mbrLoop_eq_registerAll hne, Option.bind_map]
  rfl

lemma length_mbrFills (dev : ℕ) (mbr : Memory) : (mbrFills dev mbr (List.range 4)).length ≤ 4 := by
  rw [mbrFills, List.length_map, mbrUsed]
  exact (List.length_filter_le _ _).trans_eq List.length_range

lemma map_entry_fillWith {dev : ℕ} {nodes : ℕ → PartitionNode} {is as : List ℕ}
    (h : as.length = is.length) :
    (DiskDev.fillWith nodes (is.map (mbrFill dev mbr)) as).map Partition.entry = is.map fun i =>
      ⟨mbr.load (mbrEntry i + 8) 4, mbr.load (mbrEntry i + 12) 4, mbrType mbr i, dev, false⟩ := by
  induction is generalizing as with
  | nil => rfl
  | cons i is ih =>
    cases as with
    | nil => simp at h
    | cons a as =>
      rw [List.map_cons, DiskDev.fillWith, List.map_cons, List.map_cons, ih (by simpa using h)]
      rfl

/-- What is filled in is the table, whatever the nodes held. -/
lemma MbrReads.map_entry_filled (h : MbrReads io mbr) (dev : ℕ) (d : DiskDev) :
    (d.filled (mbrFills dev mbr (List.range 4))).map Partition.entry = mbrTable io dev := by
  have htype : ∀ i ∈ List.range 4, mbrType mbr i = mbrType io.bytes i := fun i hi =>
    h.load_eq (by rw [List.mem_range] at hi; rw [mbrEntry]; omega)
  have hused : mbrUsed mbr (List.range 4) =
      (List.range 4).filter fun i => mbrType io.bytes i ≠ 0 :=
    List.filter_congr fun i hi => by rw [htype i hi]
  rw [DiskDev.filled, mbrFills, map_entry_fillWith (by simp [DiskDev.nextAllocs]), mbrTable, hused]
  refine List.map_congr_left fun i hi => ?_
  have hi4 := (List.mem_filter.mp hi).1
  rw [htype i hi4]
  rw [List.mem_range] at hi4
  rw [h.load_eq (by rw [mbrEntry]; omega), h.load_eq (by rw [mbrEntry]; omega)]

/-- What survives of a node in `mbr_parse`. -/
def SameStale (nodes nodes' : ℕ → PartitionNode) (a : ℕ) : Prop :=
  (nodes a).part.partitionId = (nodes' a).part.partitionId ∧
    (nodes a).part.guid = (nodes' a).part.guid

lemma mbrFill_eq_mbrFill_iff {dev i : ℕ} {p q : Partition} :
    mbrFill dev mbr i p = mbrFill dev mbr i q ↔
      p.partitionId = q.partitionId ∧ p.guid = q.guid := by
  simp [mbrFill]

lemma fillWith_eq_fillWith_iff {dev : ℕ} {nodes nodes' : ℕ → PartitionNode} {is as : List ℕ}
    (h : as.length = is.length) :
    DiskDev.fillWith nodes (is.map (mbrFill dev mbr)) as =
      DiskDev.fillWith nodes' (is.map (mbrFill dev mbr)) as ↔ ∀ a ∈ as,
        SameStale nodes nodes' a := by
  induction is generalizing as with
  | nil =>
    obtain rfl := List.eq_nil_of_length_eq_zero h
    simp [DiskDev.fillWith]
  | cons i is ih =>
    cases as with
    | nil => simp at h
    | cons a as =>
      rw [List.map_cons, DiskDev.fillWith, DiskDev.fillWith, List.cons.injEq,
        mbrFill_eq_mbrFill_iff,
        ih (by simpa using h), List.forall_mem_cons]
      rfl

/-- **Two runs of `mbr_parse`.**  They leave the same list, and the table, exactly if the nodes of
both are clean and what survives in them is the same. -/
lemma MbrReads.lists_iff (h : MbrReads io mbr) (hdev : d.addr ≠ 0) (hempty : d.partitions = 0)
    (hfresh : d.Fresh [] (mbrUsed mbr (List.range 4)).length) (nodes : ℕ → PartitionNode) :
    (∃ ps, mbrList io d = some ps ∧ mbrList io (d.withMemory nodes) = some ps ∧
      ps.map Partition.entry = mbrTable io d.addr) ↔
    d.Clean (mbrUsed mbr (List.range 4)).length ∧
      (d.withMemory nodes).Clean (mbrUsed mbr (List.range 4)).length ∧
      ∀ a ∈ d.nextAllocs (mbrUsed mbr (List.range 4)).length, SameStale d.nodes nodes a := by
  set fs := mbrFills d.addr mbr (List.range 4) with hfs
  have hcount : fs.length = (mbrUsed mbr (List.range 4)).length := by
    rw [hfs, mbrFills, List.length_map]
  have hword : fs.length < word := by
    have h4 : fs.length ≤ 4 := length_mbrFills d.addr mbr
    exact Nat.lt_of_le_of_lt h4 (by decide)
  rw [← hcount] at hfresh ⊢
  have hfresh' : (d.withMemory nodes).Fresh [] fs.length := ⟨hfresh.ne_zero, hfresh.nodup⟩
  have hdisk : DiskDev.SetsDisk fs := setsDisk_mbrFills hdev
  rw [h.mbrList_eq hfresh.ne_zero, h.mbrList_eq hfresh'.ne_zero]
  have hsame : d.filled fs = (d.withMemory nodes).filled fs ↔
      ∀ a ∈ d.nextAllocs fs.length, SameStale d.nodes nodes a :=
    fillWith_eq_fillWith_iff
      (by rw [DiskDev.nextAllocs, List.length_map, List.length_range', hcount])
  have htable : mbrTable io d.addr = (d.filled fs).map Partition.entry :=
    (h.map_entry_filled d.addr d).symm
  constructor
  · rintro ⟨ps, h1, h2, hps⟩
    have hle : ps.length ≤ fs.length := by
      have := congrArg List.length hps
      rw [htable, List.length_map, List.length_map, DiskDev.length_filled] at this
      exact this.le
    obtain ⟨hclean, rfl⟩ :=
      (DiskDev.partitionList_iff_clean hempty hword hfresh hdisk hle).mp h1
    obtain ⟨hclean', heq⟩ :=
      (DiskDev.partitionList_iff_clean (d := d.withMemory nodes) hempty hword hfresh' hdisk hle).mp
        h2
    exact ⟨hclean, hclean', hsame.mp heq⟩
  · rintro ⟨hclean, hclean', hstale⟩
    have hle : (d.filled fs).length ≤ fs.length := (DiskDev.length_filled d fs).le
    refine ⟨d.filled fs, ?_, ?_, htable.symm⟩
    · exact (DiskDev.partitionList_iff_clean hempty hword hfresh hdisk hle).mpr ⟨hclean, rfl⟩
    · exact (DiskDev.partitionList_iff_clean (d := d.withMemory nodes) hempty hword hfresh' hdisk
        hle).mpr ⟨hclean', hsame.mpr hstale⟩

end Mbr

/-! ## GUID partition tables -/

/-- The list that `gpt_parse` leaves, if it is finite. -/
def gptList (io : DiskIo) (d : DiskDev) : Option (List Partition) :=
  (gptParse io d).bind DiskDev.partitionList

/-- The entry `i` at `a`, if it is not empty. -/
def gptEntry (dev : ℕ) (m : Memory) (a i : ℕ) : Option Partition :=
  if gptTypeGuid m a = guidEmpty then none else some (gptPartition dev m a i)

/-- The non-empty entries of the table on the disk that the header describes, in order. -/
def gptTable (io : DiskIo) (header : Memory) (dev : ℕ) : List Partition :=
  (List.range (GptHeader.numPartitionEntries header)).filterMap fun i =>
    gptEntry dev io.bytes (GptHeader.partitionEntryLba header * 512 +
      i * GptHeader.sizeofPartitionEntry header) i

/-- The entry `i` where `gpt_parse` looks for it in its buffer. -/
def gptEntryRead (dev : ℕ) (array : Memory) (entrySize i : ℕ) : Option Partition :=
  gptEntry dev array (i * entrySize % 2 ^ 32) i

/-- The non-empty entries as `gpt_parse` finds them in its buffer. -/
def gptFound (header array : Memory) (dev : ℕ) : List Partition :=
  (List.range (GptHeader.numPartitionEntries header)).filterMap
    (gptEntryRead dev array (GptHeader.sizeofPartitionEntry header))

/-- Each entry in the buffer is the one on the disk. -/
def EntriesRead (io : DiskIo) (header array : Memory) (dev : ℕ) : Prop :=
  ∀ i < GptHeader.numPartitionEntries header,
    gptEntryRead dev array (GptHeader.sizeofPartitionEntry header) i =
      gptEntry dev io.bytes (GptHeader.partitionEntryLba header * 512 +
        i * GptHeader.sizeofPartitionEntry header) i

/-- The table has a size that 32 bits hold, starts at a sector that the driver can name, and each
entry has room for its fields. -/
structure TableFits (header : Memory) : Prop where
  size : GptHeader.numPartitionEntries header * GptHeader.sizeofPartitionEntry header + 511 < 2 ^ 32
  lba : GptHeader.partitionEntryLba header < 2 ^ 32
  entry : 48 ≤ GptHeader.sizeofPartitionEntry header

section Gpt

variable {io : DiskIo} {header array : Memory} {d : DiskDev} {dev : ℕ}

/-- An entry depends on its first 48 bytes. -/
lemma gptEntry_congr {m m' : Memory} {a a' : ℕ} (i : ℕ) (h : ∀ x < 48, m (a + x) = m' (a' + x)) :
    gptEntry dev m a i = gptEntry dev m' a' i := by
  have hguid : gptTypeGuid m a = gptTypeGuid m' a' :=
    Memory.bytesAt_congr fun x hx => h x (by omega)
  have hload : ∀ b, b + 8 ≤ 48 → m.load (a + b) 8 = m'.load (a' + b) 8 := fun b hb =>
    Memory.load_eq_load fun x hx => by
      rw [Nat.add_assoc, Nat.add_assoc]
      exact h (b + x) (by omega)
  rw [gptEntry, gptEntry, gptPartition, gptPartition, hguid, hload 32 (by omega),
    hload 40 (by omega)]

/-- The entries of a table that fits are those on the disk. -/
lemma GptReads.entriesRead (h : GptReads io header array) (hfits : TableFits header) (dev : ℕ) :
    EntriesRead io header array dev := by
  obtain ⟨buffer, -, hread⟩ := h.readArray
  have hsize := hfits.size
  have hentry := hfits.entry
  intro i hi
  set n := GptHeader.numPartitionEntries header with hn
  set k := GptHeader.sizeofPartitionEntry header with hk
  have hlast : i * k + k ≤ n * k := by
    rw [← Nat.succ_mul]
    exact Nat.mul_le_mul_right k hi
  have hsectors : n * k ≤ GptHeader.sectorsToRead header * 512 := by
    rw [GptHeader.sectorsToRead, GptHeader.arraySize, ← hn, ← hk,
      Nat.mod_eq_of_lt (show n * k < 2 ^ 32 by omega), Nat.mod_eq_of_lt hsize]
    omega
  rw [gptEntryRead, Nat.mod_eq_of_lt (by omega)]
  refine gptEntry_congr i fun x hx => ?_
  rw [DiskIo.readSectors_eq_some hread hfits.lba (by omega), Nat.add_assoc]

/-- Where entries carry their index, a list of some of them tells which. -/
lemma eq_of_filterMap_eq {f g : ℕ → Option Partition} {l : List ℕ} (hl : l.Nodup)
    (hf : ∀ i p, f i = some p → p.partitionId = i) (hg : ∀ i p, g i = some p → p.partitionId = i)
    (h : l.filterMap f = l.filterMap g) : ∀ i ∈ l, f i = g i := by
  -- an entry that only one of the two has would have to come again later
  have habsent : ∀ {f : ℕ → Option Partition} {l : List ℕ} {i : ℕ} {p : Partition},
      (∀ i p, f i = some p → p.partitionId = i) → i ∉ l → p.partitionId = i →
        p ∉ l.filterMap f := by
    intro f l i p hf hil hp hmem
    obtain ⟨j, hj, hjp⟩ := List.mem_filterMap.mp hmem
    exact hil ((hf j p hjp).symm.trans hp ▸ hj)
  induction l with
  | nil => exact fun i hi => absurd hi List.not_mem_nil
  | cons i l ih =>
    obtain ⟨hil, hl⟩ := List.nodup_cons.mp hl
    rw [List.forall_mem_cons]
    cases hfi : f i with
    | none =>
      rw [List.filterMap_cons_none hfi] at h
      cases hgi : g i with
      | none =>
        rw [List.filterMap_cons_none hgi] at h
        exact ⟨rfl, ih hl h⟩
      | some q =>
        rw [List.filterMap_cons_some hgi] at h
        exact absurd (h ▸ List.mem_cons_self) (habsent hf hil (hg i q hgi))
    | some p =>
      rw [List.filterMap_cons_some hfi] at h
      cases hgi : g i with
      | none =>
        rw [List.filterMap_cons_none hgi] at h
        exact absurd (h ▸ List.mem_cons_self) (habsent hg hil (hf i p hfi))
      | some q =>
        rw [List.filterMap_cons_some hgi] at h
        obtain ⟨rfl, htail⟩ := List.cons.inj h
        exact ⟨rfl, ih hl htail⟩

lemma partitionId_of_gptEntry {m : Memory} {a i : ℕ} {p : Partition}
    (h : gptEntry dev m a i = some p) : p.partitionId = i := by
  rw [gptEntry] at h
  split_ifs at h
  cases h
  rfl

/-- What is found is the table exactly if each entry is the one on the disk. -/
lemma gptFound_eq_gptTable_iff :
    gptFound header array dev = gptTable io header dev ↔ EntriesRead io header array dev := by
  constructor
  · intro h i hi
    exact eq_of_filterMap_eq List.nodup_range (fun _ _ => partitionId_of_gptEntry)
      (fun _ _ => partitionId_of_gptEntry) h i (List.mem_range.mpr hi)
  · intro h
    exact List.filterMap_congr fun i hi => h i (List.mem_range.mp hi)

/-- As long as `malloc` succeeds, each entry in use is registered. -/
lemma gptLoop_eq_registerAll {entrySize : ℕ} {is : List ℕ}
    (hne : ∀ a ∈ d.nextAllocs (is.filterMap (gptEntryRead dev array entrySize)).length, a ≠ 0) :
    gptLoop dev array entrySize is d =
      d.registerAll ((is.filterMap (gptEntryRead dev array entrySize)).map fun p _ => p) := by
  induction is generalizing d with
  | nil => rfl
  | cons i is ih =>
    by_cases htype : gptTypeGuid array (i * entrySize % 2 ^ 32) = guidEmpty
    · have hentry : gptEntryRead dev array entrySize i = none := by
        rw [gptEntryRead, gptEntry, if_pos htype]
      rw [List.filterMap_cons_none hentry] at hne ⊢
      rw [gptLoop, if_pos htype, ih hne]
    · have hentry : gptEntryRead dev array entrySize i =
          some (gptPartition dev array (i * entrySize % 2 ^ 32) i) := by
        rw [gptEntryRead, gptEntry, if_neg htype]
      rw [List.filterMap_cons_some hentry] at hne ⊢
      rw [List.length_cons, DiskDev.nextAllocs_succ] at hne
      have hnew : d.mallocNode.1 ≠ 0 := hne _ List.mem_cons_self
      rw [gptLoop, if_neg htype, if_neg hnew, List.map_cons, DiskDev.registerAll,
        DiskDev.addPartition]
      refine Option.bind_congr fun d₁ hd₁ => ih fun a ha => hne a (List.mem_cons_of_mem _ ?_)
      rwa [DiskDev.nextAllocs_of_addPartition hd₁] at ha

lemma GptReads.gptList_eq (h : GptReads io header array)
    (hne : ∀ a ∈ d.nextAllocs (gptFound header array d.addr).length, a ≠ 0) :
    gptList io d = (d.registerAll ((gptFound header array d.addr).map fun p _ => p)).bind
      DiskDev.partitionList := by
  rw [gptList, h.gptParse_eq, gptLoop_eq_registerAll hne]
  rfl

lemma setsDisk_gptFound (hdev : dev ≠ 0) :
    DiskDev.SetsDisk ((gptFound header array dev).map fun p _ => p) := by
  intro f hf p
  obtain ⟨q, hq, rfl⟩ := List.mem_map.mp hf
  obtain ⟨i, -, hi⟩ := List.mem_filterMap.mp hq
  rw [gptEntryRead, gptEntry] at hi
  split_ifs at hi
  cases hi
  exact hdev

lemma length_gptFound_lt (header array : Memory) (dev : ℕ) :
    (gptFound header array dev).length < word := by
  have hle : (gptFound header array dev).length ≤ GptHeader.numPartitionEntries header :=
    (List.length_filterMap_le _ _).trans_eq List.length_range
  have hlt : GptHeader.numPartitionEntries header < 256 ^ 4 := Memory.load_lt _ _ _
  exact Nat.lt_of_le_of_lt hle (hlt.trans (by decide))

lemma filled_const (d : DiskDev) (ps : List Partition) :
    d.filled (ps.map fun p _ => p) = ps := by
  have hfill : ∀ (as : List ℕ), as.length = ps.length →
      DiskDev.fillWith d.nodes (ps.map fun p _ => p) as = ps := by
    induction ps with
    | nil => exact fun _ _ => rfl
    | cons p ps ih =>
      intro as has
      cases as with
      | nil => simp at has
      | cons a as => rw [List.map_cons, DiskDev.fillWith, ih as (by simpa using has)]
  exact hfill _ (by simp [DiskDev.nextAllocs])

/-- The list after `gpt_parse` is what it found, exactly if the nodes are clean. -/
lemma GptReads.gptList_iff (h : GptReads io header array) (hdev : d.addr ≠ 0)
    (hempty : d.partitions = 0) (hfresh : d.Fresh [] (gptFound header array d.addr).length)
    {ps : List Partition} (hle : ps.length ≤ (gptFound header array d.addr).length) :
    gptList io d = some ps ↔ d.Clean (gptFound header array d.addr).length ∧
      ps = gptFound header array d.addr := by
  have hlen : ((gptFound header array d.addr).map fun p (_ : Partition) => p).length =
      (gptFound header array d.addr).length := List.length_map _
  rw [h.gptList_eq hfresh.ne_zero, DiskDev.partitionList_iff_clean hempty
    (hlen ▸ length_gptFound_lt _ _ _) (hlen ▸ hfresh) (setsDisk_gptFound hdev) (hlen ▸ hle), hlen,
    filled_const]

end Gpt

/-! ## Two runs -/

/-- **Two runs of `gpt_parse`.**  If the entries that are read are those on the disk, or the nodes
of one run are clean, then both runs leave the table exactly if all of this holds. -/
lemma GptReads.lists_iff {io : DiskIo} {header array : Memory} {d : DiskDev}
    (h : GptReads io header array) (hdev : d.addr ≠ 0) (hempty : d.partitions = 0)
    (hfresh : d.Fresh [] (gptFound header array d.addr).length) (nodes : ℕ → PartitionNode)
    (hone : EntriesRead io header array d.addr ∨ d.Clean (gptFound header array d.addr).length) :
    gptList io d = some (gptTable io header d.addr) ∧
        gptList io (d.withMemory nodes) = some (gptTable io header d.addr) ↔
      d.Clean (gptFound header array d.addr).length ∧
        (d.withMemory nodes).Clean (gptFound header array d.addr).length ∧
        EntriesRead io header array d.addr := by
  have hfresh' : (d.withMemory nodes).Fresh [] (gptFound header array d.addr).length :=
    ⟨hfresh.ne_zero, hfresh.nodup⟩
  have hrun : ∀ {ps : List Partition}, ps.length ≤ (gptFound header array d.addr).length → _ :=
    fun hle => h.gptList_iff hdev hempty hfresh hle
  have hrun' : ∀ {ps : List Partition}, ps.length ≤ (gptFound header array d.addr).length →
      (gptList io (d.withMemory nodes) = some ps ↔
        (d.withMemory nodes).Clean (gptFound header array d.addr).length ∧
          ps = gptFound header array d.addr) :=
    fun hle => h.gptList_iff (d := d.withMemory nodes) hdev hempty hfresh' hle
  constructor
  · rintro ⟨hlist, hlist'⟩
    -- either way what is found is the table
    have htable : gptFound header array d.addr = gptTable io header d.addr := by
      rcases hone with hread | hclean
      · exact gptFound_eq_gptTable_iff.mpr hread
      · have := (hrun le_rfl).mpr ⟨hclean, rfl⟩
        exact Option.some.inj (this.symm.trans hlist)
    rw [← htable] at hlist hlist'
    exact ⟨((hrun le_rfl).mp hlist).1, ((hrun' le_rfl).mp hlist').1,
      gptFound_eq_gptTable_iff.mp htable⟩
  · rintro ⟨hclean, hclean', hread⟩
    rw [← gptFound_eq_gptTable_iff.mpr hread]
    exact ⟨(hrun le_rfl).mpr ⟨hclean, rfl⟩, (hrun' le_rfl).mpr ⟨hclean', rfl⟩⟩

/-- **Partition lists and stale memory.**  Take a device without partitions, and the same with other
contents of the memory that `malloc` returns.  Where `mbr_parse` succeeds, both runs leave the same
list and it is the table of the disk, exactly if in both memories the nodes have null pointers and
their `partition_id` and `guid` agree.  Where `gpt_parse` succeeds, the entries that it reads are
those on the disk if the table fits; both runs leave the table of the disk, exactly if in both
memories the nodes have null pointers and the entries that are read are those on the disk, where one
of the two can be told from the other. -/
theorem partition_lists_iff {io : DiskIo} {d : DiskDev} (nodes : ℕ → PartitionNode)
    (hdev : d.addr ≠ 0) (hempty : d.partitions = 0) :
    (∀ mbr, MbrReads io mbr → d.Fresh [] (mbrUsed mbr (List.range 4)).length →
      ((∃ ps, mbrList io d = some ps ∧ mbrList io (d.withMemory nodes) = some ps ∧
          ps.map Partition.entry = mbrTable io d.addr) ↔
        d.Clean (mbrUsed mbr (List.range 4)).length ∧
          (d.withMemory nodes).Clean (mbrUsed mbr (List.range 4)).length ∧
          ∀ a ∈ d.nextAllocs (mbrUsed mbr (List.range 4)).length, SameStale d.nodes nodes a)) ∧
    ∀ header array, GptReads io header array →
      d.Fresh [] (gptFound header array d.addr).length →
      (TableFits header → EntriesRead io header array d.addr) ∧
      (EntriesRead io header array d.addr ∨ d.Clean (gptFound header array d.addr).length →
        (gptList io d = some (gptTable io header d.addr) ∧
            gptList io (d.withMemory nodes) = some (gptTable io header d.addr) ↔
          d.Clean (gptFound header array d.addr).length ∧
            (d.withMemory nodes).Clean (gptFound header array d.addr).length ∧
            EntriesRead io header array d.addr)) :=
  ⟨fun _ hreads hfresh => hreads.lists_iff hdev hempty hfresh nodes,
    fun _ _ hreads hfresh => ⟨fun hfits => hreads.entriesRead hfits d.addr,
      fun hone => hreads.lists_iff hdev hempty hfresh nodes hone⟩⟩

/-- Two runs on a blank disk after `gpt_install`, in memory that is all zero, and in memory where
all but the pointers is stale. -/
theorem partition_lists_iff_gptInstall :
    let nodes : ℕ → PartitionNode := fun _ => ⟨⟨1, 2, 3, 4, [], 5, true⟩, 0⟩
    ∃ io header array, gptInstall blankDisk none none = some io ∧
      GptReads io header array ∧ EntriesRead io header array 1 ∧
      gptList io bareDevice = some (gptTable io header 1) ∧
      gptList io (bareDevice.withMemory nodes) = some (gptTable io header 1) := by
  intro nodes
  obtain ⟨io, arrayRes, hio, hgpt, hread, hdma, -⟩ :=
    hasGpt_gptInstall none none (show 68 ≤ blankDisk.totalSectors by decide)
      (by decide) fun _ => rfl
  obtain ⟨header, array, hreads, hstd, -⟩ := hgpt.gptReads (by simp [hdma, blankDisk])
    (by simp [hread, blankDisk])
  have hfresh : bareDevice.Fresh [] (gptFound header array bareDevice.addr).length := by
    refine ⟨fun a ha => ?_, ?_⟩
    · obtain ⟨i, -, rfl⟩ := List.mem_map.mp ha
      simp [bareDevice]
    · rw [List.nil_append, DiskDev.nextAllocs]
      exact List.Nodup.map (fun i j hij => by simpa [bareDevice] using hij) List.nodup_range'
  have hclean : ∀ n, bareDevice.Clean n := fun _ _ _ => rfl
  obtain ⟨hfits, hiff⟩ := (partition_lists_iff (d := bareDevice) nodes (by decide) rfl).2
    header array hreads hfresh
  have hread' : EntriesRead io header array bareDevice.addr := hfits
    ⟨by rw [hstd.numPartitionEntries, hstd.sizeofPartitionEntry]; decide,
      by rw [hstd.partitionEntryLba]; decide, by rw [hstd.sizeofPartitionEntry]; decide⟩
  exact ⟨io, header, array, hio, hreads, hread',
    (hiff (.inl hread')).mpr ⟨hclean _, fun _ _ => rfl, hread'⟩⟩

/-- The blank disk with a boot-sector table of one partition. -/
def mbrDisk : DiskIo := mbrInstall blankDisk 0

/-- Memory in which the next node points to another one, and has been partition 7. -/
def staleNodes (a : ℕ) : PartitionNode :=
  if a = 16 then ⟨⟨0, 0, 7, 0, [], 0, false⟩, 8⟩ else ⟨⟨1, 2, 3, 4, [], 5, true⟩, 0⟩

/-- The same disk, read with two memories.  The second list has the wrong index and goes on in
memory that holds no partition. -/
theorem mbrList_mbrDisk_stale :
    (mbrParse mbrDisk bareDevice).map Prod.fst = some 0 ∧
    (mbrParse mbrDisk (bareDevice.withMemory staleNodes)).map Prod.fst = some 0 ∧
    mbrList mbrDisk bareDevice = some [⟨2048, 65534, 0, 0x83, [], 1, false⟩] ∧
    mbrList mbrDisk (bareDevice.withMemory staleNodes) =
      some [⟨2048, 65534, 7, 0x83, [], 1, false⟩, ⟨1, 2, 3, 4, [], 5, true⟩] := by
  decide +kernel

end Cuore
