import Cuore.Disk.Gpt

/-!
# What `gpt_parse` reads (`disk/gpt.c`)

`gpt_parse` has two buffers from `dmalloc32`, one of 512 bytes for the header and one of
`array_size` bytes for the entries.  How much of them it reads is decided by the fields of the
header: the checksum of the header goes over `header_size` bytes, and there are
`num_partition_entries` entries, `sizeof_partition_entry` bytes apart, in an array whose size is the
product of the two in 32 bits.  None of these is checked, and the checksums only show that the
fields are what the author of the disk wrote.

`gptTrace` lists the accesses of one call, with the sizes of the buffers that they go to.
`gptTrace_safe_iff` says for which disks all of them are inside, whatever the heap and the list of
partitions are at the time.  What it leaves out makes no difference (`gptParse_congr`).
-/

namespace Cuore

/-! ## The accesses -/

/-- An access to `length` bytes at `offset`, in a buffer of `size` bytes. -/
structure GptAccess where
  size : ℕ
  offset : ℕ
  length : ℕ
  deriving DecidableEq, Repr

/-- The access is inside its buffer. -/
def GptAccess.Inside (a : GptAccess) : Prop := a.offset + a.length ≤ a.size

/-- What a call of `gpt_parse` reads, and the entries it examines, with all their fields. -/
structure GptTrace where
  reads : List GptAccess
  entries : List GptAccess

/-- Every byte that is read is in its buffer, and so is every entry that is examined. -/
structure GptTrace.Safe (t : GptTrace) : Prop where
  reads : ∀ a ∈ t.reads, a.Inside
  entries : ∀ a ∈ t.entries, a.Inside

/-- `sizeof(gpt_entry_t)`. -/
def gptEntrySize : ℕ := 128

/-- The offsets of the entries that the loop of `gpt_parse` examines, with the number of bytes it
reads there: the type, and of a used entry the fields up to the last sector. -/
def gptExamined (dev : ℕ) (array : Memory) (entrySize : ℕ) : List ℕ → DiskDev → List (ℕ × ℕ)
  | [], _ => []
  | i :: is, d =>
    if gptTypeGuid array (i * entrySize % 2 ^ 32) = guidEmpty then
      (i * entrySize % 2 ^ 32, 16) :: gptExamined dev array entrySize is d
    else if d.mallocNode.1 = 0 then [(i * entrySize % 2 ^ 32, 16)]
    else (i * entrySize % 2 ^ 32, 48) ::
      match (d.mallocNode.2.setPart d.mallocNode.1
        fun _ => gptPartition dev array (i * entrySize % 2 ^ 32) i).partitionRegister
          d.mallocNode.1 with
      | none => []
      | some d => gptExamined dev array entrySize is d

/-- The accesses of `gpt_parse` behind the check of the header's checksum, after `reads`. -/
def gptArrayTrace (io : DiskIo) (d : DiskDev) (header : Memory) (reads : List GptAccess) :
    GptTrace :=
  let size := GptHeader.arraySize header
  let lba := GptHeader.partitionEntryLba header
  let count := GptHeader.sectorsToRead header
  let reads := reads ++ [⟨512, 80, 4⟩, ⟨512, 84, 4⟩, ⟨512, 72, 8⟩]
  match io.dmalloc32 size with
  | none =>
    -- the array is at the null pointer: after the checksum, `memcmp` panics
    if io.readOk (lba % 2 ^ 32) count then ⟨reads ++ [⟨0, 0, size⟩, ⟨512, 88, 4⟩], []⟩
    else ⟨reads, []⟩
  | some arrayRes =>
    match io.readSectors lba count arrayRes with
    | none => ⟨reads, []⟩
    | some array =>
      let reads := reads ++ [⟨size, 0, size⟩, ⟨512, 88, 4⟩]
      if ¬ GptHeader.arrayCrcOk header array then ⟨reads, []⟩
      else
        let examined := gptExamined d.addr array (GptHeader.sizeofPartitionEntry header)
          (List.range (GptHeader.numPartitionEntries header)) d
        ⟨reads ++ examined.map (fun e => ⟨size, e.1, e.2⟩),
          examined.map fun e => ⟨size, e.1, gptEntrySize⟩⟩

/-- The accesses of `gpt_parse`.  `memcmp` panics if there is no buffer for the header. -/
def gptTrace (io : DiskIo) (d : DiskDev) : GptTrace :=
  match io.dmalloc32 512 with
  | none => ⟨[], []⟩
  | some sectorRes =>
    match io.readSectors 1 1 sectorRes with
    | none => ⟨[], []⟩
    | some header =>
      if GptHeader.signature header ≠ efiPart then ⟨[⟨512, 0, 8⟩], []⟩
      else
        let reads : List GptAccess := [⟨512, 0, 8⟩, ⟨512, 16, 4⟩, ⟨512, 12, 4⟩,
          ⟨512, 0, GptHeader.headerSize header⟩]
        if ¬ GptHeader.crcOk header then ⟨reads, []⟩
        else gptArrayTrace io d header reads

/-! ## The condition -/

/-- The array that a header points to has been read and passes its check. -/
structure ArrayAccepted (io : DiskIo) (header array : Memory) : Prop where
  read : ∃ buffer, io.dmalloc32 (GptHeader.arraySize header) = some buffer ∧
    io.readSectors (GptHeader.partitionEntryLba header) (GptHeader.sectorsToRead header) buffer =
      some array
  arrayCrcOk : GptHeader.arrayCrcOk header array = true

/-- The sizes in a header fit the buffers. -/
structure GptHeader.Fits (io : DiskIo) (header : Memory) : Prop where
  headerSize : GptHeader.headerSize header ≤ 512
  granted : GptHeader.crcOk header = true → io.dmalloc32 (GptHeader.arraySize header) = none →
    io.readOk (GptHeader.partitionEntryLba header % 2 ^ 32)
      (GptHeader.sectorsToRead header) = true →
      GptHeader.arraySize header = 0
  entries : GptHeader.crcOk header = true → ∀ array, ArrayAccepted io header array →
    ∀ i < GptHeader.numPartitionEntries header,
      i * GptHeader.sizeofPartitionEntry header % 2 ^ 32 + gptEntrySize ≤ GptHeader.arraySize header

/-- Sector 1 is not that of a table, or the sizes in it fit the buffers. -/
def GptFits (io : DiskIo) : Prop :=
  ∀ buffer header, io.dmalloc32 512 = some buffer → io.readSectors 1 1 buffer = some header →
    GptHeader.signature header = efiPart → GptHeader.Fits io header

/-- A table whose size does not wrap, of entries that are large enough, fits. -/
lemma GptHeader.Fits.of_no_wrap {io : DiskIo} {header : Memory}
    (hsize : GptHeader.headerSize header ≤ 512)
    (hdma : (io.dmalloc32 (GptHeader.arraySize header)).isSome)
    (hentry : gptEntrySize ≤ GptHeader.sizeofPartitionEntry header)
    (hwrap : GptHeader.numPartitionEntries header * GptHeader.sizeofPartitionEntry header <
      2 ^ 32) : GptHeader.Fits io header := by
  refine ⟨hsize, fun _ hnone => by simp [hnone] at hdma, fun _ _ _ i hi => ?_⟩
  have hle := Nat.mul_le_mul_right (GptHeader.sizeofPartitionEntry header) hi
  rw [Nat.succ_mul] at hle
  rw [GptHeader.arraySize, Nat.mod_eq_of_lt hwrap, Nat.mod_eq_of_lt (by omega)]
  omega

/-! ## The entries that are examined -/

section Examined

variable {dev entrySize : ℕ} {array : Memory} {is : List ℕ} {d : DiskDev}

lemma mem_gptExamined {e : ℕ × ℕ} (he : e ∈ gptExamined dev array entrySize is d) :
    (∃ i ∈ is, e.1 = i * entrySize % 2 ^ 32) ∧ e.2 ≤ gptEntrySize := by
  induction is generalizing d with
  | nil => exact absurd he List.not_mem_nil
  | cons i is ih =>
    have hrest : ∀ {d}, e ∈ gptExamined dev array entrySize is d →
        (∃ j ∈ i :: is, e.1 = j * entrySize % 2 ^ 32) ∧ e.2 ≤ gptEntrySize := fun hmem =>
      let ⟨⟨j, hj, hej⟩, hle⟩ := ih hmem
      ⟨⟨j, List.mem_cons_of_mem _ hj, hej⟩, hle⟩
    have hfirst : ∀ n, n ≤ gptEntrySize → e = (i * entrySize % 2 ^ 32, n) →
        (∃ j ∈ i :: is, e.1 = j * entrySize % 2 ^ 32) ∧ e.2 ≤ gptEntrySize := by
      rintro n hn rfl
      exact ⟨⟨i, List.mem_cons_self, rfl⟩, hn⟩
    rw [gptExamined] at he
    split_ifs at he
    · rcases List.mem_cons.mp he with he | he
      · exact hfirst 16 (by decide) he
      · exact hrest he
    · exact hfirst 16 (by decide) (List.mem_singleton.mp he)
    · rcases List.mem_cons.mp he with he | he
      · exact hfirst 48 (by decide) he
      · split at he
        · exact absurd he List.not_mem_nil
        · exact hrest he

/-- The next `n` nodes can be registered one after the other. -/
structure DiskDev.Ready (d : DiskDev) (l : List ℕ) (n : ℕ) : Prop where
  chain : d.Chain l
  length_lt : l.length + n < word
  fresh : d.Fresh l n
  next_eq_zero : ∀ a ∈ d.nextAllocs n, (d.nodes a).next = 0

lemma DiskDev.Ready.pred {l : List ℕ} {n : ℕ} (h : d.Ready l (n + 1)) : d.Ready l n := by
  have hsplit : d.nextAllocs (n + 1) = d.nextAllocs n ++ [d.alloc (d.mallocs + n)] := by
    rw [nextAllocs, nextAllocs, List.range'_1_concat, List.map_append]
    rfl
  have hmem : ∀ a ∈ d.nextAllocs n, a ∈ d.nextAllocs (n + 1) := fun a ha => by
    rw [hsplit]
    exact List.mem_append_left _ ha
  refine ⟨h.chain, by have := h.length_lt; omega,
    ⟨fun a ha => h.fresh.ne_zero a (hmem a ha), ?_⟩, fun a ha => h.next_eq_zero a (hmem a ha)⟩
  have hnodup := h.fresh.nodup
  rw [hsplit, ← List.append_assoc] at hnodup
  exact hnodup.of_append_left

/-- Registering the next node leaves the others ready. -/
lemma DiskDev.Ready.addPartition {l : List ℕ} {n : ℕ} {f : Partition → Partition}
    (h : d.Ready l (n + 1)) (hdisk : ∀ p, (f p).disk ≠ 0) :
    ∃ d', d.addPartition f = some d' ∧ d'.Ready (l ++ [d.alloc d.mallocs]) n := by
  have hlen := h.length_lt
  obtain ⟨d', hd', hl', hfresh, -, -, hallocs, -, -, hsame⟩ := addPartition_of_chain h.chain
    (by omega) h.fresh hdisk (h.next_eq_zero _ (by rw [nextAllocs_succ]; exact List.mem_cons_self))
  refine ⟨d', hd', hl', ?_, hfresh, fun a ha => ?_⟩
  · rw [List.length_append, List.length_singleton]
    omega
  · have hnodup := hfresh.nodup
    have hal : a ∉ l ++ [d.alloc d.mallocs] := fun hmem =>
      (List.nodup_append.mp hnodup).2.2 a hmem a ha rfl
    rw [List.mem_append, List.mem_singleton, not_or] at hal
    rw [hsame a hal.1 hal.2]
    rw [hallocs] at ha
    exact h.next_eq_zero a (by rw [nextAllocs_succ]; exact List.mem_cons_of_mem _ ha)

/-- **With nodes for all of them, all entries are examined.** -/
lemma gptExamined_of_ready {l : List ℕ} (hdev : dev ≠ 0) (h : d.Ready l is.length) :
    (gptExamined dev array entrySize is d).map Prod.fst =
      is.map fun i => i * entrySize % 2 ^ 32 := by
  induction is generalizing d l with
  | nil => rfl
  | cons i is ih =>
    rw [List.length_cons] at h
    rw [gptExamined, List.map_cons]
    split_ifs with hempty hnull
    · rw [List.map_cons, ih h.pred]
    · exact absurd hnull h.fresh.head.1
    · obtain ⟨d', hd', hready⟩ := h.addPartition
        (f := fun _ => gptPartition dev array (i * entrySize % 2 ^ 32) i) fun _ => hdev
      rw [DiskDev.addPartition] at hd'
      rw [hd', List.map_cons]
      exact congrArg _ (ih hready)

end Examined

/-! ## When all accesses are inside -/

section Safe

variable {io : DiskIo} {d : DiskDev} {header array buffer : Memory} {reads : List GptAccess}

/-- An access to the first bytes of the header. -/
lemma inside_header {a : GptAccess} (ha : a ∈ [(⟨512, 0, 8⟩ : GptAccess), ⟨512, 16, 4⟩,
    ⟨512, 12, 4⟩, ⟨512, 80, 4⟩, ⟨512, 84, 4⟩, ⟨512, 72, 8⟩, ⟨512, 88, 4⟩]) : a.Inside := by
  revert a
  simp only [List.forall_mem_cons, GptAccess.Inside]
  decide

/-- If the sizes fit, the accesses behind the first check are inside. -/
lemma GptHeader.Fits.safe (h : GptHeader.Fits io header) (hcrc : GptHeader.crcOk header = true)
    (hreads : ∀ a ∈ reads, a.Inside) : (gptArrayTrace io d header reads).Safe := by
  have hfields : ∀ a ∈ reads ++ [⟨512, 80, 4⟩, ⟨512, 84, 4⟩, ⟨512, 72, 8⟩], a.Inside := by
    intro a ha
    rcases List.mem_append.mp ha with ha | ha
    · exact hreads a ha
    · exact inside_header (by simp only [List.mem_cons, List.not_mem_nil] at ha ⊢; tauto)
  have hstop : ∀ rs : List GptAccess, (∀ a ∈ rs, a.Inside) → GptTrace.Safe ⟨rs, []⟩ := fun rs hrs =>
    ⟨hrs, fun a ha => absurd ha List.not_mem_nil⟩
  -- the checksum of the array, and the field it is compared with
  have hchecked : ∀ size, GptHeader.arraySize header ≤ size →
      ∀ a ∈ reads ++ [⟨512, 80, 4⟩, ⟨512, 84, 4⟩, ⟨512, 72, 8⟩] ++
        [⟨size, 0, GptHeader.arraySize header⟩, ⟨512, 88, 4⟩], a.Inside := by
    intro size hsize a ha
    rcases List.mem_append.mp ha with ha | ha
    · exact hfields a ha
    · rcases List.mem_cons.mp ha with rfl | ha
      · exact (Nat.zero_add _).le.trans hsize
      · exact inside_header (by simp only [List.mem_cons, List.not_mem_nil] at ha ⊢; tauto)
  rw [gptArrayTrace]
  cases hdma : io.dmalloc32 (GptHeader.arraySize header) with
  | none =>
    dsimp only
    split_ifs with hok
    · exact hstop _ (hchecked 0 (h.granted hcrc hdma hok).le)
    · exact hstop _ hfields
  | some buffer =>
    dsimp only
    cases hread : io.readSectors (GptHeader.partitionEntryLba header)
      (GptHeader.sectorsToRead header) buffer with
    | none => exact hstop _ hfields
    | some array =>
      dsimp only
      split_ifs with harray
      · have hinside : ∀ e ∈ gptExamined d.addr array (GptHeader.sizeofPartitionEntry header)
            (List.range (GptHeader.numPartitionEntries header)) d,
            e.1 + gptEntrySize ≤ GptHeader.arraySize header ∧ e.2 ≤ gptEntrySize := by
          intro e he
          obtain ⟨⟨i, hi, hei⟩, hle⟩ := mem_gptExamined he
          refine ⟨?_, hle⟩
          rw [hei]
          exact h.entries hcrc array ⟨⟨buffer, hdma, hread⟩, harray⟩ i (List.mem_range.mp hi)
        refine ⟨fun a ha => ?_, fun a ha => ?_⟩
        · rcases List.mem_append.mp ha with ha | ha
          · exact hchecked _ le_rfl a ha
          · obtain ⟨e, he, rfl⟩ := List.mem_map.mp ha
            have := hinside e he
            rw [GptAccess.Inside]
            dsimp only
            omega
        · obtain ⟨e, he, rfl⟩ := List.mem_map.mp ha
          exact (hinside e he).1
      · exact hstop _ (hchecked _ le_rfl)

/-- If the sizes fit, all accesses are inside. -/
lemma GptFits.safe (h : GptFits io) (d : DiskDev) : (gptTrace io d).Safe := by
  have hnone : GptTrace.Safe ⟨[], []⟩ := ⟨by simp, by simp⟩
  rw [gptTrace]
  cases hdma : io.dmalloc32 512 with
  | none => exact hnone
  | some buffer =>
    dsimp only
    cases hread : io.readSectors 1 1 buffer with
    | none => exact hnone
    | some header =>
      dsimp only
      by_cases hsig : GptHeader.signature header = efiPart
      · have hfits := h buffer header hdma hread hsig
        have hreads : ∀ a ∈ [(⟨512, 0, 8⟩ : GptAccess), ⟨512, 16, 4⟩, ⟨512, 12, 4⟩,
            ⟨512, 0, GptHeader.headerSize header⟩], a.Inside := by
          have := hfits.headerSize
          simp only [List.forall_mem_cons, GptAccess.Inside]
          simp
          omega
        rw [if_neg (not_not.mpr hsig)]
        split_ifs with hcrc
        · exact hfits.safe hcrc hreads
        · exact ⟨hreads, by simp⟩
      · rw [if_pos hsig]
        exact ⟨by simp [GptAccess.Inside], by simp⟩

/-- The accesses up to the fields of the array. -/
lemma mem_gptArrayTrace {a : GptAccess}
    (ha : a ∈ reads ++ [⟨512, 80, 4⟩, ⟨512, 84, 4⟩, ⟨512, 72, 8⟩]) :
    a ∈ (gptArrayTrace io d header reads).reads := by
  rw [gptArrayTrace]
  dsimp only
  split
  · split_ifs
    · exact List.mem_append_left _ ha
    · exact ha
  · split
    · exact ha
    · split_ifs
      · exact List.mem_append_left _ (List.mem_append_left _ ha)
      · exact List.mem_append_left _ ha

/-- The trace of a call that finds a header with the signature. -/
lemma gptTrace_of_header (hdma : io.dmalloc32 512 = some buffer)
    (hread : io.readSectors 1 1 buffer = some header)
    (hsig : GptHeader.signature header = efiPart) :
    gptTrace io d = if ¬ GptHeader.crcOk header then
        ⟨[⟨512, 0, 8⟩, ⟨512, 16, 4⟩, ⟨512, 12, 4⟩, ⟨512, 0, GptHeader.headerSize header⟩], []⟩
      else gptArrayTrace io d header
        [⟨512, 0, 8⟩, ⟨512, 16, 4⟩, ⟨512, 12, 4⟩, ⟨512, 0, GptHeader.headerSize header⟩] := by
  rw [gptTrace, hdma]
  dsimp only
  rw [hread]
  dsimp only
  rw [if_neg (not_not.mpr hsig)]

/-- The checksum of the header is computed before anything is known about it. -/
lemma headerSize_mem (hdma : io.dmalloc32 512 = some buffer)
    (hread : io.readSectors 1 1 buffer = some header)
    (hsig : GptHeader.signature header = efiPart) :
    (⟨512, 0, GptHeader.headerSize header⟩ : GptAccess) ∈ (gptTrace io d).reads := by
  rw [gptTrace_of_header hdma hread hsig]
  split_ifs
  · exact mem_gptArrayTrace (by simp)
  · simp

lemma headerSize_of_safe (hdma : io.dmalloc32 512 = some buffer)
    (hread : io.readSectors 1 1 buffer = some header) (hsig : GptHeader.signature header = efiPart)
    (hsafe : (gptTrace io d).Safe) : GptHeader.headerSize header ≤ 512 := by
  simpa [GptAccess.Inside] using hsafe.reads _ (headerSize_mem hdma hread hsig)

/-- If all accesses are inside whatever the device, the sizes fit. -/
lemma GptHeader.Fits.of_safe (hdma : io.dmalloc32 512 = some buffer)
    (hread : io.readSectors 1 1 buffer = some header) (hsig : GptHeader.signature header = efiPart)
    (hsafe : (gptTrace io d).Safe) (hdev : d.addr ≠ 0)
    (hready : d.Ready [] (GptHeader.numPartitionEntries header)) : GptHeader.Fits io header := by
  refine ⟨headerSize_of_safe hdma hread hsig hsafe, fun hcrc hnone hok => ?_,
    fun hcrc array harray i hi => ?_⟩
  all_goals rw [gptTrace_of_header hdma hread hsig, if_neg (not_not.mpr hcrc)] at hsafe
  · have hmem : (⟨0, 0, GptHeader.arraySize header⟩ : GptAccess) ∈ (gptArrayTrace io d header
        [⟨512, 0, 8⟩, ⟨512, 16, 4⟩, ⟨512, 12, 4⟩,
          ⟨512, 0, GptHeader.headerSize header⟩]).reads := by
      rw [gptArrayTrace, hnone]
      dsimp only
      rw [if_pos hok]
      simp
    simpa [GptAccess.Inside] using hsafe.reads _ hmem
  · obtain ⟨⟨arrayRes, hdma', hread'⟩, hok⟩ := harray
    have hall : (gptExamined d.addr array (GptHeader.sizeofPartitionEntry header)
        (List.range (GptHeader.numPartitionEntries header)) d).map Prod.fst =
        (List.range (GptHeader.numPartitionEntries header)).map fun i =>
          i * GptHeader.sizeofPartitionEntry header % 2 ^ 32 :=
      gptExamined_of_ready hdev (by rwa [List.length_range])
    have hmem : i * GptHeader.sizeofPartitionEntry header % 2 ^ 32 ∈
        (gptExamined d.addr array (GptHeader.sizeofPartitionEntry header)
          (List.range (GptHeader.numPartitionEntries header)) d).map Prod.fst := by
      rw [hall]
      exact List.mem_map.mpr ⟨i, List.mem_range.mpr hi, rfl⟩
    obtain ⟨e, he, hei⟩ := List.mem_map.mp hmem
    have hentry : (⟨GptHeader.arraySize header, e.1, gptEntrySize⟩ : GptAccess) ∈
        (gptArrayTrace io d header [⟨512, 0, 8⟩, ⟨512, 16, 4⟩, ⟨512, 12, 4⟩,
          ⟨512, 0, GptHeader.headerSize header⟩]).entries := by
      rw [gptArrayTrace, hdma']
      dsimp only
      rw [hread']
      dsimp only
      rw [if_neg (not_not.mpr hok)]
      exact List.mem_map.mpr ⟨e, he, rfl⟩
    rw [← hei]
    exact hsafe.entries _ hentry

end Safe

/-! ## What is not read makes no difference -/

section Congr

open Memory

variable {dev entrySize : ℕ} {array array' header header' buffer : Memory} {is : List ℕ}
  {d : DiskDev} {io io' : DiskIo}

/-- The loop depends on what it reads of the entries. -/
lemma gptLoop_congr (h : ∀ e ∈ gptExamined dev array entrySize is d, SameAt array' array e) :
    gptLoop dev array' entrySize is d = gptLoop dev array entrySize is d := by
  induction is generalizing d with
  | nil => rfl
  | cons i is ih =>
    rw [gptExamined] at h
    rw [gptLoop, gptLoop]
    generalize i * entrySize % 2 ^ 32 = a at h ⊢
    have htype : gptTypeGuid array' a = gptTypeGuid array a := by
      refine SameAt.bytesAt_eq ?_
      split_ifs at h
      · exact h _ List.mem_cons_self
      · exact h _ List.mem_cons_self
      · exact (h _ List.mem_cons_self).mono le_rfl (by omega)
    rw [htype]
    split_ifs at h ⊢ with hempty hfull
    · rw [List.forall_mem_cons] at h
      exact ih h.2
    · rfl
    · rw [List.forall_mem_cons] at h
      obtain ⟨hfields, hrest⟩ := h
      have hfirst : array'.load (a + 32) 8 = array.load (a + 32) 8 :=
        (hfields.mono (by omega) (by omega)).load_eq
      have hlast : array'.load (a + 40) 8 = array.load (a + 40) 8 :=
        (hfields.mono (by omega) (by omega)).load_eq
      have hnode : gptPartition dev array' a i = gptPartition dev array a i := by
        rw [gptPartition, gptPartition, hfirst, hlast, htype]
      rw [hnode]
      cases hregister : (d.mallocNode.2.setPart d.mallocNode.1
          fun _ => gptPartition dev array a i).partitionRegister d.mallocNode.1 with
      | none => rfl
      | some d' =>
        rw [hregister] at hrest
        exact ih hrest

/-- Two disks with the same answers and memory for buffers: what is read into a buffer of a size
agrees where the trace of the first one accesses buffers of this size. -/
structure DiskIo.SameReads (io io' : DiskIo) (d : DiskDev) : Prop where
  dmalloc32 : io'.dmalloc32 = io.dmalloc32
  readOk : io'.readOk = io.readOk
  header : ∀ buffer header header', io.dmalloc32 512 = some buffer →
    io.readSectors 1 1 buffer = some header → io'.readSectors 1 1 buffer = some header' →
    ∀ a ∈ (gptTrace io d).reads, a.size = 512 → SameAt header' header (a.offset, a.length)
  array : ∀ buffer header, io.dmalloc32 512 = some buffer →
    io.readSectors 1 1 buffer = some header → ∀ buffer' array array',
    io.dmalloc32 (GptHeader.arraySize header) = some buffer' →
    io.readSectors (GptHeader.partitionEntryLba header) (GptHeader.sectorsToRead header) buffer' =
      some array →
    io'.readSectors (GptHeader.partitionEntryLba header) (GptHeader.sectorsToRead header) buffer' =
      some array' →
    ∀ a ∈ (gptTrace io d).reads, a.size = GptHeader.arraySize header →
      SameAt array' array (a.offset, a.length)

/-- The checksum of the header depends on the bytes it covers, and the fields of its size and of the
checksum. -/
lemma GptHeader.crcOk_congr (hsize : SameAt header' header (12, 4))
    (hcrc : SameAt header' header (16, 4))
    (hall : SameAt header' header (0, GptHeader.headerSize header)) :
    GptHeader.crcOk header' = GptHeader.crcOk header := by
  have hsize' : GptHeader.headerSize header' = GptHeader.headerSize header := hsize.load_eq
  have hcrc' : GptHeader.headerCrc32 header' = GptHeader.headerCrc32 header := hcrc.load_eq
  rw [GptHeader.crcOk, GptHeader.crcOk, hsize', hcrc']
  congr 2
  refine crc32_congr fun i hi => ?_
  rw [store, store]
  split_ifs
  · rfl
  · exact hall (0 + i) (Nat.zero_le _) (by dsimp only; omega)

/-- Where the entries are depends on three fields. -/
lemma GptHeader.fields_congr (hnum : SameAt header' header (80, 4))
    (hentry : SameAt header' header (84, 4)) (hlba : SameAt header' header (72, 8)) :
    GptHeader.numPartitionEntries header' = GptHeader.numPartitionEntries header ∧
      GptHeader.sizeofPartitionEntry header' = GptHeader.sizeofPartitionEntry header ∧
      GptHeader.partitionEntryLba header' = GptHeader.partitionEntryLba header ∧
      GptHeader.arraySize header' = GptHeader.arraySize header ∧
      GptHeader.sectorsToRead header' = GptHeader.sectorsToRead header := by
  have hnum' : GptHeader.numPartitionEntries header' = GptHeader.numPartitionEntries header :=
    hnum.load_eq
  have hentry' : GptHeader.sizeofPartitionEntry header' = GptHeader.sizeofPartitionEntry header :=
    hentry.load_eq
  have hsize : GptHeader.arraySize header' = GptHeader.arraySize header := by
    rw [GptHeader.arraySize, GptHeader.arraySize, hnum', hentry']
  refine ⟨hnum', hentry', hlba.load_eq, hsize, ?_⟩
  rw [GptHeader.sectorsToRead, GptHeader.sectorsToRead, hsize]

/-- The checksum of the array depends on the bytes it covers. -/
lemma GptHeader.arrayCrcOk_congr (hsize : GptHeader.arraySize header' = GptHeader.arraySize header)
    (hcrc : SameAt header' header (88, 4))
    (hall : SameAt array' array (0, GptHeader.arraySize header)) :
    GptHeader.arrayCrcOk header' array' = GptHeader.arrayCrcOk header array := by
  have hcrc' : GptHeader.partitionEntryArrayCrc32 header' =
      GptHeader.partitionEntryArrayCrc32 header := hcrc.load_eq
  rw [GptHeader.arrayCrcOk, GptHeader.arrayCrcOk, hsize, hcrc']
  congr 2
  exact crc32_congr fun i hi => hall (0 + i) (Nat.zero_le _) (by dsimp only; omega)

lemma signature_mem (hdma : io.dmalloc32 512 = some buffer)
    (hread : io.readSectors 1 1 buffer = some header) :
    (⟨512, 0, 8⟩ : GptAccess) ∈ (gptTrace io d).reads := by
  by_cases hsig : GptHeader.signature header = efiPart
  · rw [gptTrace_of_header hdma hread hsig]
    split_ifs
    · exact mem_gptArrayTrace (by simp)
    · simp
  · rw [gptTrace, hdma]
    dsimp only
    rw [hread]
    dsimp only
    rw [if_pos hsig]
    exact List.mem_singleton_self _

lemma gptArrayTrace_of_array {reads : List GptAccess}
    (hdma : io.dmalloc32 (GptHeader.arraySize header) = some buffer)
    (hread : io.readSectors (GptHeader.partitionEntryLba header) (GptHeader.sectorsToRead header)
      buffer = some array) : gptArrayTrace io d header reads =
    let reads := reads ++ [⟨512, 80, 4⟩, ⟨512, 84, 4⟩, ⟨512, 72, 8⟩] ++
      [⟨GptHeader.arraySize header, 0, GptHeader.arraySize header⟩, ⟨512, 88, 4⟩]
    let examined := gptExamined d.addr array (GptHeader.sizeofPartitionEntry header)
      (List.range (GptHeader.numPartitionEntries header)) d
    if ¬ GptHeader.arrayCrcOk header array then ⟨reads, []⟩
    else ⟨reads ++ examined.map (fun e => ⟨GptHeader.arraySize header, e.1, e.2⟩),
      examined.map fun e => ⟨GptHeader.arraySize header, e.1, gptEntrySize⟩⟩ := by
  rw [gptArrayTrace]
  dsimp only
  rw [hdma]
  dsimp only
  rw [hread]

/-- The two reads of a sector end alike. -/
lemma readSectors_cases (hok : io'.readOk = io.readOk) (lba count : ℕ) (buffer : Memory) :
    io.readSectors lba count buffer = none ∧ io'.readSectors lba count buffer = none ∨
      ∃ m m', io.readSectors lba count buffer = some m ∧
        io'.readSectors lba count buffer = some m' := by
  rw [DiskIo.readSectors, DiskIo.readSectors, hok]
  split_ifs
  · exact .inr ⟨_, _, rfl, rfl⟩
  · exact .inl ⟨rfl, rfl⟩

/-- **`gpt_parse` depends on nothing of the disk but `gptTrace`.** -/
lemma gptParse_congr (h : io.SameReads io' d) : gptParse io' d = gptParse io d := by
  rw [gptParse, gptParse, h.dmalloc32]
  cases hdma : io.dmalloc32 512 with
  | none => rfl
  | some buffer =>
    dsimp only [Option.bind_some]
    rcases readSectors_cases h.readOk 1 1 buffer with ⟨hread, hread'⟩ |
      ⟨header, header', hread, hread'⟩
    · rw [hread, hread']
    have hreads := h.header buffer header header' hdma hread hread'
    rw [hread, hread']
    dsimp only
    have hsig' : GptHeader.signature header' = GptHeader.signature header :=
      (hreads ⟨512, 0, 8⟩ (signature_mem hdma hread) rfl).bytesAt_eq
    rw [hsig']
    by_cases hsig : GptHeader.signature header = efiPart
    swap
    · rw [if_pos hsig, if_pos hsig]
    rw [if_neg (not_not.mpr hsig), if_neg (not_not.mpr hsig)]
    have harray := h.array buffer header hdma hread
    rw [gptTrace_of_header hdma hread hsig] at hreads harray
    have hfirst : ∀ a ∈ [(⟨512, 0, 8⟩ : GptAccess), ⟨512, 16, 4⟩, ⟨512, 12, 4⟩,
        ⟨512, 0, GptHeader.headerSize header⟩], a.size = 512 →
        SameAt header' header (a.offset, a.length) := by
      intro a ha
      refine hreads a ?_
      split_ifs
      · exact mem_gptArrayTrace (List.mem_append_left _ ha)
      · exact ha
    have hcrc' := GptHeader.crcOk_congr (hfirst ⟨512, 12, 4⟩ (by simp) rfl)
      (hfirst ⟨512, 16, 4⟩ (by simp) rfl)
      (hfirst ⟨512, 0, GptHeader.headerSize header⟩ (by simp) rfl)
    rw [hcrc']
    by_cases hcrc : GptHeader.crcOk header = true
    swap
    · rw [if_pos hcrc, if_pos hcrc]
    rw [if_neg (not_not.mpr hcrc)] at hreads harray
    rw [if_neg (not_not.mpr hcrc), if_neg (not_not.mpr hcrc)]
    have hfields : ∀ a ∈ [(⟨512, 80, 4⟩ : GptAccess), ⟨512, 84, 4⟩, ⟨512, 72, 8⟩], a.size = 512 →
        SameAt header' header (a.offset, a.length) := fun a ha =>
      hreads a (mem_gptArrayTrace (List.mem_append_right _ ha))
    obtain ⟨hnum, hentry, hlba, hsize, hcount⟩ := GptHeader.fields_congr
      (hfields ⟨512, 80, 4⟩ (by simp) rfl) (hfields ⟨512, 84, 4⟩ (by simp) rfl)
      (hfields ⟨512, 72, 8⟩ (by simp) rfl)
    rw [hsize, hlba, hcount, hnum, hentry]
    cases hdma' : io.dmalloc32 (GptHeader.arraySize header) with
    | none => rfl
    | some arrayRes =>
      dsimp only [Option.bind_some]
      rcases readSectors_cases h.readOk (GptHeader.partitionEntryLba header)
        (GptHeader.sectorsToRead header) arrayRes with ⟨hr, hr'⟩ | ⟨array, array', hr, hr'⟩
      · rw [hr, hr']
      rw [hr, hr']
      dsimp only
      have hsame := harray arrayRes array array' hdma' hr hr'
      rw [gptArrayTrace_of_array hdma' hr] at hreads hsame
      have hok : GptHeader.arrayCrcOk header' array' = GptHeader.arrayCrcOk header array := by
        refine GptHeader.arrayCrcOk_congr hsize (hreads ⟨512, 88, 4⟩ ?_ rfl)
          (hsame ⟨GptHeader.arraySize header, 0, GptHeader.arraySize header⟩ ?_ rfl)
        all_goals split_ifs <;> simp
      rw [hok]
      split_ifs at hsame ⊢ with hvalid
      · refine gptLoop_congr fun e he => hsame ⟨_, e.1, e.2⟩ ?_ rfl
        exact List.mem_append_right _ (List.mem_map_of_mem he)
      · rfl

end Congr

/-! ## The result -/

/-- A device without partitions, and with nodes for as many as there can be, is ready for them. -/
lemma ready_bareDevice {n : ℕ} (hn : n < word) : bareDevice.Ready [] n := by
  have hallocs : bareDevice.nextAllocs n = (List.range' 0 n).map fun i => 16 * (i + 1) := rfl
  refine ⟨.nil, by simpa using hn, ⟨fun a ha => ?_, ?_⟩, fun _ _ => rfl⟩
  · rw [hallocs] at ha
    obtain ⟨i, -, rfl⟩ := List.mem_map.mp ha
    omega
  · rw [List.nil_append, hallocs]
    exact (List.nodup_range').map fun i j hij => by simpa using hij

/-- **`gpt_parse` reads inside its buffers**, whatever the heap and the list of partitions, exactly
on the disks whose header gives sizes that fit: `header_size` is at most a sector, and every entry
is in the array of `num_partition_entries * sizeof_partition_entry` bytes modulo `2 ^ 32`, where the
place of an entry wraps in the same way. -/
theorem gptTrace_safe_iff (io : DiskIo) :
    (∀ d : DiskDev, d.addr ≠ 0 → (gptTrace io d).Safe) ↔ GptFits io := by
  refine ⟨fun hsafe buffer header hdma hread hsig => ?_, fun h d _ => h.safe d⟩
  have hn : GptHeader.numPartitionEntries header < word :=
    (Memory.load_lt _ _ _).trans (by decide)
  exact .of_safe hdma hread hsig (hsafe bareDevice (by decide)) (by decide) (ready_bareDevice hn)

/-- A disk whose header says that it is one byte longer than a sector. -/
def longHeaderDisk : DiskIo where
  bytes := fun x => (efiPart ++ [0, 0, 1, 0, 1, 2]).getD (x - 512) 0
  totalSectors := 4096
  readOk := fun _ _ => true
  dmalloc32 := fun _ => some fun _ => 0

/-- The checksum of that header covers a byte behind the buffer. -/
theorem gptTrace_longHeaderDisk :
    (⟨512, 0, 513⟩ : GptAccess) ∈ (gptTrace longHeaderDisk bareDevice).reads ∧
      ¬ ∀ io : DiskIo, ∀ d : DiskDev, d.addr ≠ 0 → (gptTrace io d).Safe := by
  have hread : longHeaderDisk.readSectors 1 1 (fun _ => 0) =
      some (Memory.copyFrom (fun _ => 0) 0 512 longHeaderDisk.bytes 512) := rfl
  have hsize : GptHeader.headerSize
      (Memory.copyFrom (fun _ => 0) 0 512 longHeaderDisk.bytes 512) = 513 := by decide +kernel
  have hmem : (⟨512, 0, 513⟩ : GptAccess) ∈ (gptTrace longHeaderDisk bareDevice).reads := by
    rw [← hsize]
    exact headerSize_mem rfl hread (by decide +kernel)
  refine ⟨hmem, fun hall => ?_⟩
  have hinside := (hall longHeaderDisk bareDevice (by decide)).reads _ hmem
  exact absurd hinside (by unfold GptAccess.Inside; decide)

end Cuore
