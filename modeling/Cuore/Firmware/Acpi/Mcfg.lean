import Cuore.Framework.Bytes
import Cuore.Framework.Word

/-!
# Configuration space of PCI devices (`firmware/acpi/mcfg.c`)

The MCFG table says at which physical address the configuration space of each range of buses lies.
`mcfg_get_device_addr` looks for the first entry with the segment and the bus of a device, and
computes the address of the device from it.

Before it looks, it tries the first entry of the table if that is one of segment zero, and there it
compares with the last bus of the range only.  A bus below the first one of that range is then taken
for one of it, and its distance from the first bus, computed in 32 bits, wraps.
`mcfgAgrees_iff` says for which buses the answer is that of the scan nevertheless.
-/

namespace Cuore

/-! ## The code -/

/-- The fields of `struct mcfg_entry` that are read. -/
structure McfgEntry where
  baseAddress : ℕ
  segmentGroup : ℕ
  startBus : ℕ
  endBus : ℕ
  deriving DecidableEq, Repr

/-- `sizeof(struct mcfg_table)`: the header of an ACPI table and eight reserved bytes. -/
def mcfgTableSize : ℕ := 44

/-- `sizeof(struct mcfg_entry)`, which is packed. -/
def mcfgEntrySize : ℕ := 16

/-- The entry at a pointer. -/
def readMcfgEntry (m : Memory) (p : ℕ) : McfgEntry where
  baseAddress := m.load p 8
  segmentGroup := m.load (p + 8) 2
  startBus := m.load (p + 10) 1
  endBus := m.load (p + 11) 1

/-- `&table->entries[i]`. -/
def mcfgEntryAddr (table i : ℕ) : ℕ := table + mcfgTableSize + i * mcfgEntrySize

/-- The static variables. -/
structure Mcfg where
  mcfgPtr : ℕ
  mcfgEntryCount : ℕ
  primaryEntry : ℕ
  mcfgIsInitialized : Bool

/-- The static variables as they are loaded. -/
def Mcfg.empty : Mcfg := ⟨0, 0, 0, false⟩

/-- `mcfg_init`. -/
def mcfgInit (m : Memory) (acpiTab : ℕ) (s : Mcfg) : Mcfg :=
  let tableSize := m.load (acpiTab + 4) 4
  let count := wsub tableSize mcfgTableSize / mcfgEntrySize
  { mcfgPtr := acpiTab
    mcfgEntryCount := count
    primaryEntry :=
      if count > 0 ∧ (readMcfgEntry m (mcfgEntryAddr acpiTab 0)).segmentGroup = 0 then
        mcfgEntryAddr acpiTab 0
      else s.primaryEntry
    mcfgIsInitialized := true }

/-- The entry has this segment, and its buses contain this one. -/
def McfgEntry.Covers (segment bus : ℕ) (e : McfgEntry) : Prop :=
  e.segmentGroup = segment ∧ bus ≥ e.startBus ∧ bus ≤ e.endBus

instance (segment bus : ℕ) (e : McfgEntry) : Decidable (e.Covers segment bus) :=
  inferInstanceAs (Decidable (_ ∧ _ ∧ _))

/-- The loop of `mcfg_get_device_addr`, with `n` entries left from entry `i` on. -/
def mcfgScan (m : Memory) (table segment bus : ℕ) : ℕ → ℕ → ℕ
  | 0, _ => 0
  | n + 1, i =>
    if (readMcfgEntry m (mcfgEntryAddr table i)).Covers segment bus then mcfgEntryAddr table i
    else mcfgScan m table segment bus n (i + 1)

/-- `entry`, in `mcfg_get_device_addr`: the shortcut, or the loop. -/
def mcfgEntryOf (m : Memory) (s : Mcfg) (segment bus : ℕ) : ℕ :=
  if s.primaryEntry ≠ 0 ∧ segment = 0 ∧ bus ≤ (readMcfgEntry m s.primaryEntry).endBus then
    s.primaryEntry
  else mcfgScan m s.mcfgPtr segment bus s.mcfgEntryCount 0

/-- `mcfg_get_device_addr`. -/
def mcfgGetDeviceAddr (m : Memory) (hhdmOffset : ℕ) (s : Mcfg) (segment bus slot func : ℕ) : ℕ :=
  if s.mcfgPtr = 0 then 0
  else
    let entry := mcfgEntryOf m s segment bus
    if entry = 0 then 0
    else
      let e := readMcfgEntry m entry
      let base := wadd e.baseAddress hhdmOffset
      -- an `int` difference, as a `uint32_t`
      let busOff := (bus + 2 ^ 32 - e.startBus) % 2 ^ 32
      wadd base (busOff <<< 20 % 2 ^ 32 ||| slot <<< 15 ||| func <<< 12)

/-! ## The table -/

/-- The entries of the table. -/
def mcfgEntries (m : Memory) (table : ℕ) : List McfgEntry :=
  (List.range ((m.load (table + 4) 4 - mcfgTableSize) / mcfgEntrySize)).map fun i =>
    readMcfgEntry m (mcfgEntryAddr table i)

/-- The first entry for a bus. -/
def mcfgEntryFor (m : Memory) (table segment bus : ℕ) : Option McfgEntry :=
  (mcfgEntries m table).find? fun e => e.Covers segment bus

/-- The address of a device on one of the buses of an entry. -/
def McfgEntry.deviceAddr (e : McfgEntry) (hhdmOffset bus slot func : ℕ) : ℕ :=
  (e.baseAddress + hhdmOffset + ((bus - e.startBus) <<< 20 ||| slot <<< 15 ||| func <<< 12)) % word

/-- The address of every device of a bus is that computed from the first entry for the bus, and
null if and only if there is none. -/
def McfgAgrees (m : Memory) (table hhdmOffset segment bus : ℕ) : Prop :=
  ∀ slot < 32, ∀ func < 8,
    (∀ e, mcfgEntryFor m table segment bus = some e →
      mcfgGetDeviceAddr m hhdmOffset (mcfgInit m table .empty) segment bus slot func =
        e.deviceAddr hhdmOffset bus slot func) ∧
    (mcfgGetDeviceAddr m hhdmOffset (mcfgInit m table .empty) segment bus slot func = 0 ↔
      mcfgEntryFor m table segment bus = none)

/-- The bus is in front of those of the first entry of the table, in the segment that the shortcut
is for. -/
def BeforePrimary (m : Memory) (table segment bus : ℕ) (e : McfgEntry) : Prop :=
  (mcfgEntries m table).head? = some e ∧ e.segmentGroup = 0 ∧ segment = 0 ∧ bus < e.startBus

/-! ## Offsets of devices -/

section Offset

variable {a slot func : ℕ}

/-- Bus, slot and function occupy different bits. -/
lemma deviceOffset (hslot : slot < 32) (hfunc : func < 8) :
    a <<< 20 ||| slot <<< 15 ||| func <<< 12 = a * 2 ^ 20 + slot * 2 ^ 15 + func * 2 ^ 12 := by
  have hslot' : slot <<< 15 < 2 ^ 20 := by
    rw [Nat.shiftLeft_eq]
    omega
  have hfunc' : func <<< 12 < 2 ^ 15 := by
    rw [Nat.shiftLeft_eq]
    omega
  have hfirst : a <<< 20 ||| slot <<< 15 = (a * 2 ^ 5 + slot) <<< 15 := by
    rw [← Nat.shiftLeft_add_eq_or_of_lt hslot', Nat.shiftLeft_eq, Nat.shiftLeft_eq,
      Nat.shiftLeft_eq]
    ring
  rw [hfirst, ← Nat.shiftLeft_add_eq_or_of_lt hfunc', Nat.shiftLeft_eq, Nat.shiftLeft_eq]
  ring

/-- Twelve bits are left for the bus. -/
lemma shiftLeft_mod (a : ℕ) : (a % 2 ^ 32) <<< 20 % 2 ^ 32 = (a % 2 ^ 12) <<< 20 := by
  rw [Nat.shiftLeft_eq, Nat.shiftLeft_eq]
  omega

end Offset

/-! ## The scan -/

section Scan

variable {m : Memory} {table segment bus slot func hhdmOffset : ℕ} {s : Mcfg} {e e₀ : McfgEntry}

lemma mcfgEntryAddr_ne_zero (table i : ℕ) : mcfgEntryAddr table i ≠ 0 := by
  simp only [mcfgEntryAddr, mcfgTableSize]
  omega

/-- The scan finds the first entry for the bus. -/
lemma mcfgScan_spec (n i : ℕ) :
    match ((List.range' i n).map fun j => readMcfgEntry m (mcfgEntryAddr table j)).find?
        fun e => e.Covers segment bus with
    | none => mcfgScan m table segment bus n i = 0
    | some e => mcfgScan m table segment bus n i ≠ 0 ∧
        readMcfgEntry m (mcfgScan m table segment bus n i) = e := by
  induction n generalizing i with
  | zero => rfl
  | succ n ih =>
    rw [List.range'_succ, List.map_cons, mcfgScan]
    by_cases hc : (readMcfgEntry m (mcfgEntryAddr table i)).Covers segment bus
    · rw [List.find?_cons_of_pos (by simpa using hc), if_pos hc]
      exact ⟨mcfgEntryAddr_ne_zero table i, rfl⟩
    · rw [List.find?_cons_of_neg (by simpa using hc), if_neg hc]
      exact ih (i + 1)

lemma length_mcfgEntries (m : Memory) (table : ℕ) : (mcfgEntries m table).length =
    (m.load (table + 4) 4 - mcfgTableSize) / mcfgEntrySize := by
  rw [mcfgEntries, List.length_map, List.length_range]

/-- The first entry. -/
lemma head_mcfgEntries (m : Memory) (table : ℕ) : (mcfgEntries m table).head? =
    if 0 < (mcfgEntries m table).length then some (readMcfgEntry m (mcfgEntryAddr table 0))
    else none := by
  rw [length_mcfgEntries, mcfgEntries]
  generalize (m.load (table + 4) 4 - mcfgTableSize) / mcfgEntrySize = n
  cases n with
  | zero => rfl
  | succ n => rw [List.range_succ_eq_map, if_pos n.succ_pos, List.map_cons, List.head?_cons]

/-- What `mcfg_init` finds in a table with a header. -/
lemma mcfgInit_eq (hlen : mcfgTableSize ≤ m.load (table + 4) 4) : mcfgInit m table .empty =
    { mcfgPtr := table
      mcfgEntryCount := (mcfgEntries m table).length
      primaryEntry := if ∃ e, (mcfgEntries m table).head? = some e ∧ e.segmentGroup = 0 then
        mcfgEntryAddr table 0 else 0
      mcfgIsInitialized := true } := by
  have hlt : m.load (table + 4) 4 < word := (Memory.load_lt _ _ _).trans (by decide)
  have hcount : wsub (m.load (table + 4) 4) mcfgTableSize / mcfgEntrySize =
      (mcfgEntries m table).length := by
    rw [length_mcfgEntries, wsub_of_le hlen hlt]
  simp only [mcfgInit, Mcfg.empty, hcount, head_mcfgEntries, gt_iff_lt, Mcfg.mk.injEq, true_and,
    and_true]
  by_cases hpos : 0 < (mcfgEntries m table).length
  · simp [hpos]
  · simp [hpos]

/-- The address computed from the entry that is found. -/
lemma mcfgGetDeviceAddr_of_entry (htable : s.mcfgPtr ≠ 0) (hp : mcfgEntryOf m s segment bus ≠ 0)
    (he : readMcfgEntry m (mcfgEntryOf m s segment bus) = e) (hslot : slot < 32)
    (hfunc : func < 8) : mcfgGetDeviceAddr m hhdmOffset s segment bus slot func =
      (e.baseAddress + hhdmOffset +
        ((bus + 2 ^ 32 - e.startBus) % 2 ^ 12 * 2 ^ 20 + slot * 2 ^ 15 +
          func * 2 ^ 12)) % word := by
  rw [mcfgGetDeviceAddr, if_neg htable]
  dsimp only
  rw [if_neg hp, he, shiftLeft_mod, deviceOffset hslot hfunc, wadd, wadd, Nat.mod_add_mod]

lemma deviceAddr_eq (hslot : slot < 32) (hfunc : func < 8) :
    e.deviceAddr hhdmOffset bus slot func = (e.baseAddress + hhdmOffset +
      ((bus - e.startBus) * 2 ^ 20 + slot * 2 ^ 15 + func * 2 ^ 12)) % word := by
  rw [McfgEntry.deviceAddr, deviceOffset hslot hfunc]

/-- The shortcut is taken up to the last bus of the first entry, if that is one of segment zero. -/
def TakesPrimary (m : Memory) (table segment bus : ℕ) (e : McfgEntry) : Prop :=
  (mcfgEntries m table).head? = some e ∧ e.segmentGroup = 0 ∧ segment = 0 ∧ bus ≤ e.endBus

/-- Through the shortcut, the first entry is used. -/
lemma mcfgEntryOf_primary (hlen : mcfgTableSize ≤ m.load (table + 4) 4)
    (h : TakesPrimary m table segment bus e) :
    mcfgEntryOf m (mcfgInit m table .empty) segment bus = mcfgEntryAddr table 0 ∧
      readMcfgEntry m (mcfgEntryAddr table 0) = e := by
  obtain ⟨hhead, hseg, hzero, hend⟩ := h
  have hfirst : readMcfgEntry m (mcfgEntryAddr table 0) = e := by
    have hhead' := head_mcfgEntries m table
    rw [hhead] at hhead'
    split_ifs at hhead' with hpos
    exact (Option.some.inj hhead').symm
  refine ⟨?_, hfirst⟩
  have hprimary : (mcfgInit m table .empty).primaryEntry = mcfgEntryAddr table 0 := by
    rw [mcfgInit_eq hlen]
    exact if_pos ⟨e, hhead, hseg⟩
  rw [mcfgEntryOf, hprimary, if_pos ⟨mcfgEntryAddr_ne_zero table 0, hzero, by rwa [hfirst]⟩]

/-- Otherwise the entry is looked for. -/
lemma mcfgEntryOf_scan (hlen : mcfgTableSize ≤ m.load (table + 4) 4)
    (h : ∀ e, ¬ TakesPrimary m table segment bus e) :
    mcfgEntryOf m (mcfgInit m table .empty) segment bus =
      mcfgScan m table segment bus (mcfgEntries m table).length 0 := by
  rw [mcfgInit_eq hlen, mcfgEntryOf]
  dsimp only
  apply if_neg
  rintro ⟨hne, hzero, hend⟩
  split_ifs at hne hend with hex
  · obtain ⟨e, hhead, hseg⟩ := hex
    have hhead' := head_mcfgEntries m table
    rw [hhead] at hhead'
    split_ifs at hhead' with hpos
    rw [← Option.some.inj hhead'] at hend
    exact h e ⟨hhead, hseg, hzero, hend⟩
  · exact hne rfl

/-- **Without the shortcut, or rightly through it**, the address is that computed from the first
entry for the bus. -/
lemma mcfgGetDeviceAddr_of_not_before (htable : table ≠ 0)
    (hlen : mcfgTableSize ≤ m.load (table + 4) 4) (hbus : bus < 256)
    (hbefore : ∀ e, ¬ BeforePrimary m table segment bus e) (hslot : slot < 32) (hfunc : func < 8) :
    mcfgGetDeviceAddr m hhdmOffset (mcfgInit m table .empty) segment bus slot func =
      ((mcfgEntryFor m table segment bus).map fun e =>
        e.deviceAddr hhdmOffset bus slot func).getD 0 := by
  have hfound : ∀ {e p}, e.Covers segment bus → p ≠ 0 → readMcfgEntry m p = e →
      mcfgEntryOf m (mcfgInit m table .empty) segment bus = p →
      mcfgGetDeviceAddr m hhdmOffset (mcfgInit m table .empty) segment bus slot func =
        e.deviceAddr hhdmOffset bus slot func := by
    intro e p hc hp he heq
    have hoff : (bus + 2 ^ 32 - e.startBus) % 2 ^ 12 = bus - e.startBus := by
      have := hc.2.1
      omega
    rw [mcfgGetDeviceAddr_of_entry (e := e) htable (by rwa [heq]) (by rwa [heq]) hslot hfunc, hoff,
      deviceAddr_eq hslot hfunc]
  by_cases hfast : ∃ e, TakesPrimary m table segment bus e
  · obtain ⟨e, htake⟩ := hfast
    obtain ⟨hentry, hfirst⟩ := mcfgEntryOf_primary hlen htake
    obtain ⟨hhead, hseg, hzero, hend⟩ := htake
    have hstart : ¬ bus < e.startBus := fun hlt => hbefore e ⟨hhead, hseg, hzero, hlt⟩
    have hc : e.Covers segment bus := ⟨hseg.trans hzero.symm, not_lt.mp hstart, hend⟩
    have hfor : mcfgEntryFor m table segment bus = some e := by
      obtain ⟨l, hl⟩ := List.head?_eq_some_iff.mp hhead
      rw [mcfgEntryFor, hl, List.find?_cons_of_pos (by simpa using hc)]
    rw [hfor, hfound hc (mcfgEntryAddr_ne_zero table 0) hfirst hentry, Option.map_some,
      Option.getD_some]
  · have hentry := mcfgEntryOf_scan hlen (not_exists.mp hfast)
    have hscan := @mcfgScan_spec m table segment bus (mcfgEntries m table).length 0
    rw [← List.range_eq_range', length_mcfgEntries] at hscan
    change match mcfgEntryFor m table segment bus with | none => _ | some e => _ at hscan
    rw [← length_mcfgEntries] at hscan
    cases hfor : mcfgEntryFor m table segment bus with
    | none =>
      rw [hfor] at hscan
      exact (if_neg htable).trans (if_pos (hentry.trans hscan))
    | some e =>
      rw [hfor] at hscan
      have hc : e.Covers segment bus := by
        simpa using List.find?_some hfor
      rw [hfound hc hscan.1 hscan.2 hentry, Option.map_some, Option.getD_some]

lemma startBus_lt (h : e ∈ mcfgEntries m table) : e.startBus < 256 := by
  rw [mcfgEntries, List.mem_map] at h
  obtain ⟨i, -, rfl⟩ := h
  exact Memory.load_lt _ _ 1

/-- **Wrongly through the shortcut**, the bus is taken for one that is `2 ^ 12` further on. -/
lemma mcfgGetDeviceAddr_of_before (htable : table ≠ 0)
    (hlen : mcfgTableSize ≤ m.load (table + 4) 4)
    (hbuses : ∀ e ∈ mcfgEntries m table, e.startBus ≤ e.endBus)
    (hbefore : BeforePrimary m table segment bus e₀) (hslot : slot < 32) (hfunc : func < 8) :
    mcfgGetDeviceAddr m hhdmOffset (mcfgInit m table .empty) segment bus slot func =
      (e₀.baseAddress + hhdmOffset +
        ((bus + 2 ^ 12 - e₀.startBus) * 2 ^ 20 + slot * 2 ^ 15 + func * 2 ^ 12)) % word := by
  obtain ⟨hhead, hseg, hzero, hlt⟩ := hbefore
  have hmem : e₀ ∈ mcfgEntries m table := List.mem_of_mem_head? hhead
  have hstart := startBus_lt hmem
  obtain ⟨hentry, hfirst⟩ := mcfgEntryOf_primary hlen
    ⟨hhead, hseg, hzero, hlt.le.trans (hbuses e₀ hmem)⟩
  have hoff : (bus + 2 ^ 32 - e₀.startBus) % 2 ^ 12 = bus + 2 ^ 12 - e₀.startBus := by omega
  rw [mcfgGetDeviceAddr_of_entry (e := e₀) htable
    (by rw [hentry]; exact mcfgEntryAddr_ne_zero table 0) (by rwa [hentry]) hslot hfunc, hoff]

end Scan

/-! ## When the two agree -/

/-- The windows of two entries, continued below their first buses, are `2 ^ 32` bytes apart: where
a bus in front of the first window would be, if its distance did not wrap. -/
def McfgEntry.WrapsTo (e₀ e : McfgEntry) : Prop :=
  (e₀.baseAddress + 2 ^ 32 + e.startBus * 2 ^ 20) % word =
    (e.baseAddress + e₀.startBus * 2 ^ 20) % word

/-- **The shortcut agrees with the scan** for a bus exactly when the bus is not in front of those of
the first entry, or the entry for it happens to lie where the distance wraps to; and no device of
the bus has the null address. -/
theorem mcfgAgrees_iff {m : Memory} {table hhdmOffset segment bus : ℕ} (htable : table ≠ 0)
    (hlen : mcfgTableSize ≤ m.load (table + 4) 4)
    (hbuses : ∀ e ∈ mcfgEntries m table, e.startBus ≤ e.endBus) (hbus : bus < 256) :
    McfgAgrees m table hhdmOffset segment bus ↔
      (∀ e₀, BeforePrimary m table segment bus e₀ →
        ∃ e, mcfgEntryFor m table segment bus = some e ∧ e₀.WrapsTo e) ∧
      ∀ e, mcfgEntryFor m table segment bus = some e → ∀ slot < 32, ∀ func < 8,
        e.deviceAddr hhdmOffset bus slot func ≠ 0 := by
  have hnonnull : McfgAgrees m table hhdmOffset segment bus → ∀ e,
      mcfgEntryFor m table segment bus = some e → ∀ slot < 32, ∀ func < 8,
        e.deviceAddr hhdmOffset bus slot func ≠ 0 := by
    intro h e he slot hslot func hfunc hnull
    obtain ⟨haddr, hiff⟩ := h slot hslot func hfunc
    rw [haddr e he, hnull, he] at hiff
    exact absurd (hiff.mp rfl) (by simp)
  by_cases hbefore : ∃ e₀, BeforePrimary m table segment bus e₀
  · obtain ⟨e₀, he₀⟩ := hbefore
    have haddr := fun {slot func} => @mcfgGetDeviceAddr_of_before m table segment bus slot func
      hhdmOffset e₀ htable hlen hbuses he₀
    have hlt := he₀.2.2.2
    have hstart₀ := startBus_lt (List.mem_of_mem_head? he₀.1)
    have hunique : ∀ e₁, BeforePrimary m table segment bus e₁ → e₁ = e₀ := fun e₁ he₁ =>
      Option.some.inj (he₁.1.symm.trans he₀.1)
    constructor
    · refine fun h => ⟨fun e₁ he₁ => ?_, hnonnull h⟩
      obtain rfl := hunique e₁ he₁
      cases hfor : mcfgEntryFor m table segment bus with
      | none =>
        -- two devices cannot both have the null address
        have h0 := (h 0 (by decide) 0 (by decide)).2.mpr hfor
        have h1 := (h 1 (by decide) 0 (by decide)).2.mpr hfor
        rw [haddr (by decide) (by decide)] at h0 h1
        simp only [word] at h0 h1
        omega
      | some e =>
        refine ⟨e, rfl, ?_⟩
        have hc : e.Covers segment bus := by
          simpa using List.find?_some hfor
        have hstart := hc.2.1
        have h0 := (h 0 (by decide) 0 (by decide)).1 e hfor
        rw [haddr (by decide) (by decide), deviceAddr_eq (by decide) (by decide)] at h0
        simp only [McfgEntry.WrapsTo, word] at h0 ⊢
        omega
    · rintro ⟨hwraps, hne⟩ slot hslot func hfunc
      obtain ⟨e, hfor, hw⟩ := hwraps e₀ he₀
      have hc : e.Covers segment bus := by
        simpa using List.find?_some hfor
      have hstart := hc.2.1
      have heq : mcfgGetDeviceAddr m hhdmOffset (mcfgInit m table .empty) segment bus slot func =
          e.deviceAddr hhdmOffset bus slot func := by
        rw [haddr hslot hfunc, deviceAddr_eq hslot hfunc]
        simp only [McfgEntry.WrapsTo, word] at hw ⊢
        omega
      refine ⟨fun e' he' => ?_, ?_⟩
      · rw [hfor, Option.some.injEq] at he'
        rw [← he', heq]
      · rw [heq, hfor]
        exact iff_of_false (hne e hfor slot hslot func hfunc) (by simp)
  · rw [not_exists] at hbefore
    have haddr := fun {slot func} => @mcfgGetDeviceAddr_of_not_before m table segment bus slot func
      hhdmOffset htable hlen hbus hbefore
    refine ⟨fun h => ⟨fun e₀ he₀ => absurd he₀ (hbefore e₀), hnonnull h⟩, ?_⟩
    rintro ⟨-, hne⟩ slot hslot func hfunc
    rw [haddr hslot hfunc]
    cases hfor : mcfgEntryFor m table segment bus with
    | none => simp
    | some e => simpa using hne e hfor slot hslot func hfunc

/-- A table with one entry, for segment zero, at `0x1000`. -/
def oneEntryMcfg (startBus endBus : UInt8) : Memory := fun x =>
  ([0x4D, 0x43, 0x46, 0x47] ++ leBytes 4 60 ++ List.replicate 36 0 ++ leBytes 8 0xE0000000 ++
    leBytes 2 0 ++ [startBus, endBus] ++ List.replicate 4 0).getD (x - 0x1000) 0

/-- An entry for all buses. -/
theorem mcfgAgrees_allBuses : McfgAgrees (oneEntryMcfg 0 255) 0x1000 0xFFFF800000000000 0 5 := by
  have hfor : mcfgEntryFor (oneEntryMcfg 0 255) 0x1000 0 5 = some ⟨0xE0000000, 0, 0, 255⟩ := by
    decide +kernel
  have hhead : (mcfgEntries (oneEntryMcfg 0 255) 0x1000).head? = some ⟨0xE0000000, 0, 0, 255⟩ := by
    decide +kernel
  refine (mcfgAgrees_iff (by decide) (by decide +kernel) (by decide +kernel) (by decide)).mpr
    ⟨fun e₀ he₀ => ?_, fun e he slot hslot func hfunc => ?_⟩
  · have hlt := he₀.2.2.2
    rw [← Option.some.inj (hhead.symm.trans he₀.1)] at hlt
    exact absurd hlt (by decide)
  · rw [← Option.some.inj (hfor.symm.trans he), deviceAddr_eq hslot hfunc]
    simp only [word]
    omega

/-- An entry for the buses from 16 on: bus 5, for which there is none, gets an address. -/
theorem mcfg_bus_before_first :
    mcfgEntryFor (oneEntryMcfg 16 31) 0x1000 0 5 = none ∧
    mcfgGetDeviceAddr (oneEntryMcfg 16 31) 0xFFFF800000000000
      (mcfgInit (oneEntryMcfg 16 31) 0x1000 .empty) 0 5 0 0 = 0xFFFF8001DF500000 ∧
    ¬ ∀ m table hhdmOffset segment bus, table ≠ 0 → mcfgTableSize ≤ m.load (table + 4) 4 →
      (∀ e ∈ mcfgEntries m table, e.startBus ≤ e.endBus) → bus < 256 →
      McfgAgrees m table hhdmOffset segment bus := by
  have hnone : mcfgEntryFor (oneEntryMcfg 16 31) 0x1000 0 5 = none := by decide +kernel
  have haddr : mcfgGetDeviceAddr (oneEntryMcfg 16 31) 0xFFFF800000000000
      (mcfgInit (oneEntryMcfg 16 31) 0x1000 .empty) 0 5 0 0 = 0xFFFF8001DF500000 := by decide +kernel
  refine ⟨hnone, haddr, fun hall => ?_⟩
  have h := hall (oneEntryMcfg 16 31) 0x1000 0xFFFF800000000000 0 5 (by decide) (by decide +kernel)
    (by decide +kernel) (by decide)
  have hnull := (h 0 (by decide) 0 (by decide)).2.mpr hnone
  rw [haddr] at hnull
  exact absurd hnull (by decide)

end Cuore
