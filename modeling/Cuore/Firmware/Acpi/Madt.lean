import Cuore.Framework.Bytes
import Cuore.Framework.Records

/-!
# Interrupt controllers (`firmware/acpi/madt.c`)

`madt_init` walks through the entries of the MADT, takes the address of the I/O APIC, and records
the first sixteen interrupt overrides.  An entry is looked at if it starts in the table.  That it
ends there, or that it is as long as its type needs, is not checked.

`madtVisits` are the entries of a walk and `madtSafe_iff` says which of them may not run over the
end of the table: all have two bytes that are read, and what is read behind these depends on the
type.  What `madtReads` leaves out makes no difference (`madtInit_congr`).
-/

namespace Cuore

open Memory

/-! ## The function -/

/-- `madt_iso_t`. -/
structure MadtIso where
  busSource : ℕ
  gsi : ℕ
  flags : ℕ
  deriving DecidableEq

/-- The static variables.  `isos` holds the first `iso_count` entries of the array. -/
structure Madt where
  lapicPhys : ℕ
  ioapicPhys : ℕ
  isos : List MadtIso
  deriving DecidableEq

/-- `sizeof(struct madt)`, where the entries start. -/
def madtEntries : ℕ := 44

/-- `MADT_TYPE_IOAPIC`. -/
def madtTypeIoapic : UInt8 := 1

/-- `MADT_TYPE_ISO`. -/
def madtTypeIso : UInt8 := 2

/-- The size of an entry. -/
def madtLen (table : Memory) (ptr : ℕ) : ℕ := (table (ptr + 1)).toNat

/-- The override at an entry. -/
def madtIsoAt (table : Memory) (ptr : ℕ) : MadtIso where
  busSource := (table (ptr + 3)).toNat
  gsi := table.load (ptr + 4) 4
  flags := table.load (ptr + 8) 2

/-- The `switch` of `madt_init`. -/
def madtVisit (table : Memory) (ptr : ℕ) (s : Madt) : Madt × Bool :=
  if table ptr = madtTypeIoapic then ({ s with ioapicPhys := table.load (ptr + 4) 4 }, false)
  else if table ptr = madtTypeIso then
    if s.isos.length < 16 then ({ s with isos := s.isos ++ [madtIsoAt table ptr] }, false)
    else (s, false)
  else (s, false)

/-- `madt_init`, with the offsets in the table for addresses. -/
def madtInit (table : Memory) (s : Madt) : Option Madt :=
  walkRecords (madtLen table) (madtVisit table) (table.load 4 4) (2 ^ 32) madtEntries
    { s with lapicPhys := table.load 36 4 }

/-! ## The accesses -/

/-- The entries that `madt_init` looks at, with the variables at that time. -/
def madtVisits (table : Memory) (s : Madt) : List (ℕ × Madt) :=
  visitedRecords (madtLen table) (madtVisit table) (table.load 4 4) (2 ^ 32) madtEntries
    { s with lapicPhys := table.load 36 4 }

/-- An override with room for it. -/
def MadtRecords (table : Memory) (v : ℕ × Madt) : Prop :=
  madtLen table v.1 ≠ 0 ∧ table v.1 = madtTypeIso ∧ v.2.isos.length < 16

instance (table : Memory) (v : ℕ × Madt) : Decidable (MadtRecords table v) :=
  inferInstanceAs (Decidable (_ ∧ _ ∧ _))

/-- What is read at an entry. -/
def madtEntryReads (table : Memory) (v : ℕ × Madt) : List ℕ :=
  [v.1, v.1 + 1] ++
    if madtLen table v.1 = 0 then []
    else if table v.1 = madtTypeIoapic then List.range' (v.1 + 4) 4
    else if MadtRecords table v then (v.1 + 3) :: List.range' (v.1 + 4) 6
    else []

/-- The offsets that `madt_init` reads. -/
def madtReads (table : Memory) (s : Madt) : List ℕ :=
  List.range' 36 4 ++ List.range' 4 4 ++ (madtVisits table s).flatMap (madtEntryReads table)

/-- The entries of the overrides that are recorded. -/
def madtRecorded (table : Memory) (s : Madt) : List ℕ :=
  ((madtVisits table s).filter (MadtRecords table ·)).map Prod.fst

/-- Only the table is read, and what is recorded is all of an entry of the table. -/
structure MadtSafe (table : Memory) (s : Madt) : Prop where
  reads : ∀ r ∈ madtReads table s, r < table.load 4 4
  recorded : ∀ p ∈ madtRecorded table s, p + madtLen table p ≤ table.load 4 4

/-- An entry does not run over the end of the table with what its type needs. -/
structure MadtFits (table : Memory) (len : ℕ) (v : ℕ × Madt) : Prop where
  header : v.1 + 2 ≤ len
  ioapic : madtLen table v.1 ≠ 0 → table v.1 = madtTypeIoapic → v.1 + 8 ≤ len
  iso : MadtRecords table v → v.1 + 10 ≤ len ∧ v.1 + madtLen table v.1 ≤ len

section Walk

variable {table table' : Memory} {s s' : Madt} {len : ℕ} {v : ℕ × Madt}

/-- **The walk ends**, and the overrides it has recorded are those of `madtRecorded`. -/
lemma madtInit_eq (hlen : table.load 4 4 < 2 ^ 32) : ∃ s', madtInit table s = some s' ∧
    s'.isos = s.isos ++ (madtRecorded table s).map (madtIsoAt table) := by
  have hends : (madtInit table s).isSome := walkRecords_isSome (by omega)
  obtain ⟨s', hs'⟩ := Option.isSome_iff_exists.mp hends
  refine ⟨s', hs', ?_⟩
  have hwalk := walkRecords_induct (motive := fun s vs s' => s'.isos =
    s.isos ++ ((vs.filter (MadtRecords table ·)).map Prod.fst).map (madtIsoAt table))
    (fun s => by simp) (fun p s hzero => by simp [MadtRecords, hzero]) ?_ ?_ hs'
  · exact hwalk
  · intro p s s' _ hvisit
    simp only [madtVisit] at hvisit
    split_ifs at hvisit <;> cases hvisit
  · intro p s s' vs s'' hsize hvisit ih
    rw [ih]
    simp only [madtVisit] at hvisit
    split_ifs at hvisit with hioapic hiso hroom
    all_goals obtain ⟨rfl, -⟩ := Prod.mk.inj hvisit
    · simp [MadtRecords, hioapic, madtTypeIoapic, madtTypeIso]
    · simp [MadtRecords, hsize, hiso, hroom]
    · simp [MadtRecords, hroom]
    · simp [MadtRecords, hiso]

/-- What is done at an entry depends on what is read there. -/
lemma madtEntry_congr (h : ∀ r ∈ madtEntryReads table v, table' r = table r) :
    madtLen table' v.1 = madtLen table v.1 ∧
      (madtLen table v.1 ≠ 0 → madtVisit table' v.1 v.2 = madtVisit table v.1 v.2) := by
  rw [madtEntryReads, List.forall_mem_append, List.forall_mem_cons, List.forall_mem_singleton] at h
  obtain ⟨⟨htype, hlen⟩, h⟩ := h
  refine ⟨by rw [madtLen, madtLen, hlen], fun hne => ?_⟩
  rw [if_neg hne] at h
  rw [madtVisit, madtVisit, htype]
  by_cases hioapic : table v.1 = madtTypeIoapic
  · rw [if_pos hioapic] at h
    rw [if_pos hioapic, if_pos hioapic, load_eq_of_range' h]
  rw [if_neg hioapic] at h
  rw [if_neg hioapic, if_neg hioapic]
  by_cases hiso : MadtRecords table v
  · rw [if_pos hiso, List.forall_mem_cons] at h
    have hgsi : table'.load (v.1 + 4) 4 = table.load (v.1 + 4) 4 := load_eq_of_range' fun r hr =>
      h.2 r (List.mem_range'_1.mpr (by rw [List.mem_range'_1] at hr; omega))
    have hflags : table'.load (v.1 + 8) 2 = table.load (v.1 + 8) 2 := load_eq_of_range' fun r hr =>
      h.2 r (List.mem_range'_1.mpr (by rw [List.mem_range'_1] at hr; omega))
    rw [madtIsoAt, madtIsoAt, h.1, hgsi, hflags]
  · have hno : ¬(table v.1 = madtTypeIso ∧ v.2.isos.length < 16) := fun hr => hiso ⟨hne, hr⟩
    split_ifs with htype' hroom
    · exact absurd ⟨htype', hroom⟩ hno
    · rfl
    · rfl

/-- **`madt_init` depends on nothing but `madtReads`.** -/
lemma madtInit_congr (h : ∀ r ∈ madtReads table s, table' r = table r) :
    madtInit table' s = madtInit table s := by
  rw [madtReads, List.forall_mem_append, List.forall_mem_append, List.forall_mem_flatMap] at h
  obtain ⟨⟨hlapic, hlen⟩, hentries⟩ := h
  rw [madtInit, madtInit, load_eq_of_range' hlapic, load_eq_of_range' hlen]
  exact walkRecords_congr fun v hv => madtEntry_congr (hentries v hv)

/-- What is read at an entry is in the table. -/
lemma madtEntryReads_lt_iff : (∀ r ∈ madtEntryReads table v, r < len) ↔
    v.1 + 2 ≤ len ∧ (madtLen table v.1 ≠ 0 → table v.1 = madtTypeIoapic → v.1 + 8 ≤ len) ∧
      (MadtRecords table v → v.1 + 10 ≤ len) := by
  have hheader : (∀ r ∈ [v.1, v.1 + 1], r < len) ↔ v.1 + 2 ≤ len := by
    simp only [List.forall_mem_cons]
    simp
    omega
  rw [madtEntryReads, List.forall_mem_append, hheader]
  refine and_congr_right fun _ => ?_
  by_cases hzero : madtLen table v.1 = 0
  · rw [if_pos hzero]
    simp [MadtRecords, hzero]
  · rw [if_neg hzero]
    by_cases hioapic : table v.1 = madtTypeIoapic
    · have hother : ¬MadtRecords table v := fun h => by
        have htype := hioapic.symm.trans h.2.1
        simp [madtTypeIoapic, madtTypeIso] at htype
      rw [if_pos hioapic, forall_mem_range'_lt_iff (by decide)]
      simp only [hother, false_implies, and_true]
      exact ⟨fun h _ _ => h, fun h => h hzero hioapic⟩
    · rw [if_neg hioapic]
      by_cases hiso : MadtRecords table v
      · rw [if_pos hiso, List.forall_mem_cons, forall_mem_range'_lt_iff (by decide)]
        constructor
        · exact fun h => ⟨fun _ h => absurd h hioapic, fun _ => h.2⟩
        · intro h
          have hfits := h.2 hiso
          omega
      · rw [if_neg hiso]
        simp [hioapic, hiso]

/-- **Which tables `madt_init` walks through safely.** -/
lemma madtSafe_iff (hlen : madtEntries ≤ table.load 4 4) :
    MadtSafe table s ↔ ∀ v ∈ madtVisits table s, MadtFits table (table.load 4 4) v := by
  have hfixed : ∀ r ∈ List.range' 36 4 ++ List.range' 4 4, r < table.load 4 4 := by
    rw [List.forall_mem_append, forall_mem_range'_lt_iff (by decide),
      forall_mem_range'_lt_iff (by decide)]
    rw [madtEntries] at hlen
    omega
  have hentry : ∀ v, MadtFits table (table.load 4 4) v ↔
      (∀ r ∈ madtEntryReads table v, r < table.load 4 4) ∧
        (MadtRecords table v → v.1 + madtLen table v.1 ≤ table.load 4 4) := by
    intro v
    rw [madtEntryReads_lt_iff]
    constructor
    · exact fun h => ⟨⟨h.header, h.ioapic, fun hrec => (h.iso hrec).1⟩, fun hrec => (h.iso hrec).2⟩
    · rintro ⟨⟨hheader, hioapic, hiso⟩, hentry⟩
      exact ⟨hheader, hioapic, fun hrec => ⟨hiso hrec, hentry hrec⟩⟩
  simp only [hentry]
  rw [← forall_visited_and_kept_iff]
  constructor
  · intro h
    exact ⟨fun r hr => h.reads r (List.mem_append_right _ hr),
      fun v hv => h.recorded v.1 (List.mem_map_of_mem hv)⟩
  · rintro ⟨hreads, hrecorded⟩
    exact ⟨List.forall_mem_append.mpr ⟨hfixed, hreads⟩, List.forall_mem_map.mpr hrecorded⟩

end Walk

end Cuore
