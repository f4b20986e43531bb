import Cuore.Framework.Bytes
import Cuore.Framework.Records

/-!
# Windows of CXL memory (`firmware/acpi/cedt.c`)

`cedt_init` walks through the entries of the CEDT.  It keeps the identifier of the last host bridge,
and takes the first memory window that has this bridge among its targets, or the first one at all if
there was no bridge before.

The window's list of targets has a power of two of them, and the exponent is a field of the entry.
The size of the entry is not compared with it, nor with the end of the table.  `cedtSafe_iff` says
which of the entries visited may not run over the end, with `cedtExamined` for the number of targets
that are looked at.  What `cedtReads` leaves out makes no difference (`cedtInit_congr`).
-/

namespace Cuore

open Memory

/-! ## The function -/

/-- `cedt_ret_t`.  `found` is left out: a value that is not found is `none` below. -/
structure CedtRet where
  physBase : ℕ
  size : ℕ
  hostBridgeUid : ℕ
  deriving DecidableEq

/-- The variables of `cedt_init`: `active_uid` if `has_uid`, and `g_cxl_info` if it is found. -/
structure CedtScan where
  activeUid : Option ℕ
  gCxlInfo : Option CedtRet
  deriving DecidableEq

/-- `sizeof(struct acpi_sdt_header)`, where the entries start. -/
def cedtEntries : ℕ := 36

/-- `ACPI_CEDT_TYPE_CHBS`. -/
def cedtTypeChbs : UInt8 := 0

/-- `ACPI_CEDT_TYPE_CFMWS`. -/
def cedtTypeCfmws : UInt8 := 1

/-- The size of an entry. -/
def cedtLen (table : Memory) (ptr : ℕ) : ℕ := table.load (ptr + 2) 2

/-- `is_valid_window`. -/
def IsValidWindow (table : Memory) (ptr : ℕ) : Prop :=
  table.load (ptr + 34) 2 = 0 ∨ table.load (ptr + 34) 2 &&& (1 <<< 1 ||| 1 <<< 3) ≠ 0

instance (table : Memory) (ptr : ℕ) : Decidable (IsValidWindow table ptr) :=
  inferInstanceAs (Decidable (_ ∨ _))

/-- `num_targets`.  The machine shifts by the low five bits of `interconnect_element_ways`. -/
def numTargets (table : Memory) (ptr : ℕ) : ℕ := 1 <<< (table.load (ptr + 28) 4 % 32)

/-- `target_windows[i]`. -/
def targetWindow (table : Memory) (ptr i : ℕ) : ℕ := table.load (ptr + 36 + 4 * i) 4

/-- The loop over the targets, with `n` left from `i` on: the target it stops at. -/
def findTarget (table : Memory) (ptr : ℕ) (activeUid : Option ℕ) : ℕ → ℕ → Option ℕ
  | 0, _ => none
  | n + 1, i =>
    if activeUid = none ∨ activeUid = some (targetWindow table ptr i) then some i
    else findTarget table ptr activeUid n (i + 1)

/-- The target of a window that is taken. -/
def cedtTarget (table : Memory) (v : ℕ × CedtScan) : Option ℕ :=
  findTarget table v.1 v.2.activeUid (numTargets table v.1) 0

/-- What is recorded of a window. -/
def cedtRetAt (table : Memory) (ptr i : ℕ) : CedtRet where
  physBase := table.load (ptr + 8) 8
  size := table.load (ptr + 16) 8
  hostBridgeUid := targetWindow table ptr i

/-- The `switch` of `cedt_init`. -/
def cedtVisit (table : Memory) (ptr : ℕ) (s : CedtScan) : CedtScan × Bool :=
  if table ptr = cedtTypeChbs then ({ s with activeUid := some (table.load (ptr + 4) 4) }, false)
  else if table ptr = cedtTypeCfmws then
    if IsValidWindow table ptr then
      match cedtTarget table (ptr, s) with
      | some i => ({ s with gCxlInfo := some (cedtRetAt table ptr i) }, true)
      | none => (s, false)
    else (s, false)
  else (s, false)

/-- `cedt_init`, with the offsets in the table for addresses. -/
def cedtInit (table : Memory) (gCxlInfo : Option CedtRet) : Option CedtScan :=
  walkRecords (cedtLen table) (cedtVisit table) (table.load 4 4) (2 ^ 32) cedtEntries
    { activeUid := none, gCxlInfo := gCxlInfo }

/-! ## The accesses -/

/-- The entries that `cedt_init` looks at, with the variables at that time. -/
def cedtVisits (table : Memory) (gCxlInfo : Option CedtRet) : List (ℕ × CedtScan) :=
  visitedRecords (cedtLen table) (cedtVisit table) (table.load 4 4) (2 ^ 32) cedtEntries
    { activeUid := none, gCxlInfo := gCxlInfo }

/-- How many targets of a window are looked at. -/
def cedtExamined (table : Memory) (v : ℕ × CedtScan) : ℕ :=
  match cedtTarget table v with
  | some i => i + 1
  | none => numTargets table v.1

/-- What is read of a window whose restrictions are passed.  The targets are compared with the
bridge only if there is one. -/
def cedtWindowReads (table : Memory) (v : ℕ × CedtScan) : List ℕ :=
  List.range' (v.1 + 28) 4 ++
    (if v.2.activeUid.isSome then List.range' (v.1 + 36) (4 * cedtExamined table v) else []) ++
    match cedtTarget table v with
    | some i => List.range' (v.1 + 8) 16 ++ List.range' (v.1 + 36 + 4 * i) 4
    | none => []

/-- What is read at an entry. -/
def cedtEntryReads (table : Memory) (v : ℕ × CedtScan) : List ℕ :=
  List.range' (v.1 + 2) 2 ++
    if cedtLen table v.1 = 0 then []
    else v.1 ::
      if table v.1 = cedtTypeChbs then List.range' (v.1 + 4) 4
      else if table v.1 = cedtTypeCfmws then List.range' (v.1 + 34) 2 ++
        if IsValidWindow table v.1 then cedtWindowReads table v else []
      else []

/-- The offsets that `cedt_init` reads. -/
def cedtReads (table : Memory) (gCxlInfo : Option CedtRet) : List ℕ :=
  List.range' 4 4 ++ (cedtVisits table gCxlInfo).flatMap (cedtEntryReads table)

/-- A window. -/
def IsWindow (table : Memory) (ptr : ℕ) : Prop :=
  cedtLen table ptr ≠ 0 ∧ table ptr = cedtTypeCfmws ∧ IsValidWindow table ptr

instance (table : Memory) (ptr : ℕ) : Decidable (IsWindow table ptr) :=
  inferInstanceAs (Decidable (_ ∧ _ ∧ _))

/-- A window that is taken. -/
def IsTaken (table : Memory) (v : ℕ × CedtScan) : Prop :=
  IsWindow table v.1 ∧ (cedtTarget table v).isSome

instance (table : Memory) (v : ℕ × CedtScan) : Decidable (IsTaken table v) :=
  inferInstanceAs (Decidable (_ ∧ _))

/-- The windows that are recorded.  There is at most one, as the walk is done then. -/
def cedtRecorded (table : Memory) (gCxlInfo : Option CedtRet) : List (ℕ × CedtScan) :=
  (cedtVisits table gCxlInfo).filter (IsTaken table ·)

/-- What the windows recorded leave in `g_cxl_info`. -/
def cedtResult (table : Memory) (gCxlInfo : Option CedtRet) :
    List (ℕ × CedtScan) → Option CedtRet
  | [] => gCxlInfo
  | v :: _ => (cedtTarget table v).map (cedtRetAt table v.1)

/-- Only the table is read, and what is recorded is all of an entry of the table. -/
structure CedtSafe (table : Memory) (gCxlInfo : Option CedtRet) : Prop where
  reads : ∀ r ∈ cedtReads table gCxlInfo, r < table.load 4 4
  recorded : ∀ v ∈ cedtRecorded table gCxlInfo, v.1 + cedtLen table v.1 ≤ table.load 4 4

/-- An entry does not run over the end of the table with what its type needs. -/
structure CedtFits (table : Memory) (len : ℕ) (v : ℕ × CedtScan) : Prop where
  header : v.1 + 4 ≤ len
  chbs : cedtLen table v.1 ≠ 0 → table v.1 = cedtTypeChbs → v.1 + 8 ≤ len
  cfmws : cedtLen table v.1 ≠ 0 → table v.1 = cedtTypeCfmws → v.1 + 36 ≤ len
  targets : IsWindow table v.1 → v.1 + 36 + 4 * cedtExamined table v ≤ len
  recorded : IsTaken table v → v.1 + cedtLen table v.1 ≤ len

section Walk

variable {table table' : Memory} {gCxlInfo : Option CedtRet} {len : ℕ} {v : ℕ × CedtScan}

@[simp] lemma cedtTypeChbs_ne : cedtTypeChbs ≠ cedtTypeCfmws := by decide

@[simp] lemma cedtTypeCfmws_ne : cedtTypeCfmws ≠ cedtTypeChbs := by decide

lemma numTargets_pos (table : Memory) (ptr : ℕ) : 0 < numTargets table ptr := by
  rw [numTargets, Nat.one_shiftLeft]
  exact Nat.two_pow_pos _

/-- Without a bridge the first target is taken. -/
lemma cedtTarget_of_none (h : v.2.activeUid = none) : cedtTarget table v = some 0 := by
  obtain ⟨n, hn⟩ := Nat.exists_eq_add_one.mpr (numTargets_pos table v.1)
  rw [cedtTarget, hn, findTarget, if_pos (Or.inl h)]

lemma cedtExamined_pos : 0 < cedtExamined table v := by
  rw [cedtExamined]
  split
  · exact Nat.succ_pos _
  · exact numTargets_pos table v.1

lemma le_of_findTarget {ptr n i k : ℕ} {uid : Option ℕ}
    (h : findTarget table ptr uid n i = some k) : i ≤ k := by
  induction n generalizing i with
  | zero => cases h
  | succ n ih =>
    rw [findTarget] at h
    split_ifs at h
    · exact (Option.some.inj h).le
    · exact Nat.le_of_succ_le (ih h)

/-- If there is a bridge, the loop depends on the targets up to the one it stops at. -/
lemma findTarget_congr {ptr n i : ℕ} {uid : Option ℕ}
    (h : uid ≠ none → ∀ j, i ≤ j → j < i + n →
      (∀ k, findTarget table ptr uid n i = some k → j ≤ k) →
      targetWindow table' ptr j = targetWindow table ptr j) :
    findTarget table' ptr uid n i = findTarget table ptr uid n i := by
  induction n generalizing i with
  | zero => rfl
  | succ n ih =>
    cases uid with
    | none => rw [findTarget, findTarget, if_pos (.inl rfl), if_pos (.inl rfl)]
    | some uid =>
      have hne : some uid ≠ none := Option.some_ne_none uid
      have hfirst := h hne i le_rfl (by omega) fun k => le_of_findTarget
      rw [findTarget, findTarget, hfirst]
      by_cases hstop : some uid = none ∨ some uid = some (targetWindow table ptr i)
      · rw [if_pos hstop, if_pos hstop]
      · rw [if_neg hstop, if_neg hstop]
        refine ih fun _ j hle hlt hk => h hne j (by omega) (by omega) fun k heq => hk k ?_
        rwa [findTarget, if_neg hstop] at heq

/-- The targets of a window depend on what is read of it. -/
lemma cedtTarget_congr (h : ∀ r ∈ cedtWindowReads table v, table' r = table r) :
    cedtTarget table' v = cedtTarget table v := by
  rw [cedtWindowReads, List.forall_mem_append, List.forall_mem_append] at h
  obtain ⟨⟨hways, htargets⟩, -⟩ := h
  have hnum : numTargets table' v.1 = numTargets table v.1 := by
    rw [numTargets, numTargets, load_eq_of_range' hways]
  rw [cedtTarget, cedtTarget, hnum]
  refine findTarget_congr fun huid j _ hlt hk => ?_
  rw [if_pos (Option.isSome_iff_ne_none.mpr huid)] at htargets
  have hj : j < cedtExamined table v := by
    rw [cedtExamined]
    split
    · exact Nat.lt_succ_of_le (hk _ ‹_›)
    · omega
  refine load_congr fun x hx hx' => htargets x (List.mem_range'_1.mpr ?_)
  omega

/-- What is done at an entry depends on what is read there. -/
lemma cedtEntry_congr (h : ∀ r ∈ cedtEntryReads table v, table' r = table r) :
    cedtLen table' v.1 = cedtLen table v.1 ∧
      (cedtLen table v.1 ≠ 0 → cedtVisit table' v.1 v.2 = cedtVisit table v.1 v.2) := by
  rw [cedtEntryReads, List.forall_mem_append] at h
  obtain ⟨hlen, h⟩ := h
  refine ⟨load_eq_of_range' hlen, fun hne => ?_⟩
  rw [if_neg hne, List.forall_mem_cons] at h
  obtain ⟨htype, h⟩ := h
  rw [cedtVisit, cedtVisit, htype]
  by_cases hchbs : table v.1 = cedtTypeChbs
  · rw [if_pos hchbs] at h
    rw [if_pos hchbs, if_pos hchbs, load_eq_of_range' h]
  rw [if_neg hchbs] at h
  rw [if_neg hchbs, if_neg hchbs]
  by_cases hcfmws : table v.1 = cedtTypeCfmws
  · rw [if_pos hcfmws, List.forall_mem_append] at h
    obtain ⟨hrestrictions, h⟩ := h
    have hvalid : IsValidWindow table' v.1 ↔ IsValidWindow table v.1 := by
      rw [IsValidWindow, IsValidWindow, load_eq_of_range' hrestrictions]
    rw [if_pos hcfmws, if_pos hcfmws]
    by_cases hwindow : IsValidWindow table v.1
    · rw [if_pos hwindow] at h
      rw [if_pos (hvalid.mpr hwindow), if_pos hwindow, cedtTarget_congr h]
      cases htarget : cedtTarget table v with
      | none => rfl
      | some i =>
        rw [cedtWindowReads, List.forall_mem_append] at h
        obtain ⟨-, htaken⟩ := h
        rw [htarget] at htaken
        dsimp only at htaken
        rw [List.forall_mem_append] at htaken
        have hbase : table'.load (v.1 + 8) 8 = table.load (v.1 + 8) 8 :=
          load_congr fun x hx hx' => htaken.1 x (List.mem_range'_1.mpr (by omega))
        have hsize : table'.load (v.1 + 16) 8 = table.load (v.1 + 16) 8 :=
          load_congr fun x hx hx' => htaken.1 x (List.mem_range'_1.mpr (by omega))
        have huid : targetWindow table' v.1 i = targetWindow table v.1 i :=
          load_eq_of_range' htaken.2
        dsimp only
        rw [cedtRetAt, cedtRetAt, hbase, hsize, huid]
    · rw [if_neg (hvalid.not.mpr hwindow), if_neg hwindow]
  · rw [if_neg hcfmws, if_neg hcfmws]

/-- **`cedt_init` depends on nothing but `cedtReads`.** -/
lemma cedtInit_congr (h : ∀ r ∈ cedtReads table gCxlInfo, table' r = table r) :
    cedtInit table' gCxlInfo = cedtInit table gCxlInfo := by
  rw [cedtReads, List.forall_mem_append, List.forall_mem_flatMap] at h
  obtain ⟨hlen, hentries⟩ := h
  rw [cedtInit, cedtInit, load_eq_of_range' hlen]
  exact walkRecords_congr fun v hv => cedtEntry_congr (hentries v hv)

/-- **The walk ends**, and leaves the window of `cedtRecorded`. -/
lemma cedtInit_eq (hlen : table.load 4 4 < 2 ^ 32) : ∃ s', cedtInit table gCxlInfo = some s' ∧
    s'.gCxlInfo = cedtResult table gCxlInfo (cedtRecorded table gCxlInfo) := by
  have hends : (cedtInit table gCxlInfo).isSome := walkRecords_isSome (by omega)
  obtain ⟨s', hs'⟩ := Option.isSome_iff_exists.mp hends
  refine ⟨s', hs', ?_⟩
  refine walkRecords_induct (motive := fun s vs s' => s'.gCxlInfo =
    cedtResult table s.gCxlInfo (vs.filter (IsTaken table ·))) (fun s => rfl)
    (fun p s hzero => ?_) (fun p s s' hsize hvisit => ?_)
    (fun p s s' vs s'' hsize hvisit ih => ?_) hs'
  · rw [List.filter_cons_of_neg (by simp [IsTaken, IsWindow, hzero])]
    rfl
  · simp only [cedtVisit] at hvisit
    split_ifs at hvisit with hchbs hcfmws hvalid
    · cases hvisit
    · split at hvisit
      · rename_i i htarget
        obtain ⟨rfl, -⟩ := Prod.mk.inj hvisit
        rw [List.filter_cons_of_pos (by simp [IsTaken, IsWindow, hsize, hcfmws, hvalid, htarget])]
        simp [cedtResult, htarget]
      · cases hvisit
    · cases hvisit
    · cases hvisit
  · rw [ih]
    simp only [cedtVisit] at hvisit
    split_ifs at hvisit with hchbs hcfmws hvalid
    · obtain ⟨rfl, -⟩ := Prod.mk.inj hvisit
      rw [List.filter_cons_of_neg
        (by simp [IsTaken, IsWindow, hchbs])]
    · split at hvisit
      · cases hvisit
      · rename_i htarget
        obtain ⟨rfl, -⟩ := Prod.mk.inj hvisit
        rw [List.filter_cons_of_neg (by simp [IsTaken, htarget])]
    · obtain ⟨rfl, -⟩ := Prod.mk.inj hvisit
      rw [List.filter_cons_of_neg (by simp [IsTaken, IsWindow, hvalid])]
    · obtain ⟨rfl, -⟩ := Prod.mk.inj hvisit
      rw [List.filter_cons_of_neg (by simp [IsTaken, IsWindow, hcfmws])]

/-- What is read of a window reaches to the last target that is looked at. -/
lemma cedtWindowReads_lt_iff :
    (∀ r ∈ cedtWindowReads table v, r < len) ↔ v.1 + 36 + 4 * cedtExamined table v ≤ len := by
  have hpos : 0 < cedtExamined table v := cedtExamined_pos
  rw [cedtWindowReads, List.forall_mem_append, List.forall_mem_append,
    forall_mem_range'_lt_iff (by decide)]
  rcases huid : v.2.activeUid with _ | uid
  · -- the first target is read, and not compared
    simp only [cedtExamined, cedtTarget_of_none huid, Option.isSome_none, Bool.false_eq_true,
      if_false, List.forall_mem_append, forall_mem_range'_lt_iff (by decide : 0 < 16),
      forall_mem_range'_lt_iff (by decide : 0 < 4)]
    simp
    omega
  · simp only [Option.isSome_some, if_true,
      forall_mem_range'_lt_iff (by omega : 0 < 4 * cedtExamined table v)]
    rcases htarget : cedtTarget table v with _ | i
    · simp only [List.not_mem_nil, false_implies, implies_true, and_true]
      omega
    · have hexamined : cedtExamined table v = i + 1 := by rw [cedtExamined, htarget]
      simp only [List.forall_mem_append, forall_mem_range'_lt_iff (by decide : 0 < 16),
        forall_mem_range'_lt_iff (by decide : 0 < 4)]
      omega

/-- What is read at an entry is in the table. -/
lemma cedtEntryReads_lt_iff : (∀ r ∈ cedtEntryReads table v, r < len) ↔
    v.1 + 4 ≤ len ∧ (cedtLen table v.1 ≠ 0 → table v.1 = cedtTypeChbs → v.1 + 8 ≤ len) ∧
      (cedtLen table v.1 ≠ 0 → table v.1 = cedtTypeCfmws → v.1 + 36 ≤ len) ∧
      (IsWindow table v.1 → v.1 + 36 + 4 * cedtExamined table v ≤ len) := by
  rw [cedtEntryReads, List.forall_mem_append, forall_mem_range'_lt_iff (by decide)]
  refine and_congr_right fun hheader => ?_
  by_cases hzero : cedtLen table v.1 = 0
  · rw [if_pos hzero]
    simp [IsWindow, hzero]
  · rw [if_neg hzero, List.forall_mem_cons, and_iff_right (by omega)]
    by_cases hchbs : table v.1 = cedtTypeChbs
    · rw [if_pos hchbs, forall_mem_range'_lt_iff (by decide)]
      simp [IsWindow, hzero, hchbs]
    · rw [if_neg hchbs]
      by_cases hcfmws : table v.1 = cedtTypeCfmws
      · rw [if_pos hcfmws, List.forall_mem_append, forall_mem_range'_lt_iff (by decide)]
        by_cases hvalid : IsValidWindow table v.1
        · rw [if_pos hvalid, cedtWindowReads_lt_iff]
          simp [IsWindow, hzero, hcfmws, hvalid]
        · rw [if_neg hvalid]
          simp [IsWindow, hzero, hcfmws, hvalid]
      · rw [if_neg hcfmws]
        simp [IsWindow, hchbs, hcfmws]

/-- **Which tables `cedt_init` walks through safely.** -/
lemma cedtSafe_iff (hlen : cedtEntries ≤ table.load 4 4) :
    CedtSafe table gCxlInfo ↔
      ∀ v ∈ cedtVisits table gCxlInfo, CedtFits table (table.load 4 4) v := by
  have hfixed : ∀ r ∈ List.range' 4 4, r < table.load 4 4 := by
    rw [forall_mem_range'_lt_iff (by decide)]
    rw [cedtEntries] at hlen
    omega
  have hentry : ∀ v, CedtFits table (table.load 4 4) v ↔
      (∀ r ∈ cedtEntryReads table v, r < table.load 4 4) ∧
        (IsTaken table v → v.1 + cedtLen table v.1 ≤ table.load 4 4) := by
    intro v
    rw [cedtEntryReads_lt_iff]
    constructor
    · exact fun h => ⟨⟨h.header, h.chbs, h.cfmws, h.targets⟩, h.recorded⟩
    · rintro ⟨⟨hheader, hchbs, hcfmws, htargets⟩, hrecorded⟩
      exact ⟨hheader, hchbs, hcfmws, htargets, hrecorded⟩
  simp only [hentry]
  rw [← forall_visited_and_kept_iff]
  constructor
  · intro h
    exact ⟨fun r hr => h.reads r (List.mem_append_right _ hr), h.recorded⟩
  · rintro ⟨hreads, hrecorded⟩
    exact ⟨List.forall_mem_append.mpr ⟨hfixed, hreads⟩, hrecorded⟩

end Walk

end Cuore
