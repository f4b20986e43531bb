import Cuore.Firmware.Acpi.Madt
import Cuore.Firmware.Acpi.Cedt

/-!
# The walks through MADT and CEDT

Both walks go on behind an entry by the size that the entry gives, and look at an entry if it starts
in the table.  They end on every table, and they record what their lists of recorded entries say.
They stay inside exactly if no entry that they look at runs over the end of the table with what its
type needs: `subtables_safe_iff`.
-/

namespace Cuore

open Memory

/-- **The walks through MADT and CEDT.**  For every contents and every length that has the fixed
header, `madt_init` and `cedt_init` end, with the overrides and the window of the entries recorded
added to what was there.  They read only the table, and record only entries that are inside, if and
only if every entry that they look at fits: two or four bytes of it, the fields that its type needs,
the targets of a window that are looked at, and the whole entry if it is recorded. -/
theorem subtables_safe_iff (madt cedt : Memory) (hmadt : madtEntries ≤ madt.load 4 4)
    (hcedt : cedtEntries ≤ cedt.load 4 4) (s : Madt) (gCxlInfo : Option CedtRet) :
    ((∃ s', madtInit madt s = some s' ∧
        s'.isos = s.isos ++ (madtRecorded madt s).map (madtIsoAt madt)) ∧
      (MadtSafe madt s ↔ ∀ v ∈ madtVisits madt s, MadtFits madt (madt.load 4 4) v)) ∧
    ((∃ s', cedtInit cedt gCxlInfo = some s' ∧
        s'.gCxlInfo = cedtResult cedt gCxlInfo (cedtRecorded cedt gCxlInfo)) ∧
      (CedtSafe cedt gCxlInfo ↔
        ∀ v ∈ cedtVisits cedt gCxlInfo, CedtFits cedt (cedt.load 4 4) v)) :=
  ⟨⟨madtInit_eq (load_lt madt 4 4), madtSafe_iff hmadt⟩,
    ⟨cedtInit_eq (load_lt cedt 4 4), cedtSafe_iff hcedt⟩⟩

/-- A MADT with one override. -/
def oneIsoMadt : Memory := fun i =>
  if i = 4 then 54 else if i = 44 then madtTypeIso else if i = 45 then 10 else 0

/-- A CEDT with the host bridge 7 and a window of 4 GiB for it. -/
def oneWindowCedt : Memory := fun i =>
  if i = 4 then 108 else if i = 36 then cedtTypeChbs else if i = 38 then 32 else if i = 40 then 7
  else if i = 68 then cedtTypeCfmws else if i = 70 then 40 else if i = 88 then 1
  else if i = 104 then 7 else 0

/-- One override, and one window, are recorded. -/
theorem subtables_safe_iff_one :
    (∃ s, madtInit oneIsoMadt ⟨0, 0, []⟩ = some s ∧ s.isos = [⟨0, 0, 0⟩]) ∧
    MadtSafe oneIsoMadt ⟨0, 0, []⟩ ∧ madtRecorded oneIsoMadt ⟨0, 0, []⟩ = [44] ∧
    (∃ s, cedtInit oneWindowCedt none = some s ∧ s.gCxlInfo = some ⟨0, 2 ^ 32, 7⟩) ∧
    CedtSafe oneWindowCedt none ∧
    cedtVisits oneWindowCedt none = [(36, ⟨none, none⟩), (68, ⟨some 7, none⟩)] := by
  have hmadt : oneIsoMadt.load 4 4 = 54 := by decide +kernel
  have hcedt : oneWindowCedt.load 4 4 = 108 := by decide +kernel
  obtain ⟨⟨⟨s, hs, hisos⟩, hmadtSafe⟩, ⟨t, ht, hinfo⟩, hcedtSafe⟩ :=
    subtables_safe_iff oneIsoMadt oneWindowCedt (by decide +kernel) (by decide +kernel)
      ⟨0, 0, []⟩ none
  have hrecorded : madtRecorded oneIsoMadt ⟨0, 0, []⟩ = [44] := by decide +kernel
  have hvisits : cedtVisits oneWindowCedt none = [(36, ⟨none, none⟩), (68, ⟨some 7, none⟩)] := by
    decide +kernel
  refine ⟨⟨s, hs, hisos.trans ?_⟩, hmadtSafe.mpr ?_, hrecorded, ⟨t, ht, hinfo.trans ?_⟩,
    hcedtSafe.mpr ?_, hvisits⟩
  · rw [hrecorded]
    decide +kernel
  · rw [show madtVisits oneIsoMadt ⟨0, 0, []⟩ = [(44, ⟨0, 0, []⟩)] by decide +kernel, hmadt]
    intro v hv
    obtain rfl := List.mem_singleton.mp hv
    exact ⟨by decide, by decide +kernel, by decide +kernel⟩
  · decide +kernel
  · rw [hvisits, hcedt]
    intro v hv
    rcases List.mem_cons.mp hv with rfl | hv
    · exact ⟨by decide, by decide +kernel, by decide +kernel, by decide +kernel,
        by decide +kernel⟩
    · obtain rfl := List.mem_singleton.mp hv
      exact ⟨by decide, by decide +kernel, by decide +kernel, by decide +kernel,
        by decide +kernel⟩

/-- A MADT that ends four bytes after the start of an override of ten.  Six bytes behind
its end are read, and the override is recorded. -/
theorem madtInit_truncated :
    let madt : Memory := fun i =>
      if i = 4 then 48 else if i = 44 then madtTypeIso else if i = 45 then 10 else 0
    madt.load 4 4 = 48 ∧ 53 ∈ madtReads madt ⟨0, 0, []⟩ ∧ madtRecorded madt ⟨0, 0, []⟩ = [44] ∧
      madtLen madt 44 = 10 ∧ ¬MadtSafe madt ⟨0, 0, []⟩ := by
  intro madt
  have hlen : madt.load 4 4 = 48 := by decide +kernel
  have hread : 53 ∈ madtReads madt ⟨0, 0, []⟩ := by decide +kernel
  refine ⟨hlen, hread, by decide +kernel, by decide +kernel, fun h => ?_⟩
  have hlt := h.reads 53 hread
  omega

end Cuore
