import Cuore.Framework.Assignment
import Mathlib.Data.List.Nodup
import Mathlib.Data.Nat.Bitwise

/-!
# Binding drivers to PCI devices (`pci/pci.c`)

`pci_init` goes through the driver table and, for each entry, through the discovered devices.  A
device that matches is marked as claimed; if the entry's capabilities are available it is bound,
and the entry's group, if it has one, is used up.

The mark is set before the capabilities are looked at.  A device whose entry lacks them is passed
over with the remark "try next driver", but it is claimed by then, and no later entry looks at it.
`isBlocking_matching` is what the two loops do, and `Framework/Assignment.lean` compares it with
the fair assignment: `pci_matching_fair_iff` says exactly for which tables and devices the two
agree.

`init` receives a copy of the device, and its status is only logged; what is kept of it is whether
it is called.  The cached BARs and the interrupt line are not read here.
-/

namespace Cuore

/-! ## Devices and entries -/

/-- `PCI_VENDOR_ANY`. -/
def pciVendorAny : ℕ := 0xFFFF

/-- `PCI_DEVICE_ANY`. -/
def pciDeviceAny : ℕ := 0xFFFF

/-- `PCI_ID_ANY`. -/
def pciIdAny : ℕ := 0xFF

/-- The fields of `pci_dev_t` that the matching reads. -/
structure PciDev where
  vendorId : ℕ
  deviceId : ℕ
  classId : ℕ
  subclassId : ℕ
  progif : ℕ

/-- `pci_driver_entry_t`; of `init`, whether there is one. -/
structure PciDriverEntry where
  vendorId : ℕ
  deviceId : ℕ
  classId : ℕ
  subclassId : ℕ
  progif : ℕ
  groupId : ℕ
  requiredCapabilities : ℕ
  init : Bool

/-- `pci_check_driver_capabilities`, with `PCI_CAP_ECAM` as bit zero. -/
def pciCheckDriverCapabilities (mcfgIsInitialized : Bool) (requiredCaps : ℕ) : Bool :=
  if requiredCaps &&& 1 ≠ 0 ∧ mcfgIsInitialized = false then false else true

/-- The checks of an entry against a device, in their order. -/
def PciDriverEntry.matchesDev (entry : PciDriverEntry) (dev : PciDev) : Bool :=
  let ok := true
  -- vendor id check
  let ok := if entry.vendorId ≠ pciVendorAny ∧ entry.vendorId ≠ dev.vendorId then false else ok
  -- device id check
  let ok :=
    if ok ∧ entry.deviceId ≠ pciDeviceAny ∧ entry.deviceId ≠ dev.deviceId then false else ok
  -- class/subclass check
  let ok :=
    if ok ∧ entry.classId ≠ pciIdAny then
      if dev.classId ≠ entry.classId then false
      else if entry.subclassId ≠ pciIdAny ∧ dev.subclassId ≠ entry.subclassId then false else ok
    else ok
  -- progif check
  if ok ∧ entry.progif ≠ pciIdAny then
    if dev.progif ≠ entry.progif then false else ok
  else ok

/-! ## The matching loops -/

/-- The variables of the loops, with the bindings made so far and the calls of `init`, as pairs of
an index into the table and one into the devices. -/
structure PciMatching where
  claimed : ℕ → Bool
  claimedGroups : ℕ
  bindings : List (ℕ × ℕ)
  initCalls : List (ℕ × ℕ)

/-- Before the loops. -/
def PciMatching.start : PciMatching := ⟨fun _ => false, 0, [], []⟩

/-- The body of the inner loop behind the capability check: the binding of device `j` to entry
`i`. -/
def PciMatching.bind (s : PciMatching) (entry : PciDriverEntry) (i j : ℕ) : PciMatching :=
  { s with
    claimedGroups :=
      if entry.groupId ≠ 0 then s.claimedGroups ||| ((1 <<< entry.groupId) % 2 ^ 32)
      else s.claimedGroups
    bindings := s.bindings ++ [(i, j)]
    initCalls := if entry.init then s.initCalls ++ [(i, j)] else s.initCalls }

/-- The inner loop, over the devices from index `j` on. -/
def pciDeviceLoop (mcfgIsInitialized : Bool) (entry : PciDriverEntry) (i : ℕ) :
    List PciDev → ℕ → PciMatching → PciMatching
  | [], _, s => s
  | dev :: devs, j, s =>
    if s.claimed j then pciDeviceLoop mcfgIsInitialized entry i devs (j + 1) s
    else if entry.matchesDev dev then
      let s := { s with claimed := fun k => if k = j then true else s.claimed k }
      if ¬pciCheckDriverCapabilities mcfgIsInitialized entry.requiredCapabilities then
        -- try next driver
        pciDeviceLoop mcfgIsInitialized entry i devs (j + 1) s
      else
        let s := s.bind entry i j
        if entry.groupId ≠ 0 then s
        else pciDeviceLoop mcfgIsInitialized entry i devs (j + 1) s
    else pciDeviceLoop mcfgIsInitialized entry i devs (j + 1) s

/-- The outer loop, over the entries from index `i` on. -/
def pciTableLoop (mcfgIsInitialized : Bool) (devs : List PciDev) :
    List PciDriverEntry → ℕ → PciMatching → PciMatching
  | [], _, s => s
  | entry :: entries, i, s =>
    if entry.groupId ≠ 0 ∧ s.claimedGroups &&& ((1 <<< entry.groupId) % 2 ^ 32) ≠ 0 then
      pciTableLoop mcfgIsInitialized devs entries (i + 1) s
    else
      pciTableLoop mcfgIsInitialized devs entries (i + 1)
        (pciDeviceLoop mcfgIsInitialized entry i devs 0 s)

/-- The matching of `pci_init`. -/
def pciMatching (mcfgIsInitialized : Bool) (table : List PciDriverEntry) (devs : List PciDev) :
    PciMatching :=
  pciTableLoop mcfgIsInitialized devs table 0 .start

/-! ## What the loops decide -/

section Spec

variable (mcfgIsInitialized : Bool) (table : List PciDriverEntry) (devs : List PciDev)

/-- The group of an entry of the table. -/
def pciGroup (i : ℕ) : ℕ :=
  match table[i]? with
  | some entry => entry.groupId
  | none => 0

/-- Entry `i` matches device `j`. -/
def PciTouches (i j : ℕ) : Prop :=
  ∃ entry dev, table[i]? = some entry ∧ devs[j]? = some dev ∧ entry.matchesDev dev = true

/-- Entry `i` matches device `j` and has its capabilities. -/
def PciWants (i j : ℕ) : Prop :=
  PciTouches table devs i j ∧ ∃ entry, table[i]? = some entry ∧
    pciCheckDriverCapabilities mcfgIsInitialized entry.requiredCapabilities = true

variable {mcfgIsInitialized table devs}

/-- The set of pairs in a list of bindings. -/
def boundIn (bindings : List (ℕ × ℕ)) (i j : ℕ) : Prop := (i, j) ∈ bindings

/-- **The loop invariant** in front of entry `i` and device `j`. -/
structure PciInv (mcfgIsInitialized : Bool) (table : List PciDriverEntry) (devs : List PciDev)
    (s : PciMatching) (i j : ℕ) : Prop where
  /-- the bindings so far are the blocking outcome on the pairs before -/
  bindings : ∀ i' j', boundIn s.bindings i' j' ↔ Before i' j' i j ∧
    Claims (pciGroup table) (PciWants mcfgIsInitialized table devs) (boundIn s.bindings) i' j' ∧
    ∀ k < i', ¬Claims (pciGroup table) (PciTouches table devs) (boundIn s.bindings) k j'
  /-- a device is claimed once an entry has touched it -/
  claimed : ∀ j', s.claimed j' = true ↔ ∃ i', Before i' j' i j ∧
    Claims (pciGroup table) (PciTouches table devs) (boundIn s.bindings) i' j'
  /-- the mask holds the groups of the bindings -/
  groups : ∀ g, 0 < g →
    (s.claimedGroups.testBit g = true ↔ ∃ p ∈ s.bindings, pciGroup table p.1 = g)
  nodup : s.bindings.Nodup
  initCalls : s.initCalls = s.bindings.filter fun p =>
    match table[p.1]? with
    | some entry => entry.init
    | none => false

lemma pciInv_start : PciInv mcfgIsInitialized table devs .start 0 0 where
  bindings i' j' := iff_of_false List.not_mem_nil fun h => not_before_zero i' j' h.1
  claimed j' := iff_of_false (by simp [PciMatching.start])
    fun ⟨i', h, _⟩ => not_before_zero i' j' h
  groups g _ := by simp [PciMatching.start]
  nodup := List.nodup_nil
  initCalls := rfl

namespace PciInv

variable {s s' : PciMatching} {i j : ℕ}

/-- The rest of the row of an entry that claims nothing more. -/
lemma skip (h : PciInv mcfgIsInitialized table devs s i j)
    (hrest : ∀ j' ≥ j, ¬Claims (pciGroup table) (PciTouches table devs) (boundIn s.bindings) i j') :
    PciInv mcfgIsInitialized table devs s (i + 1) 0 where
  bindings i' j' := by
    rw [h.bindings, before_next (j := j)]
    constructor
    · rintro ⟨hb, hclaims⟩
      exact ⟨Or.inl hb, hclaims⟩
    · rintro ⟨hb | ⟨rfl, hj⟩, hclaims⟩
      · exact ⟨hb, hclaims⟩
      · exact absurd (hclaims.1.mono fun _ _ hw => hw.1) (hrest j' hj)
  claimed j' := by
    rw [h.claimed]
    simp only [before_next (j := j)]
    constructor
    · rintro ⟨i', hb, hclaims⟩
      exact ⟨i', Or.inl hb, hclaims⟩
    · rintro ⟨i', hb | ⟨rfl, hj⟩, hclaims⟩
      · exact ⟨i', hb, hclaims⟩
      · exact absurd hclaims (hrest j' hj)
  groups := h.groups
  nodup := h.nodup
  initCalls := h.initCalls

/-- A visit that binds nothing and marks the device if the entry touches it. -/
lemma visit (h : PciInv mcfgIsInitialized table devs s i j)
    (hclaimed : ∀ j', s'.claimed j' = true ↔ s.claimed j' = true ∨
      j' = j ∧ Claims (pciGroup table) (PciTouches table devs) (boundIn s.bindings) i j)
    (hnot : Claims (pciGroup table) (PciWants mcfgIsInitialized table devs)
      (boundIn s.bindings) i j → s.claimed j = true)
    (hgroups : s'.claimedGroups = s.claimedGroups) (hbindings : s'.bindings = s.bindings)
    (hcalls : s'.initCalls = s.initCalls) :
    PciInv mcfgIsInitialized table devs s' i (j + 1) where
  bindings i' j' := by
    rw [hbindings, h.bindings, before_succ]
    constructor
    · rintro ⟨hb, hclaims⟩
      exact ⟨Or.inl hb, hclaims⟩
    · rintro ⟨hb | ⟨rfl, rfl⟩, hclaims, hfirst⟩
      · exact ⟨hb, hclaims, hfirst⟩
      · obtain ⟨k, hk, hk'⟩ := (h.claimed j').1 (hnot hclaims)
        rcases hk with hlt | ⟨rfl, hlt⟩
        · exact absurd hk' (hfirst k hlt)
        · exact absurd hlt (Nat.lt_irrefl _)
  claimed j' := by
    rw [hclaimed, h.claimed, hbindings]
    simp only [before_succ]
    constructor
    · rintro (⟨i', hb, hclaims⟩ | ⟨rfl, hclaims⟩)
      · exact ⟨i', Or.inl hb, hclaims⟩
      · exact ⟨i, Or.inr ⟨rfl, rfl⟩, hclaims⟩
    · rintro ⟨i', hb | ⟨rfl, rfl⟩, hclaims⟩
      · exact Or.inl ⟨i', hb, hclaims⟩
      · exact Or.inr ⟨rfl, hclaims⟩
  groups := by
    rw [hgroups, hbindings]
    exact h.groups
  nodup := by
    rw [hbindings]
    exact h.nodup
  initCalls := by
    rw [hcalls, hbindings]
    exact h.initCalls

/-- A device that is claimed already is passed over. -/
lemma visitClaimed (h : PciInv mcfgIsInitialized table devs s i j) (hclaimed : s.claimed j = true) :
    PciInv mcfgIsInitialized table devs s i (j + 1) :=
  h.visit (fun _ => (or_iff_left_of_imp fun hj => hj.1 ▸ hclaimed).symm) (fun _ => hclaimed) rfl rfl
    rfl

/-- A device that the entry does not match is passed over. -/
lemma visitUnmatched (h : PciInv mcfgIsInitialized table devs s i j)
    (hnot : ¬PciTouches table devs i j) : PciInv mcfgIsInitialized table devs s i (j + 1) :=
  h.visit (fun _ => (or_iff_left fun heq => hnot heq.2.1).symm)
    (fun hclaims => absurd hclaims.1.1 hnot) rfl rfl rfl

/-- A device that the entry matches without its capabilities is marked, and nothing else
happens. -/
lemma visitHeld (h : PciInv mcfgIsInitialized table devs s i j)
    (hclaims : Claims (pciGroup table) (PciTouches table devs) (boundIn s.bindings) i j)
    (hnot : ¬PciWants mcfgIsInitialized table devs i j) :
    PciInv mcfgIsInitialized table devs
      { s with claimed := fun k => if k = j then true else s.claimed k } i (j + 1) := by
  refine h.visit (fun j' => ?_) (fun hwants => absurd hwants.1 hnot) rfl rfl rfl
  dsimp only
  split_ifs with hj
  · exact iff_of_true rfl (Or.inr ⟨hj, hclaims⟩)
  · exact (or_iff_left fun heq => hj heq.1).symm

/-- A device that no entry before has claimed. -/
lemma not_claims (h : PciInv mcfgIsInitialized table devs s i j) (hnew : ¬s.claimed j = true)
    {k : ℕ} (hk : k < i) : ¬Claims (pciGroup table) (PciTouches table devs)
      (boundIn s.bindings) k j := fun hclaims =>
  hnew ((h.claimed j).2 ⟨k, Or.inl hk, hclaims⟩)

lemma testBit_shift {g : ℕ} (hg : g < 32) (i : ℕ) :
    ((1 <<< g) % 2 ^ 32).testBit i = true ↔ g = i := by
  rw [Nat.one_shiftLeft, Nat.mod_eq_of_lt (Nat.pow_lt_pow_right (by decide) hg),
    Nat.testBit_two_pow, decide_eq_true_iff]

/-- The test of a group in the mask. -/
lemma mask_ne_zero {g : ℕ} (hg : g < 32) (mask : ℕ) :
    mask &&& ((1 <<< g) % 2 ^ 32) ≠ 0 ↔ mask.testBit g = true := by
  rw [Nat.one_shiftLeft, Nat.mod_eq_of_lt (Nat.pow_lt_pow_right (by decide) hg), Nat.and_two_pow]
  cases mask.testBit g <;> simp

lemma boundIn_append (bindings : List (ℕ × ℕ)) (i' j' : ℕ) :
    boundIn (bindings ++ [(i, j)]) i' j' ↔ boundIn bindings i' j' ∨ i' = i ∧ j' = j := by
  simp [boundIn]

/-- The mask after a binding. -/
lemma groups_bind (h : PciInv mcfgIsInitialized table devs s i j) {entry : PciDriverEntry}
    (hentry : table[i]? = some entry) (hg : entry.groupId < 32) {g : ℕ} (hpos : 0 < g) :
    (s.bind entry i j).claimedGroups.testBit g = true ↔
      ∃ p ∈ s.bindings ++ [(i, j)], pciGroup table p.1 = g := by
  have hgroup : pciGroup table i = entry.groupId := by rw [pciGroup, hentry]
  have hold := h.groups g hpos
  simp only [PciMatching.bind, List.mem_append, List.mem_singleton, or_and_right, exists_or,
    exists_eq_left, hgroup]
  split_ifs with hzero
  · rw [Nat.testBit_or, Bool.or_eq_true, hold, testBit_shift hg]
  · rw [hold]
    refine (or_iff_left fun heq => ?_).symm
    omega

/-- A visit that binds the device. -/
lemma bindVisit (h : PciInv mcfgIsInitialized table devs s i j) {entry : PciDriverEntry}
    (hentry : table[i]? = some entry) (hg : entry.groupId < 32)
    (hclaims : Claims (pciGroup table) (PciWants mcfgIsInitialized table devs)
      (boundIn s.bindings) i j) (hnew : ¬s.claimed j = true) :
    PciInv mcfgIsInitialized table devs
      (PciMatching.bind { s with claimed := fun k => if k = j then true else s.claimed k }
        entry i j) i (j + 1) where
  bindings := IsBlockingBefore.add h.bindings hclaims (fun _ hk => h.not_claims hnew hk)
    (boundIn_append s.bindings)
  claimed j' := by
    refine Iff.trans ?_ (exists_claims_add (boundIn_append s.bindings)
      (hclaims.mono fun _ _ hw => hw.1)).symm
    simp only [PciMatching.bind]
    split_ifs with hj
    · exact iff_of_true rfl (Or.inr hj)
    · rw [h.claimed]
      exact (or_iff_left hj).symm
  groups _ hpos := h.groups_bind hentry hg hpos
  nodup := by
    refine List.nodup_append.2 ⟨h.nodup, List.nodup_singleton _, fun p hp q hq => ?_⟩
    rw [List.mem_singleton] at hq
    rintro rfl
    rw [hq] at hp
    exact Before.irrefl i j ((h.bindings i j).1 hp).1
  initCalls := by
    simp only [PciMatching.bind, List.filter_append, ← h.initCalls, List.filter_cons,
      List.filter_nil, hentry]
    split_ifs <;> simp

end PciInv

/-! ## The loops keep the invariant -/

lemma pciTouches_iff {entry : PciDriverEntry} {dev : PciDev} {i j : ℕ}
    (hentry : table[i]? = some entry) (hdev : devs[j]? = some dev) :
    PciTouches table devs i j ↔ entry.matchesDev dev = true := by
  constructor
  · rintro ⟨entry', dev', hentry', hdev', hmatch⟩
    cases hentry.symm.trans hentry'
    cases hdev.symm.trans hdev'
    exact hmatch
  · exact fun hmatch => ⟨entry, dev, hentry, hdev, hmatch⟩

lemma pciWants_iff {entry : PciDriverEntry} {i j : ℕ} (hentry : table[i]? = some entry) :
    PciWants mcfgIsInitialized table devs i j ↔ PciTouches table devs i j ∧
      pciCheckDriverCapabilities mcfgIsInitialized entry.requiredCapabilities = true := by
  refine and_congr_right fun _ => ⟨?_, fun hcaps => ⟨entry, hentry, hcaps⟩⟩
  rintro ⟨entry', hentry', hcaps⟩
  cases hentry.symm.trans hentry'
  exact hcaps

/-- **The inner loop** completes the row of its entry. -/
lemma pciDeviceLoop_inv {entry : PciDriverEntry} {i : ℕ} (hentry : table[i]? = some entry)
    (hg : entry.groupId < 32) {rest : List PciDev} {j : ℕ} {s : PciMatching}
    (hrest : devs.drop j = rest) (h : PciInv mcfgIsInitialized table devs s i j)
    (hfree : entry.groupId = 0 ∨ ∀ p ∈ s.bindings, pciGroup table p.1 ≠ entry.groupId) :
    PciInv mcfgIsInitialized table devs (pciDeviceLoop mcfgIsInitialized entry i rest j s)
      (i + 1) 0 := by
  have hgroup : pciGroup table i = entry.groupId := by rw [pciGroup, hentry]
  induction rest generalizing j s with
  | nil =>
    refine h.skip fun j' hj hclaims => ?_
    obtain ⟨_, _, -, hdev, -⟩ := hclaims.1
    rw [List.drop_eq_nil_iff] at hrest
    rw [List.getElem?_eq_none (hrest.trans hj)] at hdev
    cases hdev
  | cons dev rest ih =>
    have hdev : devs[j]? = some dev := by
      rw [← List.head?_drop, hrest, List.head?_cons]
    have htail : devs.drop (j + 1) = rest := by
      rw [← List.tail_drop, hrest, List.tail_cons]
    rw [pciDeviceLoop]
    by_cases hclaimed : s.claimed j = true
    · rw [if_pos hclaimed]
      exact ih htail (h.visitClaimed hclaimed) hfree
    rw [if_neg hclaimed]
    by_cases hmatch : entry.matchesDev dev = true
    swap
    · rw [if_neg hmatch]
      exact ih htail (h.visitUnmatched (mt (pciTouches_iff hentry hdev).1 hmatch)) hfree
    rw [if_pos hmatch]
    dsimp only
    have htouch : PciTouches table devs i j := (pciTouches_iff hentry hdev).2 hmatch
    have hhere : GroupFree (pciGroup table) (boundIn s.bindings) i j := by
      rw [GroupFree, hgroup]
      exact hfree.imp id fun hnone i' j' _ hmem => hnone _ hmem
    by_cases hcaps : pciCheckDriverCapabilities mcfgIsInitialized
        entry.requiredCapabilities = true
    swap
    · rw [if_pos hcaps]
      exact ih htail (h.visitHeld ⟨htouch, hhere⟩ fun hwants =>
        hcaps ((pciWants_iff hentry).1 hwants).2) hfree
    rw [if_neg (not_not_intro hcaps)]
    have hbind := h.bindVisit hentry hg ⟨(pciWants_iff hentry).2 ⟨htouch, hcaps⟩, hhere⟩ hclaimed
    by_cases hzero : entry.groupId ≠ 0
    · -- the group is used up by this binding
      rw [if_pos hzero]
      refine hbind.skip fun j' hj hclaims => ?_
      rcases hclaims.2 with hnone | hnone
      · exact hzero (hgroup ▸ hnone)
      · exact hnone i j (Or.inr ⟨rfl, hj⟩) ((PciInv.boundIn_append _ i j).2 (Or.inr ⟨rfl, rfl⟩)) rfl
    · rw [if_neg hzero]
      exact ih htail hbind (Or.inl (not_not.1 hzero))

/-- **The outer loop** completes the table. -/
lemma pciTableLoop_inv (hgroups : ∀ entry ∈ table, entry.groupId < 32)
    {rest : List PciDriverEntry} {i : ℕ} {s : PciMatching} (hrest : table.drop i = rest)
    (h : PciInv mcfgIsInitialized table devs s i 0) :
    ∃ n ≥ table.length,
      PciInv mcfgIsInitialized table devs (pciTableLoop mcfgIsInitialized devs rest i s) n 0 := by
  induction rest generalizing i s with
  | nil => exact ⟨i, List.drop_eq_nil_iff.1 hrest, h⟩
  | cons entry rest ih =>
    have hentry : table[i]? = some entry := by
      rw [← List.head?_drop, hrest, List.head?_cons]
    have htail : table.drop (i + 1) = rest := by
      rw [← List.tail_drop, hrest, List.tail_cons]
    have hg := hgroups entry (List.mem_of_getElem? hentry)
    have hgroup : pciGroup table i = entry.groupId := by rw [pciGroup, hentry]
    rw [pciTableLoop]
    split_ifs with hskip
    · -- the group is used up by an earlier entry
      refine ih htail (h.skip fun j' _ hclaims => ?_)
      obtain ⟨p, hp, hpg⟩ := (h.groups _ (Nat.pos_of_ne_zero hskip.1)).1
        ((PciInv.mask_ne_zero hg _).1 hskip.2)
      have hbefore := ((h.bindings p.1 p.2).1 hp).1
      rcases hclaims.2 with hnone | hnone
      · exact hskip.1 (hgroup ▸ hnone)
      · refine hnone p.1 p.2 ?_ hp (hpg.trans hgroup.symm)
        simp only [Before] at hbefore ⊢
        omega
    · refine ih htail (pciDeviceLoop_inv hentry hg rfl h ?_)
      by_cases hzero : entry.groupId = 0
      · exact Or.inl hzero
      · refine Or.inr fun p hp hpg => hskip ⟨hzero, (PciInv.mask_ne_zero hg _).2 ?_⟩
        exact (h.groups _ (Nat.pos_of_ne_zero hzero)).2 ⟨p, hp, hpg⟩

lemma pciMatching_inv (hgroups : ∀ entry ∈ table, entry.groupId < 32) :
    ∃ n ≥ table.length, PciInv mcfgIsInitialized table devs
      (pciMatching mcfgIsInitialized table devs) n 0 :=
  pciTableLoop_inv hgroups rfl pciInv_start

/-- **What the matching does**: every device goes to the first entry that matches it with its
group free, if that entry has its capabilities, and to none otherwise. -/
lemma isBlocking_matching (hgroups : ∀ entry ∈ table, entry.groupId < 32) :
    IsBlocking (pciGroup table) (PciTouches table devs) (PciWants mcfgIsInitialized table devs)
      (boundIn (pciMatching mcfgIsInitialized table devs).bindings) := by
  obtain ⟨n, hn, h⟩ : ∃ n ≥ table.length, PciInv mcfgIsInitialized table devs
      (pciMatching mcfgIsInitialized table devs) n 0 := pciMatching_inv hgroups
  intro i j
  refine (h.bindings i j).trans (and_iff_right_of_imp fun hclaims => ?_)
  obtain ⟨entry, -, hentry, -⟩ := hclaims.1.1.1
  have hi := (List.getElem?_eq_some_iff.1 hentry).1
  exact Or.inl (hi.trans_le hn)

end Spec

/-! ## Fairness -/

/-- **Driver binding is fair and exclusive.** -/
structure PciFair (mcfgIsInitialized : Bool) (table : List PciDriverEntry) (devs : List PciDev)
    (s : PciMatching) : Prop where
  /-- `init` is called for bindings, where there is one -/
  initCalls : s.initCalls = s.bindings.filter fun p =>
    match table[p.1]? with
    | some entry => entry.init
    | none => false
  /-- no binding is made twice -/
  once : s.bindings.Nodup
  /-- a device is bound to at most one entry -/
  device : ∀ i i' j, (i, j) ∈ s.bindings → (i', j) ∈ s.bindings → i = i'
  /-- a group is bound at most once -/
  group : ∀ p ∈ s.bindings, ∀ q ∈ s.bindings, pciGroup table p.1 ≠ 0 →
    pciGroup table p.1 = pciGroup table q.1 → p = q
  /-- a device is bound to the first entry that matches it, has its capabilities and whose group
  no earlier binding has claimed -/
  fair : IsFair (pciGroup table) (PciWants mcfgIsInitialized table devs) (boundIn s.bindings)

/-- **When the binding is fair**: exactly if no device is matched, in front of the entry that
should get it, by an entry that lacks its capabilities and whose group is free at that point. -/
theorem pci_matching_fair_iff (mcfgIsInitialized : Bool) (table : List PciDriverEntry)
    (devs : List PciDev) (hgroups : ∀ entry ∈ table, entry.groupId < 32) :
    PciFair mcfgIsInitialized table devs (pciMatching mcfgIsInitialized table devs) ↔
      ∀ i j, assigned (pciGroup table) (PciWants mcfgIsInitialized table devs) i j → ∀ i' < i,
        PciTouches table devs i' j → ¬PciWants mcfgIsInitialized table devs i' j →
          ¬GroupFree (pciGroup table)
            (assigned (pciGroup table) (PciWants mcfgIsInitialized table devs)) i' j := by
  have hblock : IsBlocking (pciGroup table) (PciTouches table devs)
    (PciWants mcfgIsInitialized table devs) _ := isBlocking_matching hgroups
  obtain ⟨n, -, h⟩ := pciMatching_inv hgroups
  rw [← hblock.isFair_iff fun _ _ hw => hw.1]
  refine ⟨fun hall => hall.fair, fun hfair => ⟨h.initCalls, h.nodup, ?_, ?_, hfair⟩⟩
  · exact fun i i' j hi hi' => hblock.taker_eq (fun _ _ hw => hw.1) hi hi'
  · intro p hp q hq hgroup heq
    exact Prod.ext_iff.2 (hblock.pair_eq hp hq hgroup heq)

/-- With the extended configuration space, both entries have their capabilities. -/
theorem pci_matching_fair_iff_ecam :
    PciFair true
      [⟨pciVendorAny, pciDeviceAny, 0x05, 0x02, pciIdAny, 0, 1, true⟩,
        ⟨0x1AF4, 0x1110, 0x05, pciIdAny, pciIdAny, 0, 0, true⟩]
      [⟨0x1AF4, 0x1110, 0x05, 0x02, 0x00⟩]
      (pciMatching true
        [⟨pciVendorAny, pciDeviceAny, 0x05, 0x02, pciIdAny, 0, 1, true⟩,
          ⟨0x1AF4, 0x1110, 0x05, pciIdAny, pciIdAny, 0, 0, true⟩]
        [⟨0x1AF4, 0x1110, 0x05, 0x02, 0x00⟩]) := by
  refine (pci_matching_fair_iff true _ _ (by decide)).2 fun i j _ i' _ htouch hnot => ?_
  obtain ⟨entry, dev, hentry, hdev, hmatch⟩ := htouch
  refine absurd ⟨⟨entry, dev, hentry, hdev, hmatch⟩, entry, hentry, ?_⟩ hnot
  simp [pciCheckDriverCapabilities]

/-- Without the extended configuration space, a memory device that a table offers first to a
driver that needs it stays unbound, though the next entry matches it too. -/
theorem pci_matching_not_fair :
    ¬PciFair false
      [⟨pciVendorAny, pciDeviceAny, 0x05, 0x02, pciIdAny, 0, 1, true⟩,
        ⟨0x1AF4, 0x1110, 0x05, pciIdAny, pciIdAny, 0, 0, true⟩]
      [⟨0x1AF4, 0x1110, 0x05, 0x02, 0x00⟩]
      (pciMatching false
        [⟨pciVendorAny, pciDeviceAny, 0x05, 0x02, pciIdAny, 0, 1, true⟩,
          ⟨0x1AF4, 0x1110, 0x05, pciIdAny, pciIdAny, 0, 0, true⟩]
        [⟨0x1AF4, 0x1110, 0x05, 0x02, 0x00⟩]) := by
  intro h
  have hbound := (h.fair 1 0).2 ⟨⟨⟨⟨_, _, rfl, rfl, by decide⟩, _, rfl, by decide⟩, Or.inl rfl⟩, ?_⟩
  · have hnone : (pciMatching false
        [⟨pciVendorAny, pciDeviceAny, 0x05, 0x02, pciIdAny, 0, 1, true⟩,
          ⟨0x1AF4, 0x1110, 0x05, pciIdAny, pciIdAny, 0, 0, true⟩]
        [⟨0x1AF4, 0x1110, 0x05, 0x02, 0x00⟩]).bindings = [] := by decide
    rw [boundIn, hnone] at hbound
    cases hbound
  · rintro k hk ⟨⟨-, entry, hentry, hcaps⟩, -⟩
    have hk0 : k = 0 := by omega
    subst hk0
    cases hentry
    exact absurd hcaps (by decide)

end Cuore
