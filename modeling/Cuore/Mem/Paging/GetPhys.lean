import Cuore.Mem.Paging.Frame

/-!
# `paging_get_phys` and the page walk

The kernel reads translations back with `paging_get_phys`.  At the last level it masks the entry
with `PTE_ADDR_MASK`; for a huge entry it only clears the offset bits, so the attributes above the
address remain, and a huge page mapped with `PTE_NX` reads back with bit 63 set.

`PlainEntry` is what the entries of all trees look like that the map functions build, and
`CleanEntry` what they look like when no huge page carries `PTE_NX`.  Both are an `EntryInv`, so
every sequence of map and unmap calls keeps them.  On a plain tree `paging_get_phys` is the page
walk up to bit 63 (`getPhysFrom_plain`), on a clean tree it is the page walk.
-/

namespace Cuore

/-! ## Plain and clean trees -/

/-- A present entry has no bit between the address and bit 63, and is huge at levels 1 and 2
only. -/
def PlainEntry (l e : ℕ) : Prop :=
  e.testBit 0 = true → (∀ i, 52 ≤ i → i < 63 → e.testBit i = false) ∧
    (1 ≤ l → e.testBit 7 = true → l ≤ 2)

/-- In addition, a huge entry does not have bit 63. -/
def CleanEntry (l e : ℕ) : Prop :=
  PlainEntry l e ∧ (e.testBit 0 = true → 1 ≤ l → e.testBit 7 = true → e.testBit 63 = false)

lemma plainEntry_tableEntry {l p f : ℕ} (hp : pageSize ∣ p ∧ p < physLimit)
    (hf : ∀ i, f.testBit i = true → i = 0 ∨ i = 1 ∨ i = 2 ∨ i = 63) :
    PlainEntry l (p ||| f) ∧ (p ||| f).testBit 7 = false := by
  have h7 : (p ||| f).testBit 7 = false := by
    rw [testBit_tableEntry hp (.inl (by decide))]
    have := hf 7
    grind
  refine ⟨fun _ => ⟨fun i hi hi' => ?_, fun _ h => ?_⟩, h7⟩
  · rw [testBit_tableEntry hp (.inr hi)]
    have := hf i
    grind
  · rw [h7] at h
    exact absurd h (by simp)

lemma plainEntry_zero (l : ℕ) : PlainEntry l 0 := fun h => absurd h (by simp)

lemma plainEntry_splitEntry {l e i : ℕ} (hl : l < 2) (hi : i < 512) (he : e < word)
    (h0 : e.testBit 0 = true) (h : PlainEntry (l + 1) e) :
    PlainEntry l (splitEntry e (l + 1) i) := by
  refine fun _ => ⟨fun j hj hj' => ?_, fun _ _ => by omega⟩
  rw [testBit_splitEntry he (by omega) (by omega) hi, if_pos (by omega)]
  exact (h h0).1 j hj hj'

lemma plainEntry_entryInv : EntryInv PlainEntry where
  reserved l e h hl h0 := by
    by_contra h7
    have := (h h0).2 (by omega) (by simpa using h7)
    omega
  zero := plainEntry_zero
  newTable _ _ hp := (plainEntry_tableEntry hp fun _ h => newTableFlags_bits h).1
  splitTable _ _ _ hp _ := (plainEntry_tableEntry hp fun _ h => splitTableFlags_bits h).1
  piece _ _ _ hl hi he h0 _ h := plainEntry_splitEntry hl hi he h0 h

lemma cleanEntry_entryInv : EntryInv CleanEntry where
  reserved l e h := plainEntry_entryInv.reserved l e h.1
  zero l := ⟨plainEntry_zero l, fun h => absurd h (by simp)⟩
  newTable l p hp := by
    obtain ⟨hplain, h7⟩ := plainEntry_tableEntry (l := l + 1) hp fun _ h => newTableFlags_bits h
    exact ⟨hplain, fun _ _ h => absurd h (by simp [h7])⟩
  splitTable l e p hp _ := by
    obtain ⟨hplain, h7⟩ := plainEntry_tableEntry (l := l + 1) (f := e &&& _) hp
      fun _ h => splitTableFlags_bits h
    exact ⟨hplain, fun _ _ h => absurd h (by simp [h7])⟩
  piece l e i hl hi he h0 h7 h := by
    refine ⟨plainEntry_splitEntry hl hi he h0 h.1, fun _ _ _ => ?_⟩
    rw [testBit_splitEntry he (by omega) (by omega) hi, if_pos (by omega)]
    exact h.2 h0 (by omega) h7

/-- Attribute flags as the callers pass them: bits 0 to 6, 8 to 11 and 63. -/
def AttributeFlags (flags : ℕ) : Prop :=
  ∀ i, flags.testBit i = true → i ≤ 6 ∨ 8 ≤ i ∧ i ≤ 11 ∨ i = 63

lemma AttributeFlags.lt {flags : ℕ} (h : AttributeFlags flags) : flags < word := by
  refine lt_word_of_testBit fun i hi => ?_
  have := h i
  grind

lemma AttributeFlags.addr {flags : ℕ} (h : AttributeFlags flags) :
    flags &&& bitsMask 12 52 = 0 := by
  refine Nat.eq_of_testBit_eq fun i => ?_
  rw [Nat.testBit_and, testBit_bitsMask (by decide), Nat.zero_testBit]
  have := h i
  grind

/-- The entry for a mapping is plain. -/
lemma plainEntry_entry {kind : PageKind} {phys flags : ℕ} (hphys : ∀ i, 52 ≤ i → i < 63 →
    phys.testBit i = false) (hflags : AttributeFlags flags) :
    PlainEntry kind.level (kind.entry phys flags) := by
  refine fun _ => ⟨fun i hi hi' => ?_, fun _ _ => kind.level_le⟩
  rw [testBit_entry, hphys i hi hi']
  have := hflags i
  grind

/-- It is clean, unless it is huge and not executable. -/
lemma cleanEntry_entry {kind : PageKind} {phys flags : ℕ} (hphys : phys < physLimit)
    (hflags : AttributeFlags flags) (hnx : kind ≠ .page4kb → flags &&& pteNx = 0) :
    CleanEntry kind.level (kind.entry phys flags) := by
  have hpbit : ∀ i, 52 ≤ i → phys.testBit i = false := fun i hi =>
    Nat.testBit_lt_two_pow (lt_of_lt_of_le hphys (Nat.pow_le_pow_right (by decide) hi))
  refine ⟨plainEntry_entry (fun i hi _ => hpbit i hi) hflags, fun _ hl _ => ?_⟩
  have hkind : kind ≠ .page4kb := by
    rintro rfl
    simp [PageKind.level] at hl
  have h63 : flags.testBit 63 = false := by
    have := hnx hkind
    rw [pteNx, ← not_ne_iff, and_two_pow_ne_zero] at this
    simpa using this
  rw [testBit_entry, hpbit 63 (by decide), h63]
  grind

/-! ## Reading back -/

lemma clear_of_plainEntry {l e : ℕ} (h : PlainEntry l e) (h0 : e.testBit 0 = true) :
    e &&& bitsMask 52 60 = 0 := by
  refine Nat.eq_of_testBit_eq fun i => ?_
  have := (h h0).1 i
  rw [Nat.testBit_and, testBit_bitsMask (by decide), Nat.zero_testBit]
  grind

/-- Clearing the offset leaves the frame, and bit 63. -/
lemma frame_of_plainEntry {l e : ℕ} (he : e < word) (h : PlainEntry (l + 1) e)
    (h0 : e.testBit 0 = true) (h7 : e.testBit 7 = true) :
    e &&& wnot (2 ^ (12 + (l + 1) * 9) - 1) =
      alignDown (2 ^ (12 + (l + 1) * 9)) (hwAddr e) + if e.testBit 63 then 2 ^ 63 else 0 := by
  obtain ⟨hbits, hnx⟩ := h h0
  have hl := hnx (by omega) h7
  have hlow : alignDown (2 ^ (12 + (l + 1) * 9)) (hwAddr e) < 2 ^ 63 :=
    lt_of_le_of_lt (alignDown_le _ _) (lt_trans (hwAddr_aligned e).2 (by decide))
  have hor : alignDown (2 ^ (12 + (l + 1) * 9)) (hwAddr e) + (if e.testBit 63 then 2 ^ 63 else 0) =
      alignDown (2 ^ (12 + (l + 1) * 9)) (hwAddr e) ||| (if e.testBit 63 then 2 ^ 63 else 0) := by
    split_ifs
    · rw [Nat.add_comm, Nat.or_comm]
      exact Nat.two_pow_add_eq_or_of_lt hlow 1
    · simp
  rw [hor, and_wnot_pred (by omega) he]
  refine Nat.eq_of_testBit_eq fun i => ?_
  rw [Nat.testBit_or, testBit_alignDown, testBit_alignDown, testBit_hwAddr]
  have := hbits i
  have h64 := fun h => testBit_of_lt_word (i := i) he h
  have hpow : (2 ^ 63).testBit i = decide (63 = i) := Nat.testBit_two_pow
  by_cases hi : i = 63
  · subst hi
    have hk : 12 + (l + 1) * 9 ≤ 63 := by omega
    cases e.testBit 63 with
    | false => simp
    | true => simp only [hpow, hk, if_true, decide_true, Bool.and_true, Bool.or_true]
  · split_ifs <;> grind

/-- A frame and an offset do not wrap. -/
lemma wadd_frame {k e v c : ℕ} (hk : k ≤ 30) (hc : c ≤ 2 ^ 63) :
    wadd (alignDown (2 ^ k) (hwAddr e) + c) (v % 2 ^ k) =
      alignDown (2 ^ k) (hwAddr e) + v % 2 ^ k + c := by
  have h1 := alignDown_le (2 ^ k) (hwAddr e)
  have h2 := (hwAddr_aligned e).2
  have h3 : v % 2 ^ k < 2 ^ 30 := lt_of_lt_of_le (Nat.mod_lt _ (Nat.two_pow_pos k))
    (Nat.pow_le_pow_right (by decide) hk)
  simp only [physLimit] at h2
  rw [wadd_of_lt (by simp only [word]; omega)]
  omega

section ReadBack

variable {P : ℕ → ℕ → Prop} (hP : ∀ l e, P l e → PlainEntry l e) {m : Memory} {v n l t : ℕ}
include hP

/-- On a plain path the two masks agree. -/
lemma pathClear_of_plain {target : ℕ} (hi : pageIndex v l < n) (h : AllEntries P m n l t) :
    PathClear m v target l t := by
  induction l generalizing n t with
  | zero => trivial
  | succ l ih =>
    obtain ⟨hplain, hchild⟩ := h _ hi
    by_cases hpt : PointsToTable (readEntry m t (pageIndex v (l + 1)))
    · exact .inr (.inr ⟨clear_of_plainEntry (hP _ _ hplain) hpt.1,
        ih (pageIndex_lt v l) (hchild hpt)⟩)
    · exact .inr (.inl hpt)

/-- **On a plain tree `paging_get_phys` is the page walk, up to bit 63 of a huge entry.** -/
lemma getPhysFrom_plain (ht : t < physLimit) (hi : pageIndex v l < n) (h : AllEntries P m n l t) :
    ∃ g, getPhysFrom m v l t = some g ∧
      (g = ((hwWalk m v l t).map Mapping.phys).getD 0 ∨
        ∃ a k e, hwWalk m v l t = some a ∧ g = a.phys + 2 ^ 63 ∧ P (k + 1) e ∧
          e.testBit 0 = true ∧ e.testBit 7 = true ∧ e.testBit 63 = true) := by
  induction l generalizing n t with
  | zero =>
    have hplain := hP _ _ (h _ hi)
    have hidx : (v >>> 12) &&& 0x1FF = pageIndex v 0 := rfl
    rw [getPhysFrom, if_neg (not_le.mpr ht), hwWalk, hidx]
    simp only [and_ptePresent_eq_zero]
    cases h0 : (readEntry m t (pageIndex v 0)).testBit 0 with
    | false => exact ⟨0, rfl, .inl rfl⟩
    | true =>
      simp only [Bool.true_eq_false, if_false, if_true, Option.map_some, Option.getD_some]
      rw [and_pteAddrMask_of_clear (clear_of_plainEntry hplain h0),
        show 0xFFF = 2 ^ 12 - 1 from rfl,
        Nat.and_two_pow_sub_one_eq_mod]
      have hself : alignDown (2 ^ 12) (hwAddr (readEntry m t (pageIndex v 0))) =
          hwAddr (readEntry m t (pageIndex v 0)) := Nat.div_mul_cancel (hwAddr_aligned _).1
      have hadd := wadd_frame (e := readEntry m t (pageIndex v 0)) (v := v) (k := 12) (c := 0)
        (by decide) (by decide)
      rw [Nat.add_zero, Nat.add_zero] at hadd
      rw [← hself, hadd]
      exact ⟨_, rfl, .inl rfl⟩
  | succ l ih =>
    obtain ⟨hPe, hchild⟩ := h _ hi
    have hplain := hP _ _ hPe
    rw [getPhysFrom, if_neg (not_le.mpr ht), hwWalk]
    simp only [and_ptePresent_eq_zero, and_pteHugePage_ne_zero]
    cases h0 : (readEntry m t (pageIndex v (l + 1))).testBit 0 with
    | false => exact ⟨0, rfl, .inl rfl⟩
    | true =>
      cases h7 : (readEntry m t (pageIndex v (l + 1))).testBit 7 with
      | true =>
        have hl := (hplain h0).2 (by omega) h7
        simp only [Bool.true_eq_false, if_false, if_true, if_pos hl, Option.map_some,
          Option.getD_some]
        rw [frame_of_plainEntry (readEntry_lt m t _) hplain h0 h7, Nat.and_two_pow_sub_one_eq_mod,
          wadd_frame (by omega) (by split_ifs <;> decide)]
        refine ⟨_, rfl, ?_⟩
        cases h63 : (readEntry m t (pageIndex v (l + 1))).testBit 63 with
        | false => exact .inl rfl
        | true => exact .inr ⟨_, l, _, rfl, rfl, hPe, h0, h7, h63⟩
      | false =>
        simp only [Bool.true_eq_false, Bool.false_eq_true, if_false, if_true]
        rw [and_pteAddrMask_of_clear (clear_of_plainEntry hplain h0)]
        exact ih (hwAddr_aligned _).2 (pageIndex_lt v l) (hchild ⟨h0, h7⟩)

end ReadBack

/-- On a clean tree it is the page walk. -/
lemma getPhysFrom_clean {m : Memory} {v n l t : ℕ} (ht : t < physLimit) (hi : pageIndex v l < n)
    (h : AllEntries CleanEntry m n l t) :
    getPhysFrom m v l t = some (((hwWalk m v l t).map Mapping.phys).getD 0) := by
  obtain ⟨g, hg, heq | ⟨a, k, e, -, -, hclean, h0, h7, h63⟩⟩ :=
    getPhysFrom_plain (fun _ _ h => h.1) ht hi h
  · rw [hg, heq]
  · rw [hclean.2 h0 (by omega) h7] at h63
    exact absurd h63 (by simp)

/-! ## Runs -/

section Unmap

variable (pages : ℕ → ℕ)

/-- The unmap function of a page size. -/
def pagingUnmapNoflush (kind : PageKind) (levels top virt : ℕ) (s : PhysState) :
    Option PhysState :=
  match kind with
  | .page4kb => pagingUnmapPageNoflush pages levels top virt s
  | .page2mb => pagingUnmap2mbNoflush pages levels top virt s
  | .page1gb => pagingUnmap1gbNoflush pages levels top virt s

/-- The entry `index` of the table is cleared if it is present. -/
def clearEntry (table index : ℕ) (s : PhysState) : Option PhysState :=
  if table ≥ physLimit then none
  else if readEntry s.mem table index &&& ptePresent ≠ 0 then storeEntry table index 0 s
  else some s

/-- All three walk to their level without allocating and clear the entry there. -/
lemma pagingUnmapNoflush_eq (kind : PageKind) (levels top virt : ℕ) (s : PhysState) :
    pagingUnmapNoflush pages kind levels top virt s =
      (walkToLevel pages virt kind.level false (levels - 1) top s).bind fun r =>
        match r.1 with
        | none => some r.2
        | some t => clearEntry t (pageIndex virt kind.level) r.2 := by
  cases kind with
  | page4kb =>
    simp only [pagingUnmapNoflush, pagingUnmapPageNoflush, pagingGetPte, PageKind.level,
      Option.bind_eq_bind, Option.bind_assoc, Option.bind_some]
    congr 1
    ext1 r
    cases r.1 <;> rfl
  | page2mb => rfl
  | page1gb => rfl

end Unmap

/-- **Without allocating, the walk looks up** the table of the target level. -/
lemma walkToLevel_lookup (pages : ℕ → ℕ) (virt target : ℕ) {l t : ℕ} {s : PhysState}
    (ht : t < physLimit) (hclear : PathClear s.mem virt target l t) :
    walkToLevel pages virt target false l t s = some (tableOnPath s.mem virt target l t, s) := by
  induction l generalizing t with
  | zero => rfl
  | succ l ih =>
    rw [walkToLevel, tableOnPath]
    by_cases htarget : l + 1 ≤ target
    · simp only [if_pos htarget]
    simp only [if_neg htarget, if_neg (not_le.mpr ht), and_ptePresent_eq_zero,
      and_pteHugePage_ne_zero, ge_iff_le, Bool.not_false, if_true]
    by_cases hpt : PointsToTable (readEntry s.mem t (pageIndex virt (l + 1)))
    · obtain ⟨hbits, hrest⟩ := (hclear.resolve_left htarget).resolve_left (not_not.mpr hpt)
      rw [if_pos hpt, if_neg (by rw [hpt.1]; decide), if_neg (by rw [hpt.2]; decide),
        and_pteAddrMask_of_clear hbits]
      exact ih (hwAddr_aligned _).2 hrest
    · rw [if_neg hpt]
      split_ifs with h0 h7
      · rfl
      · rfl
      · exact absurd ⟨by simpa using h0, by simpa using h7⟩ hpt

/-- A call of a map or unmap function.  Flushing the TLB does not touch memory. -/
inductive PagingOp
  | map (kind : PageKind) (virt phys flags : ℕ)
  | unmap (kind : PageKind) (virt : ℕ)
  deriving DecidableEq, Repr

/-- What the call does. -/
def PagingOp.run (pages : ℕ → ℕ) (levels top : ℕ) : PagingOp → PhysState → Option PhysState
  | .map kind virt phys flags => pagingMapNoflush pages kind levels top virt phys flags
  | .unmap kind virt => pagingUnmapNoflush pages kind levels top virt

/-- A sequence of calls. -/
def runPaging (pages : ℕ → ℕ) (levels top : ℕ) : List PagingOp → PhysState → Option PhysState
  | [], s => some s
  | op :: ops, s => (op.run pages levels top s).bind (runPaging pages levels top ops)

/-- The call maps a physical address, with attribute flags. -/
def PagingOp.Valid : PagingOp → Prop
  | .map _ _ phys flags => phys < physLimit ∧ AttributeFlags flags
  | .unmap _ _ => True

/-- The call does not map a huge page as not executable. -/
def PagingOp.NoHugeNx : PagingOp → Prop
  | .map kind _ _ flags => kind ≠ .page4kb → flags &&& pteNx = 0
  | .unmap _ _ => True

/-- The entry that the call stores satisfies `P`. -/
def PagingOp.Keeps (P : ℕ → ℕ → Prop) : PagingOp → Prop
  | .map kind _ phys flags => flags < word ∧ P kind.level (kind.entry phys flags)
  | .unmap _ _ => True

/-- A tree of separate tables whose entries satisfy `P`, and pages for more. -/
structure PagingTree (P : ℕ → ℕ → Prop) (pages : ℕ → ℕ) (levels top : ℕ) (s : PhysState) :
    Prop where
  separate : Separate s.mem 512 (levels - 1) top
  entries : AllEntries P s.mem 512 (levels - 1) top
  fresh : FreshPages s.mem 512 (levels - 1) top pages s.calls

/-- The invariant of such a sequence. -/
structure PagingInv (pages : ℕ → ℕ) (levels top : ℕ) (s : PhysState) : Prop where
  separate : Separate s.mem 512 (levels - 1) top
  clean : AllEntries CleanEntry s.mem 512 (levels - 1) top
  fresh : FreshPages s.mem 512 (levels - 1) top pages s.calls

lemma PagingInv.tree {pages : ℕ → ℕ} {levels top : ℕ} {s : PhysState}
    (h : PagingInv pages levels top s) : PagingTree CleanEntry pages levels top s :=
  ⟨h.separate, h.clean, h.fresh⟩

lemma PagingTree.inv {pages : ℕ → ℕ} {levels top : ℕ} {s : PhysState}
    (h : PagingTree CleanEntry pages levels top s) : PagingInv pages levels top s :=
  ⟨h.separate, h.entries, h.fresh⟩

section Runs

variable {P : ℕ → ℕ → Prop} {pages : ℕ → ℕ} {levels top : ℕ} {s : PhysState}

/-- The pages still to come stay fresh. -/
lemma FreshPages.step {s' : PhysState} {n l : ℕ} (hf : FreshPages s.mem n l top pages s.calls)
    (hle : s.calls ≤ s'.calls)
    (hsub : tables s'.mem n l top ⊆ tables s.mem n l top ∪ handedOut pages s.calls s'.calls) :
    FreshPages s'.mem n l top pages s'.calls where
  page k hk := hf.page k (hle.trans hk)
  fresh k hk hne hmem := by
    rcases hsub hmem with hmem | ⟨j, hj, hj', heq, -⟩
    · exact hf.fresh k (hle.trans hk) hne hmem
    · have := hf.distinct j k hj (hle.trans hk) (heq ▸ hne) heq
      omega
  distinct j k hj hk := hf.distinct j k (hle.trans hj) (hle.trans hk)

section Tree

variable (hP : EntryInv P) (hplain : ∀ l e, P l e → PlainEntry l e)
  (hinv : PagingTree P pages levels top s) (hlev : 2 ≤ levels - 1)
  (htop : pageSize ∣ top ∧ top < physLimit)
include hP hplain hinv hlev htop

lemma PagingTree.map {kind : PageKind} {virt phys flags : ℕ}
    (hop : (PagingOp.map kind virt phys flags).Keeps P) :
    ∃ s', pagingMapNoflush pages kind levels top virt phys flags s = some s' ∧
      PagingTree P pages levels top s' ∧ s.calls ≤ s'.calls ∧
      ((∀ k, s.calls ≤ k → k < s'.calls → pages k ≠ 0) → ∃ m, Stored P virt kind.level
        (kind.entry phys flags) m s'.mem 512 (levels - 1) top) := by
  obtain ⟨s₁, s', hs', hw, hcalls, -, hres⟩ := pagingMapNoflush_spec hP kind phys hlev htop
    hinv.separate hinv.entries hinv.fresh le_rfl (pageIndex_lt virt _)
    (pathClear_of_plain hplain (pageIndex_lt virt _) hinv.entries) hop.1
  have hle : s.calls ≤ s'.calls := hcalls ▸ hw.calls_le
  rcases hres with ⟨⟨k, hk, hk', h0⟩, rfl⟩ | ⟨-, x, hx, hmem, hst⟩
  · exact ⟨s', hs', ⟨hw.separate, hw.entries, hinv.fresh.step hle hw.tables_sub⟩, hle,
      fun hok => absurd h0 (hok k hk hk')⟩
  · refine ⟨s', hs', ⟨hst.separate, hst.entries hw.entries hop.2, hinv.fresh.step hle ?_⟩, hle,
      fun _ => ⟨_, hst⟩⟩
    rw [hcalls]
    exact hst.tables_sub.trans hw.tables_sub

lemma PagingTree.unmap (kind : PageKind) (virt : ℕ) :
    ∃ s', pagingUnmapNoflush pages kind levels top virt s = some s' ∧
      PagingTree P pages levels top s' := by
  have hclear : PathClear s.mem virt kind.level (levels - 1) top :=
    pathClear_of_plain hplain (pageIndex_lt virt _) hinv.entries
  rw [pagingUnmapNoflush_eq, walkToLevel_lookup pages virt kind.level htop.2 hclear,
    Option.bind_some]
  cases hx : tableOnPath s.mem virt kind.level (levels - 1) top with
  | none => exact ⟨s, rfl, hinv⟩
  | some x =>
    have hlim : ¬x ≥ physLimit :=
      not_le.mpr (tables_aligned htop (mem_tables_of_tableOnPath (pageIndex_lt virt _) hx)).2
    simp only [clearEntry, if_neg hlim]
    split_ifs with h0
    · have hst : Stored P virt kind.level 0 s.mem _ _ _ _ := stored_of_tableOnPath (by decide) htop
        hinv.separate le_rfl (pageIndex_lt virt _) kind.level_le (kind.level_le.trans hlev)
        (fun _ h => absurd h (by simp)) hx
      let s' : PhysState := ⟨writeEntry s.mem x (pageIndex virt kind.level) 0, s.calls, s.calls2mb⟩
      refine ⟨s', by rw [storeEntry, if_neg hlim], hst.separate,
        hst.entries hinv.entries (hP.zero _),
        show FreshPages s'.mem _ _ _ _ s'.calls from
          hinv.fresh.step le_rfl (hst.tables_sub.trans Set.subset_union_left)⟩
    · exact ⟨s, rfl, hinv⟩

/-- Every sequence of calls whose entries satisfy `P` goes through and keeps the tree. -/
lemma PagingTree.run {ops : List PagingOp} (hops : ∀ op ∈ ops, op.Keeps P) :
    ∃ s', runPaging pages levels top ops s = some s' ∧ PagingTree P pages levels top s' := by
  induction ops generalizing s with
  | nil => exact ⟨s, rfl, hinv⟩
  | cons op ops ih =>
    obtain ⟨hop, hrest⟩ := List.forall_mem_cons.mp hops
    obtain ⟨s₁, hs₁, hinv₁⟩ : ∃ s', op.run pages levels top s = some s' ∧
        PagingTree P pages levels top s' := by
      cases op with
      | map kind virt phys flags =>
        obtain ⟨s', hs', hinv', -⟩ := hinv.map hP hplain hlev htop hop
        exact ⟨s', hs', hinv'⟩
      | unmap kind virt => exact hinv.unmap hP hplain hlev htop kind virt
    rw [runPaging, hs₁, Option.bind_some]
    exact ih hinv₁ hrest

end Tree

lemma PagingInv.map (hinv : PagingInv pages levels top s) (hlev : 2 ≤ levels - 1)
    (htop : pageSize ∣ top ∧ top < physLimit) {kind : PageKind} (virt : ℕ) {phys flags : ℕ}
    (hphys : phys < physLimit) (hflags : AttributeFlags flags)
    (hnx : kind ≠ .page4kb → flags &&& pteNx = 0) :
    ∃ s', pagingMapNoflush pages kind levels top virt phys flags s = some s' ∧
      PagingInv pages levels top s' ∧ s.calls ≤ s'.calls ∧
      ((∀ k, s.calls ≤ k → k < s'.calls → pages k ≠ 0) → flags &&& ptePresent ≠ 0 →
        ∀ v, v / kind.size = virt / kind.size →
          translate s'.mem levels top v = some (alignDown kind.size phys + v % kind.size)) := by
  have hop : (PagingOp.map kind virt phys flags).Keeps CleanEntry :=
    ⟨hflags.lt, cleanEntry_entry hphys hflags hnx⟩
  obtain ⟨s', hs', htree, hle, hstored⟩ := hinv.tree.map cleanEntry_entryInv (fun _ _ h => h.1) hlev
    htop hop
  refine ⟨s', hs', htree.inv, hle, fun hok hpresent v hv => ?_⟩
  obtain ⟨m, hst⟩ := hstored hok
  have h0 : (kind.entry phys flags).testBit 0 = true := by
    rw [testBit_entry, and_two_pow_ne_zero.mp hpresent]
    grind
  rw [translate, hst.walk_on v fun k hk _ => pageIndex_eq_of_page_eq hk hv, if_pos h0,
    leafMapping_entry hflags.addr hphys]
  rfl

/-- Every sequence of valid calls that maps no huge page as not executable goes through and
keeps the invariant. -/
lemma PagingInv.run (hlev : 2 ≤ levels - 1) (htop : pageSize ∣ top ∧ top < physLimit)
    {ops : List PagingOp} (hops : ∀ op ∈ ops, op.Valid ∧ op.NoHugeNx)
    (hinv : PagingInv pages levels top s) :
    ∃ s', runPaging pages levels top ops s = some s' ∧ PagingInv pages levels top s' := by
  obtain ⟨s', hs', htree⟩ := hinv.tree.run cleanEntry_entryInv (fun _ _ h => h.1) hlev htop
    fun op hop => show op.Keeps CleanEntry by
      obtain ⟨hvalid, hnx⟩ := hops op hop
      cases op with
      | map kind virt phys flags => exact ⟨hvalid.2.lt, cleanEntry_entry hvalid.1 hvalid.2 hnx⟩
      | unmap kind virt => trivial
  exact ⟨s', hs', htree.inv⟩

/-- A zeroed top table is such a tree. -/
lemma pagingTree_zeroed (hP : EntryInv P) (hzero : ∀ i < 512, readEntry s.mem top i = 0)
    (hlev : 1 ≤ levels - 1) (hpages : FreshPages s.mem 512 (levels - 1) top pages s.calls) :
    PagingTree P pages levels top s := by
  have hleaf : ∀ i < 512, ¬PointsToTable (readEntry s.mem top i) := fun i hi => by
    rw [hzero i hi]
    decide
  refine ⟨(tables_eq_singleton (.inr hleaf)).2, ?_, hpages⟩
  obtain ⟨l, hl⟩ := Nat.exists_eq_add_of_le' hlev
  rw [hl]
  intro i hi
  exact ⟨by rw [hzero i hi]; exact hP.zero _, fun h => absurd h (hleaf i hi)⟩

end Runs

/-- **`paging_get_phys` agrees with the page walk** in every state that a sequence of map and
unmap calls reaches from a zeroed top table, if no call maps a huge page with `PTE_NX`: it
returns the physical address of the walk, and zero for unmapped addresses.  And right after a
call that maps a page at `virt`, it returns `phys + d` for every offset `d` inside the page. -/
theorem pagingGetPhys_eq_walk {pages : ℕ → ℕ} {levels top : ℕ} {s : PhysState}
    (hlev : levels = 4 ∨ levels = 5) (htop : pageSize ∣ top ∧ top < physLimit)
    (hzero : ∀ i < 512, readEntry s.mem top i = 0)
    (hpages : FreshPages s.mem 512 (levels - 1) top pages s.calls) {ops : List PagingOp}
    (hops : ∀ op ∈ ops, op.Valid ∧ op.NoHugeNx) :
    ∃ s', runPaging pages levels top ops s = some s' ∧
      (∀ v, pagingGetPhys s'.mem levels top v =
        some ((translate s'.mem levels top v).getD 0)) ∧
      ∀ kind virt phys flags, (PagingOp.map kind virt phys flags).Valid →
        (PagingOp.map kind virt phys flags).NoHugeNx → flags &&& ptePresent ≠ 0 →
        kind.size ∣ virt → kind.size ∣ phys →
        ∃ s'', pagingMapNoflush pages kind levels top virt phys flags s' = some s'' ∧
          ((∀ k, s'.calls ≤ k → k < s''.calls → pages k ≠ 0) →
            ∀ d < kind.size, pagingGetPhys s''.mem levels top (virt + d) = some (phys + d)) := by
  obtain ⟨s', hs', hinv⟩ := PagingInv.run (by omega) htop hops
    (pagingTree_zeroed cleanEntry_entryInv hzero (by omega) hpages).inv
  refine ⟨s', hs', fun v => getPhysFrom_clean htop.2 (pageIndex_lt v _) hinv.clean,
    fun kind virt phys flags hvalid hnx hpresent hvirt hphys => ?_⟩
  obtain ⟨s'', hs'', hinv'', -, hmapped⟩ :=
    hinv.map (by omega) htop virt hvalid.1 hvalid.2 hnx
  refine ⟨s'', hs'', fun hok d hd => ?_⟩
  have hpos : 0 < kind.size := Nat.two_pow_pos _
  have hdiv : (virt + d) / kind.size = virt / kind.size := by
    obtain ⟨q, rfl⟩ := hvirt
    rw [Nat.mul_add_div hpos, Nat.div_eq_of_lt hd, Nat.add_zero, Nat.mul_div_cancel_left q hpos]
  have hmod : (virt + d) % kind.size = d := by
    obtain ⟨q, rfl⟩ := hvirt
    rw [Nat.mul_add_mod, Nat.mod_eq_of_lt hd]
  have hget : pagingGetPhys s''.mem levels top (virt + d) =
      some ((translate s''.mem levels top (virt + d)).getD 0) := 
    getPhysFrom_clean htop.2 (pageIndex_lt _ _) hinv''.clean
  rw [hget, hmapped hok hpresent _ hdiv, hmod, alignDown, Nat.div_mul_cancel hphys]
  rfl

/-- An allocator with `n` pages to give. -/
def pageSupply (n k : ℕ) : ℕ := if k < n then 0x2000 + 0x1000 * k else 0

lemma pageSupply_fresh {n : ℕ} (hn : n ≤ 0x1000) :
    FreshPages (fun _ => 0) 512 3 0x1000 (pageSupply n) 0 := by
  have htables : tables (fun _ => 0) 512 3 0x1000 = {0x1000} :=
    (tables_eq_singleton (.inr fun i _ => by rw [readEntry_zero]; decide)).1
  have hlt : ∀ k, pageSupply n k ≠ 0 → k < n ∧ pageSupply n k = 0x1000 * (k + 2) := by
    intro k hk
    unfold pageSupply at hk ⊢
    split_ifs at hk ⊢ with h
    · exact ⟨h, by ring⟩
    · exact absurd rfl hk
  refine ⟨fun k _ hk => ?_, fun k _ hk => ?_, fun j k _ _ hj hjk => ?_⟩
  · obtain ⟨hk, heq⟩ := hlt k hk
    rw [heq]
    refine ⟨dvd_mul_right _ _, ?_⟩
    have hlimit : physLimit = 2 ^ 52 := rfl
    omega
  · rw [htables, Set.mem_singleton_iff, (hlt k hk).2]
    omega
  · have hj' := (hlt j hj).2
    have hk' := (hlt k (hjk ▸ hj)).2
    omega

/-- A 2 MiB page that is not executable reads back with bit 63 set: the run maps `0x200000` to
`0x400000` with `PTE_NX` and `paging_get_phys` returns `0x8000000000400000`. -/
theorem huge_nx_reads_back_wrong :
    FreshPages (fun _ => 0) 512 3 0x1000 (pageSupply 2) 0 ∧
      (PagingOp.map .page2mb 0x200000 0x400000 (pteNx ||| 3)).Valid ∧
      (runPaging (pageSupply 2) 4 0x1000 [.map .page2mb 0x200000 0x400000 (pteNx ||| 3)]
        ⟨fun _ => 0, 0, 0⟩).map (fun s => (pagingGetPhys s.mem 4 0x1000 0x200000,
          translate s.mem 4 0x1000 0x200000)) =
        some (some 0x8000000000400000, some 0x400000) := by
  refine ⟨pageSupply_fresh (by decide), ⟨by decide, fun i hi => ?_⟩, by decide +kernel⟩
  simp only [pteNx, Nat.testBit_or, Nat.testBit_two_pow, show 3 = 2 ^ 2 - 1 from rfl,
    Nat.testBit_two_pow_sub_one] at hi
  grind

/-- The same page with execute permission: it reads back as it is mapped, as every address does, and
so does every page that is mapped next. -/
theorem huge_reads_back :
    ∃ s, runPaging (pageSupply 2) 4 0x1000 [.map .page2mb 0x200000 0x400000 3]
        ⟨fun _ => 0, 0, 0⟩ = some s ∧
      translate s.mem 4 0x1000 0x200123 = some 0x400123 ∧
      (∀ v, pagingGetPhys s.mem 4 0x1000 v = some ((translate s.mem 4 0x1000 v).getD 0)) ∧
      ∀ kind virt phys flags, (PagingOp.map kind virt phys flags).Valid →
        (PagingOp.map kind virt phys flags).NoHugeNx → flags &&& ptePresent ≠ 0 →
        kind.size ∣ virt → kind.size ∣ phys →
        ∃ s', pagingMapNoflush (pageSupply 2) kind 4 0x1000 virt phys flags s = some s' ∧
          ((∀ k, s.calls ≤ k → k < s'.calls → pageSupply 2 k ≠ 0) →
            ∀ d < kind.size, pagingGetPhys s'.mem 4 0x1000 (virt + d) = some (phys + d)) := by
  have hops : ∀ op ∈ [PagingOp.map .page2mb 0x200000 0x400000 3], op.Valid ∧ op.NoHugeNx := by
    intro op hop
    obtain rfl := List.mem_singleton.mp hop
    refine ⟨⟨by decide, fun i hi => ?_⟩, fun _ => by decide⟩
    rw [show 3 = 2 ^ 2 - 1 from rfl, Nat.testBit_two_pow_sub_one] at hi
    grind
  obtain ⟨s, hs, hget, hnext⟩ := pagingGetPhys_eq_walk (s := ⟨fun _ => 0, 0, 0⟩) (.inl rfl)
    (by decide) (fun i _ => readEntry_zero _ i) (@pageSupply_fresh 2 (by decide)) hops
  have heval : (runPaging (pageSupply 2) 4 0x1000 [.map .page2mb 0x200000 0x400000 3]
      ⟨fun _ => 0, 0, 0⟩).map (fun s => translate s.mem 4 0x1000 0x200123) =
        some (some 0x400123) := by
    decide +kernel
  rw [hs, Option.map_some] at heval
  exact ⟨s, hs, Option.some.inj heval, hget, hnext⟩

end Cuore
