import Cuore.Mem.Paging.GetPhys

/-!
# Unmapping a page

The unmap functions walk without allocating, which only looks up the table of their level on the
path of the address (`walkToLevel_lookup`), and clear its entry if it is present.

What they find there may be an entry of their own size or, for the two larger sizes, a table of
smaller pages: clearing it unmaps the page either way.  If the path ends above their level, nothing
is cleared: that is right where the path ends at an entry that is not present, and leaves the page
mapped where it ends at a larger page (`UnderLarger`).  `pagingUnmapNoflush_unmapsOnly_iff` says
that this is the only case, apart from the bits 52 to 59 that send the walk astray (`PathClear`).
-/

namespace Cuore

/-! ## The property -/

/-- **Unmapping unmaps the page only**: afterwards no address of the page of `virt` translates, and
every other address translates as before. -/
def UnmapsOnly (kind : PageKind) (levels top virt : ℕ) (m : Memory) : Prop :=
  ∀ pages calls calls2mb, ∃ s',
    pagingUnmapNoflush pages kind levels top virt ⟨m, calls, calls2mb⟩ = some s' ∧
      (∀ d < kind.size, translate s'.mem levels top (alignDown kind.size virt + d) = none) ∧
      ∀ v, Canonical levels v → alignDown kind.size v ≠ alignDown kind.size virt →
        translate s'.mem levels top v = translate m levels top v

/-- The path of `virt` ends at a page above the level `target`. -/
def UnderLarger (m : Memory) (virt target : ℕ) : ℕ → ℕ → Prop
  | 0, _ => False
  | l + 1, t =>
    let e := readEntry m t (pageIndex virt (l + 1))
    target < l + 1 ∧ e.testBit 0 = true ∧
      if e.testBit 7 then l + 1 ≤ 2 else UnderLarger m virt target l (hwAddr e)

instance decidableUnderLarger (m : Memory) (virt target : ℕ) :
    ∀ l t, Decidable (UnderLarger m virt target l t)
  | 0, _ => .isFalse id
  | l + 1, _ =>
    have := decidableUnderLarger m virt target l
    inferInstanceAs (Decidable (_ ∧ _ ∧ ite _ _ _))

/-! ## Looking up a table -/

section Lookup

variable {m : Memory} {v virt target l t x : ℕ}

/-- An entry that is not present translates nothing. -/
lemma hwWalk_of_not_present (h : (readEntry m t (pageIndex v l)).testBit 0 = false) :
    hwWalk m v l t = none := by
  cases l <;> rw [hwWalk] <;> simp only [h, Bool.false_eq_true, if_false]

/-- If the path ends above the target level, it ends at a larger page or translates nothing. -/
lemma hwWalk_of_no_table (hv : ∀ k, target ≤ k → k ≤ l → pageIndex v k = pageIndex virt k)
    (hx : tableOnPath m virt target l t = none) :
    hwWalk m v l t ≠ none ↔ UnderLarger m virt target l t := by
  induction l generalizing t with
  | zero => cases hx
  | succ l ih =>
    rw [tableOnPath] at hx
    split_ifs at hx with hle hpt
    · rw [hwWalk, UnderLarger, hv (l + 1) (by omega) le_rfl, if_pos hpt.1, hpt.2]
      simp only [Bool.false_eq_true, if_false, hpt.1, true_and, not_le.mp hle]
      exact ih (fun k hk hk' => hv k hk (by omega)) hx
    · rw [hwWalk, UnderLarger, hv (l + 1) (by omega) le_rfl]
      cases h0 : (readEntry m t (pageIndex virt (l + 1))).testBit 0 with
      | false => simp
      | true =>
        have h7 : (readEntry m t (pageIndex virt (l + 1))).testBit 7 = true := by
          by_contra h7
          exact hpt ⟨h0, Bool.eq_false_of_not_eq_true h7⟩
        simp [h7, not_le.mp hle]

lemma not_underLarger_of_tableOnPath (hx : tableOnPath m virt target l t = some x) :
    ¬UnderLarger m virt target l t := by
  induction l generalizing t with
  | zero => exact id
  | succ l ih =>
    rw [tableOnPath] at hx
    rintro ⟨hlt, h0, h⟩
    split_ifs at hx with hle hpt
    · omega
    · rw [if_neg (by rw [hpt.2]; decide)] at h
      exact ih hx h

end Lookup

/-! ## The result -/

section Unmap

variable {kind : PageKind} {levels top virt : ℕ} {m : Memory}

/-- Addresses of one page have the same indices down to its level. -/
lemma pageIndex_page {k d : ℕ} (hk : kind.level ≤ k) (hd : d < kind.size) :
    pageIndex (alignDown kind.size virt + d) k = pageIndex virt k := by
  apply pageIndex_eq_of_page_eq hk
  change (alignDown kind.size virt + d) / kind.size = virt / kind.size
  rw [alignDown, Nat.mul_comm, Nat.mul_add_div (show 0 < kind.size from Nat.two_pow_pos _),
    Nat.div_eq_of_lt hd, Nat.add_zero]

/-- What the entry at the end of the path is cleared to does: nothing of the page is left. -/
lemma clearEntry_spec {s : PhysState} {x : ℕ} (hlevels : 2 ≤ levels - 1)
    (htop : pageSize ∣ top ∧ top < physLimit) (hsep : Separate s.mem 512 (levels - 1) top)
    (hx : tableOnPath s.mem virt kind.level (levels - 1) top = some x) :
    ∃ s', clearEntry x (pageIndex virt kind.level) s = some s' ∧
      (∀ v, (∀ k, kind.level ≤ k → k ≤ levels - 1 → pageIndex v k = pageIndex virt k) →
        hwWalk s'.mem v (levels - 1) top = none) ∧
      ∀ v, (∃ k, kind.level ≤ k ∧ k ≤ levels - 1 ∧ pageIndex v k ≠ pageIndex virt k) →
        hwWalk s'.mem v (levels - 1) top = hwWalk s.mem v (levels - 1) top := by
  have hle : kind.level ≤ levels - 1 := kind.level_le.trans hlevels
  have hlim := (tables_aligned htop (mem_tables_of_tableOnPath (pageIndex_lt virt _) hx)).2
  unfold clearEntry
  rw [if_neg (not_le.mpr hlim)]
  by_cases h0 : readEntry s.mem x (pageIndex virt kind.level) &&& ptePresent ≠ 0
  · -- the entry is overwritten with zero, which is no leaf
    have hst := @stored_of_tableOnPath (fun _ _ => True) s.mem virt 0 (by decide) _ _ _ _ _ htop
      hsep le_rfl (pageIndex_lt virt _) kind.level_le hle (fun _ h => by cases h) hx
    rw [if_pos h0, storeEntry, if_neg (not_le.mpr hlim)]
    exact ⟨_, rfl, fun v hv => hst.walk_on v hv, fun v hv => hst.walk_off v (pageIndex_lt v _) hv⟩
  · rw [if_neg h0]
    refine ⟨s, rfl, fun v hv => ?_, fun _ _ => rfl⟩
    rw [hwWalk_of_tableOnPath hle hv hx]
    apply hwWalk_of_not_present
    rw [hv _ le_rfl hle]
    exact and_ptePresent_eq_zero.mp (not_not.mp h0)

/-- A page under a larger one stays mapped. -/
lemma not_unmapsOnly_of_underLarger (htop : pageSize ∣ top ∧ top < physLimit)
    (hclear : PathClear m virt kind.level (levels - 1) top)
    (hlarger : UnderLarger m virt kind.level (levels - 1) top) :
    ∀ pages calls calls2mb, ∃ s',
      pagingUnmapNoflush pages kind levels top virt ⟨m, calls, calls2mb⟩ = some s' ∧
        translate s'.mem levels top virt ≠ none := by
  intro pages calls calls2mb
  have hnone : tableOnPath m virt kind.level (levels - 1) top = none :=
    Option.eq_none_iff_forall_ne_some.mpr fun x hx => not_underLarger_of_tableOnPath hx hlarger
  refine ⟨⟨m, calls, calls2mb⟩, ?_, fun hmap => ?_⟩
  · rw [pagingUnmapNoflush_eq, walkToLevel_lookup _ _ _ htop.2 hclear, Option.bind_some]
    simp only [hnone]
  · exact (hwWalk_of_no_table (fun _ _ _ => rfl) hnone).mpr hlarger (Option.map_eq_none_iff.mp hmap)

/-- A set bit among 52 to 59 makes the function fault. -/
lemma not_unmapsOnly_of_not_clear (hclear : ¬PathClear m virt kind.level (levels - 1) top) :
    ¬UnmapsOnly kind levels top virt m := by
  intro h
  obtain ⟨s', hs', -⟩ := h (fun _ => 0) 0 0
  rw [pagingUnmapNoflush_eq] at hs'
  rcases @walkToLevel_of_not_clear (fun _ => 0) virt kind.level _ _ ⟨m, 0, 0⟩ false hclear with
    hnone | ⟨x, hx, hsome⟩
  · rw [hnone] at hs'
    cases hs'
  · rw [hsome] at hs'
    simp [clearEntry, hx] at hs'

/-- **Unmapping unmaps the page, and only the page, exactly when the page is not part of a larger
one**, and the bits 52 to 59 are clear in the entries that are followed.  For every tree in which
each table is reachable by one path, with entries of any sizes, both paging depths and all three
page sizes. -/
theorem pagingUnmapNoflush_unmapsOnly_iff (kind : PageKind) (hlev : levels = 4 ∨ levels = 5)
    (htop : pageSize ∣ top ∧ top < physLimit) (hpaths : UniquePaths m (levels - 1) top)
    (hvirt : Canonical levels virt) :
    UnmapsOnly kind levels top virt m ↔ PathClear m virt kind.level (levels - 1) top ∧
      ¬UnderLarger m virt kind.level (levels - 1) top := by
  constructor
  · intro h
    have hclear : PathClear m virt kind.level (levels - 1) top :=
      not_not.mp fun hclear => not_unmapsOnly_of_not_clear hclear h
    refine ⟨hclear, fun hlarger => ?_⟩
    obtain ⟨s', hs', hpage, -⟩ := h (fun _ => 0) 0 0
    obtain ⟨s'', hs'', hmapped⟩ :=
      not_unmapsOnly_of_underLarger htop hclear hlarger (fun _ => 0) 0 0
    cases hs'.symm.trans hs''
    have hself := hpage (virt % kind.size) (Nat.mod_lt _ (Nat.two_pow_pos _))
    rw [alignDown, Nat.div_add_mod'] at hself
    exact hmapped hself
  · rintro ⟨hclear, hlarger⟩ pages calls calls2mb
    rw [pagingUnmapNoflush_eq, walkToLevel_lookup _ _ _ htop.2 hclear, Option.bind_some]
    dsimp only
    have hon {d k : ℕ} (hd : d < kind.size) (hk : kind.level ≤ k) :
        pageIndex (alignDown kind.size virt + d) k = pageIndex virt k := pageIndex_page hk hd
    have hoff {v : ℕ} (hv : Canonical levels v)
        (hne : alignDown kind.size v ≠ alignDown kind.size virt) :
        ∃ k, kind.level ≤ k ∧ k ≤ levels - 1 ∧ pageIndex v k ≠ pageIndex virt k :=
      exists_pageIndex_ne hlev kind.level_le hv hvirt hne
    cases hx : tableOnPath m virt kind.level (levels - 1) top with
    | none =>
      refine ⟨_, rfl, fun d hd => ?_, fun _ _ _ => rfl⟩
      have hwalk := (@hwWalk_of_no_table m (alignDown kind.size virt + d) virt kind.level _ _
        (fun k hk _ => hon hd hk) hx).not.mpr hlarger
      rw [translate, not_not.mp hwalk]
      rfl
    | some x =>
      obtain ⟨s', hs', hgone, hkept⟩ := @clearEntry_spec kind levels top virt ⟨m, calls, calls2mb⟩ x
        (by omega) htop hpaths.separate hx
      refine ⟨s', hs', fun d hd => ?_, fun v hv hne => ?_⟩
      · rw [translate, hgone _ fun k hk _ => hon hd hk]
        rfl
      · rw [translate, hkept v (hoff hv hne)]
        rfl

end Unmap

/-- Calls that map the 2 MiB at `0x200000`. -/
def mapsHuge : List PagingOp := [.map .page2mb 0x200000 0x400000 3]

lemma mapsHuge_run : ∃ s, runPaging (pageSupply 2) 4 0x1000 mapsHuge ⟨fun _ => 0, 0, 0⟩ = some s ∧
    PagingInv (pageSupply 2) 4 0x1000 s := by
  refine PagingInv.run (by decide) (by decide) (fun op hop => ?_)
    (pagingTree_zeroed cleanEntry_entryInv (fun i _ => readEntry_zero _ i) (by decide)
      (@pageSupply_fresh 2 (by decide))).inv
  obtain rfl := List.mem_singleton.mp hop
  refine ⟨⟨by decide, fun i hi => ?_⟩, fun _ => by decide⟩
  rw [show 3 = 2 ^ 2 - 1 from rfl, Nat.testBit_two_pow_sub_one] at hi
  grind

lemma runPaging_append {pages : ℕ → ℕ} {levels top : ℕ} {ops ops' : List PagingOp} {s : PhysState} :
    runPaging pages levels top (ops ++ ops') s =
      (runPaging pages levels top ops s).bind (runPaging pages levels top ops') := by
  induction ops generalizing s with
  | nil => rfl
  | cons op ops ih =>
    rw [List.cons_append, runPaging, runPaging, Option.bind_assoc]
    exact congrArg _ (funext fun _ => ih)

/-- A page of 2 MiB is unmapped as a whole. -/
theorem unmapsOnly_huge : ∃ s,
    runPaging (pageSupply 2) 4 0x1000 mapsHuge ⟨fun _ => 0, 0, 0⟩ = some s ∧
      translate s.mem 4 0x1000 0x200000 = some 0x400000 ∧
      UnmapsOnly .page2mb 4 0x1000 0x200000 s.mem := by
  obtain ⟨s, hs, hinv⟩ := mapsHuge_run
  have hmapped : (runPaging (pageSupply 2) 4 0x1000 mapsHuge ⟨fun _ => 0, 0, 0⟩).map (fun s =>
      (translate s.mem 4 0x1000 0x200000, decide (UnderLarger s.mem 0x200000 1 3 0x1000))) =
        some (some 0x400000, false) := by
    decide +kernel
  rw [hs] at hmapped
  obtain ⟨htranslate, hlarger⟩ := Prod.mk.inj (Option.some.inj hmapped)
  refine ⟨s, hs, htranslate, (pagingUnmapNoflush_unmapsOnly_iff .page2mb (.inl rfl) (by decide)
    hinv.separate.uniquePaths (by decide)).mpr ⟨?_, of_decide_eq_false hlarger⟩⟩
  exact pathClear_of_plain (fun _ _ h => h.1) (pageIndex_lt _ _) hinv.clean

/-- Unmapping 4 KiB of it does nothing. -/
theorem not_unmapsOnly_huge : ∃ s,
    runPaging (pageSupply 2) 4 0x1000 mapsHuge ⟨fun _ => 0, 0, 0⟩ = some s ∧
      UniquePaths s.mem 3 0x1000 ∧ Canonical 4 0x200000 ∧
      (pagingUnmapNoflush (pageSupply 2) .page4kb 4 0x1000 0x200000 s).map
        (fun s => translate s.mem 4 0x1000 0x200000) = some (some 0x400000) ∧
      ¬UnmapsOnly .page4kb 4 0x1000 0x200000 s.mem := by
  obtain ⟨s, hs, hinv⟩ := mapsHuge_run
  have hkept : (runPaging (pageSupply 2) 4 0x1000 (mapsHuge ++ [.unmap .page4kb 0x200000])
      ⟨fun _ => 0, 0, 0⟩).map (fun s => translate s.mem 4 0x1000 0x200000) =
        some (some 0x400000) := by
    decide +kernel
  have happend : runPaging (pageSupply 2) 4 0x1000 (mapsHuge ++ [.unmap .page4kb 0x200000])
      ⟨fun _ => 0, 0, 0⟩ = pagingUnmapNoflush (pageSupply 2) .page4kb 4 0x1000 0x200000 s := by
    rw [runPaging_append, hs, Option.bind_some]
    exact Option.bind_fun_some _
  rw [happend] at hkept
  refine ⟨s, hs, hinv.separate.uniquePaths, by decide, hkept, fun h => ?_⟩
  obtain ⟨s', hs', hpage, -⟩ := h (pageSupply 2) s.calls s.calls2mb
  have hnone : translate s'.mem 4 0x1000 0x200000 = none := hpage 0 (by decide)
  have hsome := congrArg (Option.map fun s => translate s.mem 4 0x1000 0x200000) hs'
  cases hkept.symm.trans (hsome.trans (congrArg some hnone))

end Cuore
