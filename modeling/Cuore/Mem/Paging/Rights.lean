import Cuore.Mem.Paging.GetPhys

/-!
# The rights of a mapped page

The processor combines the rights of all entries on the walk of an address: it may be written, or
reached from user mode, if every entry allows it, and it may not be executed if some entry forbids
it.  `paging_map_page` stores the requested rights in the leaf entry, so what becomes of them
depends on the tables above.  There, `walk_to_level` gives the tables that it creates `PTE_PRESENT`
and `PTE_WRITABLE` only, and a table that replaces a huge page gets the rights of that page.

`PathGrants` is the condition on the entries on the path before the call under which the tables are
no obstacle, and `pagingMapPage_rights_iff` says that the page gets the requested rights exactly in
this case.
-/

namespace Cuore

/-! ## Effective rights -/

/-- The entries on the walk of `v`, from a table of level `l` on. -/
def walkEntries (m : Memory) (v : ℕ) : ℕ → ℕ → List ℕ
  | 0, t => [readEntry m t (pageIndex v 0)]
  | l + 1, t =>
    let e := readEntry m t (pageIndex v (l + 1))
    if PointsToTable e then e :: walkEntries m v l (hwAddr e) else [e]

/-- Every entry on the walk has `PTE_WRITABLE`. -/
def EffectivelyWritable (m : Memory) (levels top v : ℕ) : Prop :=
  ∀ e ∈ walkEntries m v (levels - 1) top, e &&& pteWritable ≠ 0

/-- Every entry on the walk has `PTE_USER`. -/
def EffectivelyUser (m : Memory) (levels top v : ℕ) : Prop :=
  ∀ e ∈ walkEntries m v (levels - 1) top, e &&& pteUser ≠ 0

/-- Some entry on the walk has `PTE_NX`. -/
def EffectivelyNx (m : Memory) (levels top v : ℕ) : Prop :=
  ∃ e ∈ walkEntries m v (levels - 1) top, e &&& pteNx ≠ 0

/-- The rights that `flags` say, no more and no less. -/
structure HasRights (m : Memory) (levels top v flags : ℕ) : Prop where
  writable : EffectivelyWritable m levels top v ↔ flags &&& pteWritable ≠ 0
  user : EffectivelyUser m levels top v ↔ flags &&& pteUser ≠ 0
  nx : EffectivelyNx m levels top v ↔ flags &&& pteNx ≠ 0

/-- An entry above the leaf is no obstacle to the rights that `flags` say. -/
def Grants (flags e : ℕ) : Prop :=
  (flags &&& pteWritable ≠ 0 → e &&& pteWritable ≠ 0) ∧
    (flags &&& pteUser ≠ 0 → e &&& pteUser ≠ 0) ∧
    (e &&& pteNx ≠ 0 → flags &&& pteNx ≠ 0)

/-- On the path of `v` above the last level, the entries down to the first huge one are no obstacle
to the rights that `flags` say; and if a table is missing, user access is not asked for. -/
def PathGrants (m : Memory) (v flags : ℕ) : ℕ → ℕ → Prop
  | 0, _ => True
  | l + 1, t =>
    let e := readEntry m t (pageIndex v (l + 1))
    if e.testBit 0 then Grants flags e ∧ (e.testBit 7 = false → PathGrants m v flags l (hwAddr e))
    else flags &&& pteUser = 0

instance (flags e : ℕ) : Decidable (Grants flags e) :=
  inferInstanceAs (Decidable (_ ∧ _ ∧ _))

instance decidablePathGrants (m : Memory) (v flags : ℕ) :
    ∀ l t, Decidable (PathGrants m v flags l t)
  | 0, _ => .isTrue trivial
  | l + 1, _ =>
    have := decidablePathGrants m v flags l
    inferInstanceAs (Decidable (ite _ _ _))

/-- The entries on the walk above the last level. -/
def tableEntries (m : Memory) (v : ℕ) : ℕ → ℕ → List ℕ
  | 0, _ => []
  | l + 1, t =>
    let e := readEntry m t (pageIndex v (l + 1))
    if PointsToTable e then e :: tableEntries m v l (hwAddr e) else [e]

section

variable {m m' : Memory} {v virt flags e e' l t x : ℕ}

lemma grants_congr (h : hwRights e = hwRights e') : Grants flags e ↔ Grants flags e' := by
  have hbit : ∀ i, i = 1 ∨ i = 2 ∨ i = 63 → e.testBit i = e'.testBit i := fun i hi => by
    have := congrArg (fun r => r.testBit i) h
    simp only [testBit_hwRights] at this
    grind
  simp only [Grants, pteWritable, pteUser, pteNx, and_two_pow_ne_zero, hbit 1 (by omega),
    hbit 2 (by omega), hbit 63 (by omega)]

/-- A table that `walk_to_level` creates is no obstacle but to user access. -/
lemma grants_newTable {p : ℕ} (hp : pageSize ∣ p ∧ p < physLimit) :
    Grants flags (p ||| (ptePresent ||| pteWritable)) ↔ flags &&& pteUser = 0 := by
  have hrights : hwRights (p ||| (ptePresent ||| pteWritable)) =
      hwRights (ptePresent ||| pteWritable) := by
    refine Nat.eq_of_testBit_eq fun i => ?_
    rw [testBit_hwRights, testBit_hwRights, Nat.testBit_or]
    have := fun h => testBit_page hp (i := i) h
    grind
  rw [grants_congr hrights, Grants, show (ptePresent ||| pteWritable) &&& pteUser = 0 by decide,
    show (ptePresent ||| pteWritable) &&& pteNx = 0 by decide]
  have hwritable : (ptePresent ||| pteWritable) &&& pteWritable ≠ 0 := by decide
  tauto

/-- A table that replaces a huge page has the rights of that page. -/
lemma grants_splitTable {p : ℕ} (hp : pageSize ∣ p ∧ p < physLimit) :
    Grants flags (p ||| (e &&& (ptePresent ||| pteWritable ||| pteUser ||| pteNx))) ↔
      Grants flags e := by
  refine grants_congr (Nat.eq_of_testBit_eq fun i => ?_)
  rw [testBit_hwRights, testBit_hwRights, Nat.testBit_or, Nat.testBit_and, testBit_rightsMask]
  have := fun h => testBit_page hp (i := i) h
  grind

end

/-! ## The walk -/

section

variable {P : ℕ → ℕ → Prop} {pages : ℕ → ℕ} {m m₁ : Memory} {s s' : PhysState}
  {virt flags n l t c x : ℕ}

/-- What a level of the walk contributes to the condition. -/
lemma LevelStep.pathGrants (hP : EntryInv P)
    (hPe : P (l + 1) (readEntry m t (pageIndex virt (l + 1))))
    (hc : pageSize ∣ c ∧ c < physLimit) (h : LevelStep m m₁ l t (pageIndex virt (l + 1)) c) :
    PathGrants m virt flags (l + 1) t ↔
      Grants flags (readEntry m₁ t (pageIndex virt (l + 1))) ∧ PathGrants m₁ virt flags l c := by
  cases h with
  | descend hpt hc hm =>
    rw [PathGrants, if_pos hpt.1, hm, hc]
    exact and_congr_right' (forall_prop_of_true hpt.2)
  | new h0 hentry hzero =>
    rw [PathGrants, if_neg (by simp [h0]), hentry, grants_newTable hc]
    refine (and_iff_left_of_imp fun huser => ?_).symm
    cases l with
    | zero => trivial
    | succ l =>
      rw [PathGrants, hzero _ (pageIndex_lt virt _)]
      exact (if_neg (by simp)).mpr huser
  | split h0 h7 hentry hpieces =>
    have hl := hP.level_lt hPe h0 h7
    rw [PathGrants, if_pos h0, hentry, grants_splitTable hc, and_iff_left (by simp [h7])]
    refine (and_iff_left_of_imp fun hgrants => ?_).symm
    cases l with
    | zero => trivial
    | succ l =>
      -- the pieces are huge again, with the rights of the whole
      have hi := pageIndex_lt virt (l + 1)
      have he := readEntry_lt m t (pageIndex virt (l + 1 + 1))
      rw [PathGrants, hpieces _ hi, if_pos (by rw [testBit_zero_splitEntry he hl hi, h0]),
        testBit_seven_splitEntry he hl hi]
      exact ⟨(grants_congr (hwRights_splitEntry he hl hi)).mpr hgrants, by simp⟩

/-- The tables on the path after a walk that may allocate, in terms of the entries before. -/
lemma walkToLevel_tableEntries (hP : EntryInv P) (ht : pageSize ∣ t ∧ t < physLimit)
    (hsep : Separate s.mem n l t) (hall : AllEntries P s.mem n l t)
    (hf : FreshPages s.mem n l t pages s.calls) (hn : n ≤ 512) (hi : pageIndex virt l < n)
    (hclear : PathClear s.mem virt 0 l t)
    (h : walkToLevel pages virt 0 true l t s = some (some x, s')) :
    PathGrants s.mem virt flags l t ↔ ∀ e ∈ tableEntries s'.mem virt l t, Grants flags e := by
  induction l generalizing n t s with
  | zero => simp [PathGrants, tableEntries]
  | succ l ih =>
    rcases walkToLevel_step hP ht hsep hall hf hn hi (by omega) hclear with
      ⟨-, -, hout⟩ | ⟨m₁, b, c, hp, hstep, -, hle, -, hc, hclear', hout⟩
    · rw [hout] at h
      cases h
    rw [hout] at h
    have hf' := hp.freshPages hf hle
    obtain ⟨r, s₁, heq, hw, -⟩ := walkToLevel_spec (s := ⟨m₁, b, s.calls2mb⟩) hP hc
      hp.separate hp.entries hf' le_rfl (pageIndex_lt virt l) hclear'
    obtain ⟨rfl, rfl⟩ : some x = r ∧ s' = s₁ := by
      rw [h] at heq
      simpa using heq
    obtain ⟨-, hentry⟩ := hp.updateAt hf hle ht hsep hn hi hw
    rw [hstep.pathGrants hP (hall _ hi).1 hc, tableEntries, hentry, if_pos hp.points.1, hp.points.2,
      List.forall_mem_cons]
    exact and_congr_right' (ih hc hp.separate hp.entries hf' le_rfl (pageIndex_lt virt l) hclear' h)

/-- Storing the leaf leaves the tables on the path as they are. -/
lemma walkEntries_writeEntry {e : ℕ} (he : e < word) (ht : pageSize ∣ t ∧ t < physLimit)
    (hsep : Separate m 512 l t) (hx : tableOnPath m virt 0 l t = some x) :
    walkEntries (writeEntry m x (pageIndex virt 0) e) virt l t =
    tableEntries m virt l t ++ [e] := by
  induction l generalizing t with
  | zero =>
    obtain rfl := Option.some.inj hx
    rw [walkEntries, readEntry_writeEntry_self he]
    rfl
  | succ l ih =>
    rw [tableOnPath, if_neg (by omega)] at hx
    split_ifs at hx with hpt
    have hi := pageIndex_lt virt (l + 1)
    obtain ⟨hsepc, htnot, -⟩ := hsep _ hi hpt
    have hxmem := mem_tables_of_tableOnPath (pageIndex_lt virt l) hx
    have hxal := tables_aligned (hwAddr_aligned _) hxmem
    have hentry : readEntry (writeEntry m x (pageIndex virt 0) e) t (pageIndex virt (l + 1)) =
        readEntry m t (pageIndex virt (l + 1)) :=
      (changedOnly_writeEntry hxal.1 (pageIndex_lt virt 0)).readEntry_eq ht.1
        (fun h => htnot (Set.mem_singleton_iff.mp h ▸ hxmem)) hi
    rw [walkEntries, hentry, if_pos hpt, tableEntries, if_pos hpt,
      ih (hwAddr_aligned _) hsepc hx]
    rfl

end

/-! ## The requested rights -/

section

variable {pages : ℕ → ℕ} {levels top virt phys flags : ℕ} {s : PhysState}

/-- Above a leaf with the requested rights, the tables must be no obstacle. -/
lemma hasRights_iff {m : Memory} {es : List ℕ} {leaf : ℕ}
    (hentries : walkEntries m virt (levels - 1) top = es ++ [leaf])
    (hleaf : hwRights leaf = hwRights flags) :
    HasRights m levels top virt flags ↔ ∀ e ∈ es, Grants flags e := by
  obtain ⟨hw, hu, hnx⟩ : (leaf &&& pteWritable ≠ 0 ↔ flags &&& pteWritable ≠ 0) ∧
      (leaf &&& pteUser ≠ 0 ↔ flags &&& pteUser ≠ 0) ∧
        (leaf &&& pteNx ≠ 0 ↔ flags &&& pteNx ≠ 0) := by
    have hbit : ∀ i, i = 1 ∨ i = 2 ∨ i = 63 → leaf.testBit i = flags.testBit i := fun i hi => by
      have := congrArg (fun r => r.testBit i) hleaf
      simp only [testBit_hwRights] at this
      grind
    simp only [pteWritable, pteUser, pteNx, and_two_pow_ne_zero, hbit 1 (by omega),
      hbit 2 (by omega), hbit 63 (by omega), and_self]
  have hmem : ∀ e, e ∈ walkEntries m virt (levels - 1) top ↔ e ∈ es ∨ e = leaf := fun e => by
    rw [hentries, List.mem_append, List.mem_singleton]
  constructor
  · rintro ⟨hwritable, huser, hnoexec⟩ e he
    exact ⟨fun hf => hwritable.mpr hf e ((hmem e).mpr (.inl he)),
      fun hf => huser.mpr hf e ((hmem e).mpr (.inl he)),
      fun hx => hnoexec.mp ⟨e, (hmem e).mpr (.inl he), hx⟩⟩
  · refine fun hgrants => ⟨⟨fun h => hw.mp (h leaf ((hmem leaf).mpr (.inr rfl))),
      fun hf e he => ?_⟩,
      ⟨fun h => hu.mp (h leaf ((hmem leaf).mpr (.inr rfl))), fun hf e he => ?_⟩,
      ⟨?_, fun hf => ⟨leaf, (hmem leaf).mpr (.inr rfl), hnx.mpr hf⟩⟩⟩
    · rcases (hmem e).mp he with he | rfl
      · exact (hgrants e he).1 hf
      · exact hw.mpr hf
    · rcases (hmem e).mp he with he | rfl
      · exact (hgrants e he).2.1 hf
      · exact hu.mpr hf
    · rintro ⟨e, he, hx⟩
      rcases (hmem e).mp he with he | rfl
      · exact (hgrants e he).2.2 hx
      · exact hnx.mp hx

lemma PagingOp.Valid.keeps {op : PagingOp} (h : op.Valid) : op.Keeps PlainEntry := by
  cases op with
  | map kind virt phys flags =>
    have hbits : ∀ i, 52 ≤ i → i < 63 → phys.testBit i = false := fun i hi _ =>
      Nat.testBit_lt_two_pow (lt_of_lt_of_le h.1 (Nat.pow_le_pow_right (by decide) hi))
    exact ⟨h.2.lt, plainEntry_entry hbits h.2⟩
  | unmap kind virt => trivial

/-- **The rights of a mapped page.**  In every state that map and unmap calls reach from a zeroed
top table, a call of `paging_map_page` whose allocations succeed gives the page exactly the
requested rights if and only if, before the call, each entry on the path above the last level, down
to the first huge one, has `PTE_WRITABLE` and `PTE_USER` where the request has it and no `PTE_NX`
that the request lacks, and no table is missing if the request has `PTE_USER`. -/
theorem pagingMapPage_rights_iff (hlev : levels = 4 ∨ levels = 5)
    (htop : pageSize ∣ top ∧ top < physLimit) (hzero : ∀ i < 512, readEntry s.mem top i = 0)
    (hpages : FreshPages s.mem 512 (levels - 1) top pages s.calls) {ops : List PagingOp}
    (hops : ∀ op ∈ ops, op.Valid) :
    ∃ s', runPaging pages levels top ops s = some s' ∧
      ∀ virt phys flags, phys < physLimit → AttributeFlags flags → flags &&& ptePresent ≠ 0 →
        ∃ s'', pagingMapPageNoflush pages levels top virt phys flags s' = some s'' ∧
          ((∀ k, s'.calls ≤ k → k < s''.calls → pages k ≠ 0) →
            (HasRights s''.mem levels top virt flags ↔
              PathGrants s'.mem virt flags (levels - 1) top)) := by
  have hplain : ∀ l e, PlainEntry l e → PlainEntry l e := fun _ _ h => h
  obtain ⟨s', hs', htree⟩ := (pagingTree_zeroed plainEntry_entryInv hzero (by omega) hpages).run
    plainEntry_entryInv hplain (by omega) htop fun op hop => (hops op hop).keeps
  refine ⟨s', hs', fun virt phys flags hphys hflags _ => ?_⟩
  have hclear : PathClear s'.mem virt 0 (levels - 1) top :=
    pathClear_of_plain hplain (pageIndex_lt virt _) htree.entries
  obtain ⟨r, s₁, hwalk, hw, hnone, hsome⟩ :=
    walkToLevel_spec plainEntry_entryInv htop htree.separate
    htree.entries htree.fresh le_rfl (pageIndex_lt virt _) hclear
  have hmap : pagingMapPageNoflush pages levels top virt phys flags s' = _ :=
    pagingMapNoflush_eq pages .page4kb levels top virt phys flags s'
  rw [show PageKind.level .page4kb = 0 from rfl, hwalk, Option.bind_some] at hmap
  cases r with
  | none =>
    obtain ⟨k, hk, hk', h0⟩ := hnone.mp rfl
    exact ⟨s₁, hmap, fun hok => absurd h0 (hok k hk hk')⟩
  | some x =>
    have hx := hsome x rfl
    have hxmem := mem_tables_of_tableOnPath (pageIndex_lt virt _) hx
    dsimp only at hmap
    rw [storeEntry, if_neg (not_le.mpr (tables_aligned htop hxmem).2)] at hmap
    refine ⟨_, hmap, fun _ => ?_⟩
    rw [walkToLevel_tableEntries plainEntry_entryInv htop htree.separate htree.entries htree.fresh
      le_rfl (pageIndex_lt virt _) hclear hwalk]
    refine hasRights_iff (walkEntries_writeEntry (entry_lt hflags.lt) htop hw.separate hx) ?_
    exact congrArg Mapping.rights (@leafMapping_entry .page4kb _ _ hflags.addr hphys virt)

end

/-- Present, writable and for user mode. -/
lemma attributeFlags_seven : AttributeFlags 7 := by
  intro i hi
  rw [show 7 = 2 ^ 3 - 1 from rfl, Nat.testBit_two_pow_sub_one, decide_eq_true_eq] at hi
  omega

/-- A page that is mapped for user mode under an empty top table: the three tables above it are
created without `PTE_USER`. -/
theorem pagingMapPage_not_user : FreshPages (fun _ => 0) 512 3 0x1000 (pageSupply 3) 0 ∧
    AttributeFlags 7 ∧ ∃ s, pagingMapPageNoflush (pageSupply 3) 4 0x1000 0x400000 0x9000 7
        ⟨fun _ => 0, 0, 0⟩ = some s ∧
      (∀ k, 0 ≤ k → k < s.calls → pageSupply 3 k ≠ 0) ∧ ¬HasRights s.mem 4 0x1000 0x400000 7 := by
  refine ⟨pageSupply_fresh (by decide), attributeFlags_seven, ?_⟩
  have heval : (pagingMapPageNoflush (pageSupply 3) 4 0x1000 0x400000 0x9000 7
      ⟨fun _ => 0, 0, 0⟩).map (fun s => (s.calls, walkEntries s.mem 0x400000 3 0x1000)) =
        some (3, [0x2003, 0x3003, 0x4003, 0x9007]) := by
    decide +kernel
  obtain ⟨s, hs, hs'⟩ := Option.map_eq_some_iff.mp heval
  obtain ⟨hcalls, hentries⟩ := Prod.mk.injEq _ _ _ _ ▸ hs'
  refine ⟨s, hs, fun k _ hk => ?_, fun h => ?_⟩
  · rw [hcalls] at hk
    rw [pageSupply, if_pos hk]
    omega
  · have huser := h.user.mpr (by decide) 0x2003 (by rw [hentries]; decide)
    exact absurd huser (by decide)

/-- A page for the kernel that is not executable, behind the tables of another page. -/
theorem pagingMapPage_rights_kernel : ∃ s s',
    runPaging (pageSupply 3) 4 0x1000 [.map .page4kb 0x401000 0x8000 3] ⟨fun _ => 0, 0, 0⟩ =
      some s ∧
    tableEntries s.mem 0x400000 3 0x1000 = [0x2003, 0x3003, 0x4003] ∧
    PathGrants s.mem 0x400000 (pteNx ||| 3) 3 0x1000 ∧
    pagingMapPageNoflush (pageSupply 3) 4 0x1000 0x400000 0x9000 (pteNx ||| 3) s = some s' ∧
    HasRights s'.mem 4 0x1000 0x400000 (pteNx ||| 3) := by
  have hflags : AttributeFlags (pteNx ||| 3) := by
    intro i hi
    rw [Nat.testBit_or, pteNx, Nat.testBit_two_pow, show 3 = 2 ^ 2 - 1 from rfl,
      Nat.testBit_two_pow_sub_one] at hi
    grind
  have hthree : AttributeFlags 3 := fun i hi => by
    rw [show 3 = 2 ^ 2 - 1 from rfl, Nat.testBit_two_pow_sub_one] at hi
    grind
  have hops : ∀ op ∈ [PagingOp.map .page4kb 0x401000 0x8000 3], op.Valid := fun op hop => by
    obtain rfl := List.mem_singleton.mp hop
    exact ⟨by decide, hthree⟩
  obtain ⟨s, hs, hrights⟩ := pagingMapPage_rights_iff (s := ⟨fun _ => 0, 0, 0⟩) (.inl rfl)
    (by decide) (fun i _ => readEntry_zero _ i) (@pageSupply_fresh 3 (by decide)) hops
  obtain ⟨s', hs', hiff⟩ := hrights 0x400000 0x9000 (pteNx ||| 3) (by decide) hflags (by decide)
  have heval : (runPaging (pageSupply 3) 4 0x1000 [.map .page4kb 0x401000 0x8000 3]
      ⟨fun _ => 0, 0, 0⟩).map (fun s => (tableEntries s.mem 0x400000 3 0x1000,
        decide (PathGrants s.mem 0x400000 (pteNx ||| 3) 3 0x1000), s.calls,
        (pagingMapPageNoflush (pageSupply 3) 4 0x1000 0x400000 0x9000 (pteNx ||| 3) s).map
          PhysState.calls)) = some ([0x2003, 0x3003, 0x4003], true, 3, some 3) := by
    decide +kernel
  rw [hs, Option.map_some, hs', Option.map_some] at heval
  obtain ⟨htables, hvalue⟩ := Prod.mk.inj (Option.some.inj heval)
  obtain ⟨hgrants, hvalue⟩ := Prod.mk.inj hvalue
  obtain ⟨hcalls, hcalls'⟩ := Prod.mk.inj hvalue
  have hpath := of_decide_eq_true hgrants
  -- no table is missing, so none is allocated
  refine ⟨s, s', hs, htables, hpath, hs', (hiff fun k hk hk' => ?_).mpr hpath⟩
  have hsame := Option.some.inj hcalls'
  omega

end Cuore
