import Cuore.Mem.Paging.Frame

/-!
# Missing tables

A map function takes one page from the allocator for each table that is missing on the path of its
address.  `walkToLevel_missing` counts them: a walk to a level calls the allocator at most as often
as tables are missing, exactly as often if all of the calls are answered, and afterwards the tables
are there that were, and those on the path (`PathFilled`).
-/

namespace Cuore

/-! ## Paths -/

/-- How many of the tables of the levels from `target` on are missing on the path of `virt`. -/
def missingOnPath (m : Memory) (virt target l t : ℕ) : ℕ :=
  (List.range l).countP fun j => decide (target ≤ j) && (tableOnPath m virt j l t).isNone

/-- The paths of `v` and `w` part before the tables of level `j`. -/
def PathsPart (v w j l : ℕ) : Prop := ∃ k, j < k ∧ k ≤ l ∧ pageIndex v k ≠ pageIndex w k

/-- From `m` to `m'`, the tables on the path of `virt` have come, down to level `target`, and no
others. -/
def PathFilled (virt target : ℕ) (m m' : Memory) (n l t : ℕ) : Prop :=
  ∀ w j, pageIndex w l < n → target ≤ j →
    (tableOnPath m' w j l t = none ↔ tableOnPath m w j l t = none ∧ PathsPart w virt j l)

section Paths

variable {m m' : Memory} {v w virt target n l t i j c : ℕ}

lemma tableOnPath_of_le (h : l ≤ j) : tableOnPath m v j l t = some t := by
  cases l with
  | zero => rfl
  | succ l => rw [tableOnPath, if_pos h]

lemma tableOnPath_succ (h : j ≤ l) : tableOnPath m v j (l + 1) t =
    if PointsToTable (readEntry m t (pageIndex v (l + 1))) then
      tableOnPath m v j l (hwAddr (readEntry m t (pageIndex v (l + 1)))) else none := by
  rw [tableOnPath]
  exact if_neg (by omega)

/-- Below a table whose entries lead nowhere, there are no tables. -/
lemma tableOnPath_of_leaf (hleaf : l = 0 ∨ ∀ i < 512, ¬PointsToTable (readEntry m t i))
    (h : j < l) : tableOnPath m v j l t = none := by
  cases l with
  | zero => exact absurd h (Nat.not_lt_zero j)
  | succ l =>
    rw [tableOnPath_succ (Nat.le_of_lt_succ h)]
    exact if_neg (hleaf.resolve_left (Nat.succ_ne_zero l) _ (pageIndex_lt v _))

lemma Agree.tableOnPath_eq (h : Agree m m' n l t) (hv : pageIndex v l < n) :
    tableOnPath m' v j l t = tableOnPath m v j l t := by
  induction l generalizing n t with
  | zero => rfl
  | succ l ih =>
    rw [tableOnPath, tableOnPath]
    simp only [h.self (pageIndex_lt v (l + 1))]
    split_ifs with hj hp
    · rfl
    · exact ih (h.child hv hp) (pageIndex_lt v l)
    · rfl

lemma UpdateAt.tableOnPath_eq (h : UpdateAt m m' n l t i) (hvn : pageIndex v (l + 1) < n)
    (hv : pageIndex v (l + 1) ≠ i) : tableOnPath m' v j (l + 1) t = tableOnPath m v j (l + 1) t := by
  rw [tableOnPath, tableOnPath]
  simp only [h.entry _ hvn hv]
  split_ifs with hj hp
  · rfl
  · exact (h.agree _ hvn hv hp).tableOnPath_eq (pageIndex_lt v l)
  · rfl

/-! ## Counting -/

lemma countP_range_le (target l : ℕ) :
    (List.range l).countP (fun j => decide (target ≤ j)) = l - target := by
  induction l with
  | zero => simp
  | succ l ih =>
    rw [List.range_succ, List.countP_append, ih, List.countP_singleton]
    split_ifs with h <;> simp only [decide_eq_true_eq] at h <;> omega

/-- Nothing is missing above the target. -/
lemma missingOnPath_of_le (h : l ≤ target) : missingOnPath m virt target l t = 0 := by
  refine List.countP_eq_zero.mpr fun j hj => ?_
  have := List.mem_range.mp hj
  simp [show ¬target ≤ j by omega]

/-- The entry leads on. -/
lemma missingOnPath_of_points (h : PointsToTable (readEntry m t (pageIndex virt (l + 1)))) :
    missingOnPath m virt target (l + 1) t =
      missingOnPath m virt target l (hwAddr (readEntry m t (pageIndex virt (l + 1)))) := by
  rw [missingOnPath, List.range_succ, List.countP_append, List.countP_singleton,
    tableOnPath_succ le_rfl, if_pos h, tableOnPath_of_le le_rfl]
  simp only [Option.isNone_some, Bool.and_false, Bool.false_eq_true, if_false, Nat.add_zero]
  refine List.countP_congr fun j hj => ?_
  rw [tableOnPath_succ (List.mem_range.mp hj).le, if_pos h]

/-- The entry does not lead on. -/
lemma missingOnPath_of_leaf (hleaf : l = 0 ∨ ∀ i < 512, ¬PointsToTable (readEntry m t i)) :
    missingOnPath m virt target l t = l - target := by
  rw [← countP_range_le, missingOnPath]
  refine List.countP_congr fun j hj => ?_
  rw [tableOnPath_of_leaf hleaf (List.mem_range.mp hj)]
  simp

lemma missingOnPath_of_not_points
    (h : ¬PointsToTable (readEntry m t (pageIndex virt (l + 1)))) :
    missingOnPath m virt target (l + 1) t = l + 1 - target := by
  rw [← countP_range_le, missingOnPath]
  refine List.countP_congr fun j hj => ?_
  rw [tableOnPath_succ (Nat.le_of_lt_succ (List.mem_range.mp hj)), if_neg h]
  simp

end Paths

/-! ## The walk -/

section Walk

variable {P : ℕ → ℕ → Prop} {pages : ℕ → ℕ} {virt target n l t : ℕ} {s s' : PhysState}

/-- A level that has been prepared, and the path below it. -/
lemma PathFilled.of_prepared {m₁ : Memory} {b c : ℕ}
    (hp : Prepared P pages s.calls b s.mem m₁ n l t (pageIndex virt (l + 1)) c)
    (hcalls : LevelCalls s.mem m₁ l t (pageIndex virt (l + 1)) c s.calls b)
    (hup : UpdateAt s.mem s'.mem n l t (pageIndex virt (l + 1)))
    (hentry : readEntry s'.mem t (pageIndex virt (l + 1)) =
      readEntry m₁ t (pageIndex virt (l + 1)))
    (hlow : PathFilled virt target m₁ s'.mem 512 l c) :
    PathFilled virt target s.mem s'.mem n (l + 1) t := by
  intro w j hw hj
  rcases Nat.lt_or_ge l j with hjl | hjl
  · simp [tableOnPath_of_le hjl]
  by_cases hwi : pageIndex w (l + 1) = pageIndex virt (l + 1)
  · have hpart : PathsPart w virt j (l + 1) ↔ PathsPart w virt j l := by
      refine ⟨fun ⟨k, hk, hk', hne⟩ => ⟨k, hk, ?_, hne⟩, fun ⟨k, hk, hk', hne⟩ =>
        ⟨k, hk, Nat.le_succ_of_le hk', hne⟩⟩
      have hkl : k ≠ l + 1 := fun h => hne (h ▸ hwi)
      omega
    rw [tableOnPath_succ hjl, tableOnPath_succ hjl, hwi, hentry, if_pos hp.points.1, hp.points.2,
      hlow w j (pageIndex_lt w l) hj, hpart]
    refine and_congr_left fun hparts => ?_
    rcases hcalls with ⟨-, hpt, rfl, rfl⟩ | ⟨-, hnot, hleaf⟩
    · rw [if_pos hpt]
    · obtain ⟨k, hk, hk', -⟩ := hparts
      rw [if_neg hnot, tableOnPath_of_leaf hleaf (hk.trans_le hk')]
  · rw [hup.tableOnPath_eq hw hwi]
    exact (and_iff_left ⟨l + 1, Nat.lt_succ_of_le hjl, le_rfl, hwi⟩).symm

/-- **A walk takes a page for each table that is missing**, as long as the allocator has pages. -/
lemma walkToLevel_missing (hP : EntryInv P) (ht : pageSize ∣ t ∧ t < physLimit)
    (hsep : Separate s.mem n l t) (hall : AllEntries P s.mem n l t)
    (hf : FreshPages s.mem n l t pages s.calls) (hn : n ≤ 512) (hi : pageIndex virt l < n)
    (hclear : PathClear s.mem virt target l t) :
    ∃ r s', walkToLevel pages virt target true l t s = some (r, s') ∧
      s'.calls ≤ s.calls + missingOnPath s.mem virt target l t ∧
      (r ≠ none → s'.calls = s.calls + missingOnPath s.mem virt target l t ∧
        PathFilled virt target s.mem s'.mem n l t) := by
  induction l generalizing n t s with
  | zero =>
    refine ⟨some t, s, rfl, Nat.le_add_right _ _, fun _ => ⟨?_, fun w j _ _ => ?_⟩⟩
    · rw [missingOnPath_of_le (Nat.zero_le _), Nat.add_zero]
    · simp [tableOnPath_of_le (Nat.zero_le j)]
  | succ l ih =>
    by_cases htarget : l + 1 ≤ target
    · refine ⟨some t, s, by rw [walkToLevel, if_pos htarget], Nat.le_add_right _ _,
        fun _ => ⟨?_, fun w j _ hj => ?_⟩⟩
      · rw [missingOnPath_of_le htarget, Nat.add_zero]
      · simp [tableOnPath_of_le (htarget.trans hj)]
    rcases walkToLevel_step hP ht hsep hall hf hn hi htarget hclear with
      ⟨hnot, -, hout⟩ | ⟨m₁, b, c, hp, -, hcalls, hle, -, hc, hclear', hout⟩
    · refine ⟨none, _, hout, ?_, fun h => absurd rfl h⟩
      rw [missingOnPath_of_not_points hnot]
      dsimp only
      omega
    have hfresh := hp.freshPages hf hle
    obtain ⟨r, s', heq, hmost, hfill⟩ :=
      @ih 512 c ⟨m₁, b, s.calls2mb⟩ hc hp.separate hp.entries hfresh le_rfl (pageIndex_lt virt l)
        hclear'
    obtain ⟨r', s'', heq', hw, -⟩ := walkToLevel_spec (s := ⟨m₁, b, s.calls2mb⟩) hP hc
      hp.separate hp.entries hfresh le_rfl (pageIndex_lt virt l) hclear'
    obtain ⟨rfl, rfl⟩ := Prod.mk.inj (Option.some.inj (heq.symm.trans heq'))
    obtain ⟨hup, hentry⟩ := hp.updateAt hf hle ht hsep hn hi hw
    have hcount : b + missingOnPath m₁ virt target l c =
        s.calls + missingOnPath s.mem virt target (l + 1) t := by
      rcases hcalls with ⟨rfl, hpt, rfl, rfl⟩ | ⟨rfl, hnot, hleaf⟩
      · rw [missingOnPath_of_points hpt]
      · rw [missingOnPath_of_not_points hnot, missingOnPath_of_leaf hleaf]
        omega
    dsimp only at hmost hfill
    rw [hcount] at hmost hfill
    refine ⟨r, s', hout.trans heq, hmost, fun hr => ?_⟩
    obtain ⟨hsame, hlow⟩ := hfill hr
    exact ⟨hsame, hlow.of_prepared hp hcalls hup hentry⟩

/-- The entry that is stored at the end of a path leads nowhere. -/
lemma tableOnPath_writeEntry {m : Memory} {x e w j : ℕ} (ht : pageSize ∣ t ∧ t < physLimit)
    (hsep : Separate m n l t) (hn : n ≤ 512) (hi : pageIndex virt l < n)
    (hx : tableOnPath m virt target l t = some x) (hw : pageIndex w l < n) (hj : target ≤ j) :
    tableOnPath (writeEntry m x (pageIndex virt target) e) w j l t = tableOnPath m w j l t := by
  induction l generalizing n t with
  | zero => rfl
  | succ l ih =>
    rcases Nat.lt_or_ge l j with hjl | hjl
    · rw [tableOnPath_of_le hjl, tableOnPath_of_le hjl]
    rw [tableOnPath_succ (hj.trans hjl)] at hx
    split_ifs at hx with hpt
    have hxmem := mem_tables_of_tableOnPath (pageIndex_lt virt l) hx
    have hxal := tables_aligned (hwAddr_aligned _) hxmem
    obtain ⟨hsepc, htnot, -⟩ := hsep _ hi hpt
    have hch : ChangedOnly {x} m (writeEntry m x (pageIndex virt target) e) :=
      changedOnly_writeEntry hxal.1 (pageIndex_lt virt target)
    have hentry : ∀ i < 512, readEntry (writeEntry m x (pageIndex virt target) e) t i =
        readEntry m t i := fun i hi =>
      hch.readEntry_eq ht.1 (fun h => htnot (Set.mem_singleton_iff.mp h ▸ hxmem)) hi
    have hup : UpdateAt m (writeEntry m x (pageIndex virt target) e) n l t
        (pageIndex virt (l + 1)) :=
      hch.updateAt hsep (fun i hi _ => hentry i (lt_of_lt_of_le hi hn))
        (fun y hy _ => .inr ⟨hpt, Set.mem_singleton_iff.mp hy ▸ hxmem⟩) hi
    by_cases hwi : pageIndex w (l + 1) = pageIndex virt (l + 1)
    · rw [tableOnPath_succ hjl, tableOnPath_succ hjl, hwi, hentry _ (pageIndex_lt virt _),
        if_pos hpt, if_pos hpt]
      exact ih (hwAddr_aligned _) hsepc le_rfl (pageIndex_lt virt l) hx (pageIndex_lt w l)
    · exact hup.tableOnPath_eq hw hwi

/-- **A map function takes a page for each table that is missing** on the path of its address. -/
lemma pagingMapNoflush_missing (hP : EntryInv P) (kind : PageKind) (phys : ℕ) {levels top : ℕ}
    {flags : ℕ} (htop : pageSize ∣ top ∧ top < physLimit)
    (hsep : Separate s.mem n (levels - 1) top) (hall : AllEntries P s.mem n (levels - 1) top)
    (hf : FreshPages s.mem n (levels - 1) top pages s.calls) (hn : n ≤ 512)
    (hi : pageIndex virt (levels - 1) < n)
    (hclear : PathClear s.mem virt kind.level (levels - 1) top)
    (hmap : pagingMapNoflush pages kind levels top virt phys flags s = some s') :
    s'.calls ≤ s.calls + missingOnPath s.mem virt kind.level (levels - 1) top ∧
      ((∀ k, s.calls ≤ k → k < s'.calls → pages k ≠ 0) →
        s'.calls = s.calls + missingOnPath s.mem virt kind.level (levels - 1) top ∧
        PathFilled virt kind.level s.mem s'.mem n (levels - 1) top) := by
  obtain ⟨r, s₁, hwalk, hmost, hfill⟩ := walkToLevel_missing hP htop hsep hall hf hn hi hclear
  obtain ⟨r', s₂, hwalk', hw, hnone, hsome⟩ := walkToLevel_spec hP htop hsep hall hf hn hi hclear
  obtain ⟨rfl, rfl⟩ := Prod.mk.inj (Option.some.inj (hwalk.symm.trans hwalk'))
  rw [pagingMapNoflush_eq, hwalk, Option.bind_some] at hmap
  cases r with
  | none =>
    obtain rfl := Option.some.inj hmap
    refine ⟨hmost, fun hall => ?_⟩
    obtain ⟨k, hk, hk', hzero⟩ := hnone.mp rfl
    exact absurd hzero (hall k hk hk')
  | some x =>
    dsimp only [storeEntry] at hmap
    split_ifs at hmap
    obtain rfl := Option.some.inj hmap
    obtain ⟨hcalls, hpath⟩ := hfill (by simp)
    refine ⟨hmost, fun _ => ⟨hcalls, fun w j hw' hj => ?_⟩⟩
    rw [tableOnPath_writeEntry htop hw.separate hn hi (hsome x rfl) hw' hj]
    exact hpath w j hw' hj

end Walk

end Cuore
