import Cuore.Mem.Paging.Entry

/-!
# Walking to a level changes no translation

`walk_to_level` creates the missing tables on the path of an address and splits the huge
entries it meets.  `walkToLevel_spec` says what that does to a tree: no address changes its
translation or its rights, whether the walk gets to its level or an allocation fails on the
way; the tables stay separate; and any condition on entries that fresh tables and the pieces of
huge pages satisfy (`EntryInv`) is kept.

One level of the walk is `Prepared`: the entry on the path now points to a table `c` that
translates as the entry did before.  `Walked.of_prepared` joins it with the rest of the walk.

The walk follows `PTE_ADDR_MASK`, bits 12 to 59, where the processor takes bits 12 to 51.
`PathClear` is the condition under which this makes no difference.
-/

namespace Cuore

/-! ## What the walk relies on -/

/-- The page allocator hands out pages that are in physical memory and no table of the tree, and
none twice.  What it would answer to calls that are never made is of no consequence. -/
structure FreshPages (m : Memory) (n l t : ℕ) (pages : ℕ → ℕ) (calls : ℕ) : Prop where
  page : ∀ k, calls ≤ k → pages k ≠ 0 → pageSize ∣ pages k ∧ pages k < physLimit
  fresh : ∀ k, calls ≤ k → pages k ≠ 0 → pages k ∉ tables m n l t
  distinct : ∀ j k, calls ≤ j → calls ≤ k → pages j ≠ 0 → pages j = pages k → j = k

/-- On the path of `virt` down to `target`, bits 52 to 59 of the entries followed are clear. -/
def PathClear (m : Memory) (virt target : ℕ) : ℕ → ℕ → Prop
  | 0, _ => True
  | l + 1, t =>
    let e := readEntry m t (pageIndex virt (l + 1))
    l + 1 ≤ target ∨ ¬PointsToTable e ∨
      e &&& bitsMask 52 60 = 0 ∧ PathClear m virt target l (hwAddr e)

/-- The table of level `target` on the path of `virt`. -/
def tableOnPath (m : Memory) (virt target : ℕ) : ℕ → ℕ → Option ℕ
  | 0, t => some t
  | l + 1, t =>
    let e := readEntry m t (pageIndex virt (l + 1))
    if l + 1 ≤ target then some t
    else if PointsToTable e then tableOnPath m virt target l (hwAddr e) else none

/-- A condition on the entries of a tree that the walk keeps.  It forbids the reserved bit. -/
structure EntryInv (P : ℕ → ℕ → Prop) : Prop where
  reserved : ∀ l e, P l e → 3 ≤ l → e.testBit 0 = true → e.testBit 7 = false
  zero : ∀ l, P l 0
  newTable : ∀ l p, pageSize ∣ p ∧ p < physLimit → P (l + 1) (p ||| (ptePresent ||| pteWritable))
  splitTable : ∀ l e p, pageSize ∣ p ∧ p < physLimit → P (l + 1) e →
    P (l + 1) (p ||| (e &&& (ptePresent ||| pteWritable ||| pteUser ||| pteNx)))
  piece : ∀ l e i, l < 2 → i < 512 → e < word → e.testBit 0 = true → e.testBit 7 = true →
    P (l + 1) e → P l (splitEntry e (l + 1) i)

/-- Huge entries are of levels 1 and 2. -/
lemma EntryInv.level_lt {P : ℕ → ℕ → Prop} (hP : EntryInv P) {l e : ℕ} (he : P (l + 1) e)
    (h0 : e.testBit 0 = true) (h7 : e.testBit 7 = true) : l < 2 := by
  by_contra hge
  have := hP.reserved (l + 1) e he (by omega) h0
  rw [h7] at this
  exact absurd this (by simp)

/-- The pages handed out by the calls from `a` up to `b`. -/
def handedOut (pages : ℕ → ℕ) (a b : ℕ) : Set ℕ :=
  {x | ∃ k, a ≤ k ∧ k < b ∧ pages k = x ∧ x ≠ 0}

lemma handedOut_mono {pages : ℕ → ℕ} {a a' b b' : ℕ} (h : a' ≤ a) (h' : b ≤ b') :
    handedOut pages a b ⊆ handedOut pages a' b' := by
  rintro x ⟨k, hk, hk', hx⟩
  exact ⟨k, h.trans hk, lt_of_lt_of_le hk' h', hx⟩

/-- What a walk from the table `t` of level `l` does to memory. -/
structure Walked (P : ℕ → ℕ → Prop) (pages : ℕ → ℕ) (s s' : PhysState) (n l t : ℕ) : Prop where
  calls_le : s.calls ≤ s'.calls
  calls2mb : s'.calls2mb = s.calls2mb
  changed : ChangedOnly (tables s.mem n l t ∪ handedOut pages s.calls s'.calls) s.mem s'.mem
  walk : ∀ v, pageIndex v l < n → hwWalk s'.mem v l t = hwWalk s.mem v l t
  hugeFree : ∀ v, pageIndex v l < n → HugeFree s.mem v l t → HugeFree s'.mem v l t
  separate : Separate s'.mem n l t
  tables_sub : tables s'.mem n l t ⊆ tables s.mem n l t ∪ handedOut pages s.calls s'.calls
  entries : AllEntries P s'.mem n l t

lemma Walked.refl {P : ℕ → ℕ → Prop} {pages : ℕ → ℕ} {s s' : PhysState} {n l t : ℕ}
    (hmem : s'.mem = s.mem) (hcalls : s.calls ≤ s'.calls) (hcalls2 : s'.calls2mb = s.calls2mb)
    (hsep : Separate s.mem n l t) (hall : AllEntries P s.mem n l t) :
    Walked P pages s s' n l t where
  calls_le := hcalls
  calls2mb := hcalls2
  changed := hmem ▸ ChangedOnly.refl _ _
  walk v _ := by rw [hmem]
  hugeFree v _ h := by rwa [hmem]
  separate := by rwa [hmem]
  tables_sub := by
    rw [hmem]
    exact Set.subset_union_left
  entries := by rwa [hmem]

/-! ## One level -/

/-- The entry `i` of the table `t` has been made to point to a table `c` that translates as the
entry did before, using the pages handed out from `a` up to `b`. -/
structure Prepared (P : ℕ → ℕ → Prop) (pages : ℕ → ℕ) (a b : ℕ) (m m₁ : Memory) (n l t i c : ℕ) :
    Prop where
  changed : ChangedOnly ({t} ∪ handedOut pages a b) m m₁
  entry : ∀ j < n, j ≠ i → readEntry m₁ t j = readEntry m t j
  points : PointsToTable (readEntry m₁ t i) ∧ hwAddr (readEntry m₁ t i) = c
  separate : Separate m₁ 512 l c
  not_mem : t ∉ tables m₁ 512 l c
  apart : ∀ j < n, j ≠ i → PointsToTable (readEntry m t j) →
    Disjoint (tables m₁ 512 l c) (tables m 512 l (hwAddr (readEntry m t j)))
  tables_sub : tables m₁ 512 l c ⊆ tables m n (l + 1) t ∪ handedOut pages a b
  walk : ∀ v, pageIndex v (l + 1) = i → hwWalk m₁ v l c = hwWalk m v (l + 1) t
  hugeFree : ∀ v, pageIndex v (l + 1) = i → HugeFree m v (l + 1) t → HugeFree m₁ v l c
  holds : P (l + 1) (readEntry m₁ t i)
  entries : AllEntries P m₁ 512 l c
  leaf : c ∈ handedOut pages a b → l = 0 ∨ ∀ j < 512, ¬PointsToTable (readEntry m₁ c j)

section Step

variable {P : ℕ → ℕ → Prop} {pages : ℕ → ℕ} {s s' : PhysState} {m₁ : Memory} {b n l t i c : ℕ}

lemma FreshPages.not_mem_handedOut {m : Memory} (hf : FreshPages m n l t pages s.calls) {k x : ℕ}
    (hx : x ∈ tables m n l t) : x ∉ handedOut pages s.calls k := by
  rintro ⟨j, hj, -, rfl, hne⟩
  exact hf.fresh j hj hne hx

/-- The pages still to come are fresh for the subtree. -/
lemma Prepared.freshPages (hp : Prepared P pages s.calls b s.mem m₁ n l t i c)
    (hf : FreshPages s.mem n (l + 1) t pages s.calls) (hle : s.calls ≤ b) :
    FreshPages m₁ 512 l c pages b where
  page k hk := hf.page k (hle.trans hk)
  fresh k hk hne hmem := by
    rcases hp.tables_sub hmem with hmem | ⟨j, hj, hj', heq, -⟩
    · exact hf.fresh k (hle.trans hk) hne hmem
    · have := hf.distinct j k hj (hle.trans hk) (heq ▸ hne) heq
      omega
  distinct j k hj hk := hf.distinct j k (hle.trans hj) (hle.trans hk)

/-- The rest of the walk stays away from the table `t` and from the other subtrees. -/
lemma Prepared.updateAt (hp : Prepared P pages s.calls b s.mem m₁ n l t i c)
    (hf : FreshPages s.mem n (l + 1) t pages s.calls) (hle : s.calls ≤ b)
    (ht : pageSize ∣ t ∧ t < physLimit) (hsep : Separate s.mem n (l + 1) t) (hn : n ≤ 512)
    (hi : i < n)
    (hw : Walked P pages ⟨m₁, b, s.calls2mb⟩ s' 512 l c) :
    UpdateAt s.mem s'.mem n l t i ∧ readEntry s'.mem t i = readEntry m₁ t i := by
  have hsub : handedOut pages b s'.calls ⊆ handedOut pages s.calls s'.calls :=
    handedOut_mono hle le_rfl
  have htnot : t ∉ tables m₁ 512 l c ∪ handedOut pages b s'.calls := by
    rintro (hmem | hmem)
    · exact hp.not_mem hmem
    · exact hf.not_mem_handedOut (self_mem_tables _ _ _ _) (hsub hmem)
  have hself : ∀ j < n, readEntry s'.mem t j = readEntry m₁ t j := fun j hj =>
    hw.changed.readEntry_eq ht.1 htnot (lt_of_lt_of_le hj hn)
  refine ⟨⟨fun j hj hji => (hself j hj).trans (hp.entry j hj hji),
    fun j hj hji hpt x hx k hk => ?_⟩,
    hself i hi⟩
  have hx1 := child_subset_tables hj hpt hx
  have hxal := tables_aligned ht hx1
  have hx2 : x ∉ tables m₁ 512 l c ∪ handedOut pages b s'.calls := by
    rintro (hmem | hmem)
    · exact Set.disjoint_left.mp (hp.apart j hj hji hpt) hmem hx
    · exact hf.not_mem_handedOut hx1 (hsub hmem)
  have hx3 : x ∉ ({t} ∪ handedOut pages s.calls b : Set ℕ) := by
    rintro (rfl | hmem)
    · exact (hsep j hj hpt).2.1 hx
    · exact hf.not_mem_handedOut hx1 hmem
  rw [hw.changed.readEntry_eq hxal.1 hx2 hk, hp.changed.readEntry_eq hxal.1 hx3 hk]

/-- A prepared level followed by the walk below it. -/
lemma Walked.of_prepared (hp : Prepared P pages s.calls b s.mem m₁ n l t i c)
    (hf : FreshPages s.mem n (l + 1) t pages s.calls) (hle : s.calls ≤ b)
    (ht : pageSize ∣ t ∧ t < physLimit) (hsep : Separate s.mem n (l + 1) t)
    (hall : AllEntries P s.mem n (l + 1) t) (hn : n ≤ 512) (hi : i < n)
      (hw : Walked P pages ⟨m₁, b, s.calls2mb⟩ s' 512 l c) :
    Walked P pages s s' n (l + 1) t := by
  obtain ⟨hup, hentry⟩ := hp.updateAt hf hle ht hsep hn hi hw
  have hcalls := hle.trans hw.calls_le
  have hsub₁ : handedOut pages s.calls b ⊆ handedOut pages s.calls s'.calls :=
    handedOut_mono le_rfl hw.calls_le
  have hsub₂ : handedOut pages b s'.calls ⊆ handedOut pages s.calls s'.calls :=
    handedOut_mono hle le_rfl
  have hpt : PointsToTable (readEntry s'.mem t i) := hentry ▸ hp.points.1
  have hc : hwAddr (readEntry s'.mem t i) = c := hentry ▸ hp.points.2
  have htables : tables s'.mem 512 l c ⊆
      tables s.mem n (l + 1) t ∪ handedOut pages s.calls s'.calls := by
    intro x hx
    rcases hw.tables_sub hx with hx | hx
    · exact (hp.tables_sub hx).imp id fun h => hsub₁ h
    · exact .inr (hsub₂ hx)
  refine ⟨hcalls, hw.calls2mb, ?_, fun v hvn => ?_, fun v hvn hfree => ?_, ?_,
    fun x hx => ?_, ?_⟩
  · refine (hp.changed.trans hw.changed).mono ?_
    rintro x ((rfl | hx) | hx | hx)
    · exact .inl (self_mem_tables _ _ _ _)
    · exact .inr (hsub₁ hx)
    · exact (hp.tables_sub hx).imp id fun h => hsub₁ h
    · exact .inr (hsub₂ hx)
  · by_cases hv : pageIndex v (l + 1) = i
    · rw [← hp.walk v hv, ← hw.walk v (pageIndex_lt v l), hwWalk]
      simp only [hv, hpt.1, hpt.2, hc]
      simp
    · exact hup.hwWalk_eq hvn hv
  · by_cases hv : pageIndex v (l + 1) = i
    · intro _
      rw [hv, hc]
      exact ⟨hpt.2, hw.hugeFree v (pageIndex_lt v l) (hp.hugeFree v hv hfree)⟩
    · exact hup.hugeFree hvn hv hfree
  · refine hup.separate hsep fun _ => ?_
    rw [hc]
    refine ⟨hw.separate, fun hmem => ?_, fun j hj hji hpj =>
      Set.disjoint_left.mpr fun x hx hxj => ?_⟩
    · rcases hw.tables_sub hmem with hmem | hmem
      · exact hp.not_mem hmem
      · exact hf.not_mem_handedOut (self_mem_tables _ _ _ _) (hsub₂ hmem)
    · rcases hw.tables_sub hx with hx | hx
      · exact Set.disjoint_left.mp (hp.apart j hj hji hpj) hx hxj
      · exact hf.not_mem_handedOut (child_subset_tables hj hpj hxj) (hsub₂ hx)
  · rcases hup.mem_tables hx with hx | ⟨-, hx⟩
    · exact .inl hx
    · rw [hc] at hx
      exact htables hx
  · refine hup.allEntries hall ?_ fun _ => ?_
    · rw [hentry]
      exact hp.holds
    · rw [hc]
      exact hw.entries

end Step

/-! ## The three kinds of level -/

/-- A table none of whose entries leads on is a tree by itself. -/
lemma tables_eq_singleton {m : Memory} {n l t : ℕ}
    (h : l = 0 ∨ ∀ i < n, ¬PointsToTable (readEntry m t i)) :
    tables m n l t = {t} ∧ Separate m n l t := by
  cases l with
  | zero => exact ⟨rfl, trivial⟩
  | succ l =>
    have hno := h.resolve_left (by omega)
    refine ⟨Set.Subset.antisymm ?_ (Set.singleton_subset_iff.mpr (self_mem_tables _ _ _ _)),
      fun i hi hp => absurd hp (hno i hi)⟩
    rintro x (hx | ⟨i, hi, hp, -⟩)
    · exact hx
    · exact absurd hp (hno i hi)

section Levels

variable {P : ℕ → ℕ → Prop} {pages : ℕ → ℕ} {m : Memory} {calls n l t i : ℕ}
  (ht : pageSize ∣ t ∧ t < physLimit) (hn : n ≤ 512) (hi : i < n)
  (hsep : Separate m n (l + 1) t) (hall : AllEntries P m n (l + 1) t)

include hi hsep hall in
/-- The entry already points to a table. -/
lemma prepared_descend (hpt : PointsToTable (readEntry m t i)) (b : ℕ) :
    Prepared P pages b b m m n l t i (hwAddr (readEntry m t i)) where
  changed := ChangedOnly.refl _ _
  entry _ _ _ := rfl
  points := ⟨hpt, rfl⟩
  separate := (hsep i hi hpt).1
  not_mem := (hsep i hi hpt).2.1
  apart := (hsep i hi hpt).2.2
  tables_sub := fun _ hx => .inl (child_subset_tables hi hpt hx)
  walk v hv := by
    rw [hwWalk]
    simp [hv, hpt.1, hpt.2]
  hugeFree v hv hfree := by
    rw [HugeFree, hv] at hfree
    exact (hfree hpt.1).2
  holds := (hall i hi).1
  entries := (hall i hi).2 hpt
  leaf := by
    rintro ⟨k, hk, hk', -⟩
    omega

include ht hn hi in
/-- A page `pages calls` filled by `fillNew` has been hooked up as the new table. -/
lemma prepared_fresh (fillNew : Memory → Memory) {f : ℕ}
    (hf : FreshPages m n (l + 1) t pages calls) (hne : pages calls ≠ 0)
    (hfill : ChangedOnly {pages calls} m (fillNew m))
    (hbits : ∀ j, f.testBit j = true → j = 0 ∨ j = 1 ∨ j = 2 ∨ j = 63) (h0 : f.testBit 0 = true)
    (hleaf : l = 0 ∨ ∀ j < 512, ¬PointsToTable (readEntry (fillNew m) (pages calls) j))
    (hwalk : ∀ m₁, (∀ j < 512, readEntry m₁ (pages calls) j =
      readEntry (fillNew m) (pages calls) j) → ∀ v, pageIndex v (l + 1) = i →
      hwWalk m₁ v l (pages calls) = hwWalk m v (l + 1) t)
    (hfree : ∀ v, pageIndex v (l + 1) = i → HugeFree m v (l + 1) t →
      ∀ j < 512, (readEntry (fillNew m) (pages calls) j).testBit 0 = false)
    (hholds : P (l + 1) (pages calls ||| f))
    (hnew : ∀ j < 512, P l (readEntry (fillNew m) (pages calls) j)) :
    Prepared P pages calls (calls + 1) m
      (writeEntry (fillNew m) t i (pages calls ||| f)) n l t i (pages calls) := by
  have hpage := hf.page calls le_rfl hne
  have hnot := hf.fresh calls le_rfl hne
  have htne : t ≠ pages calls := fun h => hnot (h ▸ self_mem_tables _ _ _ _)
  have hwrite : ChangedOnly {t} (fillNew m) (writeEntry (fillNew m) t i (pages calls ||| f)) :=
    changedOnly_writeEntry ht.1 (lt_of_lt_of_le hi hn)
  have hread : ∀ j < 512, readEntry (writeEntry (fillNew m) t i (pages calls ||| f))
    (pages calls) j =
      readEntry (fillNew m) (pages calls) j := fun j hj =>
    hwrite.readEntry_eq hpage.1 (fun h => htne (Set.mem_singleton_iff.mp h).symm) hj
  have hself : readEntry (writeEntry (fillNew m) t i (pages calls ||| f)) t i = pages calls ||| f :=
    readEntry_writeEntry_self (tableEntry_lt hpage hbits)
  have hleaf' : l = 0 ∨ ∀ j < 512, ¬PointsToTable
      (readEntry (writeEntry (fillNew m) t i (pages calls ||| f)) (pages calls) j) :=
    hleaf.imp id fun h j hj => by rw [hread j hj]; exact h j hj
  obtain ⟨htables, hsepnew⟩ := tables_eq_singleton hleaf'
  have hpoints := pointsToTable_tableEntry hpage hbits h0
  refine ⟨(hfill.trans hwrite).mono ?_, fun j hj hji => ?_, ?_, hsepnew, ?_,
    fun j hj hji hpj => ?_, ?_,
    fun v hv => hwalk _ hread v hv, fun v hv hfr => ?_, ?_, ?_, fun _ => hleaf'⟩
  · rintro x (rfl | rfl)
    · exact .inr ⟨calls, le_rfl, by omega, rfl, hne⟩
    · exact .inl rfl
  · rw [readEntry_writeEntry_of_index_ne (Ne.symm hji)]
    exact hfill.readEntry_eq ht.1 htne (lt_of_lt_of_le hj hn)
  · rw [hself]
    exact ⟨hpoints, hwAddr_tableEntry hpage hbits⟩
  · rw [htables]
    exact htne
  · rw [htables, Set.disjoint_singleton_left]
    exact fun h => hnot (child_subset_tables hj hpj h)
  · rw [htables]
    exact Set.singleton_subset_iff.mpr (.inr ⟨calls, le_rfl, by omega, rfl, hne⟩)
  · cases l with
    | zero => trivial
    | succ l =>
      intro h
      rw [hread _ (pageIndex_lt v _), hfree v hv hfr _ (pageIndex_lt v _)] at h
      exact absurd h (by simp)
  · rw [hself]
    exact hholds
  · cases l with
    | zero =>
      intro j hj
      rw [hread j hj]
      exact hnew j hj
    | succ l =>
      intro j hj
      rw [hread j hj]
      exact ⟨hnew j hj, fun hpj => absurd hpj (hleaf.resolve_left (by omega) j hj)⟩

include ht hn hi in
/-- A missing table has been created. -/
lemma prepared_new (hP : EntryInv P) (hf : FreshPages m n (l + 1) t pages calls)
    (hne : pages calls ≠ 0) (h0 : (readEntry m t i).testBit 0 = false) :
    Prepared P pages calls (calls + 1) m (writeEntry (m.fill (pages calls) pageSize 0) t i
      (pages calls ||| (ptePresent ||| pteWritable))) n l t i (pages calls) := by
  have hpage := hf.page calls le_rfl hne
  have hzero : ∀ j < 512, readEntry (m.fill (pages calls) pageSize 0) (pages calls) j = 0 :=
    fun j hj => readEntry_fill_zero hj
  refine prepared_fresh ht hn hi (fun m => m.fill (pages calls) pageSize 0) hf hne
    (changedOnly_fill hpage.1) (fun j hj => newTableFlags_bits hj) (by decide)
    (.inr fun j hj => by rw [hzero j hj]; decide) (fun m₁ hm₁ v hv => ?_)
    (fun v _ _ j hj => by rw [hzero j hj]; rfl) (hP.newTable l _ hpage)
      (fun j hj => by rw [hzero j hj]; exact hP.zero l)
  have hnone : hwWalk m v (l + 1) t = none := by
    rw [hwWalk]
    simp [hv, h0]
  rw [hnone]
  cases l with
  | zero =>
    rw [hwWalk, hm₁ _ (pageIndex_lt v 0), hzero _ (pageIndex_lt v 0)]
    rfl
  | succ l =>
    rw [hwWalk, hm₁ _ (pageIndex_lt v _), hzero _ (pageIndex_lt v _)]
    rfl

include ht hn hi hall in
/-- A huge entry has been split. -/
lemma prepared_split (hP : EntryInv P) (hf : FreshPages m n (l + 1) t pages calls)
    (hne : pages calls ≠ 0) (h0 : (readEntry m t i).testBit 0 = true)
    (h7 : (readEntry m t i).testBit 7 = true) :
    Prepared P pages calls (calls + 1) m (writeEntry (writeTable m (pages calls)
      (splitEntry (readEntry m t i) (l + 1))) t i (pages calls ||| (readEntry m t i &&&
        (ptePresent ||| pteWritable ||| pteUser ||| pteNx)))) n l t i (pages calls) := by
  have hpage := hf.page calls le_rfl hne
  have he := readEntry_lt m t i
  have hPe := (hall i hi).1
  have hl : l < 2 := hP.level_lt hPe h0 h7
  obtain ⟨hch, hread⟩ := writeTable_spec (m := m)
    (e := splitEntry (readEntry m t i) (l + 1)) hpage.1
  have hpiece : ∀ j < 512, readEntry (writeTable m (pages calls)
      (splitEntry (readEntry m t i) (l + 1))) (pages calls) j =
      splitEntry (readEntry m t i) (l + 1) j := fun j hj => hread j hj (splitEntry_lt he hl hj)
  have hwalk : ∀ v, pageIndex v (l + 1) = i →
      hwWalk m v (l + 1) t = some (leafMapping (readEntry m t i) (l + 1) v) := by
    intro v hv
    rw [hwWalk]
    simp only [hv, h0, h7, if_true]
    rw [if_pos (by omega)]
  refine prepared_fresh ht hn hi (fun m' => writeTable m' (pages calls)
    (splitEntry (readEntry m t i) (l + 1))) hf hne hch (fun j hj => splitTableFlags_bits hj)
    (by rw [Nat.testBit_and, testBit_rightsMask, h0]; rfl) ?_ (fun m₁ hm₁ v hv => ?_)
    (fun v hv hfr => ?_) (hP.splitTable l _ _ hpage hPe)
    (fun j hj => by rw [hpiece j hj]; exact hP.piece l _ j hl hj he h0 h7 hPe)
  · rcases Nat.eq_zero_or_pos l with hl0 | hl0
    · exact .inl hl0
    · refine .inr fun j hj hp => ?_
      have := hp.2
      rw [hpiece j hj, testBit_seven_splitEntry he hl hj] at this
      simp [hl0] at this
  · rw [hwalk v hv, ← leafMapping_splitEntry he hl]
    cases l with
    | zero =>
      rw [hwWalk, hm₁ _ (pageIndex_lt v 0), hpiece _ (pageIndex_lt v 0)]
      simp only [testBit_zero_splitEntry he hl (pageIndex_lt v 0), h0, if_true]
    | succ l =>
      rw [hwWalk, hm₁ _ (pageIndex_lt v _), hpiece _ (pageIndex_lt v _)]
      simp only [testBit_zero_splitEntry he hl (pageIndex_lt v _), h0, if_true,
        testBit_seven_splitEntry he hl (pageIndex_lt v _)]
      rw [if_pos (by simp), if_pos (by omega)]
  · rw [HugeFree, hv] at hfr
    have := (hfr h0).1
    rw [h7] at this
    exact absurd this (by simp)

end Levels

/-! ## The walk -/

lemma and_ptePresent_eq_zero {e : ℕ} : e &&& ptePresent = 0 ↔ e.testBit 0 = false := by
  rw [← not_iff_not, Bool.not_eq_false]
  exact and_two_pow_ne_zero

lemma and_pteHugePage_ne_zero {e : ℕ} : e &&& pteHugePage ≠ 0 ↔ e.testBit 7 = true :=
  and_two_pow_ne_zero

/-- With bits 52 to 59 clear, the kernel's mask gives the processor's address. -/
lemma and_pteAddrMask_of_clear {e : ℕ} (h : e &&& bitsMask 52 60 = 0) :
    e &&& pteAddrMask = hwAddr e := by
  refine Nat.eq_of_testBit_eq fun i => ?_
  have hi : (e &&& bitsMask 52 60).testBit i = false := by rw [h, Nat.zero_testBit]
  rw [Nat.testBit_and, testBit_bitsMask (by decide)] at hi
  rw [Nat.testBit_and, testBit_pteAddrMask, testBit_hwAddr]
  grind

/-- Otherwise it gives an address outside physical memory. -/
lemma physLimit_le_of_not_clear {e : ℕ} (h : e &&& bitsMask 52 60 ≠ 0) :
    physLimit ≤ e &&& pteAddrMask := by
  obtain ⟨i, hi⟩ := Nat.exists_testBit_of_ne_zero h
  rw [Nat.testBit_and, testBit_bitsMask (by decide)] at hi
  have hbit : (e &&& pteAddrMask).testBit i = true := by
    rw [Nat.testBit_and, testBit_pteAddrMask]
    grind
  have hi52 : 52 ≤ i := by
    simp only [Bool.and_eq_true, decide_eq_true_eq] at hi
    exact hi.2.1
  exact (Nat.pow_le_pow_right (by decide) hi52).trans (Nat.ge_two_pow_of_testBit hbit)

lemma pathClear_of_leaf {m : Memory} {virt target l t : ℕ}
    (h : l = 0 ∨ ∀ j < 512, ¬PointsToTable (readEntry m t j)) : PathClear m virt target l t := by
  cases l with
  | zero => trivial
  | succ l => exact .inr (.inl (h.resolve_left (by omega) _ (pageIndex_lt virt _)))

/-- The outcome of a walk that may allocate. -/
def WalkOutcome (P : ℕ → ℕ → Prop) (pages : ℕ → ℕ) (virt target n l t : ℕ) (s : PhysState)
    (out : Option (Option ℕ × PhysState)) : Prop :=
  ∃ r s', out = some (r, s') ∧ Walked P pages s s' n l t ∧
    (r = none ↔ ∃ k, s.calls ≤ k ∧ k < s'.calls ∧ pages k = 0) ∧
    ∀ x, r = some x → tableOnPath s'.mem virt target l t = some x

/-- A prepared level followed by the walk below it, with its outcome. -/
lemma WalkOutcome.of_prepared {P : ℕ → ℕ → Prop} {pages : ℕ → ℕ} {virt target b n l t c : ℕ}
    {s : PhysState} {m₁ : Memory} {out : Option (Option ℕ × PhysState)}
    (hp : Prepared P pages s.calls b s.mem m₁ n l t (pageIndex virt (l + 1)) c)
    (hf : FreshPages s.mem n (l + 1) t pages s.calls) (hle : s.calls ≤ b)
    (ht : pageSize ∣ t ∧ t < physLimit)
    (hsep : Separate s.mem n (l + 1) t) (hall : AllEntries P s.mem n (l + 1) t)
    (hn : n ≤ 512) (hi : pageIndex virt (l + 1) < n) (htarget : ¬l + 1 ≤ target)
    (hne : ∀ k, s.calls ≤ k → k < b → pages k ≠ 0)
    (hout : WalkOutcome P pages virt target 512 l c ⟨m₁, b, s.calls2mb⟩ out) :
    WalkOutcome P pages virt target n (l + 1) t s out := by
  obtain ⟨r, s', rfl, hw, hnone, hsome⟩ := hout
  obtain ⟨-, hentry⟩ := hp.updateAt hf hle ht hsep hn hi hw
  refine ⟨r, s', rfl, hw.of_prepared hp hf hle ht hsep hall hn hi, hnone.trans ⟨?_, ?_⟩,
    fun x hx => ?_⟩
  · rintro ⟨k, hk, hk', h0⟩
    exact ⟨k, hle.trans hk, hk', h0⟩
  · rintro ⟨k, hk, hk', h0⟩
    refine ⟨k, ?_, hk', h0⟩
    by_contra hlt
    exact hne k hk (not_le.mp hlt) h0
  · rw [tableOnPath]
    simp only [hentry, if_neg htarget, hp.points.2]
    rw [if_pos hp.points.1]
    exact hsome x hx

/-- What a level of the walk has done to the entry `i` of the table `t`, which now points to `c`. -/
inductive LevelStep (m m₁ : Memory) (l t i c : ℕ) : Prop
  | descend (hpt : PointsToTable (readEntry m t i)) (hc : c = hwAddr (readEntry m t i))
      (hm : m₁ = m)
  | new (h0 : (readEntry m t i).testBit 0 = false)
      (hentry : readEntry m₁ t i = c ||| (ptePresent ||| pteWritable))
      (hzero : ∀ j < 512, readEntry m₁ c j = 0)
  | split (h0 : (readEntry m t i).testBit 0 = true) (h7 : (readEntry m t i).testBit 7 = true)
      (hentry : readEntry m₁ t i =
        c ||| (readEntry m t i &&& (ptePresent ||| pteWritable ||| pteUser ||| pteNx)))
      (hpieces : ∀ j < 512, readEntry m₁ c j = splitEntry (readEntry m t i) (l + 1) j)

/-- A level of the walk takes no page and goes on in the tree, or it takes one for a table that is
missing, and which leads nowhere yet. -/
def LevelCalls (m m₁ : Memory) (l t i c a b : ℕ) : Prop :=
  b = a ∧ PointsToTable (readEntry m t i) ∧ c = hwAddr (readEntry m t i) ∧ m₁ = m ∨
    b = a + 1 ∧ ¬PointsToTable (readEntry m t i) ∧
      (l = 0 ∨ ∀ j < 512, ¬PointsToTable (readEntry m₁ c j))

/-- One level of a walk that may allocate: either the allocation fails, or the walk goes on from a
table that has been prepared. -/
lemma walkToLevel_step {P : ℕ → ℕ → Prop} (hP : EntryInv P) {pages : ℕ → ℕ} {virt target : ℕ}
    {n l t : ℕ} {s : PhysState} (ht : pageSize ∣ t ∧ t < physLimit)
    (hsep : Separate s.mem n (l + 1) t)
    (hall : AllEntries P s.mem n (l + 1) t) (hf : FreshPages s.mem n (l + 1) t pages s.calls)
    (hn : n ≤ 512) (hi : pageIndex virt (l + 1) < n) (htarget : ¬l + 1 ≤ target)
    (hclear : PathClear s.mem virt target (l + 1) t) :
    (¬PointsToTable (readEntry s.mem t (pageIndex virt (l + 1))) ∧ pages s.calls = 0 ∧
      walkToLevel pages virt target true (l + 1) t s =
        some (none, { s with calls := s.calls + 1 })) ∨
    ∃ m₁ b c, Prepared P pages s.calls b s.mem m₁ n l t (pageIndex virt (l + 1)) c ∧
      LevelStep s.mem m₁ l t (pageIndex virt (l + 1)) c ∧
      LevelCalls s.mem m₁ l t (pageIndex virt (l + 1)) c s.calls b ∧ s.calls ≤ b ∧
      (∀ k, s.calls ≤ k → k < b → pages k ≠ 0) ∧ (pageSize ∣ c ∧ c < physLimit) ∧
      PathClear m₁ virt target l c ∧ walkToLevel pages virt target true (l + 1) t s =
        walkToLevel pages virt target true l c ⟨m₁, b, s.calls2mb⟩ := by
  have hi' := pageIndex_lt virt (l + 1)
  have honly : pages s.calls ≠ 0 → ∀ k, s.calls ≤ k → k < s.calls + 1 → pages k ≠ 0 := by
    intro hne k hk hk'
    rwa [show k = s.calls by omega]
  -- the new table is not the one that points to it
  have hother : pages s.calls ≠ 0 → ∀ m e, ∀ j < 512,
      readEntry (writeEntry m t (pageIndex virt (l + 1)) e) (pages s.calls) j =
        readEntry m (pages s.calls) j := fun hne m e j hj =>
    (changedOnly_writeEntry ht.1 hi').readEntry_eq (hf.page _ le_rfl hne).1
      (fun heq => hf.fresh _ le_rfl hne (Set.mem_singleton_iff.mp heq ▸ self_mem_tables _ _ _ _)) hj
  rw [walkToLevel]
  simp only [if_neg htarget, if_neg (not_le.mpr ht.2), and_ptePresent_eq_zero,
    and_pteHugePage_ne_zero, Bool.not_true, Bool.false_eq_true, if_false, ge_iff_le]
  split_ifs with h0 hz hlim h7 hz hlim
  · exact .inl ⟨fun hpt => by simp [hpt.1] at h0, hz, rfl⟩
  · exact absurd (hf.page _ le_rfl hz).2 (not_lt.mpr hlim)
  · have hpage := hf.page _ le_rfl hz
    have hp := prepared_new ht hn hi hP hf hz h0
    have hleaf := hp.leaf ⟨s.calls, le_rfl, Nat.lt_succ_self _, rfl, hz⟩
    refine .inr ⟨_, _, _, hp, .new h0 ?_ fun j hj => ?_,
      .inr ⟨rfl, fun hpt => by simp [hpt.1] at h0, hleaf⟩, Nat.le_succ _, honly hz, hpage,
      pathClear_of_leaf hleaf, rfl⟩
    · exact readEntry_writeEntry_self (tableEntry_lt hpage fun j hj => newTableFlags_bits hj)
    · rw [hother hz _ _ j hj, readEntry_fill_zero hj]
  · exact .inl ⟨fun hpt => by simp [hpt.2] at h7, hz, rfl⟩
  · exact absurd (hf.page _ le_rfl hz).2 (not_lt.mpr hlim)
  · have hpage := hf.page _ le_rfl hz
    have h0' : (readEntry s.mem t (pageIndex virt (l + 1))).testBit 0 = true := by simpa using h0
    have hp := prepared_split ht hn hi hall hP hf hz h0' h7
    have hleaf := hp.leaf ⟨s.calls, le_rfl, Nat.lt_succ_self _, rfl, hz⟩
    refine .inr ⟨_, _, _, hp, .split h0' h7 ?_ fun j hj => ?_,
      .inr ⟨rfl, fun hpt => by simp [hpt.2] at h7, hleaf⟩, Nat.le_succ _, honly hz, hpage,
      pathClear_of_leaf hleaf, rfl⟩
    · exact readEntry_writeEntry_self (tableEntry_lt hpage fun j hj => splitTableFlags_bits hj)
    · have hl := hP.level_lt (hall _ hi).1 h0' h7
      rw [hother hz _ _ j hj]
      exact (writeTable_spec hpage.1).2 j hj (splitEntry_lt (readEntry_lt _ _ _) hl hj)
  · have hpt : PointsToTable (readEntry s.mem t (pageIndex virt (l + 1))) :=
      ⟨by simpa using h0, by simpa using h7⟩
    obtain ⟨hc, hclear'⟩ := (hclear.resolve_left htarget).resolve_left (not_not.mpr hpt)
    rw [and_pteAddrMask_of_clear hc]
    exact .inr ⟨_, _, _, prepared_descend hi hsep hall hpt s.calls, .descend hpt rfl rfl,
      .inl ⟨rfl, hpt, rfl, rfl⟩, le_rfl, fun k hk hk' => by omega, hwAddr_aligned _, hclear', rfl⟩

/-- **A walk that may allocate changes no translation.**  It fails exactly when one of the
allocations it makes does, and otherwise ends at the table of the target level. -/
lemma walkToLevel_spec {P : ℕ → ℕ → Prop} (hP : EntryInv P) {pages : ℕ → ℕ} {virt target : ℕ}
    {n l t : ℕ} {s : PhysState} (ht : pageSize ∣ t ∧ t < physLimit) (hsep : Separate s.mem n l t)
    (hall : AllEntries P s.mem n l t) (hf : FreshPages s.mem n l t pages s.calls)
    (hn : n ≤ 512) (hi : pageIndex virt l < n) (hclear : PathClear s.mem virt target l t) :
    WalkOutcome P pages virt target n l t s (walkToLevel pages virt target true l t s) := by
  induction l generalizing n t s with
  | zero =>
    refine ⟨some t, s, rfl, Walked.refl rfl le_rfl rfl hsep hall, ?_, fun x hx => hx⟩
    exact ⟨by simp, fun ⟨k, hk, hk', _⟩ => by omega⟩
  | succ l ih =>
    by_cases htarget : l + 1 ≤ target
    · refine ⟨some t, s, by rw [walkToLevel, if_pos htarget], Walked.refl rfl le_rfl rfl hsep hall,
        ⟨by simp, fun ⟨k, hk, hk', _⟩ => by omega⟩, fun x hx => ?_⟩
      rw [tableOnPath, if_pos htarget]
      exact hx
    rcases walkToLevel_step hP ht hsep hall hf hn hi htarget hclear with
      ⟨-, h0, hout⟩ | ⟨m₁, b, c, hp, -, -, hle, hne, hc, hclear', hout⟩
    · rw [hout]
      exact ⟨none, _, rfl, Walked.refl rfl (Nat.le_succ _) rfl hsep hall,
        ⟨fun _ => ⟨s.calls, le_rfl, Nat.lt_succ_self _, h0⟩, fun _ => rfl⟩, by simp⟩
    · rw [hout]
      exact WalkOutcome.of_prepared hp hf hle ht hsep hall hn hi htarget hne
        (ih hc hp.separate hp.entries (hp.freshPages hf hle) le_rfl (pageIndex_lt virt l) hclear')

end Cuore
