import Cuore.Mem.Paging
import Mathlib.Data.Set.Lattice
import Mathlib.Tactic.Tauto

/-!
# The x86-64 page walk and page-table trees

The reference: `hwWalk` is the page walk of the processor over 4 or 5 levels, with bits 12 to 51
of an entry as address.  It yields the physical address together with the access rights in the
leaf entry.  Bit 7 makes an entry a leaf at levels 1 and 2; above it is reserved, and an entry
that sets it translates nothing.

`tables m n l t` is the set of tables reachable from a table `t` of level `l` through its first `n`
entries (all 512, or the lower half of a top table), and `Separate` says
that each is reached along one path.  `AllEntries P` carries an arbitrary condition on the entries
of a tree.  What is reachable is all that matters: two memories that agree on the tables of a tree
(`Agree`) have the same walk, the same tables and the same conditions on it.  The `update` lemmas
say what follows when one entry of a table and the subtree below it change.
-/

namespace Cuore

/-! ## Entries in memory -/

lemma pageIndex_eq (v l : ℕ) : pageIndex v l = v / 2 ^ (12 + l * 9) % 512 := by
  rw [pageIndex, Nat.shiftRight_eq_div_pow, show 0x1FF = 2 ^ 9 - 1 from rfl,
    Nat.and_two_pow_sub_one_eq_mod]

lemma pageIndex_lt (v l : ℕ) : pageIndex v l < 512 := by
  rw [pageIndex_eq]
  exact Nat.mod_lt _ (by decide)

lemma readEntry_lt (m : Memory) (t i : ℕ) : readEntry m t i < word := by
  rw [readEntry]
  exact m.load_lt _ 8

lemma readEntry_writeEntry_self {m : Memory} {t i e : ℕ} (he : e < word) :
    readEntry (writeEntry m t i e) t i = e := by
  rw [readEntry, writeEntry, Memory.load_store_self]
  exact Nat.mod_eq_of_lt he

lemma readEntry_writeEntry_of_index_ne {m : Memory} {t i j e : ℕ} (h : i ≠ j) :
    readEntry (writeEntry m t i e) t j = readEntry m t j := by
  rw [readEntry, readEntry, writeEntry]
  exact Memory.load_store_of_disjoint (by omega)

/-- The bytes outside the pages of `S` are the same. -/
def ChangedOnly (S : Set ℕ) (m m' : Memory) : Prop :=
  ∀ x, alignDown pageSize x ∉ S → m' x = m x

lemma ChangedOnly.refl (S : Set ℕ) (m : Memory) : ChangedOnly S m m := fun _ _ => rfl

lemma ChangedOnly.trans {S S' : Set ℕ} {m m' m'' : Memory} (h : ChangedOnly S m m')
    (h' : ChangedOnly S' m' m'') : ChangedOnly (S ∪ S') m m'' := fun x hx =>
  (h' x fun hS => hx (.inr hS)).trans (h x fun hS => hx (.inl hS))

lemma ChangedOnly.mono {S S' : Set ℕ} {m m' : Memory} (h : ChangedOnly S m m') (hS : S ⊆ S') :
    ChangedOnly S' m m' := fun x hx => h x fun hx' => hx (hS hx')

/-- Every byte of a page lies in that page. -/
lemma alignDown_of_mem_page {t x : ℕ} (ht : pageSize ∣ t) (h : t ≤ x) (h' : x < t + pageSize) :
    alignDown pageSize x = t := by
  obtain ⟨q, rfl⟩ := ht
  simp only [alignDown, pageSize] at *
  omega

lemma ChangedOnly.readEntry_eq {S : Set ℕ} {m m' : Memory} {t i : ℕ} (h : ChangedOnly S m m')
    (ht : pageSize ∣ t) (htS : t ∉ S) (hi : i < 512) : readEntry m' t i = readEntry m t i := by
  rw [readEntry, readEntry]
  refine Memory.load_congr fun x hx hx' => h x ?_
  rwa [alignDown_of_mem_page ht (by omega) (by simp only [pageSize]; omega)]

lemma changedOnly_writeEntry {m : Memory} {t i e : ℕ} (ht : pageSize ∣ t) (hi : i < 512) :
    ChangedOnly {t} m (writeEntry m t i e) := by
  rw [writeEntry]
  refine fun x hx => Memory.store_of_outside ?_
  by_contra hin
  exact hx (alignDown_of_mem_page ht (by omega) (by simp only [pageSize]; omega))

lemma changedOnly_fill {m : Memory} {t : ℕ} {b : UInt8} (ht : pageSize ∣ t) :
    ChangedOnly {t} m (m.fill t pageSize b) := by
  refine fun x hx => Memory.fill_of_outside ?_
  by_contra hin
  exact hx (alignDown_of_mem_page ht (by omega) (by omega))

lemma readEntry_fill_zero {m : Memory} {t i : ℕ} (hi : i < 512) :
    readEntry (m.fill t pageSize 0) t i = 0 := by
  rw [readEntry]
  exact Memory.load_fill_zero (by omega) (by simp only [pageSize]; omega)

/-- The loop that fills a table writes every entry, and nothing else. -/
lemma writeTable_spec {m : Memory} {t : ℕ} {e : ℕ → ℕ} (ht : pageSize ∣ t) :
    ChangedOnly {t} m (writeTable m t e) ∧
      ∀ i < 512, e i < word → readEntry (writeTable m t e) t i = e i := by
  unfold writeTable
  suffices h : ∀ n ≤ 512, ∀ m' : Memory,
      m' = (List.range n).foldl (fun m i => writeEntry m t i (e i)) m →
      ChangedOnly {t} m m' ∧ ∀ i < n, e i < word → readEntry m' t i = e i from
    h 512 le_rfl _ rfl
  intro n
  induction n with
  | zero =>
    rintro - m' rfl
    exact ⟨ChangedOnly.refl _ _, by simp⟩
  | succ n ih =>
    rintro hn m' rfl
    obtain ⟨hch, hread⟩ := ih (by omega) _ rfl
    rw [List.range_succ, List.foldl_append, List.foldl_cons, List.foldl_nil]
    refine ⟨(hch.trans (changedOnly_writeEntry ht hn)).mono (by simp), fun i hi hei => ?_⟩
    rcases Nat.lt_succ_iff_lt_or_eq.mp hi with hlt | rfl
    · rw [readEntry_writeEntry_of_index_ne (by omega), hread i hlt hei]
    · exact readEntry_writeEntry_self hei

/-! ## The walk -/

/-- Bits 12 to 51 of an entry. -/
def hwAddr (e : ℕ) : ℕ := e &&& bitsMask 12 52

/-- The access rights an entry grants. -/
def hwRights (e : ℕ) : ℕ := e &&& (ptePresent ||| pteWritable ||| pteUser ||| pteNx)

/-- Above the last level, a present entry without bit 7 points to a table. -/
def PointsToTable (e : ℕ) : Prop := e.testBit 0 = true ∧ e.testBit 7 = false

instance (e : ℕ) : Decidable (PointsToTable e) := inferInstanceAs (Decidable (_ ∧ _))

/-- What a leaf entry says about an address: where it is, and what may be done with it. -/
structure Mapping where
  phys : ℕ
  rights : ℕ
  deriving DecidableEq, Repr

/-- The mapping of `v` by a leaf entry of `level`. -/
def leafMapping (e level v : ℕ) : Mapping :=
  ⟨alignDown (2 ^ (12 + level * 9)) (hwAddr e) + v % 2 ^ (12 + level * 9), hwRights e⟩

/-- The page walk for `v` from a table of some level on. -/
def hwWalk (m : Memory) (v : ℕ) : ℕ → ℕ → Option Mapping
  | 0, t =>
    let e := readEntry m t (pageIndex v 0)
    if e.testBit 0 then some (leafMapping e 0 v) else none
  | l + 1, t =>
    let e := readEntry m t (pageIndex v (l + 1))
    if e.testBit 0 then
      if e.testBit 7 then
        if l + 1 ≤ 2 then some (leafMapping e (l + 1) v) else none
      else hwWalk m v l (hwAddr e)
    else none

/-! ## Trees -/

/-- The tables reachable from a table of level `l` through its first `n` entries. -/
def tables (m : Memory) : ℕ → ℕ → ℕ → Set ℕ
  | _, 0, t => {t}
  | n, l + 1, t => {t} ∪ {x | ∃ i < n, PointsToTable (readEntry m t i) ∧
      x ∈ tables m 512 l (hwAddr (readEntry m t i))}

/-- Every table below the first `n` entries is reached along one path only. -/
def Separate (m : Memory) : ℕ → ℕ → ℕ → Prop
  | _, 0, _ => True
  | n, l + 1, t => ∀ i < n, PointsToTable (readEntry m t i) →
      Separate m 512 l (hwAddr (readEntry m t i)) ∧
      t ∉ tables m 512 l (hwAddr (readEntry m t i)) ∧
      ∀ j < n, j ≠ i → PointsToTable (readEntry m t j) →
        Disjoint (tables m 512 l (hwAddr (readEntry m t i)))
          (tables m 512 l (hwAddr (readEntry m t j)))

/-- `P level e` holds of the first `n` entries `e` and of every entry of every table below. -/
def AllEntries (P : ℕ → ℕ → Prop) (m : Memory) : ℕ → ℕ → ℕ → Prop
  | n, 0, t => ∀ i < n, P 0 (readEntry m t i)
  | n, l + 1, t => ∀ i < n, P (l + 1) (readEntry m t i) ∧
      (PointsToTable (readEntry m t i) → AllEntries P m 512 l (hwAddr (readEntry m t i)))

/-- There is no huge entry on the path of `v`. -/
def HugeFree (m : Memory) (v : ℕ) : ℕ → ℕ → Prop
  | 0, _ => True
  | l + 1, t =>
    let e := readEntry m t (pageIndex v (l + 1))
    e.testBit 0 = true → e.testBit 7 = false ∧ HugeFree m v l (hwAddr e)

/-- The two memories have the same tables, entry by entry, under `t`. -/
def Agree (m m' : Memory) (n l t : ℕ) : Prop :=
  ∀ x ∈ tables m n l t, ∀ i < 512, readEntry m' x i = readEntry m x i

lemma self_mem_tables (m : Memory) (n l t : ℕ) : t ∈ tables m n l t := by
  cases l <;> simp [tables]

lemma child_subset_tables {m : Memory} {n l t i : ℕ} (hi : i < n)
    (h : PointsToTable (readEntry m t i)) :
    tables m 512 l (hwAddr (readEntry m t i)) ⊆ tables m n (l + 1) t :=
  fun _ hx => .inr ⟨i, hi, h, hx⟩

/-- Tables other than the first are page aligned and in physical memory by construction. -/
lemma hwAddr_aligned (e : ℕ) : pageSize ∣ hwAddr e ∧ hwAddr e < physLimit := by
  constructor
  · have hmask : bitsMask 12 52 = bitsMask 12 52 &&& wnot (2 ^ 12 - 1) := by decide
    rw [hwAddr, hmask, ← Nat.and_assoc, and_wnot_pred (by decide)]
    · exact dvd_alignDown _ _
    · exact lt_of_le_of_lt Nat.and_le_right (by decide)
  · exact lt_of_le_of_lt Nat.and_le_right (by decide)

lemma tables_aligned {m : Memory} {n l t x : ℕ} (ht : pageSize ∣ t ∧ t < physLimit)
    (hx : x ∈ tables m n l t) : pageSize ∣ x ∧ x < physLimit := by
  induction l generalizing n t with
  | zero => rwa [show x = t from hx]
  | succ l ih =>
    rcases hx with hx | ⟨i, -, -, hx⟩
    · rwa [show x = t from hx]
    · exact ih (hwAddr_aligned _) hx

section Agree

variable {m m' : Memory} {n l t : ℕ}

lemma Agree.self (h : Agree m m' n l t) {i : ℕ} (hi : i < 512) :
    readEntry m' t i = readEntry m t i :=
  h t (self_mem_tables m n l t) i hi

lemma Agree.child (h : Agree m m' n (l + 1) t) {i : ℕ} (hi : i < n)
    (hp : PointsToTable (readEntry m t i)) : Agree m m' 512 l (hwAddr (readEntry m t i)) :=
  fun x hx => h x (child_subset_tables hi hp hx)

lemma ChangedOnly.agree {S : Set ℕ} (h : ChangedOnly S m m') (ht : pageSize ∣ t ∧ t < physLimit)
    (hS : ∀ x ∈ tables m n l t, x ∉ S) : Agree m m' n l t :=
  fun x hx _ hi => h.readEntry_eq (tables_aligned ht hx).1 (hS x hx) hi

lemma Agree.tables_eq (h : Agree m m' n l t) (hn : n ≤ 512) :
    tables m' n l t = tables m n l t := by
  induction l generalizing n t with
  | zero => rfl
  | succ l ih =>
    ext x
    simp only [tables, Set.mem_union, Set.mem_ofPred_eq]
    refine or_congr_right (exists_congr fun i => and_congr_right fun hi => ?_)
    rw [h.self (lt_of_lt_of_le hi hn)]
    exact and_congr_right fun hp => by rw [ih (h.child hi hp) le_rfl]

lemma Agree.hwWalk_eq (h : Agree m m' n l t) {v : ℕ} (hv : pageIndex v l < n) :
    hwWalk m' v l t = hwWalk m v l t := by
  induction l generalizing n t with
  | zero => simp only [hwWalk, h.self (pageIndex_lt v 0)]
  | succ l ih =>
    simp only [hwWalk, h.self (pageIndex_lt v (l + 1))]
    split_ifs with h0 h7
    · rfl
    · rfl
    · exact ih (h.child hv ⟨h0, by simpa using h7⟩) (pageIndex_lt v l)
    · rfl

lemma Agree.hugeFree (h : Agree m m' n l t) {v : ℕ} (hv : pageIndex v l < n)
    (hfree : HugeFree m v l t) : HugeFree m' v l t := by
  induction l generalizing n t with
  | zero => trivial
  | succ l ih =>
    intro h0
    rw [h.self (pageIndex_lt v (l + 1))] at h0 ⊢
    obtain ⟨h7, hchild⟩ := hfree h0
    exact ⟨h7, ih (h.child hv ⟨h0, h7⟩) (pageIndex_lt v l) hchild⟩

lemma Agree.separate (h : Agree m m' n l t) (hn : n ≤ 512) (hs : Separate m n l t) :
    Separate m' n l t := by
  induction l generalizing n t with
  | zero => trivial
  | succ l ih =>
    intro i hi hp
    rw [h.self (lt_of_lt_of_le hi hn)] at hp ⊢
    obtain ⟨hsep, hnot, hdisj⟩ := hs i hi hp
    rw [(h.child hi hp).tables_eq le_rfl]
    refine ⟨ih (h.child hi hp) le_rfl hsep, hnot, fun j hj hji hpj => ?_⟩
    rw [h.self (lt_of_lt_of_le hj hn)] at hpj ⊢
    rw [(h.child hj hpj).tables_eq le_rfl]
    exact hdisj j hj hji hpj

lemma Agree.allEntries {P : ℕ → ℕ → Prop} (h : Agree m m' n l t) (hn : n ≤ 512)
    (ha : AllEntries P m n l t) : AllEntries P m' n l t := by
  induction l generalizing n t with
  | zero =>
    intro i hi
    rw [h.self (lt_of_lt_of_le hi hn)]
    exact ha i hi
  | succ l ih =>
    intro i hi
    rw [h.self (lt_of_lt_of_le hi hn)]
    exact ⟨(ha i hi).1, fun hp => ih (h.child hi hp) le_rfl ((ha i hi).2 hp)⟩

end Agree

/-! ## Changing one entry and the subtree below it -/

/-- From `m` to `m'`, only entry `i` of the table `t` and what hangs below it has changed. -/
structure UpdateAt (m m' : Memory) (n l t i : ℕ) : Prop where
  entry : ∀ j < n, j ≠ i → readEntry m' t j = readEntry m t j
  agree : ∀ j < n, j ≠ i → PointsToTable (readEntry m t j) →
    Agree m m' 512 l (hwAddr (readEntry m t j))

section UpdateAt

variable {m m' : Memory} {n l t i : ℕ} (h : UpdateAt m m' n l t i)
include h

lemma UpdateAt.hwWalk_eq {v : ℕ} (hvn : pageIndex v (l + 1) < n)
    (hv : pageIndex v (l + 1) ≠ i) :
    hwWalk m' v (l + 1) t = hwWalk m v (l + 1) t := by
  simp only [hwWalk, h.entry _ hvn hv]
  split_ifs with h0 h7
  · rfl
  · rfl
  · exact (h.agree _ hvn hv ⟨h0, by simpa using h7⟩).hwWalk_eq (pageIndex_lt v l)
  · rfl

lemma UpdateAt.hugeFree {v : ℕ} (hvn : pageIndex v (l + 1) < n) (hv : pageIndex v (l + 1) ≠ i)
    (hfree : HugeFree m v (l + 1) t) : HugeFree m' v (l + 1) t := by
  intro h0
  rw [h.entry _ hvn hv] at h0 ⊢
  obtain ⟨h7, hchild⟩ := hfree h0
  exact ⟨h7, (h.agree _ hvn hv ⟨h0, h7⟩).hugeFree (pageIndex_lt v l) hchild⟩

lemma UpdateAt.mem_tables {x : ℕ} (hx : x ∈ tables m' n (l + 1) t) :
    x ∈ tables m n (l + 1) t ∨
      PointsToTable (readEntry m' t i) ∧ x ∈ tables m' 512 l (hwAddr (readEntry m' t i)) := by
  rcases hx with hx | ⟨j, hj, hp, hx⟩
  · exact .inl (.inl hx)
  · by_cases hji : j = i
    · subst hji
      exact .inr ⟨hp, hx⟩
    · rw [h.entry j hj hji] at hp hx
      rw [(h.agree j hj hji hp).tables_eq le_rfl] at hx
      exact .inl (child_subset_tables hj hp hx)

lemma UpdateAt.separate (hs : Separate m n (l + 1) t)
    (hchild : PointsToTable (readEntry m' t i) →
      Separate m' 512 l (hwAddr (readEntry m' t i)) ∧
        t ∉ tables m' 512 l (hwAddr (readEntry m' t i)) ∧
      ∀ j < n, j ≠ i → PointsToTable (readEntry m t j) →
        Disjoint (tables m' 512 l (hwAddr (readEntry m' t i)))
          (tables m 512 l (hwAddr (readEntry m t j)))) :
    Separate m' n (l + 1) t := by
  intro j hj hp
  by_cases hji : j = i
  · subst hji
    obtain ⟨hsep, hnot, hdisj⟩ := hchild hp
    refine ⟨hsep, hnot, fun k hk hkj hpk => ?_⟩
    rw [h.entry k hk hkj] at hpk ⊢
    rw [(h.agree k hk hkj hpk).tables_eq le_rfl]
    exact hdisj k hk hkj hpk
  · rw [h.entry j hj hji] at hp ⊢
    obtain ⟨hsep, hnot, hdisj⟩ := hs j hj hp
    have hagree := h.agree j hj hji hp
    rw [hagree.tables_eq le_rfl]
    refine ⟨hagree.separate le_rfl hsep, hnot, fun k hk hkj hpk => ?_⟩
    by_cases hki : k = i
    · subst hki
      exact ((hchild hpk).2.2 j hj hji hp).symm
    · rw [h.entry k hk hki] at hpk ⊢
      rw [(h.agree k hk hki hpk).tables_eq le_rfl]
      exact hdisj k hk hkj hpk

lemma UpdateAt.allEntries {P : ℕ → ℕ → Prop} (ha : AllEntries P m n (l + 1) t)
    (hentry : P (l + 1) (readEntry m' t i))
    (hchild : PointsToTable (readEntry m' t i) →
    AllEntries P m' 512 l (hwAddr (readEntry m' t i))) :
    AllEntries P m' n (l + 1) t := by
  intro j hj
  by_cases hji : j = i
  · subst hji
    exact ⟨hentry, hchild⟩
  · rw [h.entry j hj hji]
    exact ⟨(ha j hj).1, fun hp => (h.agree j hj hji hp).allEntries le_rfl ((ha j hj).2 hp)⟩

end UpdateAt

/-- A change confined to the table itself, to pages outside its tree and to the subtree below
entry `i` is an update at `i`. -/
lemma ChangedOnly.updateAt {m m' : Memory} {S : Set ℕ} {n l t i : ℕ} (h : ChangedOnly S m m')
    (hs : Separate m n (l + 1) t)
    (hentry : ∀ j < n, j ≠ i → readEntry m' t j = readEntry m t j)
    (hS : ∀ x ∈ S, x ∈ tables m n (l + 1) t → x = t ∨
      PointsToTable (readEntry m t i) ∧ x ∈ tables m 512 l (hwAddr (readEntry m t i)))
    (hi : i < n) : UpdateAt m m' n l t i where
  entry := hentry
  agree j hj hji hp := by
    refine h.agree (hwAddr_aligned _) fun x hx hxS => ?_
    rcases hS x hxS (child_subset_tables hj hp hx) with rfl | ⟨hpi, hxi⟩
    · exact (hs j hj hp).2.1 hx
    · exact Set.disjoint_left.mp ((hs j hj hp).2.2 i hi (Ne.symm hji) hpi) hx hxi

/-! ## Paths -/

/-- The table at the end of a path of indices. -/
def tableAt (m : Memory) : ℕ → ℕ → List ℕ → Option ℕ
  | _, t, [] => some t
  | 0, _, _ :: _ => none
  | l + 1, t, i :: p =>
    if PointsToTable (readEntry m t i) then tableAt m l (hwAddr (readEntry m t i)) p else none

/-- Each table is reachable by one path. -/
def UniquePaths (m : Memory) (l t : ℕ) : Prop :=
  ∀ p q : List ℕ, (∀ i ∈ p, i < 512) → (∀ i ∈ q, i < 512) →
    ∀ x, tableAt m l t p = some x → tableAt m l t q = some x → p = q

lemma mem_tables_iff_tableAt {m : Memory} {l t x : ℕ} :
    x ∈ tables m 512 l t ↔ ∃ p : List ℕ, (∀ i ∈ p, i < 512) ∧ tableAt m l t p = some x := by
  induction l generalizing t with
  | zero =>
    constructor
    · rintro rfl
      exact ⟨[], by simp, rfl⟩
    · rintro ⟨p, -, hp⟩
      cases p with
      | nil => exact (Option.some.inj hp).symm
      | cons i p => simp [tableAt] at hp
  | succ l ih =>
    constructor
    · rintro (rfl | ⟨i, hi, hpt, hx⟩)
      · exact ⟨[], by simp, rfl⟩
      · obtain ⟨p, hp, hpx⟩ := ih.mp hx
        exact ⟨i :: p, List.forall_mem_cons.mpr ⟨hi, hp⟩, by rw [tableAt, if_pos hpt, hpx]⟩
    · rintro ⟨p, hp, hpx⟩
      cases p with
      | nil => exact .inl (Option.some.inj hpx).symm
      | cons i p =>
        obtain ⟨hi, hp⟩ := List.forall_mem_cons.mp hp
        rw [tableAt] at hpx
        split_ifs at hpx with hpt
        exact .inr ⟨i, hi, hpt, ih.mpr ⟨p, hp, hpx⟩⟩

/-- With one path to each table, the subtrees are apart. -/
lemma UniquePaths.separate {m : Memory} {l t : ℕ} (h : UniquePaths m l t) : Separate m 512 l t := by
  induction l generalizing t with
  | zero => trivial
  | succ l ih =>
    have hcons : ∀ i p x, PointsToTable (readEntry m t i) →
        tableAt m l (hwAddr (readEntry m t i)) p = some x →
        tableAt m (l + 1) t (i :: p) = some x := by
      intro i p x hpt hp
      rw [tableAt, if_pos hpt, hp]
    intro i hi hpt
    refine ⟨ih ?_, ?_, ?_⟩
    · intro p q hp hq x hpx hqx
      exact List.tail_eq_of_cons_eq (h (i :: p) (i :: q) (List.forall_mem_cons.mpr ⟨hi, hp⟩)
        (List.forall_mem_cons.mpr ⟨hi, hq⟩) x (hcons i p x hpt hpx) (hcons i q x hpt hqx))
    · intro hmem
      obtain ⟨p, hp, hpx⟩ := mem_tables_iff_tableAt.mp hmem
      have := h [] (i :: p) (by simp) (List.forall_mem_cons.mpr ⟨hi, hp⟩) t rfl
        (hcons i p t hpt hpx)
      exact absurd this (by simp)
    · intro j hj hji hpj
      rw [Set.disjoint_left]
      intro x hxi hxj
      obtain ⟨p, hp, hpx⟩ := mem_tables_iff_tableAt.mp hxi
      obtain ⟨q, hq, hqx⟩ := mem_tables_iff_tableAt.mp hxj
      have := h (i :: p) (j :: q) (List.forall_mem_cons.mpr ⟨hi, hp⟩)
        (List.forall_mem_cons.mpr ⟨hj, hq⟩) x (hcons i p x hpt hpx) (hcons j q x hpj hqx)
      exact hji (List.head_eq_of_cons_eq this).symm

/-- Conversely, in separate subtrees no table is reached twice. -/
lemma Separate.uniquePaths {m : Memory} {l t : ℕ} (h : Separate m 512 l t) : UniquePaths m l t := by
  induction l generalizing t with
  | zero =>
    intro p q _ _ x hp hq
    cases p with
    | cons i p => simp [tableAt] at hp
    | nil =>
      cases q with
      | cons i q => simp [tableAt] at hq
      | nil => rfl
  | succ l ih =>
    -- a path that goes on ends in the subtree of its first index
    have hcons : ∀ i p x, (∀ j ∈ i :: p, j < 512) → tableAt m (l + 1) t (i :: p) = some x →
        PointsToTable (readEntry m t i) ∧ x ∈ tables m 512 l (hwAddr (readEntry m t i)) ∧
          tableAt m l (hwAddr (readEntry m t i)) p = some x := by
      intro i p x hp hx
      rw [tableAt] at hx
      split_ifs at hx with hpt
      exact ⟨hpt, mem_tables_iff_tableAt.mpr ⟨p, (List.forall_mem_cons.mp hp).2, hx⟩, hx⟩
    intro p q hp hq x hpx hqx
    cases p with
    | nil =>
      cases q with
      | nil => rfl
      | cons j q =>
        obtain ⟨hpt, hmem, -⟩ := hcons j q x hq hqx
        obtain rfl := Option.some.inj hpx
        exact absurd hmem (h j (hq j (by simp)) hpt).2.1
    | cons i p =>
      obtain ⟨hpti, hmemi, hpx'⟩ := hcons i p x hp hpx
      have hi := hp i (by simp)
      cases q with
      | nil =>
        obtain rfl := Option.some.inj hqx
        exact absurd hmemi (h i hi hpti).2.1
      | cons j q =>
        obtain ⟨hptj, hmemj, hqx'⟩ := hcons j q x hq hqx
        by_cases hij : j = i
        · subst hij
          rw [ih (h j hi hpti).1 p q (fun k hk => hp k (by simp [hk]))
            (fun k hk => hq k (by simp [hk])) x hpx' hqx']
        · exact absurd hmemj
            (Set.disjoint_left.mp ((h i hi hpti).2.2 j (hq j (by simp)) hij hptj) hmemi)

end Cuore
