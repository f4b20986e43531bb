import Cuore.Framework.Word
import Mathlib.Data.List.Pairwise
import Mathlib.Data.List.Nodup
import Mathlib.Tactic.SplitIfs

/-!
# The core memory map (`mem/cmm.c`)

The core memory map is one array of typed regions, sorted by base address.  After the heap is
up the kernel repaints parts of it with `cmm_insert_region`, which walks the array once with a
running `target_base`, retypes the regions the target covers and replaces a region the target
cuts by up to three pieces.

The array is modelled by the list of its first `internal_count` slots.  The walk keeps the
slots before index `i` untouched from then on, so the loop is a recursion over the slots from
`i` on; the `memmove` together with the piece writes is the replacement of one slot by the
list of pieces.  Running out of the array (`realloc` failed, or doubling was not enough) is
`none`.

`Repainted` states what repainting should mean, address by address.  The walk does not advance
`target_base` past a region it retypes whole, so a later region that the target cuts at its
end gets a piece that starts too early.  `CutsCleanly` is the exact condition under which that
does not happen, and `cmmInsertLoop_repaints_iff` proves it exact, one case per branch of the
loop body.
-/

namespace Cuore

/-! ## The map -/

/-- `cmm_type_t`. -/
inductive CmmType
  | usable | reserved | acpiReclaimable | acpiNvs | bootloaderReclaimable | kernelEarly
  | kernelAndModules | framebuffer | reservedMapped | unknown | bad
  deriving DecidableEq, Repr

/-- `struct cmm_region`. -/
structure CmmRegion where
  id : ℕ
  base : ℕ
  length : ℕ
  type : CmmType
  deriving DecidableEq, Repr

/-- The end address of a region, as the mathematical sum. -/
def CmmRegion.limit (r : CmmRegion) : ℕ := r.base + r.length

/-- The file-level state of `cmm.c` that `cmm_insert_region` reads and writes.  Ids are
natural numbers: the 64-bit counter hands out at most four per call. -/
structure Cmm where
  internalMap : List CmmRegion
  internalCapacity : ℕ
  nextId : ℕ
  isHeapBacked : Bool
  deriving DecidableEq, Repr

/-! ## `cmm_insert_region` -/

/-- `cmm_ensure_capacity`: doubles the array when `needed` slots do not fit.  `realloc`
answers whether the heap grants that many bytes; a refusal leaves `internal_map` null, and a
capacity below two does not double far enough, so both end the call. -/
def cmmEnsureCapacity (realloc : ℕ → Bool) (capacity needed : ℕ) : Option ℕ :=
  if needed ≤ capacity then some capacity
  else if realloc (capacity * 2 * 32) && needed ≤ capacity * 2 then some (capacity * 2)
  else none

/-- The pieces that replace a region `r` cut by `[targetBase, targetEnd)`, with ids taken
from `nextId` on: what lies before the target, the repainted chunk, what lies behind. -/
def cmmPieces (newType : CmmType) (targetBase targetEnd rEnd nextId : ℕ) (r : CmmRegion) :
    List CmmRegion :=
  let before := if targetBase > r.base then
    [⟨nextId, r.base, wsub targetBase r.base, r.type⟩] else []
  let chunkEnd := if targetEnd < rEnd then targetEnd else rEnd
  let chunk := ⟨nextId + before.length, targetBase, wsub chunkEnd targetBase, newType⟩
  let behind := if targetEnd < rEnd then
    [⟨nextId + before.length + 1, targetEnd, wsub rEnd targetEnd, r.type⟩] else []
  before ++ chunk :: behind

/-- The loop of `cmm_insert_region` over the slots from index `i` on; `count` is
`internal_count`.  Returns those slots afterwards, with the new capacity and id counter. -/
def cmmInsertLoop (realloc : ℕ → Bool) (newType : CmmType) (targetEnd : ℕ) :
    (count capacity nextId targetBase : ℕ) → List CmmRegion →
      Option (List CmmRegion × ℕ × ℕ)
  | _, capacity, nextId, _, [] => some ([], capacity, nextId)
  | count, capacity, nextId, targetBase, r :: rest =>
    if targetBase < targetEnd then
      let rEnd := wadd r.base r.length
      if targetBase < rEnd ∧ targetEnd > r.base then
        if targetBase ≤ r.base ∧ targetEnd ≥ rEnd then do
          -- whole region: retyped in place, `target_base` stays where it was
          let (tail, cap, nid) ←
            cmmInsertLoop realloc newType targetEnd count capacity nextId targetBase rest
          some ({ r with type := newType } :: tail, cap, nid)
        else do
          let pieces := cmmPieces newType targetBase targetEnd rEnd nextId r
          let capacity ← cmmEnsureCapacity realloc capacity (count + 2)
          let chunkEnd := if targetEnd < rEnd then targetEnd else rEnd
          let (tail, cap, nid) ← cmmInsertLoop realloc newType targetEnd
            (count + (pieces.length - 1)) capacity (nextId + pieces.length) chunkEnd rest
          some (pieces ++ tail, cap, nid)
      else do
        let (tail, cap, nid) ←
          cmmInsertLoop realloc newType targetEnd count capacity nextId targetBase rest
        some (r :: tail, cap, nid)
    else some (r :: rest, capacity, nextId)

/-- `cmm_insert_region`.  `none` is a panic or a fault. -/
def cmmInsertRegion (realloc : ℕ → Bool) (base length : ℕ) (newType : CmmType) (s : Cmm) :
    Option Cmm :=
  if s.isHeapBacked then do
    let (map, cap, nid) ← cmmInsertLoop realloc newType (wadd base length)
      s.internalMap.length s.internalCapacity s.nextId base s.internalMap
    some { s with internalMap := map, internalCapacity := cap, nextId := nid }
  else none

/-! ## What repainting means -/

/-- The address `a` lies in `r`. -/
def CmmRegion.Covers (r : CmmRegion) (a : ℕ) : Prop := r.base ≤ a ∧ a < r.limit

/-- A region is not empty and ends below the top of the address space. -/
def CmmRegion.Valid (r : CmmRegion) : Prop := 0 < r.length ∧ r.limit < word

/-- Some region of the map covers `a`. -/
def Covered (m : List CmmRegion) (a : ℕ) : Prop := ∃ r ∈ m, r.Covers a

/-- Some region of the map gives `a` the type `ty`. -/
def HasType (m : List CmmRegion) (a : ℕ) (ty : CmmType) : Prop :=
  ∃ r ∈ m, r.Covers a ∧ r.type = ty

/-- Valid regions, sorted by address and non-overlapping. -/
structure SortedMap (m : List CmmRegion) : Prop where
  valid : ∀ r ∈ m, r.Valid
  sorted : m.Pairwise fun r s => r.limit ≤ s.base

/-- A heap-backed map as `cmm_migrate_to_heap` leaves it: sorted, its ids distinct and
already handed out, its slots within the capacity. -/
structure Cmm.Wf (s : Cmm) : Prop extends SortedMap s.internalMap where
  ids : (s.internalMap.map CmmRegion.id).Nodup
  fresh : ∀ r ∈ s.internalMap, r.id < s.nextId
  heapBacked : s.isHeapBacked = true
  fits : s.internalMap.length ≤ s.internalCapacity
  capacity : 2 ≤ s.internalCapacity

/-- `m'` is `m` with `[lo, hi)` repainted to type `t`, address by address. -/
structure Repainted (lo hi : ℕ) (t : CmmType) (m m' : List CmmRegion) : Prop where
  sortedMap : SortedMap m'
  covered : ∀ a, Covered m' a ↔ Covered m a
  ids : (m'.map CmmRegion.id).Nodup
  typed : ∀ a ty, HasType m' a ty ↔
    if lo ≤ a ∧ a < hi then Covered m a ∧ ty = t else HasType m a ty

/-- If the target ends strictly inside a region that starts after `lo`, that region is
touched from below by one that `lo` cuts. -/
def CutsCleanly (lo hi : ℕ) (m : List CmmRegion) : Prop :=
  ∀ r ∈ m, lo < r.base → r.base < hi → hi < r.limit → ∃ q ∈ m, q.base < lo ∧ q.limit = r.base

/-! ## Replacing the first region by pieces

Each branch of the loop replaces the region at hand by a list of pieces (often a singleton)
and goes on with the rest.  The three lemmas below say what that does to sortedness and
coverage, to types and to ids. -/

/-- The two conditions of `Repainted` that the missing advance of `target_base` can break. -/
def CoversSame (m m' : List CmmRegion) : Prop :=
  SortedMap m' ∧ ∀ a, Covered m' a ↔ Covered m a

lemma SortedMap.tail {r : CmmRegion} {m : List CmmRegion} (h : SortedMap (r :: m)) :
    SortedMap m :=
  ⟨fun s hs => h.valid s (List.mem_cons_of_mem _ hs), h.sorted.of_cons⟩

lemma SortedMap.limit_le {r s : CmmRegion} {m : List CmmRegion} (h : SortedMap (r :: m))
    (hs : s ∈ m) : r.limit ≤ s.base :=
  List.rel_of_pairwise_cons h.sorted hs

lemma CmmRegion.Valid.base_lt {r : CmmRegion} (h : r.Valid) : r.base < r.limit := by
  have := h.1
  rw [CmmRegion.limit]
  omega

lemma covered_append {m m' : List CmmRegion} {a : ℕ} :
    Covered (m ++ m') a ↔ Covered m a ∨ Covered m' a := by
  simp [Covered, List.mem_append, or_and_right, exists_or]

lemma covered_cons {r : CmmRegion} {m : List CmmRegion} {a : ℕ} :
    Covered (r :: m) a ↔ r.Covers a ∨ Covered m a := by
  simp [Covered]

lemma hasType_append {m m' : List CmmRegion} {a : ℕ} {ty : CmmType} :
    HasType (m ++ m') a ty ↔ HasType m a ty ∨ HasType m' a ty := by
  simp [HasType, List.mem_append, or_and_right, exists_or]

lemma hasType_cons {r : CmmRegion} {m : List CmmRegion} {a : ℕ} {ty : CmmType} :
    HasType (r :: m) a ty ↔ (r.Covers a ∧ r.type = ty) ∨ HasType m a ty := by
  simp [HasType]

lemma HasType.covered {m : List CmmRegion} {a : ℕ} {ty : CmmType} (h : HasType m a ty) :
    Covered m a := by
  obtain ⟨r, hr, hc, -⟩ := h
  exact ⟨r, hr, hc⟩

/-- In a sorted map, the first region and the rest cover no common address. -/
lemma SortedMap.not_covered {r : CmmRegion} {m : List CmmRegion} (h : SortedMap (r :: m))
    {a : ℕ} (ha : r.Covers a) : ¬ Covered m a := by
  rintro ⟨s, hs, hsa⟩
  have := h.limit_le hs
  have := ha.2
  have := hsa.1
  omega

/-- Replacing the first region by pieces that cover the same addresses: the whole list covers
the same addresses in order exactly when the rest does. -/
lemma coversSame_cons {r : CmmRegion} {m P m' : List CmmRegion} (hm : SortedMap (r :: m))
    (hP : SortedMap P) (hcov : ∀ a, Covered P a ↔ r.Covers a) :
    CoversSame (r :: m) (P ++ m') ↔ CoversSame m m' := by
  constructor
  · rintro ⟨hs, hc⟩
    have hsep : ∀ p ∈ P, ∀ s ∈ m', p.limit ≤ s.base := (List.pairwise_append.mp hs.sorted).2.2
    refine ⟨⟨fun s h => hs.valid s (List.mem_append_right _ h),
      (List.pairwise_append.mp hs.sorted).2.1⟩, fun a => ⟨fun ha => ?_, fun ha => ?_⟩⟩
    · rcases covered_cons.mp ((hc a).mp (covered_append.mpr (Or.inr ha))) with hr | h
      · obtain ⟨p, hp, hpa⟩ := (hcov a).mpr hr
        obtain ⟨s, hsm, hsa⟩ := ha
        have := hsep p hp s hsm
        have := hpa.2
        have := hsa.1
        omega
      · exact h
    · rcases covered_append.mp ((hc a).mpr (covered_cons.mpr (Or.inr ha))) with h | h
      · exact absurd ha (hm.not_covered ((hcov a).mp h))
      · exact h
  · rintro ⟨hs, hc⟩
    refine ⟨⟨fun s h => ?_, List.pairwise_append.mpr ⟨hP.sorted, hs.sorted, ?_⟩⟩, fun a => ?_⟩
    · rcases List.mem_append.mp h with h | h
      · exact hP.valid s h
      · exact hs.valid s h
    · intro p hp s hsm
      have hplt := (hP.valid p hp).base_lt
      have hpr : r.Covers (p.limit - 1) := (hcov _).mp ⟨p, hp, by omega, by omega⟩
      obtain ⟨q, hq, hqa⟩ := (hc s.base).mp ⟨s, hsm, le_rfl, (hs.valid s hsm).base_lt⟩
      have := hm.limit_le hq
      have := hpr.2
      have := hqa.1
      omega
    · rw [covered_append, covered_cons, hcov, hc]

/-- The type condition of `Repainted` on the slots from some index on. -/
def TypedAs (lo hi : ℕ) (t : CmmType) (m m' : List CmmRegion) : Prop :=
  ∀ a ty, HasType m' a ty ↔
    if lo ≤ a ∧ a < hi then Covered m a ∧ ty = t else HasType m a ty

/-- Types of a list whose first region is replaced by pieces.  The rest may be painted from a
later start `lo'`, as long as the two targets agree behind the first region. -/
lemma typedAs_cons {lo lo' hi : ℕ} {t : CmmType} {r : CmmRegion} {m P m' : List CmmRegion}
    (hm : SortedMap (r :: m)) (hP : TypedAs lo hi t [r] P) (hm' : TypedAs lo' hi t m m')
    (hlo : ∀ a, r.limit ≤ a → a < hi → (lo ≤ a ↔ lo' ≤ a)) :
    TypedAs lo hi t (r :: m) (P ++ m') := by
  have hagree : ∀ a, Covered m a → ((lo ≤ a ∧ a < hi) ↔ (lo' ≤ a ∧ a < hi)) := by
    rintro a ⟨s, hs, hsa⟩
    have := hm.limit_le hs
    have := hsa.1
    by_cases hhi : a < hi
    · simp [hhi, hlo a (by omega) hhi]
    · simp [hhi]
  intro a ty
  rw [hasType_append, hP a ty, hm' a ty]
  by_cases ha : Covered m a
  · have hr : ¬ r.Covers a := fun h => hm.not_covered h ha
    simp only [hagree a ha, covered_cons, hasType_cons, hr]
    split_ifs <;> simp [Covered, HasType]
  · have hty : ¬ HasType m a ty := fun h => ha h.covered
    simp only [covered_cons, hasType_cons, ha, hty, or_false, false_and, ite_self]
    split_ifs <;> simp [Covered, HasType]

/-! ## The pieces of a cut region -/

section Pieces

variable (t : CmmType) (lo hi nextId : ℕ) (r : CmmRegion)

lemma cmmPieces_ids : (cmmPieces t lo hi r.limit nextId r).map CmmRegion.id =
    List.range' nextId (cmmPieces t lo hi r.limit nextId r).length := by
  simp only [cmmPieces]
  split_ifs <;> simp [List.range']

lemma length_cmmPieces_le : (cmmPieces t lo hi r.limit nextId r).length ≤ 3 := by
  simp only [cmmPieces]
  split_ifs <;> simp

lemma length_cmmPieces_pos : 0 < (cmmPieces t lo hi r.limit nextId r).length := by
  simp [cmmPieces]

variable {t lo hi nextId r}

/-- The pieces of a region that the target cuts without starting before it. -/
lemma cmmPieces_eq (hr : r.Valid) (hlo : r.base ≤ lo) (hlohi : lo < hi) (hcut : lo < r.limit) :
    cmmPieces t lo hi r.limit nextId r =
      (if r.base < lo then [⟨nextId, r.base, lo - r.base, r.type⟩] else []) ++
      ⟨nextId + (if r.base < lo then 1 else 0), lo, min hi r.limit - lo, t⟩ ::
      (if hi < r.limit then
        [⟨nextId + (if r.base < lo then 1 else 0) + 1, hi, r.limit - hi, r.type⟩] else []) := by
  have hlim := hr.2
  have h1 : wsub lo r.base = lo - r.base := wsub_of_le hlo (by omega)
  by_cases hhi : hi < r.limit
  · have h2 : wsub hi lo = hi - lo := wsub_of_le hlohi.le (by omega)
    have h3 : wsub r.limit hi = r.limit - hi := wsub_of_le hhi.le (by omega)
    simp only [cmmPieces, hhi, if_true, h1, h2, h3, gt_iff_lt, min_eq_left hhi.le]
    split_ifs <;> simp
  · have h2 : wsub r.limit lo = r.limit - lo := wsub_of_le hcut.le (by omega)
    simp only [cmmPieces, hhi, if_false, h1, h2, gt_iff_lt, min_eq_right (not_lt.mp hhi)]
    split_ifs <;> simp

lemma sortedMap_cmmPieces (hr : r.Valid) (hlo : r.base ≤ lo) (hlohi : lo < hi)
    (hcut : lo < r.limit) : SortedMap (cmmPieces t lo hi r.limit nextId r) := by
  have hlim := hr.2
  rw [cmmPieces_eq hr hlo hlohi hcut]
  constructor
  · intro s hs
    split_ifs at hs <;>
      simp only [List.nil_append, List.cons_append, List.mem_cons, List.not_mem_nil,
        or_false] at hs <;>
      rcases hs with rfl | rfl | rfl <;>
      simp only [CmmRegion.Valid, CmmRegion.limit] at * <;> omega
  · split_ifs <;>
      simp only [List.nil_append, List.cons_append, List.pairwise_cons, List.mem_cons,
        List.not_mem_nil, or_false, forall_eq_or_imp, forall_eq, CmmRegion.limit,
        false_imp_iff, implies_true, and_true, List.Pairwise.nil] at * <;> omega

lemma covered_cmmPieces (hr : r.Valid) (hlo : r.base ≤ lo) (hlohi : lo < hi)
    (hcut : lo < r.limit) (a : ℕ) :
    Covered (cmmPieces t lo hi r.limit nextId r) a ↔ r.Covers a := by
  rw [cmmPieces_eq hr hlo hlohi hcut]
  split_ifs <;>
    simp only [Covered, CmmRegion.Covers, CmmRegion.limit, List.nil_append, List.cons_append,
      List.mem_cons, List.not_mem_nil, or_false, exists_eq_or_imp, exists_eq_left] at * <;>
    omega

lemma typedAs_cmmPieces (hr : r.Valid) (hlo : r.base ≤ lo) (hlohi : lo < hi)
    (hcut : lo < r.limit) : TypedAs lo hi t [r] (cmmPieces t lo hi r.limit nextId r) := by
  intro a ty
  rw [cmmPieces_eq hr hlo hlohi hcut]
  split_ifs <;>
    simp only [HasType, Covered, CmmRegion.Covers, CmmRegion.limit, List.nil_append,
      List.cons_append, List.mem_cons, List.not_mem_nil, or_false, exists_eq_or_imp,
      exists_eq_left] at * <;>
    grind

end Pieces

/-! ## The loop -/

section Loop

variable {realloc : ℕ → Bool} {t : CmmType} {hi : ℕ}

/-- Ids of the slots the loop returns: kept, or handed out during the walk. -/
def IdsFrom (nextId nextId' : ℕ) (m m' : List CmmRegion) : Prop :=
  nextId ≤ nextId' ∧ (m'.map CmmRegion.id).Nodup ∧
    ∀ i ∈ m'.map CmmRegion.id, i ∈ m.map CmmRegion.id ∨ nextId ≤ i ∧ i < nextId'

/-- A kept id in front of a walked rest. -/
lemma IdsFrom.cons {nextId nextId' : ℕ} {r r' : CmmRegion} {m m' : List CmmRegion}
    (hr : r'.id = r.id) (hold : ∀ i ∈ (r :: m).map CmmRegion.id, i < nextId)
    (hnd : ((r :: m).map CmmRegion.id).Nodup) (h : IdsFrom nextId nextId' m m') :
    IdsFrom nextId nextId' (r :: m) (r' :: m') := by
  obtain ⟨hle, hnodup, hmem⟩ := h
  rw [List.map_cons, List.nodup_cons] at hnd
  refine ⟨hle, ?_, ?_⟩
  · rw [List.map_cons, List.nodup_cons, hr]
    refine ⟨fun hin => ?_, hnodup⟩
    rcases hmem _ hin with h | ⟨h, -⟩
    · exact hnd.1 h
    · have := hold r.id (by simp)
      omega
  · intro i hi
    rw [List.map_cons, List.mem_cons, hr] at hi
    rw [List.map_cons, List.mem_cons]
    rcases hi with rfl | hi
    · exact Or.inl (Or.inl rfl)
    · exact (hmem i hi).imp_left Or.inr

/-- Fresh ids in front of a walked rest. -/
lemma IdsFrom.append {n nextId nextId' : ℕ} {r : CmmRegion} {P m m' : List CmmRegion}
    (hP : P.map CmmRegion.id = List.range' nextId n)
    (hold : ∀ i ∈ (r :: m).map CmmRegion.id, i < nextId)
    (h : IdsFrom (nextId + n) nextId' m m') :
    IdsFrom nextId nextId' (r :: m) (P ++ m') := by
  obtain ⟨hle, hnodup, hmem⟩ := h
  have hrest : ∀ i ∈ m'.map CmmRegion.id, i < nextId ∨ nextId + n ≤ i := by
    intro i hi
    rcases hmem i hi with h | ⟨h, -⟩
    · exact Or.inl (hold i (by simp only [List.map_cons, List.mem_cons]; exact Or.inr h))
    · exact Or.inr h
  refine ⟨by omega, ?_, ?_⟩
  · rw [List.map_append, hP, List.nodup_append]
    refine ⟨List.nodup_range', hnodup, ?_⟩
    rintro i hi _ hj rfl
    have := List.mem_range'_1.mp hi
    have := hrest i hj
    omega
  · intro i hi
    rw [List.map_append, hP, List.mem_append] at hi
    rcases hi with hi | hi
    · have := List.mem_range'_1.mp hi
      exact Or.inr (by omega)
    · rcases hmem i hi with h | h
      · exact Or.inl (List.mem_cons_of_mem _ h)
      · exact Or.inr (by omega)

lemma cmmEnsureCapacity_of_granted {capacity count : ℕ} (hgrant : ∀ n, realloc n = true)
    (hfits : count ≤ capacity) (hcap : 2 ≤ capacity) :
    ∃ c, cmmEnsureCapacity realloc capacity (count + 2) = some c ∧ count + 2 ≤ c := by
  rw [cmmEnsureCapacity]
  split_ifs with h1 h2
  · exact ⟨capacity, rfl, h1⟩
  · exact ⟨capacity * 2, rfl, by omega⟩
  · simp only [hgrant, Bool.true_and, decide_eq_true_eq] at h2
    omega

/-- What the walk over a sorted suffix returns, when `realloc` does not refuse: the slots fit
the array, the ids stay distinct, and the result covers what it should, in order, exactly
when the target cuts cleanly; then it is also typed as it should be. -/
structure LoopSpec (t : CmmType) (hi count nextId lo : ℕ) (m : List CmmRegion)
    (out : List CmmRegion × ℕ × ℕ) : Prop where
  fits : count + out.1.length ≤ out.2.1 + m.length
  ids : IdsFrom nextId out.2.2 m out.1
  covers : CoversSame m out.1 ↔ CutsCleanly lo hi m
  typed : CutsCleanly lo hi m → TypedAs lo hi t m out.1

lemma TypedAs.of_empty_target {lo : ℕ} {m : List CmmRegion} (h : hi ≤ lo) :
    TypedAs lo hi t m m := by
  intro a ty
  rw [if_neg (by omega)]

lemma typedAs_kept {lo : ℕ} {r : CmmRegion} (hout : r.limit ≤ lo ∨ hi ≤ r.base) :
    TypedAs lo hi t [r] [r] := by
  intro a ty
  have := hout
  split_ifs with h
  · simp only [HasType, Covered, CmmRegion.Covers, List.mem_singleton, exists_eq_left]
    constructor <;> intro h' <;> exfalso <;> omega
  · rfl

lemma typedAs_retyped {lo : ℕ} {r : CmmRegion} (hlo : lo ≤ r.base) (hhi : r.limit ≤ hi) :
    TypedAs lo hi t [r] [{ r with type := t }] := by
  intro a ty
  simp only [HasType, Covered, CmmRegion.Covers, CmmRegion.limit, List.mem_singleton,
    exists_eq_left] at *
  grind

/-- A region the target does not cut has no part in the condition. -/
lemma cutsCleanly_cons_of_not_cut {lo : ℕ} {r : CmmRegion} {m : List CmmRegion}
    (hm : SortedMap (r :: m))
    (hr : r.limit ≤ lo ∨ hi ≤ r.base ∨ (lo ≤ r.base ∧ r.limit ≤ hi)) :
    CutsCleanly lo hi (r :: m) ↔ CutsCleanly lo hi m := by
  have hlt := (hm.valid r (by simp)).base_lt
  constructor
  · intro h s hs h1 h2 h3
    have hrs := hm.limit_le hs
    obtain ⟨q, hq, hq1, hq2⟩ := h s (List.mem_cons_of_mem _ hs) h1 h2 h3
    rcases List.mem_cons.mp hq with rfl | hq
    · omega
    · exact ⟨q, hq, hq1, hq2⟩
  · intro h s hs h1 h2 h3
    rcases List.mem_cons.mp hs with rfl | hs
    · omega
    · obtain ⟨q, hq, hq1, hq2⟩ := h s hs h1 h2 h3
      exact ⟨q, List.mem_cons_of_mem _ hq, hq1, hq2⟩

/-- A region cut by a target that does not start before it advances the target. -/
lemma cutsCleanly_cons_of_cut {lo : ℕ} {r : CmmRegion} {m : List CmmRegion}
    (hm : SortedMap (r :: m)) (hlo : r.base ≤ lo) (hcut : lo < r.limit)
    (hnot : ¬ (lo ≤ r.base ∧ r.limit ≤ hi)) :
    CutsCleanly lo hi (r :: m) ↔ CutsCleanly (if hi < r.limit then hi else r.limit) hi m := by
  constructor
  · intro h s hs h1 h2 h3
    have hrs := hm.limit_le hs
    split_ifs at h1 with hhi
    · omega
    · obtain ⟨q, hq, hq1, hq2⟩ := h s (List.mem_cons_of_mem _ hs) (by omega) h2 h3
      rcases List.mem_cons.mp hq with rfl | hq
      · omega
      · have := hm.limit_le hq
        omega
  · intro h s hs h1 h2 h3
    rcases List.mem_cons.mp hs with rfl | hs
    · omega
    · have hrs := hm.limit_le hs
      rw [if_neg (by omega)] at h
      by_cases htouch : s.base = r.limit
      · exact ⟨r, List.mem_cons_self, by omega, htouch.symm⟩
      · obtain ⟨q, hq, hq1, -⟩ := h s hs (by omega) h2 h3
        have := hm.limit_le hq
        omega

/-- A target that starts before a region and ends inside it does not cut cleanly. -/
lemma not_cutsCleanly_cons {lo : ℕ} {r : CmmRegion} {m : List CmmRegion}
    (hm : SortedMap (r :: m)) (hlo : lo < r.base) (hin : r.base < hi) (hhi : hi < r.limit) :
    ¬ CutsCleanly lo hi (r :: m) := by
  intro h
  obtain ⟨q, hq, hq1, hq2⟩ := h r List.mem_cons_self hlo hin hhi
  rcases List.mem_cons.mp hq with rfl | hq
  · omega
  · have := hm.limit_le hq
    omega

/-- There the repainted chunk covers the target's start, which nothing covered before. -/
lemma not_coversSame_of_early_chunk {lo nextId : ℕ} {r : CmmRegion} {m m' : List CmmRegion}
    (hm : SortedMap (r :: m)) (hlo : lo < r.base) (hin : r.base < hi) (hhi : hi < r.limit) :
    ¬ CoversSame (r :: m) (cmmPieces t lo hi r.limit nextId r ++ m') := by
  rintro ⟨-, hc⟩
  have hlim := (hm.valid r (by simp)).2
  have hpiece : Covered (cmmPieces t lo hi r.limit nextId r) lo := by
    refine ⟨⟨nextId, lo, hi - lo, t⟩, ?_, le_rfl, by simp only [CmmRegion.limit]; omega⟩
    have hw : wsub hi lo = hi - lo := wsub_of_le (by omega) (by omega)
    simp [cmmPieces, hhi, hw, show ¬ r.base < lo by omega]
  rcases covered_cons.mp ((hc lo).mp (covered_append.mpr (Or.inl hpiece))) with h | ⟨s, hs, h⟩
  · have := h.1
    omega
  · have := hm.limit_le hs
    have := h.1
    omega

/-! Each branch of the body replaces the slot at hand and hands on the rest; these are the
three ways the specification of the rest becomes that of the whole. -/

section Branches

variable {count capacity nextId lo : ℕ} {r : CmmRegion} {m : List CmmRegion}
  {out : List CmmRegion × ℕ × ℕ}

/-- A region that is replaced by one region at the same place. -/
lemma LoopSpec.cons {r' : CmmRegion} (hm : SortedMap (r :: m))
    (hnd : ((r :: m).map CmmRegion.id).Nodup) (hold : ∀ i ∈ (r :: m).map CmmRegion.id, i < nextId)
    (hid : r'.id = r.id) (hbase : r'.base = r.base) (hlength : r'.length = r.length)
    (htyped : TypedAs lo hi t [r] [r'])
    (hout : r.limit ≤ lo ∨ hi ≤ r.base ∨ (lo ≤ r.base ∧ r.limit ≤ hi))
    (h : LoopSpec t hi count nextId lo m out) :
    LoopSpec t hi count nextId lo (r :: m) (r' :: out.1, out.2) := by
  have hcuts := cutsCleanly_cons_of_not_cut hm hout
  have hlimit : r'.limit = r.limit := by rw [CmmRegion.limit, hbase, hlength, CmmRegion.limit]
  have hv : r'.Valid := by
    have := hm.valid r (by simp)
    rwa [CmmRegion.Valid, hlength, hlimit]
  refine ⟨?_, IdsFrom.cons hid hold hnd h.ids, ?_, fun hc => ?_⟩
  · have := h.fits
    simp only [List.length_cons]
    omega
  · rw [hcuts, ← h.covers]
    exact coversSame_cons hm (P := [r']) ⟨by simpa using hv, by simp⟩
      (fun a => by simp [Covered, CmmRegion.Covers, hbase, hlimit])
  · exact typedAs_cons hm htyped (h.typed (hcuts.mp hc)) (fun a _ _ => Iff.rfl)

/-- A region that is replaced by its pieces. -/
lemma LoopSpec.cut (hm : SortedMap (r :: m))
    (hold : ∀ i ∈ (r :: m).map CmmRegion.id, i < nextId) (hrun : lo < hi)
    (hover : lo < r.limit ∧ r.base < hi) (hwhole : ¬ (lo ≤ r.base ∧ r.limit ≤ hi))
    (h : LoopSpec t hi (count + ((cmmPieces t lo hi r.limit nextId r).length - 1))
      (nextId + (cmmPieces t lo hi r.limit nextId r).length)
      (if hi < r.limit then hi else r.limit) m out) :
    LoopSpec t hi count nextId lo (r :: m)
      (cmmPieces t lo hi r.limit nextId r ++ out.1, out.2) := by
  have hv := hm.valid r (by simp)
  have hfits : count + (cmmPieces t lo hi r.limit nextId r ++ out.1).length ≤
      out.2.1 + (r :: m).length := by
    have hpos := length_cmmPieces_pos t lo hi nextId r
    have := h.fits
    simp only [List.length_append, List.length_cons]
    omega
  have hids := IdsFrom.append (cmmPieces_ids t lo hi nextId r) hold h.ids
  by_cases hearly : lo < r.base
  · have hno := not_cutsCleanly_cons hm hearly hover.2 (by omega)
    exact ⟨hfits, hids,
      iff_of_false (not_coversSame_of_early_chunk hm hearly hover.2 (by omega)) hno,
      fun hc => absurd hc hno⟩
  · have hlo := not_lt.mp hearly
    have hcuts := cutsCleanly_cons_of_cut hm hlo hover.1 hwhole
    refine ⟨hfits, hids, ?_, fun hc => ?_⟩
    · rw [hcuts, ← h.covers]
      exact coversSame_cons hm (sortedMap_cmmPieces hv hlo hrun hover.1)
        (covered_cmmPieces hv hlo hrun hover.1)
    · refine typedAs_cons hm (typedAs_cmmPieces hv hlo hrun hover.1)
        (h.typed (hcuts.mp hc)) (fun a _ _ => ?_)
      split_ifs <;> omega

end Branches

/-- **The walk, exactly.**  Induction on the slots still to visit. -/
lemma cmmInsertLoop_spec (t : CmmType) (hi : ℕ) (hgrant : ∀ n, realloc n = true) :
    ∀ (m : List CmmRegion) (count capacity nextId lo : ℕ), SortedMap m →
      (m.map CmmRegion.id).Nodup → (∀ i ∈ m.map CmmRegion.id, i < nextId) →
      count ≤ capacity → 2 ≤ capacity →
      ∃ out, cmmInsertLoop realloc t hi count capacity nextId lo m = some out ∧
        LoopSpec t hi count nextId lo m out
  | [], count, capacity, nextId, lo, _, _, _, hfits, _ =>
    ⟨([], capacity, nextId), rfl, by simpa using hfits, ⟨le_rfl, by simp, by simp⟩,
      iff_of_true ⟨⟨by simp, .nil⟩, by simp⟩ (by simp [CutsCleanly]),
      fun _ a ty => by simp [HasType, Covered]⟩
  | r :: m, count, capacity, nextId, lo, hm, hnd, hold, hfits, hcap => by
    have hrEnd : wadd r.base r.length = r.limit := wadd_of_lt (hm.valid r (by simp)).2
    have hnd' : (m.map CmmRegion.id).Nodup := (List.nodup_cons.mp hnd).2
    have hold' : ∀ i ∈ m.map CmmRegion.id, i < nextId :=
      fun i hi => hold i (List.mem_cons_of_mem _ hi)
    rw [cmmInsertLoop]
    simp only [hrEnd]
    by_cases hrun : lo < hi
    · rw [if_pos hrun]
      by_cases hover : lo < r.limit ∧ hi > r.base
      · rw [if_pos hover]
        by_cases hwhole : lo ≤ r.base ∧ hi ≥ r.limit
        · obtain ⟨out, hout, hspec⟩ :=
            cmmInsertLoop_spec t hi hgrant m count capacity nextId lo hm.tail hnd' hold' hfits hcap
          rw [if_pos hwhole, hout]
          exact ⟨_, rfl, hspec.cons hm hnd hold rfl rfl rfl
            (typedAs_retyped hwhole.1 hwhole.2) (Or.inr (Or.inr hwhole))⟩
        · obtain ⟨c, hc, hroom⟩ := cmmEnsureCapacity_of_granted hgrant hfits hcap
          have hlen := length_cmmPieces_le t lo hi nextId r
          obtain ⟨out, hout, hspec⟩ := cmmInsertLoop_spec t hi hgrant m
            (count + ((cmmPieces t lo hi r.limit nextId r).length - 1)) c
            (nextId + (cmmPieces t lo hi r.limit nextId r).length)
            (if hi < r.limit then hi else r.limit) hm.tail hnd'
            (fun i hi => lt_of_lt_of_le (hold' i hi) (by omega)) (by omega) (by omega)
          rw [if_neg hwhole, hc, Option.bind_eq_bind, Option.bind_some, hout]
          exact ⟨_, rfl, hspec.cut hm hold hrun hover hwhole⟩
      · obtain ⟨out, hout, hspec⟩ :=
          cmmInsertLoop_spec t hi hgrant m count capacity nextId lo hm.tail hnd' hold' hfits hcap
        rw [if_neg hover, hout]
        exact ⟨_, rfl, hspec.cons hm hnd hold rfl rfl rfl (typedAs_kept (by omega)) (by omega)⟩
    · rw [if_neg hrun]
      refine ⟨(r :: m, capacity, nextId), rfl, by simp only [List.length_cons]; omega,
        ⟨le_rfl, hnd, fun i hi => Or.inl hi⟩, iff_of_true ⟨hm, fun a => Iff.rfl⟩ ?_,
        fun _ => TypedAs.of_empty_target (not_lt.mp hrun)⟩
      intro s hs h1 h2 h3
      omega

end Loop

/-! ## The call -/

/-- **`cmm_insert_region` repaints exactly when it cuts cleanly.**  On every well-formed
heap-backed map and every target that does not wrap, the call returns, and what it leaves is
the map repainted address by address if and only if a region that the target ends inside of
starts no later than the target, or is touched by the region the target starts inside of. -/
theorem cmmInsertRegion_repaints_iff (realloc : ℕ → Bool) (hgrant : ∀ n, realloc n = true)
    (s : Cmm) (hs : s.Wf) (base length : ℕ) (t : CmmType) (hwrap : base + length < word) :
    ∃ s', cmmInsertRegion realloc base length t s = some s' ∧
      (Repainted base (base + length) t s.internalMap s'.internalMap ↔
        CutsCleanly base (base + length) s.internalMap) := by
  obtain ⟨out, hout, hspec⟩ := cmmInsertLoop_spec t (base + length) hgrant
    s.internalMap s.internalMap.length s.internalCapacity s.nextId base hs.toSortedMap hs.ids
    (fun i hi => by
      obtain ⟨r, hr, rfl⟩ := List.mem_map.mp hi
      exact hs.fresh r hr) hs.fits hs.capacity
  refine ⟨{ s with internalMap := out.1, internalCapacity := out.2.1, nextId := out.2.2 }, ?_, ?_⟩
  · simp [cmmInsertRegion, hs.heapBacked, wadd_of_lt hwrap, hout]
  · constructor
    · intro h
      exact hspec.covers.mp ⟨h.sortedMap, h.covered⟩
    · intro h
      obtain ⟨hsorted, hcov⟩ := hspec.covers.mpr h
      exact ⟨hsorted, hcov, hspec.ids.2.1, hspec.typed h⟩

/-! Two touching regions `[0, 4096)` and `[4096, 8192)`.  Repainting `[0, 6144)` retypes the
first one whole and then gives the second a chunk that starts at `0` again. -/

/-- A two-region map of reserved memory. -/
def twoRegions : Cmm :=
  ⟨[⟨1, 0, 4096, .reserved⟩, ⟨2, 4096, 4096, .reserved⟩], 8, 3, true⟩

lemma twoRegions_wf : twoRegions.Wf where
  valid := by simp [twoRegions, CmmRegion.Valid, CmmRegion.limit, word]
  sorted := by simp [twoRegions, CmmRegion.limit]
  ids := by simp [twoRegions]
  fresh := by simp [twoRegions]
  heapBacked := rfl
  fits := by simp [twoRegions]
  capacity := by simp [twoRegions]

/-- A target inside one region is repainted as it should be. -/
theorem twoRegions_repainted_inside : ∃ s',
    cmmInsertRegion (fun _ => true) 1024 1024 .framebuffer twoRegions = some s' ∧
      Repainted 1024 2048 .framebuffer twoRegions.internalMap s'.internalMap := by
  obtain ⟨s', hs', hiff⟩ := cmmInsertRegion_repaints_iff (fun _ => true) (fun _ => rfl) twoRegions
    twoRegions_wf 1024 1024 .framebuffer (by decide)
  refine ⟨s', hs', hiff.mpr ?_⟩
  simp [CutsCleanly, twoRegions, CmmRegion.limit]

/-- Repainting `[0, 6144)` leaves two overlapping regions. -/
theorem twoRegions_not_repainted : twoRegions.Wf ∧ ∃ s',
    cmmInsertRegion (fun _ => true) 0 6144 .framebuffer twoRegions = some s' ∧
      s'.internalMap = [⟨1, 0, 4096, .framebuffer⟩, ⟨3, 0, 6144, .framebuffer⟩,
        ⟨4, 6144, 2048, .reserved⟩] ∧
      ¬ Repainted 0 6144 .framebuffer twoRegions.internalMap s'.internalMap := by
  refine ⟨twoRegions_wf, ⟨[⟨1, 0, 4096, .framebuffer⟩, ⟨3, 0, 6144, .framebuffer⟩,
    ⟨4, 6144, 2048, .reserved⟩], 8, 5, true⟩, by decide, rfl, fun h => ?_⟩
  have hsorted := h.sortedMap.sorted
  simp [CmmRegion.limit] at hsorted

end Cuore
