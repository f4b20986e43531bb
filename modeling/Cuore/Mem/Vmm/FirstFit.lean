import Cuore.Mem.Vmm.Gap

/-!
# First fit (`vmm_alloc_aligned`)

The gap search returns the least place in front of a range, and where it finds none, the allocator
rounds up the end of the last range.  Both together are the least aligned address in the pool at
which the pages lie in no range, and the bound of the pool is checked on that address
(`vmmAllocAligned_firstFit`).

The arithmetic is that of 64-bit words.  As long as no address of the pool, rounded up and with the
request behind it, leaves them, the computed ends are the true ones (`searchOk_of_noWrap`).
-/

namespace Cuore

/-- **A pool and its ranges**: they lie in the pool, apart from each other, and the cached fields of
the tree are current.  The null address is not in the pool. -/
structure VmmPool (s : Vmm) : Prop where
  base_pos : 0 < s.poolBase
  end_lt : s.poolEnd < word
  current : s.root.Current vmmAvlCb
  apart : Apart s.poolEnd (vmmRanges s.root)
  base_le : ∀ r ∈ vmmRanges s.root, s.poolBase ≤ r.start

/-- No address of the pool, rounded up and with the request behind it, wraps. -/
def PoolNoWrap (s : Vmm) (count align : ℕ) : Prop :=
  ∀ a, s.poolBase ≤ a → a ≤ s.poolEnd → alignUp align a + count * pageSize < word

/-- The pages from `a` on are in no range. -/
def VacantAt (s : Vmm) (count a : ℕ) : Prop :=
  Vacant VmmRange.start VmmRange.limit (count * pageSize) (vmmRanges s.root) a

/-- The range is added to the tree, with the node `n` as its storage. -/
def Vmm.addRange (s : Vmm) (n : VmmNode) (a count : ℕ) : Vmm :=
  { s with root := s.root.avlInsert vmmAvlCb { n with start := a, pageCount := count } }

/-- The place that the allocator looks for: aligned, in the pool, and vacant. -/
def IsFirstFit (s : Vmm) (count align a : ℕ) : Prop :=
  IsLeast {a | align ∣ a ∧ s.poolBase ≤ a ∧ VacantAt s count a} a

/-- The states of runs are such pools. -/
lemma VmmInv.pool {s : Vmm} {live : List VmmLive} (h : VmmInv s live) : VmmPool s :=
  ⟨h.base_pos, h.end_lt, h.current, h.apart, h.base_le⟩

section NoWrap

variable {s : Vmm} {count k a base : ℕ} {l : List VmmRange}

lemma PoolNoWrap.vmmAlignUp_eq (hwrap : PoolNoWrap s count (2 ^ k)) (hk : k ≤ 64)
    (hbase : s.poolBase ≤ a) (hend : a ≤ s.poolEnd) : vmmAlignUp a (2 ^ k) = alignUp (2 ^ k) a := by
  have hlt := hwrap a hbase hend
  exact Cuore.vmmAlignUp_eq hk (by omega)

lemma PoolNoWrap.rounds (hwrap : PoolNoWrap s count (2 ^ k)) (hk : k ≤ 64)
    (hbase : s.poolBase ≤ a) (hend : a ≤ s.poolEnd) :
    Rounds (fun b => vmmAlignUp b (2 ^ k)) (2 ^ k ∣ ·) a := by
  have hpos := Nat.two_pow_pos k
  change IsLeast _ (vmmAlignUp a (2 ^ k))
  rw [hwrap.vmmAlignUp_eq hk hbase hend]
  refine ⟨⟨dvd_alignUp _ a, le_alignUp hpos a⟩, fun b ⟨hdvd, hle⟩ => ?_⟩
  have hmono := alignUp_mono (n := 2 ^ k) hle
  rwa [alignUp_of_dvd hpos hdvd] at hmono

/-- The computed ends are the true ones. -/
lemma searchOk_of_noWrap (hwrap : PoolNoWrap s count (2 ^ k)) (hk : k ≤ 64)
    (hbase : s.poolBase ≤ base) (hend : base ≤ s.poolEnd)
    (hl : ∀ x ∈ l, s.poolBase ≤ x.limit ∧ x.limit ≤ s.poolEnd) :
    SearchOk count (2 ^ k) base l := by
  induction l generalizing base with
  | nil => trivial
  | cons x l ih =>
    obtain ⟨hxbase, hxend⟩ := hl x List.mem_cons_self
    refine ⟨fun hle => ?_, .inr (ih hxbase hxend fun y hy => hl y (List.mem_cons_of_mem x hy))⟩
    have hlt := hwrap base hbase hend
    rw [searchEnd, hwrap.vmmAlignUp_eq hk hbase hend, wmul_of_lt (by omega),
      wadd_of_lt hlt] at hle
    rw [hwrap.vmmAlignUp_eq hk hbase hend]
    exact hle

end NoWrap

namespace VmmPool

variable {s : Vmm} {count k : ℕ} (h : VmmPool s)
include h

lemma limit_mem {x : VmmRange} (hx : x ∈ vmmRanges s.root) :
    s.poolBase ≤ x.limit ∧ x.limit ≤ s.poolEnd :=
  ⟨(h.base_le x hx).trans (Nat.le_add_right _ _), h.apart.le x hx⟩

/-- The end of the last range, from which the allocator appends. -/
lemma tail_eq : (if s.root ≠ .nil then vmmSubtreeEnd s.root else s.poolBase) =
    lastLimit VmmRange.limit s.poolBase (vmmRanges s.root) := by
  split_ifs with hroot
  · exact vmmSubtreeEnd_eq h.end_lt h.current h.apart hroot s.poolBase
  · rw [not_not.mp hroot]
    rfl

lemma base_le_tail : s.poolBase ≤ lastLimit VmmRange.limit s.poolBase (vmmRanges s.root) := by
  rcases @lastLimit_mem _ VmmRange.limit s.poolBase (vmmRanges s.root) with heq | ⟨x, hx, heq⟩
  · exact heq.ge
  · rw [heq]
    exact (h.limit_mem hx).1

lemma tail_le_end (hle : s.poolBase ≤ s.poolEnd) :
    lastLimit VmmRange.limit s.poolBase (vmmRanges s.root) ≤ s.poolEnd := by
  rcases @lastLimit_mem _ VmmRange.limit s.poolBase (vmmRanges s.root) with heq | ⟨x, hx, heq⟩
  · rwa [heq]
  · rw [heq]
    exact (h.limit_mem hx).2

/-- **The address that is chosen** is the least vacant one. -/
lemma isFirstFit_chosen (hle : s.poolBase ≤ s.poolEnd) (hk : k ≤ 64)
    (hwrap : PoolNoWrap s count (2 ^ k)) :
    IsFirstFit s count (2 ^ k)
      ((vmmScan count (2 ^ k) s.poolBase (vmmRanges s.root)).getD
        (vmmAlignUp (lastLimit VmmRange.limit s.poolBase (vmmRanges s.root)) (2 ^ k))) := by
  have hlim : ∀ x ∈ vmmRanges s.root, x.start ≤ x.limit := fun x _ => Nat.le_add_right _ _
  have hround := hwrap.rounds hk le_rfl hle
  have hrounds : ∀ x ∈ vmmRanges s.root,
      Rounds (fun b => vmmAlignUp b (2 ^ k)) (2 ^ k ∣ ·) x.limit := fun x hx =>
    hwrap.rounds hk (h.limit_mem hx).1 (h.limit_mem hx).2
  rcases hscan : vmmScan count (2 ^ k) s.poolBase (vmmRanges s.root) with _ | a
  · rw [Option.getD_none]
    exact isLeast_of_scanFit_none hlim h.apart.sorted h.base_le hround hrounds hscan
  · rw [Option.getD_some]
    exact isLeast_of_scanFit hlim h.apart.sorted h.base_le hround hrounds hscan

/-- The least place is at most the end of the last range, rounded up. -/
lemma firstFit_lt_word (hle : s.poolBase ≤ s.poolEnd) (hwrap : PoolNoWrap s count (2 ^ k)) {a : ℕ}
    (ha : IsFirstFit s count (2 ^ k) a) : a + count * pageSize < word := by
  have htail := h.base_le_tail
  have hlast := hwrap _ htail (h.tail_le_end hle)
  have hleast : a ≤ alignUp (2 ^ k) (lastLimit VmmRange.limit s.poolBase (vmmRanges s.root)) := by
    refine ha.2 ⟨dvd_alignUp _ _, htail.trans (le_alignUp (Nat.two_pow_pos k) _), fun x hx => ?_⟩
    refine .inl (le_trans ?_ (le_alignUp (Nat.two_pow_pos k) _))
    exact limit_le_lastLimit (fun y _ => Nat.le_add_right y.start _) h.apart.sorted hx
  exact lt_of_le_of_lt (Nat.add_le_add_right hleast _) hlast

end VmmPool

/-- **`vmm_alloc_aligned` is exact first fit.**  If no address of the pool, rounded up and with the
request behind it, wraps, there is a least aligned address in the pool at which the pages lie in no
range.  The call panics if the pages end above the pool there, or if there is no storage for a node;
else it returns that address and adds the range to the tree. -/
theorem vmmAllocAligned_firstFit {s : Vmm} (h : VmmPool s) (hle : s.poolBase ≤ s.poolEnd)
    {count k : ℕ} (hcount : 1 ≤ count) (hk : k < 64)
    (hwrap : PoolNoWrap s count (2 ^ k)) :
    ∃ a, IsFirstFit s count (2 ^ k) a ∧ ∀ malloc, vmmAllocAligned malloc count (2 ^ k) s =
      if a + count * pageSize ≤ s.poolEnd then
        (poolAllocNode malloc s).map fun r => (a, r.2.addRange r.1 a count)
      else none := by
  have hchosen := h.isFirstFit_chosen hle hk.le hwrap
  refine ⟨_, hchosen, fun malloc => ?_⟩
  have hsum := h.firstFit_lt_word hle hwrap hchosen
  have htail := h.base_le_tail
  have hok := searchOk_of_noWrap hwrap hk.le le_rfl hle fun x hx => h.limit_mem hx
  have hbehind : ¬ vmmAlignUp (lastLimit VmmRange.limit s.poolBase (vmmRanges s.root)) (2 ^ k) <
      s.poolBase := not_lt.mpr (htail.trans (le_vmmAlignUp _ _))
  -- the address, in the words of the allocator
  have haddr : (if vmmFindGap s.poolEnd count (2 ^ k) s.root s.poolBase = 0 then
        vmmAlignUp (lastLimit VmmRange.limit s.poolBase (vmmRanges s.root)) (2 ^ k)
      else vmmFindGap s.poolEnd count (2 ^ k) s.root s.poolBase) =
      (vmmScan count (2 ^ k) s.poolBase (vmmRanges s.root)).getD
        (vmmAlignUp (lastLimit VmmRange.limit s.poolBase (vmmRanges s.root)) (2 ^ k)) := by
    rw [vmmFindGap_eq h.end_lt h.current h.apart h.base_pos h.base_le hok]
    rcases hscan : vmmScan count (2 ^ k) s.poolBase (vmmRanges s.root) with _ | a
    · rw [Option.getD_none, if_pos rfl, Option.getD_none]
    · have hpos := vmmScan_pos h.base_pos h.apart.sorted h.base_le hscan
      rw [Option.getD_some, if_neg hpos.ne', Option.getD_some]
  generalize (vmmScan count (2 ^ k) s.poolBase (vmmRanges s.root)).getD
    (vmmAlignUp (lastLimit VmmRange.limit s.poolBase (vmmRanges s.root)) (2 ^ k)) = a at *
  rw [vmmAllocAligned, if_neg (by omega)]
  dsimp only
  rw [h.tail_eq, if_neg hbehind, haddr, wmul_of_lt (by omega), wadd_of_lt hsum]
  by_cases hend : a + count * pageSize ≤ s.poolEnd
  · rw [if_neg (not_lt.mpr hend), if_pos hend]
    cases poolAllocNode malloc s <;> rfl
  · rw [if_pos (not_le.mp hend), if_neg hend]

/-- A pool with one range, a 2 MiB page, and a hole of 512 pages in front of it. -/
def holePool : Vmm where
  poolBase := 0xFFFF800080000000
  poolEnd := 0xFFFFF00000000000
  root := .node .nil ⟨0xFFFF800080200000, 512, 0, 0xFFFF800080200000, 0xFFFF800080400000,
    false⟩ 1 .nil
  earlyPoolCount := 1
  heapAvailable := false
  heapNodes := 0

lemma vmmPool_holePool : VmmPool holePool where
  base_pos := by decide
  end_lt := by decide
  current := ⟨rfl, trivial, trivial⟩
  apart := ⟨by decide, by decide, by decide⟩
  base_le := by decide

/-- Three pages go into the hole. -/
theorem vmmAllocAligned_firstFit_holePool :
    IsFirstFit holePool 3 (2 ^ 12) 0xFFFF800080000000 ∧
      ∀ malloc, vmmAllocAligned malloc 3 (2 ^ 12) holePool = (poolAllocNode malloc holePool).map
        fun r => (0xFFFF800080000000, r.2.addRange r.1 0xFFFF800080000000 3) := by
  have hwrap : PoolNoWrap holePool 3 (2 ^ 12) := by
    intro a _ hend
    have hlt := alignUp_lt (Nat.two_pow_pos 12) a
    have hword : word = 2 ^ 64 := rfl
    simp only [holePool, pageSize] at hend ⊢
    omega
  obtain ⟨a, ha, hrun⟩ := vmmAllocAligned_firstFit vmmPool_holePool (by decide) (by decide)
    (by decide) hwrap
  have haddr : (vmmAllocAligned false 3 (2 ^ 12) holePool).map Prod.fst =
      some 0xFFFF800080000000 := by
    decide +kernel
  rw [hrun false] at haddr
  split_ifs at haddr with hend
  · rw [Option.map_map] at haddr
    obtain ⟨r, -, rfl⟩ := Option.map_eq_some_iff.mp haddr
    exact ⟨ha, fun malloc => (hrun malloc).trans (if_pos hend)⟩
  · cases haddr

end Cuore
