import Cuore.Mem.Paging.Walk
import Mathlib.Tactic.IntervalCases

/-!
# The entries the kernel writes

Bit by bit, what `walk_to_level` stores: the entry for a fresh table, the entry for the table
that replaces a huge page, and the 512 pieces of the huge page.  A piece maps its part of the
page as the huge entry did, with the same rights (`leafMapping_splitEntry`).
-/

namespace Cuore

/-! ## Bits of flags and masks -/

lemma testBit_pteAddrMask (i : ℕ) : pteAddrMask.testBit i = decide (12 ≤ i ∧ i < 60) := by
  rw [show pteAddrMask = bitsMask 12 60 by decide, testBit_bitsMask (by decide)]

lemma testBit_hwAddr (e i : ℕ) :
    (hwAddr e).testBit i = (e.testBit i && decide (12 ≤ i ∧ i < 52)) := by
  rw [hwAddr, Nat.testBit_and, testBit_bitsMask (by decide)]

lemma testBit_rightsMask (i : ℕ) :
    (ptePresent ||| pteWritable ||| pteUser ||| pteNx).testBit i =
      decide (i = 0 ∨ i = 1 ∨ i = 2 ∨ i = 63) := by
  simp only [ptePresent, pteWritable, pteUser, pteNx, Nat.testBit_or, Nat.testBit_two_pow]
  grind

lemma testBit_hwRights (e i : ℕ) :
    (hwRights e).testBit i = (e.testBit i && decide (i = 0 ∨ i = 1 ∨ i = 2 ∨ i = 63)) := by
  rw [hwRights, Nat.testBit_and, testBit_rightsMask]

/-- A number with bits only below the 64th is a word. -/
lemma lt_word_of_testBit {x : ℕ} (h : ∀ i, 64 ≤ i → x.testBit i = false) : x < word :=
  Nat.lt_pow_two_of_testBit x h

lemma testBit_of_dvd {k x i : ℕ} (h : 2 ^ k ∣ x) (hi : i < k) : x.testBit i = false := by
  obtain ⟨q, rfl⟩ := h
  rw [Nat.mul_comm, Nat.testBit_mul_two_pow]
  simp [Nat.not_le.mpr hi]

/-- A physical page has bits 12 to 51 only. -/
lemma testBit_page {p i : ℕ} (hp : pageSize ∣ p ∧ p < physLimit) (hi : p.testBit i = true) :
    12 ≤ i ∧ i < 52 := by
  constructor
  · by_contra hlt
    rw [testBit_of_dvd (k := 12) hp.1 (by omega)] at hi
    exact absurd hi (by simp)
  · by_contra hge
    rw [Nat.testBit_lt_two_pow (lt_of_lt_of_le hp.2
      (Nat.pow_le_pow_right (by decide) (not_lt.mp hge)))] at hi
    exact absurd hi (by simp)

/-! ## Entries for tables -/

section TableEntry

variable {p f : ℕ} (hp : pageSize ∣ p ∧ p < physLimit)
  (hf : ∀ i, f.testBit i = true → i = 0 ∨ i = 1 ∨ i = 2 ∨ i = 63)
include hp hf

/-- An entry made of a page and rights is a word, and its address is the page. -/
lemma tableEntry_lt : p ||| f < word := by
  refine lt_word_of_testBit fun i hi => ?_
  have := fun h => testBit_page (i := i) hp h
  have := hf i
  rw [Nat.testBit_or]
  grind

lemma hwAddr_tableEntry : hwAddr (p ||| f) = p := by
  refine Nat.eq_of_testBit_eq fun i => ?_
  have := fun h => testBit_page (i := i) hp h
  have := hf i
  rw [testBit_hwAddr, Nat.testBit_or]
  grind

omit hf in
lemma testBit_tableEntry {i : ℕ} (hi : i < 12 ∨ 52 ≤ i) : (p ||| f).testBit i = f.testBit i := by
  have := fun h => testBit_page (i := i) hp h
  rw [Nat.testBit_or]
  grind

lemma pointsToTable_tableEntry (h0 : f.testBit 0 = true) : PointsToTable (p ||| f) := by
  have h7 : f.testBit 7 = false := by
    have := hf 7
    grind
  exact ⟨by rw [testBit_tableEntry hp (by omega), h0],
    by rw [testBit_tableEntry hp (by omega), h7]⟩

end TableEntry

lemma newTableFlags_bits {i : ℕ} (h : (ptePresent ||| pteWritable).testBit i = true) :
    i = 0 ∨ i = 1 ∨ i = 2 ∨ i = 63 := by
  simp only [ptePresent, pteWritable, Nat.testBit_or, Nat.testBit_two_pow] at h
  grind

lemma splitTableFlags_bits {e i : ℕ}
    (h : (e &&& (ptePresent ||| pteWritable ||| pteUser ||| pteNx)).testBit i = true) :
    i = 0 ∨ i = 1 ∨ i = 2 ∨ i = 63 := by
  rw [Nat.testBit_and, testBit_rightsMask] at h
  grind

/-! ## Splitting a huge entry -/

/-- The bits of a piece: those of the huge entry above its page size, the index of the piece
below, and the attributes. -/
lemma testBit_splitEntry {e level i : ℕ} (he : e < word) (hl : 1 ≤ level) (hl' : level ≤ 2)
    (hi : i < 512) (j : ℕ) :
    (splitEntry e level i).testBit j =
      if 12 + level * 9 ≤ j then e.testBit j
      else if 12 + (level - 1) * 9 ≤ j then i.testBit (j - (12 + (level - 1) * 9))
      else if 12 ≤ j then false
      else if j = 7 then decide (1 < level)
      else if j = 8 then false
      else e.testBit j := by
  obtain ⟨k, hk, hK⟩ : ∃ k, 12 + (level - 1) * 9 = k ∧ 12 + level * 9 = k + 9 := by
    refine ⟨_, rfl, by omega⟩
  have hk' : k ≤ 21 := by omega
  have hbase : e &&& wnot (2 ^ (k + 9) - 1) = 2 ^ (k + 9) * (e / 2 ^ (k + 9)) := by
    rw [and_wnot_pred (by omega) he, alignDown, Nat.mul_comm]
  have hpiece : i * 2 ^ k < 2 ^ (k + 9) := by
    rw [Nat.pow_add, Nat.mul_comm (2 ^ k)]
    exact Nat.mul_lt_mul_of_pos_right hi (Nat.two_pow_pos k)
  have hsum : wadd (e &&& wnot (2 ^ (k + 9) - 1)) (i * 2 ^ k) =
      (e &&& wnot (2 ^ (k + 9) - 1)) ||| (i * 2 ^ k) := by
    rw [wadd_of_lt, hbase, Nat.two_pow_add_eq_or_of_lt hpiece]
    have hw : word = 2 ^ (64 - (k + 9)) * 2 ^ (k + 9) := by
      rw [← Nat.pow_add, Nat.sub_add_cancel (by omega)]
    have hq : e / 2 ^ (k + 9) < 2 ^ (64 - (k + 9)) := by
      rw [Nat.div_lt_iff_lt_mul (Nat.two_pow_pos _), ← hw]
      exact he
    calc _ < 2 ^ (k + 9) * (e / 2 ^ (k + 9)) + 2 ^ (k + 9) := by omega
      _ = (e / 2 ^ (k + 9) + 1) * 2 ^ (k + 9) := by ring
      _ ≤ word := by
        rw [hw]
        exact Nat.mul_le_mul_right _ hq
  have he64 := fun h => testBit_of_lt_word (i := j) he h
  have hi9 : 9 ≤ j - k → i.testBit (j - k) = false := fun h =>
    Nat.testBit_lt_two_pow (lt_of_lt_of_le hi
      (Nat.pow_le_pow_right (n := 2) (i := 9) (by decide) h))
  have h12 : (0xFFF).testBit j = decide (j < 12) := Nat.testBit_two_pow_sub_one 12 j
  have hbits : (splitEntry e level i).testBit j =
      ((e.testBit j && decide (k + 9 ≤ j ∧ j < 64) || decide (k ≤ j) && i.testBit (j - k)) ||
        ((e.testBit j && decide (j < 12) || e.testBit j && decide (63 = j)) &&
          (decide (j < 64) && !decide (7 = j)) && (decide (j < 64) && !decide (8 = j))) ||
        decide (1 < level) && decide (7 = j)) := by
    simp only [splitEntry, hk, hK, hsum]
    split_ifs with h1 <;>
      simp only [Nat.testBit_or, Nat.testBit_and, testBit_wnot_pred (show k + 9 ≤ 64 by omega),
        Nat.testBit_mul_two_pow, testBit_wnot (show pteHugePage < word by decide),
        testBit_wnot (show pteGlobal < word by decide), h12] <;>
      simp only [pteHugePage, pteGlobal, pteNx, Nat.testBit_two_pow] <;> grind
  rw [hbits, hk, hK]
  grind

section Split

variable {e l i : ℕ} (he : e < word) (hl : l < 2) (hi : i < 512)
include he hl hi

lemma splitEntry_lt : splitEntry e (l + 1) i < word := by
  refine lt_word_of_testBit fun j hj => ?_
  rw [testBit_splitEntry he (by omega) (by omega) hi, if_pos (by omega), testBit_of_lt_word he hj]

lemma testBit_zero_splitEntry : (splitEntry e (l + 1) i).testBit 0 = e.testBit 0 := by
  rw [testBit_splitEntry he (by omega) (by omega) hi]
  simp

lemma testBit_seven_splitEntry : (splitEntry e (l + 1) i).testBit 7 = decide (0 < l) := by
  rw [testBit_splitEntry he (by omega) (by omega) hi, if_neg (by omega), if_neg (by omega),
    if_neg (by omega), if_pos rfl]
  simp

lemma hwRights_splitEntry : hwRights (splitEntry e (l + 1) i) = hwRights e := by
  refine Nat.eq_of_testBit_eq fun j => ?_
  rw [testBit_hwRights, testBit_hwRights, testBit_splitEntry he (by omega) (by omega) hi]
  grind

/-- The frame of a piece is its place in the huge frame. -/
lemma alignDown_hwAddr_splitEntry :
    alignDown (2 ^ (12 + l * 9)) (hwAddr (splitEntry e (l + 1) i)) =
      alignDown (2 ^ (12 + (l + 1) * 9)) (hwAddr e) + i * 2 ^ (12 + l * 9) := by
  have hpiece : i * 2 ^ (12 + l * 9) < 2 ^ (12 + (l + 1) * 9) := by
    rw [show 12 + (l + 1) * 9 = 9 + (12 + l * 9) by ring, Nat.pow_add 2 9]
    exact Nat.mul_lt_mul_of_pos_right hi (Nat.two_pow_pos _)
  have hor : alignDown (2 ^ (12 + (l + 1) * 9)) (hwAddr e) + i * 2 ^ (12 + l * 9) =
      alignDown (2 ^ (12 + (l + 1) * 9)) (hwAddr e) ||| i * 2 ^ (12 + l * 9) := by
    rw [alignDown, Nat.mul_comm, Nat.two_pow_add_eq_or_of_lt hpiece]
  rw [hor]
  refine Nat.eq_of_testBit_eq fun j => ?_
  have hi9 : 9 ≤ j - (12 + l * 9) → i.testBit (j - (12 + l * 9)) = false := fun h =>
    Nat.testBit_lt_two_pow (lt_of_lt_of_le hi
      (Nat.pow_le_pow_right (n := 2) (i := 9) (by decide) h))
  rw [Nat.testBit_or, testBit_alignDown, testBit_alignDown, testBit_hwAddr, testBit_hwAddr,
    testBit_splitEntry he (by omega) (by omega) hi, Nat.testBit_mul_two_pow]
  grind

end Split

/-- **A piece maps its part of a huge page as the huge entry did.** -/
lemma leafMapping_splitEntry {e l v : ℕ} (he : e < word) (hl : l < 2) :
    leafMapping (splitEntry e (l + 1) (pageIndex v l)) l v = leafMapping e (l + 1) v := by
  have hi := pageIndex_lt v l
  have hmod : v % 2 ^ (12 + (l + 1) * 9) =
      pageIndex v l * 2 ^ (12 + l * 9) + v % 2 ^ (12 + l * 9) := by
    rw [pageIndex_eq, show 12 + (l + 1) * 9 = (12 + l * 9) + 9 by ring, Nat.pow_add, Nat.mod_mul]
    ring
  rw [leafMapping, leafMapping, alignDown_hwAddr_splitEntry he hl hi, hwRights_splitEntry he hl hi,
    hmod]
  congr 1
  ring

end Cuore
