import Mathlib.Data.Nat.Bitwise
import Mathlib.Tactic.Ring

/-!
# 64-bit words as natural numbers

Every address, size and counter of the kernel is a `uintptr_t`, `size_t` or `uint64_t`.  The
model keeps them in `ℕ`, below `2 ^ 64`, and writes the reduction modulo `2 ^ 64` wherever
the source can overflow.  This file fixes the three wrapping operations `wadd`, `wsub` and
`wmul`, and the complement mask `wnot`, with the lemma saying each is the exact operation
when nothing wraps.

The kernel rounds addresses with masks.  `and_wnot_pred` identifies `x & ~(2 ^ k - 1)` with
`x / 2 ^ k * 2 ^ k`, after which alignment is a matter for `omega`; `alignDown` and `alignUp`
name the two roundings on numbers, and the lemmas about them are what the users of this file
cite.
-/

namespace Cuore

/-! ## Wrapping arithmetic -/

/-- The number of values of a 64-bit word. -/
abbrev word : ℕ := 2 ^ 64

/-- `a + b` on 64-bit words. -/
def wadd (a b : ℕ) : ℕ := (a + b) % word

/-- `a - b` on 64-bit words. -/
def wsub (a b : ℕ) : ℕ := (a + (word - b % word)) % word

/-- `a * b` on 64-bit words. -/
def wmul (a b : ℕ) : ℕ := (a * b) % word

/-- `~a` on 64-bit words. -/
def wnot (a : ℕ) : ℕ := word - 1 - a

lemma wadd_of_lt {a b : ℕ} (h : a + b < word) : wadd a b = a + b := Nat.mod_eq_of_lt h

lemma wadd_lt (a b : ℕ) : wadd a b < word := Nat.mod_lt _ (by norm_num)

lemma wmul_of_lt {a b : ℕ} (h : a * b < word) : wmul a b = a * b := Nat.mod_eq_of_lt h

lemma wsub_of_le {a b : ℕ} (h : b ≤ a) (ha : a < word) : wsub a b = a - b := by
  simp only [wsub, word] at *
  omega

lemma wsub_of_lt {a b : ℕ} (h : a < b) (hb : b < word) : wsub a b = word - (b - a) := by
  simp only [wsub, word] at *
  omega

lemma wsub_wadd_one {a b : ℕ} (h : 0 < a + b) : wsub (wadd a b) 1 = (a + b - 1) % word := by
  simp only [wsub, wadd, word]
  omega

/-! ## Rounding to a power of two -/

/-- The greatest multiple of `n` not above `x`. -/
def alignDown (n x : ℕ) : ℕ := x / n * n

/-- The least multiple of `n` not below `x`. -/
def alignUp (n x : ℕ) : ℕ := (x + n - 1) / n * n

lemma alignDown_le (n x : ℕ) : alignDown n x ≤ x := Nat.div_mul_le_self x n

lemma dvd_alignDown (n x : ℕ) : n ∣ alignDown n x := Dvd.intro_left _ rfl

lemma lt_alignDown_add {n : ℕ} (hn : 0 < n) (x : ℕ) : x < alignDown n x + n := by
  have h := Nat.div_add_mod x n
  have hm := Nat.mod_lt x hn
  rw [alignDown, Nat.mul_comm]
  omega

/-- The numbers in the block of a multiple of `n`. -/
lemma div_eq_div_iff_of_dvd {n a x : ℕ} (hn : 0 < n) (ha : n ∣ a) :
    x / n = a / n ↔ a ≤ x ∧ x < a + n := by
  obtain ⟨q, rfl⟩ := ha
  rw [Nat.mul_div_cancel_left q hn, Nat.div_eq_iff hn, Nat.mul_comm q n]
  omega

/-- A multiple of `n` with something less than `n` added. -/
lemma alignDown_add_of_lt {n a r : ℕ} (ha : n ∣ a) (hr : r < n) : alignDown n (a + r) = a := by
  obtain ⟨q, rfl⟩ := ha
  rw [alignDown, Nat.mul_add_div (Nat.zero_lt_of_lt hr), Nat.div_eq_of_lt hr, Nat.add_zero,
    Nat.mul_comm]

lemma dvd_alignUp (n x : ℕ) : n ∣ alignUp n x := Dvd.intro_left _ rfl

lemma le_alignUp {n : ℕ} (hn : 0 < n) (x : ℕ) : x ≤ alignUp n x := by
  have h := lt_alignDown_add hn (x + n - 1)
  rw [alignDown] at h
  rw [alignUp]
  omega

lemma alignUp_lt {n : ℕ} (hn : 0 < n) (x : ℕ) : alignUp n x < x + n := by
  have h := alignDown_le n (x + n - 1)
  rw [alignDown] at h
  rw [alignUp]
  omega

lemma alignUp_mono {n x y : ℕ} (h : x ≤ y) : alignUp n x ≤ alignUp n y :=
  Nat.mul_le_mul_right n (Nat.div_le_div_right (by omega))

/-- Rounding up in other units. -/
lemma alignUp_mul {n c : ℕ} (hn : 0 < n) (hc : 0 < c) (x : ℕ) :
    alignUp (n * c) (x * c) = alignUp n x * c := by
  have hunits : (x * c + n * c - 1) / c = x + n - 1 := by
    rw [Nat.div_eq_iff hc]
    have hsplit : x * c + n * c = (x + n - 1) * c + c := by
      rw [← Nat.add_mul, ← Nat.succ_mul]
      congr 1
      omega
    omega
  rw [alignUp, alignUp, Nat.mul_comm n c, ← Nat.div_div_eq_div_mul, Nat.mul_comm c n, hunits,
    Nat.mul_assoc]

lemma alignUp_of_dvd {n x : ℕ} (hn : 0 < n) (h : n ∣ x) : alignUp n x = x := by
  obtain ⟨q, rfl⟩ := h
  have hdiv : (n * q + n - 1) / n = q := by
    rw [Nat.add_sub_assoc hn, Nat.mul_add_div hn, Nat.div_eq_of_lt (by omega), Nat.add_zero]
  rw [alignUp, hdiv, Nat.mul_comm]

/-- A word that rounds up below `2 ^ 64` does so without wrapping on the way. -/
lemma add_pred_lt_of_alignUp_lt {k x : ℕ} (hk : k ≤ 64) (h : alignUp (2 ^ k) x < word) :
    x + 2 ^ k - 1 < word := by
  have hpos : 0 < 2 ^ k := Nat.two_pow_pos k
  have hle := le_alignUp hpos x
  have hstep : alignUp (2 ^ k) x + 2 ^ k ≤ word := by
    have hw : word = 2 ^ (64 - k) * 2 ^ k := by rw [← Nat.pow_add, Nat.sub_add_cancel hk]
    obtain ⟨q, hq⟩ := dvd_alignUp (2 ^ k) x
    rw [hq, hw, Nat.mul_comm] at h
    rw [hq, hw, Nat.mul_comm, ← Nat.succ_mul]
    exact Nat.mul_le_mul_right _ (Nat.lt_of_mul_lt_mul_right h)
  omega

/-- A multiple of a power of two below a greater one leaves room for what is below it. -/
lemma add_lt_two_pow_of_dvd {k n x r : ℕ} (hk : k ≤ n) (hx : 2 ^ k ∣ x) (hlt : x < 2 ^ n)
    (hr : r < 2 ^ k) : x + r < 2 ^ n := by
  obtain ⟨q, rfl⟩ := hx
  rw [← Nat.add_sub_cancel' hk, Nat.pow_add] at hlt ⊢
  have hq : q < 2 ^ (n - k) := Nat.lt_of_mul_lt_mul_left hlt
  calc 2 ^ k * q + r < 2 ^ k * (q + 1) := by
        rw [Nat.mul_succ]
        omega
    _ ≤ 2 ^ k * 2 ^ (n - k) := Nat.mul_le_mul_left _ hq

/-! ## Bit fields -/

/-- The mask of the bits from `lo` up to but not including `hi`. -/
def bitsMask (lo hi : ℕ) : ℕ := 2 ^ hi - 2 ^ lo

lemma bitsMask_eq {lo hi : ℕ} (h : lo ≤ hi) : bitsMask lo hi = 2 ^ lo * (2 ^ (hi - lo) - 1) := by
  rw [bitsMask, Nat.mul_sub, ← Nat.pow_add, Nat.add_sub_cancel' h, Nat.mul_one]

lemma testBit_bitsMask {lo hi : ℕ} (h : lo ≤ hi) (i : ℕ) :
    (bitsMask lo hi).testBit i = decide (lo ≤ i ∧ i < hi) := by
  rw [bitsMask_eq h, Nat.testBit_two_pow_mul, Nat.testBit_two_pow_sub_one]
  by_cases hi' : lo ≤ i
  · simp [hi']
    omega
  · simp [hi']

/-- Testing a flag tests its bit. -/
lemma and_two_pow_ne_zero {e k : ℕ} : e &&& 2 ^ k ≠ 0 ↔ e.testBit k = true := by
  rw [Nat.and_two_pow]
  cases e.testBit k <;> simp

/-- A word has no bit beyond the 64th. -/
lemma testBit_of_lt_word {x i : ℕ} (hx : x < word) (hi : 64 ≤ i) : x.testBit i = false :=
  Nat.testBit_lt_two_pow (lt_of_lt_of_le hx (Nat.pow_le_pow_right (by norm_num) hi))

lemma testBit_wnot {a : ℕ} (ha : a < word) (i : ℕ) :
    (wnot a).testBit i = (decide (i < 64) && !a.testBit i) := by
  rw [wnot, Nat.sub_sub, Nat.add_comm]
  exact Nat.testBit_two_pow_sub_succ ha i

/-- The complement of a mask of low bits. -/
lemma wnot_pred (k : ℕ) : wnot (2 ^ k - 1) = bitsMask k 64 := by
  have hpos : 0 < 2 ^ k := Nat.two_pow_pos k
  rw [wnot, bitsMask, word]
  omega

lemma testBit_wnot_pred {k : ℕ} (hk : k ≤ 64) (i : ℕ) :
    (wnot (2 ^ k - 1)).testBit i = decide (k ≤ i ∧ i < 64) := by
  rw [wnot_pred, testBit_bitsMask hk]

lemma testBit_alignDown (k x i : ℕ) :
    (alignDown (2 ^ k) x).testBit i = (decide (k ≤ i) && x.testBit i) := by
  rw [alignDown, Nat.testBit_mul_two_pow, Nat.testBit_div_two_pow]
  by_cases hi : k ≤ i
  · rw [Nat.sub_add_cancel hi]
  · simp [hi]

/-- Masking off the low `k` bits rounds down to a multiple of `2 ^ k`. -/
lemma and_bitsMask {k n x : ℕ} (hk : k ≤ n) (hx : x < 2 ^ n) :
    x &&& bitsMask k n = alignDown (2 ^ k) x := by
  apply Nat.eq_of_testBit_eq
  intro i
  rw [Nat.testBit_and, testBit_bitsMask hk, testBit_alignDown]
  by_cases hi : i < n
  · simp [hi, Bool.and_comm]
  · have hbit : x.testBit i = false :=
      Nat.testBit_lt_two_pow (hx.trans_le (Nat.pow_le_pow_right (by norm_num) (not_lt.mp hi)))
    simp [hbit]

lemma and_wnot_pred {k x : ℕ} (hk : k ≤ 64) (hx : x < word) :
    x &&& wnot (2 ^ k - 1) = alignDown (2 ^ k) x := by
  rw [wnot_pred, and_bitsMask hk hx]

end Cuore
