import Cuore.Framework.Bytes

/-!
# Zero-terminated strings

`strcmp` compares a string with one that stands in memory, byte by byte and unsigned, up to the
first difference or the terminating zero.  It is zero exactly if the string, with its terminator, is
what stands there (`strcmp_eq_zero_iff`).  On strings without zero bytes it is `compareBytes`
(`strcmp_of_holds`): zero exactly for equal strings (`compareBytes_eq_zero_iff`), and otherwise
decided at the first difference, behind whatever the two have in common (`compareBytes_append`).
-/

namespace Cuore

/-- `strcmp(s, a)`, where `s` ends with a zero and `a` is an address. -/
def strcmp (m : Memory) : List UInt8 → ℕ → ℤ
  | [], a => 0 - (m a).toNat
  | c :: s, a =>
    if c ≠ m a then c.toNat - (m a).toNat else if c = 0 then 0 else strcmp m s (a + 1)

/-- The number of bytes at `a` that `strcmp(s, a)` reads. -/
def strcmpReads (m : Memory) : List UInt8 → ℕ → ℕ
  | [], _ => 1
  | c :: s, a => if c ≠ m a then 1 else if c = 0 then 1 else strcmpReads m s (a + 1) + 1

/-- The first difference of two strings, a missing byte being zero. -/
def compareBytes : List UInt8 → List UInt8 → ℤ
  | [], [] => 0
  | [], d :: _ => -d.toNat
  | c :: _, [] => c.toNat
  | c :: s, d :: t => if c ≠ d then c.toNat - d.toNat else compareBytes s t

section

variable {m : Memory} {a : ℕ} {s t u v : List UInt8} {c d : UInt8}

lemma toNat_pos_of_ne_zero (h : c ≠ 0) : 0 < c.toNat :=
  Nat.pos_of_ne_zero fun h0 => h (UInt8.toNat_inj.mp h0)

/-- `strcmp` reads on as long as the bytes are a beginning of the string. -/
lemma lt_strcmpReads_iff (hs : 0 ∉ s) {n : ℕ} :
    n < strcmpReads m s a ↔ m.bytesAt a n <+: s := by
  induction s generalizing a n with
  | nil =>
    rw [strcmpReads, List.prefix_nil]
    cases n with
    | zero => simp [Memory.bytesAt]
    | succ n => simp [Memory.bytesAt_succ]
  | cons c s ih =>
    rw [List.mem_cons, not_or] at hs
    cases n with
    | zero =>
      rw [strcmpReads]
      refine iff_of_true ?_ (by simp [Memory.bytesAt])
      split_ifs <;> omega
    | succ n =>
      rw [Memory.bytesAt_succ, List.cons_prefix_cons, strcmpReads, ← ih hs.2]
      by_cases hc : c = m a
      · rw [if_neg (not_not.mpr hc), if_neg (Ne.symm hs.1), Nat.add_lt_add_iff_right]
        exact (and_iff_right hc.symm).symm
      · rw [if_pos hc]
        exact iff_of_false (by omega) fun h => hc h.1.symm

/-- The empty string comes before all others. -/
lemma compareBytes_nil_lt (hne : t ≠ []) (ht : 0 ∉ t) : compareBytes [] t < 0 := by
  cases t with
  | nil => exact absurd rfl hne
  | cons d t =>
    have := toNat_pos_of_ne_zero fun h0 : d = 0 => ht (h0 ▸ List.mem_cons_self)
    rw [compareBytes]
    omega

lemma strcmp_of_holds (hs : 0 ∉ s) (ht : 0 ∉ t) (h : Holds m a (t ++ [0])) :
    strcmp m s a = compareBytes s t := by
  induction s generalizing a t with
  | nil =>
    cases t with
    | nil =>
      rw [strcmp, h.1]
      rfl
    | cons d t =>
      rw [strcmp, h.1, compareBytes, zero_sub]
  | cons c s ih =>
    rw [List.mem_cons, not_or] at hs
    cases t with
    | nil =>
      rw [strcmp, h.1, if_pos (Ne.symm hs.1), compareBytes]
      exact sub_zero _
    | cons d t =>
      rw [List.mem_cons, not_or] at ht
      rw [strcmp, h.1, if_neg (Ne.symm hs.1), ih hs.2 ht.2 h.2]
      rfl

/-- Comparing with a string without zero bytes: equal exactly when that string, with its terminator,
stands in memory. -/
lemma strcmp_eq_zero_iff (hs : 0 ∉ s) : strcmp m s a = 0 ↔ Holds m a (s ++ [0]) := by
  induction s generalizing a with
  | nil =>
    simp only [strcmp, List.nil_append, Holds, and_true]
    rw [← UInt8.toNat_inj]
    simp
  | cons c s ih =>
    simp only [List.mem_cons, not_or] at hs
    rw [strcmp, List.cons_append, Holds, ← ih hs.2]
    by_cases hc : m a = c
    · rw [if_neg (by simpa using hc.symm), if_neg (Ne.symm hs.1)]
      simp [hc]
    · rw [if_pos (Ne.symm hc)]
      have hne : (m a).toNat ≠ c.toNat := fun h => hc (UInt8.toNat_inj.mp h)
      simp only [hc, false_and, iff_false]
      omega

lemma compareBytes_self (s : List UInt8) : compareBytes s s = 0 := by
  induction s with
  | nil => rfl
  | cons c s ih => rw [compareBytes, if_neg (not_not.mpr rfl), ih]

lemma compareBytes_eq_zero_iff (hs : 0 ∉ s) (ht : 0 ∉ t) : compareBytes s t = 0 ↔ s = t := by
  refine ⟨fun h => ?_, fun h => h ▸ compareBytes_self s⟩
  induction s generalizing t with
  | nil =>
    cases t with
    | nil => rfl
    | cons d t =>
      rw [List.mem_cons, not_or] at ht
      have := toNat_pos_of_ne_zero (Ne.symm ht.1)
      rw [compareBytes] at h
      omega
  | cons c s ih =>
    rw [List.mem_cons, not_or] at hs
    have hc := toNat_pos_of_ne_zero (Ne.symm hs.1)
    cases t with
    | nil =>
      rw [compareBytes] at h
      omega
    | cons d t =>
      rw [List.mem_cons, not_or] at ht
      rw [compareBytes] at h
      split_ifs at h with hne
      · exact absurd (UInt8.toNat_inj.mp (by omega)) hne
      · rw [not_not.mp hne, ih hs.2 ht.2 h]

/-- A common beginning makes no difference. -/
lemma compareBytes_append (u s t : List UInt8) :
    compareBytes (u ++ s) (u ++ t) = compareBytes s t := by
  induction u with
  | nil => rfl
  | cons c u ih => rw [List.cons_append, List.cons_append, compareBytes, if_neg (not_not.mpr rfl),
      ih]

/-- Swapping the strings changes the sign. -/
lemma compareBytes_swap (s t : List UInt8) : compareBytes t s = -compareBytes s t := by
  induction s generalizing t with
  | nil => cases t <;> simp [compareBytes]
  | cons c s ih =>
    cases t with
    | nil => simp [compareBytes]
    | cons d t =>
      rw [compareBytes, compareBytes]
      by_cases hcd : c = d
      · rw [if_neg (not_not.mpr hcd.symm), if_neg (not_not.mpr hcd), ih]
      · rw [if_pos (Ne.symm hcd), if_pos hcd]
        omega

end

end Cuore
