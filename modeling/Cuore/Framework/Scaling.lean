import Mathlib.Algebra.Order.Floor.Div
import Mathlib.Order.Interval.Finset.Nat

/-!
# Scaling a uniform draw

A draw `x` below `N` is brought into `r` values by `x * r / N`.  Unless `r` divides `N` some
values come out more often than others, and the remedy is to reject the draws whose
`x * r % N` lies below `N % r`.  What is left of each value is an interval of the products whose
length is a multiple of `r`, so it holds equally many multiples of `r` (`card_scaled`).
-/

namespace Cuore

/-- An interval of `r * q` numbers holds `q` multiples of `r`. -/
lemma card_multiples {r : ℕ} (hr : 0 < r) {a q N : ℕ} (hN : a + r * q ≤ r * N) :
    ((Finset.range N).filter fun x => a ≤ x * r ∧ x * r < a + r * q).card = q := by
  have hfirst : ∀ x, a ≤ x * r ↔ a ⌈/⌉ r ≤ x := fun x => by
    rw [ceilDiv_le_iff_le_mul hr, Nat.mul_comm]
  have hlast : ∀ x, x * r < a + r * q ↔ x < a ⌈/⌉ r + q := by
    intro x
    have hshift : a ⌈/⌉ r ≤ x - q ↔ a ≤ r * (x - q) := ceilDiv_le_iff_le_mul hr
    rcases le_or_gt q x with hq | hq
    · obtain ⟨d, rfl⟩ := Nat.exists_eq_add_of_le hq
      rw [Nat.add_sub_cancel_left] at hshift
      have hexpand : (q + d) * r = r * d + r * q := by
        rw [Nat.mul_comm, Nat.mul_add, Nat.add_comm]
      omega
    · have hle : x * r < r * q := by
        rw [Nat.mul_comm x]
        exact Nat.mul_lt_mul_of_pos_left hq hr
      omega
  have hset : (Finset.range N).filter (fun x => a ≤ x * r ∧ x * r < a + r * q) =
      Finset.Ico (a ⌈/⌉ r) (a ⌈/⌉ r + q) := by
    ext x
    rw [Finset.mem_filter, Finset.mem_range, Finset.mem_Ico, hfirst, hlast]
    refine ⟨fun h => h.2, fun h => ⟨?_, h⟩⟩
    have hx : r * x < r * N := by
      rw [Nat.mul_comm]
      exact ((hlast x).2 h.2).trans_le hN
    exact Nat.lt_of_mul_lt_mul_left hx
  rw [hset, Nat.card_Ico, Nat.add_sub_cancel_left]

/-- **Scaling with rejection is exact**: every value is taken by equally many accepted draws. -/
lemma card_scaled {r N : ℕ} (hr : 0 < r) {k : ℕ} (hk : k < r) :
    ((Finset.range N).filter fun x => ¬x * r % N < N % r ∧ x * r / N = k).card = N / r := by
  rcases Nat.eq_zero_or_pos N with rfl | hN
  · simp
  have hlen : (k + 1) * N = k * N + N % r + r * (N / r) := by
    rw [Nat.add_assoc, Nat.mod_add_div, Nat.succ_mul]
  have hset : (Finset.range N).filter (fun x => ¬x * r % N < N % r ∧ x * r / N = k) =
      (Finset.range N).filter fun x =>
        k * N + N % r ≤ x * r ∧ x * r < k * N + N % r + r * (N / r) := by
    refine Finset.filter_congr fun x _ => ?_
    have hdiv := Nat.div_add_mod' (x * r) N
    have hlow := Nat.mod_lt (x * r) hN
    have hsucc : (k + 1) * N = k * N + N := Nat.succ_mul k N
    rw [← hlen]
    constructor
    · rintro ⟨haccept, hvalue⟩
      rw [hvalue] at hdiv
      omega
    · rintro ⟨hle, hlt⟩
      have hvalue : x * r / N = k := Nat.div_eq_of_lt_le (by omega) hlt
      rw [hvalue] at hdiv
      omega
  rw [hset, card_multiples hr]
  rw [← hlen]
  exact Nat.mul_le_mul_right N hk

end Cuore
