import Mathlib.Algebra.Ring.Int.Parity
import Mathlib.Data.Nat.ModEq
import Mathlib.Logic.Function.Iterate
import Mathlib.Tactic.LinearCombination
import Mathlib.Tactic.Ring

/-!
# Linear congruential generators modulo a power of two

`affine a c` is the step of a generator before it is reduced.  If `a` leaves one modulo four and
`c` is odd, a run of `2 ^ j` steps is again affine, and `doubling` gives its form: modulo
`2 ^ (j + 1)` it adds `2 ^ j` (`iterate_two_pow_modEq`).  A state that is right modulo `2 ^ j` is
therefore right modulo `2 ^ (j + 1)` at once or `2 ^ j` steps later, which is the induction of
`exists_iterate_modEq`: from every state the generator comes to every residue.

`exists_iterate_mod` states it for the reduced generator, as it stands in a program.
-/

namespace Cuore

/-- One step, not reduced. -/
def affine (a c x : ℕ) : ℕ := a * x + c

/-- Runs of `2 ^ j` steps are affine, with a multiplier near one and an increment divisible by
exactly `2 ^ j`. -/
lemma doubling {a c : ℕ} (ha : a % 4 = 1) (hc : c % 2 = 1) (j : ℕ) :
    ∃ s t : ℕ, ∀ x, (affine a c)^[2 ^ j] x =
      (1 + 2 ^ (j + 2) * s) * x + 2 ^ j * (1 + 2 * t) := by
  induction j with
  | zero =>
    refine ⟨a / 4, c / 2, fun x => ?_⟩
    have hmult : 1 + 2 ^ (0 + 2) * (a / 4) = a := by omega
    have hinc : 2 ^ 0 * (1 + 2 * (c / 2)) = c := by omega
    rw [hmult, hinc]
    rfl
  | succ j ih =>
    obtain ⟨s, t, hrun⟩ := ih
    refine ⟨s + 2 ^ (j + 1) * s * s, t + 2 ^ j * s * (1 + 2 * t), fun x => ?_⟩
    have hhalves : (affine a c)^[2 ^ (j + 1)] x =
        (affine a c)^[2 ^ j] ((affine a c)^[2 ^ j] x) := by
      rw [← Function.iterate_add_apply, ← Nat.mul_two, ← Nat.pow_succ]
    rw [hhalves, hrun, hrun]
    ring

/-- `2 ^ j` steps change the lowest bit that they leave unsettled. -/
lemma iterate_two_pow_modEq {a c : ℕ} (ha : a % 4 = 1) (hc : c % 2 = 1) (j x : ℕ) :
    (affine a c)^[2 ^ j] x ≡ x + 2 ^ j [MOD 2 ^ (j + 1)] := by
  obtain ⟨s, t, hrun⟩ := doubling ha hc j
  have hform : (affine a c)^[2 ^ j] x = x + 2 ^ j + 2 ^ (j + 1) * (2 * s * x + t) := by
    rw [hrun]
    ring
  rw [hform]
  exact Nat.add_modulus_mul_modEq_iff.2 rfl

/-- Right modulo `m` and wrong modulo `2 * m` is wrong by `m`. -/
lemma modEq_add_half {m y z : ℕ} (h : z ≡ y [MOD m]) (hnot : ¬z ≡ y [MOD 2 * m]) :
    z + m ≡ y [MOD 2 * m] := by
  rw [Nat.modEq_iff_dvd] at h hnot ⊢
  push_cast at h hnot ⊢
  obtain ⟨k, hk⟩ := h
  obtain ⟨i, rfl | rfl⟩ := Int.even_or_odd' k
  · exact absurd ⟨i, by rw [hk]; ring⟩ hnot
  · exact ⟨i, by linear_combination hk⟩

/-- **Full period**: from every state the generator comes to every residue. -/
lemma exists_iterate_modEq {a c : ℕ} (ha : a % 4 = 1) (hc : c % 2 = 1) (j x y : ℕ) :
    ∃ n, (affine a c)^[n] x ≡ y [MOD 2 ^ j] := by
  induction j with
  | zero => exact ⟨0, by rw [Nat.pow_zero]; exact Nat.modEq_one⟩
  | succ j ih =>
    obtain ⟨n, hn⟩ := ih
    -- the residue modulo `2 ^ (j + 1)` is that of `y` or off by half the modulus
    by_cases hnow : (affine a c)^[n] x ≡ y [MOD 2 ^ (j + 1)]
    · exact ⟨n, hnow⟩
    · refine ⟨2 ^ j + n, ?_⟩
      rw [Function.iterate_add_apply]
      refine (iterate_two_pow_modEq ha hc j _).trans ?_
      rw [Nat.pow_succ'] at hnow ⊢
      exact modEq_add_half hn hnow

/-- The reduced generator is the generator, reduced. -/
lemma iterate_affine_mod (a c n : ℕ) {x N : ℕ} (hx : x < N) :
    (fun x => affine a c x % N)^[n] x = (affine a c)^[n] x % N := by
  induction n with
  | zero => exact (Nat.mod_eq_of_lt hx).symm
  | succ n ih =>
    rw [Function.iterate_succ_apply', Function.iterate_succ_apply', ih]
    exact ((Nat.mod_modEq _ N).mul_left a).add_right c

/-- Full period of a generator that reduces at each step. -/
lemma exists_iterate_mod {a c : ℕ} (ha : a % 4 = 1) (hc : c % 2 = 1) (j : ℕ) {x y : ℕ}
    (hx : x < 2 ^ j) (hy : y < 2 ^ j) :
    ∃ n, (fun x => affine a c x % 2 ^ j)^[n] x = y := by
  obtain ⟨n, hn⟩ := exists_iterate_modEq ha hc j x y
  exact ⟨n, by rw [iterate_affine_mod a c n hx, ← Nat.mod_eq_of_lt hy]; exact hn⟩

end Cuore
