import Mathlib.Data.Int.Notation
import Mathlib.Data.Nat.Notation
import Mathlib.Order.Lattice

/-!
# Bisection with signed bounds

`bisect` searches the indices from `low` to `high`, both included, for a key.  The bounds are
signed, since the upper one passes below zero when the key is less than all others.  On keys that
increase, it finds an index exactly if that has the key (`bisect_eq_some_iff`).
-/

namespace Cuore

variable {α : Type*} [LinearOrder α] {key : ℕ → α} {x : α} {n fuel i : ℕ} {low high : ℤ}

/-- Bisection.  It ends within as many rounds as there are indices, and one. -/
def bisect (key : ℕ → α) (x : α) : ℕ → ℤ → ℤ → Option ℕ
  | 0, _, _ => none
  | fuel + 1, low, high =>
    if low ≤ high then
      let mid := low + (high - low) / 2
      if key mid.toNat = x then some mid.toNat
      else if key mid.toNat < x then bisect key x fuel (mid + 1) high
      else bisect key x fuel low (mid - 1)
    else none

/-- What is found has the key and is within the bounds. -/
lemma key_of_bisect (h : bisect key x fuel low high = some i) (hlow : 0 ≤ low) :
    key i = x ∧ (i : ℤ) ≤ high := by
  induction fuel generalizing low high with
  | zero => cases h
  | succ fuel ih =>
    rw [bisect] at h
    dsimp only at h
    split_ifs at h with hle heq hlt
    · cases h
      exact ⟨heq, by omega⟩
    · exact ih h (by omega)
    · obtain ⟨hkey, hi⟩ := ih h hlow
      exact ⟨hkey, by omega⟩

/-- An index that has the key is found. -/
lemma bisect_of_key (hkey : ∀ i j, i < j → j < n → key i < key j) (hi : i < n) (hx : key i = x)
    (hlow : 0 ≤ low) (hli : low ≤ i) (hih : i ≤ high) (hhigh : high < n)
    (hfuel : high - low + 1 ≤ fuel) : bisect key x fuel low high = some i := by
  induction fuel generalizing low high with
  | zero => omega
  | succ fuel ih =>
    rw [bisect, if_pos (by omega)]
    dsimp only
    obtain ⟨mid, hmid⟩ : ∃ mid : ℕ, low + (high - low) / 2 = mid :=
      ⟨(low + (high - low) / 2).toNat, by omega⟩
    rw [hmid, Int.toNat_natCast]
    rcases Nat.lt_trichotomy mid i with hlt | rfl | hlt
    · have hbelow : key mid < x := hx ▸ hkey mid i hlt hi
      rw [if_neg hbelow.ne, if_pos hbelow]
      exact ih (by omega) (by omega) hih hhigh (by omega)
    · rw [if_pos hx]
    · have habove : x < key mid := hx ▸ hkey i mid hlt (by omega)
      rw [if_neg habove.ne', if_neg habove.not_gt]
      exact ih hlow hli (by omega) (by omega) (by omega)

/-- **Bisection finds the index that has the key**, if there is one. -/
lemma bisect_eq_some_iff (hkey : ∀ i j, i < j → j < n → key i < key j) (hfuel : n ≤ fuel) :
    bisect key x fuel 0 ((n : ℤ) - 1) = some i ↔ i < n ∧ key i = x := by
  constructor
  · intro h
    obtain ⟨hx, hle⟩ := key_of_bisect h (Int.le_refl 0)
    exact ⟨by omega, hx⟩
  · rintro ⟨hi, hx⟩
    exact bisect_of_key hkey hi hx (Int.le_refl 0) (by omega) (by omega) (by omega) (by omega)

end Cuore
