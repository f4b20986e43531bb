import Mathlib.Data.List.Chain
import Mathlib.Order.Bounds.Basic
import Mathlib.Order.Lattice

/-!
# Gaps between neighbours

The elements of a list are laid out one behind the other, and `gap x y` measures the room between an
element and the one behind it.  `largestGap` is the largest room between two neighbours.  Trees that
cache it compute it from the parts of a list: `largestGap_append_cons` splits it at an element, whose
gaps to either side are `gapBefore` and `gapBehind`.
-/

namespace Cuore

variable {α : Type*} {gap : α → α → ℕ} {x : α} {l r : List α}

/-- The largest gap between neighbours, zero if there are none. -/
def largestGap (gap : α → α → ℕ) : List α → ℕ
  | x :: y :: l => max (gap x y) (largestGap gap (y :: l))
  | _ => 0

/-- The gap from the last element of a list to an element behind the list. -/
def gapBefore (gap : α → α → ℕ) (l : List α) (x : α) : ℕ := (l.getLast?.map (gap · x)).getD 0

/-- The gap from an element to the first one of the list behind it. -/
def gapBehind (gap : α → α → ℕ) (x : α) (r : List α) : ℕ := (r.head?.map (gap x)).getD 0

lemma largestGap_cons : largestGap gap (x :: r) = max (gapBehind gap x r) (largestGap gap r) := by
  cases r with
  | nil => simp [largestGap, gapBehind]
  | cons y r => rfl

/-- **A list with an element in the middle**: its gaps are those of the two parts, and those of the
element to them. -/
lemma largestGap_append_cons : largestGap gap (l ++ x :: r) =
    max (max (largestGap gap l) (largestGap gap r)) (max (gapBefore gap l x) (gapBehind gap x r)) := by
  induction l with
  | nil => simp [largestGap, gapBefore, largestGap_cons, max_comm]
  | cons y l ih =>
    rw [List.cons_append, largestGap_cons, ih, largestGap_cons]
    cases l with
    | nil => simp [largestGap, gapBefore, gapBehind, max_left_comm]
    | cons z l => simp [gapBefore, gapBehind, max_assoc]

/-- Without two elements there is no gap. -/
lemma largestGap_of_length_lt (h : l.length < 2) : largestGap gap l = 0 := by
  match l, h with
  | [], _ => rfl
  | [_], _ => rfl

/-- No gap is larger. -/
lemma isChain_largestGap (l : List α) : l.IsChain fun x y => gap x y ≤ largestGap gap l := by
  induction l with
  | nil => exact List.isChain_nil
  | cons x r ih =>
    have hle : largestGap gap r ≤ largestGap gap (x :: r) := by
      rw [largestGap_cons]
      exact le_max_right _ _
    cases r with
    | nil => exact List.isChain_singleton x
    | cons y r => exact List.isChain_cons_cons.mpr ⟨le_max_left _ _, ih.imp fun _ _ h => h.trans hle⟩

/-- **It is the greatest gap** between neighbours. -/
lemma isGreatest_largestGap (h : 2 ≤ l.length) :
    IsGreatest {g | ∃ l₁ x y l₂, l = l₁ ++ x :: y :: l₂ ∧ gap x y = g} (largestGap gap l) := by
  refine ⟨?_, ?_⟩
  · induction l with
    | nil => exact absurd h (by simp)
    | cons x r ih =>
      match r with
      | [] => exact absurd h (by simp)
      | [y] => exact ⟨[], x, y, [], rfl, by simp [largestGap]⟩
      | y :: z :: r =>
        rcases le_total (largestGap gap (y :: z :: r)) (gap x y) with hle | hle
        · exact ⟨[], x, y, z :: r, rfl, (max_eq_left hle).symm⟩
        · obtain ⟨l₁, a, b, l₂, hl, hab⟩ := ih (by simp)
          exact ⟨x :: l₁, a, b, l₂, by rw [hl, List.cons_append],
            hab.trans (max_eq_right hle).symm⟩
  · rintro g ⟨l₁, x, y, l₂, hl, rfl⟩
    exact List.isChain_iff_forall_rel_of_append_cons_cons.mp (isChain_largestGap l) hl

end Cuore
