import Mathlib.Order.Bounds.Basic
import Mathlib.Data.List.Pairwise

/-!
# First fit

Pieces lie on a line, one behind the other, and `size` numbers are to be placed between them, at a
place that is `ok` (aligned, say).  `scanFit` looks at the gap in front of each piece, from `base`
on, and tries the least place in it; `round` computes that.

What it finds is the least place of all (`isLeast_of_scanFit`).  When it finds none, the least place
is behind the last piece (`isLeast_of_scanFit_none`).
-/

namespace Cuore

variable {α : Type*} {start limit : α → ℕ} {round : ℕ → ℕ} {ok : ℕ → Prop} {size base a : ℕ}
  {x : α} {l l₁ l₂ : List α}

/-- `round b` is the least place at `b` or behind it. -/
def Rounds (round : ℕ → ℕ) (ok : ℕ → Prop) (b : ℕ) : Prop := IsLeast {a | ok a ∧ b ≤ a} (round b)

/-- The numbers from `a` on are in no piece. -/
def Vacant (start limit : α → ℕ) (size : ℕ) (l : List α) (a : ℕ) : Prop :=
  ∀ x ∈ l, limit x ≤ a ∨ a + size ≤ start x

/-- The first gap in front of a piece in which there is a place. -/
def scanFit (start limit : α → ℕ) (round : ℕ → ℕ) (size : ℕ) : ℕ → List α → Option ℕ
  | _, [] => none
  | base, x :: l =>
    if round base + size ≤ start x then some (round base)
    else scanFit start limit round size (limit x) l

/-- Where the last piece ends. -/
def lastLimit (limit : α → ℕ) : ℕ → List α → ℕ
  | base, [] => base
  | _, x :: l => lastLimit limit (limit x) l

lemma scanFit_cons_of_fits (h : round base + size ≤ start x) :
    scanFit start limit round size base (x :: l) = some (round base) := if_pos h

lemma scanFit_cons_of_not (h : ¬ round base + size ≤ start x) :
    scanFit start limit round size base (x :: l) = scanFit start limit round size (limit x) l :=
  if_neg h

/-- The gaps in front of the first pieces come first. -/
lemma scanFit_append : scanFit start limit round size base (l₁ ++ l₂) =
    (scanFit start limit round size base l₁).or
      (scanFit start limit round size (lastLimit limit base l₁) l₂) := by
  induction l₁ generalizing base with
  | nil => rfl
  | cons x l ih =>
    simp only [List.cons_append, scanFit, lastLimit]
    split_ifs
    · rfl
    · exact ih

lemma lastLimit_append : lastLimit limit base (l₁ ++ l₂) =
    lastLimit limit (lastLimit limit base l₁) l₂ := by
  induction l₁ generalizing base with
  | nil => rfl
  | cons x l ih => exact ih

lemma lastLimit_mem :
    lastLimit limit base l = base ∨ ∃ x ∈ l, lastLimit limit base l = limit x := by
  induction l generalizing base with
  | nil => exact .inl rfl
  | cons x l ih =>
    rcases @ih (limit x) with h | ⟨y, hy, h⟩
    · exact .inr ⟨x, by simp, h⟩
    · exact .inr ⟨y, by simp [hy], h⟩

lemma lastLimit_of_getLast (h : x ∈ l.getLast?) : lastLimit limit base l = limit x := by
  obtain ⟨l', rfl⟩ := List.getLast?_eq_some_iff.mp h
  rw [lastLimit_append]
  rfl

section Sorted

variable (hle : ∀ x ∈ l, start x ≤ limit x) (hsorted : l.Pairwise fun x y => limit x ≤ start y)
  (hbase : ∀ x ∈ l, base ≤ start x)
include hle hsorted

/-- All pieces end where the last one does, or before. -/
lemma limit_le_lastLimit (hx : x ∈ l) : limit x ≤ lastLimit limit base l := by
  induction l generalizing base with
  | nil => exact absurd hx List.not_mem_nil
  | cons y l ih =>
    obtain ⟨hyl, hl⟩ := List.pairwise_cons.mp hsorted
    have hle' : ∀ z ∈ l, start z ≤ limit z := fun z hz => hle z (by simp [hz])
    rcases List.mem_cons.mp hx with rfl | hx
    · change limit x ≤ lastLimit limit (limit x) l
      rcases @lastLimit_mem _ limit (limit x) l with h | ⟨z, hz, h⟩
      · exact h.ge
      · rw [h]
        exact (hyl z hz).trans (hle' z hz)
    · exact ih hle' hl hx

include hbase

/-- **What the scan finds is the least place.** -/
lemma isLeast_of_scanFit (hround : Rounds round ok base)
    (hrounds : ∀ x ∈ l, Rounds round ok (limit x))
    (h : scanFit start limit round size base l = some a) :
    IsLeast {a | ok a ∧ base ≤ a ∧ Vacant start limit size l a} a := by
  induction l generalizing base with
  | nil => exact absurd h (by simp [scanFit])
  | cons x l ih =>
    obtain ⟨hxl, hl⟩ := List.pairwise_cons.mp hsorted
    have hle' : ∀ z ∈ l, start z ≤ limit z := fun z hz => hle z (by simp [hz])
    have hx := hle x (by simp)
    by_cases hfit : round base + size ≤ start x
    · rw [scanFit_cons_of_fits hfit] at h
      obtain rfl := Option.some.inj h
      refine ⟨⟨hround.1.1, hround.1.2, fun y hy => .inr ?_⟩, fun b hb => hround.2 ⟨hb.1, hb.2.1⟩⟩
      rcases List.mem_cons.mp hy with rfl | hy
      · exact hfit
      · exact hfit.trans (hx.trans (hxl y hy))
    · rw [scanFit_cons_of_not hfit] at h
      obtain ⟨⟨hok, hbelow, hfits⟩, hleast⟩ := ih hle' hl hxl (hrounds x (by simp))
        (fun y hy => hrounds y (by simp [hy])) h
      refine ⟨⟨hok, (hbase x (by simp)).trans (hx.trans hbelow), fun y hy => ?_⟩, fun b hb => ?_⟩
      · rcases List.mem_cons.mp hy with rfl | hy
        · exact .inl hbelow
        · exact hfits y hy
      · obtain ⟨hbok, hbb, hbfits⟩ := hb
        refine hleast ⟨hbok, ?_, fun y hy => hbfits y (by simp [hy])⟩
        -- a place in front of `x` would have been found
        refine (hbfits x (by simp)).resolve_right fun hbx => hfit ?_
        have := hround.2 ⟨hbok, hbb⟩
        omega

/-- **Without a gap, the least place is behind all pieces.** -/
lemma isLeast_of_scanFit_none (hround : Rounds round ok base)
    (hrounds : ∀ x ∈ l, Rounds round ok (limit x))
    (h : scanFit start limit round size base l = none) :
    IsLeast {a | ok a ∧ base ≤ a ∧ Vacant start limit size l a}
      (round (lastLimit limit base l)) := by
  induction l generalizing base with
  | nil => exact ⟨⟨hround.1.1, hround.1.2, by simp [Vacant]⟩, fun b hb => hround.2 ⟨hb.1, hb.2.1⟩⟩
  | cons x l ih =>
    obtain ⟨hxl, hl⟩ := List.pairwise_cons.mp hsorted
    have hle' : ∀ z ∈ l, start z ≤ limit z := fun z hz => hle z (by simp [hz])
    have hfit : ¬ round base + size ≤ start x := fun hfit => by
      rw [scanFit_cons_of_fits hfit] at h
      exact absurd h (by simp)
    rw [scanFit_cons_of_not hfit] at h
    obtain ⟨⟨hok, hbelow, hfits⟩, hleast⟩ := ih hle' hl hxl (hrounds x (by simp))
      (fun y hy => hrounds y (by simp [hy])) h
    refine ⟨⟨hok, (hbase x (by simp)).trans ((hle x (by simp)).trans hbelow), fun y hy => ?_⟩,
      fun b hb => ?_⟩
    · rcases List.mem_cons.mp hy with rfl | hy
      · exact .inl hbelow
      · exact hfits y hy
    · obtain ⟨hbok, hbb, hbfits⟩ := hb
      refine hleast ⟨hbok, ?_, fun y hy => hbfits y (by simp [hy])⟩
      refine (hbfits x (by simp)).resolve_right fun hbx => hfit ?_
      have := hround.2 ⟨hbok, hbb⟩
      omega

end Sorted

end Cuore
