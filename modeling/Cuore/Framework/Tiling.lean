import Mathlib.Order.Nat
import Mathlib.Data.List.Pairwise

/-!
# Tilings

A stretch of numbers is tiled by a list of pieces when the first piece starts where the stretch
does, each other one where the one before it stops, and the last one stops where the stretch
does.  The pieces may be of any type; `start` and `stop` say where they lie.

Tilings compose (`tiles_append`), so a part of a tiling can be exchanged for another tiling of the
same stretch (`Tiles.replace`).  Pieces of a tiling lie inside the stretch (`Tiles.bounds`) and
behind one another (`Tiles.pairwise`).
-/

namespace Cuore

variable {α : Type*} (start stop : α → ℕ)

/-- The pieces `l` follow one another from `a` to `z`. -/
def Tiles : ℕ → List α → ℕ → Prop
  | a, [], z => a = z
  | a, x :: l, z => start x = a ∧ Tiles (stop x) l z

variable {start stop} {a z : ℕ} {x : α} {l l₁ l₂ m m' : List α}

lemma tiles_append :
    Tiles start stop a (l₁ ++ l₂) z ↔ ∃ p, Tiles start stop a l₁ p ∧ Tiles start stop p l₂ z := by
  induction l₁ generalizing a with
  | nil => simp [Tiles]
  | cons x l ih => simp only [List.cons_append, Tiles, ih, and_assoc, exists_and_left]

/-- A part of a tiling is exchanged for other pieces that tile the same stretch. -/
lemma Tiles.replace (h : Tiles start stop a (l₁ ++ m ++ l₂) z)
    (hm : ∀ p q, Tiles start stop p m q → Tiles start stop p m' q) :
    Tiles start stop a (l₁ ++ m' ++ l₂) z := by
  simp only [tiles_append] at h ⊢
  obtain ⟨q, ⟨p, h₁, hmid⟩, h₂⟩ := h
  exact ⟨q, ⟨p, h₁, hm p q hmid⟩, h₂⟩

/-- Every piece starts where the ones before it stop. -/
lemma Tiles.split (h : Tiles start stop a (l₁ ++ x :: l₂) z) :
    Tiles start stop a l₁ (start x) ∧ Tiles start stop (stop x) l₂ z := by
  obtain ⟨p, h₁, hx, h₂⟩ := tiles_append.mp h
  exact ⟨hx ▸ h₁, h₂⟩

section Sizes

variable (hle : ∀ x : α, start x ≤ stop x)
include hle

lemma Tiles.le (h : Tiles start stop a l z) : a ≤ z := by
  induction l generalizing a with
  | nil => exact le_of_eq h
  | cons x l ih => exact h.1 ▸ (hle x).trans (ih h.2)

lemma Tiles.bounds (h : Tiles start stop a l z) (hx : x ∈ l) : a ≤ start x ∧ stop x ≤ z := by
  obtain ⟨l₁, l₂, rfl⟩ := List.append_of_mem hx
  obtain ⟨h₁, h₂⟩ := h.split
  exact ⟨h₁.le hle, h₂.le hle⟩

lemma Tiles.pairwise (h : Tiles start stop a l z) :
    l.Pairwise fun x y => stop x ≤ start y := by
  induction l generalizing a with
  | nil => exact .nil
  | cons x l ih => exact .cons (fun y hy => (h.2.bounds hle hy).1) (ih h.2)

end Sizes

end Cuore
