import Mathlib.Data.List.Basic
import Mathlib.Data.List.GetD
import Mathlib.Data.List.Range
import Mathlib.Data.Nat.ModEq

/-!
# Windows on a circular buffer

A circular buffer of `n` cells is a function on positions below `n`.  `ringView n buf start k` is
what a reader sees who starts at `start` and reads `k` cells, back to position zero behind the
last one.

A view splits at any point (`ringView_add`) and depends only on its own cells
(`ringView_congr`); cells less than `n` apart are distinct (`ring_pos_ne`), so a view is not
disturbed by writing to the cells behind it.  `ringWrite` is such a write, of a list of cells that
goes on at position zero behind the last one.
-/

namespace Cuore

variable {α : Type*} {n : ℕ} {buf buf' : ℕ → α} {start : ℕ}

/-- The `k` cells from `start` on. -/
def ringView (n : ℕ) (buf : ℕ → α) (start k : ℕ) : List α :=
  (List.range k).map fun i => buf ((start + i) % n)

@[simp] lemma length_ringView (k : ℕ) : (ringView n buf start k).length = k := by
  rw [ringView, List.length_map, List.length_range]

lemma ringView_congr {k : ℕ} (h : ∀ i < k, buf' ((start + i) % n) = buf ((start + i) % n)) :
    ringView n buf' start k = ringView n buf start k :=
  List.map_congr_left fun i hi => h i (List.mem_range.mp hi)

/-- A view splits into two, at any point. -/
lemma ringView_add (j k : ℕ) : ringView n buf start (j + k) =
    ringView n buf start j ++ ringView n buf ((start + j) % n) k := by
  rw [ringView, List.range_add, List.map_append, List.map_map]
  congr 1
  refine List.map_congr_left fun i _ => ?_
  simp only [Function.comp_apply]
  rw [Nat.mod_add_mod, Nat.add_assoc]

lemma drop_ringView {j k : ℕ} (h : j ≤ k) :
    (ringView n buf start k).drop j = ringView n buf ((start + j) % n) (k - j) := by
  conv_lhs => rw [← Nat.add_sub_of_le h, ringView_add]
  exact List.drop_left' (length_ringView j)

lemma ringView_succ (k : ℕ) :
    ringView n buf start (k + 1) = ringView n buf start k ++ [buf ((start + k) % n)] := by
  rw [ringView, List.range_succ, List.map_append]
  rfl

/-- Cells less than a whole turn apart are distinct. -/
lemma ring_pos_ne {i j : ℕ} (hij : i < j) (hj : j < i + n) :
    (start + i) % n ≠ (start + j) % n := by
  intro h
  have hdvd : n ∣ start + j - (start + i) := (Nat.modEq_iff_dvd' (by omega)).mp h
  rw [Nat.add_sub_add_left] at hdvd
  exact absurd (Nat.le_of_dvd (by omega) hdvd) (by omega)

/-- The cells from `start` on overwritten with a list. -/
def ringWrite (n : ℕ) (buf : ℕ → α) (start : ℕ) (cells : List α) : ℕ → α := fun x =>
  if x < n then cells.getD ((x + (n - start % n)) % n) (buf x) else buf x

lemma ringWrite_mod {cells : List α} :
    ringWrite n buf (start % n) cells = ringWrite n buf start cells := by
  funext x
  rw [ringWrite, ringWrite, Nat.mod_mod]

/-- The distance of a position from the start. -/
lemma ring_distance {j : ℕ} (hj : j < n) : ((start + j) % n + (n - start % n)) % n = j := by
  have hstart := Nat.mod_lt start (Nat.zero_lt_of_lt hj)
  have hsplit := Nat.div_add_mod start n
  have hsum : start + j + (n - start % n) = j + n * (start / n + 1) := by
    rw [Nat.mul_add, Nat.mul_one]
    omega
  rw [Nat.mod_add_mod, hsum, Nat.add_mul_mod_self_left, Nat.mod_eq_of_lt hj]

lemma ringWrite_inside {cells : List α} {k : ℕ} (hk : k < cells.length) (hlen : cells.length ≤ n) :
    ringWrite n buf start cells ((start + k) % n) = cells[k] := by
  have hn : 0 < n := by omega
  rw [ringWrite, if_pos (Nat.mod_lt _ hn), ring_distance (by omega), List.getD_eq_getElem _ _ hk]

lemma ringWrite_outside {cells : List α} {j : ℕ} (hj : cells.length ≤ j) (hn : j < n) :
    ringWrite n buf start cells ((start + j) % n) = buf ((start + j) % n) := by
  rw [ringWrite, if_pos (Nat.mod_lt _ (by omega)), ring_distance hn, List.getD_eq_default _ _ hj]

lemma ringWrite_of_le {cells : List α} {x : ℕ} (hx : n ≤ x) :
    ringWrite n buf start cells x = buf x :=
  if_neg (by omega)

end Cuore
