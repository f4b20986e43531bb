import Mathlib.Data.List.Nodup

/-!
# Threaded lists

A singly linked list whose nodes are threaded through some memory: each holds the number of the
one behind it, and zero ends the list.  The memory enters only as the function `next` from a node
to what it holds.

A threaded list is the only one from its first node (`Threaded.unique`), depends only on its own
nodes (`Threaded.congr`), and a node is put in front of it or taken off by one write.
-/

namespace Cuore

variable {next next' : ℕ → ℕ} {a s : ℕ} {l l' : List ℕ}

/-- The nodes `l` are threaded from `a` on. -/
def Threaded (next : ℕ → ℕ) : ℕ → List ℕ → Prop
  | a, [] => a = 0
  | a, s :: l => a = s ∧ s ≠ 0 ∧ Threaded next (next s) l

lemma Threaded.congr (h : Threaded next a l) (hnext : ∀ s ∈ l, next' s = next s) :
    Threaded next' a l := by
  induction l generalizing a with
  | nil => exact h
  | cons s l ih =>
    refine ⟨h.1, h.2.1, ?_⟩
    rw [hnext s (by simp)]
    exact ih h.2.2 fun t ht => hnext t (List.mem_cons_of_mem _ ht)

lemma Threaded.unique (h : Threaded next a l) (h' : Threaded next a l') : l = l' := by
  induction l generalizing a l' with
  | nil =>
    cases l' with
    | nil => rfl
    | cons t l' => exact absurd (h'.1.symm.trans h) h'.2.1
  | cons s l ih =>
    cases l' with
    | nil => exact absurd (h.1.symm.trans h') h.2.1
    | cons t l' =>
      obtain rfl : s = t := h.1.symm.trans h'.1
      rw [ih h.2.2 h'.2.2]

lemma Threaded.ne_zero (h : Threaded next a l) (hs : s ∈ l) : s ≠ 0 := by
  induction l generalizing a with
  | nil => exact absurd hs List.not_mem_nil
  | cons t l ih =>
    rcases List.mem_cons.mp hs with rfl | hs
    · exact h.2.1
    · exact ih h.2.2 hs

lemma Threaded.eq_nil_iff (h : Threaded next a l) : l = [] ↔ a = 0 := by
  cases l with
  | nil => exact ⟨fun _ => h, fun _ => rfl⟩
  | cons s l => simp [h.1, h.2.1]

/-- A node is written in front of a list. -/
lemma Threaded.push (h : Threaded next a l) (hs : s ≠ 0) (hlink : next' s = a)
    (hnext : ∀ t ∈ l, next' t = next t) : Threaded next' s (s :: l) :=
  ⟨rfl, hs, hlink ▸ h.congr hnext⟩

/-- A node inside a list is skipped: the one before it gets the one behind it. -/
lemma Threaded.skip {k : ℕ} {K R : List ℕ} (h : Threaded next a (K ++ k :: s :: R))
    (hlink : next' k = next s) (hnext : ∀ t ∈ K ++ R, next' t = next t) :
    Threaded next' a (K ++ k :: R) := by
  induction K generalizing a with
  | nil =>
    refine ⟨h.1, h.2.1, ?_⟩
    rw [hlink]
    exact h.2.2.2.2.congr fun t ht => hnext t (by simpa using ht)
  | cons t K ih =>
    refine ⟨h.1, h.2.1, ?_⟩
    rw [hnext t (by simp)]
    exact ih h.2.2 fun u hu =>
      hnext u (by simp only [List.cons_append, List.mem_cons]; exact .inr hu)

end Cuore
