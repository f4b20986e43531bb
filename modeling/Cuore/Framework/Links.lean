import Mathlib.Data.List.Basic

/-!
# Doubly linked lists

A list of nodes laid out in some memory, where every node knows the address of the one before and
the one behind it.  The memory enters only through a relation `node p a q`: the node `a` is in
memory with `p` before it and `q` behind it.

`Linked addr node p l q` says that the nodes `l` are linked, with `p` before the first and `q`
behind the last; an address of zero can stand for the end of the list.  Segments compose
(`linked_append`), depend only on their own nodes (`Linked.mono`), and are changed at their two
ends by one pointer (`Linked.relinkFirst`, `Linked.relinkLast`).
-/

namespace Cuore

variable {α : Type*} (addr : α → ℕ)

/-- The address of the first node, or `q` if there is none. -/
def firstAddr : List α → ℕ → ℕ
  | [], q => q
  | a :: _, _ => addr a

/-- The address of the last node, or `p` if there is none. -/
def lastAddr : ℕ → List α → ℕ
  | p, [] => p
  | _, a :: l => lastAddr (addr a) l

/-- The nodes `l` are linked both ways, between `p` and `q`. -/
def Linked (node : ℕ → α → ℕ → Prop) : ℕ → List α → ℕ → Prop
  | _, [], _ => True
  | p, a :: l, q => node p a (firstAddr addr l q) ∧ Linked node (addr a) l q

variable {addr} {node node' : ℕ → α → ℕ → Prop} {p p' q q' : ℕ} {a : α} {l l₁ l₂ : List α}

lemma firstAddr_append : firstAddr addr (l₁ ++ l₂) q = firstAddr addr l₁ (firstAddr addr l₂ q) := by
  cases l₁ <;> rfl

lemma lastAddr_append : lastAddr addr p (l₁ ++ l₂) = lastAddr addr (lastAddr addr p l₁) l₂ := by
  induction l₁ generalizing p with
  | nil => rfl
  | cons a l ih => exact ih

lemma lastAddr_append_singleton : lastAddr addr p (l ++ [a]) = addr a := lastAddr_append

/-- Two segments, joined at their ends. -/
lemma linked_append : Linked addr node p (l₁ ++ l₂) q ↔
    Linked addr node p l₁ (firstAddr addr l₂ q) ∧ Linked addr node (lastAddr addr p l₁) l₂ q := by
  induction l₁ generalizing p with
  | nil => simp [Linked, lastAddr]
  | cons a l ih =>
    simp only [List.cons_append, Linked, lastAddr, firstAddr_append, ih, and_assoc]

lemma Linked.mono (h : Linked addr node p l q)
    (hnode : ∀ a ∈ l, ∀ p q, node p a q → node' p a q) : Linked addr node' p l q := by
  induction l generalizing p with
  | nil => trivial
  | cons a l ih =>
    exact ⟨hnode a (by simp) _ _ h.1, ih h.2 fun b hb => hnode b (List.mem_cons_of_mem _ hb)⟩

/-- The pointer of the first node to the one before it has been changed. -/
lemma Linked.relinkFirst (h : Linked addr node p (a :: l) q)
    (hfirst : ∀ q, node p a q → node' p' a q)
    (hnode : ∀ b ∈ l, ∀ p q, node p b q → node' p b q) : Linked addr node' p' (a :: l) q :=
  ⟨hfirst _ h.1, h.2.mono hnode⟩

/-- The pointer of the last node to the one behind it has been changed. -/
lemma Linked.relinkLast (h : Linked addr node p (l ++ [a]) q)
    (hlast : ∀ p, node p a q → node' p a q')
    (hnode : ∀ b ∈ l, ∀ p q, node p b q → node' p b q) : Linked addr node' p (l ++ [a]) q' := by
  rw [linked_append] at h ⊢
  exact ⟨h.1.mono hnode, hlast _ h.2.1, trivial⟩

/-- A node in the list is in memory, between its neighbours. -/
lemma Linked.between (h : Linked addr node p (l₁ ++ a :: l₂) q) :
    node (lastAddr addr p l₁) a (firstAddr addr l₂ q) :=
  (linked_append.mp h).2.1

lemma lastAddr_mem (h : lastAddr addr 0 l ≠ 0) :
    ∃ l' a, l = l' ++ [a] ∧ lastAddr addr 0 l = addr a := by
  rcases List.eq_nil_or_concat l with rfl | ⟨l', a, rfl⟩
  · exact absurd rfl h
  · exact ⟨l', a, List.concat_eq_append, by rw [List.concat_eq_append, lastAddr_append_singleton]⟩

end Cuore
