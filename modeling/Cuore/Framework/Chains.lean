import Cuore.Framework.Links
import Mathlib.Logic.Function.Basic
import Mathlib.Data.List.Nodup

/-!
# Families of doubly linked lists in one store of links

Allocators and schedulers keep their nodes in many lists at once, a bucket for each class of nodes.
The links of all nodes are in one store, `prev` and `next`, and every bucket `k` has a head and a
sentinel `null k` that ends its list on both sides.  Buckets may share a sentinel, whose own links
are of no consequence.

`Chains null prev next head L` says that the buckets hold the lists `L`.  `Chains.push` and
`Chains.remove` are the two edits, with the writes in the order in which programs make them;
`Chains.congr` says that only the links of the nodes in the lists matter.
-/

namespace Cuore

open Function

variable {κ : Type*}

/-- The buckets hold the lists `L`. -/
structure Chains (null : κ → ℕ) (prev next : ℕ → ℕ) (head : κ → ℕ) (L : κ → List ℕ) : Prop where
  head_eq : ∀ k, head k = firstAddr id (L k) (null k)
  linked : ∀ k, Linked id (fun p a q => prev a = p ∧ next a = q) (null k) (L k) (null k)
  nodup : ∀ k, (L k).Nodup
  apart : ∀ k k' a, a ∈ L k → a ∈ L k' → k = k'
  null_not_mem : ∀ k k', null k ∉ L k'

lemma firstAddr_mem_or {l : List ℕ} {q : ℕ} : firstAddr id l q ∈ l ∨ firstAddr id l q = q := by
  cases l with
  | nil => exact .inr rfl
  | cons a l => exact .inl (by simp [firstAddr])

lemma lastAddr_mem_or {l : List ℕ} {p : ℕ} : lastAddr id p l ∈ l ∨ lastAddr id p l = p := by
  rcases List.eq_nil_or_concat' l with rfl | ⟨l, a, rfl⟩
  · exact .inr rfl
  · exact .inl (by simp [lastAddr_append_singleton])

variable {null : κ → ℕ} {prev next prev' next' : ℕ → ℕ} {head : κ → ℕ} {L : κ → List ℕ} {k : κ}
  {a : ℕ} {l₁ l₂ : List ℕ}

/-- Only the links of the nodes in the lists matter. -/
lemma Chains.congr (h : Chains null prev next head L)
    (hprev : ∀ k, ∀ a ∈ L k, prev' a = prev a) (hnext : ∀ k, ∀ a ∈ L k, next' a = next a) :
    Chains null prev' next' head L where
  head_eq := h.head_eq
  linked k := (h.linked k).mono fun a ha _ _ hn =>
    ⟨(hprev k a ha).trans hn.1, (hnext k a ha).trans hn.2⟩
  nodup := h.nodup
  apart := h.apart
  null_not_mem := h.null_not_mem

/-- A bucket is empty exactly if its head is the sentinel. -/
lemma Chains.head_eq_null (h : Chains null prev next head L) : head k = null k ↔ L k = [] := by
  rw [h.head_eq]
  cases hl : L k with
  | nil => simp [firstAddr]
  | cons a l =>
    simp only [firstAddr, id_eq, reduceCtorEq, iff_false]
    rintro rfl
    exact h.null_not_mem k k (by simp [hl])

/-- The links of a node in a list. -/
lemma Chains.links (h : Chains null prev next head L) (hk : L k = l₁ ++ a :: l₂) :
    prev a = lastAddr id (null k) l₁ ∧ next a = firstAddr id l₂ (null k) := by
  have := h.linked k
  rw [hk] at this
  exact this.between

/-- The links forward determine a list that ends at a sentinel. -/
lemma Linked.eq_of_firstAddr {e p p' : ℕ} {l l' : List ℕ}
    (h : Linked id (fun p a q => prev a = p ∧ next a = q) p l e)
    (h' : Linked id (fun p a q => prev a = p ∧ next a = q) p' l' e) (hl : e ∉ l) (hl' : e ∉ l')
    (hfirst : firstAddr id l e = firstAddr id l' e) : l = l' := by
  induction l generalizing p p' l' with
  | nil =>
    cases l' with
    | nil => rfl
    | cons a l' => exact absurd (show e = a from hfirst) (List.ne_of_not_mem_cons hl')
  | cons a l ih =>
    cases l' with
    | nil => exact absurd (show e = a from hfirst.symm) (List.ne_of_not_mem_cons hl)
    | cons b l' =>
      obtain rfl : a = b := hfirst
      have hnext := h.1.2.symm.trans h'.1.2
      rw [ih h.2 h'.2 (List.not_mem_of_not_mem_cons hl) (List.not_mem_of_not_mem_cons hl') hnext]

/-! ## One list, and writes to the links -/

section Writes

variable {p p' q q' x y v w : ℕ} {l : List ℕ}

/-- Writes to nodes elsewhere. -/
lemma Linked.updateOff (h : Linked id (fun p b q => prev b = p ∧ next b = q) p l q) (hx : x ∉ l)
    (hy : y ∉ l) :
    Linked id (fun p b q => update prev x v b = p ∧ update next y w b = q) p l q := by
  refine h.mono fun b hb p q hpq => ⟨?_, ?_⟩
  · rw [update_of_ne (ne_of_mem_of_not_mem hb hx)]
    exact hpq.1
  · rw [update_of_ne (ne_of_mem_of_not_mem hb hy)]
    exact hpq.2

/-- A write to the last node, and one elsewhere. -/
lemma Linked.updateLast (h : Linked id (fun p b q => prev b = p ∧ next b = q) p l q)
    (hnd : l.Nodup) (hx : x ∉ l) :
    Linked id (fun p' b q => update prev x v b = p' ∧ update next (lastAddr id p l) q' b = q) p l
      q' := by
  rcases List.eq_nil_or_concat' l with rfl | ⟨l, b, rfl⟩
  · trivial
  rw [lastAddr_append_singleton]
  have hprev : ∀ c ∈ l ++ [b], update prev x v c = prev c := fun c hc =>
    update_of_ne (ne_of_mem_of_not_mem hc hx) _ _
  refine h.relinkLast (fun p hp => ⟨?_, update_self ..⟩) fun c hc p q hpq => ⟨?_, ?_⟩
  · rw [hprev b (by simp)]
    exact hp.1
  · rw [hprev c (by simp [hc])]
    exact hpq.1
  · rw [update_of_ne]
    · exact hpq.2
    · rintro rfl
      simp only [List.nodup_append, List.mem_singleton] at hnd
      exact hnd.2.2 c hc c rfl rfl

/-- A write to the first node, and one elsewhere. -/
lemma Linked.updateFirst (h : Linked id (fun p b q => prev b = p ∧ next b = q) p l q)
    (hnd : l.Nodup) (hx : x ∉ l) :
    Linked id (fun p b q' => update prev (firstAddr id l q) p' b = p ∧ update next x v b = q') p' l
      q := by
  cases l with
  | nil => trivial
  | cons b l =>
    have hnext : ∀ c ∈ b :: l, update next x v c = next c := fun c hc =>
      update_of_ne (ne_of_mem_of_not_mem hc hx) _ _
    rw [List.nodup_cons] at hnd
    refine h.relinkFirst (fun q hq => ⟨update_self .., ?_⟩) fun c hc p q hpq => ⟨?_, ?_⟩
    · rw [hnext b (by simp)]
      exact hq.2
    · rw [update_of_ne]
      · exact hpq.1
      · rintro rfl
        exact hnd.1 hc
    · rw [hnext c (by simp [hc])]
      exact hpq.2

end Writes

/-! ## The edits -/

variable {k' : κ} {b : ℕ}

/-- The first node of a bucket, or its sentinel, is in no other bucket. -/
lemma Chains.firstAddr_not_mem (h : Chains null prev next head L) (hk : L k = l₁ ++ l₂)
    (hne : k' ≠ k) : firstAddr id l₂ (null k) ∉ L k' := by
  intro hb
  rcases firstAddr_mem_or (l := l₂) (q := null k) with hm | heq
  · exact hne (h.apart k' k _ hb (by rw [hk]; exact List.mem_append_right _ hm))
  · exact h.null_not_mem k k' (heq ▸ hb)

/-- The last node of a bucket, or its sentinel, is in no other bucket. -/
lemma Chains.lastAddr_not_mem (h : Chains null prev next head L) (hk : L k = l₁ ++ l₂)
    (hne : k' ≠ k) : lastAddr id (null k) l₁ ∉ L k' := by
  intro hb
  rcases lastAddr_mem_or (l := l₁) (p := null k) with hm | heq
  · exact hne (h.apart k' k _ hb (by rw [hk]; exact List.mem_append_left _ hm))
  · exact h.null_not_mem k k' (heq ▸ hb)

/-- The list of the bucket that loses a node: its two halves are linked to each other. -/
lemma Chains.remove_linked (h : Chains null prev next head L) (hk : L k = l₁ ++ a :: l₂) :
    Linked id (fun p b q => update prev (next a) (prev a) b = p ∧
      update next (prev a) (next a) b = q) (null k) (l₁ ++ l₂) (null k) := by
  obtain ⟨hpa, hna⟩ := h.links hk
  have hlink := h.linked k
  have hnull := h.null_not_mem k k
  have hnd := h.nodup k
  rw [hk] at hlink hnull hnd
  simp only [List.mem_append, List.mem_cons, not_or] at hnull
  simp only [List.nodup_append, List.nodup_cons, List.mem_cons] at hnd
  obtain ⟨hnd₁, ⟨-, hnd₂⟩, hdis⟩ := hnd
  rw [linked_append] at hlink ⊢
  obtain ⟨hleft, -, hright⟩ := hlink
  rw [hpa, hna]
  constructor
  · -- the last node before `a` gets the one behind `a`
    refine hleft.updateLast hnd₁ fun hmem => ?_
    rcases firstAddr_mem_or (l := l₂) (q := null k) with hm | heq
    · exact hdis _ hmem _ (.inr hm) rfl
    · exact hnull.1 (heq ▸ hmem)
  · -- and the first node behind it the one before
    refine hright.updateFirst hnd₂ fun hmem => ?_
    rcases lastAddr_mem_or (l := l₁) (p := null k) with hm | heq
    · exact hdis _ hm _ (.inr hmem) rfl
    · exact hnull.2.2 (heq ▸ hmem)

variable [DecidableEq κ]

/-- The nodes when a list has got a new one. -/
lemma mem_update_cons : b ∈ update L k (a :: L k) k' ↔ b ∈ L k' ∨ k' = k ∧ b = a := by
  by_cases hk : k' = k
  · subst hk
    rw [update_self, List.mem_cons]
    tauto
  · rw [update_of_ne hk]
    tauto

/-- The nodes when a list has lost one. -/
lemma mem_update_append (hk : L k = l₁ ++ a :: l₂) (hnd : (L k).Nodup) :
    b ∈ update L k (l₁ ++ l₂) k' ↔ b ∈ L k' ∧ ¬(k' = k ∧ b = a) := by
  by_cases hkk : k' = k
  · subst hkk
    rw [hk, List.nodup_middle, List.nodup_cons] at hnd
    rw [update_self, hk]
    constructor
    · intro hb
      refine ⟨?_, ?_⟩
      · simp only [List.mem_append, List.mem_cons] at hb ⊢
        tauto
      · rintro ⟨-, rfl⟩
        exact hnd.1 hb
    · rintro ⟨hb, hne⟩
      simp only [List.mem_append, List.mem_cons, true_and] at hb hne ⊢
      tauto
  · rw [update_of_ne hkk]
    tauto

/-- **Push a new node** on the list of a bucket. -/
lemma Chains.push (h : Chains null prev next head L) (k : κ) (hnew : ∀ k, a ∉ L k)
    (hnull : ∀ k, a ≠ null k) :
    Chains null (update (update prev a (null k)) (head k) a) (update next a (head k))
      (update head k a) (update L k (a :: L k)) := by
  have hhead : head k ≠ a := by
    rcases firstAddr_mem_or (l := L k) (q := null k) with hmem | heq
    · rintro rfl
      exact hnew k (h.head_eq k ▸ hmem)
    · rw [h.head_eq, heq]
      exact (hnull k).symm
  -- every list is untouched by the writes to the new node itself
  have hfresh : ∀ k', Linked id (fun p b q => update prev a (null k) b = p ∧ next b = q) (null k')
      (L k') (null k') := fun k' => by
    have hoff := (h.linked k').updateOff (v := null k) (w := next a) (hnew k') (hnew k')
    rwa [update_eq_self] at hoff
  refine ⟨fun k' => ?_, fun k' => ?_, fun k' => ?_, fun k₁ k₂ b h₁ h₂ => ?_, fun k₁ k₂ hk₂ => ?_⟩
  · by_cases hk : k' = k
    · subst hk
      rw [update_self, update_self]
      rfl
    · rw [update_of_ne hk, update_of_ne hk, h.head_eq]
  · by_cases hk : k' = k
    · subst hk
      rw [update_self]
      refine ⟨⟨?_, ?_⟩, ?_⟩
      · rw [update_of_ne hhead.symm, update_self]
      · rw [update_self, h.head_eq]
      · -- the old first node gets the new one before it
        rw [h.head_eq k']
        exact (hfresh k').updateFirst (h.nodup k') (hnew k')
    · rw [update_of_ne hk, h.head_eq k]
      have hL : L k = [] ++ L k := rfl
      exact (hfresh k').updateOff (h.firstAddr_not_mem hL hk) (hnew k')
  · by_cases hk : k' = k
    · subst hk
      rw [update_self]
      exact List.nodup_cons.mpr ⟨hnew k', h.nodup k'⟩
    · rw [update_of_ne hk]
      exact h.nodup k'
  · rcases mem_update_cons.mp h₁ with h₁ | ⟨hk₁, hb⟩
    · rcases mem_update_cons.mp h₂ with h₂ | ⟨-, hb⟩
      · exact h.apart k₁ k₂ b h₁ h₂
      · exact absurd (hb ▸ h₁) (hnew k₁)
    · rcases mem_update_cons.mp h₂ with h₂ | ⟨hk₂, -⟩
      · exact absurd (hb ▸ h₂) (hnew k₂)
      · rw [hk₁, hk₂]
  · rcases mem_update_cons.mp hk₂ with hk₂ | ⟨-, ha⟩
    · exact h.null_not_mem k₁ k₂ hk₂
    · exact hnull k₁ ha.symm

/-- The head of the bucket that loses a node. -/
lemma Chains.remove_head (h : Chains null prev next head L) (hk : L k = l₁ ++ a :: l₂) :
    (if head k = a then update head k (next a) else head) k = firstAddr id (l₁ ++ l₂) (null k) := by
  have hfirst := h.head_eq k
  have hnd := h.nodup k
  rw [hk] at hfirst hnd
  cases l₁ with
  | nil =>
    rw [if_pos (show head k = a from hfirst), update_self, (h.links hk).2]
    rfl
  | cons b l =>
    have hb : head k = b := hfirst
    have hne : b ≠ a := by
      rintro rfl
      simp at hnd
    rw [hb, if_neg hne, hb]
    rfl

/-- **Unlink a node** from the list of its bucket. -/
lemma Chains.remove (h : Chains null prev next head L) (hk : L k = l₁ ++ a :: l₂) :
    Chains null (update prev (next a) (prev a)) (update next (prev a) (next a))
      (if head k = a then update head k (next a) else head) (update L k (l₁ ++ l₂)) := by
  have hsub : ∀ k', ∀ b ∈ update L k (l₁ ++ l₂) k', b ∈ L k' := fun k' b hb =>
    ((mem_update_append hk (h.nodup k)).mp hb).1
  refine ⟨fun k' => ?_, fun k' => ?_, fun k' => ?_, fun k₁ k₂ b h₁ h₂ =>
    h.apart k₁ k₂ b (hsub k₁ b h₁) (hsub k₂ b h₂), fun k₁ k₂ hmem =>
    h.null_not_mem k₁ k₂ (hsub k₂ _ hmem)⟩
  · by_cases hkk : k' = k
    · subst hkk
      rw [update_self]
      exact h.remove_head hk
    · rw [update_of_ne hkk, ← h.head_eq]
      split_ifs
      · rw [update_of_ne hkk]
      · rfl
  · by_cases hkk : k' = k
    · subst hkk
      rw [update_self]
      exact h.remove_linked hk
    · obtain ⟨hpa, hna⟩ := h.links hk
      rw [update_of_ne hkk, hpa, hna]
      have hk' : L k = (l₁ ++ [a]) ++ l₂ := by rw [hk, List.append_assoc]; rfl
      exact (h.linked k').updateOff (h.firstAddr_not_mem hk' hkk) (h.lastAddr_not_mem hk hkk)
  · by_cases hkk : k' = k
    · subst hkk
      have hnd := h.nodup k'
      rw [hk] at hnd
      rw [update_self]
      exact hnd.sublist (List.append_sublist_append_left l₁ |>.mpr (List.sublist_cons_self a l₂))
    · rw [update_of_ne hkk]
      exact h.nodup k'

end Cuore
