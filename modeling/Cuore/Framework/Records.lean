import Mathlib.Data.List.Basic
import Mathlib.Data.List.Range

/-!
# Walks over records that say their own size

A table is a sequence of records, one behind the other, and each says how long it is.  A walk looks
at the record at a position, does something with it, and goes on behind it, until it comes to the
end of the table, to a record of size zero, or to one at which it is done.

`walkRecords` is the walk and `visitedRecords` the records it looks at, each with the state the walk
is in there.  The walk ends (`walkRecords_isSome`), and `walkRecords_induct` is the rule by which a
relation between the states before and after and the records visited is shown for every walk.  It
depends on nothing but the records visited (`walkRecords_congr`).
-/

namespace Cuore

variable {σ : Type*}

/-- The walk from a position on.  The flag of `visit` says that the walk is done. -/
def walkRecords (size : ℕ → ℕ) (visit : ℕ → σ → σ × Bool) (stop : ℕ) : ℕ → ℕ → σ → Option σ
  | 0, _, _ => none
  | fuel + 1, ptr, s =>
    if ptr < stop then
      if size ptr = 0 then some s
      else
        match visit ptr s with
        | (s, true) => some s
        | (s, false) => walkRecords size visit stop fuel (ptr + size ptr) s
    else some s

/-- The records that the walk looks at, with the states in which it does. -/
def visitedRecords (size : ℕ → ℕ) (visit : ℕ → σ → σ × Bool) (stop : ℕ) :
    ℕ → ℕ → σ → List (ℕ × σ)
  | 0, _, _ => []
  | fuel + 1, ptr, s =>
    if ptr < stop then
      (ptr, s) ::
        if size ptr = 0 then []
        else
          match visit ptr s with
          | (_, true) => []
          | (s, false) => visitedRecords size visit stop fuel (ptr + size ptr) s
    else []

variable {size : ℕ → ℕ} {visit : ℕ → σ → σ × Bool} {stop fuel ptr : ℕ} {s s' : σ}

/-- **The walk ends**: every record that it goes on behind is at least one byte long. -/
lemma walkRecords_isSome (hfuel : stop - ptr < fuel) :
    (walkRecords size visit stop fuel ptr s).isSome := by
  induction fuel generalizing ptr s with
  | zero => omega
  | succ fuel ih =>
    rw [walkRecords]
    split_ifs with hlt hzero
    · rfl
    · rcases visit ptr s with ⟨s', _ | _⟩
      · exact ih (by omega)
      · rfl
    · rfl

/-- **The induction rule of walks.** -/
lemma walkRecords_induct {motive : σ → List (ℕ × σ) → σ → Prop}
    (stopped : ∀ s, motive s [] s)
    (empty : ∀ p s, size p = 0 → motive s [(p, s)] s)
    (done : ∀ p s s', size p ≠ 0 → visit p s = (s', true) → motive s [(p, s)] s')
    (next : ∀ p s s' vs s'', size p ≠ 0 → visit p s = (s', false) → motive s' vs s'' →
      motive s ((p, s) :: vs) s'')
    (h : walkRecords size visit stop fuel ptr s = some s') :
    motive s (visitedRecords size visit stop fuel ptr s) s' := by
  induction fuel generalizing ptr s with
  | zero => cases h
  | succ fuel ih =>
    rw [walkRecords] at h
    rw [visitedRecords]
    split_ifs at h ⊢ with hlt hzero
    · obtain rfl := Option.some.inj h
      exact empty ptr s hzero
    · rcases hvisit : visit ptr s with ⟨s₁, _ | _⟩
      · rw [hvisit] at h
        exact next ptr s s₁ _ s' hzero hvisit (ih h)
      · rw [hvisit] at h
        obtain rfl := Option.some.inj h
        exact done ptr s s₁ hzero hvisit
    · obtain rfl := Option.some.inj h
      exact stopped s

/-- **A walk depends on nothing but the records that it visits.** -/
lemma walkRecords_congr {size' : ℕ → ℕ} {visit' : ℕ → σ → σ × Bool}
    (h : ∀ v ∈ visitedRecords size visit stop fuel ptr s,
      size' v.1 = size v.1 ∧ (size v.1 ≠ 0 → visit' v.1 v.2 = visit v.1 v.2)) :
    walkRecords size' visit' stop fuel ptr s = walkRecords size visit stop fuel ptr s := by
  induction fuel generalizing ptr s with
  | zero => rfl
  | succ fuel ih =>
    rw [visitedRecords] at h
    simp only [walkRecords]
    by_cases hlt : ptr < stop
    · rw [if_pos hlt, List.forall_mem_cons] at h
      obtain ⟨⟨hsize, hvisit⟩, hrest⟩ := h
      dsimp only at hsize hvisit
      rw [if_pos hlt, if_pos hlt, hsize]
      by_cases hzero : size ptr = 0
      · rw [if_pos hzero, if_pos hzero]
      · rw [if_neg hzero] at hrest
        rw [if_neg hzero, if_neg hzero, hvisit hzero]
        rcases heq : visit ptr s with ⟨s₁, _ | _⟩
        · rw [heq] at hrest
          exact ih hrest
        · rfl
    · rw [if_neg hlt, if_neg hlt]
/-- Two properties of a walk, one of all records that it visits and one of those among them that
are kept, are one property of each record visited. -/
lemma forall_visited_and_kept_iff {α β : Type*} {vs : List α} {reads : α → List β} {kept : α → Prop}
    [DecidablePred kept] {P : β → Prop} {Q : α → Prop} :
    (∀ r ∈ vs.flatMap reads, P r) ∧ (∀ v ∈ vs.filter (kept ·), Q v) ↔
      ∀ v ∈ vs, (∀ r ∈ reads v, P r) ∧ (kept v → Q v) := by
  simp only [List.mem_flatMap, List.mem_filter, decide_eq_true_eq]
  constructor
  · rintro ⟨hreads, hkept⟩ v hv
    exact ⟨fun r hr => hreads r ⟨v, hv, hr⟩, fun hk => hkept v ⟨hv, hk⟩⟩
  · intro h
    exact ⟨fun r ⟨v, hv, hr⟩ => (h v hv).1 r hr, fun v hv => (h v hv.1).2 hv.2⟩

/-- The bytes from `a` on are before `stop`. -/
lemma forall_mem_range'_lt_iff {a n : ℕ} (hn : 0 < n) :
    (∀ r ∈ List.range' a n, r < stop) ↔ a + n ≤ stop := by
  constructor
  · intro h
    have hlast := h (a + n - 1) (List.mem_range'_1.mpr (by omega))
    omega
  · intro h r hr
    have hlt := (List.mem_range'_1.mp hr).2
    omega

end Cuore
