import Mathlib.Data.Set.Subsingleton

/-!
# Spin locks

A flag that one test-and-set step sets and that is cleared at the end of a critical section.  The
program is a state type with a notion of which threads are inside a critical section; `SpinLock.Inv`
is the invariant of the lock, together with what a free lock says about the state and what the one
thread inside may rely on.

There is one rule for each way in which a step can be about the lock: a thread takes it, works
inside, leaves, or does something else.
-/

namespace Cuore

/-- The flag of a lock, and the threads inside. -/
structure SpinLock (S ι : Type*) where
  flag : S → Bool
  inside : S → ι → Prop

namespace SpinLock

variable {S ι : Type*} {L : SpinLock S ι} {free : S → Prop} {held : S → ι → Prop} {s s' : S} {i : ι}

/-- The flag is set as long as a thread is inside, and there is never more than one.  A free lock
guarantees `free`, and the thread inside has `held`. -/
structure Inv (L : SpinLock S ι) (free : S → Prop) (held : S → ι → Prop) (s : S) : Prop where
  flag : L.flag s = true ↔ ∃ i, L.inside s i
  exclusive : {i | L.inside s i}.Subsingleton
  free : L.flag s = false → free s
  held : ∀ i, L.inside s i → held s i

/-- Nobody is inside when the lock is free. -/
lemma Inv.not_inside (h : L.Inv free held s) (hf : L.flag s = false) : ¬L.inside s i := fun hi => by
  rw [h.flag.mpr ⟨i, hi⟩] at hf
  cases hf

/-- A thread takes the lock. -/
lemma Inv.enter (h : L.Inv free held s) (hf : L.flag s = false) (hf' : L.flag s' = true)
    (hin : ∀ j, L.inside s' j ↔ L.inside s j ∨ j = i) (hheld : free s → held s' i) :
    L.Inv free held s' := by
  have hin' : ∀ j, L.inside s' j ↔ j = i := fun j => by
    rw [hin]
    exact or_iff_right (h.not_inside hf)
  refine ⟨iff_of_true hf' ⟨i, (hin' i).mpr rfl⟩, fun j hj k hk => ?_, fun hfree => ?_,
    fun j hj => ?_⟩
  · exact ((hin' j).mp hj).trans ((hin' k).mp hk).symm
  · rw [hf'] at hfree
    cases hfree
  · rw [(hin' j).mp hj]
    exact hheld (h.free hf)

/-- The thread inside does something. -/
lemma Inv.within (h : L.Inv free held s) (hi : L.inside s i) (hf : L.flag s' = L.flag s)
    (hin : ∀ j, L.inside s' j ↔ L.inside s j) (hheld : held s i → held s' i) :
    L.Inv free held s' := by
  refine ⟨?_, fun j hj k hk => ?_, fun hfree => ?_, fun j hj => ?_⟩
  · rw [hf, h.flag]
    exact exists_congr fun j => (hin j).symm
  · exact h.exclusive ((hin j).mp hj) ((hin k).mp hk)
  · exact absurd hi (h.not_inside (hf ▸ hfree))
  · have hji : j = i := h.exclusive ((hin j).mp hj) hi
    rw [hji]
    exact hheld (h.held i hi)

/-- The thread inside gives the lock back. -/
lemma Inv.leave (h : L.Inv free held s) (hi : L.inside s i) (hf : L.flag s' = false)
    (hin : ∀ j, L.inside s' j ↔ L.inside s j ∧ j ≠ i) (hfree : held s i → free s') :
    L.Inv free held s' := by
  have hout : ∀ j, ¬L.inside s' j := fun j hj => by
    obtain ⟨hj, hne⟩ := (hin j).mp hj
    exact hne (h.exclusive hj hi)
  refine ⟨?_, fun j hj => (hout j hj).elim, fun _ => hfree (h.held i hi),
    fun j hj => (hout j hj).elim⟩
  rw [hf]
  exact iff_of_false Bool.false_ne_true fun ⟨j, hj⟩ => hout j hj

/-- Something else happens. -/
lemma Inv.outside (h : L.Inv free held s) (hf : L.flag s' = L.flag s)
    (hin : ∀ j, L.inside s' j ↔ L.inside s j) (hfree : free s → free s')
    (hheld : ∀ j, held s j → held s' j) : L.Inv free held s' := by
  refine ⟨?_, fun j hj k hk => ?_, fun hff => hfree (h.free (hf ▸ hff)), fun j hj => ?_⟩
  · rw [hf, h.flag]
    exact exists_congr fun j => (hin j).symm
  · exact h.exclusive ((hin j).mp hj) ((hin k).mp hk)
  · exact hheld j (h.held j ((hin j).mp hj))

end SpinLock

end Cuore
