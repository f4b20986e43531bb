import Mathlib.Order.Nat

/-!
# First come, first served

Takers `0, 1, 2, …` go through the items `0, 1, 2, …` one taker after the other.  A taker takes
every item it `want`s that is still there; takers of one non-zero `group` share a licence, and once
a taker of the group has taken an item nobody of the group takes another.  `IsFair` says of a set
of pairs that it is the outcome: an item goes to the first taker that wants it and whose group is
free when its turn comes.

The pairs are visited in lexicographic order, and what is decided about a pair depends on earlier
pairs only.  So there is exactly one fair outcome: `assigned` is it (`isFair_assigned`), and
`IsFair.iff` the uniqueness.

`IsBlocking` is the outcome of a program that lets a taker hold an item back without taking it: an
item goes nowhere if the first taker that touches it does not want it.  `IsBlocking.isFair_iff`
says exactly when this comes to the fair outcome.
-/

namespace Cuore

/-! ## The order of visits -/

/-- The pair `(i', j')` is visited before `(i, j)`. -/
def Before (i' j' i j : ℕ) : Prop := i' < i ∨ i' = i ∧ j' < j

lemma Before.irrefl (i j : ℕ) : ¬Before i j i j := by
  rintro (h | ⟨-, h⟩) <;> exact Nat.lt_irrefl _ h

lemma not_before_zero (i j : ℕ) : ¬Before i j 0 0 := by
  simp only [Before]
  omega

lemma Before.trans {i j i' j' i'' j'' : ℕ} (h : Before i j i' j') (h' : Before i' j' i'' j'') :
    Before i j i'' j'' := by
  simp only [Before] at h h' ⊢
  omega

lemma before_succ {i' j' i j : ℕ} :
    Before i' j' i (j + 1) ↔ Before i' j' i j ∨ i' = i ∧ j' = j := by
  simp only [Before]
  omega

lemma before_next {i' j' i j : ℕ} :
    Before i' j' (i + 1) 0 ↔ Before i' j' i j ∨ i' = i ∧ j ≤ j' := by
  simp only [Before]
  omega

/-- Induction along the visits. -/
lemma before_induction {motive : ℕ → ℕ → Prop}
    (h : ∀ i j, (∀ i' j', Before i' j' i j → motive i' j') → motive i j) (i j : ℕ) :
    motive i j := by
  induction i using Nat.strongRecOn generalizing j with
  | ind i ihi =>
    induction j using Nat.strongRecOn with
    | ind j ihj =>
      refine h i j fun i' j' hbefore => ?_
      rcases hbefore with hi | ⟨rfl, hj⟩
      · exact ihi i' hi j'
      · exact ihj j' hj

/-! ## Outcomes -/

section Outcomes

variable {group : ℕ → ℕ} {want touch bound bound' : ℕ → ℕ → Prop} {i j : ℕ}

/-- The group of the taker is free when it comes to the item. -/
def GroupFree (group : ℕ → ℕ) (bound : ℕ → ℕ → Prop) (i j : ℕ) : Prop :=
  group i = 0 ∨ ∀ i' j', Before i' j' i j → bound i' j' → group i' ≠ group i

/-- The taker wants the item and may have it. -/
def Claims (group : ℕ → ℕ) (want bound : ℕ → ℕ → Prop) (i j : ℕ) : Prop :=
  want i j ∧ GroupFree group bound i j

/-- **The fair outcome**: every item goes to the first taker that claims it. -/
def IsFair (group : ℕ → ℕ) (want bound : ℕ → ℕ → Prop) : Prop :=
  ∀ i j, bound i j ↔ Claims group want bound i j ∧ ∀ i' < i, ¬Claims group want bound i' j

/-- Whether a taker claims an item is decided by the pairs before. -/
lemma claims_congr (h : ∀ i' j', Before i' j' i j → (bound i' j' ↔ bound' i' j')) :
    Claims group want bound i j ↔ Claims group want bound' i j := by
  have hfree : (∀ i' j', Before i' j' i j → bound i' j' → group i' ≠ group i) ↔
      ∀ i' j', Before i' j' i j → bound' i' j' → group i' ≠ group i :=
    forall_congr' fun i' => forall_congr' fun j' => imp_congr_right fun hb => by rw [h i' j' hb]
  rw [Claims, Claims, GroupFree, GroupFree, hfree]

/-- There is at most one fair outcome. -/
lemma IsFair.iff (h : IsFair group want bound) (h' : IsFair group want bound') (i j : ℕ) :
    bound i j ↔ bound' i j := by
  induction i, j using before_induction with
  | _ i j ih =>
    have hhere : Claims group want bound i j ↔ Claims group want bound' i j := claims_congr ih
    have hearlier : ∀ i' < i, (Claims group want bound i' j ↔ Claims group want bound' i' j) :=
      fun i' hi => claims_congr fun i'' j'' hb => ih i'' j'' (hb.trans (Or.inl hi))
    rw [h i j, h' i j, hhere]
    exact and_congr_right fun _ => forall_congr' fun i' => imp_congr_right fun hi => by
      rw [hearlier i' hi]

/-- The fair outcome, by recursion along the visits. -/
def assigned (group : ℕ → ℕ) (want : ℕ → ℕ → Prop) (i j : ℕ) : Prop :=
  (want i j ∧ (group i = 0 ∨
    ∀ i' j', (_ : Before i' j' i j) → assigned group want i' j' → group i' ≠ group i)) ∧
  ∀ k, (_ : k < i) → ¬(want k j ∧ (group k = 0 ∨
    ∀ i' j', (_ : Before i' j' k j) → assigned group want i' j' → group i' ≠ group k))
termination_by (i, j)
decreasing_by
  all_goals simp only [Before] at *
  all_goals omega

/-- There is a fair outcome. -/
lemma isFair_assigned (group : ℕ → ℕ) (want : ℕ → ℕ → Prop) :
    IsFair group want (assigned group want) := by
  intro i j
  rw [assigned]
  rfl

/-! ## Takers that hold items back -/

/-- **The outcome with holding back**: an item is taken by the first taker that touches it with its
group free, if that taker wants it, and by none otherwise. -/
def IsBlocking (group : ℕ → ℕ) (touch want bound : ℕ → ℕ → Prop) : Prop :=
  ∀ i j, bound i j ↔ Claims group want bound i j ∧ ∀ i' < i, ¬Claims group touch bound i' j

/-- The same on the pairs before `(i, j)`. -/
def IsBlockingBefore (group : ℕ → ℕ) (touch want bound : ℕ → ℕ → Prop) (i j : ℕ) : Prop :=
  ∀ i' j', bound i' j' ↔ Before i' j' i j ∧ Claims group want bound i' j' ∧
    ∀ k < i', ¬Claims group touch bound k j'

/-- One pair more changes nothing about the pairs up to it. -/
lemma claims_add (hadd : ∀ i' j', bound' i' j' ↔ bound i' j' ∨ i' = i ∧ j' = j) {a b : ℕ}
    (hle : ¬Before i j a b) : Claims group want bound' a b ↔ Claims group want bound a b := by
  refine claims_congr fun a' b' hb => (hadd a' b').trans (or_iff_left ?_)
  rintro ⟨rfl, rfl⟩
  exact hle hb

/-- The next pair is taken. -/
lemma IsBlockingBefore.add (h : IsBlockingBefore group touch want bound i j)
    (hclaims : Claims group want bound i j) (hfirst : ∀ k < i, ¬Claims group touch bound k j)
    (hadd : ∀ i' j', bound' i' j' ↔ bound i' j' ∨ i' = i ∧ j' = j) :
    IsBlockingBefore group touch want bound' i (j + 1) := by
  intro i' j'
  have hcongr : Before i' j' i (j + 1) → ∀ (w : ℕ → ℕ → Prop) (k : ℕ), k ≤ i' →
      (Claims group w bound' k j' ↔ Claims group w bound k j') := by
    intro hb w k hk
    apply claims_add hadd
    simp only [Before] at hb ⊢
    omega
  rw [hadd, h i' j']
  constructor
  · intro hcase
    have hb : Before i' j' i (j + 1) := before_succ.2 (hcase.imp_left And.left)
    refine ⟨hb, ?_⟩
    rcases hcase with ⟨-, hclaims', hfirst'⟩ | ⟨rfl, rfl⟩
    · exact ⟨(hcongr hb _ i' le_rfl).2 hclaims', fun k hk hk' =>
        hfirst' k hk ((hcongr hb _ k hk.le).1 hk')⟩
    · exact ⟨(hcongr hb _ i' le_rfl).2 hclaims, fun k hk hk' =>
        hfirst k hk ((hcongr hb _ k hk.le).1 hk')⟩
  · rintro ⟨hb, hclaims', hfirst'⟩
    rcases before_succ.1 hb with hbefore | heq
    · exact Or.inl ⟨hbefore, (hcongr hb _ i' le_rfl).1 hclaims', fun k hk hk' =>
        hfirst' k hk ((hcongr hb _ k hk.le).2 hk')⟩
    · exact Or.inr heq

/-- The items that somebody has touched, with one pair more. -/
lemma exists_claims_add (hadd : ∀ i' j', bound' i' j' ↔ bound i' j' ∨ i' = i ∧ j' = j)
    (htouch : Claims group touch bound i j) {j' : ℕ} :
    (∃ i', Before i' j' i (j + 1) ∧ Claims group touch bound' i' j') ↔
      (∃ i', Before i' j' i j ∧ Claims group touch bound i' j') ∨ j' = j := by
  have hcongr : ∀ i', Before i' j' i (j + 1) →
      (Claims group touch bound' i' j' ↔ Claims group touch bound i' j') := by
    intro i' hb
    apply claims_add hadd
    simp only [Before] at hb ⊢
    omega
  constructor
  · rintro ⟨i', hb, hclaims⟩
    rcases before_succ.1 hb with hbefore | ⟨-, heq⟩
    · exact Or.inl ⟨i', hbefore, (hcongr i' hb).1 hclaims⟩
    · exact Or.inr heq
  · rintro (⟨i', hbefore, hclaims⟩ | rfl)
    · have hb : Before i' j' i (j + 1) := before_succ.2 (Or.inl hbefore)
      exact ⟨i', hb, (hcongr i' hb).2 hclaims⟩
    · have hb : Before i j' i (j' + 1) := before_succ.2 (Or.inr ⟨rfl, rfl⟩)
      exact ⟨i, hb, (hcongr i hb).2 htouch⟩

lemma Claims.mono (hwant : ∀ i j, want i j → touch i j) (h : Claims group want bound i j) :
    Claims group touch bound i j :=
  ⟨hwant i j h.1, h.2⟩

/-- An item has one taker. -/
lemma IsBlocking.taker_eq (hwant : ∀ i j, want i j → touch i j)
    (h : IsBlocking group touch want bound) {i' : ℕ} (hi : bound i j) (hi' : bound i' j) :
    i = i' := by
  rcases Nat.lt_trichotomy i i' with hlt | heq | hlt
  · exact absurd (((h i j).1 hi).1.mono hwant) (((h i' j).1 hi').2 i hlt)
  · exact heq
  · exact absurd (((h i' j).1 hi').1.mono hwant) (((h i j).1 hi).2 i' hlt)

/-- A group takes one item. -/
lemma IsBlocking.pair_eq (h : IsBlocking group touch want bound) {i' j' : ℕ} (hi : bound i j)
    (hi' : bound i' j') (hgroup : group i ≠ 0) (heq : group i = group i') : i = i' ∧ j = j' := by
  have hlater : ∀ {a b a' b' : ℕ}, bound a b → bound a' b' → group a' ≠ 0 →
      group a = group a' → ¬Before a b a' b' := by
    intro a b a' b' ha ha' hne hsame hb
    rcases ((h a' b').1 ha').1.2 with hnone | hfree
    · exact hne hnone
    · exact hfree a b hb ha hsame
  have hfirst := hlater hi hi' (heq ▸ hgroup) heq
  have hsecond := hlater hi' hi hgroup heq.symm
  simp only [Before] at hfirst hsecond
  omega

/-- **When holding back does no harm**: the outcome is the fair one exactly if no item is touched,
before the turn of the taker that should get it, by one that does not want it and whose group is
free then. -/
lemma IsBlocking.isFair_iff (hwant : ∀ i j, want i j → touch i j)
    (h : IsBlocking group touch want bound) :
    IsFair group want bound ↔ ∀ i j, assigned group want i j → ∀ i' < i,
      touch i' j → ¬want i' j → ¬GroupFree group (assigned group want) i' j := by
  have hfair := isFair_assigned group want
  constructor
  · intro hb i j hij i' hi htouch _ hfree
    have heq := hb.iff hfair
    refine ((h i j).1 ((heq i j).2 hij)).2 i' hi ?_
    exact (claims_congr fun i'' j'' _ => heq i'' j'').2 ⟨htouch, hfree⟩
  · intro hcond
    have heq : ∀ i j, bound i j ↔ assigned group want i j := by
      intro i j
      induction i, j using before_induction with
      | _ i j ih =>
        have hcongr : ∀ {w : ℕ → ℕ → Prop} {k : ℕ}, k ≤ i →
            (Claims group w bound k j ↔ Claims group w (assigned group want) k j) := by
          intro w k hk
          refine claims_congr fun i'' j'' hb => ih i'' j'' ?_
          rcases Nat.eq_or_lt_of_le hk with rfl | hlt
          · exact hb
          · exact hb.trans (Or.inl hlt)
        rw [h i j, hcongr (Nat.le_refl i)]
        constructor
        · rintro ⟨hclaims, hfirst⟩
          refine (hfair i j).2 ⟨hclaims, fun k hk hclaim => hfirst k hk ?_⟩
          exact ((hcongr hk.le).2 hclaim).mono hwant
        · intro hij
          obtain ⟨hclaims, hfirst⟩ := (hfair i j).1 hij
          refine ⟨hclaims, fun k hk htouch => ?_⟩
          obtain ⟨htouch, hfree⟩ := (hcongr hk.le).1 htouch
          exact hcond i j hij k hk htouch (fun hw => hfirst k hk ⟨hw, hfree⟩) hfree
    intro i j
    have hcongr : ∀ k, Claims group want bound k j ↔ Claims group want (assigned group want) k j :=
      fun k => claims_congr fun i' j' _ => heq i' j'
    rw [heq i j, hfair i j, hcongr i]
    exact and_congr_right fun _ => forall_congr' fun k => by rw [hcongr k]

end Outcomes

end Cuore
