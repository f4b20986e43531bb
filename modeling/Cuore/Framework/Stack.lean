import Cuore.Framework.Bytes
import Cuore.Framework.Word

/-!
# Stacks of 64-bit words

`Words m a vs` says that the words `vs` stand in memory at `a`, the first one lowest, and `pushAll`
pushes a list of words onto a stack that grows down.  `pushAll_spec` is what the two have to do with
each other: what has been pushed stands in memory in the other order, and nothing else has changed.
-/

namespace Cuore

namespace Memory

/-- The 64-bit word at `a`. -/
def load64 (m : Memory) (a : ℕ) : UInt64 := UInt64.ofNat (m.load a 8)

/-- Overwrite the 64-bit word at `a`. -/
def store64 (m : Memory) (a : ℕ) (v : UInt64) : Memory := m.store a 8 v.toNat

lemma load64_store64_self (m : Memory) (a : ℕ) (v : UInt64) : (m.store64 a v).load64 a = v := by
  rw [load64, store64, load_store_self, Nat.mod_eq_of_lt (by simpa using v.toNat_lt)]
  exact UInt64.ofNat_toNat

lemma sameOutside_store64 (m : Memory) (a : ℕ) (v : UInt64) :
    SameOutside (Set.Ico a (a + 8)) m (m.store64 a v) := sameOutside_store m a 8 _

end Memory

open Memory

/-- The words `vs` stand in memory at `a`. -/
def Words (m : Memory) : ℕ → List UInt64 → Prop
  | _, [] => True
  | a, v :: vs => m.load64 a = v ∧ Words m (a + 8) vs

section Words

variable {m m' : Memory} {a sp : ℕ} {v : UInt64} {vs ws : List UInt64}

lemma words_append : Words m a (vs ++ ws) ↔ Words m a vs ∧ Words m (a + 8 * vs.length) ws := by
  induction vs generalizing a with
  | nil => simp [Words]
  | cons v vs ih =>
    rw [List.cons_append, Words, Words, ih, List.length_cons, and_assoc,
      show a + 8 + 8 * vs.length = a + 8 * (vs.length + 1) by omega]

lemma words_singleton : Words m a [v] ↔ m.load64 a = v := and_iff_left trivial

/-- Words depend on their own bytes. -/
lemma Words.congr (h : Words m a vs) (hsame : ∀ x, a ≤ x → x < a + 8 * vs.length → m' x = m x) :
    Words m' a vs := by
  induction vs generalizing a with
  | nil => trivial
  | cons v vs ih =>
    rw [List.length_cons] at hsame
    refine ⟨?_, ih h.2 fun x hx hx' => hsame x (by omega) (by omega)⟩
    rw [← h.1, load64, load64, load_congr fun x hx hx' => hsame x hx (by omega)]

lemma Words.of_sameOutside {S : Set ℕ} (h : Words m a vs) (hsame : SameOutside S m m')
    (hd : Disjoint (Set.Ico a (a + 8 * vs.length)) S) : Words m' a vs :=
  h.congr fun x hx hx' => hsame x (Set.disjoint_left.mp hd ⟨hx, hx'⟩)

/-- One of the words. -/
lemma Words.load_getElem (h : Words m a vs) {j : ℕ} (hj : j < vs.length) :
    m.load (a + 8 * j) 8 = vs[j].toNat := by
  induction vs generalizing a j with
  | nil => cases hj
  | cons v vs ih =>
    cases j with
    | zero =>
      rw [List.getElem_cons_zero, ← h.1, load64, UInt64.toNat_ofNat']
      exact (Nat.mod_eq_of_lt (load_lt m a 8)).symm
    | succ j =>
      have hrest := ih h.2 (Nat.lt_of_succ_lt_succ hj)
      rw [List.getElem_cons_succ, ← hrest, show a + 8 + 8 * j = a + 8 * (j + 1) by omega]

/-! ## Pushing -/

/-- Where the next word of a stack goes. -/
@[irreducible] def nextWord (sp : ℕ) : ℕ := wsub sp 8

lemma nextWord_eq (hsp : 8 ≤ sp) (hlt : sp < word) : nextWord sp = sp - 8 := by
  unfold nextWord
  exact wsub_of_le hsp hlt

/-- Push a word. -/
def pushWord (p : Memory × ℕ) (v : UInt64) : Memory × ℕ :=
  (p.1.store64 (nextWord p.2) v, nextWord p.2)

/-- Push words, the first one first. -/
def pushAll (p : Memory × ℕ) (vs : List UInt64) : Memory × ℕ := vs.foldl pushWord p

lemma pushAll_cons (p : Memory × ℕ) (v : UInt64) :
    pushAll p (v :: vs) = pushAll (pushWord p v) vs := List.foldl_cons ..

lemma pushAll_append (p : Memory × ℕ) : pushAll p (vs ++ ws) = pushAll (pushAll p vs) ws :=
  List.foldl_append

/-- **What has been pushed** stands in memory, the last one lowest. -/
lemma pushAll_spec (m : Memory) (vs : List UInt64) (hsp : 8 * vs.length ≤ sp) (hlt : sp < word) :
    (pushAll (m, sp) vs).2 = sp - 8 * vs.length ∧
    Words (pushAll (m, sp) vs).1 (sp - 8 * vs.length) vs.reverse ∧
    SameOutside (Set.Ico (sp - 8 * vs.length) sp) m (pushAll (m, sp) vs).1 := by
  induction vs generalizing m sp with
  | nil => exact ⟨rfl, trivial, SameOutside.refl _ _⟩
  | cons v vs ih =>
    rw [List.length_cons] at hsp ⊢
    have hsub : nextWord sp = sp - 8 := nextWord_eq (by omega) hlt
    have hbase : sp - 8 - 8 * vs.length = sp - 8 * (vs.length + 1) := by omega
    obtain ⟨hrsp, hwords, hsame⟩ :=
      @ih (sp - 8) (m.store64 (sp - 8) v) (by omega) (by omega)
    rw [hbase] at hrsp hwords hsame
    have hpush : pushAll (m, sp) (v :: vs) = pushAll (m.store64 (sp - 8) v, sp - 8) vs := by
      rw [pushAll_cons, pushWord, hsub]
    rw [hpush]
    refine ⟨hrsp, ?_, ?_⟩
    · rw [List.reverse_cons, words_append, List.length_reverse, words_singleton,
        show sp - 8 * (vs.length + 1) + 8 * vs.length = sp - 8 by omega]
      refine ⟨hwords, ?_⟩
      -- the first word is above the others
      have hfirst : Words (m.store64 (sp - 8) v) (sp - 8) [v] :=
        words_singleton.mpr (load64_store64_self m _ v)
      refine words_singleton.mp (hfirst.of_sameOutside hsame (Set.disjoint_left.mpr ?_))
      rintro x ⟨hx, -⟩ ⟨-, hx'⟩
      omega
    · refine ((sameOutside_store64 m (sp - 8) v).mono ?_).trans_self (hsame.mono ?_)
      · exact Set.Ico_subset_Ico (by omega) (by omega)
      · exact Set.Ico_subset_Ico le_rfl (by omega)

end Words

end Cuore
