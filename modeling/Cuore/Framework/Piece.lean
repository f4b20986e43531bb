import Mathlib.Data.List.Perm.Lattice
import Mathlib.Data.List.Pairwise

/-!
# Pieces of memory

A piece is a stretch of consecutive units of memory: pages, bytes or blocks.  `Packed l` says that
the pieces `l` are not empty and do not overlap.  The order of the pieces does not matter
(`Packed.perm`), and a piece can be cut in two and put together again (`packed_cut`).
-/

namespace Cuore

/-- The units from `start` on, `size` of them. -/
structure Piece where
  start : ℕ
  size : ℕ
  deriving DecidableEq, Repr

namespace Piece

/-- The first unit behind the piece. -/
def stop (b : Piece) : ℕ := b.start + b.size

instance : Membership ℕ Piece := ⟨fun b x => b.start ≤ x ∧ x < b.stop⟩

/-- The pieces do not overlap. -/
def Apart (b c : Piece) : Prop := b.stop ≤ c.start ∨ c.stop ≤ b.start

/-- The pieces neither overlap nor touch. -/
def Separate (b c : Piece) : Prop := b.stop < c.start ∨ c.stop < b.start

instance (b c : Piece) : Decidable (Separate b c) := inferInstanceAs (Decidable (_ ∨ _))

variable {b c : Piece} {x a m n : ℕ}

lemma mem_iff : x ∈ b ↔ b.start ≤ x ∧ x < b.start + b.size := Iff.rfl

lemma apart_iff : Apart b c ↔ b.start + b.size ≤ c.start ∨ c.start + c.size ≤ b.start := Iff.rfl

lemma Apart.symm (h : Apart b c) : Apart c b := Or.symm h

lemma Apart.not_mem (h : Apart b c) (hb : x ∈ b) : x ∉ c := by
  rw [mem_iff] at hb ⊢
  rw [apart_iff] at h
  omega

lemma separate_iff : Separate b c ↔ b.start + b.size < c.start ∨ c.start + c.size < b.start :=
  Iff.rfl

lemma Separate.symm (h : Separate b c) : Separate c b := Or.symm h

lemma start_mem (h : 0 < b.size) : b.start ∈ b := by
  rw [mem_iff]
  omega

/-- The units of a piece that is cut in two. -/
lemma mem_cut : x ∈ (⟨a, m + n⟩ : Piece) ↔ x ∈ (⟨a, m⟩ : Piece) ∨ x ∈ (⟨a + m, n⟩ : Piece) := by
  simp only [mem_iff]
  omega

end Piece

open Piece

/-- The pieces are not empty and do not overlap. -/
structure Packed (l : List Piece) : Prop where
  pos : ∀ b ∈ l, 0 < b.size
  apart : l.Pairwise Apart

variable {l l' : List Piece} {b c : Piece} {a m n x : ℕ}

lemma Packed.perm (h : Packed l) (hp : l.Perm l') : Packed l' :=
  ⟨fun b hb => h.pos b (hp.mem_iff.mpr hb), (hp.pairwise_iff fun h => h.symm).mp h.apart⟩

@[simp] lemma packed_nil : Packed [] := ⟨by simp, List.Pairwise.nil⟩

lemma packed_cons : Packed (b :: l) ↔ 0 < b.size ∧ (∀ c ∈ l, Apart b c) ∧ Packed l := by
  refine ⟨fun h => ⟨h.pos b (by simp), (List.pairwise_cons.mp h.apart).1,
    fun c hc => h.pos c (by simp [hc]), (List.pairwise_cons.mp h.apart).2⟩, ?_⟩
  rintro ⟨hb, hl, h⟩
  refine ⟨fun c hc => ?_, List.pairwise_cons.mpr ⟨hl, h.apart⟩⟩
  rcases List.mem_cons.mp hc with rfl | hc
  · exact hb
  · exact h.pos c hc

/-- No unit is in two of the pieces. -/
lemma Packed.not_mem (h : Packed (b :: l)) (hb : x ∈ b) (hc : c ∈ l) : x ∉ c :=
  ((packed_cons.mp h).2.1 c hc).not_mem hb

/-- Two pieces with the same unit are the same. -/
lemma Packed.eq_of_mem (h : Packed l) (hb : b ∈ l) (hc : c ∈ l) (hx : x ∈ b) (hx' : x ∈ c) :
    b = c := by
  by_contra hne
  have hsymm : Std.Symm Apart := ⟨fun _ _ h => h.symm⟩
  exact (h.apart.forall hb hc hne).not_mem hx hx'

/-- **Cutting** a piece in two, and putting the two together. -/
lemma packed_cut (hm : 0 < m) (hn : 0 < n) :
    Packed (⟨a, m + n⟩ :: l) ↔ Packed (⟨a, m⟩ :: ⟨a + m, n⟩ :: l) := by
  simp only [packed_cons, List.mem_cons, forall_eq_or_imp, apart_iff]
  constructor
  · rintro ⟨-, hapart, hl⟩
    refine ⟨hm, ⟨.inl (Nat.le_refl _), fun c hc => ?_⟩, hn, fun c hc => ?_, hl⟩
    · have := hapart c hc
      omega
    · have := hapart c hc
      omega
  · rintro ⟨-, ⟨-, hleft⟩, -, hright, hl⟩
    refine ⟨by omega, fun c hc => ?_, hl⟩
    -- a piece between the two halves would be empty
    have hpos := hl.pos c hc
    have := hleft c hc
    have := hright c hc
    omega

end Cuore
