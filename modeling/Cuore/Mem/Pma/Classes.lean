import Cuore.Mem.Pma.Fields
import Mathlib.Data.Prod.Lex
import Mathlib.Order.Bounds.Basic

/-!
# Size classes of the physical allocator

`tlsf_mapping_insert` gives every size a class, a pair of indices.  Below 128 KiB a class is a number
of pages; from there on, the first index is the position of the leading bit and the second one the
five bits behind it.  Ordered lexicographically, the classes grow with the sizes
(`tlsfMappingInsert_mono`), across the change of formula too.

`TlsfIndex` says that the two levels of bitmaps tell which classes have a block, and
`TlsfIndex.search` what `tlsf_search_suitable` makes of them: the least class that has one, from a
given class on.
-/

namespace Cuore

open Pma

/-! ## The mapping -/

lemma tlsfMappingInsert_of_small {n : ℕ} (hn : n < pmaSmallBlockSize) :
    tlsfMappingInsert n = (0, n >>> 12) := if_pos hn

lemma tlsfMappingInsert_of_large {n : ℕ} (hn : pmaSmallBlockSize ≤ n) :
    tlsfMappingInsert n = (n.log2 - 16, (n >>> (n.log2 - 5)) ^^^ 2 ^ 5) := if_neg (by omega)

lemma log2_of_large {n : ℕ} (hn : pmaSmallBlockSize ≤ n) : 17 ≤ n.log2 := by
  have hn' : 2 ^ 17 ≤ n := hn
  exact (Nat.le_log2 (by omega)).mpr hn'

/-- A row of lists is for the sizes between two powers of two. -/
lemma two_pow_tlsfMappingInsert_fst {n : ℕ} (hn : pmaSmallBlockSize ≤ n) :
    2 ^ ((tlsfMappingInsert n).1 + 16) ≤ n ∧ n < 2 ^ ((tlsfMappingInsert n).1 + 17) := by
  have hlog := log2_of_large hn
  have hn' : 2 ^ 17 ≤ n := hn
  have hrow : (tlsfMappingInsert n).1 + 16 = n.log2 := by
    rw [tlsfMappingInsert_of_large hn]
    show n.log2 - 16 + 16 = n.log2
    omega
  rw [← Nat.add_assoc _ 16 1, hrow]
  exact ⟨Nat.log2_self_le (by omega), Nat.lt_log2_self⟩

/-- The leading bit of a large size and the five behind it. -/
lemma leadingBits_bounds {n : ℕ} (hn : pmaSmallBlockSize ≤ n) :
    32 ≤ n / 2 ^ (n.log2 - 5) ∧ n / 2 ^ (n.log2 - 5) < 64 := by
  have hlog := log2_of_large hn
  have hn' : 2 ^ 17 ≤ n := hn
  have hsplit : 2 ^ n.log2 = 32 * 2 ^ (n.log2 - 5) := by
    rw [show (32 : ℕ) = 2 ^ 5 from rfl, ← pow_add]
    congr 1
    omega
  have hle := Nat.log2_self_le (n := n) (by omega)
  have hlt := Nat.lt_log2_self (n := n)
  rw [pow_succ] at hlt
  rw [Nat.div_lt_iff_lt_mul (Nat.two_pow_pos _), Nat.le_div_iff_mul_le (Nat.two_pow_pos _)]
  omega

/-- The exclusive or takes the leading bit off. -/
lemma tlsfMappingInsert_snd_of_large {n : ℕ} (hn : pmaSmallBlockSize ≤ n) :
    (tlsfMappingInsert n).2 = n / 2 ^ (n.log2 - 5) - 32 := by
  obtain ⟨hge, hlt⟩ := leadingBits_bounds hn
  rw [tlsfMappingInsert_of_large hn, Nat.shiftRight_eq_div_pow]
  have hxor : ∀ x < 64, 32 ≤ x → x ^^^ 2 ^ 5 = x - 32 := by decide
  exact hxor _ hlt hge

/-- The second index is that of a list. -/
lemma tlsfMappingInsert_snd_lt (n : ℕ) : (tlsfMappingInsert n).2 < pmaIndexCount := by
  rcases Nat.lt_or_ge n pmaSmallBlockSize with hsmall | hlarge
  · rw [tlsfMappingInsert_of_small hsmall, Nat.shiftRight_eq_div_pow]
    simp only [pmaSmallBlockSize, pmaIndexCount] at *
    omega
  · have hbits := leadingBits_bounds hlarge
    rw [tlsfMappingInsert_snd_of_large hlarge, pmaIndexCount]
    omega

/-- Exactly the sizes below `2 ^ 48` have a row. -/
lemma tlsfMappingInsert_fst_lt_iff {n : ℕ} :
    (tlsfMappingInsert n).1 < pmaIndexCount ↔ n < 2 ^ 48 := by
  rcases Nat.lt_or_ge n pmaSmallBlockSize with hsmall | hlarge
  · rw [tlsfMappingInsert_of_small hsmall]
    simp only [pmaSmallBlockSize, pmaIndexCount] at *
    omega
  · have hlog := log2_of_large hlarge
    have hn' : 2 ^ 17 ≤ n := hlarge
    rw [tlsfMappingInsert_of_large hlarge, ← Nat.log2_lt (by omega)]
    simp only [pmaIndexCount]
    omega

/-- A size on a list that is not before that of another size is not below the powers of two in
the other one. -/
lemma two_pow_le_of_class {n m k : ℕ} (hn : pageSize ∣ n)
    (hclass : (tlsfMappingInsert m).1 < (tlsfMappingInsert n).1 ∨
      (tlsfMappingInsert m).1 = (tlsfMappingInsert n).1 ∧
        (tlsfMappingInsert m).2 ≤ (tlsfMappingInsert n).2)
    (hk : 12 ≤ k) (hm : 2 ^ k ≤ m) : 2 ^ k ≤ n := by
  rcases Nat.lt_or_ge n pmaSmallBlockSize with hnsmall | hnlarge
  · -- both sizes are small, and a class is one number of pages
    rcases Nat.lt_or_ge m pmaSmallBlockSize with hmsmall | hmlarge
    · rw [tlsfMappingInsert_of_small hnsmall, tlsfMappingInsert_of_small hmsmall] at hclass
      simp only [Nat.shiftRight_eq_div_pow] at hclass
      obtain ⟨q, rfl⟩ := hn
      obtain ⟨i, rfl⟩ := Nat.exists_eq_add_of_le hk
      have hpow : 2 ^ (12 + i) = 4096 * 2 ^ i := by rw [pow_add]; norm_num
      simp only [pageSize] at *
      omega
    · have hlog := log2_of_large hmlarge
      rw [tlsfMappingInsert_of_small hnsmall, tlsfMappingInsert_of_large hmlarge] at hclass
      omega
  · rcases Nat.lt_or_ge m pmaSmallBlockSize with hmsmall | hmlarge
    · exact hm.trans (hmsmall.le.trans hnlarge)
    · have hm' : 2 ^ 17 ≤ m := hmlarge
      have hrow := two_pow_tlsfMappingInsert_fst hnlarge
      have hrow' := two_pow_tlsfMappingInsert_fst hmlarge
      have hkm : k ≤ (tlsfMappingInsert m).1 + 16 := by
        by_contra hlt
        have : 2 ^ ((tlsfMappingInsert m).1 + 17) ≤ 2 ^ k :=
          Nat.pow_le_pow_right (by norm_num) (by omega)
        omega
      calc 2 ^ k ≤ 2 ^ ((tlsfMappingInsert n).1 + 16) :=
            Nat.pow_le_pow_right (by norm_num) (by omega)
        _ ≤ n := hrow.1

/-- **Classes grow with sizes.** -/
lemma tlsfMappingInsert_mono {m n : ℕ} (h : m ≤ n) :
    toLex (tlsfMappingInsert m) ≤ toLex (tlsfMappingInsert n) := by
  rw [Prod.Lex.toLex_le_toLex]
  rcases Nat.lt_or_ge n pmaSmallBlockSize with hnsmall | hnlarge
  · -- both are numbers of pages
    rw [tlsfMappingInsert_of_small hnsmall, tlsfMappingInsert_of_small (by omega)]
    refine .inr ⟨rfl, ?_⟩
    rw [Nat.shiftRight_eq_div_pow, Nat.shiftRight_eq_div_pow]
    exact Nat.div_le_div_right h
  have hnlog := log2_of_large hnlarge
  rcases Nat.lt_or_ge m pmaSmallBlockSize with hmsmall | hmlarge
  · rw [tlsfMappingInsert_of_small hmsmall, tlsfMappingInsert_of_large hnlarge]
    exact .inl (by omega)
  have hmlog := log2_of_large hmlarge
  have hlog : m.log2 ≤ n.log2 := by
    have hm' : 2 ^ 17 ≤ m := hmlarge
    exact (Nat.le_log2 (by omega)).mpr ((Nat.log2_self_le (by omega)).trans h)
  rcases hlog.lt_or_eq with hlt | heq
  · refine .inl ?_
    rw [tlsfMappingInsert_of_large hmlarge, tlsfMappingInsert_of_large hnlarge]
    omega
  · refine .inr ⟨?_, ?_⟩
    · rw [tlsfMappingInsert_of_large hmlarge, tlsfMappingInsert_of_large hnlarge, heq]
    · rw [tlsfMappingInsert_snd_of_large hmlarge, tlsfMappingInsert_snd_of_large hnlarge, heq]
      exact Nat.sub_le_sub_right (Nat.div_le_div_right h) 32

/-- A size of a greater class is greater. -/
lemma lt_of_class_lt {m n : ℕ} (h : toLex (tlsfMappingInsert m) < toLex (tlsfMappingInsert n)) :
    m < n := by
  by_contra hle
  exact absurd (tlsfMappingInsert_mono (not_lt.mp hle)) (not_le_of_gt h)

/-! ## The search -/

/-- A class of the arrays whose list is not empty. -/
structure TlsfNonEmpty (s : Pma) (z : PmaZoneId) (k : ℕ × ℕ) : Prop where
  fst_lt : k.1 < pmaIndexCount
  snd_lt : k.2 < pmaIndexCount
  head_ne : (s.zone z).blocks k.1 k.2 ≠ pmaBlockNull z

/-- The bitmaps say which lists are not empty, and which rows have one. -/
structure TlsfIndex (s : Pma) (z : PmaZoneId) : Prop where
  flBit : ∀ fl, (s.zone z).flBitmap.testBit fl = true ↔
    fl < pmaIndexCount ∧ (s.zone z).slBitmap fl ≠ 0
  slBit : ∀ fl < pmaIndexCount, ∀ sl, ((s.zone z).slBitmap fl).testBit sl = true ↔
    TlsfNonEmpty s z (fl, sl)

/-- `pma_ffs` finds the least bit, in words whose bits are those of `P`. -/
lemma isLeast_pmaFfs {w : ℕ} {P : ℕ → Prop} (hw : ∀ i, w.testBit i = true ↔ P i)
    (hlt : ∀ i, P i → i < 64) :
    (w = 0 ∧ ∀ i, ¬P i) ∨ w ≠ 0 ∧ ∃ i, pmaFfs w = some i ∧ IsLeast {i | P i} i := by
  by_cases hzero : w = 0
  · refine .inl ⟨hzero, fun i hi => ?_⟩
    have hbit := (hw i).mpr hi
    rw [hzero, Nat.zero_testBit] at hbit
    cases hbit
  · refine .inr ⟨hzero, ?_⟩
    obtain ⟨j, hj⟩ := Nat.exists_testBit_of_ne_zero hzero
    cases hf : pmaFfs w with
    | none =>
      have hnone := List.find?_eq_none.mp hf j (List.mem_range.mpr (hlt j ((hw j).mp hj)))
      exact absurd hj hnone
    | some i =>
      obtain ⟨hi, -, hbefore⟩ := List.find?_range_eq_some.mp hf
      refine ⟨i, rfl, (hw i).mp hi, fun k hk => not_lt.mp fun hki => ?_⟩
      have hclear := hbefore k hki
      rw [(hw k).mpr hk] at hclear
      cases hclear

/-- A bitmap without its first bits. -/
lemma testBit_and_wnot_pred {w k : ℕ} (hk : k ≤ 64) (i : ℕ) :
    (w &&& wnot (2 ^ k - 1)).testBit i = true ↔ w.testBit i = true ∧ k ≤ i ∧ i < 64 := by
  rw [Nat.testBit_and, testBit_wnot_pred hk, Bool.and_eq_true, decide_eq_true_iff]

section Search

variable {s : Pma} {z : PmaZoneId} {fl sl : ℕ}

/-- A row has a bit if it has a list that is not empty. -/
lemma TlsfIndex.flBit_iff (h : TlsfIndex s z) (fl : ℕ) :
    (s.zone z).flBitmap.testBit fl = true ↔ ∃ sl, TlsfNonEmpty s z (fl, sl) := by
  rw [h.flBit]
  constructor
  · rintro ⟨hfl, hne⟩
    obtain ⟨i, hi⟩ := Nat.exists_testBit_of_ne_zero hne
    exact ⟨i, (h.slBit fl hfl i).mp hi⟩
  · rintro ⟨sl, hsl⟩
    refine ⟨hsl.fst_lt, fun hzero => ?_⟩
    have hbit := (h.slBit fl hsl.fst_lt sl).mpr hsl
    rw [hzero, Nat.zero_testBit] at hbit
    cases hbit

/-- **The search finds the least class with a block**, from a class on, or that there is none. -/
lemma TlsfIndex.search (h : TlsfIndex s z) (hfl : fl < pmaIndexCount) (hsl : sl < pmaIndexCount) :
    (tlsfSearchSuitable z fl sl s = some none ∧
      ∀ k, toLex (fl, sl) ≤ toLex k → ¬TlsfNonEmpty s z k) ∨
    ∃ k, tlsfSearchSuitable z fl sl s = some (some ((s.zone z).blocks k.1 k.2, k.1, k.2)) ∧
      IsLeast {k | toLex (fl, sl) ≤ k ∧ TlsfNonEmpty s z (ofLex k)} (toLex k) := by
  have hword : fl + 1 ≤ 64 ∧ sl ≤ 64 := by
    simp only [pmaIndexCount] at hfl hsl
    omega
  have hrow : ∀ i, ((s.zone z).slBitmap fl &&& wnot (2 ^ sl - 1)).testBit i = true ↔
      sl ≤ i ∧ TlsfNonEmpty s z (fl, i) := by
    intro i
    rw [testBit_and_wnot_pred hword.2, h.slBit fl hfl]
    exact ⟨fun ⟨hi, hle, _⟩ => ⟨hle, hi⟩, fun ⟨hle, hi⟩ => ⟨hi, hle, hi.snd_lt.trans (by decide)⟩⟩
  have hrows : ∀ f, ((s.zone z).flBitmap &&& wnot (2 ^ (fl + 1) - 1)).testBit f = true ↔
      fl < f ∧ ∃ i, TlsfNonEmpty s z (f, i) := by
    intro f
    rw [testBit_and_wnot_pred hword.1, h.flBit_iff]
    refine ⟨fun ⟨hf, hle, _⟩ => ⟨hle, hf⟩, fun ⟨hle, i, hi⟩ => ⟨⟨i, hi⟩, hle, ?_⟩⟩
    exact hi.fst_lt.trans (by decide)
  unfold tlsfSearchSuitable
  rcases isLeast_pmaFfs hrow fun i hi => hi.2.snd_lt.trans (by decide) with
    ⟨hzero, hnone⟩ | ⟨hne, i, hffs, ⟨hle, hi⟩, hleast⟩
  · rcases isLeast_pmaFfs hrows fun f ⟨_, i, hi⟩ => hi.fst_lt.trans (by decide) with
      ⟨hzero', hnone'⟩ | ⟨hne', f, hffs, ⟨hlt, i, hi⟩, hleast⟩
    · -- neither the row nor a later one has a list
      refine .inl ⟨by simp [hzero, hzero'], fun k hle hk => ?_⟩
      rcases Prod.Lex.toLex_le_toLex.mp hle with hlt | ⟨heq, hle⟩
      · exact hnone' k.1 ⟨hlt, k.2, hk⟩
      · exact hnone k.2 ⟨hle, by rwa [show fl = k.1 from heq]⟩
    · -- the first list of the first later row
      rcases isLeast_pmaFfs (h.slBit f hi.fst_lt) fun j hj => hj.snd_lt.trans (by decide) with
        ⟨-, hempty⟩ | ⟨hcol, j, hffs', hj, hleast'⟩
      · exact absurd hi (hempty i)
      refine .inr ⟨(f, j), by simp [hzero, hne', hffs, hffs'],
        ⟨Prod.Lex.toLex_le_toLex.mpr (.inl hlt), hj⟩, fun k ⟨hle, hk⟩ => ?_⟩
      rcases Prod.Lex.toLex_le_toLex.mp hle with hgt | ⟨heq, hge⟩
      · refine Prod.Lex.toLex_le_toLex.mpr ((hleast ⟨hgt, _, hk⟩).lt_or_eq.imp_right fun heq => ?_)
        exact ⟨heq, hleast' (show TlsfNonEmpty s z (f, (ofLex k).2) by rwa [heq])⟩
      · exact absurd ⟨hge, by rwa [show fl = (ofLex k).1 from heq]⟩ (hnone (ofLex k).2)
  · -- the first list of the row
    refine .inr ⟨(fl, i), by simp [hne, hffs],
      ⟨Prod.Lex.toLex_le_toLex.mpr (.inr ⟨rfl, hle⟩), hi⟩, fun k ⟨hlek, hk⟩ => ?_⟩
    rcases Prod.Lex.toLex_le_toLex.mp hlek with hgt | ⟨heq, hge⟩
    · exact Prod.Lex.toLex_le_toLex.mpr (.inl hgt)
    · refine Prod.Lex.toLex_le_toLex.mpr (.inr ⟨heq, hleast ⟨hge, ?_⟩⟩)
      rwa [show fl = (ofLex k).1 from heq]

end Search

end Cuore
