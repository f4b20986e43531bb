import Cuore.Mem.Pma.Alloc

/-!
# Freeing physical pages

`pma_zone_free_range` joins the freed pages with the free ones on both sides.  It takes the whole
run of free pages on a side for one block, the one at the start of the run, and removes only that
from the lists.  Free blocks that touch break this: those that a failed allocation of 2 MiB pages
has left behind, and those of regions of the memory map that touch.  The scan to the left also does
not stop at 4 GiB, so that the upper zone can take a block of the lower one for its own.

`PmaInv.freeRange` says that freeing is right if the run on each side is one piece of the zone, or
none.  `MergesCleanly` is this condition in terms of the headers, in the two zones of the running
system, and `PmaInv.freePages` says that it is enough there.
-/

namespace Cuore

open Function Pma Piece

variable {A : PmaArea} {F : ℕ → Prop} {s s' : Pma} {free rest : List (PmaZoneId × Piece)}
  {hand live : List Piece} {z : PmaZoneId} {b c : Piece} {m n p : ℕ}

/-! ## Runs of free pages -/

lemma pmaFindFreeStart_le : pmaFindFreeStart z s n ≤ n := by
  induction n with
  | zero => exact Nat.le_refl 0
  | succ n ih =>
    rw [pmaFindFreeStart]
    split_ifs <;> omega

/-- The pages of the run are free. -/
lemma isFree_of_pmaFindFreeStart (hp : pmaFindFreeStart z s n ≤ p) (hn : p < n) :
    pmaPageIsFree z p s = true := by
  induction n with
  | zero => omega
  | succ n ih =>
    rw [pmaFindFreeStart] at hp
    split_ifs at hp with hfree
    · rcases Nat.lt_succ_iff_lt_or_eq.mp hn with hn | rfl
      · exact ih hp hn
      · exact hfree
    · omega

/-- The page before the run is not. -/
lemma pmaFindFreeStart_maximal (hp : p + 1 = pmaFindFreeStart z s n) :
    pmaPageIsFree z p s = false := by
  induction n with
  | zero => simp [pmaFindFreeStart] at hp
  | succ n ih =>
    rw [pmaFindFreeStart] at hp
    split_ifs at hp with hfree
    · exact ih hp
    · obtain rfl : p = n := by omega
      simpa using hfree

/-- The run from a free page on is not empty. -/
lemma lt_pmaFindFreeEnd (hfree : pmaPageIsFree z n s = true) : n < pmaFindFreeEnd z s n := by
  have hge : ∀ fuel n, n ≤ pmaFindFreeEndLoop z s fuel n := by
    intro fuel
    induction fuel with
    | zero => exact fun n => Nat.le_refl n
    | succ fuel ih =>
      intro n
      rw [pmaFindFreeEndLoop]
      split_ifs
      · exact Nat.le_of_succ_le (ih (n + 1))
      · exact Nat.le_refl n
  have hlt : n < (s.zone z).totalPages := by
    rw [pmaPageIsFree, Bool.and_eq_true, decide_eq_true_iff] at hfree
    exact hfree.1
  obtain ⟨fuel, hfuel⟩ : ∃ fuel, (s.zone z).totalPages - n = fuel + 1 :=
    Nat.exists_eq_add_of_le' (by omega)
  rw [pmaFindFreeEnd, hfuel, pmaFindFreeEndLoop, if_pos hfree]
  exact hge fuel (n + 1)

lemma pmaFindFreeStart_congr (h : ∀ p < n, pmaPageIsFree z p s' = pmaPageIsFree z p s) :
    pmaFindFreeStart z s' n = pmaFindFreeStart z s n := by
  induction n with
  | zero => rfl
  | succ n ih =>
    rw [pmaFindFreeStart, pmaFindFreeStart, h n (by omega), ih fun p hp => h p (by omega)]

lemma pmaFindFreeEnd_congr (h : ∀ p, n ≤ p → pmaPageIsFree z p s' = pmaPageIsFree z p s)
    (htotal : totals s'.zone z = totals s.zone z) :
    pmaFindFreeEnd z s' n = pmaFindFreeEnd z s n := by
  have hloop : ∀ fuel n, (∀ p, n ≤ p → pmaPageIsFree z p s' = pmaPageIsFree z p s) →
      pmaFindFreeEndLoop z s' fuel n = pmaFindFreeEndLoop z s fuel n := by
    intro fuel
    induction fuel with
    | zero => exact fun _ _ => rfl
    | succ fuel ih =>
      intro n h
      rw [pmaFindFreeEndLoop, pmaFindFreeEndLoop, h n (Nat.le_refl n),
        ih (n + 1) fun p hp => h p (by omega)]
  have htotal' : (s'.zone z).totalPages = (s.zone z).totalPages := htotal
  rw [pmaFindFreeEnd, pmaFindFreeEnd, htotal', hloop _ n h]

/-- A page of a zone is free exactly if a piece has it. -/
lemma PmaInv.isFree_iff (h : PmaInv A F s free hand live) (hbits : A.bits) (hz : A.view z) :
    pmaPageIsFree z p s = true ↔ p < A.hi z ∧ ∃ b ∈ hand ++ free.map Prod.snd, p ∈ b := by
  have htotal : (s.zone z).totalPages = A.hi z := h.total_eq hbits z hz
  rw [pmaPageIsFree, Bool.and_eq_true, decide_eq_true_iff, Bool.not_eq_true', htotal]
  exact and_congr_right fun hp => h.clear hbits z hz p hp

/-- The first page of the merged block. -/
def mergeStart (z : PmaZoneId) (s : Pma) (start : ℕ) : ℕ :=
  if start > 0 ∧ pmaPageIsFree z (start - 1) s then pmaFindFreeStart z s (start - 1) else start

/-- The end of the merged block. -/
def mergeEnd (z : PmaZoneId) (s : Pma) (stop : ℕ) : ℕ :=
  if pmaPageIsFree z stop s then pmaFindFreeEnd z s stop else stop

/-- The run to the left of a page. -/
lemma pmaFindFreeStart_eq (hle : p ≤ n) (hfree : ∀ q, p ≤ q → q < n → pmaPageIsFree z q s = true)
    (hstop : ∀ q, q + 1 = p → pmaPageIsFree z q s = false) : pmaFindFreeStart z s n = p := by
  have hge : p ≤ pmaFindFreeStart z s n := by
    by_contra hlt
    have h := isFree_of_pmaFindFreeStart (z := z) (s := s) (n := n) (p := p - 1) (by omega)
      (by omega)
    rw [hstop (p - 1) (by omega)] at h
    exact Bool.false_ne_true h
  refine Nat.le_antisymm ?_ hge
  by_contra hlt
  have hle' : pmaFindFreeStart z s n ≤ n := pmaFindFreeStart_le
  have h := pmaFindFreeStart_maximal (z := z) (s := s) (n := n)
    (p := pmaFindFreeStart z s n - 1) (by omega)
  rw [hfree _ (by omega) (by omega)] at h
  exact Bool.false_ne_true h.symm

lemma mergeStart_eq (hle : p ≤ n) (hfree : ∀ q, p ≤ q → q < n → pmaPageIsFree z q s = true)
    (hstop : ∀ q, q + 1 = p → pmaPageIsFree z q s = false) : mergeStart z s n = p := by
  unfold mergeStart
  by_cases hcond : n > 0 ∧ pmaPageIsFree z (n - 1) s = true
  · rw [if_pos hcond]
    have hlt : p < n := by
      by_contra hge
      have h := hstop (n - 1) (by omega)
      rw [hcond.2] at h
      exact Bool.false_ne_true h.symm
    exact pmaFindFreeStart_eq (by omega) (fun q hq hqn => hfree q hq (by omega)) hstop
  · rw [if_neg hcond]
    by_contra hne
    exact hcond ⟨by omega, hfree (n - 1) (by omega) (by omega)⟩

/-- The run from a page to the right. -/
lemma pmaFindFreeEnd_eq (hle : n ≤ p) (hfree : ∀ q, n ≤ q → q < p → pmaPageIsFree z q s = true)
    (hstop : pmaPageIsFree z p s = false) : pmaFindFreeEnd z s n = p := by
  have hloop : ∀ fuel n, n ≤ p → p ≤ n + fuel →
      (∀ q, n ≤ q → q < p → pmaPageIsFree z q s = true) → pmaFindFreeEndLoop z s fuel n = p := by
    intro fuel
    induction fuel with
    | zero => exact fun n hle hge _ => Nat.le_antisymm hle hge
    | succ fuel ih =>
      intro n hle hge hfree
      rw [pmaFindFreeEndLoop]
      rcases Nat.eq_or_lt_of_le hle with rfl | hlt
      · rw [hstop]
        exact if_neg Bool.false_ne_true
      · rw [if_pos (hfree n (Nat.le_refl n) hlt)]
        exact ih (n + 1) hlt (by omega) fun q hq hqp => hfree q (by omega) hqp
  -- free pages are below the end of the zone
  have htotal : p ≤ n + ((s.zone z).totalPages - n) := by
    by_contra hgt
    have h := hfree (p - 1) (by omega) (by omega)
    rw [pmaPageIsFree, Bool.and_eq_true, decide_eq_true_iff] at h
    omega
  exact hloop _ n hle htotal hfree

lemma mergeEnd_eq (hle : n ≤ p) (hfree : ∀ q, n ≤ q → q < p → pmaPageIsFree z q s = true)
    (hstop : pmaPageIsFree z p s = false) : mergeEnd z s n = p := by
  unfold mergeEnd
  rcases Nat.eq_or_lt_of_le hle with rfl | hlt
  · exact if_neg (by simp [hstop])
  · rw [if_pos (hfree n (Nat.le_refl n) hlt)]
    exact pmaFindFreeEnd_eq hle hfree hstop

/-! ## Coalescing -/

lemma TlsfHolds.perm {Z : PmaZoneId → Bool} (h : TlsfHolds Z s free) (hperm : free.Perm rest) :
    TlsfHolds Z s rest := by
  obtain ⟨hnd, L, hL, hfree⟩ := h
  exact ⟨hperm.nodup_iff.mp hnd, L, hL, fun z b => hperm.mem_iff.symm.trans (hfree z b)⟩

lemma PmaInv.perm_free (h : PmaInv A F s free hand live) (hperm : free.Perm rest) :
    PmaInv A F s rest hand live :=
  h.regroup (SameBlocks.refl s) (h.holds.perm hperm) ((hperm.map Prod.snd).append_left hand)
    fun x hx => h.zoned x (hperm.mem_iff.mpr hx)

/-- Coalescing backward joins the piece in the hand with the piece before it, of `m` pages. -/
lemma PmaInv.coalesceBackward (h : PmaInv A F s free [b] live)
    (hm : mergeStart z s b.start + m = b.start)
    (hperm : free.Perm ((pagesFrom (mergeStart z s b.start) m).map (Prod.mk z) ++ rest))
    (hsize : m + b.size < 2 ^ 36) :
    ∃ s', pmaCoalesceBackward z b.start s = some (mergeStart z s b.start, s') ∧ SameBlocks s s' ∧
      PmaInv A F s' rest [⟨mergeStart z s b.start, m + b.size⟩] live := by
  obtain ⟨start, size⟩ := b
  dsimp only at hm hsize hperm ⊢
  unfold pmaCoalesceBackward
  by_cases hcond : start > 0 ∧ pmaPageIsFree z (start - 1) s = true
  · have hrun : mergeStart z s start = pmaFindFreeStart z s (start - 1) := if_pos hcond
    have hle : pmaFindFreeStart z s (start - 1) ≤ start - 1 := pmaFindFreeStart_le
    rw [hrun] at hm hperm ⊢
    rw [pagesFrom_of_pos (by omega)] at hperm
    obtain ⟨s', heq, hsame, h'⟩ := h.take (b := ⟨pmaFindFreeStart z s (start - 1), m⟩) hperm
    dsimp only at heq
    refine ⟨s', ?_, hsame, ?_⟩
    · rw [if_pos hcond]
      dsimp only
      rw [heq]
      rfl
    · generalize pmaFindFreeStart z s (start - 1) = p at hm h' ⊢
      subst hm
      exact h'.join hsize
  · have hrun : mergeStart z s start = start := if_neg hcond
    rw [hrun] at hm hperm ⊢
    obtain rfl : m = 0 := by omega
    refine ⟨s, if_neg hcond, SameBlocks.refl s, ?_⟩
    rw [Nat.zero_add]
    exact h.perm_free hperm

/-- Coalescing forward joins the piece in the hand with the piece behind it, of `n` pages. -/
lemma PmaInv.coalesceForward (h : PmaInv A F s free [b] live)
    (hn : mergeEnd z s b.stop = b.stop + n)
    (hperm : free.Perm ((pagesFrom b.stop n).map (Prod.mk z) ++ rest))
    (hsize : b.size + n < 2 ^ 36) :
    ∃ s', pmaCoalesceForward z b.stop s = some (b.stop + n, s') ∧ SameBlocks s s' ∧
      PmaInv A F s' rest [⟨b.start, b.size + n⟩] live := by
  obtain ⟨start, size⟩ := b
  simp only [Piece.stop] at hn hperm hsize ⊢
  unfold pmaCoalesceForward
  by_cases hcond : start + size < (s.zone z).totalPages ∧ pmaPageIsFree z (start + size) s = true
  · have hrun : mergeEnd z s (start + size) = pmaFindFreeEnd z s (start + size) := if_pos hcond.2
    have hlt := lt_pmaFindFreeEnd hcond.2
    rw [hrun] at hn
    rw [pagesFrom_of_pos (by omega)] at hperm
    obtain ⟨s', heq, hsame, h'⟩ := h.take (b := ⟨start + size, n⟩) hperm
    dsimp only at heq
    have hswap : PmaInv A F s' rest [⟨start, size⟩, ⟨start + size, n⟩] live :=
      h'.regroup (SameBlocks.refl s') h'.holds ((List.Perm.swap _ _ _).append_right _) h'.zoned
    refine ⟨s', ?_, hsame, hswap.join hsize⟩
    rw [if_pos hcond, hn]
    dsimp only
    rw [heq]
    rfl
  · -- a free page behind the range is a page of the zone
    have hrun : mergeEnd z s (start + size) = start + size := by
      refine if_neg fun hfree => hcond ⟨?_, hfree⟩
      rw [pmaPageIsFree, Bool.and_eq_true, decide_eq_true_iff] at hfree
      exact hfree.1
    obtain rfl : n = 0 := by omega
    exact ⟨s, if_neg hcond, SameBlocks.refl s, h.perm_free hperm⟩

lemma SameBlocks.isFree (h : SameBlocks s s') : pmaPageIsFree z p s' = pmaPageIsFree z p s := by
  have htotal : (s'.zone z).totalPages = (s.zone z).totalPages := congrFun h.totals z
  rw [pmaPageIsFree, pmaPageIsFree, htotal, h.bitmap]

/-- Marking the pages of a piece as free says nothing about the others. -/
lemma isFree_setFree_of_not_mem (hp : p ∉ b) :
    pmaPageIsFree z p (pmaForPages (pmaPageSetFree z) b.start b.size s) = pmaPageIsFree z p s := by
  have hif : ¬(b.start ≤ p ∧ p < b.start + b.size ∧ p < (s.zone z).totalPages) := fun h' =>
    hp ⟨h'.1, h'.2.1⟩
  rw [pmaForPages_setFree, pmaPageIsFree, pmaPageIsFree]
  dsimp only
  rw [if_neg hif]

lemma mergeStart_congr (h : ∀ p < n, pmaPageIsFree z p s' = pmaPageIsFree z p s) :
    mergeStart z s' n = mergeStart z s n := by
  unfold mergeStart
  rcases Nat.eq_zero_or_pos n with rfl | hpos
  · rfl
  · rw [h (n - 1) (by omega), pmaFindFreeStart_congr fun p hp => h p (by omega)]

lemma mergeEnd_congr (h : ∀ p, n ≤ p → pmaPageIsFree z p s' = pmaPageIsFree z p s)
    (htotal : totals s'.zone z = totals s.zone z) : mergeEnd z s' n = mergeEnd z s n := by
  unfold mergeEnd
  rw [h n (Nat.le_refl n), pmaFindFreeEnd_congr h htotal]

/-- **`pma_zone_free_range`**, of a range with one piece before it, of `m` pages, or none, and one
behind it, of `n` pages, or none. -/
lemma PmaInv.freeRange (h : PmaInv A F s free [] (b :: live)) (hbits : A.bits) (hz : InZone A z b)
    (hm : mergeStart z s b.start + m = b.start) (hn : mergeEnd z s b.stop = b.stop + n)
    (hperm : free.Perm ((pagesFrom (mergeStart z s b.start) m).map (Prod.mk z) ++
      ((pagesFrom b.stop n).map (Prod.mk z) ++ rest)))
    (hsize : m + b.size + n < 2 ^ 36)
    (hmerged : InZone A z ⟨mergeStart z s b.start, m + b.size + n⟩) :
    ∃ s', pmaZoneFreeRange z (b.start * pageSize) b.size s = some s' ∧
      PmaInv A F s' ((z, ⟨mergeStart z s b.start, m + b.size + n⟩) :: rest) [] live := by
  have hpos := h.packed.pos b (by simp)
  have htotal : (s.zone z).totalPages = A.hi z := h.total_eq hbits z hz.1
  have hword := h.stop_lt_word hz
  have hfits : ¬wadd (b.start * pageSize) (wmul b.size pageSize) >
      wmul (s.zone z).totalPages pageSize := by
    have hhi : A.hi z * pageSize < word :=
      lt_of_le_of_lt (Nat.mul_le_mul_right _ (h.addressable z hz.1)) (by decide)
    have hle := Nat.mul_le_mul_right pageSize hz.2.2
    simp only [Piece.stop, Nat.add_mul] at hword hle
    rw [htotal, wmul_of_lt (by omega), wmul_of_lt hhi, wadd_of_lt hword]
    omega
  unfold pmaZoneFreeRange
  rw [if_neg hpos.ne', if_neg hfits, Nat.mul_div_cancel _ pageSize_pos]
  dsimp only
  have h₁ := h.release hz
  have hother : ∀ p ∉ b, pmaPageIsFree z p
      (pmaForPages (pmaPageSetFree z) b.start b.size s) = pmaPageIsFree z p s :=
    fun p hp => isFree_setFree_of_not_mem hp
  have htotals₁ : totals (pmaForPages (pmaPageSetFree z) b.start b.size s).zone z =
      totals s.zone z := by rw [pmaForPages_setFree]
  generalize pmaForPages (pmaPageSetFree z) b.start b.size s = s₁ at h₁ hother htotals₁ ⊢
  -- the piece before
  have hstart₁ : mergeStart z s₁ b.start = mergeStart z s b.start :=
    mergeStart_congr fun p hp => hother p (by rw [mem_iff]; omega)
  have hperm₁ : free.Perm ((pagesFrom (mergeStart z s₁ b.start) m).map (Prod.mk z) ++
      ((pagesFrom b.stop n).map (Prod.mk z) ++ rest)) := hstart₁ ▸ hperm
  obtain ⟨s₂, heq₂, hsame₂, h₂⟩ := h₁.coalesceBackward (hstart₁ ▸ hm) hperm₁ (by omega)
  rw [hstart₁] at heq₂ h₂
  -- the piece behind
  have hstop : (⟨mergeStart z s b.start, m + b.size⟩ : Piece).stop = b.stop := by
    simp only [Piece.stop]
    omega
  have hend₂ : mergeEnd z s₂ b.stop = mergeEnd z s b.stop := by
    refine mergeEnd_congr (fun p hp => ?_) (by rw [hsame₂.totals, htotals₁])
    rw [hsame₂.isFree, hother p (by simp only [mem_iff, Piece.stop] at hp ⊢; omega)]
  have hperm₂ : ((pagesFrom b.stop n).map (Prod.mk z) ++ rest).Perm
      ((pagesFrom (⟨mergeStart z s b.start, m + b.size⟩ : Piece).stop n).map
        (Prod.mk z) ++ rest) := by
    rw [hstop]
  obtain ⟨s₃, heq₃, -, h₃⟩ := h₂.coalesceForward (by rw [hstop, hend₂, hn]) hperm₂ hsize
  rw [hstop] at heq₃
  obtain ⟨s₄, heq₄, -, h₄⟩ := h₃.putNew hmerged
  dsimp only at heq₄ h₄
  have hcount : b.stop + n - mergeStart z s b.start = m + b.size + n := by
    simp only [Piece.stop]
    omega
  have hheader : (m + b.size + n) * pageSize ≥ pmaBlockHeaderSize := by
    simp only [pageSize, pmaBlockHeaderSize]
    omega
  refine ⟨s₄, ?_, h₄⟩
  rw [heq₂]
  dsimp only [Option.bind_eq_bind, Option.bind_some]
  rw [show b.start + b.size = b.stop from rfl, heq₃]
  dsimp only [Option.bind_some]
  rw [hcount, if_pos hheader]
  exact heq₄

/-! ## The two zones -/

/-- The run of free pages before a range is one block, and of the same zone. -/
def MergesBackward (z : PmaZoneId) (s : Pma) (start : ℕ) : Prop :=
  start > 0 ∧ pmaPageIsFree z (start - 1) s = true →
    (s.hdr (pmaFindFreeStart z s (start - 1) * pageSize)).blockSize =
        (start - pmaFindFreeStart z s (start - 1)) * pageSize ∧
      (z = .normal → pmaZone32bit ≤ pmaFindFreeStart z s (start - 1))

/-- The run of free pages behind a range is one block. -/
def MergesForward (z : PmaZoneId) (s : Pma) (stop : ℕ) : Prop :=
  pmaPageIsFree z stop s = true →
    (s.hdr (stop * pageSize)).blockSize = (pmaFindFreeEnd z s stop - stop) * pageSize

/-- **Freeing `count` pages at `phys` merges cleanly**: on each side of the range, the run of free
pages, if there is one, is exactly one block, and does not lie across 4 GiB. -/
def MergesCleanly (s : Pma) (phys count : ℕ) : Prop :=
  MergesBackward (pmaZoneOf phys) s (phys / pageSize) ∧
    MergesForward (pmaZoneOf phys) s (phys / pageSize + count)

instance : Decidable (MergesBackward z s n) := inferInstanceAs (Decidable (_ → _))

instance : Decidable (MergesForward z s n) := inferInstanceAs (Decidable (_ → _))

instance : Decidable (MergesCleanly s m n) := inferInstanceAs (Decidable (_ ∧ _))

variable {total : ℕ}

/-- A range in one zone is freed there. -/
lemma pmaFreePages_eq (hz : InZone (pmaZones total) z b) (hstart : 0 < b.start) (hpos : 0 < b.size)
    (hword : b.stop * pageSize < word) :
    pmaFreePages (b.start * pageSize) b.size s =
    pmaZoneFreeRange z (b.start * pageSize) b.size s := by
  have hphys : b.start * pageSize ≠ 0 := (Nat.mul_pos hstart pageSize_pos).ne'
  have hlt : b.start * pageSize < b.start * pageSize + b.size * pageSize :=
    Nat.lt_add_of_pos_right (Nat.mul_pos hpos pageSize_pos)
  have hsize : (b.start * pageSize + b.size * pageSize - b.start * pageSize) / pageSize =
    b.size := by
    rw [Nat.add_sub_cancel_left, Nat.mul_div_cancel _ pageSize_pos]
  have hstop : wadd (b.start * pageSize) (wmul b.size pageSize) =
      b.start * pageSize + b.size * pageSize := by
    simp only [Piece.stop, Nat.add_mul] at hword
    rw [wmul_of_lt (by omega), wadd_of_lt hword]
  unfold pmaFreePages
  rw [if_neg hphys, hstop]
  cases z with
  | low =>
    have hle : b.start * pageSize + b.size * pageSize ≤ pmaZone32bit * pageSize := by
      rw [← Nat.add_mul]
      exact Nat.mul_le_mul_right _ (inZone_low.mp hz).2
    generalize pmaZone32bit * pageSize = limit at hle ⊢
    have hnormal : ¬b.start * pageSize + b.size * pageSize > max (b.start * pageSize) limit := by
      omega
    simp only [Nat.min_eq_left hle, pmaWhen_pos hlt, hsize]
    cases pmaZoneFreeRange .low (b.start * pageSize) b.size s with
    | none => rfl
    | some s' => exact pmaWhen_neg hnormal
  | normal =>
    have hge : pmaZone32bit * pageSize ≤ b.start * pageSize :=
      Nat.mul_le_mul_right _ (inZone_normal.mp hz).1
    generalize pmaZone32bit * pageSize = limit at hge ⊢
    have hlow : ¬min (b.start * pageSize + b.size * pageSize) limit > b.start * pageSize := by
      omega
    simp only [pmaWhen_neg hlow, Nat.max_eq_left hge, hsize]
    exact pmaWhen_pos hlt

/-- The run before a live range is a piece if its first header says so. -/
lemma PmaInv.before (h : PmaInv A F s free [] (b :: live)) (hbits : A.bits) (hz : A.view z)
    (hfree : pmaPageIsFree z (b.start - 1) s = true)
    (hsize : (s.hdr (pmaFindFreeStart z s (b.start - 1) * pageSize)).blockSize =
      (b.start - pmaFindFreeStart z s (b.start - 1)) * pageSize) :
    ∃ z', (z', (⟨pmaFindFreeStart z s (b.start - 1),
      b.start - pmaFindFreeStart z s (b.start - 1)⟩ : Piece)) ∈ free := by
  have hle : pmaFindFreeStart z s (b.start - 1) ≤ b.start - 1 := pmaFindFreeStart_le
  have hmax := fun q => pmaFindFreeStart_maximal (p := q) (z := z) (s := s) (n := b.start - 1)
  have hp : pmaPageIsFree z (pmaFindFreeStart z s (b.start - 1)) s = true := by
    rcases Nat.lt_or_ge (pmaFindFreeStart z s (b.start - 1)) (b.start - 1) with hlt | hge
    · exact isFree_of_pmaFindFreeStart (Nat.le_refl _) hlt
    · rwa [Nat.le_antisymm hle hge]
  generalize pmaFindFreeStart z s (b.start - 1) = p at hle hmax hp hsize ⊢
  obtain ⟨hlt, c, hc, hpc⟩ := (h.isFree_iff hbits hz).mp hp
  obtain ⟨⟨z', c⟩, hmem, rfl⟩ := List.mem_map.mp hc
  dsimp only at hpc
  -- the run starts with the block
  have hcstart : c.start = p := by
    by_contra hne
    rw [mem_iff] at hpc
    obtain ⟨q, rfl⟩ : ∃ q, p = q + 1 := ⟨p - 1, by omega⟩
    have hq : pmaPageIsFree z q s = true :=
      (h.isFree_iff hbits hz).mpr ⟨by omega, c, hc, by rw [mem_iff]; omega⟩
    rw [hmax q rfl] at hq
    exact Bool.false_ne_true hq
  have hcsize := h.holds.blockSize_eq hmem
  rw [hcstart, hsize, mul_pageSize_inj] at hcsize
  obtain ⟨c₁, c₂⟩ := c
  dsimp only at hcstart hcsize
  subst hcstart hcsize
  exact ⟨z', hmem⟩

/-- The run behind a live range starts with a piece, and is it if the header says so. -/
lemma PmaInv.behind (h : PmaInv A F s free [] (b :: live)) (hbits : A.bits) (hz : A.view z)
    (hfree : pmaPageIsFree z b.stop s = true)
    (hsize : (s.hdr (b.stop * pageSize)).blockSize =
      (pmaFindFreeEnd z s b.stop - b.stop) * pageSize) :
    ∃ z', (z', (⟨b.stop, pmaFindFreeEnd z s b.stop - b.stop⟩ : Piece)) ∈ free := by
  have hpos := h.packed.pos b (by simp)
  obtain ⟨hlt, c, hc, hpc⟩ := (h.isFree_iff hbits hz).mp hfree
  obtain ⟨⟨z', c⟩, hmem, rfl⟩ := List.mem_map.mp hc
  dsimp only at hpc
  -- the page before it is handed out
  have hcstart : c.start = b.stop := by
    have hapart := h.apart_free hmem (b := b) (by simp)
    rw [apart_iff] at hapart
    rw [mem_iff] at hpc
    dsimp only at hapart
    simp only [Piece.stop] at hpc ⊢
    omega
  have hcsize := h.holds.blockSize_eq hmem
  rw [hcstart, hsize, mul_pageSize_inj] at hcsize
  obtain ⟨c₁, c₂⟩ := c
  dsimp only at hcstart hcsize
  subst hcstart hcsize
  exact ⟨z', hmem⟩

/-- The run before a live range, if it merges cleanly. -/
lemma PmaInv.mergesBackward (h : PmaInv (pmaZones total) F s free [] (b :: live))
    (hz : InZone (pmaZones total) z b) (hmerge : MergesBackward z s b.start) :
    ∃ m rest, mergeStart z s b.start + m = b.start ∧
      free.Perm ((pagesFrom (mergeStart z s b.start) m).map (Prod.mk z) ++ rest) := by
  by_cases hcond : b.start > 0 ∧ pmaPageIsFree z (b.start - 1) s = true
  · have hrun : mergeStart z s b.start = pmaFindFreeStart z s (b.start - 1) := if_pos hcond
    have hle : pmaFindFreeStart z s (b.start - 1) ≤ b.start - 1 := pmaFindFreeStart_le
    obtain ⟨hsize, hzone⟩ := hmerge hcond
    obtain ⟨z', hmem⟩ := h.before rfl rfl hcond.2 hsize
    have hz' := h.zoned _ hmem
    obtain rfl : z' = z := by
      cases z <;> cases z' <;> simp only [inZone_low, inZone_normal, Piece.stop, true_implies] at *
      · omega
      · omega
    obtain ⟨rest, hperm⟩ : ∃ rest, free.Perm (_ :: rest) := ⟨_, List.perm_cons_erase hmem⟩
    rw [hrun]
    refine ⟨b.start - pmaFindFreeStart z' s (b.start - 1), rest, by omega, ?_⟩
    rw [pagesFrom_of_pos (by omega)]
    exact hperm
  · have hrun : mergeStart z s b.start = b.start := if_neg hcond
    exact ⟨0, free, hrun, List.Perm.refl free⟩

/-- The run behind a live range, if it merges cleanly. -/
lemma PmaInv.mergesForward (h : PmaInv (pmaZones total) F s free [] (b :: live))
    (hz : InZone (pmaZones total) z b) (hmerge : MergesForward z s b.stop) :
    ∃ n, mergeEnd z s b.stop = b.stop + n ∧ ∀ x ∈ (pagesFrom b.stop n).map (Prod.mk z),
      x ∈ free := by
  by_cases hfree : pmaPageIsFree z b.stop s = true
  · have hrun : mergeEnd z s b.stop = pmaFindFreeEnd z s b.stop := if_pos hfree
    have hlt := lt_pmaFindFreeEnd hfree
    have hpos := h.packed.pos b (by simp)
    obtain ⟨z', hmem⟩ := h.behind rfl rfl hfree (hmerge hfree)
    have hz' := h.zoned _ hmem
    -- the page behind the range is a page of the zone
    have hhi : b.stop < pmaZoneTotal total z := ((h.isFree_iff rfl rfl).mp hfree).1
    obtain rfl : z' = z := by
      cases z <;> cases z' <;>
        simp only [inZone_low, inZone_normal, Piece.stop, pmaZoneTotal] at *
      · omega
      · omega
    refine ⟨pmaFindFreeEnd z' s b.stop - b.stop, by omega, ?_⟩
    rw [pagesFrom_of_pos (by omega)]
    simpa using hmem
  · exact ⟨0, if_neg hfree, by simp⟩

/-- **`pma_free_pages`**, of a range whose neighbours are one block each. -/
lemma PmaInv.freePages (h : PmaInv (pmaZones total) F s free [] (b :: live)) (hF : ¬F 0)
    (htotal : total ≤ 2 ^ 36) (hmerge : MergesCleanly s (b.start * pageSize) b.size) :
    ∃ s' free', pmaFreePages (b.start * pageSize) b.size s = some s' ∧
      PmaInv (pmaZones total) F s' free' [] live := by
  have hpos := h.packed.pos b (by simp)
  have hpage : ∀ c : Piece, F c.start → 0 < c.start := fun c hc =>
    Nat.pos_of_ne_zero fun h0 => hF (h0 ▸ hc)
  have hstart : 0 < b.start := hpage b ((h.within b (by simp)).2 _ (start_mem hpos))
  obtain ⟨z, hz⟩ := h.liveZoned b (by simp)
  obtain ⟨hback, hforw⟩ := hmerge
  rw [pmaZoneOf_eq hz (start_mem hpos), Nat.mul_div_cancel _ pageSize_pos] at hback hforw
  obtain ⟨m, rest₁, hm, hperm₁⟩ := h.mergesBackward hz hback
  obtain ⟨n, hn, hmem⟩ := h.mergesForward hz hforw
  -- the piece behind is not the one before
  obtain ⟨rest, hperm₂⟩ : ∃ rest, rest₁.Perm ((pagesFrom b.stop n).map (Prod.mk z) ++ rest) := by
    rcases Nat.eq_zero_or_pos n with rfl | hn0
    · exact ⟨rest₁, List.Perm.refl rest₁⟩
    · rw [pagesFrom_of_pos hn0] at hmem ⊢
      have hmem' := hperm₁.mem_iff.mp (hmem (z, ⟨b.stop, n⟩) (by simp))
      refine ⟨_, List.perm_cons_erase ((List.mem_append.mp hmem').resolve_left fun hin => ?_)⟩
      obtain ⟨c, hc, heq⟩ := List.mem_map.mp hin
      obtain ⟨-, rfl⟩ := mem_pagesFrom.mp hc
      have hstop := congrArg (fun x => x.2.start) heq
      simp only [Piece.stop] at hstop
      omega
  have hfree := hperm₁.trans (hperm₂.append_left _)
  have hbefore : 0 < m → (z, (⟨mergeStart z s b.start, m⟩ : Piece)) ∈ free := fun hm0 =>
    hfree.mem_iff.mpr (by simp [pagesFrom_of_pos hm0])
  -- the zone has the merged pages
  have hmerged : InZone (pmaZones total) z ⟨mergeStart z s b.start, m + b.size + n⟩ := by
    refine ⟨rfl, ?_, ?_⟩
    · rcases Nat.eq_zero_or_pos m with rfl | hm0
      · exact le_of_le_of_eq hz.2.1 hm.symm
      · exact (h.zoned _ (hbefore hm0)).2.1
    · have hstop : (⟨mergeStart z s b.start, m + b.size + n⟩ : Piece).stop = b.stop + n := by
        simp only [Piece.stop]
        omega
      rw [hstop]
      rcases Nat.eq_zero_or_pos n with rfl | hn0
      · exact hz.2.2
      · exact (h.zoned (z, ⟨b.stop, n⟩) (hmem _ (by simp [pagesFrom_of_pos hn0]))).2.2
  have hfirst : 0 < mergeStart z s b.start := by
    rcases Nat.eq_zero_or_pos m with rfl | hm0
    · omega
    · refine hpage ⟨mergeStart z s b.start, m⟩ ((h.within _ ?_).2 _ (start_mem hm0))
      simp only [List.mem_append, List.mem_map]
      exact .inl (.inr ⟨_, hbefore hm0, rfl⟩)
  have hlimit : m + b.size + n < 2 ^ 36 := by
    have hhi : mergeStart z s b.start + (m + b.size + n) ≤ pmaZoneTotal total z := hmerged.2.2
    have hle : pmaZoneTotal total z ≤ total := by
      cases z
      · exact Nat.le_refl _
      · exact Nat.min_le_left _ _
    omega
  rw [pmaFreePages_eq hz hstart hpos (h.stop_lt_word hz)]
  obtain ⟨s', heq, h'⟩ := h.freeRange rfl hz hm hn hfree hlimit hmerged
  exact ⟨s', _, heq, h'⟩

end Cuore
