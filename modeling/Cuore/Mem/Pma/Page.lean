import Cuore.Mem.Pma.Count

/-!
# Free pages (`mem/pma.c`)

A page is free exactly if its bit in the bitmap is clear.  What a call does to these bits can be
said without the lists, and holds whatever the headers contain: an allocation sets bits only
(`PmaAlloc.onlyTakes`), and `pma_free_pages` clears bits only (`pmaFreePages_onlyFrees`).

What `pma_free_pages` clears, if it merges cleanly, are pages of its range
(`pmaZoneFreeRange_within`), so that used pages can be freed (`PmaWellFormed.freeUsed`).

Whether an allocation finds anything depends on the lists.  For one page they are exact: in a
well-formed state, `pma_alloc_pages(1)` fails exactly if no page is free
(`PmaWellFormed.allocPage`).
-/

namespace Cuore

open Pma Piece

/-- The pages that are free, of the `total` pages of the machine. -/
def pmaFreeSet (total : ℕ) (s : Pma) : Set ℕ := {q | q < total ∧ s.bitmap q = false}

variable {s s' s'' : Pma} {z : PmaZoneId} {zs : List PmaZoneId} {a m n align ret total : ℕ}

/-! ## Bits that are set -/

/-- Pages are taken, and none becomes free. -/
def OnlyTakes (s s' : Pma) : Prop := ∀ q, s'.bitmap q = false → s.bitmap q = false

lemma OnlyTakes.refl (s : Pma) : OnlyTakes s s := fun _ h => h

lemma OnlyTakes.trans (h : OnlyTakes s s') (h' : OnlyTakes s' s'') : OnlyTakes s s'' :=
  fun q hq => h q (h' q hq)

lemma OnlyTakes.freeSet_subset (h : OnlyTakes s s') : pmaFreeSet total s' ⊆ pmaFreeSet total s :=
  fun q hq => ⟨hq.1, h q hq.2⟩

lemma onlyTakes_of_bitmap (h : s'.bitmap = s.bitmap) : OnlyTakes s s' :=
  fun q hq => (congrFun h q).symm.trans hq

lemma SameBlocks.onlyTakes (h : SameBlocks s s') : OnlyTakes s s' := onlyTakes_of_bitmap h.bitmap

lemma onlyTakes_setUsed : OnlyTakes s (pmaForPages (pmaPageSetUsed z) m n s) := by
  rw [pmaForPages_setUsed]
  intro q hq
  dsimp only at hq
  split_ifs at hq
  exact hq

lemma tlsfLocateFree_onlyTakes {found : Option ℕ} (h : tlsfLocateFree z n s = some (found, s')) :
    OnlyTakes s s' := by
  unfold tlsfLocateFree at h
  split_ifs at h
  · obtain ⟨-, rfl⟩ := Prod.mk.inj (Option.some.inj h)
    exact OnlyTakes.refl s
  generalize tlsfMappingInsert n = i at h
  dsimp only at h
  split_ifs at h
  · obtain ⟨r, -, h⟩ := Option.bind_eq_some_iff.mp h
    rcases r with _ | ⟨b, fl, sl⟩
    · obtain ⟨-, rfl⟩ := Prod.mk.inj (Option.some.inj h)
      exact OnlyTakes.refl s
    · obtain ⟨t, hremove, h⟩ := Option.bind_eq_some_iff.mp h
      obtain ⟨-, rfl⟩ := Prod.mk.inj (Option.some.inj h)
      exact (tlsfRemoveFreeBlock_same hremove).onlyTakes
  · obtain ⟨-, rfl⟩ := Prod.mk.inj (Option.some.inj h)
    exact OnlyTakes.refl s

lemma pmaTakeBlock_onlyTakes (h : pmaTakeBlock z m n s = some (a, s')) : OnlyTakes s s' := by
  have hfinish : ∀ {t : Pma}, OnlyTakes t
      (pmaForPages (pmaPageSetUsed z) (n / pageSize) (m / pageSize) (blockMarkUsed t n)) :=
    (onlyTakes_of_bitmap rfl).trans onlyTakes_setUsed
  unfold pmaTakeBlock at h
  dsimp only at h
  split_ifs at h
  · obtain ⟨t, hput, heq⟩ := Option.bind_eq_some_iff.mp h
    obtain ⟨-, rfl⟩ := Prod.mk.inj (Option.some.inj heq)
    exact ((onlyTakes_of_bitmap rfl).trans (tlsfBlockInsert_same hput).onlyTakes).trans hfinish
  · obtain ⟨t, hput, heq⟩ := Option.bind_eq_some_iff.mp h
    obtain ⟨-, rfl⟩ := Prod.mk.inj (Option.some.inj heq)
    exact (tlsfBlockInsert_same hput).onlyTakes
  · obtain ⟨-, rfl⟩ := Prod.mk.inj (Option.some.inj h)
    exact hfinish

lemma pmaAllocFromZone_onlyTakes (h : pmaAllocFromZone z n align s = some (ret, s')) :
    OnlyTakes s s' := by
  obtain ⟨⟨found, t⟩, hlocate, h⟩ := Option.bind_eq_some_iff.mp h
  have hfound := tlsfLocateFree_onlyTakes hlocate
  rcases found with _ | block
  · obtain ⟨-, rfl⟩ := Prod.mk.inj (Option.some.inj h)
    exact hfound
  · dsimp only [pmaAllocFromBlock] at h
    split_ifs at h
    · obtain ⟨u, hput, htake⟩ := Option.bind_eq_some_iff.mp h
      have hsplit := (onlyTakes_of_bitmap rfl).trans (tlsfBlockInsert_same hput).onlyTakes
      exact (hfound.trans hsplit).trans (pmaTakeBlock_onlyTakes htake)
    · obtain ⟨u, hput, h⟩ := Option.bind_eq_some_iff.mp h
      obtain ⟨-, rfl⟩ := Prod.mk.inj (Option.some.inj h)
      exact hfound.trans (tlsfBlockInsert_same hput).onlyTakes
    · exact hfound.trans (pmaTakeBlock_onlyTakes h)

lemma pmaTryZones_onlyTakes (h : pmaTryZones n align zs s = some (ret, s')) : OnlyTakes s s' := by
  induction zs generalizing s with
  | nil =>
    obtain ⟨-, rfl⟩ := Prod.mk.inj (Option.some.inj h)
    exact OnlyTakes.refl s
  | cons z zs ih =>
    obtain ⟨⟨ret', t⟩, halloc, h⟩ := Option.bind_eq_some_iff.mp h
    have hzone := pmaAllocFromZone_onlyTakes halloc
    dsimp only at h
    split_ifs at h
    · exact hzone.trans (ih h)
    · obtain ⟨-, rfl⟩ := Prod.mk.inj (Option.some.inj h)
      exact hzone

/-- **An allocation takes pages only**, in any state. -/
lemma PmaAlloc.onlyTakes {c : PmaAlloc} (h : c.run s = some (ret, s')) : OnlyTakes s s' :=
  pmaTryZones_onlyTakes (c.run_eq.symm.trans h)

/-! ## Bits that are cleared -/

lemma onlyFrees_setFree : OnlyTakes (pmaForPages (pmaPageSetFree z) m n s) s := by
  rw [pmaForPages_setFree]
  intro q hq
  dsimp only
  split_ifs
  · rfl
  · exact hq

lemma SameBlocks.onlyFrees (h : SameBlocks s s') : OnlyTakes s' s :=
  onlyTakes_of_bitmap h.bitmap.symm

lemma pmaCoalesceBackward_bitmap (h : pmaCoalesceBackward z n s = some (m, s')) :
    s'.bitmap = s.bitmap := by
  unfold pmaCoalesceBackward at h
  split_ifs at h
  · obtain ⟨t, hremove, heq⟩ := Option.bind_eq_some_iff.mp h
    obtain ⟨-, rfl⟩ := Prod.mk.inj (Option.some.inj heq)
    exact (tlsfBlockRemove_same hremove).bitmap
  · obtain ⟨-, rfl⟩ := Prod.mk.inj (Option.some.inj h)
    rfl

lemma pmaCoalesceForward_bitmap (h : pmaCoalesceForward z n s = some (m, s')) :
    s'.bitmap = s.bitmap := by
  unfold pmaCoalesceForward at h
  split_ifs at h
  · obtain ⟨t, hremove, heq⟩ := Option.bind_eq_some_iff.mp h
    obtain ⟨-, rfl⟩ := Prod.mk.inj (Option.some.inj heq)
    exact (tlsfBlockRemove_same hremove).bitmap
  · obtain ⟨-, rfl⟩ := Prod.mk.inj (Option.some.inj h)
    rfl

lemma pmaZoneFreeRange_onlyFrees (h : pmaZoneFreeRange z a n s = some s') : OnlyTakes s' s := by
  unfold pmaZoneFreeRange at h
  dsimp only at h
  split_ifs at h
  · obtain rfl := Option.some.inj h
    exact OnlyTakes.refl s
  · obtain rfl := Option.some.inj h
    exact OnlyTakes.refl s
  · obtain ⟨⟨start, t⟩, hback, h⟩ := Option.bind_eq_some_iff.mp h
    obtain ⟨⟨stop, t'⟩, hforw, h⟩ := Option.bind_eq_some_iff.mp h
    have ht' : OnlyTakes t' s :=
      (onlyTakes_of_bitmap ((pmaCoalesceForward_bitmap hforw).trans
        (pmaCoalesceBackward_bitmap hback)).symm).trans onlyFrees_setFree
    dsimp only at h
    split_ifs at h
    · exact (tlsfBlockInsert_same h).onlyFrees.trans ((onlyTakes_of_bitmap rfl).trans ht')
    · obtain rfl := Option.some.inj h
      exact ht'

/-- **`pma_free_pages` frees pages only**, in any state. -/
lemma pmaFreePages_onlyFrees (h : pmaFreePages a n s = some s') : OnlyTakes s' s := by
  have hwhen : ∀ {c : Prop} [Decidable c] {z p k} {t t' : Pma},
      pmaWhen c (pmaZoneFreeRange z p k) t = some t' → OnlyTakes t' t := by
    intro c _ z p k t t' heq
    unfold pmaWhen at heq
    split_ifs at heq
    · exact pmaZoneFreeRange_onlyFrees heq
    · obtain rfl := Option.some.inj heq
      exact OnlyTakes.refl t
  unfold pmaFreePages at h
  split_ifs at h
  · obtain rfl := Option.some.inj h
    exact OnlyTakes.refl s
  · obtain ⟨t, hlow, hnormal⟩ := Option.bind_eq_some_iff.mp h
    exact (hwhen hnormal).trans (hwhen hlow)

lemma pmaZoneFreeRange_within (h : pmaZoneFreeRange z a n s = some s') {q : ℕ}
    (hq : s'.bitmap q = false) :
    s.bitmap q = false ∨ a / pageSize ≤ q ∧ q < a / pageSize + n := by
  have hset : ∀ t : Pma, t.bitmap = (pmaForPages (pmaPageSetFree z) (a / pageSize) n s).bitmap →
      t.bitmap q = false → s.bitmap q = false ∨ a / pageSize ≤ q ∧ q < a / pageSize + n := by
    intro t ht hbit
    rw [ht, pmaForPages_setFree] at hbit
    dsimp only at hbit
    split_ifs at hbit with hin
    · exact .inr ⟨hin.1, hin.2.1⟩
    · exact .inl hbit
  unfold pmaZoneFreeRange at h
  dsimp only at h
  split_ifs at h
  · obtain rfl := Option.some.inj h
    exact .inl hq
  · obtain rfl := Option.some.inj h
    exact .inl hq
  · obtain ⟨⟨start, t⟩, hback, h⟩ := Option.bind_eq_some_iff.mp h
    obtain ⟨⟨stop, t'⟩, hforw, h⟩ := Option.bind_eq_some_iff.mp h
    have ht' : t'.bitmap = (pmaForPages (pmaPageSetFree z) (a / pageSize) n s).bitmap :=
      (pmaCoalesceForward_bitmap hforw).trans (pmaCoalesceBackward_bitmap hback)
    dsimp only at h
    split_ifs at h
    · exact hset s' ((tlsfBlockInsert_same h).bitmap.trans ht') hq
    · obtain rfl := Option.some.inj h
      exact hset t' ht' hq

/-- **Used pages can be freed**, if they are in one zone and merge cleanly, and no others are. -/
lemma PmaWellFormed.freeUsed {p : ℕ} (h : PmaWellFormed total s) (htotal : total ≤ 2 ^ 36)
    (hpos : 0 < n) (hp : 0 < p) (hle : p + n ≤ total)
    (hzone : p + n ≤ pmaZone32bit ∨ pmaZone32bit ≤ p)
    (hused : ∀ q, p ≤ q → q < p + n → s.bitmap q = true)
    (hmerge : MergesCleanly s (p * pageSize) n) :
    ∃ s', pmaFreePages (p * pageSize) n s = some s' ∧ PmaWellFormed total s' ∧
      ∀ q, s'.bitmap q = false → s.bitmap q = false ∨ p ≤ q ∧ q < p + n := by
  obtain ⟨free, hinv⟩ := h
  let b : Piece := ⟨p, n⟩
  obtain ⟨z, hz⟩ : ∃ z, InZone (pmaZones total) z b := by
    rcases hzone with hlow | hnormal
    · exact ⟨.low, inZone_low.mpr ⟨hle, hlow⟩⟩
    · exact ⟨.normal, inZone_normal.mpr ⟨hnormal, hle⟩⟩
  have hapart : ∀ c ∈ free.map Prod.snd, Apart c b := by
    intro c hc
    have hcpos := hinv.packed.pos c (by simpa using hc)
    by_contra hnot
    obtain ⟨hlt, hlt'⟩ := not_or.mp hnot
    simp only [Piece.stop, not_le, b] at hlt hlt'
    -- a page that is in both
    have hq : max c.start p < total := by omega
    have hmem : max c.start p ∈ c := mem_iff.mpr ⟨le_max_left _ _, by omega⟩
    have hfree := (hinv.clear rfl .normal rfl _ hq).mpr ⟨c, by simpa using hc, hmem⟩
    rw [hused _ (le_max_right _ _) (by omega)] at hfree
    exact absurd hfree (by decide)
  have hinv' : PmaInv (pmaZones total) (· ≠ 0) s free [] [b] := by
    refine ⟨hinv.holds, hinv.total_eq, hinv.addressable, ⟨fun c hc => ?_, ?_⟩, fun c hc => ?_,
      hinv.zoned, by simpa using ⟨z, hz⟩, hinv.clear⟩
    · rcases List.mem_append.mp hc with hc | hc
      · exact hinv.packed.pos c (by simpa using hc)
      · rw [List.mem_singleton.mp hc]
        exact hpos
    · have hpieces := hinv.packed.apart
      rw [List.append_nil] at hpieces
      refine List.pairwise_append.mpr ⟨hpieces, List.pairwise_singleton _ _, fun c hc d hd => ?_⟩
      rw [List.mem_singleton.mp hd]
      exact hapart c (by simpa using hc)
    · rcases List.mem_append.mp hc with hc | hc
      · exact hinv.within c (by simpa using hc)
      · rw [List.mem_singleton.mp hc]
        refine ⟨show n < 2 ^ 36 by omega, fun q hq => ?_⟩
        have hge := (mem_iff.mp hq).1
        change p ≤ q at hge
        omega
  obtain ⟨s', free', heq, hwell⟩ := hinv'.freePages (fun h0 => h0 rfl) htotal hmerge
  refine ⟨s', heq, ⟨free', hwell⟩, fun q hq => ?_⟩
  have hstop := hinv'.stop_lt_word hz
  rw [pmaFreePages_eq hz hp hpos hstop] at heq
  have hwithin := pmaZoneFreeRange_within heq hq
  rwa [Nat.mul_div_cancel _ pageSize_pos] at hwithin

/-! ## One page -/

/-- In a zone with a piece, there is one that has a page. -/
lemma noneFits_page_iff {free : List (PmaZoneId × Piece)}
    (h : PmaInv (pmaZones total) (· ≠ 0) s free [] []) :
    NoneFits z 1 1 s ↔ ∀ b, (z, b) ∉ free := by
  have hview : (pmaZones total).view z = true := rfl
  have hsize : (1 + (1 - 1)) * pageSize = pageSize := rfl
  unfold NoneFits
  rw [hsize]
  constructor
  · intro hnone b hb
    rcases h.holds.locate (z := z) hview pageSize with ⟨hfit, -⟩ | ⟨c, rest, -, hfit, -, -,
      hperm, -⟩
    · exact h.holds.firstFit_page_ne_none hview hb (h.pos_of_free hb) hfit
    · have hc : (z, c) ∈ free := hperm.mem_iff.mpr List.mem_cons_self
      have hpos := h.pos_of_free hc
      refine hnone _ hfit ⟨c.start * pageSize, Nat.dvd_mul_left _ _, Nat.le_refl _, ?_⟩
      rw [h.holds.blockSize_eq hc]
      exact Nat.add_le_add_left (Nat.mul_le_mul_right _ hpos) _
  · intro hempty a ha
    rcases h.holds.locate (z := z) hview pageSize with ⟨hfit, -⟩ | ⟨c, rest, -, -, -, -, hperm, -⟩
    · cases ha.symm.trans hfit
    · exact absurd (hperm.mem_iff.mpr List.mem_cons_self) (hempty c)

/-- **`pma_alloc_pages(1)`** fails if no page is free, and takes one if there is one. -/
lemma PmaWellFormed.allocPage (h : PmaWellFormed total s) :
    ∃ ret s', pmaAllocPages 1 s = some (ret, s') ∧
      (pmaFreeSet total s = ∅ ∧ ret = 0 ∧ pmaFreeSet total s' = ∅ ∨
        ret ≠ 0 ∧ ∃ q, q ∈ pmaFreeSet total s ∧ q ∉ pmaFreeSet total s') := by
  obtain ⟨free, hinv⟩ := h
  have hasked : (PmaAlloc.pages 1).pagesAsked = 1 := by decide
  have hreq := PmaAlloc.request (c := .pages 1) (by decide)
  obtain ⟨ret, s', heq, -, hcases⟩ := hinv.tryZones hreq (PmaAlloc.zones_nodup (.pages 1))
  rw [← PmaAlloc.run_eq, hasked] at *
  refine ⟨ret, s', heq, ?_⟩
  rcases hcases with ⟨rfl, hnone⟩ | ⟨hret, ⟨p, -, hle, hfree, htaken⟩, -⟩
  · have hempty : pmaFreeSet total s = ∅ := by
      refine Set.eq_empty_of_forall_notMem fun q ⟨hq, hbit⟩ => ?_
      rw [hinv.clear rfl .normal rfl q hq] at hbit
      obtain ⟨b, hb, -⟩ := hbit
      obtain ⟨⟨z, b⟩, hmem, rfl⟩ := List.mem_map.mp hb
      have hz : z ∈ (PmaAlloc.pages 1).zones := by cases z <;> decide
      exact (noneFits_page_iff hinv).mp (hnone z hz) b hmem
    refine .inl ⟨hempty, rfl, ?_⟩
    exact Set.subset_eq_empty (PmaAlloc.onlyTakes (c := .pages 1) heq).freeSet_subset hempty
  · refine .inr ⟨hret, p, ⟨by omega, hfree p le_rfl (by omega)⟩, fun ⟨hp, hbit⟩ => ?_⟩
    exact ((htaken p hp).mp hbit).2 ⟨le_rfl, by omega⟩

end Cuore
