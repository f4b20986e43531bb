import Cuore.Mem.Heap.Client

/-!
# `realloc`

A block grows in place when the block behind it is free and big enough, and what is left of that
one becomes a free block again.  Its header is written before the old one is read to the end: when
the block grows by less than a header, the two overlap, and the links of the old header are lost.
`ShortSplit` is this case; in all others the block list stays in order.  (Growing by 16 clears the
`next` of the old header, and that does no harm at the end of the list.)

Where a block cannot grow in place, and for slots, a new allocation gets the old bytes.
-/

namespace Cuore

open Memory

section

variable {h h' : Heap} {rs : List Region} {F : ℕ → List ℕ} {b c : Block} {P S : List Block}
  {p q n size : ℕ}

/-! ## Growing in place -/

lemma Block.takeFor_used (hk : b.kind = .used) : b.takeFor size =
    if size + bhSize + minSplitSize ≤ b.size then [{ b with size := size }, b.rest size]
    else [b] := by
  rw [Block.takeFor, ← hk]

/-- **A block grows into the free one behind it.** -/
lemma BlockRep.grow (hr : BlockRep h (P ++ [b, c] ++ S)) (hs : Spread (P ++ [b, c] ++ S))
    (hs' : Spread (P ++ (b.merge c).takeFor size ++ S)) (hk : b.kind = .used)
    (hc : c.kind = .free) (hadj : c.addr = b.stop) (hfit : size ≤ (b.merge c).size)
    (hlt : b.size < size) (hkept : size + bhSize + minSplitSize ≤ (b.merge c).size →
      b.size + bhSize ≤ size ∨ size = b.size + heapAlignment ∧ S = []) :
    BlockRep (expandBlock h b.addr size (b.merge c).size) (P ++ (b.merge c).takeFor size ++ S) ∧
      SameOutside (spareBytes (P ++ [b, c] ++ S)) h.mem
        (expandBlock h b.addr size (b.merge c).size).mem := by
  have hmerge := hs.merge hadj
  have hstop := hmerge.small (b.merge c) (by simp)
  have hlow := hmerge.low (b.merge c) (by simp)
  have hbig : (b.merge c).size ≥ wadd (wadd size bhSize) minSplitSize ↔
      size + bhSize + minSplitSize ≤ (b.merge c).size := by
    simp only [Block.stop, pageSize, bhSize, minSplitSize] at hstop hlow ⊢
    rw [wadd_of_lt (show size + 48 < word by omega), wadd_of_lt (by omega)]
  rw [Block.takeFor_used (by exact hk)] at hs' ⊢
  split_ifs at hs' ⊢ with hcut
  · have hcut' := hbig.mpr hcut
    have hle' : size + bhSize ≤ (b.merge c).size := by omega
    exact ⟨hr.expand hs hmerge hadj (hkept hcut) hle' hcut' hs',
      sameOutside_expandBlock hr hs hmerge hadj hlt.le (hkept hcut) hle' hc hcut'⟩
  · rw [expandBlock_absorb hr hs hmerge (mt hbig.mp hcut)]
    exact ⟨hr.absorb hs hmerge,
      (sameOutside_absorbNext hr hs hmerge).mono (headersOf_subset_spareBytes _)⟩

/-- What is behind a block that can grow. -/
lemma HeapInv.exists_behind (hi : HeapInv h rs F) (hb : b ∈ heapBlocks rs) (hk : b.kind = .used)
    (hcan : canExpand h.mem b.addr = true) : ∃ X base stop A c B Y,
      rs = around X base stop A [b, c] B Y ∧ BlockRegion ⟨base, stop, A ++ [b, c] ++ B⟩ ∧
      c.kind = .free ∧ c.start = false ∧ c.addr = b.stop := by
  obtain ⟨X, base, stop, A, B, Y, rfl, hregion⟩ :=
    hi.regions.exists_region hb (by simp [hk, BlockKind.isPool])
  have hL := heapBlocks_around (X := X) (Y := Y) base stop A [b] B
  have hL' : heapBlocks (around X base stop A [b] B Y) =
      heapBlocks X ++ A ++ b :: (B ++ heapBlocks Y) := by simpa using hL
  have hr := hi.blocks
  have hs := hi.regions.spread
  rw [hL'] at hr hs
  obtain ⟨c, hc, hfree, hstart⟩ := (hr.canExpand_iff hs).mp hcan
  cases B with
  | nil =>
    -- what is behind a region is a boundary or a pool page
    have hY : RegionsOk Y := hi.regions.sublist (by simp [around])
    rcases hY.head_first hc with hfirst | hfirst
    · exact absurd (hfirst.symm.trans hstart) (by simp)
    · rw [hfree] at hfirst
      exact absurd hfirst (by simp [BlockKind.isPool])
  | cons d B =>
    obtain rfl : d = c := by simpa using hc
    refine ⟨X, base, stop, A, d, B, Y, by simp [around], by simpa using hregion, hfree, hstart, ?_⟩
    have htiles := hregion.tiles
    rw [List.append_assoc, List.singleton_append] at htiles
    exact htiles.split.2.1

/-- **A block grows in place**, unless that is a short split. -/
lemma HeapInv.grow_block (hi : HeapInv h rs F) (hb : b ∈ heapBlocks rs) (hk : b.kind = .used)
    (hcan : canExpand h.mem b.addr = true) (hdvd : heapAlignment ∣ size)
    (hlt : b.size < size) (hfit : size ≤ combinedSize h.mem b.addr)
    (hkept : size + bhSize + minSplitSize ≤ combinedSize h.mem b.addr → b.size + bhSize ≤ size ∨
      size = b.size + heapAlignment ∧
        (readHeader h.mem (readHeader h.mem b.addr).next).next = 0) :
    ∃ rs' k, HeapInv (expandBlock h b.addr size (combinedSize h.mem b.addr)) rs' F ∧ size ≤ k ∧
      (∀ q j, Live (heapBlocks rs') F q j ↔
        Live (heapBlocks rs) F q j ∧ q ≠ b.payload ∨ q = b.payload ∧ j = k) ∧
      Undisturbed (Live (heapBlocks rs) F) h.mem
        (expandBlock h b.addr size (combinedSize h.mem b.addr)).mem := by
  obtain ⟨X, base, stop, A, c, B, Y, rfl, hregion, hfree, hstart, hadj⟩ :=
    hi.exists_behind hb hk hcan
  have hL := heapBlocks_around (X := X) (Y := Y) base stop A [b, c] B
  have hr := hi.blocks
  have hs := hi.regions.spread
  rw [hL] at hr hs
  have hcombined := combinedSize_eq hr (hs.merge hadj)
  rw [hcombined] at hfit hkept ⊢
  obtain ⟨hbat, hcat⟩ := hr.at_pair
  have hkept' : size + bhSize + minSplitSize ≤ (b.merge c).size → b.size + bhSize ≤ size ∨
      size = b.size + heapAlignment ∧ B ++ heapBlocks Y = [] := fun hcut =>
    (hkept hcut).imp_right fun ⟨hsize, hnext⟩ => by
      rw [hbat] at hnext
      rw [show (b.header _ c.addr).next = c.addr from rfl, hcat] at hnext
      exact ⟨hsize, (hs.sublist (List.sublist_append_right _ _)).eq_nil hnext⟩
  have hbounds := hregion.tiles.bounds Block.addr_le_stop (x := b) (by simp)
  have htiles : ∀ p q, Tiles Block.addr Block.stop p [b, c] q →
      Tiles Block.addr Block.stop p [b.merge c] q := by
    rintro p q ⟨hp, hc, hq⟩
    refine ⟨hp, ?_⟩
    have hq : c.stop = q := hq
    change (b.merge c).stop = q
    simp only [Block.stop, Block.merge] at hq hc ⊢
    omega
  have hsizes : heapAlignment ∣ (b.merge c).size :=
    Nat.dvd_add (hregion.sizes b (by simp)) (Nat.dvd_add (by decide) (hregion.sizes c (by simp)))
  have htake : BlockRegion ⟨base, stop, A ++ (b.merge c).takeFor size ++ B⟩ :=
    hregion.takeFor htiles ⟨c, rfl, hfree⟩ (hregion.starts b (by simp)) hsizes
      (hregion.inside b (by simp)) hbounds.1 hdvd
  have hrs := hi.regions.of_around htake
  have hs' := hrs.spread
  rw [heapBlocks_around] at hs'
  obtain ⟨hr', hsame⟩ := hr.grow hs hs' hk hfree hadj hfit hlt hkept'
  rw [← heapBlocks_around] at hr'
  rw [← hL] at hsame
  refine ⟨_, (b.merge c).takenSize size, hi.reblock hrs (ranges_around ..) ?_ hr'
    (blocksOnly_expandBlock ..) hsame, ?_, fun q j => ?_, hi.undisturbed hsame⟩
  · rw [heapBlocks_around, hL, Block.takeFor]
    split_ifs <;> simp [hfree, hk, BlockKind.isPool, Block.rest]
  · rw [Block.takenSize]
    split_ifs <;> omega
  · have hold : Live [b, c] F q j ↔ q = b.payload ∧ j = b.size := by simp [Live, hk, hfree]
    have hnew : Live ((b.merge c).takeFor size) F q j ↔
        q = b.payload ∧ j = (b.merge c).takenSize size := by
      rw [Block.takeFor, Block.takenSize]
      split_ifs <;> simp [Live, Block.rest, Block.payload, Block.merge]
    have hrest := fun hq => hi.regions.live_rest (q := q) (k := j) (F := F) hL (b := b) (by simp)
      (by simp [hk, BlockKind.isPool]) hq
    rw [live_around, live_around, hold, hnew]
    constructor
    · rintro (hgrown | hq)
      · exact .inr hgrown
      · exact .inl ⟨.inr hq, hrest hq⟩
    · rintro (⟨⟨hqb, -⟩ | hq, hne⟩ | hgrown)
      · exact absurd hqb hne
      · exact .inr hq
      · exact .inl hgrown

/-- `realloc` grows a block in place by less than a header and cuts the rest off, and that loses the
`next` of the old header: the new one lies over it, and there was one, or it is overwritten with
something else than null. -/
def ShortSplit (h : Heap) (ptr newSize : ℕ) : Prop :=
  let curr := readHeader h.mem (ptr - bhSize)
  getPtrType h ptr = .block ∧ canExpand h.mem (ptr - bhSize) = true ∧
    curr.size < alignHeap newSize ∧ alignHeap newSize < curr.size + bhSize ∧
    alignHeap newSize + bhSize + minSplitSize ≤ combinedSize h.mem (ptr - bhSize) ∧
    ¬ (alignHeap newSize = curr.size + heapAlignment ∧ (readHeader h.mem curr.next).next = 0)

instance (h : Heap) (ptr newSize : ℕ) : Decidable (ShortSplit h ptr newSize) :=
  inferInstanceAs (Decidable (_ ∧ _ ∧ _ ∧ _ ∧ _ ∧ _))

end

end Cuore
