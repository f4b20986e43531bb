import Cuore.Mem.Heap.Join
import Cuore.Mem.Heap.FreeSlot

/-!
# `free`

A block that is freed absorbs the block behind it, and then the block before it absorbs it, if
they join.  Both tests of `_free` are `Joins`, so the block list afterwards is the one from before
with the block marked free and everything joined (`BlockRep.release`).  No payload is written.

With the slots this makes `free` total on the pointers of allocations: it takes away that one
allocation, and leaves the others and their contents alone.
-/

namespace Cuore

open Memory

section

variable {h : Heap} {rs : List Region} {F : ℕ → List ℕ} {a b c : Block} {P S : List Block}
  {p : ℕ}

/-! ## Coalescing -/

/-- A block and the one behind it take the room of both. -/
lemma Spread.merge (hs : Spread (P ++ [b, c] ++ S)) (hbc : c.addr = b.stop) :
    Spread (P ++ [b.merge c] ++ S) := by
  have hstop : (b.merge c).stop = c.stop := by
    simp only [Block.stop, Block.merge] at hbc ⊢
    omega
  have hmem : ∀ d ∈ P ++ [b.merge c] ++ S, d ∈ P ++ [b, c] ++ S ∨ d = b.merge c := by
    intro d hd
    simp only [List.mem_append, List.mem_cons, List.not_mem_nil, or_false] at hd ⊢
    tauto
  have hapart : ∀ d : Block, d.Apart b → d.Apart c → d.Apart (b.merge c) := by
    intro d hdb hdc
    simp only [Block.Apart, hstop] at hdb hdc ⊢
    have hd := d.addr_le_stop
    rw [show (b.merge c).addr = b.addr from rfl]
    simp only [Block.stop, bhSize] at hdb hdc hbc ⊢
    omega
  refine ⟨?_, fun d hd => ?_, fun d hd => ?_⟩
  · have hpw := hs.apart
    simp only [List.append_assoc, List.cons_append, List.nil_append, List.pairwise_append,
      List.pairwise_cons, List.mem_cons, forall_eq_or_imp] at hpw ⊢
    obtain ⟨hP, ⟨⟨-, hbS⟩, hcS, hS⟩, hPS⟩ := hpw
    refine ⟨hP, ⟨fun d hd => ?_, hS⟩, fun d hd => ⟨?_, (hPS d hd).2.2⟩⟩
    · exact (hapart d (hbS d hd).symm (hcS d hd).symm).symm
    · exact hapart d (hPS d hd).1 (hPS d hd).2.1
  · rcases hmem d hd with hd | rfl
    · exact hs.low d hd
    · exact hs.low b (by simp)
  · rcases hmem d hd with hd | rfl
    · exact hs.small d hd
    · exact hstop ▸ hs.small c (by simp)

/-- The test of `_free` and `realloc` on the block behind. -/
lemma BlockRep.canExpand_iff (hr : BlockRep h (P ++ b :: S)) (hs : Spread (P ++ b :: S)) :
    canExpand h.mem b.addr = true ↔ ∃ c ∈ S.head?, c.kind = .free ∧ c.start = false := by
  have hb := hr.at rfl
  rw [canExpand, hb]
  cases S with
  | nil => simp [Block.header, firstAddr]
  | cons c S =>
    obtain ⟨q, r, hc⟩ := hr.at_mem (show c ∈ P ++ b :: c :: S by simp)
    have hpos := hs.pos (show c ∈ P ++ b :: c :: S by simp)
    simp only [Block.header, firstAddr, hc.isFree, hc.isPool, hc.isBoundary]
    cases hk : c.kind <;> simp [hpos.ne', hk]

/-- Coalescing forward joins the block with the one behind it. -/
lemma BlockRep.joinNext (hr : BlockRep h (P ++ [b] ++ S)) (hs : Spread (P ++ [b] ++ S))
    (hk : b.kind = .free) (hadj : ∀ c ∈ S.head?, Adjoins b c) :
    BlockRep (coalesceForward h b.addr) (P ++ joinHead (b :: S)) ∧
      Spread (P ++ joinHead (b :: S)) ∧
      SameOutside (headersOf (P ++ [b] ++ S)) h.mem (coalesceForward h b.addr).mem := by
  have hcan : canExpand h.mem b.addr = true ↔ ∃ c ∈ S.head?, c.kind = .free ∧ c.start = false :=
    BlockRep.canExpand_iff (by simpa using hr) (by simpa using hs)
  have hnext : (readHeader h.mem b.addr).next = firstAddr Block.addr S 0 := by
    rw [@BlockRep.at _ _ P S b hr (by simp)]
    rfl
  rw [coalesceForward_eq, hnext]
  simp only [hcan]
  cases S with
  | nil =>
    rw [if_neg (by simp)]
    exact ⟨by simpa [joinHead] using hr, by simpa [joinHead] using hs, .refl _ _⟩
  | cons c S =>
    rw [joinHead]
    by_cases hjoin : Joins b c
    · have hbc : c.addr = b.stop := hadj c rfl hjoin.2.2 (by simp [hjoin.2.1, BlockKind.isPool])
      have hr' : BlockRep h (P ++ [b, c] ++ S) := by simpa using hr
      have hs' : Spread (P ++ [b, c] ++ S) := by simpa using hs
      rw [if_pos ⟨c, rfl, hjoin.2⟩, if_pos hjoin,
        show firstAddr Block.addr (c :: S) 0 = c.addr from rfl]
      have hmerge := hs'.merge hbc
      have hsame := sameOutside_absorbNext hr' hs' hmerge
      have habsorb := hr'.absorb hs' hmerge
      exact ⟨by simpa using habsorb, by simpa using hmerge, by simpa using hsame⟩
    · have hnot : ¬ ∃ d ∈ (c :: S).head?, d.kind = .free ∧ d.start = false := by
        rintro ⟨d, hd, hfree⟩
        obtain rfl : c = d := Option.some.inj hd
        exact hjoin ⟨hk, hfree⟩
      rw [if_neg hnot, if_neg hjoin]
      exact ⟨by simpa using hr, by simpa using hs, .refl _ _⟩

/-- Coalescing backward joins the block with the one before it. -/
lemma BlockRep.joinPrev (hr : BlockRep h (P ++ [a, b] ++ S)) (hs : Spread (P ++ [a, b] ++ S))
    (hk : b.kind = .free) (hadj : Adjoins a b) :
    BlockRep (coalesceBackward h b.addr) (P ++ joinHead (a :: b :: S)) ∧
      SameOutside (headersOf (P ++ [a, b] ++ S)) h.mem (coalesceBackward h b.addr).mem := by
  obtain ⟨q, r, ha⟩ := hr.at_mem (show a ∈ P ++ [a, b] ++ S by simp)
  obtain ⟨q', r', hb⟩ := hr.at_mem (show b ∈ P ++ [a, b] ++ S by simp)
  have hpos := hs.pos (show a ∈ P ++ [a, b] ++ S by simp)
  have hprev : (readHeader h.mem b.addr).prev = a.addr := by
    rw [hr.at_pair.2]
    rfl
  have htest : ((readHeader h.mem b.addr).prev ≠ 0 ∧ bhIsFree h.mem (readHeader h.mem b.addr).prev ∧
      !bhIsPool h.mem (readHeader h.mem b.addr).prev ∧ !bhIsBoundary h.mem b.addr) ↔ Joins a b := by
    rw [hprev, ha.isFree, ha.isPool, hb.isBoundary, Joins]
    cases hka : a.kind <;> simp [hpos.ne', hk]
  rw [coalesceBackward_eq, joinHead]
  by_cases hjoin : Joins a b
  · rw [if_pos (htest.mpr hjoin), if_pos hjoin, hprev]
    have hbc : b.addr = a.stop := hadj hjoin.2.2 (by simp [hk, BlockKind.isPool])
    have hmerge := hs.merge hbc
    have habsorb := hr.absorb hs hmerge
    have hsame := sameOutside_absorbNext hr hs hmerge
    exact ⟨by simpa using habsorb, hsame⟩
  · rw [if_neg (mt htest.mp hjoin), if_neg hjoin]
    exact ⟨by simpa using hr, .refl _ _⟩

/-- The first block of the heap has none before it. -/
lemma BlockRep.joinFirst (hr : BlockRep h (b :: S)) :
    coalesceBackward h b.addr = h := by
  have hb : readHeader h.mem b.addr = b.header 0 _ := @BlockRep.at _ _ [] S b hr rfl
  rw [coalesceBackward_eq, hb]
  exact if_neg (by simp [Block.header])

/-- Coalescing backward joins everything, when only the block itself can join the one before. -/
lemma BlockRep.joinBefore (hr : BlockRep h (P ++ b :: S)) (hs : Spread (P ++ b :: S))
    (hk : b.kind = .free) (hadj : ∀ a ∈ P.getLast?, Adjoins a b) (hP : Joined P)
    (hS : Joined (b :: S)) : BlockRep (coalesceBackward h b.addr) (joinFree (P ++ b :: S)) ∧
      SameOutside (headersOf (P ++ b :: S)) h.mem (coalesceBackward h b.addr).mem := by
  rcases List.eq_nil_or_concat' P with rfl | ⟨P, a, rfl⟩
  · rw [hr.joinFirst, List.nil_append, joinFree_of_joined hS]
    exact ⟨hr, .refl _ _⟩
  · have hjoin : joinFree (P ++ [a] ++ b :: S) = P ++ joinHead (a :: b :: S) := by
      have hPa : ∀ p ∈ P.getLast?, ∀ c ∈ (a :: b :: S).head?, ¬ Joins p c := by
        intro p hp c hc
        exact (List.isChain_append.mp hP).2.2 p hp c hc
      rw [List.append_assoc, List.singleton_append, joinFree_append hPa,
        joinFree_of_joined hP.left_of_append, joinFree, joinFree_of_joined hS]
    have hpair := BlockRep.joinPrev (P := P) (a := a) (by simpa using hr) (by simpa using hs) hk
      (hadj a (by simp))
    rw [hjoin]
    exact ⟨hpair.1, by simpa using hpair.2⟩

lemma blocksOnly_coalesceForward (h : Heap) (b : ℕ) : BlocksOnly h (coalesceForward h b) := by
  rw [coalesceForward_eq]
  split_ifs
  · exact blocksOnly_absorbNext ..
  · exact .refl h

lemma blocksOnly_coalesceBackward (h : Heap) (b : ℕ) : BlocksOnly h (coalesceBackward h b) := by
  rw [coalesceBackward_eq]
  split_ifs
  · exact blocksOnly_absorbNext ..
  · exact .refl h

/-- `_free` for a block, when its header is in place. -/
lemma BlockRep.freeBlock_eq (hr : BlockRep h (P ++ [b] ++ S)) : freeBlock h b.payload =
    some (coalesceBackward (coalesceForward { h with mem := bhSetFree h.mem b.addr } b.addr)
      b.addr) := by
  have hb : readHeader h.mem b.addr = b.header _ _ := @BlockRep.at _ _ P S b hr (by simp)
  rw [freeBlock]
  simp only [Block.payload, Nat.add_sub_cancel]
  rw [hb, if_neg (by simp [Block.header])]

/-- **`_free` for a block**: it is marked free, and everything is joined. -/
lemma BlockRep.release (hr : BlockRep h (P ++ [b] ++ S)) (hs : Spread (P ++ [b] ++ S))
    (hk : b.kind = .used) (hjoined : Joined (P ++ [b] ++ S))
    (hadj : (P ++ [b] ++ S).IsChain Adjoins) :
    ∃ h', freeBlock h b.payload = some h' ∧
      BlockRep h' (joinFree (P ++ [{ b with kind := .free }] ++ S)) ∧ BlocksOnly h h' ∧
      SameOutside (headersOf (P ++ [b] ++ S)) h.mem h'.mem := by
  set b' : Block := { b with kind := .free } with hb'
  have hjS : joinFree S = S := joinFree_of_joined hjoined.right_of_append
  have hadjS : ∀ c ∈ S.head?, Adjoins b' c := fun c hc =>
    (List.isChain_append.mp hadj).2.2 b (by simp) c hc
  have hmark : SameOutside (headersOf (P ++ [b] ++ S)) h.mem (bhSetFree h.mem b.addr) :=
    (sameOutside_bhSetFree h.mem).mono fun x hx => ⟨b, by simp, hx⟩
  have hs₁ : Spread (P ++ [b'] ++ S) := hs.of_map (by simp [Block.extent, hb'])
  have hheaders : ∀ {l : List Block}, (∀ d ∈ l, ∃ c ∈ P ++ [b] ++ S, d.addr = c.addr) →
      headersOf l ⊆ headersOf (P ++ [b] ++ S) := by
    rintro l hl x ⟨d, hd, hx⟩
    obtain ⟨c, hc, hdc⟩ := hl d hd
    exact ⟨c, hc, hdc ▸ hx⟩
  obtain ⟨hr₂, hs₂, hsame₂⟩ := (hr.setFree hs hk).joinNext hs₁ rfl hadjS
  have hkeep := (hmark.trans_self (hsame₂.mono (hheaders (l := P ++ [b'] ++ S) (by
    simp only [List.mem_append, List.mem_singleton]
    rintro d ((hd | rfl) | hd)
    · exact ⟨d, .inl (.inl hd), rfl⟩
    · exact ⟨b, .inl (.inr rfl), rfl⟩
    · exact ⟨d, .inr hd, rfl⟩))))
  have honly : BlocksOnly h (coalesceForward { h with mem := bhSetFree h.mem b.addr } b.addr) :=
    ((BlocksOnly.refl h).write _ _).trans (blocksOnly_coalesceForward _ _)
  have hjoinS : joinFree (b' :: S) = joinHead (b' :: S) := by rw [joinFree, hjS]
  have hjoined₂ : Joined (joinHead (b' :: S)) := joined_joinHead hjoined.right_of_append
  have hjoin : joinFree (P ++ [b'] ++ S) = joinFree (P ++ joinHead (b' :: S)) := by
    rw [List.append_assoc, List.singleton_append]
    exact joinFree_append_congr (hjoinS.trans (joinFree_of_joined hjoined₂).symm)
  rw [hjoin]
  obtain ⟨d, T, hd, hfront, hT⟩ := joinHead_cons b' S
  rw [hd] at hr₂ hs₂ hjoined₂ ⊢
  simp only [Block.front, hb', Prod.mk.injEq] at hfront
  obtain ⟨hda, hds, hdk⟩ := hfront
  have hadjP : ∀ a ∈ P.getLast?, Adjoins a d := by
    intro a ha hstart _
    have hPb := (List.isChain_append.mp (List.append_assoc P [b] S ▸ hadj)).2.2 a ha b rfl
    rw [hda]
    exact hPb (hds ▸ hstart) (by simp [hk, BlockKind.isPool])
  have hrep := hr₂.joinBefore hs₂ hdk hadjP
    (List.append_assoc P [b] S ▸ hjoined).left_of_append hjoined₂
  rw [hda] at hrep
  refine ⟨_, hr.freeBlock_eq, hrep.1, honly.trans (blocksOnly_coalesceBackward _ _),
    hkeep.trans_self (hrep.2.mono (hheaders ?_))⟩
  simp only [List.mem_append, List.mem_cons, List.not_mem_nil, or_false]
  rintro e (he | rfl | he)
  · exact ⟨e, .inl (.inl he), rfl⟩
  · exact ⟨b, .inl (.inr rfl), hda⟩
  · exact ⟨e, .inr (hT he), rfl⟩

/-! ## The heap after a block is freed -/

section FreeBlock

variable {q k : ℕ}

/-- Only the blocks that are not free are allocated. -/
lemma live_filter {L : List Block} :
    Live (L.filter fun b => b.kind ≠ .free) F q k ↔ Live L F q k := by
  simp only [Live, List.mem_filter, decide_eq_true_eq]
  constructor
  · rintro (⟨c, ⟨hc, -⟩, h⟩ | ⟨c, ⟨hc, -⟩, used, h⟩)
    · exact .inl ⟨c, hc, h⟩
    · exact .inr ⟨c, hc, used, h⟩
  · rintro (⟨c, hc, hk, h⟩ | ⟨c, hc, used, hk, h⟩)
    · exact .inl ⟨c, ⟨hc, by simp [hk]⟩, hk, h⟩
    · exact .inr ⟨c, ⟨hc, by simp [hk]⟩, used, hk, h⟩

lemma live_joinFree {L : List Block} : Live (joinFree L) F q k ↔ Live L F q k := by
  rw [← live_filter, filter_joinFree, live_filter]

/-- The allocations among the other blocks are not the payload of a block. -/
lemma RegionsOk.live_rest {M : List Block} (hrs : RegionsOk rs) (hL : heapBlocks rs = P ++ M ++ S)
    (hb : b ∈ M) (hk : b.kind.isPool = false) (hq : Live (P ++ S) F q k) : q ≠ b.payload := by
  rintro rfl
  rcases hq with ⟨c, hc, -, heq, -⟩ | ⟨c, hc, used, hkc, hs, -⟩
  · refine (hL ▸ hrs.spread).addr_ne hb hc ?_
    simp only [Block.payload] at heq
    omega
  · have hc' : c ∈ heapBlocks rs := by
      rw [hL]
      simp only [List.mem_append] at hc ⊢
      tauto
    exact hrs.payload_not_slot (by simp [hL, hb]) hk hc' hkc hs

/-- A block that is marked free is no allocation any more. -/
lemma RegionsOk.live_markFree (hrs : RegionsOk rs) (hL : heapBlocks rs = P ++ [b] ++ S)
    (hk : b.kind = .used) : Live (P ++ [{ b with kind := .free }] ++ S) F q k ↔
      Live (heapBlocks rs) F q k ∧ q ≠ b.payload := by
  have hfree : ¬ Live [{ b with kind := .free }] F q k := by simp [Live]
  have hused : Live [b] F q k ↔ q = b.payload ∧ k = b.size := by simp [Live, hk]
  have hrest := hrs.live_rest (q := q) (k := k) (F := F) hL (b := b) (by simp)
    (by simp [hk, BlockKind.isPool])
  rw [hL, live_append, live_append, hused]
  tauto

/-- The regions after a block is freed. -/
lemma RegionsOk.free {X Y : List Region} {base stop : ℕ} {A B : List Block}
    (hrs : RegionsOk (around X base stop A [b] B Y))
    (hb : BlockRegion ⟨base, stop, A ++ [b] ++ B⟩) :
    RegionsOk (X ++ ⟨base, stop, joinFree (A ++ [{ b with kind := .free }] ++ B)⟩ :: Y) ∧
      heapBlocks (X ++ ⟨base, stop, joinFree (A ++ [{ b with kind := .free }] ++ B)⟩ :: Y) =
        joinFree (heapBlocks X ++ A ++ [{ b with kind := .free }] ++ (B ++ heapBlocks Y)) := by
  set b' : Block := { b with kind := .free } with hb'
  have hmem : ∀ c ∈ A ++ [b'] ++ B, (c.kind = .free ∨ c.kind = .used) ∧
      ∃ d ∈ A ++ [b] ++ B, c.addr = d.addr ∧ c.start = d.start ∧ c.size = d.size := by
    intro c hc
    by_cases hcb : c = b'
    · exact ⟨.inl (by rw [hcb]), b, by simp, by rw [hcb], by rw [hcb], by rw [hcb]⟩
    · have hc' : c ∈ A ++ [b] ++ B := by
        simp only [List.mem_append, List.mem_singleton, hcb, or_false] at hc ⊢
        tauto
      exact ⟨hb.kinds c hc', c, hc', rfl, rfl, rfl⟩
  have htiles : Tiles Block.addr Block.stop base (A ++ [b'] ++ B) stop :=
    hb.tiles.replace fun p q h => h
  have hstarts : ∀ c ∈ A ++ [b'] ++ B, c.start = decide (c.addr = base) := by
    intro c hc
    obtain ⟨-, d, hd, haddr, hstart, -⟩ := hmem c hc
    rw [haddr, hstart]
    exact hb.starts d hd
  have hregion : BlockRegion ⟨base, stop, joinFree (A ++ [b'] ++ B)⟩ := by
    refine .join htiles (fun c hc => (hmem c hc).1) hstarts (fun c hc => ?_) fun c hc => ?_
    · obtain ⟨-, d, hd, -, -, hsize⟩ := hmem c hc
      exact hsize ▸ hb.sizes d hd
    · obtain ⟨-, d, hd, haddr, -⟩ := hmem c hc
      rw [Block.payload, haddr]
      exact hb.inside d hd
  have hr := hrs.ok ⟨base, stop, A ++ [b] ++ B⟩ (by simp [around])
  refine ⟨RegionsOk.replace hrs ⟨hr.pos, hr.page, hr.lt, hr.small, .inl hregion⟩ rfl rfl, ?_⟩
  -- nothing joins across the ends of the region
  have hX : RegionsOk X := hrs.sublist (by simp [around])
  have hY : RegionsOk Y := hrs.sublist (by simp [around])
  have hfirst : ∀ p ∈ (heapBlocks X).getLast?, ∀ c ∈ (A ++ [b'] ++ B ++ heapBlocks Y).head?,
      ¬ Joins p c := by
    rintro p - c hc ⟨-, -, hstart⟩
    obtain ⟨d, T, hdT⟩ : ∃ d T, A ++ [b'] ++ B = d :: T := List.exists_cons_of_ne_nil (by simp)
    rw [hdT] at hc htiles hstarts
    obtain rfl : d = c := by simpa using hc
    have hd := hstarts d (by simp)
    rw [decide_eq_true (p := d.addr = base) htiles.1] at hd
    exact absurd (hd.symm.trans hstart) (by simp)
  have hlast : ∀ p ∈ (A ++ [b'] ++ B).getLast?, ∀ c ∈ (heapBlocks Y).head?, ¬ Joins p c :=
    fun p _ c hc => hY.not_joins_head hc p
  rw [heapBlocks_split, show heapBlocks X ++ A ++ [b'] ++ (B ++ heapBlocks Y) =
    heapBlocks X ++ (A ++ [b'] ++ B ++ heapBlocks Y) by simp, joinFree_append hfirst,
    joinFree_append hlast, joinFree_of_joined hX.joined, joinFree_of_joined hY.joined]
  simp

/-- **`_free` for a block.** -/
lemma HeapInv.free_block (hi : HeapInv h rs F) (hb : b ∈ heapBlocks rs) (hk : b.kind = .used) :
    ∃ h', freeBlock h b.payload = some h' ∧
      Undisturbed (Live (heapBlocks rs) F) h.mem h'.mem ∧ ∃ rs', HeapInv h' rs' F ∧
        heapBlocks rs' = joinFree (markFree b.payload (heapBlocks rs)) ∧
        ∀ q k, Live (heapBlocks rs') F q k ↔ Live (heapBlocks rs) F q k ∧ q ≠ b.payload := by
  obtain ⟨X, base, stop, A, B, Y, rfl, hregion⟩ :=
    hi.regions.exists_region hb (by simp [hk, BlockKind.isPool])
  have hL := heapBlocks_around (X := X) (Y := Y) base stop A [b] B
  obtain ⟨hrs, hblocks⟩ := hi.regions.free hregion
  have hr := hi.blocks
  have hs := hi.regions.spread
  rw [hL] at hr hs
  obtain ⟨h', hfree, hr', honly, hsame⟩ := hr.release hs hk (hL ▸ hi.regions.joined)
    (hL ▸ hi.regions.adjoins_chain)
  rw [← hL] at hsame
  have hspare := hsame.mono (headersOf_subset_spareBytes _)
  refine ⟨h', hfree, hi.undisturbed hspare,
    X ++ ⟨base, stop, joinFree (A ++ [{ b with kind := .free }] ++ B)⟩ :: Y, ?_, ?_, fun q k => ?_⟩
  · refine hi.reblock hrs (by simp [around]) ?_ (hblocks ▸ hr') honly hspare
    rw [hblocks, hL, filter_isPool_joinFree]
    simp [hk, BlockKind.isPool]
  · rw [hblocks, hL, markFree_payload hs]
  · rw [hblocks, live_joinFree]
    exact hi.regions.live_markFree hL hk

end FreeBlock

/-! ## Any allocation -/

section FreeLive

variable {n : ℕ}

lemma Live.pos (hp : Live (heapBlocks rs) F p n) (hrs : RegionsOk rs) : 0 < p := by
  obtain ⟨c, hc, -, hcp, -⟩ := hp.bounds hrs
  have := hrs.spread.pos hc
  simp only [Block.payload] at hcp
  omega

lemma freeTyped_pool (hp : 0 < p) : freeTyped h p .pool = freeSlot h p := if_neg hp.ne'

lemma freeTyped_block (hp : 0 < p) : freeTyped h p .block = freeBlock h p := if_neg hp.ne'

/-- **`_free` with the type of the pointer.** -/
lemma HeapInv.free_live (hi : HeapInv h rs F) (hp : Live (heapBlocks rs) F p n) :
    ∃ h', freeTyped h p (getPtrType h p) = some h' ∧ Frees h rs F p h' := by
  have hpos := hp.pos hi.regions
  rcases hp with ⟨b, hb, hk, rfl, rfl⟩ | ⟨b, hb, used, hk, hs, hnew⟩
  · rw [hi.getPtrType_block hb (by simp [hk, BlockKind.isPool]), freeTyped_block hpos]
    obtain ⟨h', hfree, hkeep, rs', hi', -, hlive⟩ := hi.free_block hb hk
    exact ⟨h', hfree, rs', F, hi', hlive, fun q k hq => hkeep q k hq.1⟩
  · rw [hi.getPtrType_slot hb hk hs, freeTyped_pool hpos]
    exact hi.free_slot hb hk hs hnew

lemma HeapInv.getPtrType_live (hi : HeapInv h rs F) (hp : Live (heapBlocks rs) F p n) :
    getPtrType h p ≠ .noinfo := by
  rcases hp with ⟨b, hb, hk, rfl, rfl⟩ | ⟨b, hb, used, hk, hs, -⟩
  · rw [hi.getPtrType_block hb (by simp [hk, BlockKind.isPool])]
    simp
  · rw [hi.getPtrType_slot hb hk hs]
    simp

/-- **`free` takes one allocation away.** -/
lemma HeapInv.free (hi : HeapInv h rs F) (hp : Live (heapBlocks rs) F p n) :
    ∃ h', free h p = some h' ∧ Frees h rs F p h' := by
  have hpos := hp.pos hi.regions
  simp only [Cuore.free, if_neg hpos.ne', if_neg (hi.getPtrType_live hp)]
  exact hi.free_live hp

end FreeLive

end

end Cuore
