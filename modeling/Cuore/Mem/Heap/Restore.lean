import Cuore.Mem.Heap.Run

/-!
# Freeing leaves no trace

Cutting a block in two and coalescing are inverse to each other: when a block is freed right after
it was allocated, the block list is what it was before (`HeapInv.free_malloc`).  Blocks that are
freed one after the other leave the list with all of them free, and joined; the order in which
this happens does not matter (`HeapInv.freeAll_perm`).
-/

namespace Cuore

open Memory

/-- Free the allocations, one after the other. -/
def freeAll (h : Heap) (ptrs : List ℕ) : Option Heap := ptrs.foldlM free h

section

variable {h h₁ : Heap} {rs : List Region} {F : ℕ → List ℕ} {b : Block} {P S : List Block}
  {grants held : List ℕ} {p size : ℕ}

/-! ## Allocate and free -/

/-- A block that is cut and freed again is the block from before. -/
lemma joinFree_takeFor (hk : b.kind = .free) (hs : Spread (P ++ b.takeFor size ++ S))
    (hjoined : Joined (P ++ [b] ++ S)) :
    joinFree (markFree b.payload (P ++ b.takeFor size ++ S)) = P ++ [b] ++ S := by
  have hbk : ({ b with kind := .free } : Block) = b := by rw [← hk]
  rw [Block.takeFor] at hs ⊢
  split_ifs at hs ⊢ with hcut
  · set used : Block := { b with size := size, kind := .used }
    set front : Block := { b with size := size, kind := .free }
    have hmark : markFree b.payload (P ++ [used, b.rest size] ++ S) =
        P ++ front :: b.rest size :: S := by
      have hsplit : P ++ [used, b.rest size] ++ S = P ++ [used] ++ (b.rest size :: S) := by simp
      rw [hsplit] at hs ⊢
      exact (markFree_payload (b := used) hs).trans (by simp [used, front])
    have hjoins : Joins front (b.rest size) := ⟨rfl, rfl, rfl⟩
    have hmerge : front.merge (b.rest size) = b := by
      rw [← hbk]
      simp only [front, Block.merge, Block.rest, Block.mk.injEq, true_and, and_true]
      omega
    rw [hmark, ← joinFree_append_congr (joinFree_merge hjoins), hmerge]
    simpa using joinFree_of_joined hjoined
  · have hmark := markFree_payload (b := { b with kind := .used }) hs
    rw [show ({ b with kind := .used } : Block).payload = b.payload from rfl] at hmark
    rw [hmark, hbk]
    exact joinFree_of_joined hjoined

/-- Growing shows in the ranges of the heap. -/
lemma mallocBlock_owned (hm : mallocBlock size grants h = some (p, h₁)) :
    ∃ l, h₁.owned = h.owned ++ l := by
  induction grants generalizing h with
  | nil =>
    rw [mallocBlock.eq_def] at hm
    obtain ⟨curr, -, hm⟩ := Option.bind_eq_some_iff.mp hm
    split_ifs at hm
    · obtain rfl := (Prod.mk.inj (Option.some.inj hm)).2
      exact ⟨[], (blocksOnly_takeBlock ..).owned.trans (List.append_nil _).symm⟩
    · obtain rfl := (Prod.mk.inj (Option.some.inj hm)).2
      exact ⟨[], (List.append_nil _).symm⟩
  | cons virt grants ih =>
    rw [mallocBlock.eq_def] at hm
    obtain ⟨curr, -, hm⟩ := Option.bind_eq_some_iff.mp hm
    split_ifs at hm
    · obtain rfl := (Prod.mk.inj (Option.some.inj hm)).2
      exact ⟨[], (blocksOnly_takeBlock ..).owned.trans (List.append_nil _).symm⟩
    dsimp only at hm
    split_ifs at hm
    · obtain rfl := (Prod.mk.inj (Option.some.inj hm)).2
      exact ⟨[], (List.append_nil _).symm⟩
    · obtain ⟨l, hl⟩ := ih hm
      exact ⟨(virt, growPages size * pageSize) :: l, by rw [hl]; simp [heapGrow, listAppend]⟩

/-- A block that is served without growing is one that the search has found. -/
lemma HeapInv.served (hi : HeapInv h rs F) (hm : mallocBlock size grants h = some (p, h₁))
    (hp : p ≠ 0) (howned : h₁.owned = h.owned) :
    ∃ b ∈ heapBlocks rs, b.Fits size ∧ takeBlock h size b.addr = (p, h₁) := by
  rcases hi.blocks.search hi.regions.spread size with ⟨b, hb, hfit, hsearch⟩ | ⟨-, hsearch⟩
  · rw [mallocBlock_found (hi.regions.spread.pos hb) hsearch] at hm
    exact ⟨b, hb, hfit, Option.some.inj hm⟩
  · rw [mallocBlock_grow hsearch] at hm
    match grants with
    | [] => exact absurd (Prod.mk.inj (Option.some.inj hm)).1.symm hp
    | virt :: grants =>
      dsimp only at hm
      split_ifs at hm
      · exact absurd (Prod.mk.inj (Option.some.inj hm)).1.symm hp
      · obtain ⟨l, hl⟩ := mallocBlock_owned hm
        rw [howned, heapGrow, listAppend] at hl
        have hlen := congrArg List.length hl
        simp only [List.length_append, List.length_cons] at hlen
        omega

/-- **A block that is allocated and freed again** leaves the list as it was. -/
lemma HeapInv.free_malloc (hi : HeapInv h rs F)
    (hslot : Cuore.takeSlot h.mem size h.pools = none)
    (hm : Cuore.malloc grants h size = some (p, h₁)) (hp : p ≠ 0) (howned : h₁.owned = h.owned) :
    ∃ h₂, Cuore.free h₁ p = some h₂ ∧ BlockRep h₂ (heapBlocks rs) := by
  rw [Cuore.malloc] at hm
  split_ifs at hm with hzero
  · exact absurd (Prod.mk.inj (Option.some.inj hm)).1.symm hp
  rw [hslot] at hm
  obtain ⟨b, hb, hfit, htake⟩ := hi.served hm hp howned
  obtain ⟨hpayload, rs₁, hi₁, ⟨P, S, hold, hnew⟩, hlive, -⟩ := hi.take hb hfit (dvd_alignHeap size)
  rw [htake] at hpayload hi₁
  obtain rfl : p = b.payload := hpayload
  -- the front of the block, or all of it, is now used
  obtain ⟨c, hc, hck, hcp⟩ : ∃ c ∈ heapBlocks rs₁, c.kind = .used ∧ c.payload = b.payload := by
    rw [hnew, Block.takeFor]
    split_ifs
    · exact ⟨{ b with size := alignHeap size, kind := .used }, by simp, rfl, rfl⟩
    · exact ⟨{ b with kind := .used }, by simp, rfl, rfl⟩
  obtain ⟨h₂, hfree, -, rs₂, hi₂, hblocks, -⟩ := hi₁.free_block hc hck
  have hs := hi₁.regions.spread
  have hjoined := hi.regions.joined
  rw [hnew] at hs
  rw [hold] at hjoined
  rw [hcp, hnew, joinFree_takeFor hfit.1 hs hjoined, ← hold] at hblocks
  refine ⟨h₂, ?_, hblocks ▸ hi₂.blocks⟩
  have htype := hi₁.getPtrType_block hc (by simp [hck, BlockKind.isPool])
  rw [hcp] at htype hfree
  simp only [Cuore.free, if_neg hp, htype, freeTyped, hfree]
  simp

/-! ## The order of frees -/

/-- The payloads of used blocks. -/
def UsedBlocks (L : List Block) (ptrs : List ℕ) : Prop :=
  ∀ p ∈ ptrs, ∃ b ∈ L, b.kind = .used ∧ b.payload = p

lemma UsedBlocks.usedAt {L : List Block} {ptrs : List ℕ} (hs : Spread L) (h : UsedBlocks L ptrs) :
    UsedAt ptrs L := by
  intro c hc hp hk
  obtain ⟨b, hb, hbk, hbp⟩ := h c.payload hp
  have haddr : b.addr = c.addr := by
    simp only [Block.payload] at hbp
    omega
  rw [hs.addr_inj hb hc haddr, hk] at hbk
  exact absurd hbk (by simp)

/-- What is used stays used when another block is freed. -/
lemma mem_joinFree_markFree {L : List Block} (hb : b ∈ L) (hk : b.kind = .used)
    (hne : b.payload ≠ p) : b ∈ joinFree (markFree p L) := by
  have hmark : b ∈ markFree p L := List.mem_map.mpr ⟨b, hb, if_neg hne⟩
  have hfilter : b ∈ (markFree p L).filter fun b => b.kind ≠ .free :=
    List.mem_filter.mpr ⟨hmark, by simp [hk]⟩
  rw [← filter_joinFree] at hfilter
  exact (List.mem_filter.mp hfilter).1

/-- **Freeing blocks one after the other.** -/
lemma HeapInv.freeAll {ptrs : List ℕ} (hi : HeapInv h rs F) (hnd : ptrs.Nodup)
    (hused : UsedBlocks (heapBlocks rs) ptrs) :
    ∃ h', Cuore.freeAll h ptrs = some h' ∧
      BlockRep h' (joinFree (markAll ptrs (heapBlocks rs))) := by
  induction ptrs generalizing h rs with
  | nil =>
    refine ⟨h, rfl, ?_⟩
    rw [markAll, List.foldl_nil, joinFree_of_joined hi.regions.joined]
    exact hi.blocks
  | cons p ptrs ih =>
    obtain ⟨hp, hnd'⟩ := List.nodup_cons.mp hnd
    have hat := hused.usedAt hi.regions.spread
    obtain ⟨b, hb, hk, rfl⟩ := hused p (by simp)
    obtain ⟨h₁, hfree, -, rs₁, hi₁, hblocks, -⟩ := hi.free_block hb hk
    have hused₁ : UsedBlocks (heapBlocks rs₁) ptrs := fun q hq => by
      obtain ⟨c, hc, hck, rfl⟩ := hused q (by simp [hq])
      rw [hblocks]
      exact ⟨c, mem_joinFree_markFree hc hck fun heq => hp (heq ▸ hq), hck, rfl⟩
    obtain ⟨h', heq, hr⟩ := ih hi₁ hnd' hused₁
    have hpos : b.payload ≠ 0 := (Nat.add_pos_right _ (by decide)).ne'
    have hcall : Cuore.free h b.payload = some h₁ := by
      simp only [Cuore.free, if_neg hpos, hi.getPtrType_block hb (by simp [hk, BlockKind.isPool]),
        freeTyped, hfree]
      simp
    refine ⟨h', ?_, ?_⟩
    · rw [Cuore.freeAll, List.foldlM_cons, hcall]
      exact heq
    · rwa [hblocks, joinFree_markAll hnd' (hat.markFree hp), ← markAll_cons] at hr

/-- **The order of frees does not matter.** -/
lemma HeapInv.freeAll_perm {ps qs : List ℕ} (hi : HeapInv h rs F) (hperm : ps.Perm qs)
    (hnd : ps.Nodup) (hused : UsedBlocks (heapBlocks rs) ps) :
    ∃ h₁ h₂ L, Cuore.freeAll h ps = some h₁ ∧ Cuore.freeAll h qs = some h₂ ∧ BlockRep h₁ L ∧
      BlockRep h₂ L := by
  obtain ⟨h₁, heq₁, hr₁⟩ := hi.freeAll hnd hused
  obtain ⟨h₂, heq₂, hr₂⟩ := hi.freeAll (hperm.nodup_iff.mp hnd) fun q hq =>
    hused q (hperm.mem_iff.mpr hq)
  exact ⟨h₁, h₂, _, heq₁, heq₂, hr₁, markAll_perm hperm (heapBlocks rs) ▸ hr₂⟩

/-- **Allocating and freeing leaves no trace** in the block list. -/
theorem heap_free_traceless (hi : HeapInv h rs F) :
    (∀ grants size p h₁, takeSlot h.mem size h.pools = none →
      malloc grants h size = some (p, h₁) → p ≠ 0 → h₁.owned = h.owned →
      ∃ h₂ L, Cuore.free h₁ p = some h₂ ∧ BlockRep h L ∧ BlockRep h₂ L) ∧
    ∀ ps qs : List ℕ, ps.Perm qs → ps.Nodup → UsedBlocks (heapBlocks rs) ps →
      ∃ h₁ h₂ L, Cuore.freeAll h ps = some h₁ ∧ Cuore.freeAll h qs = some h₂ ∧ BlockRep h₁ L ∧
        BlockRep h₂ L := by
  refine ⟨fun grants size p h₁ hslot hm hp howned => ?_, fun ps qs hperm hnd hused =>
    hi.freeAll_perm hperm hnd hused⟩
  obtain ⟨h₂, hfree, hr⟩ := hi.free_malloc hslot hm hp howned
  exact ⟨h₂, _, hfree, hi.blocks, hr⟩

/-- A held pointer that is a block's. -/
lemma InOrder.used_block (hh : InOrder h held rs F) (hp : p ∈ held)
    (htype : getPtrType h p = .block) : ∃ b ∈ heapBlocks rs, b.kind = .used ∧ b.payload = p := by
  obtain ⟨n, hn⟩ := (hh.2 p).mp hp
  rcases hn with ⟨b, hb, hk, rfl, -⟩ | ⟨b, hb, used, hk, hs, -⟩
  · exact ⟨b, hb, hk, rfl⟩
  · rw [hh.1.getPtrType_slot hb hk hs] at htype
    exact absurd htype (by decide)

end

/-- Two blocks are freed in either order, and a third one is allocated and freed. -/
theorem heap_free_traceless_boot : ∃ h : Heap,
    (∃ p h₁ h₂ L, malloc [] h 300 = some (p, h₁) ∧ p ≠ 0 ∧ Cuore.free h₁ p = some h₂ ∧
      BlockRep h L ∧ BlockRep h₂ L) ∧
    ∃ h₁ h₂ L, freeAll h [0xFFFF800100000030, 0xFFFF800100000130] = some h₁ ∧
      freeAll h [0xFFFF800100000130, 0xFFFF800100000030] = some h₂ ∧ BlockRep h₁ L ∧
      BlockRep h₂ L := by
  obtain ⟨s, hrun, hs⟩ := @bootReplay_value HeapOp.Safe _ [.malloc 208 [], .malloc 208 []] _
    (fun s => (s.2, [getPtrType s.1 0xFFFF800100000030, getPtrType s.1 0xFFFF800100000130],
      (takeSlot s.1.mem 300 s.1.pools).isNone,
      (malloc [] s.1 300).map fun r : ℕ × Heap => (r.1, decide (r.2.owned = s.1.owned))))
    ([0xFFFF800100000130, 0xFFFF800100000030], [.block, .block], true,
      some (0xFFFF800100000230, true)) (by decide +kernel)
  simp only [Prod.mk.injEq, List.cons.injEq, Option.isNone_iff_eq_none] at hs
  obtain ⟨hheld, ⟨htype, htype', -⟩, hslot, hmalloc⟩ := hs
  obtain ⟨⟨p, h₁⟩, hm, hp⟩ := Option.map_eq_some_iff.mp hmalloc
  simp only [Prod.mk.injEq, decide_eq_true_eq] at hp
  obtain ⟨rfl, howned⟩ := hp
  obtain ⟨rs, F, hh⟩ := hrun.inOrder
  obtain ⟨hrestore, horder⟩ := heap_free_traceless hh.1
  obtain ⟨h₂, L, hfree⟩ := hrestore [] 300 _ h₁ hslot hm (by decide) howned
  refine ⟨s.1, ⟨_, h₁, h₂, L, hm, by decide, hfree⟩,
    horder _ _ (List.Perm.swap ..) (by decide) fun q hq => ?_⟩
  simp only [List.mem_cons, List.not_mem_nil, or_false] at hq
  rcases hq with rfl | rfl
  · exact hh.used_block (by simp [hheld]) htype
  · exact hh.used_block (by simp [hheld]) htype'

end Cuore
