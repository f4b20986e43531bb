import Cuore.Mem.Heap.Malloc

/-!
# Taking slots

A slot is taken from the front of a free list, and the header of its page counts.  Giving slots
back changes one free list and one page too, so the change is stated for all of them
(`PoolRep.change`).
-/

namespace Cuore

open Memory

section

variable {h h' : Heap} {rs : List Region} {L L' : List Block} {F : ℕ → List ℕ} {b : Block}
  {p : FixedPool} {A B : List FixedPool} {bin used size : ℕ} {l : List ℕ}

/-- **One free list and one page are changed.** -/
lemma PoolRep.change (hp : PoolRep h L F) (hs : Spread L) (hb : b ∈ L)
    (hk : b.kind = .pool bin used) (hpools : h.pools = A ++ p :: B) (hbin : p.blockSize = bin)
    {x : ℕ} (hpools' : h'.pools = A ++ { p with freeList := x } :: B)
    (hthread : Threaded (slotLink h'.mem) x l) (hnodup : l.Nodup)
    (hlink : ∀ bin' ∈ poolSizes, bin' ≠ bin → ∀ s ∈ F bin', slotLink h'.mem s = slotLink h.mem s)
    (hother : ∀ c : Block, c.kind.isPool = true → c.addr ≠ b.addr → (c ∈ L' ↔ c ∈ L))
    (hslot : ∀ s ∈ l, ∃ c ∈ L', ∃ used, c.kind = .pool bin used ∧ s ∈ slotsOf c.addr bin)
    (hpage : ∀ c ∈ L', c.kind.isPool = true → c.addr = b.addr → ∃ used', c.kind = .pool bin used' ∧
      used' + l.countP (fun s => pageBase s = b.addr) = slotCount bin)
    (hcount : ∀ a ≠ b.addr, l.countP (fun s => pageBase s = a) =
      (F bin).countP fun s => pageBase s = a)
    (hreg : h'.poolPageRegistry.Perm ((L'.filter fun b => b.kind.isPool).map Block.addr)) :
    PoolRep h' L' (Function.update F bin l) := by
  have hsizes := hp.sizes
  rw [hpools, List.map_append, List.map_cons] at hsizes
  have hne : ∀ q ∈ A ++ B, q.blockSize ≠ bin := by
    have hnd : (poolSizes).Nodup := by decide
    rw [← hsizes, List.nodup_middle, List.nodup_cons] at hnd
    intro q hq heq
    apply hnd.1
    rw [hbin, ← heq, ← List.map_append]
    exact List.mem_map_of_mem hq
  have hmem : ∀ q ∈ A ++ B, q ∈ h.pools := by
    intro q hq
    rw [hpools]
    simp only [List.mem_append, List.mem_cons] at hq ⊢
    tauto
  have hbins : ∀ q ∈ A ++ B, q.blockSize ∈ poolSizes := fun q hq => by
    rw [← hp.sizes]
    exact List.mem_map_of_mem (hmem q hq)
  refine ⟨?_, fun q hq => ?_, fun bin' hbin' => ?_, fun bin' hbin' s hs' => ?_,
    fun c hc bin' used' hkc => ?_, hreg⟩
  · rw [hpools', List.map_append, List.map_cons]
    exact hsizes
  · rw [hpools'] at hq
    rcases (show q = { p with freeList := x } ∨ q ∈ A ++ B by
      simp only [List.mem_append, List.mem_cons] at hq ⊢; tauto) with rfl | hq
    · change Threaded _ x (Function.update F bin l p.blockSize)
      rw [hbin, Function.update_self]
      exact hthread
    · rw [Function.update_of_ne (hne q hq)]
      exact (hp.threaded q (hmem q hq)).congr (hlink _ (hbins q hq) (hne q hq))
  · by_cases heq : bin' = bin
    · rw [heq, Function.update_self]
      exact hnodup
    · rw [Function.update_of_ne heq]
      exact hp.nodup bin' hbin'
  · by_cases heq : bin' = bin
    · subst heq
      rw [Function.update_self] at hs'
      exact hslot s hs'
    · rw [Function.update_of_ne heq] at hs'
      obtain ⟨c, hc, used', hkc, hsc⟩ := hp.slot bin' hbin' s hs'
      have hcb : c.addr ≠ b.addr := fun haddr => by
        rw [hs.addr_inj hc hb haddr, hk] at hkc
        exact heq (BlockKind.pool.inj hkc).1.symm
      exact ⟨c, (hother c (by simp [hkc, BlockKind.isPool]) hcb).mpr hc, used', hkc, hsc⟩
  · by_cases haddr : c.addr = b.addr
    · obtain ⟨used'', hkc', hcount'⟩ := hpage c hc (by simp [hkc, BlockKind.isPool]) haddr
      obtain ⟨rfl, rfl⟩ := BlockKind.pool.inj (hkc.symm.trans hkc')
      rw [Function.update_self, haddr]
      exact hcount'
    · have hold := hp.count c ((hother c (by simp [hkc, BlockKind.isPool]) haddr).mp hc) bin' used'
        hkc
      by_cases heq : bin' = bin
      · subst heq
        rw [Function.update_self, hcount _ haddr]
        exact hold
      · rw [Function.update_of_ne heq]
        exact hold

/-- One free list is changed, and the header of one page counts. -/
lemma PoolRep.recount {P S : List Block} {v x : ℕ} (hp : PoolRep h (P ++ [b] ++ S) F)
    (hs : Spread (P ++ [b] ++ S)) (hk : b.kind = .pool bin used) (hpools : h.pools = A ++ p :: B)
    (hbin : p.blockSize = bin) (hpools' : h'.pools = A ++ { p with freeList := x } :: B)
    (hreg : h'.poolPageRegistry = h.poolPageRegistry)
    (hthread : Threaded (slotLink h'.mem) x l) (hnodup : l.Nodup)
    (hlink : ∀ bin' ∈ poolSizes, bin' ≠ bin → ∀ s ∈ F bin', slotLink h'.mem s = slotLink h.mem s)
    (hslot : ∀ s ∈ l, s ∈ F bin ∨ s ∈ slotsOf b.addr bin)
    (hpage : v + l.countP (fun s => pageBase s = b.addr) = slotCount bin)
    (hcount : ∀ a ≠ b.addr, l.countP (fun s => pageBase s = a) =
      (F bin).countP fun s => pageBase s = a) :
    PoolRep h' (P ++ [{ b with kind := .pool bin v }] ++ S) (Function.update F bin l) := by
  have hbins : bin ∈ poolSizes := by
    rw [← hbin, ← hp.sizes]
    exact List.mem_map_of_mem (by simp [hpools])
  have hapart : ∀ c ∈ P ++ S, c.addr ≠ b.addr := fun c hc =>
    hs.addr_ne (List.mem_singleton_self b) hc
  refine hp.change hs (b := b) (by simp) hk hpools hbin hpools' hthread hnodup hlink
    (fun c _ hca => ?_) (fun s hsl => ?_) (fun c hc _ hca => ?_) hcount ?_
  · have hcb : c ≠ b := fun heq => hca (heq ▸ rfl)
    have hcb' : c ≠ { b with kind := .pool bin v } := fun heq => hca (heq ▸ rfl)
    simp [hcb, hcb']
  · rcases hslot s hsl with hsF | hsb
    · obtain ⟨c, hc, used', hkc, hsc⟩ := hp.slot bin hbins s hsF
      by_cases hcb : c = b
      · exact ⟨{ b with kind := .pool bin v }, by simp, v, rfl, hcb ▸ hsc⟩
      · refine ⟨c, ?_, used', hkc, hsc⟩
        simp only [List.mem_append, List.mem_singleton, hcb, or_false] at hc
        simp [hc.elim Or.inl fun h => Or.inr (Or.inr h)]
    · exact ⟨{ b with kind := .pool bin v }, by simp, v, rfl, hsb⟩
  · have hcb : c = { b with kind := .pool bin v } := by
      by_contra hne
      refine hapart c ?_ hca
      simpa [hne] using hc
    exact ⟨v, by rw [hcb], hpage⟩
  · rw [hreg]
    refine hp.registry.trans (List.Perm.of_eq ?_)
    simp [hk, BlockKind.isPool]

/-! ## Taking a slot -/

/-- The pool loop of `malloc` takes the first slot of a free list, if one that serves the request
has any. -/
lemma takeSlot_spec (m : Memory) (size : ℕ) (ps : List FixedPool) :
    (takeSlot m size ps = none ∧ ∀ p ∈ ps, ¬ (size ≤ p.blockSize ∧ p.freeList ≠ 0)) ∨
    ∃ A p B, ps = A ++ p :: B ∧ size ≤ p.blockSize ∧ p.freeList ≠ 0 ∧
      takeSlot m size ps =
        some (p.freeList, A ++ { p with freeList := slotLink m p.freeList } :: B) := by
  induction ps with
  | nil => exact .inl ⟨rfl, by simp⟩
  | cons q ps ih =>
    by_cases hq : size ≤ q.blockSize ∧ q.freeList ≠ 0
    · exact .inr ⟨[], q, ps, rfl, hq.1, hq.2, by rw [takeSlot, if_pos hq]; rfl⟩
    · rw [takeSlot, if_neg hq]
      rcases ih with ⟨hnone, hall⟩ | ⟨A, p, B, rfl, hle, hne, hsome⟩
      · refine .inl ⟨by rw [hnone]; rfl, fun p hp => ?_⟩
        rcases List.mem_cons.mp hp with rfl | hp
        · exact hq
        · exact hall p hp
      · exact .inr ⟨q :: A, p, B, rfl, hle, hne, by rw [hsome]; rfl⟩

/-- The page of a slot, as a region. -/
lemma HeapInv.page_around (hi : HeapInv h rs F) (hb : b ∈ heapBlocks rs)
    (hk : b.kind = .pool bin used) :
    ∃ X Y, rs = around X b.addr (b.addr + pageSize) [] [b] [] Y := by
  obtain ⟨-, hr, -⟩ := hi.regions.pool_region hb hk
  obtain ⟨X, Y, hrs⟩ := List.append_of_mem hr
  exact ⟨X, Y, by simpa [around] using hrs⟩

/-- The page of a slot counts another number of slots. -/
lemma RegionsOk.setUsed {X Y : List Region} {v : ℕ}
    (hrs : RegionsOk (around X b.addr (b.addr + pageSize) [] [b] [] Y))
    (hk : b.kind = .pool bin used) : RegionsOk
      (around X b.addr (b.addr + pageSize) [] [{ b with kind := .pool bin v }] [] Y) := by
  have hb : b ∈ heapBlocks (around X b.addr (b.addr + pageSize) [] [b] [] Y) := by
    rw [heapBlocks_around]
    simp
  obtain ⟨hbin, hmem, heq⟩ := hrs.pool_region hb hk
  have hok := hrs.ok _ hmem
  refine RegionsOk.replace hrs ⟨hok.pos, hok.page, hok.lt, hok.small, .inr ⟨rfl, bin, v, hbin, ?_⟩⟩
    rfl rfl
  simp only [List.nil_append, List.append_nil, List.cons.injEq, and_true]
  rw [heq]

/-- What the header of a page says. -/
lemma HeapInv.page_header (hi : HeapInv h rs F) (hb : b ∈ heapBlocks rs)
    (hk : b.kind = .pool bin used) :
    (readHeader h.mem b.addr).usedSlots = used ∧ (readHeader h.mem b.addr).binSize = bin := by
  obtain ⟨q, r, hat⟩ := hi.blocks.at_mem hb
  rw [hat]
  simp [Block.header, Block.usedSlots, Block.bin, hk]

/-- The page of a slot is the one page where it can be. -/
lemma RegionsOk.page_unique (hrs : RegionsOk rs) {c : Block} {bin' used' s : ℕ}
    (hb : b ∈ heapBlocks rs) (hk : b.kind = .pool bin used) (hs : s ∈ slotsOf b.addr bin)
    (hc : c ∈ heapBlocks rs) (hkc : c.kind = .pool bin' used') (hsc : s ∈ slotsOf c.addr bin') :
    b = c ∧ bin = bin' := by
  have haddr := (hrs.pageBase_slot hb hk hs).symm.trans (hrs.pageBase_slot hc hkc hsc)
  obtain rfl := hrs.spread.addr_inj hb hc haddr
  exact ⟨rfl, (BlockKind.pool.inj (hk.symm.trans hkc)).1⟩

/-- A free slot is not allocated. -/
lemma RegionsOk.free_slot_not_live (hrs : RegionsOk rs) (hb : b ∈ heapBlocks rs)
    (hk : b.kind = .pool bin used) {s : ℕ} (hs : s ∈ slotsOf b.addr bin) (hF : s ∈ F bin) (k : ℕ) :
    ¬ Live (heapBlocks rs) F s k := by
  rintro (⟨c, hc, hkc, rfl, -⟩ | ⟨c, hc, used', hkc, hsc, hnew⟩)
  · exact hrs.payload_not_slot hc (by simp [hkc, BlockKind.isPool]) hb hk hs
  · obtain ⟨-, rfl⟩ := hrs.page_unique hb hk hs hc hkc hsc
    exact hnew hF

/-- Counting slots does not change the allocations. -/
lemma live_setUsed {P S : List Block} {v q k : ℕ} (hk : b.kind = .pool bin used) :
    Live (P ++ [{ b with kind := .pool bin v }] ++ S) F q k ↔ Live (P ++ [b] ++ S) F q k := by
  have hpage : Live [{ b with kind := .pool bin v }] F q k ↔ Live [b] F q k := by
    simp [Live, hk, eq_comm]
  rw [live_append, hpage, ← live_append]

/-- A slot that is taken off a free list is an allocation. -/
lemma live_pop {s q k : ℕ} (hF : F bin = s :: l) (hs : s ∉ l)
    (hb : b ∈ L) (hk : b.kind = .pool bin used) (hsb : s ∈ slotsOf b.addr bin) :
    Live L (Function.update F bin l) q k ↔ Live L F q k ∨ q = s ∧ k = bin := by
  constructor
  · rintro (hblock | ⟨c, hc, used', hkc, hq, hnew⟩)
    · exact .inl (.inl hblock)
    · by_cases hkb : k = bin
      · subst hkb
        rw [Function.update_self] at hnew
        by_cases hqs : q = s
        · exact .inr ⟨hqs, rfl⟩
        · exact .inl (.inr ⟨c, hc, used', hkc, hq, by simp [hF, hqs, hnew]⟩)
      · rw [Function.update_of_ne hkb] at hnew
        exact .inl (.inr ⟨c, hc, used', hkc, hq, hnew⟩)
  · rintro ((hblock | ⟨c, hc, used', hkc, hq, hold⟩) | ⟨rfl, rfl⟩)
    · exact .inl hblock
    · refine .inr ⟨c, hc, used', hkc, hq, ?_⟩
      by_cases hkb : k = bin
      · subst hkb
        rw [Function.update_self]
        exact fun hql => hold (hF ▸ List.mem_cons_of_mem _ hql)
      · rwa [Function.update_of_ne hkb]
    · exact .inr ⟨b, hb, used, hk, hsb, by rwa [Function.update_self]⟩

/-- **A slot is taken** from the front of its free list. -/
lemma HeapInv.takeSlot (hi : HeapInv h rs F) (hpools : h.pools = A ++ p :: B)
    (hle : size ≤ p.blockSize) (hne : p.freeList ≠ 0) :
    Allocates h rs F size p.freeList { h with
      mem := setUsedSlots h.mem (pageBase p.freeList)
        ((readHeader h.mem (pageBase p.freeList)).usedSlots + 1)
      pools := A ++ { p with freeList := slotLink h.mem p.freeList } :: B } := by
  have hpm : p ∈ h.pools := by simp [hpools]
  have hbin : p.blockSize ∈ poolSizes := hi.pools.sizes ▸ List.mem_map_of_mem hpm
  have hthread := hi.pools.threaded p hpm
  obtain ⟨s, l, hF⟩ : ∃ s l, F p.blockSize = s :: l :=
    List.exists_cons_of_ne_nil fun hnil => hne (hthread.eq_nil_iff.mp hnil)
  rw [hF] at hthread
  obtain ⟨hfree, hs0, hrest⟩ := hthread
  rw [hfree] at hne ⊢
  have hnd := hi.pools.nodup _ hbin
  rw [hF, List.nodup_cons] at hnd
  obtain ⟨b, hb, used, hk, hsb⟩ := hi.pools.slot p.blockSize hbin s (by simp [hF])
  have hpage := hi.regions.pageBase_slot hb hk hsb
  have hcount := hi.pools.count b hb _ _ hk
  rw [hF, List.countP_cons_of_pos (by simp [hpage])] at hcount
  have hlt := (slotCount_pos hbin).2.2
  obtain ⟨X, Y, rfl⟩ := hi.page_around hb hk
  have hrs := hi.regions.setUsed (v := used + 1) hk
  have hr := hi.blocks
  have hs := hi.regions.spread
  rw [heapBlocks_around] at hr hs
  have hused := (hi.page_header hb hk).1
  have hr' := hr.setUsedSlots hs hk (v := used + 1) (by omega)
  rw [← heapBlocks_around] at hr'
  have hsame : SameOutside (spareBytes (heapBlocks
      (around X b.addr (b.addr + pageSize) [] [b] [] Y))) h.mem
      (setUsedSlots h.mem b.addr (used + 1)) :=
    (sameOutside_setUsedSlots _).mono fun x hx => ⟨b, hb, .inl hx⟩
  have hlink := hi.pools.slotLink_eq hi.regions (fun _ hc => hc) hsame
  rw [hpage, hused]
  refine ⟨around X b.addr (b.addr + pageSize) [] [{ b with kind := .pool p.blockSize (used + 1) }]
    [] Y, Function.update F p.blockSize l, ⟨hrs, ?_, ⟨hr'.linked, hr'.head, hr'.tail, hr'.lastFit⟩,
    ?_⟩, hi.undisturbed hsame, .inr ⟨Nat.pos_of_ne_zero hs0, ?_, p.blockSize, hle, fun q k => ?_⟩⟩
  · rw [ranges_around _ _ _ [b]]
    exact hi.owned
  · have hp := hi.pools
    rw [heapBlocks_around] at hp ⊢
    refine hp.recount hs hk hpools rfl rfl rfl (hrest.congr fun t ht => ?_) hnd.2
      (fun bin' hbin' _ => hlink bin' hbin') (fun t ht => .inl (by simp [hF, ht])) (by omega)
      fun a ha => ?_
    · exact hlink _ hbin t (by simp [hF, ht])
    · rw [hF, List.countP_cons_of_neg (by simpa [hpage] using ha.symm)]
  · exact hi.regions.free_slot_not_live hb hk hsb (by simp [hF])
  · rw [heapBlocks_around, live_setUsed hk, ← heapBlocks_around]
    exact live_pop hF hnd.1 hb hk hsb

end

end Cuore
