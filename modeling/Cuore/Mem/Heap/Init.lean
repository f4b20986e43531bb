import Cuore.Mem.Heap.Calls

/-!
# `heap_init`

The heap starts as one region of one free block, and a page of slots for each size.  The pages are
added one after the other: `PoolsOf bins` describes the pools while there are only those of the
sizes `bins`, and `HeapInit` is the invariant at that point.  After the third page it is `HeapInv`,
and nothing is allocated.
-/

namespace Cuore

open Memory

section

variable {h h' : Heap} {rs : List Region} {F : ℕ → List ℕ} {bins : List ℕ} {bin virt : ℕ}
  {m : Memory}

/-! ## Threading the slots of a page -/

lemma sameOutside_threadSlots (bin data n : ℕ) (r : Memory × ℕ) :
    SameOutside (slotWords ((List.range n).map fun i => data + i * bin)) r.1
      (threadSlots bin data n r).1 := by
  induction n with
  | zero => exact .refl _ _
  | succ n ih =>
    rw [threadSlots]
    refine (ih.trans (sameOutside_store _ _ _ _)).mono ?_
    rintro x (⟨t, ht, hx⟩ | hx)
    · exact ⟨t, by simp only [List.range_succ, List.map_append, List.mem_append, ht, true_or], hx⟩
    · exact ⟨data + n * bin, by simp [List.range_succ], hx⟩

/-- The slots are threaded from the last one to the first. -/
lemma threadSlots_threaded {data n : ℕ} (m : Memory) (hbin : 8 ≤ bin) (hdata : 0 < data)
    (hsmall : data + n * bin < word) :
    Threaded (slotLink (threadSlots bin data n (m, 0)).1) (threadSlots bin data n (m, 0)).2
      ((List.range n).map fun i => data + i * bin).reverse := by
  induction n with
  | zero => rfl
  | succ n ih =>
    have hmul : (n + 1) * bin = n * bin + bin := Nat.succ_mul n bin
    have hprev := ih (by omega)
    rw [List.range_succ, List.map_append, List.map_singleton, List.reverse_append,
      List.reverse_singleton, List.singleton_append, threadSlots]
    have hfree : (threadSlots bin data n (m, 0)).2 < word := by
      cases n with
      | zero => exact (show (0 : ℕ) < word by decide)
      | succ k =>
        have : k * bin ≤ (k + 1) * bin := Nat.mul_le_mul_right bin (by omega)
        change data + k * bin < word
        omega
    refine hprev.push (show data + n * bin ≠ 0 by omega) (slotLink_store hfree) fun t ht => ?_
    refine slotLink_store_of_apart (.inl ?_)
    obtain ⟨i, hi, rfl⟩ := List.mem_map.mp (List.mem_reverse.mp ht)
    have : (i + 1) * bin ≤ n * bin := Nat.mul_le_mul_right bin (List.mem_range.mp hi)
    rw [Nat.succ_mul] at this
    omega

/-! ## A page of slots -/

/-- The header of a pool page, its links apart. -/
def poolHeader (m : Memory) (bin virt : ℕ) : Memory :=
  setUsedSlots (setSize (setBinSize (setFlags (setMagic (clearHeader m virt) virt heapMagic) virt
    bhPoolBlock) virt bin) virt (pageSize - bhSize)) virt 0

/-- The block of a pool page that no slot is taken from. -/
def poolPage (bin virt : ℕ) : Block := ⟨virt, pageSize - bhSize, false, .pool bin 0⟩

lemma readHeader_poolHeader (hbin : bin < word) :
    readHeader (poolHeader m bin virt) virt = (poolPage bin virt).header 0 0 := by
  simp only [poolHeader, readHeader_setUsedSlots, readHeader_setSize, readHeader_setBinSize,
    readHeader_setFlags, readHeader_setMagic, readHeader_clearHeader, Nat.mod_eq_of_lt hbin]
  rfl

lemma sameOutside_poolHeader : SameOutside (headerRange virt) m (poolHeader m bin virt) :=
  (((((sameOutside_clearHeader m).trans_self (sameOutside_setMagic _)).trans_self
    (sameOutside_setFlags _)).trans_self (sameOutside_setBinSize _)).trans_self
    (sameOutside_setSize _)).trans_self (sameOutside_setUsedSlots _)

/-- The region of a pool page. -/
def poolRegion (bin virt : ℕ) : Region := ⟨virt, virt + 1 * pageSize, [poolPage bin virt]⟩

lemma poolRegion_ok {owned : List (ℕ × ℕ)} (hf : FreshRange owned virt 1) (hbin : bin ∈ poolSizes) :
    (poolRegion bin virt).Ok :=
  ⟨hf.pos, hf.page, Nat.lt_add_of_pos_right (by decide), hf.small,
    .inr ⟨by simp [poolRegion], bin, 0, hbin, rfl⟩⟩

/-- **The heap while it is set up**, with pools of the sizes `bins`. -/
structure HeapInit (bins : List ℕ) (h : Heap) (rs : List Region) (F : ℕ → List ℕ) : Prop where
  regions : RegionsOk rs
  owned : h.owned = rs.map fun r => (r.base, r.stop - r.base)
  blocks : BlockRep h (heapBlocks rs)
  pools : PoolsOf bins h (heapBlocks rs) F
  bins : ∀ b ∈ heapBlocks rs, ∀ bin used, b.kind = .pool bin used → bin ∈ bins

/-- The slots of a page that none is taken from are all free. -/
lemma HeapInit.poolsOf {h₁ : Heap} {r : Memory × ℕ} (hi : HeapInit bins h rs F)
    (hbin : bin ∈ poolSizes) (hnew : bin ∉ bins)
    (hrs : RegionsOk (rs ++ [poolRegion bin virt]))
    (hL : heapBlocks (rs ++ [poolRegion bin virt]) = heapBlocks rs ++ [poolPage bin virt])
    (hpools : h₁.pools = h.pools ++ [⟨bin, r.2⟩]) (hmem : h₁.mem = r.1)
    (hreg : h₁.poolPageRegistry = h.poolPageRegistry ++ [virt])
    (hthread : Threaded (slotLink r.1) r.2 (slotsOf virt bin).reverse)
    (hlink : ∀ bin' ∈ bins, ∀ s ∈ F bin', slotLink r.1 s = slotLink h.mem s) :
    PoolsOf (bins ++ [bin]) h₁ (heapBlocks (rs ++ [poolRegion bin virt]))
      (Function.update F bin (slotsOf virt bin).reverse) := by
  have hold : ∀ bin' ∈ bins, Function.update F bin (slotsOf virt bin).reverse bin' = F bin' :=
    fun bin' hbin' =>
    Function.update_of_ne (fun heq : bin' = bin => hnew (heq ▸ hbin')) _ _
  have hpage : poolPage bin virt ∈ heapBlocks (rs ++ [poolRegion bin virt]) := by simp [hL]
  have hsizes : ∀ p ∈ h.pools, p.blockSize ∈ bins := fun p hp =>
    hi.pools.sizes ▸ List.mem_map_of_mem hp
  refine ⟨?_, fun p hp => ?_, fun bin' hbin' => ?_, fun bin' hbin' s hs => ?_,
    fun c hc bin' used hk => ?_, ?_⟩
  · rw [hpools, List.map_append, hi.pools.sizes]
    rfl
  · rw [hmem]
    rw [hpools] at hp
    rcases List.mem_append.mp hp with hp | hp
    · rw [hold _ (hsizes p hp)]
      exact (hi.pools.threaded p hp).congr (hlink _ (hsizes p hp))
    · obtain rfl := List.mem_singleton.mp hp
      simpa using hthread
  · rcases List.mem_append.mp hbin' with hbin' | hbin'
    · rw [hold bin' hbin']
      exact hi.pools.nodup bin' hbin'
    · obtain rfl := List.mem_singleton.mp hbin'
      have h8 := (slotCount_pos hbin).1
      simpa using slotsOf_nodup virt (show 0 < bin' by omega)
  · rcases List.mem_append.mp hbin' with hbin' | hbin'
    · rw [hold bin' hbin'] at hs
      obtain ⟨c, hc, used, hk, hsc⟩ := hi.pools.slot bin' hbin' s hs
      exact ⟨c, by simp [hL, hc], used, hk, hsc⟩
    · obtain rfl := List.mem_singleton.mp hbin'
      exact ⟨poolPage bin' virt, hpage, 0, rfl, by simpa [poolPage] using hs⟩
  · rw [hL] at hc
    rcases List.mem_append.mp hc with hc | hc
    · rw [hold bin' (hi.bins c hc bin' used hk)]
      exact hi.pools.count c hc bin' used hk
    · obtain rfl := List.mem_singleton.mp hc
      obtain ⟨rfl, rfl⟩ := BlockKind.pool.inj hk
      have hall : ∀ s ∈ (slotsOf virt bin).reverse, pageBase s = virt := fun s hs =>
        hrs.pageBase_slot hpage rfl (by simpa [poolPage] using hs)
      rw [Function.update_self, Nat.zero_add]
      refine (List.countP_eq_length.mpr fun s hs => ?_).trans (by simp [slotsOf])
      exact decide_eq_true (hall s hs)
  · rw [hreg, hL, List.filter_append, List.map_append]
    exact hi.pools.registry.append (List.Perm.refl _)

/-- `heap_init_pools` appends the header of a page. -/
def appendPool (h : Heap) (bin virt : ℕ) : Heap :=
  listAppend { h with
    mem := poolHeader h.mem bin virt
    poolPageRegistry := h.poolPageRegistry ++ [virt]
    owned := h.owned ++ [(virt, pageSize)] } virt

lemma heapInitPool_some (hp : heapInitPool h bin virt = some h') : ∃ r,
    r = threadSlots bin (virt + bhSize) ((readHeader (appendPool h bin virt).mem virt).size / bin)
      ((appendPool h bin virt).mem, 0) ∧
    h' = { appendPool h bin virt with mem := r.1, pools := h.pools ++ [⟨bin, r.2⟩] } := by
  rw [heapInitPool] at hp
  split_ifs at hp
  exact ⟨_, rfl, (Option.some.inj hp).symm⟩

/-- The header of the page is in the list. -/
lemma HeapInit.append (hi : HeapInit bins h rs F) (hbin : bin ∈ poolSizes)
    (hs : Spread (heapBlocks rs ++ [poolPage bin virt])) :
    BlockRep (appendPool h bin virt) (heapBlocks rs ++ [poolPage bin virt]) ∧
      SameOutside (spareBytes (heapBlocks rs ++ [poolPage bin virt])) h.mem
        (appendPool h bin virt).mem := by
  have hrep : BlockRep { h with
      mem := poolHeader h.mem bin virt
      poolPageRegistry := h.poolPageRegistry ++ [virt]
      owned := h.owned ++ [(virt, pageSize)] } (heapBlocks rs) :=
    hi.blocks.congr rfl rfl rfl fun d hd => readHeader_congr sameOutside_poolHeader
      (hs.of_append hd (List.mem_singleton_self (poolPage bin virt))).header.disjoint
  refine ⟨hrep.append (b := poolPage bin virt) hs
    (readHeader_poolHeader (slotCount_pos hbin).2.1), ?_⟩
  refine (sameOutside_poolHeader.trans (sameOutside_listAppend hrep virt)).mono ?_
  rintro x (hx | hx | ⟨d, hd, hx⟩)
  · exact ⟨poolPage bin virt, by simp, .inl hx⟩
  · exact ⟨poolPage bin virt, by simp, .inl hx⟩
  · exact ⟨d, by simp [hd], .inl hx⟩

/-- **One round of `heap_init_pools`.** -/
lemma HeapInit.addPool (hi : HeapInit bins h rs F) (hbin : bin ∈ poolSizes) (hnew : bin ∉ bins)
    (hf : FreshRange h.owned virt 1)
    (hp : heapInitPool h bin virt = some h') :
    HeapInit (bins ++ [bin]) h' (rs ++ [poolRegion bin virt])
      (Function.update F bin (slotsOf virt bin).reverse) ∧
      h'.owned = h.owned ++ [(virt, pageSize)] := by
  obtain ⟨r, hr, rfl⟩ := heapInitPool_some hp
  have hrs : RegionsOk (rs ++ [poolRegion bin virt]) :=
    hi.regions.append (poolRegion_ok hf hbin) (hf.apart_regions hi.regions hi.owned _)
  have hL : heapBlocks (rs ++ [poolRegion bin virt]) = heapBlocks rs ++ [poolPage bin virt] := by
    rw [heapBlocks_append]
    simp [heapBlocks, poolRegion]
  obtain ⟨hrep, hsame⟩ := hi.append hbin (hL ▸ hrs.spread)
  rw [← hL] at hrep hsame
  have hpage : poolPage bin virt ∈ heapBlocks (rs ++ [poolRegion bin virt]) := by simp [hL]
  obtain ⟨p, q, hat⟩ := hrep.at_mem hpage
  have hslots : (readHeader (appendPool h bin virt).mem virt).size / bin = slotCount bin := by
    rw [show readHeader (appendPool h bin virt).mem virt = _ from hat]
    rfl
  rw [hslots] at hr
  obtain ⟨h8, -, -⟩ := slotCount_pos hbin
  have hsmall := hf.small
  have hmul : slotCount bin * bin ≤ pageSize - bhSize := Nat.div_mul_le_self _ _
  have hthread := threadSlots_threaded (appendPool h bin virt).mem (n := slotCount bin) h8
    (show 0 < virt + bhSize by simp only [bhSize]; omega) (by
      simp only [pageSize, bhSize] at hmul hsmall ⊢
      omega)
  have hsame' := sameOutside_threadSlots bin (virt + bhSize) (slotCount bin)
    ((appendPool h bin virt).mem, 0)
  rw [← hr] at hthread hsame'
  have honly := blocksOnly_listAppend { h with
    mem := poolHeader h.mem bin virt
    poolPageRegistry := h.poolPageRegistry ++ [virt]
    owned := h.owned ++ [(virt, pageSize)] } virt
  have hall : ∀ t ∈ slotsOf virt bin, ∃ b ∈ heapBlocks (rs ++ [poolRegion bin virt]), ∃ used,
      b.kind = .pool bin used ∧ t ∈ slotsOf b.addr bin := fun t ht => ⟨_, hpage, 0, rfl, ht⟩
  refine ⟨⟨hrs, ?_, ?_, ?_, fun c hc bin' used hk => ?_⟩, honly.owned⟩
  · rw [List.map_append, ← hi.owned]
    exact honly.owned.trans (by simp [poolRegion])
  · exact hrep.congr rfl rfl rfl fun c hc => hrs.readHeader_slotWords hall hsame' hc
  · refine hi.poolsOf hbin hnew hrs hL rfl rfl honly.poolPageRegistry hthread
      fun bin' hbin' s hs => ?_
    obtain ⟨c, hc, used, hk, hsc⟩ := hi.pools.slot bin' hbin' s hs
    have hc' : c ∈ heapBlocks (rs ++ [poolRegion bin virt]) := by simp [hL, hc]
    have hnot : s ∉ slotsOf virt bin := fun hmem =>
      hnew ((hrs.page_unique hc' hk hsc hpage rfl hmem).2 ▸ hbin')
    rw [hrs.slotLink_slotWords hbin hall hsame' hc' hk hsc hnot, hrs.slotLink_eq hc' hk hsc hsame]
  · rw [hL] at hc
    rcases List.mem_append.mp hc with hc | hc
    · exact List.mem_append_left _ (hi.bins c hc bin' used hk)
    · obtain rfl := List.mem_singleton.mp hc
      obtain ⟨rfl, -⟩ := BlockKind.pool.inj hk
      simp

/-! ## The whole of `heap_init` -/

/-- The pages that `heap_init` asks for. -/
def initPages (size : ℕ) : ℕ := wsub (wadd size pageSize) 1 / pageSize

/-- The ranges that `heap_init` gets are fresh, and apart. -/
structure InitGrants (size virt pool0 pool1 pool2 : ℕ) : Prop where
  pages : 0 < initPages size
  range : FreshRange [] virt (initPages size)
  first : FreshRange [(virt, initPages size * pageSize)] pool0 1
  second : FreshRange [(virt, initPages size * pageSize), (pool0, pageSize)] pool1 1
  third : FreshRange [(virt, initPages size * pageSize), (pool0, pageSize),
    (pool1, pageSize)] pool2 1

/-- The heap before its pool pages are added. -/
def initHeap (mem : Memory) (size virt : ℕ) : Heap :=
  ⟨setPrev (setNext (setFlags (setSize (setMagic (clearHeader mem virt) virt heapMagic) virt
    (wsub (initPages size * pageSize) bhSize)) virt (bhFree ||| bhBoundaryStart)) virt 0) virt 0,
    virt, virt, 0, [], [], [(virt, initPages size * pageSize)]⟩

lemma heapInit_some {mem : Memory} {size pool0 pool1 pool2 : ℕ}
    (hh : heapInit mem size virt pool0 pool1 pool2 = some h) : ∃ h₀ h₁,
      heapInitPool (initHeap mem size virt) 32 pool0 = some h₀ ∧
      heapInitPool h₀ 64 pool1 = some h₁ ∧ heapInitPool h₁ 128 pool2 = some h := by
  rw [heapInit] at hh
  split_ifs at hh
  obtain ⟨h₀, hp₀, hh⟩ := Option.bind_eq_some_iff.mp hh
  obtain ⟨h₁, hp₁, hh⟩ := Option.bind_eq_some_iff.mp hh
  exact ⟨h₀, h₁, hp₀, hp₁, hh⟩

lemma initHeap_inv (mem : Memory) {size : ℕ} (hpages : 0 < initPages size)
    (hf : FreshRange [] virt (initPages size)) :
    HeapInit [] (initHeap mem size virt) [grownRegion virt (initPages size)] fun _ => [] := by
  have hok := grownRegion_ok hf hpages
  have hrs : RegionsOk [grownRegion virt (initPages size)] :=
    ⟨by simpa using hok, List.pairwise_singleton _ _⟩
  have hL : heapBlocks [grownRegion virt (initPages size)] =
      [⟨virt, initPages size * pageSize - bhSize, true, .free⟩] := by
    simp [heapBlocks, grownRegion]
  have hsmall := hf.small
  have hlen : bhSize ≤ initPages size * pageSize :=
    (show bhSize ≤ 1 * pageSize by decide).trans (Nat.mul_le_mul_right _ hpages)
  have hsize : wsub (initPages size * pageSize) bhSize = initPages size * pageSize - bhSize :=
    wsub_of_le hlen (by omega)
  refine ⟨hrs, by simp [initHeap, grownRegion], ?_, ?_, ?_⟩
  · rw [hL]
    refine ⟨⟨?_, trivial⟩, rfl, rfl, .inl rfl⟩
    simp only [BlockAt, initHeap, readHeader_setPrev, readHeader_setNext, readHeader_setFlags,
      readHeader_setSize, readHeader_setMagic, readHeader_clearHeader, hsize]
    rw [Nat.mod_eq_of_lt (show initPages size * pageSize - bhSize < word by omega)]
    rfl
  · rw [hL]
    exact ⟨rfl, by simp [initHeap], by simp, by simp, by simp, by simp [initHeap, BlockKind.isPool]⟩
  · rw [hL]
    simp

/-- Where no block is used and no page counts a slot, nothing is allocated. -/
lemma HeapInv.not_live (hi : HeapInv h rs F)
    (hnone : ∀ b ∈ heapBlocks rs, b.kind = .free ∨ ∃ bin, b.kind = .pool bin 0) (q k : ℕ) :
    ¬ Live (heapBlocks rs) F q k := by
  rintro (⟨b, hb, hk, -⟩ | ⟨b, hb, used, hk, hs, hnew⟩)
  · rcases hnone b hb with hk' | ⟨bin, hk'⟩ <;> rw [hk] at hk' <;> exact absurd hk' (by simp)
  · rcases hnone b hb with hk' | ⟨bin, hk'⟩
    · rw [hk] at hk'
      exact absurd hk' (by simp)
    · obtain ⟨-, rfl⟩ := BlockKind.pool.inj (hk.symm.trans hk')
      exact absurd (hi.used_pos hb hk hs hnew) (by simp)

/-- **`heap_init` sets up a heap without allocations.** -/
lemma heapInit_inv {mem : Memory} {size pool0 pool1 pool2 : ℕ}
    (hg : InitGrants size virt pool0 pool1 pool2)
    (hh : heapInit mem size virt pool0 pool1 pool2 = some h) :
    ∃ rs F, HeapInv h rs F ∧ ∀ q k, ¬ Live (heapBlocks rs) F q k := by
  obtain ⟨h₀, h₁, hp₀, hp₁, hp₂⟩ := heapInit_some hh
  have hi := initHeap_inv mem hg.pages hg.range
  obtain ⟨hi₀, ho₀⟩ := hi.addPool (by decide) (by decide) hg.first hp₀
  obtain ⟨hi₁, ho₁⟩ := hi₀.addPool (by decide) (by decide) (ho₀ ▸ hg.second) hp₁
  obtain ⟨hi₂, -⟩ := hi₁.addPool (by decide) (by decide)
    (by rw [ho₁, ho₀]; exact hg.third) hp₂
  have hinv : HeapInv h _ _ := ⟨hi₂.regions, hi₂.owned, hi₂.blocks, hi₂.pools⟩
  refine ⟨_, _, hinv, hinv.not_live fun b hb => ?_⟩
  simp only [heapBlocks, List.cons_append, List.nil_append, List.flatMap_cons, List.flatMap_nil,
    grownRegion, poolRegion, List.append_nil, List.mem_cons, List.not_mem_nil, or_false] at hb
  rcases hb with rfl | rfl | rfl | rfl
  · exact .inl rfl
  · exact .inr ⟨32, rfl⟩
  · exact .inr ⟨64, rfl⟩
  · exact .inr ⟨128, rfl⟩

end

end Cuore
