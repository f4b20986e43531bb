import Cuore.Mem.Heap.Run

/-!
# Pool accounting

`PoolsExact` says of the registered pool pages, in the terms of the code: the slots of a page are
live or on the free list of its size, `used_slots` counts the live ones, the free lists hold
slots of registered pages only, each once, and `get_ptr_type` tells the slots from the blocks.

A run without a short split keeps the accounts exact (`heapRun_poolsExact`).  What fails after a
short split is the recognition of blocks: memory that was given to two clients is zeroed by one of
them, with the `magic` of the other one's block (`heapRun_shortSplit_noinfo`).
-/

namespace Cuore

open Memory

/-- `bin_size` of a pool page. -/
def pageBin (h : Heap) (page : ℕ) : ℕ := (readHeader h.mem page).binSize

/-- The slots of a pool page. -/
def pageSlots (h : Heap) (page : ℕ) : List ℕ := slotsOf page (pageBin h page)

/-- **The accounts of the pools are exact**, for the block list `L` and the free slots `F`. -/
structure PoolsExact (h : Heap) (held : List ℕ) (L : List Block) (F : ℕ → List ℕ) : Prop where
  list : BlockRep h L
  threaded : ∀ p ∈ h.pools, Threaded (slotLink h.mem) p.freeList (F p.blockSize)
  once : ∀ p ∈ h.pools, (F p.blockSize).Nodup
  registered : ∀ p ∈ h.pools, ∀ s ∈ F p.blockSize,
    ∃ page ∈ h.poolPageRegistry, pageBin h page = p.blockSize ∧ s ∈ pageSlots h page
  size : ∀ page ∈ h.poolPageRegistry, pageBin h page ∈ h.pools.map FixedPool.blockSize
  count : ∀ page ∈ h.poolPageRegistry,
    (pageSlots h page).length = (pageSize - bhSize) / pageBin h page
  partition : ∀ page ∈ h.poolPageRegistry, ∀ s ∈ pageSlots h page,
    s ∈ held ↔ s ∉ F (pageBin h page)
  used : ∀ page ∈ h.poolPageRegistry,
    (readHeader h.mem page).usedSlots = (pageSlots h page).countP fun s => s ∈ held
  classified : ∀ p ∈ held,
    (getPtrType h p = .pool ∧ ∃ page ∈ h.poolPageRegistry, p ∈ pageSlots h page) ∨
      getPtrType h p = .block ∧ ∃ b ∈ L, b.kind = .used ∧ b.payload = p

section

variable {h : Heap} {rs : List Region} {F : ℕ → List ℕ} {held : List ℕ}

/-- The page of the registry, as a block. -/
lemma HeapInv.registry_block (hi : HeapInv h rs F) {page : ℕ} (hp : page ∈ h.poolPageRegistry) :
    ∃ b ∈ heapBlocks rs, ∃ bin used, b.kind = .pool bin used ∧ b.addr = page ∧
      pageBin h page = bin ∧ (readHeader h.mem page).usedSlots = used := by
  rw [hi.pools.registry.mem_iff, List.mem_map] at hp
  obtain ⟨b, hb, rfl⟩ := hp
  obtain ⟨hb, hk⟩ := List.mem_filter.mp hb
  obtain ⟨bin, used, hk⟩ : ∃ bin used, b.kind = .pool bin used := by
    cases hkind : b.kind <;> simp [hkind, BlockKind.isPool] at hk ⊢
  obtain ⟨hused, hbin⟩ := hi.page_header hb hk
  exact ⟨b, hb, bin, used, hk, rfl, hbin, hused⟩

lemma HeapInv.mem_registry (hi : HeapInv h rs F) {b : Block} {bin used : ℕ}
    (hb : b ∈ heapBlocks rs) (hk : b.kind = .pool bin used) : b.addr ∈ h.poolPageRegistry := by
  rw [hi.pools.registry.mem_iff]
  exact List.mem_map_of_mem (List.mem_filter.mpr ⟨hb, by simp [hk, BlockKind.isPool]⟩)

/-- The slots of a page that are held are those that are not free. -/
lemma InOrder.slot_held_iff (hh : InOrder h held rs F) {b : Block} {bin used s : ℕ}
    (hb : b ∈ heapBlocks rs) (hk : b.kind = .pool bin used) (hs : s ∈ slotsOf b.addr bin) :
    s ∈ held ↔ s ∉ F bin := by
  rw [hh.2 s]
  constructor
  · rintro ⟨n, hn⟩ hF
    exact hh.1.regions.free_slot_not_live hb hk hs hF n hn
  · exact fun hF => ⟨bin, .inr ⟨b, hb, used, hk, hs, hF⟩⟩

lemma InOrder.poolsExact (hh : InOrder h held rs F) : PoolsExact h held (heapBlocks rs) F := by
  have hbin : ∀ p ∈ h.pools, p.blockSize ∈ poolSizes := fun p hp =>
    hh.1.pools.sizes ▸ List.mem_map_of_mem hp
  refine
    { list := hh.1.blocks
      threaded := hh.1.pools.threaded
      once := fun p hp => hh.1.pools.nodup _ (hbin p hp)
      registered := fun p hp s hs => ?_
      size := fun page hp => ?_
      count := fun page _ => by
        rw [pageSlots, slotsOf, List.length_map, List.length_range, slotCount]
      partition := fun page hp s hs => ?_
      used := fun page hp => ?_
      classified := fun p hp => ?_ }
  · obtain ⟨b, hb, used, hk, hsb⟩ := hh.1.pools.slot _ (hbin p hp) s hs
    have hpage : pageBin h b.addr = p.blockSize := (hh.1.page_header hb hk).2
    exact ⟨b.addr, hh.1.mem_registry hb hk, hpage, by rwa [pageSlots, hpage]⟩
  · obtain ⟨b, hb, bin, used, hk, rfl, hpage, -⟩ := hh.1.registry_block hp
    rw [hpage, hh.1.pools.sizes]
    exact (hh.1.regions.pool_region hb hk).1
  · obtain ⟨b, hb, bin, used, hk, rfl, hpage, -⟩ := hh.1.registry_block hp
    rw [pageSlots, hpage] at hs
    rw [hpage]
    exact hh.slot_held_iff hb hk hs
  · obtain ⟨b, hb, bin, used, hk, rfl, hpage, hused⟩ := hh.1.registry_block hp
    rw [hused, hh.1.used_eq hb hk, pageSlots, hpage]
    refine List.countP_congr fun s hs => ?_
    simp only [decide_eq_true_eq]
    exact (hh.slot_held_iff hb hk hs).symm
  · obtain ⟨n, hn⟩ := (hh.2 p).mp hp
    rcases hn with ⟨b, hb, hk, rfl, -⟩ | ⟨b, hb, used, hk, hs, -⟩
    · exact .inr ⟨hh.1.getPtrType_block hb (by simp [hk, BlockKind.isPool]), b, hb, hk, rfl⟩
    · refine .inl ⟨hh.1.getPtrType_slot hb hk hs, b.addr, hh.1.mem_registry hb hk, ?_⟩
      rwa [pageSlots, pageBin, (hh.1.page_header hb hk).2]

/-- **A run without a short split keeps the accounts exact.** -/
theorem heapRun_poolsExact (hr : HeapRun HeapOp.Safe h held) : ∃ L F, PoolsExact h held L F := by
  obtain ⟨rs, F, hh⟩ := hr.inOrder
  exact ⟨_, F, hh.poolsExact⟩

end

/-- Two slots and a block are taken, and a slot is given back. -/
theorem heapRun_poolsExact_boot : ∃ h held, HeapRun HeapOp.Safe h held ∧ held.length = 2 ∧
    h.poolPageRegistry.length = 3 ∧ ∃ L F, PoolsExact h held L F := by
  obtain ⟨s, hrun, hs⟩ := @bootReplay_value HeapOp.Safe _ [.malloc 64 [], .malloc 64 [],
    .malloc 208 [], .free 0xFFFF800100003FB0] _
    (fun s => (s.2.length, s.1.poolPageRegistry.length)) (2, 3) (by decide +kernel)
  simp only [Prod.mk.injEq] at hs
  exact ⟨s.1, s.2, hrun, hs.1, hs.2, heapRun_poolsExact hrun⟩

/-- **A live block is not recognised.**  Of three blocks of 208 bytes the second is freed, the first
is grown by 16, and the third is freed.  A fourth one gets memory inside the first, and the first
is freed by `zfree`. -/
theorem heapRun_shortSplit_noinfo :
    ¬ ∀ h held, HeapRun (fun _ _ => True) h held → ∃ L F, PoolsExact h held L F := by
  intro hall
  obtain ⟨s, hrun, hs⟩ := @bootReplay_value (fun _ _ => True) _ [.malloc 208 [], .malloc 208 [],
    .malloc 208 [], .free 0xFFFF800100000130, .realloc 0xFFFF800100000030 224 [],
    .free 0xFFFF800100000230, .malloc 208 [], .zfree 0xFFFF800100000030] _
    (fun s => (s.2, getPtrType s.1 0xFFFF800100000130)) ([0xFFFF800100000130], .noinfo)
    (by decide +kernel)
  simp only [Prod.mk.injEq] at hs
  obtain ⟨hheld, htype⟩ := hs
  obtain ⟨L, F, hexact⟩ := hall s.1 s.2 hrun
  rcases hexact.classified 0xFFFF800100000130 (by simp [hheld]) with ⟨hpool, -⟩ | ⟨hblock, -⟩
  · exact absurd (htype.symm.trans hpool) (by decide)
  · exact absurd (htype.symm.trans hblock) (by decide)

end Cuore
