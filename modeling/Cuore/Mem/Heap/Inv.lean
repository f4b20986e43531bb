import Cuore.Mem.Heap.Pools

/-!
# The invariant of the heap

`HeapInv h rs F` says that the heap consists of the regions `rs`, with the free slots `F`.  `Live`
are the allocations: the used blocks and the slots that are not free, each with its size.  An
allocation lies in the payload of its block, so allocations do not overlap, and writing spare
bytes leaves their contents alone.

An allocation is recognised by its pointer: `get_ptr_type` tells blocks from slots, and the
capacity that `zfree` determines is the size of the allocation.
-/

namespace Cuore

open Memory

/-- **The invariant of the heap.** -/
structure HeapInv (h : Heap) (rs : List Region) (F : ℕ → List ℕ) : Prop where
  regions : RegionsOk rs
  owned : h.owned = rs.map fun r => (r.base, r.stop - r.base)
  blocks : BlockRep h (heapBlocks rs)
  pools : PoolRep h (heapBlocks rs) F

/-- The `n` bytes at `p` are allocated: a used block, or a slot that is not free. -/
def Live (L : List Block) (F : ℕ → List ℕ) (p n : ℕ) : Prop :=
  (∃ b ∈ L, b.kind = .used ∧ p = b.payload ∧ n = b.size) ∨
    ∃ b ∈ L, ∃ used, b.kind = .pool n used ∧ p ∈ slotsOf b.addr n ∧ p ∉ F n

section Regions

variable {rs : List Region} {b c : Block} {bin used : ℕ}

/-- A pool page is a region of its own. -/
lemma RegionsOk.pool_region (h : RegionsOk rs) (hb : b ∈ heapBlocks rs)
    (hk : b.kind = .pool bin used) : bin ∈ poolSizes ∧
      (⟨b.addr, b.addr + pageSize, [b]⟩ : Region) ∈ rs ∧
      b = ⟨b.addr, pageSize - bhSize, false, .pool bin used⟩ := by
  obtain ⟨r, hr, hbr⟩ := mem_heapBlocks.mp hb
  rcases (h.ok r hr).body with hbody | ⟨hstop, bin', used', hbin, hblocks⟩
  · rcases hbody.kinds b hbr with hk' | hk' <;> rw [hk] at hk' <;> exact absurd hk' (by simp)
  · rw [hblocks, List.mem_singleton] at hbr
    have hkind : b.kind = .pool bin' used' := by rw [hbr]
    rw [hk] at hkind
    obtain ⟨rfl, rfl⟩ := BlockKind.pool.inj hkind
    have haddr : b.addr = r.base := by rw [hbr]
    refine ⟨hbin, ?_, by rw [haddr]; exact hbr⟩
    rw [haddr, ← hstop, hbr, ← hblocks]
    exact hr

lemma RegionsOk.pool_page (h : RegionsOk rs) (hb : b ∈ heapBlocks rs)
    (hk : b.kind = .pool bin used) : pageSize ∣ b.addr ∧ b.stop = b.addr + pageSize := by
  obtain ⟨-, hr, heq⟩ := h.pool_region hb hk
  refine ⟨(h.ok _ hr).page, ?_⟩
  rw [heq]
  simp only [Block.stop, bhSize, pageSize]

/-- The page of a slot. -/
lemma RegionsOk.pageBase_slot (h : RegionsOk rs) (hb : b ∈ heapBlocks rs)
    (hk : b.kind = .pool bin used) {s : ℕ} (hs : s ∈ slotsOf b.addr bin) : pageBase s = b.addr := by
  obtain ⟨hpage, hstop⟩ := h.pool_page hb hk
  have hbin := slotCount_pos (h.pool_region hb hk).1
  have hsmall := h.spread.small b hb
  obtain ⟨hle, hle'⟩ := slot_bounds hs
  exact pageBase_eq hpage (by omega) (by omega) (by omega)

end Regions

/-! ## Allocations -/

section Live

variable {rs : List Region} {F : ℕ → List ℕ} {p q n k x : ℕ}

/-- Allocations among the blocks of a list, part by part. -/
lemma live_append {P M S : List Block} :
    Live (P ++ M ++ S) F p n ↔ Live M F p n ∨ Live (P ++ S) F p n := by
  simp only [Live, List.mem_append]
  constructor
  · rintro (⟨b, (hb | hb) | hb, h⟩ | ⟨b, (hb | hb) | hb, h⟩)
    · exact .inr (.inl ⟨b, .inl hb, h⟩)
    · exact .inl (.inl ⟨b, hb, h⟩)
    · exact .inr (.inl ⟨b, .inr hb, h⟩)
    · exact .inr (.inr ⟨b, .inl hb, h⟩)
    · exact .inl (.inr ⟨b, hb, h⟩)
    · exact .inr (.inr ⟨b, .inr hb, h⟩)
  · rintro ((⟨b, hb, h⟩ | ⟨b, hb, h⟩) | (⟨b, hb | hb, h⟩ | ⟨b, hb | hb, h⟩))
    · exact .inl ⟨b, .inl (.inr hb), h⟩
    · exact .inr ⟨b, .inl (.inr hb), h⟩
    · exact .inl ⟨b, .inl (.inl hb), h⟩
    · exact .inl ⟨b, .inr hb, h⟩
    · exact .inr ⟨b, .inl (.inl hb), h⟩
    · exact .inr ⟨b, .inr hb, h⟩

lemma live_around {X Y : List Region} {base stop : ℕ} {A M B : List Block} :
    Live (heapBlocks (around X base stop A M B Y)) F p n ↔
      Live M F p n ∨ Live (heapBlocks X ++ A ++ (B ++ heapBlocks Y)) F p n := by
  rw [heapBlocks_around]
  exact live_append

/-- An allocation lies in the payload of a block that is not free. -/
lemma Live.bounds (h : RegionsOk rs) (hp : Live (heapBlocks rs) F p n) :
    ∃ b ∈ heapBlocks rs, b.kind ≠ .free ∧ b.payload ≤ p ∧ p + n ≤ b.stop := by
  rcases hp with ⟨b, hb, hk, rfl, rfl⟩ | ⟨b, hb, used, hk, hs, -⟩
  · exact ⟨b, hb, by simp [hk], le_rfl, le_rfl⟩
  · obtain ⟨hle, hle'⟩ := slot_bounds hs
    exact ⟨b, hb, by simp [hk], hle, by rwa [(h.pool_page hb hk).2]⟩

/-- The spare bytes are not allocated. -/
lemma Live.not_mem_spareBytes (h : RegionsOk rs) (hp : Live (heapBlocks rs) F p n) (hle : p ≤ x)
    (hlt : x < p + n) : x ∉ spareBytes (heapBlocks rs) := by
  obtain ⟨b, hb, hk, hbp, hbn⟩ := hp.bounds h
  exact h.spread.payload_not_spare hb hk (hbp.trans hle) (hlt.trans_le hbn)

/-- Two allocations do not overlap. -/
lemma Live.apart (h : RegionsOk rs) (hp : Live (heapBlocks rs) F p n)
    (hq : Live (heapBlocks rs) F q k) (hne : p ≠ q) : p + n ≤ q ∨ q + k ≤ p := by
  have hother : ∀ b ∈ heapBlocks rs, ∀ c ∈ heapBlocks rs, b ≠ c → b.payload ≤ p → p + n ≤ b.stop →
      c.payload ≤ q → q + k ≤ c.stop → p + n ≤ q ∨ q + k ≤ p := by
    intro b hb c hc hbc h₁ h₂ h₃ h₄
    simp only [Block.payload] at h₁ h₃
    rcases h.spread.of_mem hb hc hbc with hapart | hapart <;> omega
  have hslot : ∀ {b : Block} {bin used s : ℕ}, b ∈ heapBlocks rs → b.kind = .pool bin used →
      s ∈ slotsOf b.addr bin → b.payload ≤ s ∧ s + bin ≤ b.stop := fun hb hk hs => by
    rw [(h.pool_page hb hk).2]
    exact slot_bounds hs
  rcases hp with ⟨b, hb, hkb, rfl, rfl⟩ | ⟨b, hb, used, hkb, hsb, -⟩ <;>
    rcases hq with ⟨c, hc, hkc, rfl, rfl⟩ | ⟨c, hc, used', hkc, hsc, -⟩
  · exact hother b hb c hc (fun heq => hne (heq ▸ rfl)) le_rfl le_rfl le_rfl le_rfl
  · obtain ⟨hle, hle'⟩ := hslot hc hkc hsc
    exact hother b hb c hc (fun heq => by simp [heq, hkc] at hkb) le_rfl le_rfl hle hle'
  · obtain ⟨hle, hle'⟩ := hslot hb hkb hsb
    exact hother b hb c hc (fun heq => by simp [heq, hkc] at hkb) hle hle' le_rfl le_rfl
  · rcases eq_or_ne b c with rfl | hbc
    · obtain ⟨rfl, -⟩ := BlockKind.pool.inj (hkb.symm.trans hkc)
      exact slot_apart hsb hsc hne
    · obtain ⟨hle, hle'⟩ := hslot hb hkb hsb
      obtain ⟨hle₂, hle₂'⟩ := hslot hc hkc hsc
      exact hother b hb c hc hbc hle hle' hle₂ hle₂'

/-- The payload of a block is not a slot. -/
lemma RegionsOk.payload_not_slot (h : RegionsOk rs) {b c : Block} {bin used : ℕ}
    (hb : b ∈ heapBlocks rs) (hk : b.kind.isPool = false) (hc : c ∈ heapBlocks rs)
    (hkc : c.kind = .pool bin used) : b.payload ∉ slotsOf c.addr bin := by
  intro hs
  obtain ⟨hle, hle'⟩ := slot_bounds hs
  have hbin := slotCount_pos (h.pool_region hc hkc).1
  have hstop := (h.pool_page hc hkc).2
  have hbc : b ≠ c := fun heq => by simp [heq, hkc, BlockKind.isPool] at hk
  have hbstop : b.payload ≤ b.stop := by
    simp only [Block.payload, Block.stop]
    omega
  simp only [Block.payload, bhSize] at hle hle' hbstop
  rcases h.spread.of_mem hb hc hbc with hapart | hapart <;> omega

/-- **A pointer has one size.** -/
lemma Live.size_unique (h : RegionsOk rs) (hp : Live (heapBlocks rs) F p n)
    (hq : Live (heapBlocks rs) F p k) : n = k := by
  rcases hp with ⟨b, hb, hkb, rfl, rfl⟩ | ⟨b, hb, used, hkb, hsb, -⟩ <;>
    rcases hq with ⟨c, hc, hkc, heq, rfl⟩ | ⟨c, hc, used', hkc, hsc, -⟩
  · rw [h.spread.addr_inj hb hc (by simp only [Block.payload] at heq; omega)]
  · exact absurd hsc (h.payload_not_slot hb (by simp [hkb, BlockKind.isPool]) hc hkc)
  · exact absurd (heq ▸ hsb) (h.payload_not_slot hc (by simp [hkc, BlockKind.isPool]) hb hkb)
  · have haddr : b.addr = c.addr :=
      (h.pageBase_slot hb hkb hsb).symm.trans (h.pageBase_slot hc hkc hsc)
    obtain rfl := h.spread.addr_inj hb hc haddr
    exact (BlockKind.pool.inj (hkb.symm.trans hkc)).1

end Live

/-! ## Recognising an allocation -/

section Pointer

variable {h : Heap} {rs : List Region} {F : ℕ → List ℕ} {b : Block} {p n bin used : ℕ}

lemma HeapInv.isPoolPage_iff (hi : HeapInv h rs F) (a : ℕ) : isPoolPage h a = true ↔
    ∃ b ∈ heapBlocks rs, b.kind.isPool = true ∧ b.addr = a := by
  rw [isPoolPage, List.contains_iff_mem, hi.pools.registry.mem_iff, List.mem_map]
  simp only [List.mem_filter, and_assoc]

/-- The page of a block's payload is not a pool page. -/
lemma HeapInv.isPoolPage_payload (hi : HeapInv h rs F) (hb : b ∈ heapBlocks rs)
    (hk : b.kind.isPool = false) : isPoolPage h (pageBase b.payload) = false := by
  rw [Bool.eq_false_iff]
  intro hpage
  obtain ⟨c, hc, hkc, hca⟩ := (hi.isPoolPage_iff _).mp hpage
  obtain ⟨bin, used, hkc⟩ : ∃ bin used, c.kind = .pool bin used := by
    cases hkind : c.kind <;> simp [hkind, BlockKind.isPool] at hkc ⊢
  obtain ⟨-, hcr, -⟩ := hi.regions.pool_region hc hkc
  obtain ⟨X, base, stop, A, B, Y, hrs, hregion⟩ := hi.regions.exists_region hb hk
  have hr : (⟨base, stop, A ++ [b] ++ B⟩ : Region) ∈ rs := by simp [hrs, around]
  have hok := hi.regions.ok _ hr
  have hbounds := hok.bounds (b := b) (by simp)
  have hinside := hregion.inside b (by simp)
  have hsmall := hok.small
  simp only [Block.payload] at hinside hca
  have hx : b.addr + bhSize < word := hinside.trans hsmall
  -- the page starts in the region of the block, where no pool page is
  have hdown := pageBase_eq_alignDown hx
  have hle : base ≤ alignDown pageSize (b.addr + bhSize) := by
    obtain ⟨q, rfl⟩ := hok.page
    rw [alignDown, Nat.mul_comm]
    refine Nat.mul_le_mul_right _ ((Nat.le_div_iff_mul_le (by decide)).mpr ?_)
    rw [Nat.mul_comm]
    exact hbounds.1.trans (by omega)
  refine hi.regions.not_mem_range hr hcr (fun heq => ?_) ⟨?_, ?_⟩
  · have hmem : c ∈ A ++ [b] ++ B := by
      have hblocks : A ++ [b] ++ B = [c] := congrArg Region.blocks heq
      simp only [hblocks, List.mem_singleton]
    rcases hregion.kinds c hmem with hk' | hk' <;> rw [hkc] at hk' <;> exact absurd hk' (by simp)
  · change base ≤ c.addr
    rw [hca, hdown]
    exact hle
  · change c.addr < stop
    rw [hca, hdown]
    exact (alignDown_le _ _).trans_lt hinside

lemma HeapInv.getPtrType_block (hi : HeapInv h rs F) (hb : b ∈ heapBlocks rs)
    (hk : b.kind.isPool = false) : getPtrType h b.payload = .block := by
  obtain ⟨q, r, hat⟩ := hi.blocks.at_mem hb
  rw [getPtrType, hi.isPoolPage_payload hb hk, if_neg (by simp), Block.payload,
    Nat.add_sub_cancel, hat]
  exact if_pos rfl

lemma HeapInv.getPtrType_slot (hi : HeapInv h rs F) (hb : b ∈ heapBlocks rs)
    (hk : b.kind = .pool bin used) (hp : p ∈ slotsOf b.addr bin) : getPtrType h p = .pool := by
  rw [getPtrType, hi.regions.pageBase_slot hb hk hp, if_pos]
  exact (hi.isPoolPage_iff _).mpr ⟨b, hb, by simp [hk, BlockKind.isPool], rfl⟩

/-- **The size of an allocation is its capacity.** -/
lemma HeapInv.capacity_eq (hi : HeapInv h rs F) (hp : Live (heapBlocks rs) F p n) :
    capacity h p = n := by
  rcases hp with ⟨b, hb, hk, rfl, rfl⟩ | ⟨b, hb, used, hk, hs, -⟩
  · obtain ⟨q, r, hat⟩ := hi.blocks.at_mem hb
    rw [capacity, hi.getPtrType_block hb (by simp [hk, BlockKind.isPool])]
    simp only [Block.payload, Nat.add_sub_cancel]
    rw [hat]
    rfl
  · obtain ⟨q, r, hat⟩ := hi.blocks.at_mem hb
    rw [capacity, hi.getPtrType_slot hb hk hs]
    simp only [hi.regions.pageBase_slot hb hk hs]
    rw [hat]
    simp [Block.header, Block.bin, hk]

end Pointer

/-! ## Changing the blocks -/

section Reblock

variable {h h' : Heap} {rs rs' : List Region} {L L' : List Block} {F : ℕ → List ℕ}

/-- The pools depend on the pool pages, and on the links of the free slots. -/
lemma PoolRep.congr (hp : PoolRep h L F) (hpools : h'.pools = h.pools)
    (hreg : h'.poolPageRegistry = h.poolPageRegistry)
    (hL : (L'.filter fun b => b.kind.isPool) = L.filter fun b => b.kind.isPool)
    (hlink : ∀ bin ∈ poolSizes, ∀ s ∈ F bin, slotLink h'.mem s = slotLink h.mem s) :
    PoolRep h' L' F := by
  have hmem : ∀ b : Block, b.kind.isPool = true → (b ∈ L' ↔ b ∈ L) := fun b hb => by
    have := congrArg (fun l => b ∈ l) hL
    simpa [hb] using this
  have hbin : ∀ p ∈ h.pools, p.blockSize ∈ poolSizes := fun p hpm =>
    hp.sizes ▸ List.mem_map_of_mem hpm
  exact
    { sizes := by rw [hpools, hp.sizes]
      threaded := fun p hpm => by
        rw [hpools] at hpm
        exact (hp.threaded p hpm).congr fun s hs => hlink _ (hbin p hpm) s hs
      nodup := hp.nodup
      slot := fun bin hbin s hs => by
        obtain ⟨b, hb, used, hk, hs⟩ := hp.slot bin hbin s hs
        exact ⟨b, (hmem b (by simp [hk, BlockKind.isPool])).mpr hb, used, hk, hs⟩
      count := fun b hb bin used hk =>
        hp.count b ((hmem b (by simp [hk, BlockKind.isPool])).mp hb) bin used hk
      registry := by rw [hreg, hL]; exact hp.registry }

/-- The link of a slot is not among the spare bytes of the block list. -/
lemma RegionsOk.slotWord_not_spare (hrs : RegionsOk rs) {b : Block} {bin used s x : ℕ}
    (hb : b ∈ heapBlocks rs) (hk : b.kind = .pool bin used) (hs : s ∈ slotsOf b.addr bin)
    (hle : s ≤ x) (hlt : x < s + 8) : x ∉ spareBytes (heapBlocks rs) := by
  obtain ⟨hlow, hhigh⟩ := slot_bounds hs
  have hbin := slotCount_pos (hrs.pool_region hb hk).1
  refine hrs.spread.payload_not_spare hb (by simp [hk]) (hlow.trans hle) ?_
  rw [(hrs.pool_page hb hk).2]
  omega

/-- Writing spare bytes keeps the link of a slot. -/
lemma RegionsOk.slotLink_eq (hrs : RegionsOk rs) {b : Block} {bin used s : ℕ} {m m' : Memory}
    (hb : b ∈ heapBlocks rs) (hk : b.kind = .pool bin used) (hs : s ∈ slotsOf b.addr bin)
    (hsame : SameOutside (spareBytes (heapBlocks rs)) m m') : slotLink m' s = slotLink m s :=
  load_congr fun x hx hx' => hsame x (hrs.slotWord_not_spare hb hk hs hx hx')

lemma PoolRep.slotLink_eq {m m' : Memory} (hp : PoolRep h L F) (hrs : RegionsOk rs)
    (hsub : ∀ b ∈ L, b ∈ heapBlocks rs) (hsame : SameOutside (spareBytes (heapBlocks rs)) m m') :
    ∀ bin ∈ poolSizes, ∀ s ∈ F bin, slotLink m' s = slotLink m s := by
  intro bin hbin s hs
  obtain ⟨b, hb, used, hk, hs⟩ := hp.slot bin hbin s hs
  exact hrs.slotLink_eq (hsub b hb) hk hs hsame

/-- **The blocks of the heap have changed, its ranges and pool pages have not.** -/
lemma HeapInv.reblock (hi : HeapInv h rs F) (hrs : RegionsOk rs')
    (hranges : (rs'.map fun r => (r.base, r.stop - r.base)) =
      rs.map fun r => (r.base, r.stop - r.base))
    (hpool : ((heapBlocks rs').filter fun b => b.kind.isPool) =
      (heapBlocks rs).filter fun b => b.kind.isPool)
    (hr : BlockRep h' (heapBlocks rs')) (honly : BlocksOnly h h')
    (hsame : SameOutside (spareBytes (heapBlocks rs)) h.mem h'.mem) : HeapInv h' rs' F where
  regions := hrs
  owned := by rw [honly.owned, hi.owned, hranges]
  blocks := hr
  pools := hi.pools.congr honly.pools honly.poolPageRegistry hpool
    (hi.pools.slotLink_eq hi.regions (fun _ hb => hb) hsame)

end Reblock

end Cuore
