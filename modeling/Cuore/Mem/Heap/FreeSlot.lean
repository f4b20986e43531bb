import Cuore.Mem.Heap.Slots

/-!
# Giving slots back

A slot is put in front of its free list, and the header of its page counts one less.  When it was
the last of its page, the free list is rid of the slots of the page in one walk, and the page
leaves the registry, the block list and the heap.
-/

namespace Cuore

open Memory

section

variable {h h' : Heap} {rs : List Region} {L L' : List Block} {F : ℕ → List ℕ} {b : Block}
  {p : FixedPool} {A B : List FixedPool} {bin used size : ℕ} {l : List ℕ}

/-! ## Ridding a free list of a page -/

/-- The links of the slots `l`. -/
def slotWords (l : List ℕ) : Set ℕ := {x | ∃ t ∈ l, t ≤ x ∧ x < t + 8}

lemma slotLink_store {m : Memory} {s v : ℕ} (hv : v < word) : slotLink (m.store s 8 v) s = v := by
  rw [slotLink, load_store_self, Nat.mod_eq_of_lt (show v < 256 ^ 8 from hv)]

lemma slotLink_store_of_apart {m : Memory} {s t v : ℕ} (h : t + 8 ≤ s ∨ s + 8 ≤ t) :
    slotLink (m.store s 8 v) t = slotLink m t := load_store_of_disjoint h

/-- **The walk of `_free` over a free list** leaves the slots that are not on the page.  `K` are the
slots that it has kept so far, `R` those that it has still to look at. -/
lemma dropPage_spec {page : ℕ} (R : List ℕ) : ∀ (K : List ℕ) (m : Memory) (f curr fuel : ℕ),
    R.length < fuel → Threaded (slotLink m) f (K ++ R) → Threaded (slotLink m) curr R →
    (K ++ R).Pairwise (fun s t => s + 8 ≤ t ∨ t + 8 ≤ s) →
    ∃ m' f', dropPage page fuel m f (K.getLastD 0) curr = some (m', f') ∧
      Threaded (slotLink m') f' (K ++ R.filter fun s => pageBase s ≠ page) ∧
      SameOutside (slotWords (K ++ R)) m m' := by
  induction R with
  | nil =>
    intro K m f curr fuel hfuel hK hR _
    obtain ⟨n, rfl⟩ := Nat.exists_eq_succ_of_ne_zero (Nat.ne_zero_of_lt hfuel)
    have hcurr : curr = 0 := hR
    exact ⟨m, f, by rw [dropPage, if_pos hcurr], hK, .refl _ _⟩
  | cons s R ih =>
    intro K m f curr fuel hfuel hK hR hapart
    obtain ⟨n, rfl⟩ := Nat.exists_eq_succ_of_ne_zero (Nat.ne_zero_of_lt hfuel)
    obtain ⟨rfl, hs0, hR⟩ := hR
    have hn : R.length < n := by simpa using hfuel
    rw [dropPage, if_neg hs0, show m.load curr 8 = slotLink m curr from rfl]
    by_cases hpage : pageBase curr = page
    · rw [List.filter_cons_of_neg (by simpa using hpage)]
      simp only [hpage, if_true]
      rcases List.eq_nil_or_concat' K with rfl | ⟨K, k, rfl⟩
      · -- the list starts behind the slot
        rw [if_neg (by simp)]
        obtain ⟨m', f', hdrop, hthread, hsame⟩ :=
          ih [] m (slotLink m curr) (slotLink m curr) n hn hR
          hR (List.pairwise_cons.mp hapart).2
        refine ⟨m', f', hdrop, hthread, hsame.mono ?_⟩
        rintro x ⟨t, ht, hx⟩
        exact ⟨t, by simp [show t ∈ R by simpa using ht], hx⟩
      · -- the slot before it gets its link
        rw [List.getLastD_concat]
        have hk0 : k ≠ 0 := hK.ne_zero (by simp)
        rw [if_pos hk0]
        have hlt : slotLink m curr < word := m.load_lt curr 8
        have hother : ∀ t ∈ K ++ R, slotLink (m.store k 8 (slotLink m curr)) t = slotLink m t := by
          intro t ht
          apply slotLink_store_of_apart
          have hperm : (K ++ [k] ++ curr :: R).Perm (k :: curr :: (K ++ R)) := by
            rw [List.append_assoc, List.singleton_append]
            exact List.perm_middle.trans (List.perm_middle.cons k)
          have := (hperm.pairwise_iff fun {_ _} => Or.symm).mp hapart
          exact (List.rel_of_pairwise_cons this (List.mem_cons_of_mem _ ht)).symm
        have hskip : Threaded (slotLink (m.store k 8 (slotLink m curr))) f (K ++ [k] ++ R) := by
          have : Threaded (slotLink (m.store k 8 (slotLink m curr))) f (K ++ k :: R) :=
            Threaded.skip (show Threaded (slotLink m) f (K ++ k :: curr :: R) by simpa using hK)
              (slotLink_store hlt) hother
          simpa using this
        have hsub : (K ++ [k] ++ R).Sublist (K ++ [k] ++ curr :: R) := by simp
        obtain ⟨m', f', hdrop, hthread, hsame⟩ := ih (K ++ [k]) (m.store k 8 (slotLink m curr)) f
          (slotLink m curr) n hn hskip (hR.congr fun t ht => hother t (by simp [ht]))
          (hapart.sublist hsub)
        rw [List.getLastD_concat] at hdrop
        refine ⟨m', f', hdrop, hthread, ((sameOutside_store m k 8 _).trans hsame).mono ?_⟩
        rintro x (hx | ⟨t, ht, hx⟩)
        · exact ⟨k, by simp, hx⟩
        · exact ⟨t, hsub.subset ht, hx⟩
    · rw [List.filter_cons_of_pos (by simpa using hpage)]
      have hstep := ih (K ++ [curr]) m f (slotLink m curr) n hn (by simpa using hK) hR
        (by simpa using hapart)
      rw [List.getLastD_concat] at hstep
      simpa [hpage] using hstep

/-! ## Giving a slot back -/

/-- The last entry takes the place of the one that leaves the registry. -/
lemma unregister_perm (page : ℕ) (registry : List ℕ) :
    (unregister page registry).Perm (registry.erase page) := by
  by_cases hmem : page ∈ registry
  · obtain ⟨A, B, rfl, hA⟩ := List.eq_append_cons_of_mem hmem
    have herase : (A ++ page :: B).erase page = A ++ B := by
      rw [List.erase_append_right _ hA, List.erase_cons_head]
    have hidx : (A ++ page :: B).idxOf page = A.length := by
      rw [List.idxOf_append_of_notMem hA, List.idxOf_cons_self, Nat.add_zero]
    have hset : ∀ z, (A ++ page :: B).set A.length z = A ++ z :: B := fun z => by
      rw [List.set_append_right _ _ le_rfl, Nat.sub_self, List.set_cons_zero]
    rw [unregister, if_pos (by simp), hidx, hset, herase]
    rcases List.eq_nil_or_concat' B with rfl | ⟨B, z, rfl⟩
    · simp
    · rw [show A ++ page :: (B ++ [z]) = (A ++ page :: B) ++ [z] by simp, List.getLastD_concat,
        show A ++ z :: (B ++ [z]) = (A ++ z :: B) ++ [z] by simp, List.dropLast_concat,
        ← List.append_assoc]
      exact List.perm_middle.trans (List.perm_append_singleton z (A ++ B)).symm
  · rw [unregister, if_neg (by simpa using hmem), List.erase_of_not_mem hmem]

/-- **A page counts its slots that are not free.** -/
lemma HeapInv.used_eq (hi : HeapInv h rs F) (hb : b ∈ heapBlocks rs)
    (hk : b.kind = .pool bin used) :
    used = (slotsOf b.addr bin).countP fun s => s ∉ F bin := by
  have hbin := (hi.regions.pool_region hb hk).1
  have hnd := slotsOf_nodup b.addr (show 0 < bin by have := (slotCount_pos hbin).1; omega)
  have hperm : ((slotsOf b.addr bin).filter fun s => s ∈ F bin).Perm
      ((F bin).filter fun s => pageBase s = b.addr) := by
    refine (List.perm_ext_iff_of_nodup (hnd.filter _) ((hi.pools.nodup bin hbin).filter _)).mpr
      fun s => ?_
    simp only [List.mem_filter, decide_eq_true_eq]
    constructor
    · rintro ⟨hs, hF⟩
      exact ⟨hF, hi.regions.pageBase_slot hb hk hs⟩
    · rintro ⟨hF, hpage⟩
      obtain ⟨c, hc, used', hkc, hs⟩ := hi.pools.slot bin hbin s hF
      rw [hi.regions.pageBase_slot hc hkc hs] at hpage
      exact ⟨hi.regions.spread.addr_inj hc hb hpage ▸ hs, hF⟩
  have hlen := hperm.length_eq
  rw [← List.countP_eq_length_filter, ← List.countP_eq_length_filter] at hlen
  have hcount := hi.pools.count b hb bin used hk
  have hall := List.length_eq_countP_add_countP (l := slotsOf b.addr bin) (p := fun s => s ∈ F bin)
  have hslots : (slotsOf b.addr bin).length = slotCount bin := by simp [slotsOf]
  simp only [decide_eq_true_eq, decide_not] at hall ⊢
  omega

/-- The pool of a size, at the place where `_free` looks for it. -/
lemma PoolRep.exists_pool (hp : PoolRep h L F) (hbin : bin ∈ poolSizes) :
    ∃ A p B, h.pools = A ++ p :: B ∧ p.blockSize = bin ∧
      h.pools.findIdx (fun q => q.blockSize == bin) = A.length := by
  obtain ⟨p, hpm, hpb⟩ : ∃ p ∈ h.pools, p.blockSize = bin := by
    rw [← hp.sizes] at hbin
    exact List.mem_map.mp hbin
  have hlt := List.findIdx_lt_length_of_exists (p := fun q : FixedPool => q.blockSize == bin)
    ⟨p, hpm, by simpa using hpb⟩
  set i := h.pools.findIdx fun q => q.blockSize == bin with hi
  refine ⟨h.pools.take i, h.pools[i], h.pools.drop (i + 1), ?_, ?_,
    (List.length_take_of_le hlt.le).symm⟩
  · rw [← List.drop_eq_getElem_cons hlt, List.take_append_drop]
  · simpa [hi] using List.findIdx_getElem (w := hlt)

/-- What giving back the allocation at `p` does. -/
def Frees (h : Heap) (rs : List Region) (F : ℕ → List ℕ) (p : ℕ) (h' : Heap) : Prop :=
  ∃ rs' F', HeapInv h' rs' F' ∧
    (∀ q k, Live (heapBlocks rs') F' q k ↔ Live (heapBlocks rs) F q k ∧ q ≠ p) ∧
    Undisturbed (fun q k => Live (heapBlocks rs) F q k ∧ q ≠ p) h.mem h'.mem

/-- Slots do not overlap the other allocations. -/
lemma RegionsOk.slot_apart_live (hrs : RegionsOk rs) (hb : b ∈ heapBlocks rs)
    (hk : b.kind = .pool bin used) {t q k : ℕ} (ht : t ∈ slotsOf b.addr bin)
    (hq : Live (heapBlocks rs) F q k) (hne : t ≠ q) : t + bin ≤ q ∨ q + k ≤ t := by
  -- for this, every slot may as well be taken
  have hall : ∀ {q k}, Live (heapBlocks rs) F q k → Live (heapBlocks rs) (fun _ => []) q k := by
    rintro q k (hblock | ⟨c, hc, used', hkc, hqs, -⟩)
    · exact .inl hblock
    · exact .inr ⟨c, hc, used', hkc, hqs, List.not_mem_nil⟩
  exact Live.apart hrs (.inr ⟨b, hb, used, hk, ht, List.not_mem_nil⟩) (hall hq) hne

/-- Writing spare bytes and the links of slots leaves the other allocations alone. -/
lemma HeapInv.undisturbed_slots (hi : HeapInv h rs F) {m' : Memory} {l : List ℕ}
    (hbin : bin ∈ poolSizes)
    (hl : ∀ t ∈ l, ∃ b ∈ heapBlocks rs, ∃ used, b.kind = .pool bin used ∧ t ∈ slotsOf b.addr bin)
    (hsame : SameOutside (spareBytes (heapBlocks rs) ∪ slotWords l) h.mem m') :
    Undisturbed (fun q k => Live (heapBlocks rs) F q k ∧ q ∉ l) h.mem m' := by
  rintro q k ⟨hq, hql⟩ x hx hx'
  apply hsame x
  rintro (hspare | ⟨t, ht, htx⟩)
  · exact hq.not_mem_spareBytes hi.regions hx hx' hspare
  · obtain ⟨b, hb, used, hk, hts⟩ := hl t ht
    have hlt := (slotCount_pos hbin).1
    rcases hi.regions.slot_apart_live hb hk hts hq (fun heq => hql (heq ▸ ht)) with hle | hle <;>
      omega

/-- Links of slots are not in headers. -/
lemma RegionsOk.readHeader_slotWords (hrs : RegionsOk rs) {m m' : Memory} {l : List ℕ}
    (hl : ∀ t ∈ l, ∃ b ∈ heapBlocks rs, ∃ used, b.kind = .pool bin used ∧ t ∈ slotsOf b.addr bin)
    (hsame : SameOutside (slotWords l) m m') {c : Block} (hc : c ∈ heapBlocks rs) :
    readHeader m' c.addr = readHeader m c.addr := by
  refine readHeader_congr hsame (Set.disjoint_left.mpr fun x hx hxl => ?_)
  obtain ⟨t, ht, hle, hlt⟩ := hxl
  obtain ⟨b, hb, used, hk, hts⟩ := hl t ht
  exact hrs.slotWord_not_spare hb hk hts hle hlt ⟨c, hc, .inl hx⟩

/-- Links of slots are not in other slots. -/
lemma RegionsOk.slotLink_slotWords (hrs : RegionsOk rs) {m m' : Memory} {l : List ℕ} {c : Block}
    {bin' used' t : ℕ} (hbin : bin ∈ poolSizes)
    (hl : ∀ t ∈ l, ∃ b ∈ heapBlocks rs, ∃ used, b.kind = .pool bin used ∧ t ∈ slotsOf b.addr bin)
    (hsame : SameOutside (slotWords l) m m') (hc : c ∈ heapBlocks rs)
    (hkc : c.kind = .pool bin' used') (ht : t ∈ slotsOf c.addr bin') (hnot : t ∉ l) :
    slotLink m' t = slotLink m t := by
  refine load_congr fun x hx hx' => hsame x ?_
  rintro ⟨s, hs, hsx⟩
  obtain ⟨b, hb, used, hk, hsb⟩ := hl s hs
  have hlive : Live (heapBlocks rs) (fun _ => []) s bin :=
    .inr ⟨b, hb, used, hk, hsb, List.not_mem_nil⟩
  have h8 := (slotCount_pos hbin).1
  have h8' := (slotCount_pos (hrs.pool_region hc hkc).1).1
  rcases hrs.slot_apart_live hc hkc ht hlive (fun heq => hnot (heq ▸ hs)) with hle | hle <;> omega

lemma HeapInv.freeList_lt (hi : HeapInv h rs F) (hpm : p ∈ h.pools) : p.freeList < word := by
  have hthread := hi.pools.threaded p hpm
  have hbin : p.blockSize ∈ poolSizes := hi.pools.sizes ▸ List.mem_map_of_mem hpm
  cases hF : F p.blockSize with
  | nil =>
    rw [hF] at hthread
    rw [show p.freeList = 0 from hthread]
    decide
  | cons t l =>
    rw [hF] at hthread
    rw [hthread.1]
    obtain ⟨c, hc, used, hkc, hts⟩ := hi.pools.slot _ hbin t (by simp [hF])
    have hsmall := hi.regions.spread.small c hc
    rw [(hi.regions.pool_page hc hkc).2] at hsmall
    have := (slot_bounds hts).2
    omega

/-- **The first writes of `_free` for a slot**: the slot is put in front of its free list, and the
page counts one less. -/
lemma HeapInv.putSlot {P S : List Block} {s : ℕ} (hi : HeapInv h rs F)
    (hL : heapBlocks rs = P ++ [b] ++ S) (hk : b.kind = .pool bin used)
    (hs : s ∈ slotsOf b.addr bin) (hnew : s ∉ F bin) (hpm : p ∈ h.pools) (hpb : p.blockSize = bin)
    {m : Memory} (hm : m = setUsedSlots (h.mem.store s 8 p.freeList) b.addr (used - 1)) :
    BlockRep { h with mem := m } (P ++ [{ b with kind := .pool bin (used - 1) }] ++ S) ∧
      Threaded (slotLink m) s (s :: F bin) ∧
      SameOutside (spareBytes (heapBlocks rs) ∪ slotWords [s]) h.mem m ∧
      ∀ bin' ∈ poolSizes, ∀ t ∈ F bin', slotLink m t = slotLink h.mem t := by
  have hb : b ∈ heapBlocks rs := by simp [hL]
  have hbin := (hi.regions.pool_region hb hk).1
  have hused : used ≤ slotCount bin := by
    have := hi.pools.count b hb _ _ hk
    omega
  have hlt := (slotCount_pos hbin).2.2
  have hword : SameOutside (slotWords [s]) h.mem (h.mem.store s 8 p.freeList) :=
    (sameOutside_store _ _ _ _).mono fun x hx => ⟨s, by simp, hx⟩
  have hkeep := fun (c : Block) (hc : c ∈ heapBlocks rs) => hi.regions.readHeader_slotWords
    (l := [s]) (by simpa using ⟨b, hb, ⟨used, hk⟩, hs⟩) hword hc
  have hrep : BlockRep { h with mem := h.mem.store s 8 p.freeList } (P ++ [b] ++ S) :=
    (hL ▸ hi.blocks).congr rfl rfl rfl fun c hc => hkeep c (hL ▸ hc)
  have hspare : SameOutside (spareBytes (heapBlocks rs)) (h.mem.store s 8 p.freeList) m := by
    rw [hm]
    exact (sameOutside_setUsedSlots _).mono fun x hx => ⟨b, hb, .inl hx⟩
  -- the header is not in a slot, and the slot not in another one
  have hself : slotLink m s = p.freeList := by
    rw [hi.regions.slotLink_eq hb hk hs hspare, slotLink_store (hi.freeList_lt hpm)]
  have hlink : ∀ bin' ∈ poolSizes, ∀ t ∈ F bin', slotLink m t = slotLink h.mem t := by
    intro bin' hbin' t ht
    obtain ⟨c, hc, used', hkc, hts⟩ := hi.pools.slot bin' hbin' t ht
    rw [hi.pools.slotLink_eq hi.regions (fun _ hc => hc) hspare bin' hbin' t ht]
    have hne : t ≠ s := by
      rintro rfl
      obtain ⟨-, rfl⟩ := hi.regions.page_unique hb hk hs hc hkc hts
      exact hnew ht
    exact hi.regions.slotLink_slotWords (l := [s]) hbin (by simpa using ⟨b, hb, ⟨used, hk⟩, hs⟩)
      hword hc hkc hts (by simpa using hne)
  refine ⟨hm ▸ hrep.setUsedSlots (hL ▸ hi.regions.spread) hk (by omega), ⟨rfl, ?_, ?_⟩, ?_, hlink⟩
  · have := (slot_bounds hs).1
    have := hi.regions.spread.pos hb
    omega
  · rw [hself]
    have := hi.pools.threaded p hpm
    rw [hpb] at this
    exact this.congr (hlink bin hbin)
  · exact (hword.trans hspare).mono (by rw [Set.union_comm])

/-- A slot that is put on its free list is no allocation any more. -/
lemma RegionsOk.live_push (hrs : RegionsOk rs) (hb : b ∈ heapBlocks rs)
    (hk : b.kind = .pool bin used) {s q k : ℕ} (hs : s ∈ slotsOf b.addr bin) :
    Live (heapBlocks rs) (Function.update F bin (s :: F bin)) q k ↔
      Live (heapBlocks rs) F q k ∧ q ≠ s := by
  constructor
  · rintro (⟨c, hc, hkc, rfl, rfl⟩ | ⟨c, hc, used', hkc, hq, hnew⟩)
    · refine ⟨.inl ⟨c, hc, hkc, rfl, rfl⟩, fun heq => ?_⟩
      exact hrs.payload_not_slot hc (by simp [hkc, BlockKind.isPool]) hb hk (heq ▸ hs)
    · by_cases hkb : k = bin
      · subst hkb
        rw [Function.update_self, List.mem_cons, not_or] at hnew
        exact ⟨.inr ⟨c, hc, used', hkc, hq, hnew.2⟩, hnew.1⟩
      · rw [Function.update_of_ne hkb] at hnew
        refine ⟨.inr ⟨c, hc, used', hkc, hq, hnew⟩, fun heq => hkb ?_⟩
        exact (hrs.page_unique hc hkc hq hb hk (heq ▸ hs)).2
  · rintro ⟨hblock | ⟨c, hc, used', hkc, hq, hold⟩, hne⟩
    · exact .inl hblock
    · refine .inr ⟨c, hc, used', hkc, hq, ?_⟩
      by_cases hkb : k = bin
      · subst hkb
        rw [Function.update_self, List.mem_cons, not_or]
        exact ⟨hne, hold⟩
      · rwa [Function.update_of_ne hkb]

/-- When the last slot of a page is given back, the page has no other allocations. -/
lemma RegionsOk.live_drop {P S : List Block} (hrs : RegionsOk rs)
    (hL : heapBlocks rs = P ++ [b] ++ S) (hk : b.kind = .pool bin used) {s q k : ℕ}
    (hs : s ∈ slotsOf b.addr bin) (hlast : ∀ t ∈ slotsOf b.addr bin, t ∉ F bin → t = s) :
    Live (P ++ S) (Function.update F bin ((s :: F bin).filter fun t => pageBase t ≠ b.addr)) q k ↔
      Live (heapBlocks rs) F q k ∧ q ≠ s := by
  have hb : b ∈ heapBlocks rs := by simp [hL]
  have hmem : ∀ c, c ∈ heapBlocks rs ↔ c ∈ P ++ S ∨ c = b := fun c => by
    rw [hL]
    simp only [List.mem_append, List.mem_singleton]
    tauto
  have hpage : ∀ c ∈ P ++ S, c.addr ≠ b.addr := fun c hc =>
    (hL ▸ hrs.spread).addr_ne (List.mem_singleton_self b) hc
  constructor
  · rintro (⟨c, hc, hkc, rfl, rfl⟩ | ⟨c, hc, used', hkc, hq, hnew⟩)
    · have hc' := (hmem c).mpr (.inl hc)
      refine ⟨.inl ⟨c, hc', hkc, rfl, rfl⟩, fun heq => ?_⟩
      exact hrs.payload_not_slot hc' (by simp [hkc, BlockKind.isPool]) hb hk (heq ▸ hs)
    · have hc' := (hmem c).mpr (.inl hc)
      have hne : q ≠ s := fun heq => hpage c hc
        (congrArg Block.addr (hrs.page_unique hc' hkc hq hb hk (heq ▸ hs)).1)
      refine ⟨.inr ⟨c, hc', used', hkc, hq, fun hF => hnew ?_⟩, hne⟩
      by_cases hkb : k = bin
      · subst hkb
        rw [Function.update_self, List.mem_filter, hrs.pageBase_slot hc' hkc hq]
        exact ⟨List.mem_cons_of_mem _ hF, by simpa using hpage c hc⟩
      · rwa [Function.update_of_ne hkb]
  · rintro ⟨⟨c, hc, hkc, rfl, rfl⟩ | ⟨c, hc, used', hkc, hq, hold⟩, hne⟩
    · refine .inl ⟨c, ((hmem c).mp hc).resolve_right fun heq => ?_, hkc, rfl, rfl⟩
      rw [heq, hk] at hkc
      exact absurd hkc (by simp)
    · rcases (hmem c).mp hc with hc | rfl
      · refine .inr ⟨c, hc, used', hkc, hq, ?_⟩
        by_cases hkb : k = bin
        · subst hkb
          rw [Function.update_self, List.mem_filter, List.mem_cons]
          exact fun hmem => hmem.1.elim hne hold
        · rwa [Function.update_of_ne hkb]
      · obtain ⟨rfl, rfl⟩ := BlockKind.pool.inj (hk.symm.trans hkc)
        exact absurd (hlast q hq hold) hne

/-- The heap when the free list is rid of the slots of a page, and the registry of the page. -/
def ridHeap (h : Heap) (page : ℕ) (A : List FixedPool) (p : FixedPool) (B : List FixedPool)
    (r : Memory × ℕ) : Heap :=
  { h with
    mem := r.1
    pools := A ++ { p with freeList := r.2 } :: B
    poolPageRegistry := unregister page h.poolPageRegistry }

/-- A page that the free list is rid of leaves the heap. -/
def dropHeap (h : Heap) (page : ℕ) (A : List FixedPool) (p : FixedPool) (B : List FixedPool)
    (r : Memory × ℕ) : Heap :=
  let h := listUnlink (ridHeap h page A p B r) page
  { h with owned := h.owned.erase (page, pageSize) }

lemma ridHeap_mem (h : Heap) (page : ℕ) (r : Memory × ℕ) : (ridHeap h page A p B r).mem = r.1 := rfl

lemma dropHeap_mem (h : Heap) (page : ℕ) (r : Memory × ℕ) :
    (dropHeap h page A p B r).mem = (listUnlink (ridHeap h page A p B r) page).mem := by
  simp only [dropHeap]

lemma dropHeap_owned (h : Heap) (page : ℕ) (r : Memory × ℕ) :
    (dropHeap h page A p B r).owned = h.owned.erase (page, pageSize) := by
  simp only [dropHeap, (blocksOnly_listUnlink (ridHeap h page A p B r) page).owned]
  simp only [ridHeap]

lemma dropHeap_pools (h : Heap) (page : ℕ) (r : Memory × ℕ) :
    (dropHeap h page A p B r).pools = A ++ { p with freeList := r.2 } :: B := by
  simp only [dropHeap, (blocksOnly_listUnlink (ridHeap h page A p B r) page).pools]
  simp only [ridHeap]

lemma dropHeap_poolPageRegistry (h : Heap) (page : ℕ) (r : Memory × ℕ) :
    (dropHeap h page A p B r).poolPageRegistry = unregister page h.poolPageRegistry := by
  simp only [dropHeap, (blocksOnly_listUnlink (ridHeap h page A p B r) page).poolPageRegistry]
  simp only [ridHeap]

section FreeSlot

variable {s : ℕ} {m : Memory}

/-- The number of slots that a page counts is not zero while one of them is allocated. -/
lemma HeapInv.used_pos (hi : HeapInv h rs F) (hb : b ∈ heapBlocks rs)
    (hk : b.kind = .pool bin used) (hs : s ∈ slotsOf b.addr bin) (hnew : s ∉ F bin) : 0 < used := by
  rw [hi.used_eq hb hk]
  exact List.countP_pos_iff.mpr ⟨s, hs, by simpa using hnew⟩

lemma HeapInv.freeSlot_eq (hi : HeapInv h rs F) (hb : b ∈ heapBlocks rs)
    (hk : b.kind = .pool bin used) (hs : s ∈ slotsOf b.addr bin) (hnew : s ∉ F bin)
    (hpools : h.pools = A ++ p :: B)
    (hidx : h.pools.findIdx (fun q => q.blockSize == bin) = A.length)
    (hm : m = setUsedSlots (h.mem.store s 8 p.freeList) b.addr (used - 1)) :
    freeSlot h s = if used - 1 = 0 then
        (dropPage b.addr word m s 0 s).map (dropHeap h b.addr A p B)
      else some { h with mem := m, pools := A ++ { p with freeList := s } :: B } := by
  have hpage := hi.regions.pageBase_slot hb hk hs
  have hheader : readHeader (h.mem.store s 8 p.freeList) b.addr = readHeader h.mem b.addr :=
    hi.regions.readHeader_slotWords (l := [s]) (by simpa using ⟨b, hb, ⟨used, hk⟩, hs⟩)
      ((sameOutside_store _ _ _ _).mono fun x hx => ⟨s, by simp, hx⟩) hb
  obtain ⟨hused, hbinSize⟩ := hi.page_header hb hk
  have hpos := hi.used_pos hb hk hs hnew
  have hget : h.pools[A.length]? = some p := by rw [hpools]; simp
  have hset : ∀ x, h.pools.set A.length x = A ++ x :: B := fun x => by
    rw [hpools, List.set_append_right _ _ le_rfl, Nat.sub_self, List.set_cons_zero]
  have hcount : (readHeader m b.addr).usedSlots = used - 1 := by
    have hlt := (slotCount_pos (hi.regions.pool_region hb hk).1).2.2
    have := hi.pools.count b hb _ _ hk
    rw [hm, readHeader_setUsedSlots]
    exact Nat.mod_eq_of_lt (by omega)
  rw [freeSlot]
  simp only [hpage, hbinSize, hidx, hget, hset, hheader, hused, hpos, if_true,
    Option.bind_eq_bind, Option.bind_some]
  rw [← hm, hcount]
  split_ifs
  · cases dropPage b.addr word m s 0 s <;> rfl
  · rfl

/-- **A slot is given back**, and others of its page are still allocated. -/
lemma HeapInv.frees_slot (hi : HeapInv h rs F) (hb : b ∈ heapBlocks rs)
    (hk : b.kind = .pool bin used) (hs : s ∈ slotsOf b.addr bin) (hnew : s ∉ F bin)
    (hpools : h.pools = A ++ p :: B) (hpb : p.blockSize = bin)
    (hm : m = setUsedSlots (h.mem.store s 8 p.freeList) b.addr (used - 1)) :
    Frees h rs F s { h with mem := m, pools := A ++ { p with freeList := s } :: B } := by
  have hpm : p ∈ h.pools := by simp [hpools]
  have hbin := (hi.regions.pool_region hb hk).1
  have hpos := hi.used_pos hb hk hs hnew
  have hpage := hi.regions.pageBase_slot hb hk hs
  obtain ⟨X, Y, rfl⟩ := hi.page_around hb hk
  have hL := heapBlocks_around (X := X) (Y := Y) b.addr (b.addr + pageSize) [] [b] []
  obtain ⟨hrep, hthread, hsame, hlink⟩ := hi.putSlot hL hk hs hnew hpm hpb hm
  have hrs := hi.regions.setUsed (v := used - 1) hk
  have hcount := hi.pools.count b hb _ _ hk
  refine ⟨around X b.addr (b.addr + pageSize) [] [{ b with kind := .pool bin (used - 1) }] [] Y,
    Function.update F bin (s :: F bin), ⟨hrs, ?_, ?_, ?_⟩, fun q k => ?_, ?_⟩
  · rw [ranges_around _ _ _ [b]]
    exact hi.owned
  · rw [heapBlocks_around]
    exact ⟨hrep.linked, hrep.head, hrep.tail, hrep.lastFit⟩
  · have hp := hi.pools
    have hspread := hi.regions.spread
    rw [hL] at hp hspread
    rw [heapBlocks_around]
    refine hp.recount hspread hk hpools hpb rfl rfl hthread
      (List.nodup_cons.mpr ⟨hnew, hi.pools.nodup bin hbin⟩) (fun bin' hbin' _ => hlink bin' hbin')
      (fun t ht => ?_) ?_ fun a ha => ?_
    · rcases List.mem_cons.mp ht with rfl | ht
      · exact .inr hs
      · exact .inl ht
    · rw [List.countP_cons_of_pos (by simp [hpage])]
      omega
    · rw [List.countP_cons_of_neg (by simpa [hpage] using ha.symm)]
  · rw [heapBlocks_around, live_setUsed hk, ← heapBlocks_around]
    exact hi.regions.live_push hb hk hs
  · have := hi.undisturbed_slots hbin (by simpa using ⟨b, hb, ⟨used, hk⟩, hs⟩) hsame
    simpa using this

/-- The slots of a size do not overlap. -/
lemma RegionsOk.slots_pairwise (hrs : RegionsOk rs) (hbin : bin ∈ poolSizes) (hnd : l.Nodup)
    (hl : ∀ t ∈ l, ∃ b ∈ heapBlocks rs, ∃ used, b.kind = .pool bin used ∧ t ∈ slotsOf b.addr bin) :
    l.Pairwise fun s t => s + 8 ≤ t ∨ t + 8 ≤ s := by
  refine hnd.pairwise_of_forall_ne fun s hs t ht hne => ?_
  obtain ⟨b, hb, used, hk, hsb⟩ := hl s hs
  obtain ⟨c, hc, used', hkc, htc⟩ := hl t ht
  have hlive : Live (heapBlocks rs) (fun _ => []) t bin :=
    .inr ⟨c, hc, used', hkc, htc, List.not_mem_nil⟩
  have h8 := (slotCount_pos hbin).1
  rcases hrs.slot_apart_live hb hk hsb hlive hne with hle | hle <;> omega

/-- The registry without the page. -/
lemma PoolRep.registry_erase {P S : List Block} (hp : PoolRep h (P ++ [b] ++ S) F)
    (hk : b.kind = .pool bin used) : (unregister b.addr h.poolPageRegistry).Perm
      (((P ++ S).filter fun b => b.kind.isPool).map Block.addr) := by
  have hperm : (((P ++ [b] ++ S).filter fun b => b.kind.isPool).map Block.addr).Perm
      (b.addr :: ((P ++ S).filter fun b => b.kind.isPool).map Block.addr) := by
    simp only [List.filter_append, List.filter_cons, hk, BlockKind.isPool, if_true,
      List.map_append, List.map_cons, List.append_assoc, List.singleton_append]
    exact List.perm_middle
  refine (unregister_perm _ _).trans (((hp.registry.trans hperm).erase b.addr).trans ?_)
  rw [List.erase_cons_head]

/-- The last slot of a page that is not free. -/
lemma HeapInv.last_slot (hi : HeapInv h rs F) (hb : b ∈ heapBlocks rs) (hk : b.kind = .pool bin 1)
    (hs : s ∈ slotsOf b.addr bin) (hnew : s ∉ F bin) :
    ∀ t ∈ slotsOf b.addr bin, t ∉ F bin → t = s := by
  have hone := (hi.used_eq hb hk).symm
  rw [List.countP_eq_length_filter] at hone
  obtain ⟨x, hx⟩ := List.length_eq_one_iff.mp hone
  have hmem : ∀ t ∈ slotsOf b.addr bin, t ∉ F bin → t = x := fun t ht htF => by
    have : t ∈ (slotsOf b.addr bin).filter fun s => s ∉ F bin := by simp [ht, htF]
    rwa [hx, List.mem_singleton] at this
  exact fun t ht htF => (hmem t ht htF).trans (hmem s hs hnew).symm

/-- The slots on a free list are fewer than the addresses. -/
lemma RegionsOk.slots_length_lt (hrs : RegionsOk rs) (hnd : l.Nodup)
    (hl : ∀ t ∈ l, ∃ b ∈ heapBlocks rs, ∃ used, b.kind = .pool bin used ∧ t ∈ slotsOf b.addr bin) :
    l.length < word := by
  refine length_lt_word hnd fun t ht => ?_
  obtain ⟨c, hc, used, hkc, htc⟩ := hl t ht
  have hsmall := hrs.spread.small c hc
  have hpos := hrs.spread.pos hc
  rw [(hrs.pool_page hc hkc).2] at hsmall
  have hbounds := slot_bounds htc
  have hbin := slotCount_pos (hrs.pool_region hc hkc).1
  omega

/-- **A page leaves the pools**, and its slots leave the free list. -/
lemma PoolRep.drop {P S : List Block} {x : ℕ} (hp : PoolRep h (P ++ [b] ++ S) F)
    (hs : Spread (P ++ [b] ++ S)) (hk : b.kind = .pool bin used) (hpools : h.pools = A ++ p :: B)
    (hpb : p.blockSize = bin)
    (hpage : ∀ c ∈ P ++ [b] ++ S, ∀ used, c.kind = .pool bin used → ∀ t ∈ slotsOf c.addr bin,
      pageBase t = c.addr)
    (hpools' : h'.pools = A ++ { p with freeList := x } :: B)
    (hreg : h'.poolPageRegistry = unregister b.addr h.poolPageRegistry)
    (hthread : Threaded (slotLink h'.mem) x ((F bin).filter fun t => pageBase t ≠ b.addr))
    (hlink : ∀ bin' ∈ poolSizes, bin' ≠ bin → ∀ s ∈ F bin', slotLink h'.mem s = slotLink h.mem s) :
    PoolRep h' (P ++ S) (Function.update F bin ((F bin).filter fun t => pageBase t ≠ b.addr)) := by
  have hbin : bin ∈ poolSizes := by
    rw [← hpb, ← hp.sizes]
    exact List.mem_map_of_mem (by simp [hpools])
  have hapart : ∀ c ∈ P ++ S, c.addr ≠ b.addr := fun c hc =>
    hs.addr_ne (List.mem_singleton_self b) hc
  have hmem : ∀ c : Block, c.addr ≠ b.addr → (c ∈ P ++ S ↔ c ∈ P ++ [b] ++ S) := fun c hca => by
    have hcb : c ≠ b := fun heq => hca (heq ▸ rfl)
    simp [hcb]
  refine hp.change hs (b := b) (by simp) hk hpools hpb hpools' hthread
    ((hp.nodup bin hbin).filter _) hlink (fun c _ hca => hmem c hca) (fun t ht => ?_)
    (fun c hc _ hca => absurd hca (hapart c hc)) (fun a ha => ?_) ?_
  · obtain ⟨htF, htb⟩ := List.mem_filter.mp ht
    obtain ⟨c, hc, used', hkc, htc⟩ := hp.slot bin hbin t htF
    have hca : c.addr ≠ b.addr := by
      rw [← hpage c hc used' hkc t htc]
      simpa using htb
    exact ⟨c, (hmem c hca).mpr hc, used', hkc, htc⟩
  · rw [List.countP_filter]
    refine List.countP_congr fun t _ => ?_
    by_cases hta : pageBase t = a <;> simp [hta, ha]
  · rw [hreg]
    exact hp.registry_erase hk

lemma BlockRep.withOwned (hr : BlockRep h L) (o : List (ℕ × ℕ)) :
    BlockRep { h with owned := o } L := ⟨hr.linked, hr.head, hr.tail, hr.lastFit⟩

/-- The block list without a page that leaves. -/
lemma BlockRep.leave {P S : List Block} {m' : Memory} {x : ℕ}
    (hr : BlockRep { h with mem := m } (P ++ [b] ++ S)) (hs : Spread (P ++ [b] ++ S))
    (heq : ∀ c ∈ P ++ [b] ++ S, readHeader m' c.addr = readHeader m c.addr) :
    BlockRep (dropHeap h b.addr A p B (m', x)) (P ++ S) ∧
      SameOutside (headersOf (P ++ S)) m' (dropHeap h b.addr A p B (m', x)).mem := by
  have hr' : BlockRep (ridHeap h b.addr A p B (m', x)) (P ++ [b] ++ S) := hr.congr rfl rfl rfl heq
  have hunlink := hr'.unlink hs
  have hsame := sameOutside_listUnlink hr' hs
  rw [ridHeap_mem] at hsame
  rw [dropHeap_mem]
  refine ⟨?_, hsame⟩
  rw [dropHeap]
  exact hunlink.withOwned _

/-- The range of a page leaves the ranges of the heap. -/
lemma RegionsOk.erase_owned {X Y : List Region} {page : ℕ}
    (hrs : RegionsOk (around X page (page + pageSize) [] [b] [] Y)) :
    ((around X page (page + pageSize) [] [b] [] Y).map fun r => (r.base, r.stop - r.base)).erase
      (page, pageSize) = (X ++ Y).map fun r => (r.base, r.stop - r.base) := by
  have hnot : (page, pageSize) ∉ X.map fun r => (r.base, r.stop - r.base) := by
    intro hmem
    obtain ⟨r, hr, heq⟩ := List.mem_map.mp hmem
    have hbase : r.base = page := congrArg Prod.fst heq
    have hlt := (hrs.ok r (by simp [around, hr])).lt
    have hapart := (List.pairwise_append.mp hrs.apart).2.2 r hr _ List.mem_cons_self
    have hpos : 0 < pageSize := by decide
    simp only [Region.Apart] at hapart
    omega
  rw [around, List.map_append, List.map_cons, List.erase_append_right _ hnot, List.map_append,
    Nat.add_sub_cancel_left, List.erase_cons_head]

/-- The free slots of a pool and one more are slots of its pages. -/
lemma HeapInv.slots_with (hi : HeapInv h rs F) (hb : b ∈ heapBlocks rs)
    (hk : b.kind = .pool bin used) (hs : s ∈ slotsOf b.addr bin) :
    ∀ t ∈ s :: F bin,
      ∃ b ∈ heapBlocks rs, ∃ used, b.kind = .pool bin used ∧ t ∈ slotsOf b.addr bin := by
  intro t ht
  rcases List.mem_cons.mp ht with rfl | ht
  · exact ⟨b, hb, used, hk, hs⟩
  · exact hi.pools.slot bin (hi.regions.pool_region hb hk).1 t ht

/-- Writing spare bytes and the links of these slots leaves the other allocations alone. -/
lemma HeapInv.undisturbed_with (hi : HeapInv h rs F) (hb : b ∈ heapBlocks rs)
    (hk : b.kind = .pool bin used) (hs : s ∈ slotsOf b.addr bin) {m' : Memory}
    (hsame : SameOutside (spareBytes (heapBlocks rs) ∪ slotWords (s :: F bin)) h.mem m') :
    Undisturbed (fun q k => Live (heapBlocks rs) F q k ∧ q ≠ s) h.mem m' := by
  have hslots := hi.slots_with hb hk hs
  have hall := hi.undisturbed_slots (hi.regions.pool_region hb hk).1 hslots hsame
  rintro q k ⟨hq, hqs⟩
  refine hall q k ⟨hq, fun hmem => ?_⟩
  rcases List.mem_cons.mp hmem with rfl | hF
  · exact hqs rfl
  · -- a free slot is no allocation
    obtain ⟨c, hc, used', hkc, htc⟩ := hslots q hmem
    exact hi.regions.free_slot_not_live hc hkc htc hF k hq

/-- **The last slot of a page is given back**, and the page leaves the heap. -/
lemma HeapInv.frees_page (hi : HeapInv h rs F) (hb : b ∈ heapBlocks rs)
    (hk : b.kind = .pool bin 1) (hs : s ∈ slotsOf b.addr bin) (hnew : s ∉ F bin)
    (hpools : h.pools = A ++ p :: B) (hpb : p.blockSize = bin)
    (hm : m = setUsedSlots (h.mem.store s 8 p.freeList) b.addr (1 - 1)) :
    ∃ r, dropPage b.addr word m s 0 s = some r ∧ Frees h rs F s (dropHeap h b.addr A p B r) := by
  have hpm : p ∈ h.pools := by simp [hpools]
  have hbin := (hi.regions.pool_region hb hk).1
  have hpage := hi.regions.pageBase_slot hb hk hs
  have hnd := List.nodup_cons.mpr ⟨hnew, hi.pools.nodup bin hbin⟩
  have hlast := hi.last_slot hb hk hs hnew
  have hslots := hi.slots_with hb hk hs
  have hfilter : ((s :: F bin).filter fun t => pageBase t ≠ b.addr) =
      (F bin).filter fun t => pageBase t ≠ b.addr := List.filter_cons_of_neg (by simpa using hpage)
  obtain ⟨X, Y, rfl⟩ := hi.page_around hb hk
  have hL := heapBlocks_around (X := X) (Y := Y) b.addr (b.addr + pageSize) [] [b] []
  obtain ⟨hrep, hthread, hsame, hlink⟩ := hi.putSlot hL hk hs hnew hpm hpb hm
  obtain ⟨m', f, hdrop, hthread', hsame'⟩ := @dropPage_spec b.addr (s :: F bin) [] m s s word
    (hi.regions.slots_length_lt hnd hslots) hthread hthread
    (hi.regions.slots_pairwise hbin hnd hslots)
  refine ⟨(m', f), hdrop, ?_⟩
  -- the block list, with the page counting no slots and then without it
  have hspread := hi.regions.spread
  rw [hL] at hspread
  have hheaders : ∀ c ∈ heapBlocks X ++ [] ++ [{ b with kind := .pool bin (1 - 1) }] ++
      ([] ++ heapBlocks Y), readHeader m' c.addr = readHeader m c.addr := by
    intro c hc
    obtain ⟨d, hd, hdc⟩ : ∃ d ∈ heapBlocks (around X b.addr (b.addr + pageSize) [] [b] [] Y),
        d.addr = c.addr := by
      rw [hL]
      simp only [List.mem_append, List.mem_singleton] at hc ⊢
      rcases hc with (hc | rfl) | hc
      · exact ⟨c, .inl (.inl hc), rfl⟩
      · exact ⟨b, .inl (.inr rfl), rfl⟩
      · exact ⟨c, .inr hc, rfl⟩
    rw [← hdc]
    exact hi.regions.readHeader_slotWords hslots hsame' hd
  obtain ⟨hrep₂, hsame₂⟩ := @BlockRep.leave h _ p A B m _ _ m' f hrep
    (hspread.of_map (by simp [Block.extent])) hheaders
  have hspare : SameOutside (spareBytes (heapBlocks
      (around X b.addr (b.addr + pageSize) [] [b] [] Y))) m'
        (dropHeap h b.addr A p B (m', f)).mem := by
    apply hsame₂.mono
    rintro x ⟨d, hd, hx⟩
    refine ⟨d, ?_, .inl hx⟩
    rw [hL]
    simp only [List.mem_append] at hd ⊢
    tauto
  have hXY : heapBlocks (X ++ Y) = heapBlocks X ++ [] ++ ([] ++ heapBlocks Y) := by
    rw [heapBlocks_append]
    simp
  refine ⟨X ++ Y, Function.update F bin ((F bin).filter fun t => pageBase t ≠ b.addr),
    ⟨hi.regions.erase, ?_, ?_, ?_⟩, fun q k => ?_, ?_⟩
  · rw [dropHeap_owned, hi.owned]
    exact hi.regions.erase_owned
  · rw [hXY]
    exact hrep₂
  · have hp := hi.pools
    rw [hL] at hp
    rw [hXY]
    refine hp.drop hspread hk hpools hpb (fun c hc used' hkc t ht => ?_) (dropHeap_pools ..)
      (dropHeap_poolPageRegistry ..) ?_ fun bin' hbin' hne t ht => ?_
    · exact hi.regions.pageBase_slot (hL ▸ hc) hkc ht
    · rw [← hfilter]
      refine hthread'.congr fun t ht => ?_
      obtain ⟨c, hc, used', hkc, htc⟩ := hslots t (List.mem_filter.mp ht).1
      exact hi.regions.slotLink_eq hc hkc htc hspare
    · obtain ⟨c, hc, used', hkc, htc⟩ := hi.pools.slot bin' hbin' t ht
      rw [hi.regions.slotLink_eq hc hkc htc hspare, ← hlink bin' hbin' t ht]
      refine hi.regions.slotLink_slotWords hbin hslots hsame' hc hkc htc fun hmem => ?_
      obtain ⟨d, hd, used'', hkd, htd⟩ := hslots t hmem
      exact hne (hi.regions.page_unique hc hkc htc hd hkd htd).2
  · rw [hXY, ← hfilter]
    exact hi.regions.live_drop hL hk hs hlast
  · refine hi.undisturbed_with hb hk hs (((hsame.trans hsame').trans hspare).mono ?_)
    rintro x (((hx | ⟨t, ht, hx⟩) | hx) | hx)
    · exact .inl hx
    · exact .inr ⟨t, by simp [List.mem_singleton.mp ht], hx⟩
    · exact .inr hx
    · exact .inl hx

/-- **`_free` for a slot.** -/
lemma HeapInv.free_slot (hi : HeapInv h rs F) (hb : b ∈ heapBlocks rs)
    (hk : b.kind = .pool bin used)
    (hs : s ∈ slotsOf b.addr bin) (hnew : s ∉ F bin) :
    ∃ h', freeSlot h s = some h' ∧ Frees h rs F s h' := by
  obtain ⟨A, p, B, hpools, hpb, hidx⟩ := hi.pools.exists_pool (hi.regions.pool_region hb hk).1
  have hpos := hi.used_pos hb hk hs hnew
  rw [hi.freeSlot_eq hb hk hs hnew hpools hidx rfl]
  split_ifs with hlast
  · obtain rfl : used = 1 := by omega
    obtain ⟨r, hdrop, hfrees⟩ := hi.frees_page hb hk hs hnew hpools hpb rfl
    exact ⟨_, by rw [hdrop]; rfl, hfrees⟩
  · exact ⟨_, rfl, hi.frees_slot hb hk hs hnew hpools hpb rfl⟩

end FreeSlot

end

end Cuore
