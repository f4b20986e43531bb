import Cuore.Mem.Heap.Blocks

/-!
# Changes of the block list

`malloc`, `_free` and `realloc` change the block list in few ways: a header is rewritten in place,
a block is cut in two, a block absorbs the one behind it, or both at once, a block is appended, or
taken out.  Each way has one lemma, that says which list the heap has afterwards and that only
spare bytes were written.

Where a block gets another block, or none, behind it, the source makes that block point back, or
moves `tail`.  `linkBack` is this step.
-/

namespace Cuore

open Memory

variable {h : Heap} {m m' : Memory} {L P S M M' : List Block} {b c : Block} {p q : ℕ}

/-! ## A part of the list is rewritten -/

/-- A part of the list is exchanged for blocks from the same address on, and the block behind it
points back to the last of them. -/
lemma BlockList.splice (hl : BlockList m p (P ++ M ++ S) q)
    (hfirst : firstAddr Block.addr (M' ++ S) q = firstAddr Block.addr (M ++ S) q)
    (hmid : BlockList m' (lastAddr Block.addr p P) M' (firstAddr Block.addr S q))
    (hbefore : ∀ b ∈ P, readHeader m' b.addr = readHeader m b.addr)
    (hbehind : BlockList m' (lastAddr Block.addr (lastAddr Block.addr p P) M') S q) :
    BlockList m' p (P ++ M' ++ S) q := by
  rw [BlockList, List.append_assoc, linked_append] at hl ⊢
  rw [hfirst]
  refine ⟨hl.1.mono fun b hb _ _ hat => hat.congr (hbefore b hb), ?_⟩
  exact linked_append.mpr ⟨hmid, hbehind⟩

/-- Writing elsewhere leaves a list alone. -/
lemma BlockList.congr (hl : BlockList m p L q)
    (heq : ∀ b ∈ L, readHeader m' b.addr = readHeader m b.addr) : BlockList m' p L q :=
  hl.mono fun b hb _ _ hat => hat.congr (heq b hb)

/-- The first block of a list points back to another one. -/
lemma BlockList.pointBack (hl : BlockList m p (c :: S) q) {z : ℕ}
    (hc : readHeader m' c.addr = { readHeader m c.addr with prev := z })
    (heq : ∀ b ∈ S, readHeader m' b.addr = readHeader m b.addr) : BlockList m' z (c :: S) q :=
  hl.relinkFirst (fun r hr => by rw [BlockAt, hc, show readHeader m c.addr = _ from hr]; rfl)
    fun b hb _ _ hat => hat.congr (heq b hb)

/-- The header of a block stands between those of its neighbours. -/
lemma BlockRep.at (hr : BlockRep h L) (hL : L = P ++ b :: S) : readHeader h.mem b.addr =
    b.header (lastAddr Block.addr 0 P) (firstAddr Block.addr S 0) :=
  (hL ▸ hr.linked : BlockList h.mem 0 (P ++ b :: S) 0).between

lemma BlockRep.at_mem (hr : BlockRep h L) (hb : b ∈ L) : ∃ p q, BlockAt h.mem p b q := by
  obtain ⟨P, S, rfl⟩ := List.append_of_mem hb
  exact ⟨_, _, hr.at rfl⟩

/-- Writing elsewhere leaves the list alone. -/
lemma BlockRep.congr {h' : Heap} (hr : BlockRep h L) (hhead : h'.head = h.head)
    (htail : h'.tail = h.tail) (hfit : h'.lastFit = h.lastFit)
    (heq : ∀ b ∈ L, readHeader h'.mem b.addr = readHeader h.mem b.addr) : BlockRep h' L :=
  ⟨BlockList.congr hr.linked heq, by rw [hhead, hr.head], by rw [htail, hr.tail],
    by rw [hfit]; exact hr.lastFit⟩

lemma BlockRep.withLastFit (hr : BlockRep h L) {f : ℕ} (hf : f = 0 ∨ ∃ b ∈ L, b.addr = f) :
    BlockRep { h with lastFit := f } L := ⟨hr.linked, hr.head, hr.tail, hf⟩

/-- A part of the list of the heap is exchanged for blocks from the same address on. -/
lemma BlockRep.splice {h' : Heap} (hr : BlockRep h (P ++ M ++ S)) (hhead : h'.head = h.head)
    (hfirst : firstAddr Block.addr (M' ++ S) 0 = firstAddr Block.addr (M ++ S) 0)
    (hbefore : ∀ b ∈ P, readHeader h'.mem b.addr = readHeader h.mem b.addr)
    (hmid : BlockList h'.mem (lastAddr Block.addr 0 P) M' (firstAddr Block.addr S 0))
    (hbehind : BlockList h'.mem (lastAddr Block.addr (lastAddr Block.addr 0 P) M') S 0)
    (htail : h'.tail = lastAddr Block.addr (lastAddr Block.addr (lastAddr Block.addr 0 P) M') S)
    (hfit : h'.lastFit = 0 ∨ ∃ b ∈ P ++ M' ++ S, b.addr = h'.lastFit) :
    BlockRep h' (P ++ M' ++ S) where
  linked := hr.linked.splice hfirst hmid hbefore hbehind
  head := by
    rw [hhead, hr.head, List.append_assoc, List.append_assoc, firstAddr_append,
      @firstAddr_append _ _ _ P, hfirst]
  tail := by rw [htail, lastAddr_append, lastAddr_append]
  lastFit := hfit

/-! ## Pointing back -/

/-- What is behind `b` points back to it: the header `next`, or `tail` if there is none. -/
def linkBack (h : Heap) (m : Memory) (next b : ℕ) : Heap :=
  if next ≠ 0 then { h with mem := setPrev m next b } else { h with mem := m, tail := b }

lemma linkBack_pos (h : Heap) (m : Memory) {n : ℕ} (z : ℕ) (hn : 0 < n) :
    linkBack h m n z = { h with mem := setPrev m n z } := if_pos hn.ne'

section LinkBack

variable (h m) (n z : ℕ)

@[simp] lemma linkBack_head : (linkBack h m n z).head = h.head := by
  unfold linkBack
  split <;> rfl

@[simp] lemma linkBack_lastFit : (linkBack h m n z).lastFit = h.lastFit := by
  unfold linkBack
  split <;> rfl

@[simp] lemma linkBack_pools : (linkBack h m n z).pools = h.pools := by
  unfold linkBack
  split <;> rfl

@[simp] lemma linkBack_poolPageRegistry :
    (linkBack h m n z).poolPageRegistry = h.poolPageRegistry := by
  unfold linkBack
  split <;> rfl

@[simp] lemma linkBack_owned : (linkBack h m n z).owned = h.owned := by
  unfold linkBack
  split <;> rfl

end LinkBack

section LinkBackList

variable {n z : ℕ} (hn : n = firstAddr Block.addr S 0) (hs : Spread S)
include hn hs

lemma linkBack_tail (ht : h.tail = lastAddr Block.addr p S) :
    (linkBack h m n z).tail = lastAddr Block.addr z S := by
  cases S with
  | nil =>
    obtain rfl : n = 0 := hn
    rfl
  | cons c S =>
    obtain rfl : n = c.addr := hn
    rw [linkBack_pos _ _ _ (hs.pos (show c ∈ c :: S by simp))]
    exact ht

lemma linkBack_list (hz : z < word) (hl : BlockList m p S 0) :
    BlockList (linkBack h m n z).mem z S 0 := by
  cases S with
  | nil => trivial
  | cons c S =>
    obtain rfl : n = c.addr := hn
    rw [linkBack_pos _ _ _ (hs.pos (show c ∈ c :: S by simp))]
    refine hl.pointBack ?_ fun b hb => ?_
    · rw [readHeader_setPrev, Nat.mod_eq_of_lt hz]
    · exact readHeader_setPrev_apart _ (List.rel_of_pairwise_cons hs.apart hb).header.symm

lemma linkBack_apart (hc : ∀ b ∈ S, HeaderApart q b.addr) :
    readHeader (linkBack h m n z).mem q = readHeader m q := by
  cases S with
  | nil =>
    obtain rfl : n = 0 := hn
    rfl
  | cons c S =>
    obtain rfl : n = c.addr := hn
    rw [linkBack_pos _ _ _ (hs.pos (show c ∈ c :: S by simp))]
    exact readHeader_setPrev_apart _ (hc c (by simp))

lemma sameOutside_linkBack : SameOutside (headersOf S) m (linkBack h m n z).mem := by
  cases S with
  | nil =>
    obtain rfl : n = 0 := hn
    exact .refl _ _
  | cons c S =>
    obtain rfl : n = c.addr := hn
    rw [linkBack_pos _ _ _ (hs.pos (show c ∈ c :: S by simp))]
    exact (sameOutside_setPrev m).mono fun x hx => ⟨c, by simp, hx⟩

end LinkBackList

/-! ## Absorbing the block behind -/

/-- The blocks of the heap have changed, and nothing else. -/
structure BlocksOnly (h h' : Heap) : Prop where
  pools : h'.pools = h.pools
  poolPageRegistry : h'.poolPageRegistry = h.poolPageRegistry
  owned : h'.owned = h.owned

lemma BlocksOnly.refl (h : Heap) : BlocksOnly h h := ⟨rfl, rfl, rfl⟩

lemma BlocksOnly.trans {h h' h'' : Heap} (h₁ : BlocksOnly h h') (h₂ : BlocksOnly h' h'') :
    BlocksOnly h h'' :=
  ⟨h₂.pools.trans h₁.pools, h₂.poolPageRegistry.trans h₁.poolPageRegistry,
    h₂.owned.trans h₁.owned⟩

lemma BlocksOnly.write {h h' : Heap} (h₁ : BlocksOnly h h') (m : Memory) (f : ℕ) :
    BlocksOnly h { h' with mem := m, lastFit := f } :=
  ⟨h₁.pools, h₁.poolPageRegistry, h₁.owned⟩

/-- The block at `b` absorbs the one at `c` behind it. -/
def absorbNext (h : Heap) (b c : ℕ) : Heap :=
  let m := setSize h.mem b (wadd (readHeader h.mem b).size (wadd bhSize (readHeader h.mem c).size))
  let m := setNext m b (readHeader m c).next
  let h := linkBack h m (readHeader m c).next b
  if h.lastFit = c then { h with lastFit := b } else h

/-- `b` with the block `c` behind it. -/
def Block.merge (b c : Block) : Block := { b with size := b.size + (bhSize + c.size) }

lemma coalesceForward_eq (h : Heap) (b : ℕ) : coalesceForward h b =
    if canExpand h.mem b then absorbNext h b (readHeader h.mem b).next else h :=
  if_congr (by simp [canExpand, and_assoc]) rfl rfl

lemma blocksOnly_absorbNext (h : Heap) (b c : ℕ) : BlocksOnly h (absorbNext h b c) := by
  unfold absorbNext
  dsimp only
  split <;> exact ⟨by simp, by simp, by simp⟩

/-- The header of a block that has absorbed the one behind it. -/
def mergeHeader (m : Memory) (b c : Block) (next : ℕ) : Memory :=
  setNext (setSize m b.addr (b.merge c).size) b.addr next

section Absorb

variable (hr : BlockRep h (P ++ [b, c] ++ S)) (hs : Spread (P ++ [b, c] ++ S))
  (hs' : Spread (P ++ [b.merge c] ++ S))

include hr in
lemma BlockRep.at_pair : readHeader h.mem b.addr = b.header (lastAddr Block.addr 0 P) c.addr ∧
    readHeader h.mem c.addr = c.header b.addr (firstAddr Block.addr S 0) := by
  have hc := @BlockRep.at _ _ (P ++ [b]) S c hr (by simp)
  rw [lastAddr_append_singleton] at hc
  exact ⟨@BlockRep.at _ _ P (c :: S) b hr (by simp), hc⟩

include hr hs hs' in
/-- `b` has its new header before what is behind `c` points back to it. -/
lemma absorbNext_eq : absorbNext h b.addr c.addr =
    let h' := linkBack h (mergeHeader h.mem b c (firstAddr Block.addr S 0))
      (firstAddr Block.addr S 0) b.addr
    if h.lastFit = c.addr then { h' with lastFit := b.addr } else h' := by
  obtain ⟨hb, hc⟩ := hr.at_pair
  have hcb : HeaderApart c.addr b.addr :=
    (@Spread.of_append (P ++ [b]) (c :: S) b c (by simpa using hs) (by simp) (by simp)).header.symm
  have hmerge := hs'.small (b.merge c) (by simp)
  simp only [Block.stop, Block.merge] at hmerge
  have hsize : wadd b.size (wadd bhSize c.size) = (b.merge c).size := by
    rw [wadd_of_lt (show bhSize + c.size < word by omega), wadd_of_lt (by omega)]
    rfl
  simp only [absorbNext, mergeHeader, hb, hc, Block.header, hsize, linkBack_lastFit,
    readHeader_setNext_apart _ hcb, readHeader_setSize_apart _ hcb]

include hr hs hs' in
/-- **A block absorbs the one behind it.** -/
lemma BlockRep.absorb : BlockRep (absorbNext h b.addr c.addr) (P ++ [b.merge c] ++ S) := by
  obtain ⟨hb, hc⟩ := hr.at_pair
  have hPS : ∀ d ∈ P ++ [b.merge c], ∀ e ∈ S, HeaderApart d.addr e.addr := fun d hd e he =>
    (hs'.of_append hd he).header
  have hPb : ∀ d ∈ P, HeaderApart d.addr b.addr := fun d hd =>
    (@Spread.of_append P ([b.merge c] ++ S) d (b.merge c) (by simpa using hs') hd (by simp)).header
  have hsS : Spread S := hs.sublist (List.sublist_append_right _ _)
  have hmerge := hs'.small (b.merge c) (by simp)
  simp only [Block.stop, Block.merge] at hmerge
  have hnext : firstAddr Block.addr S 0 < word := by
    have := readHeader_next_lt h.mem c.addr
    rwa [hc] at this
  have hmb : readHeader (mergeHeader h.mem b c (firstAddr Block.addr S 0)) b.addr =
      (b.merge c).header (lastAddr Block.addr 0 P) (firstAddr Block.addr S 0) := by
    simp only [mergeHeader, readHeader_setNext, readHeader_setSize, hb, Nat.mod_eq_of_lt hnext]
    rw [Nat.mod_eq_of_lt (by simp only [Block.merge]; omega)]
    rfl
  have hm : ∀ a n, HeaderApart a b.addr →
      readHeader (mergeHeader h.mem b c n) a = readHeader h.mem a := fun a n ha => by
    rw [mergeHeader, readHeader_setNext_apart _ ha, readHeader_setSize_apart _ ha]
  have hrep : ∀ f, (f = 0 ∨ ∃ d ∈ P ++ [b.merge c] ++ S, d.addr = f) →
      BlockRep { linkBack h (mergeHeader h.mem b c (firstAddr Block.addr S 0))
        (firstAddr Block.addr S 0) b.addr with lastFit := f } (P ++ [b.merge c] ++ S) := by
    refine fun f hf => hr.splice (linkBack_head ..) rfl (fun d hd => ?_) ⟨?_, trivial⟩ ?_ ?_ hf
    · exact (linkBack_apart rfl hsS (hPS d (by simp [hd]))).trans (hm _ _ (hPb d hd))
    · exact (linkBack_apart rfl hsS (hPS (b.merge c) (by simp))).trans hmb
    · have hS : BlockList h.mem c.addr S 0 := by
        have := (linked_append.mp hr.linked).2
        rwa [lastAddr_append] at this
      exact linkBack_list rfl hsS (by omega)
        (hS.congr fun d hd => hm _ _ (hPS (b.merge c) (by simp) d hd).symm)
    · refine linkBack_tail rfl hsS (?_ : h.tail = lastAddr Block.addr c.addr S)
      rw [hr.tail, lastAddr_append, lastAddr_append]
      rfl
  rw [absorbNext_eq hr hs hs']
  dsimp only
  split_ifs with hfit
  · exact hrep _ (.inr ⟨b.merge c, by simp, rfl⟩)
  · have hkeep : h.lastFit = 0 ∨ ∃ d ∈ P ++ [b.merge c] ++ S, d.addr = h.lastFit := by
      refine hr.lastFit.imp_right fun hlast => ?_
      obtain ⟨d, hd, hdf⟩ := hlast
      simp only [List.mem_append, List.mem_cons, List.not_mem_nil, or_false] at hd
      rcases hd with (hd | rfl | rfl) | hd
      · exact ⟨d, by simp [hd], hdf⟩
      · exact ⟨d.merge c, by simp, hdf⟩
      · exact absurd hdf.symm hfit
      · exact ⟨d, by simp [hd], hdf⟩
    rw [← linkBack_lastFit h (mergeHeader h.mem b c (firstAddr Block.addr S 0))
      (firstAddr Block.addr S 0) b.addr] at hkeep
    exact hrep _ hkeep

include hr hs hs' in
lemma sameOutside_absorbNext :
    SameOutside (headersOf (P ++ [b, c] ++ S)) h.mem (absorbNext h b.addr c.addr).mem := by
  have hsS : Spread S := hs.sublist (List.sublist_append_right _ _)
  have hwrite : SameOutside (headerRange b.addr ∪ headerRange b.addr) h.mem
      (mergeHeader h.mem b c (firstAddr Block.addr S 0)) :=
    (sameOutside_setSize _).trans (sameOutside_setNext _)
  have hmem : (absorbNext h b.addr c.addr).mem =
      (linkBack h (mergeHeader h.mem b c (firstAddr Block.addr S 0))
        (firstAddr Block.addr S 0) b.addr).mem := by
    rw [absorbNext_eq hr hs hs']
    dsimp only
    split <;> rfl
  rw [hmem]
  refine (hwrite.trans (sameOutside_linkBack rfl hsS)).mono ?_
  rintro x ((hx | hx) | ⟨d, hd, hx⟩)
  · exact ⟨b, by simp, hx⟩
  · exact ⟨b, by simp, hx⟩
  · exact ⟨d, by simp [hd], hx⟩

end Absorb

lemma coalesceBackward_eq (h : Heap) (b : ℕ) : coalesceBackward h b =
    if (readHeader h.mem b).prev ≠ 0 ∧ bhIsFree h.mem (readHeader h.mem b).prev ∧
      !bhIsPool h.mem (readHeader h.mem b).prev ∧ !bhIsBoundary h.mem b
    then absorbNext h (readHeader h.mem b).prev b else h := rfl

/-! ## Cutting a block in two -/

/-- A header that is written afresh, with its links. -/
def freshHeader (m : Memory) (a size flags next prev : ℕ) : Memory :=
  setPrev (setNext (setFlags (setSize (setMagic (clearHeader m a) a heapMagic) a size) a flags) a
    next) a prev

section FreshHeader

variable {a size flags next prev : ℕ}

@[simp] lemma readHeader_freshHeader : readHeader (freshHeader m a size flags next prev) a =
    ⟨heapMagic, flags % 2 ^ 32, size % word, 0, 0, next % word, prev % word⟩ := by
  simp [freshHeader, heapMagic]

@[simp] lemma readHeader_freshHeader_apart (hq : HeaderApart q a) :
    readHeader (freshHeader m a size flags next prev) q = readHeader m q := by
  simp [freshHeader, hq]

lemma sameOutside_freshHeader :
    SameOutside (headerRange a) m (freshHeader m a size flags next prev) :=
  ((((((sameOutside_clearHeader m).trans_self (sameOutside_setMagic _)).trans_self
    (sameOutside_setSize _)).trans_self (sameOutside_setFlags _)).trans_self
    (sameOutside_setNext _)).trans_self (sameOutside_setPrev _))

end FreshHeader

/-- **The header of a free block is written behind a block that shrinks or has grown.**  `m₀` is the
memory before, `m'` the one after the last write to the header of `b`. -/
lemma BlockRep.recut {C : List Block} {b' f : Block} {m₀ m₁ : Memory} {fit : ℕ}
    (hr : BlockRep h (P ++ b :: C ++ S)) (hs : Spread (P ++ [b', f] ++ S))
    (haddr : b'.addr = b.addr) (hstart : f.start = false) (hfree : f.kind = .free)
    (hm₀ : ∀ a, HeaderApart a b.addr → readHeader m₀ a = readHeader h.mem a)
    (hm₁ : m₁ = freshHeader m₀ f.addr f.size bhFree (firstAddr Block.addr S 0) b.addr)
    (hm' : ∀ a, HeaderApart a b.addr → readHeader m' a =
      readHeader (linkBack h m₁ (firstAddr Block.addr S 0) f.addr).mem a)
    (hb : readHeader m' b.addr = b'.header (lastAddr Block.addr 0 P) f.addr)
    (hfit : fit = 0 ∨ ∃ d ∈ P ++ [b', f] ++ S, d.addr = fit) :
    BlockRep { linkBack h m₁ (firstAddr Block.addr S 0) f.addr with mem := m', lastFit := fit }
      (P ++ [b', f] ++ S) := by
  have hsS : Spread S := hs.sublist (List.sublist_append_right _ _)
  have hPS : ∀ d ∈ P ++ [b', f], ∀ e ∈ S, HeaderApart d.addr e.addr := fun d hd e he =>
    (hs.of_append hd he).header
  have hPb : ∀ d ∈ P, HeaderApart d.addr b.addr ∧ HeaderApart d.addr f.addr := by
    intro d hd
    have : Spread (P ++ ([b', f] ++ S)) := by simpa using hs
    exact ⟨haddr ▸ (this.of_append (c := b') hd (by simp)).header,
      (this.of_append (c := f) hd (by simp)).header⟩
  have hfb : HeaderApart f.addr b.addr := by
    have : Spread ((P ++ [b']) ++ (f :: S)) := by simpa using hs
    exact haddr ▸ (this.of_append (b := b') (c := f) (by simp) (by simp)).header.symm
  -- away from `b` and what is behind, only the new header has changed
  have hback : ∀ q, HeaderApart q b.addr → (∀ e ∈ S, HeaderApart q e.addr) →
      readHeader m' q = readHeader m₁ q := fun q hq hqS => by
    rw [hm' q hq, linkBack_apart rfl hsS hqS]
  refine hr.splice (linkBack_head ..) haddr (fun d hd => ?_) ⟨?_, ?_, trivial⟩ ?_ ?_ hfit
  · rw [hback _ (hPb d hd).1 (hPS d (by simp [hd])), hm₁,
      readHeader_freshHeader_apart (hPb d hd).2, hm₀ _ (hPb d hd).1]
  · rw [BlockAt, haddr]
    exact hb
  · rw [BlockAt, hback _ hfb (hPS f (by simp)), hm₁, readHeader_freshHeader]
    have hsize := hs.small f (by simp)
    simp only [Block.stop] at hsize
    have hlast : b.addr < word := haddr ▸ hs.addr_lt (b := b') (by simp)
    rw [Nat.mod_eq_of_lt (show f.size < word by omega), Nat.mod_eq_of_lt hsS.firstAddr_lt,
      Nat.mod_eq_of_lt hlast]
    simp only [Block.header, Block.flags, Block.bin, Block.usedSlots, hstart, hfree, haddr]
    rfl
  · have hS : BlockList m₁ (lastAddr Block.addr 0 (P ++ b :: C)) S 0 := by
      refine BlockList.congr (linked_append.mp hr.linked).2 fun d hd => ?_
      have hdb := (hPS b' (by simp) d hd).symm
      rw [haddr] at hdb
      rw [hm₁, readHeader_freshHeader_apart (hPS f (by simp) d hd).symm, hm₀ _ hdb]
    have hlinked : BlockList (linkBack h m₁ (firstAddr Block.addr S 0) f.addr).mem f.addr S 0 :=
      linkBack_list rfl hsS (hs.addr_lt (by simp)) hS
    refine hlinked.congr fun d hd => hm' _ ?_
    exact haddr ▸ (hPS b' (by simp) d hd).symm
  · refine linkBack_tail rfl hsS (?_ : h.tail = lastAddr Block.addr (lastAddr Block.addr 0
      (P ++ b :: C)) S)
    rw [hr.tail, lastAddr_append]

/-- The block at `curr` is cut behind `size` bytes, the rest becomes a free block. -/
def cutBlock (h : Heap) (size curr : ℕ) : Heap :=
  let split := curr + bhSize + size
  let m := clearHeader h.mem split
  let m := setMagic m split heapMagic
  let m := setSize m split (wsub (wsub (readHeader m curr).size size) bhSize)
  let m := setFlags m split bhFree
  let m := setNext m split (readHeader m curr).next
  let m := setPrev m split curr
  let h := linkBack h m (readHeader m curr).next split
  let m := setNext h.mem curr split
  { h with mem := setSize m curr size }

lemma takeBlock_eq (h : Heap) (size curr : ℕ) : takeBlock h size curr =
    (curr + bhSize,
      let h' := if (readHeader h.mem curr).size ≥ wadd (wadd size bhSize) minSplitSize then
        cutBlock h size curr else h
      { h' with mem := bhClrFree h'.mem curr, lastFit := curr }) := rfl

lemma blocksOnly_cutBlock (h : Heap) (size curr : ℕ) : BlocksOnly h (cutBlock h size curr) :=
  ⟨by simp [cutBlock], by simp [cutBlock], by simp [cutBlock]⟩

/-- What is left of `b` when `size` bytes of it are cut off. -/
def Block.rest (b : Block) (size : ℕ) : Block :=
  ⟨b.addr + bhSize + size, b.size - size - bhSize, false, .free⟩

section Cut

variable {size : ℕ} (hr : BlockRep h (P ++ [b] ++ S)) (hs : Spread (P ++ [b] ++ S))
  (hle : size + bhSize ≤ b.size)

include hr hs hle in
lemma cutBlock_eq : cutBlock h size b.addr =
    let m := freshHeader h.mem (b.rest size).addr (b.rest size).size bhFree
      (firstAddr Block.addr S 0) b.addr
    let h' := linkBack h m (firstAddr Block.addr S 0) (b.rest size).addr
    { h' with mem := setSize (setNext h'.mem b.addr (b.rest size).addr) b.addr size } := by
  have hb := @BlockRep.at _ _ P S b hr (by simp)
  have hapart : HeaderApart b.addr (b.addr + bhSize + size) := .inl (by omega)
  have hstop := hs.small b (by simp)
  simp only [Block.stop] at hstop
  have hsize : wsub (wsub b.size size) bhSize = b.size - size - bhSize := by
    rw [wsub_of_le (show size ≤ b.size by omega) (by omega), wsub_of_le (by omega) (by omega)]
  simp only [cutBlock, freshHeader, Block.rest, hb, Block.header, hsize,
    readHeader_clearHeader_apart _ hapart, readHeader_setMagic_apart _ hapart,
    readHeader_setSize_apart _ hapart, readHeader_setFlags_apart _ hapart,
    readHeader_setNext_apart _ hapart, readHeader_setPrev_apart _ hapart]

variable (hs' : Spread (P ++ [{ b with size := size }, b.rest size] ++ S))

include hr hs hs' hle in
/-- **A block is cut in two.** -/
lemma BlockRep.cut :
    BlockRep (cutBlock h size b.addr) (P ++ [{ b with size := size }, b.rest size] ++ S) := by
  have hb := @BlockRep.at _ _ P S b hr (by simp)
  have hstop := hs.small b (by simp)
  simp only [Block.stop] at hstop
  have hsS : Spread S := hs.sublist (List.sublist_append_right _ _)
  have hbf : HeaderApart b.addr (b.rest size).addr := .inl (by simp only [Block.rest]; omega)
  have hbS : ∀ e ∈ S, HeaderApart b.addr e.addr := fun e he =>
    (hs.of_append (b := b) (by simp) he).header
  have hfit : h.lastFit = 0 ∨
      ∃ d ∈ P ++ [{ b with size := size }, b.rest size] ++ S, d.addr = h.lastFit := by
    refine hr.lastFit.imp_right fun hlast => ?_
    obtain ⟨d, hd, hdf⟩ := hlast
    simp only [List.mem_append, List.mem_singleton] at hd
    rcases hd with (hd | rfl) | hd
    · exact ⟨d, by simp [hd], hdf⟩
    · exact ⟨{ d with size := size }, by simp, hdf⟩
    · exact ⟨d, by simp [hd], hdf⟩
  rw [← linkBack_lastFit h (freshHeader h.mem (b.rest size).addr (b.rest size).size bhFree
    (firstAddr Block.addr S 0) b.addr) (firstAddr Block.addr S 0) (b.rest size).addr] at hfit
  rw [cutBlock_eq hr hs hle]
  refine @BlockRep.recut _ _ P S b [] { b with size := size } (b.rest size) h.mem _ _ hr hs' rfl rfl
    rfl (fun _ _ => rfl) rfl (fun a ha => ?_) ?_ hfit
  · rw [readHeader_setSize_apart _ ha, readHeader_setNext_apart _ ha]
  · rw [readHeader_setSize, readHeader_setNext, linkBack_apart rfl hsS hbS,
      readHeader_freshHeader_apart hbf, hb, Nat.mod_eq_of_lt (show size < word by omega),
      Nat.mod_eq_of_lt (hs'.addr_lt (by simp))]
    rfl

include hr hs hle in
lemma sameOutside_cutBlock (hfree : b.kind = .free) :
    SameOutside (spareBytes (P ++ [b] ++ S)) h.mem (cutBlock h size b.addr).mem := by
  rw [cutBlock_eq hr hs hle]
  have hsS : Spread S := hs.sublist (List.sublist_append_right _ _)
  refine ((((sameOutside_freshHeader).trans (sameOutside_linkBack rfl hsS)).trans
    (sameOutside_setNext _)).trans (sameOutside_setSize _)).mono ?_
  rintro x (((hx | ⟨d, hd, hx⟩) | hx) | hx)
  · simp only [headerRange, Block.rest, Set.mem_Ico] at hx
    exact ⟨b, by simp, .inr ⟨hfree, by omega, by simp only [Block.stop]; omega⟩⟩
  · exact ⟨d, by simp [hd], .inl hx⟩
  · exact ⟨b, by simp, .inl hx⟩
  · exact ⟨b, by simp, .inl hx⟩

end Cut

/-! ## Growing into the block behind -/

section Expand

variable {size : ℕ} (hr : BlockRep h (P ++ [b, c] ++ S)) (hs : Spread (P ++ [b, c] ++ S))
  (hmerge : Spread (P ++ [b.merge c] ++ S))

include hr hmerge in
lemma combinedSize_eq : combinedSize h.mem b.addr = (b.merge c).size := by
  obtain ⟨hb, hc⟩ := hr.at_pair
  have := hmerge.small (b.merge c) (by simp)
  simp only [Block.stop, Block.merge] at this
  simp only [combinedSize, hb, Block.header, hc, Block.merge]
  rw [wadd_of_lt (show b.size + bhSize < word by omega), wadd_of_lt (by omega)]
  omega

include hr hs hmerge in
/-- Without a rest, growing is absorbing. -/
lemma expandBlock_absorb
    (hsmall : ¬ (b.merge c).size ≥ wadd (wadd size bhSize) minSplitSize) :
    expandBlock h b.addr size (b.merge c).size = absorbNext h b.addr c.addr := by
  obtain ⟨hb, hc⟩ := hr.at_pair
  have hcb : HeaderApart c.addr b.addr :=
    (@Spread.of_append (P ++ [b]) (c :: S) b c (by simpa using hs) (by simp) (by simp)).header.symm
  have hnext := (hs.sublist (List.sublist_append_right (P ++ [b, c]) S)).firstAddr_lt
  have hbn : (readHeader h.mem b.addr).next = c.addr := by rw [hb]; rfl
  have hm : (readHeader (setSize h.mem b.addr (b.merge c).size) b.addr).next = c.addr := by
    rw [readHeader_setSize, hb]
    rfl
  have hmc : (readHeader (setSize h.mem b.addr (b.merge c).size) c.addr).next =
      firstAddr Block.addr S 0 := by
    rw [readHeader_setSize_apart _ hcb, hc]
    rfl
  have hmm : (readHeader (mergeHeader h.mem b c (firstAddr Block.addr S 0)) b.addr).next =
      firstAddr Block.addr S 0 := by
    rw [mergeHeader, readHeader_setNext, Nat.mod_eq_of_lt hnext]
  rw [expandBlock, if_neg hsmall, absorbNext_eq hr hs hmerge]
  by_cases hfit : h.lastFit = c.addr
  · simp only [hbn, hfit, if_true, hm, hmc]
    rw [← mergeHeader, hmm, linkBack]
    split_ifs <;> rfl
  · simp only [hbn, hfit, if_false, hm, hmc]
    rw [← mergeHeader, hmm, linkBack]

variable (hadj : c.addr = b.stop) (hle : b.size ≤ size)
  (hkept : b.size + bhSize ≤ size ∨ size = b.size + heapAlignment ∧ S = [])
  (hle' : size + bhSize ≤ (b.merge c).size)

/-- A header that is begun 16 bytes behind another one clears the `next` of that one. -/
lemma readHeader_begun_next (m : Memory) (a f v w u : ℕ) (hf : f = a + heapAlignment) :
    (readHeader (setFlags (setSize (setMagic (clearHeader m f) f v) f w) f u) a).next = 0 := by
  subst hf
  simp (disch := simp only [heapAlignment, bhSize]; omega) only [readHeader, setFlags, setSize,
    setMagic, clearHeader, load_store_of_disjoint, load_fill_zero]

include hr hmerge hadj hkept hle' in
/-- The `next` of the old header is read after the new one is begun.  That one does not touch it,
or clears it, and there was none. -/
lemma expandBlock_cut (hbig : (b.merge c).size ≥ wadd (wadd size bhSize) minSplitSize) :
    expandBlock h b.addr size (b.merge c).size =
      let f := (b.merge c).rest size
      let m := freshHeader (setSize h.mem b.addr size) f.addr f.size bhFree
        (firstAddr Block.addr S 0) b.addr
      let h' := linkBack h m (firstAddr Block.addr S 0) f.addr
      { h' with
        mem := setNext h'.mem b.addr f.addr
        lastFit := if h.lastFit = c.addr then f.addr else h.lastFit } := by
  obtain ⟨hb, hc⟩ := hr.at_pair
  have hbn : (readHeader h.mem b.addr).next = c.addr := by rw [hb]; rfl
  have hstop := hmerge.small (b.merge c) (by simp)
  simp only [Block.stop] at hadj hstop
  have hcb : HeaderApart c.addr b.addr := .inr (by omega)
  have hsize : wsub (wsub (b.merge c).size size) bhSize = (b.merge c).size - size - bhSize := by
    rw [wsub_of_le (show size ≤ (b.merge c).size by omega) (by omega),
      wsub_of_le (by omega) (by omega)]
  have hcn : (readHeader (setFlags (setSize (setMagic (clearHeader (setSize h.mem b.addr size)
      (b.addr + bhSize + size)) (b.addr + bhSize + size) heapMagic) (b.addr + bhSize + size)
      ((b.merge c).size - size - bhSize)) (b.addr + bhSize + size) bhFree) c.addr).next =
      firstAddr Block.addr S 0 := by
    rcases hkept with hle | ⟨hshort, rfl⟩
    · have hcf : HeaderApart c.addr (b.addr + bhSize + size) := .inl (by omega)
      rw [readHeader_setFlags_apart _ hcf, readHeader_setSize_apart _ hcf,
        readHeader_setMagic_apart _ hcf, readHeader_clearHeader_apart _ hcf,
        readHeader_setSize_apart _ hcb, hc]
      rfl
    · exact readHeader_begun_next _ _ _ _ _ _ (by omega)
  have hfn := congrArg BlockHeader.next (@readHeader_freshHeader (setSize h.mem b.addr size)
    (b.addr + bhSize + size) ((b.merge c).size - size - bhSize) bhFree
    (firstAddr Block.addr S 0) b.addr)
  rw [freshHeader] at hfn
  dsimp only at hfn
  rw [Nat.mod_eq_of_lt (hmerge.sublist (List.sublist_append_right _ _)).firstAddr_lt] at hfn
  rw [expandBlock, if_pos hbig]
  simp only [hbn, hsize, hcn]
  simp only [hfn, freshHeader, linkBack, Block.rest]
  by_cases hS : firstAddr Block.addr S 0 = 0
  · by_cases hfit : h.lastFit = c.addr <;> simp [hS, hfit, Block.merge]
  · by_cases hfit : h.lastFit = c.addr <;> simp [hS, hfit, Block.merge]

include hr hs hmerge hadj hkept hle' in
/-- **A block grows into the one behind it**, and what is left of that one is a free block. -/
lemma BlockRep.expand (hbig : (b.merge c).size ≥ wadd (wadd size bhSize) minSplitSize)
    (hs' : Spread (P ++ [{ b with size := size }, (b.merge c).rest size] ++ S)) :
    BlockRep (expandBlock h b.addr size (b.merge c).size)
      (P ++ [{ b with size := size }, (b.merge c).rest size] ++ S) := by
  obtain ⟨hb, -⟩ := hr.at_pair
  have hstop := hmerge.small (b.merge c) (by simp)
  simp only [Block.stop] at hstop
  have hsS : Spread S := hs.sublist (List.sublist_append_right _ _)
  have hbf : HeaderApart b.addr ((b.merge c).rest size).addr :=
    .inl (by simp only [Block.rest, Block.merge]; omega)
  have hbS : ∀ e ∈ S, HeaderApart b.addr e.addr := fun e he =>
    (hs.of_append (b := b) (by simp) he).header
  rw [expandBlock_cut hr hmerge hadj hkept hle' hbig]
  refine @BlockRep.recut _ _ P S b [c] { b with size := size } ((b.merge c).rest size)
    (setSize h.mem b.addr size) _ _ (by simpa using hr) hs' rfl rfl rfl
    (fun a ha => readHeader_setSize_apart _ ha) rfl
    (fun a ha => readHeader_setNext_apart _ ha) ?_ ?_
  · rw [readHeader_setNext, linkBack_apart rfl hsS hbS, readHeader_freshHeader_apart hbf,
      readHeader_setSize, hb, Nat.mod_eq_of_lt (show size < word by omega),
      Nat.mod_eq_of_lt (hs'.addr_lt (by simp))]
    rfl
  · split_ifs with hfit
    · exact .inr ⟨(b.merge c).rest size, by simp, rfl⟩
    · refine hr.lastFit.imp_right fun hlast => ?_
      obtain ⟨d, hd, hdf⟩ := hlast
      simp only [List.mem_append, List.mem_cons, List.not_mem_nil, or_false] at hd
      rcases hd with (hd | rfl | rfl) | hd
      · exact ⟨d, by simp [hd], hdf⟩
      · exact ⟨{ d with size := size }, by simp, hdf⟩
      · exact absurd hdf.symm hfit
      · exact ⟨d, by simp [hd], hdf⟩

include hr hs hmerge hadj hle hkept hle' in
lemma sameOutside_expandBlock (hfree : c.kind = .free)
    (hbig : (b.merge c).size ≥ wadd (wadd size bhSize) minSplitSize) :
    SameOutside (spareBytes (P ++ [b, c] ++ S)) h.mem
      (expandBlock h b.addr size (b.merge c).size).mem := by
  rw [expandBlock_cut hr hmerge hadj hkept hle' hbig]
  have hsS : Spread S := hs.sublist (List.sublist_append_right _ _)
  refine ((((sameOutside_setSize _).trans sameOutside_freshHeader).trans
    (sameOutside_linkBack rfl hsS)).trans (sameOutside_setNext _)).mono ?_
  simp only [Block.stop] at hadj
  rintro x (((hx | hx) | ⟨d, hd, hx⟩) | hx)
  · exact ⟨b, by simp, .inl hx⟩
  · simp only [headerRange, Block.rest, Set.mem_Ico, Block.merge] at hx hle'
    exact ⟨c, by simp, .inr ⟨hfree, by omega, by simp only [Block.stop]; omega⟩⟩
  · exact ⟨d, by simp [hd], .inl hx⟩
  · exact ⟨b, by simp, .inl hx⟩

end Expand

lemma blocksOnly_expandBlock (h : Heap) (b size combined : ℕ) :
    BlocksOnly h (expandBlock h b size combined) := by
  unfold expandBlock
  dsimp only
  split_ifs <;> exact ⟨rfl, rfl, rfl⟩

/-! ## Rewriting a header -/

/-- **A header is rewritten in place**, its links apart. -/
lemma BlockRep.rewrite {b' : Block} (hr : BlockRep h (P ++ [b] ++ S))
    (hs : Spread (P ++ [b] ++ S)) (haddr : b'.addr = b.addr)
    (hsame : SameOutside (headerRange b.addr) h.mem m')
    (hb' : readHeader m' b.addr =
      b'.header (lastAddr Block.addr 0 P) (firstAddr Block.addr S 0)) :
    BlockRep { h with mem := m' } (P ++ [b'] ++ S) := by
  have happend : ∀ d ∈ P ++ S, HeaderApart d.addr b.addr := by
    intro d hd
    rcases List.mem_append.mp hd with hd | hd
    · have : Spread (P ++ (b :: S)) := by simpa using hs
      exact (this.of_append (c := b) hd (by simp)).header
    · exact (hs.of_append (b := b) (by simp) hd).header.symm
  have hkeep : ∀ d ∈ P ++ S, readHeader m' d.addr = readHeader h.mem d.addr := fun d hd =>
    readHeader_congr hsame (happend d hd).disjoint
  refine hr.splice rfl haddr (fun d hd => hkeep d (by simp [hd])) ⟨?_, trivial⟩ ?_ ?_ ?_
  · rw [BlockAt, haddr]
    exact hb'
  · have hS := (linked_append.mp hr.linked).2
    rw [lastAddr_append_singleton] at hS
    have := BlockList.congr hS fun d hd => hkeep d (by simp [hd])
    rw [← haddr] at this
    exact this
  · rw [show lastAddr Block.addr (lastAddr Block.addr 0 P) [b'] = b.addr from haddr]
    change h.tail = _
    rw [hr.tail, lastAddr_append, lastAddr_append_singleton]
  · refine hr.lastFit.imp_right fun hlast => ?_
    obtain ⟨d, hd, hdf⟩ := hlast
    simp only [List.mem_append, List.mem_singleton] at hd
    rcases hd with (hd | rfl) | hd
    · exact ⟨d, by simp [hd], hdf⟩
    · exact ⟨b', by simp, haddr.trans hdf⟩
    · exact ⟨d, by simp [hd], hdf⟩

section Rewrite

variable (hr : BlockRep h (P ++ [b] ++ S)) (hs : Spread (P ++ [b] ++ S))
include hr hs

lemma BlockRep.setFree (hk : b.kind = .used) : BlockRep { h with mem := bhSetFree h.mem b.addr }
    (P ++ [{ b with kind := .free }] ++ S) := by
  refine hr.rewrite hs rfl (sameOutside_bhSetFree _) ?_
  rw [bhSetFree, readHeader_setFlags, @BlockRep.at _ _ P S b hr (by simp),
    show (b.header _ _).flags = b.flags from rfl, Block.flags_or_free hk,
    Nat.mod_eq_of_lt Block.flags_lt]
  simp only [Block.header, Block.bin, Block.usedSlots, hk]

lemma BlockRep.clrFree (hk : b.kind = .free) : BlockRep { h with mem := bhClrFree h.mem b.addr }
    (P ++ [{ b with kind := .used }] ++ S) := by
  refine hr.rewrite hs rfl (sameOutside_bhClrFree _) ?_
  rw [bhClrFree, readHeader_setFlags, @BlockRep.at _ _ P S b hr (by simp),
    show (b.header _ _).flags = b.flags from rfl, Block.flags_and_not_free hk,
    Nat.mod_eq_of_lt Block.flags_lt]
  simp only [Block.header, Block.bin, Block.usedSlots, hk]

lemma BlockRep.setUsedSlots {bin used v : ℕ} (hk : b.kind = .pool bin used) (hv : v < 2 ^ 32) :
    BlockRep { h with mem := setUsedSlots h.mem b.addr v }
      (P ++ [{ b with kind := .pool bin v }] ++ S) := by
  refine hr.rewrite hs rfl (sameOutside_setUsedSlots _) ?_
  rw [readHeader_setUsedSlots, @BlockRep.at _ _ P S b hr (by simp), Nat.mod_eq_of_lt hv]
  simp only [Block.header, Block.bin, Block.usedSlots, Block.flags, hk]

end Rewrite

/-! ## Appending and unlinking -/

/-- **A block is appended**, whose header is written but for the links. -/
lemma BlockRep.append (hr : BlockRep h L) (hs : Spread (L ++ [b])) {p q : ℕ}
    (hb : readHeader h.mem b.addr = b.header p q) : BlockRep (listAppend h b.addr) (L ++ [b]) := by
  have hbpos : 0 < b.addr := hs.pos (by simp)
  have hblt : b.addr < word := hs.addr_lt (by simp)
  have hfit : h.lastFit = 0 ∨ ∃ d ∈ L ++ [b], d.addr = h.lastFit :=
    hr.lastFit.imp_right fun ⟨d, hd, hdf⟩ => ⟨d, by simp [hd], hdf⟩
  rcases List.eq_nil_or_concat' L with rfl | ⟨L, a, rfl⟩
  · have hhead : h.head = 0 := hr.head
    have htail : h.tail = 0 := hr.tail
    refine ⟨⟨?_, trivial⟩, ?_, rfl, hfit⟩
    · simp only [listAppend, htail, BlockAt, firstAddr]
      rw [if_neg (by simp), readHeader_setPrev, readHeader_setNext, hb]
      rfl
    · rw [listAppend, hhead]
      rfl
  · have htail : h.tail = a.addr := hr.tail.trans lastAddr_append_singleton
    have hapos : 0 < a.addr := hs.pos (by simp)
    have hab : HeaderApart b.addr a.addr :=
      ((hs.of_append (b := a) (by simp) (by simp)).header).symm
    have hm : ∀ d ∈ L ++ [a], readHeader (setPrev (setNext h.mem b.addr 0) b.addr a.addr) d.addr =
        readHeader h.mem d.addr := fun d hd => by
      have hdb : HeaderApart d.addr b.addr := (hs.of_append hd (by simp)).header
      rw [readHeader_setPrev_apart _ hdb, readHeader_setNext_apart _ hdb]
    have heq : listAppend h b.addr = { h with
        mem := setNext (setPrev (setNext h.mem b.addr 0) b.addr a.addr) a.addr b.addr
        tail := b.addr } := by
      have hhead : h.head ≠ 0 := by
        rw [hr.head]
        cases L with
        | nil => exact hapos.ne'
        | cons c L => exact (hs.pos (b := c) (by simp)).ne'
      simp only [listAppend, htail, if_neg hhead, if_pos hapos.ne']
    rw [heq]
    refine ⟨?_, ?_, (@lastAddr_append_singleton _ Block.addr 0 b (L ++ [a])).symm, hfit⟩
    · refine linked_append.mpr ⟨?_, ?_, trivial⟩
      · refine (show BlockList h.mem 0 (L ++ [a]) 0 from hr.linked).relinkLast
          (fun r hr => ?_) fun d hd r t hat => ?_
        · rw [BlockAt, readHeader_setNext, hm a (by simp), hr, Nat.mod_eq_of_lt hblt]
          rfl
        · have hda : HeaderApart d.addr a.addr := by
            have : Spread (L ++ ([a] ++ [b])) := by simpa using hs
            exact (this.of_append (c := a) hd (by simp)).header
          rw [BlockAt, readHeader_setNext_apart _ hda, hm d (by simp [hd])]
          exact hat
      · rw [lastAddr_append_singleton, BlockAt, readHeader_setNext_apart _ hab, readHeader_setPrev,
          readHeader_setNext, hb, Nat.mod_eq_of_lt (hs.addr_lt (b := a) (by simp))]
        rfl
    · rw [firstAddr_append, hr.head]
      cases L <;> rfl

lemma sameOutside_listAppend (hr : BlockRep h L) (bh : ℕ) :
    SameOutside (headerRange bh ∪ headersOf L) h.mem (listAppend h bh).mem := by
  have hwrite : SameOutside (headerRange bh) h.mem (setPrev (setNext h.mem bh 0) bh h.tail) :=
    (sameOutside_setNext _).trans_self (sameOutside_setPrev _)
  simp only [listAppend]
  split_ifs with htail
  · obtain ⟨L', a, rfl, ha⟩ := lastAddr_mem (hr.tail ▸ htail)
    refine (hwrite.trans (sameOutside_setNext _)).mono ?_
    rintro x (hx | hx)
    · exact .inl hx
    · exact .inr ⟨a, by simp, by rwa [hr.tail, ha] at hx⟩
  · exact hwrite.mono Set.subset_union_left

lemma blocksOnly_listAppend (h : Heap) (bh : ℕ) : BlocksOnly h (listAppend h bh) := ⟨rfl, rfl, rfl⟩

/-- What is before the block that is taken out points to what is behind it. -/
def linkForward (h : Heap) (prev next : ℕ) : Heap :=
  if prev ≠ 0 then { h with mem := setNext h.mem prev next } else { h with head := next }

/-- The links of the neighbours of the block that is taken out. -/
def bridge (h : Heap) (prev next : ℕ) : Heap :=
  let h := linkForward h prev next
  linkBack h h.mem next prev

lemma bridge_lastFit (h : Heap) (prev next : ℕ) : (bridge h prev next).lastFit = h.lastFit := by
  rw [bridge, linkBack_lastFit, linkForward]
  split_ifs <;> rfl

section Unlink

variable (hr : BlockRep h (P ++ [b] ++ S)) (hs : Spread (P ++ [b] ++ S))
include hr hs

lemma listUnlink_eq : listUnlink h b.addr =
    let h' := bridge h (lastAddr Block.addr 0 P) (firstAddr Block.addr S 0)
    if h.lastFit = b.addr then { h' with lastFit := 0 } else h' := by
  have hb := @BlockRep.at _ _ P S b hr (by simp)
  have hsame : readHeader (linkForward h (lastAddr Block.addr 0 P) (firstAddr Block.addr S 0)).mem
      b.addr = readHeader h.mem b.addr := by
    rw [linkForward]
    split_ifs with hP
    · obtain ⟨P', a, rfl, ha⟩ := lastAddr_mem hP
      have : Spread ((P' ++ [a]) ++ ([b] ++ S)) := by simpa using hs
      rw [ha]
      exact readHeader_setNext_apart _
        (this.of_append (b := a) (c := b) (by simp) (by simp)).header.symm
    · rfl
  simp only [listUnlink, hb, Block.header]
  rw [← linkForward, hsame, hb]
  simp only [Block.header]
  rw [← bridge_lastFit h (lastAddr Block.addr 0 P) (firstAddr Block.addr S 0)]
  rfl

/-- **A block is taken out of the list.** -/
lemma BlockRep.unlink : BlockRep (listUnlink h b.addr) (P ++ S) := by
  have hsS : Spread S := hs.sublist (List.sublist_append_right _ _)
  have hlink := hr.linked
  rw [BlockList, List.append_assoc, linked_append] at hlink
  have hPS : ∀ d ∈ P, ∀ e ∈ S, HeaderApart d.addr e.addr := fun d hd e he =>
    (hs.of_append (b := d) (by simp [hd]) he).header
  set n := firstAddr Block.addr S 0 with hn
  set z := lastAddr Block.addr 0 P with hz
  have hzlt : z < word := by
    have := readHeader_prev_lt h.mem b.addr
    rwa [@BlockRep.at _ _ P S b hr (by simp)] at this
  -- the part before `b`, after its last header points forward
  have hP : BlockList (linkForward h z n).mem 0 P n ∧
      (linkForward h z n).head = firstAddr Block.addr (P ++ S) 0 ∧
      (∀ a, (∀ d ∈ P, HeaderApart a d.addr) →
        readHeader (linkForward h z n).mem a = readHeader h.mem a) := by
    rcases List.eq_nil_or_concat' P with rfl | ⟨P', a, rfl⟩
    · exact ⟨trivial, rfl, fun _ _ => rfl⟩
    · have hza : z = a.addr := lastAddr_append_singleton
      have hapos : 0 < a.addr := hs.pos (by simp)
      rw [linkForward, hza, if_pos hapos.ne']
      refine ⟨hlink.1.relinkLast (fun r hr => ?_) fun d hd r t hat => ?_, ?_, fun q hq => ?_⟩
      · rw [BlockAt, readHeader_setNext, hr, Nat.mod_eq_of_lt hsS.firstAddr_lt]
        rfl
      · have hda : HeaderApart d.addr a.addr := by
          have : Spread (P' ++ ([a] ++ ([b] ++ S))) := by simpa using hs
          exact (this.of_append (c := a) hd (by simp)).header
        rw [BlockAt, readHeader_setNext_apart _ hda]
        exact hat
      · rw [show (_ : Heap).head = h.head from rfl, hr.head]
        cases P' <;> rfl
      · exact readHeader_setNext_apart _ (hq a (by simp))
  have hS : BlockList (linkForward h z n).mem b.addr S 0 := by
    refine BlockList.congr hlink.2.2 fun d hd => hP.2.2 _ fun e he => ?_
    exact (hPS e he d hd).symm
  have hbridge : BlockList (bridge h z n).mem 0 (P ++ S) 0 := by
    refine linked_append.mpr ⟨BlockList.congr hP.1 fun d hd => ?_, linkBack_list rfl hsS hzlt hS⟩
    exact linkBack_apart rfl hsS (hPS d hd)
  have htail : (bridge h z n).tail = lastAddr Block.addr 0 (P ++ S) := by
    rw [lastAddr_append, bridge]
    refine linkBack_tail rfl hsS (?_ : _ = lastAddr Block.addr b.addr S)
    have : (linkForward h z n).tail = h.tail := by rw [linkForward]; split_ifs <;> rfl
    rw [this, hr.tail, lastAddr_append, lastAddr_append_singleton]
  have hrep : ∀ f, (f = 0 ∨ ∃ d ∈ P ++ S, d.addr = f) →
      BlockRep { bridge h z n with lastFit := f } (P ++ S) := fun f hf =>
    ⟨hbridge, (linkBack_head ..).trans hP.2.1, htail, hf⟩
  rw [listUnlink_eq hr hs]
  dsimp only
  split_ifs with hfit
  · exact hrep 0 (.inl rfl)
  · have hkeep : h.lastFit = 0 ∨ ∃ d ∈ P ++ S, d.addr = h.lastFit := by
      refine hr.lastFit.imp_right fun hlast => ?_
      obtain ⟨d, hd, hdf⟩ := hlast
      simp only [List.mem_append, List.mem_singleton] at hd
      rcases hd with (hd | rfl) | hd
      · exact ⟨d, by simp [hd], hdf⟩
      · exact absurd hdf.symm hfit
      · exact ⟨d, by simp [hd], hdf⟩
    rw [← bridge_lastFit h z n] at hkeep
    exact hrep _ hkeep

lemma sameOutside_listUnlink :
    SameOutside (headersOf (P ++ S)) h.mem (listUnlink h b.addr).mem := by
  have hsS : Spread S := hs.sublist (List.sublist_append_right _ _)
  have hforward : SameOutside (headersOf P) h.mem
      (linkForward h (lastAddr Block.addr 0 P) (firstAddr Block.addr S 0)).mem := by
    rw [linkForward]
    split_ifs with hP
    · obtain ⟨P', a, rfl, ha⟩ := lastAddr_mem hP
      exact (sameOutside_setNext _).mono fun x hx => ⟨a, by simp, ha ▸ hx⟩
    · exact .refl _ _
  have hmem : (listUnlink h b.addr).mem =
      (bridge h (lastAddr Block.addr 0 P) (firstAddr Block.addr S 0)).mem := by
    rw [listUnlink_eq hr hs]
    dsimp only
    split_ifs <;> rfl
  rw [hmem]
  refine (hforward.trans (sameOutside_linkBack rfl hsS)).mono ?_
  rintro x (⟨d, hd, hx⟩ | ⟨d, hd, hx⟩)
  · exact ⟨d, by simp [hd], hx⟩
  · exact ⟨d, by simp [hd], hx⟩

omit hr hs in
lemma blocksOnly_listUnlink (h : Heap) (bh : ℕ) : BlocksOnly h (listUnlink h bh) := by
  unfold listUnlink
  dsimp only
  split_ifs <;> exact ⟨rfl, rfl, rfl⟩

end Unlink

end Cuore
