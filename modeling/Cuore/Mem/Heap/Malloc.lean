import Cuore.Mem.Heap.Inv
import Cuore.Mem.Heap.Search

/-!
# `malloc`

A request is served by a slot, or by the first block that fits: the whole block, or its front with
the rest cut off as a free block.  When nothing fits the heap grows by a region of one free block.
Either way the invariant is kept, the allocations are those from before and the new one, and no
byte of an allocation is changed.
-/

namespace Cuore

open Memory

/-! ## What a call does to the allocations -/

/-- The contents of the allocations `A` are the same. -/
def Undisturbed (A : ℕ → ℕ → Prop) (m m' : Memory) : Prop :=
  ∀ p n, A p n → ∀ x, p ≤ x → x < p + n → m' x = m x

lemma Undisturbed.refl (A : ℕ → ℕ → Prop) (m : Memory) : Undisturbed A m m :=
  fun _ _ _ _ _ _ => rfl

lemma Undisturbed.trans {A B : ℕ → ℕ → Prop} {m m' m'' : Memory} (h : Undisturbed A m m')
    (h' : Undisturbed B m' m'') (hAB : ∀ p n, A p n → B p n) : Undisturbed A m m'' :=
  fun p n hp x hx hx' => (h' p n (hAB p n hp) x hx hx').trans (h p n hp x hx hx')

section

variable {h : Heap} {rs : List Region} {F : ℕ → List ℕ} {b : Block} {size : ℕ}

lemma HeapInv.undisturbed (hi : HeapInv h rs F) {m' : Memory}
    (hsame : SameOutside (spareBytes (heapBlocks rs)) h.mem m') :
    Undisturbed (Live (heapBlocks rs) F) h.mem m' :=
  fun _ _ hp x hx hx' => hsame x (hp.not_mem_spareBytes hi.regions hx hx')

/-! ## Taking a block -/

/-- The blocks that a free block is cut into for a request. -/
def Block.takeFor (b : Block) (size : ℕ) : List Block :=
  if size + bhSize + minSplitSize ≤ b.size then
    [{ b with size := size, kind := .used }, b.rest size]
  else [{ b with kind := .used }]

/-- The size of the block that is taken. -/
def Block.takenSize (b : Block) (size : ℕ) : ℕ :=
  if size + bhSize + minSplitSize ≤ b.size then size else b.size

/-- **The free end of a stretch is used**, all of it or its front: the stretch is that of `b`. -/
lemma BlockRegion.takeFor {base stop : ℕ} {A B M : List Block}
    (hM : BlockRegion ⟨base, stop, A ++ M ++ B⟩)
    (htiles : ∀ p q, Tiles Block.addr Block.stop p M q → Tiles Block.addr Block.stop p [b] q)
    (hlast : ∃ d ∈ M.getLast?, d.kind = .free) (hstart : b.start = decide (b.addr = base))
    (hsize : heapAlignment ∣ b.size) (hinside : b.payload < stop) (hbase : base ≤ b.addr)
    (hdvd : heapAlignment ∣ size) :
    BlockRegion ⟨base, stop, A ++ b.takeFor size ++ B⟩ := by
  obtain ⟨d, hd, hdk⟩ := hlast
  have hne : M ≠ [] := fun hnil => by simp [hnil] at hd
  obtain ⟨hcA, -, hcB, -, hbB⟩ := (coalesced_splice hne).mp hM.coalesced
  have hB : ∀ c ∈ B.head?, c.kind ≠ .free := fun c hc hck => hbB d hd c hc ⟨hdk, hck⟩
  have hstop : b.stop ≤ stop := by
    have hregion := hM.tiles.replace htiles
    exact (hregion.bounds Block.addr_le_stop (x := b) (by simp)).2
  simp only [Block.payload, Block.stop] at hinside hstop
  rw [Block.takeFor]
  split_ifs with hcut
  · refine hM.replace (fun p q h => ?_) ?_ ?_ ?_ ?_ ?_
    · obtain ⟨hp, hq⟩ := htiles p q h
      refine ⟨hp, rfl, ?_⟩
      change (b.rest size).stop = q
      have hq : b.stop = q := hq
      simp only [Block.stop, Block.rest] at hq ⊢
      omega
    · simp [Block.rest]
    · have hne : b.addr + bhSize + size ≠ base := by
        simp only [bhSize]
        omega
      simp [Block.rest, hne, hstart]
    · simp only [List.mem_cons, List.not_mem_nil, or_false, forall_eq_or_imp, forall_eq]
      refine ⟨hdvd, ?_⟩
      exact Nat.dvd_sub (Nat.dvd_sub hsize hdvd) (by decide)
    · simp only [List.mem_cons, List.not_mem_nil, or_false, forall_eq_or_imp, forall_eq]
      simp only [Block.payload, Block.rest, minSplitSize] at hcut ⊢
      omega
    · refine (coalesced_splice (by simp)).mpr ⟨hcA, ?_, hcB, ?_, ?_⟩
      · simp [Coalesced]
      · simp
      · simpa [Block.rest] using hB
  · refine hM.replace (fun p q h => htiles p q h) ?_ ?_ ?_ ?_ ?_
    · simp
    · simpa using hstart
    · simpa using hsize
    · simpa [Block.payload] using hinside
    · refine (coalesced_splice (by simp)).mpr ⟨hcA, List.isChain_singleton _, hcB, ?_, ?_⟩ <;> simp

/-- The test of `malloc` whether a block is cut. -/
lemma cut_iff (hs : Spread [b]) (hfit : b.Fits size) :
    b.size ≥ wadd (wadd size bhSize) minSplitSize ↔ size + bhSize + minSplitSize ≤ b.size := by
  have hlow := hs.low b (by simp)
  have hsmall := hs.small b (by simp)
  have hle := hfit.2
  simp only [Block.stop, pageSize, bhSize, minSplitSize] at hlow hsmall ⊢
  rw [wadd_of_lt (show size + 48 < word by omega), wadd_of_lt (by omega)]

lemma blocksOnly_takeBlock (h : Heap) (size curr : ℕ) :
    BlocksOnly h (takeBlock h size curr).2 := by
  rw [takeBlock_eq]
  dsimp only
  split_ifs
  · exact (blocksOnly_cutBlock h size curr).write _ _
  · exact (BlocksOnly.refl h).write _ _

lemma BlockRep.take {P S : List Block} (hr : BlockRep h (P ++ [b] ++ S))
    (hs : Spread (P ++ [b] ++ S)) (hs' : Spread (P ++ b.takeFor size ++ S)) (hfit : b.Fits size) :
    BlockRep (takeBlock h size b.addr).2 (P ++ b.takeFor size ++ S) ∧
      SameOutside (spareBytes (P ++ [b] ++ S)) h.mem (takeBlock h size b.addr).2.mem := by
  have hcut := cut_iff (hs.sublist (show [b].Sublist _ by simp)) hfit
  have hb := @BlockRep.at _ _ P S b hr (by simp)
  have hhead : headerRange b.addr ⊆ spareBytes (P ++ [b] ++ S) := fun x hx => ⟨b, by simp, .inl hx⟩
  rw [takeBlock_eq, hb, show (b.header _ _).size = b.size from rfl]
  simp only [hcut]
  rw [Block.takeFor] at hs' ⊢
  split_ifs at hs' ⊢ with hle
  · have hle' : size + bhSize ≤ b.size := by omega
    have hspread : Spread (P ++ [{ b with size := size }, b.rest size] ++ S) :=
      hs'.of_map (by simp [Block.extent])
    have hcutRep : BlockRep (cutBlock h size b.addr)
        (P ++ [{ b with size := size }] ++ (b.rest size :: S)) := by
      simpa using hr.cut hs hle' hspread
    have hused := (hcutRep.clrFree (by simpa using hspread) hfit.1).withLastFit (f := b.addr)
      (.inr ⟨{ b with size := size, kind := .used }, by simp, rfl⟩)
    refine ⟨by simpa using hused, ?_⟩
    have hmark := (sameOutside_bhClrFree (cutBlock h size b.addr).mem).mono hhead
    exact (sameOutside_cutBlock hr hs hle' hfit.1).trans_self hmark
  · have hused := (hr.clrFree hs hfit.1).withLastFit (f := b.addr)
      (.inr ⟨{ b with kind := .used }, by simp, rfl⟩)
    exact ⟨hused, (sameOutside_bhClrFree _).mono hhead⟩

/-- **Taking a block** for a request that it fits. -/
lemma HeapInv.take (hi : HeapInv h rs F) (hb : b ∈ heapBlocks rs) (hfit : b.Fits size)
    (hdvd : heapAlignment ∣ size) : (takeBlock h size b.addr).1 = b.payload ∧
      ∃ rs', HeapInv (takeBlock h size b.addr).2 rs' F ∧
        (∃ P S, heapBlocks rs = P ++ [b] ++ S ∧ heapBlocks rs' = P ++ b.takeFor size ++ S) ∧
        (∀ q k, Live (heapBlocks rs') F q k ↔
          Live (heapBlocks rs) F q k ∨ q = b.payload ∧ k = b.takenSize size) ∧
        Undisturbed (Live (heapBlocks rs) F) h.mem (takeBlock h size b.addr).2.mem := by
  obtain ⟨X, base, stop, A, B, Y, rfl, hregion⟩ :=
    hi.regions.exists_region hb (by simp [hfit.1, BlockKind.isPool])
  have hbounds := hregion.tiles.bounds Block.addr_le_stop (x := b) (by simp)
  have hrs := hi.regions.of_around (hregion.takeFor (b := b) (fun _ _ h => h) ⟨b, rfl, hfit.1⟩
    (hregion.starts b (by simp)) (hregion.sizes b (by simp)) (hregion.inside b (by simp)) hbounds.1
    hdvd)
  have hr := hi.blocks
  have hs := hi.regions.spread
  have hs' := hrs.spread
  rw [heapBlocks_around] at hr hs hs'
  obtain ⟨hr', hsame⟩ := hr.take hs hs' hfit
  rw [← heapBlocks_around] at hr' hsame
  have hpool : ∀ P S : List Block, ((P ++ b.takeFor size ++ S).filter fun b => b.kind.isPool) =
      (P ++ [b] ++ S).filter fun b => b.kind.isPool := by
    intro P S
    rw [Block.takeFor]
    split_ifs <;> simp [hfit.1, BlockKind.isPool, Block.rest]
  refine ⟨rfl, _, hi.reblock hrs (ranges_around ..) ?_ hr'
    (blocksOnly_takeBlock h size b.addr) hsame,
    ⟨_, _, heapBlocks_around .., heapBlocks_around ..⟩, fun q k => ?_, hi.undisturbed hsame⟩
  · rw [heapBlocks_around, heapBlocks_around]
    exact hpool _ _
  · have hold : ¬ Live [b] F q k := by simp [Live, hfit.1]
    have hnew : Live (b.takeFor size) F q k ↔ q = b.payload ∧ k = b.takenSize size := by
      rw [Block.takeFor, Block.takenSize]
      split_ifs <;> simp [Live, Block.rest, Block.payload]
    rw [live_around, live_around, hnew]
    tauto

/-! ## Growing -/

/-- The range of `pages` pages at `virt` is mapped, and apart from the ranges of the heap. -/
structure FreshRange (owned : List (ℕ × ℕ)) (virt pages : ℕ) : Prop where
  pos : 0 < virt
  page : pageSize ∣ virt
  small : virt + pages * pageSize < word
  apart : ∀ o ∈ owned, o.1 + o.2 ≤ virt ∨ virt + pages * pageSize ≤ o.1

/-- The region that `heap_grow` adds. -/
def grownRegion (virt pages : ℕ) : Region where
  base := virt
  stop := virt + pages * pageSize
  blocks := [⟨virt, pages * pageSize - bhSize, true, .free⟩]

lemma le_growPages (size : ℕ) : pagesPerGrowth ≤ growPages size := by
  simp only [growPages]
  split_ifs <;> omega

lemma grownRegion_ok {virt pages : ℕ} {owned : List (ℕ × ℕ)} (hf : FreshRange owned virt pages)
    (hpages : 0 < pages) : (grownRegion virt pages).Ok := by
  have hlen : bhSize < pages * pageSize :=
    (show bhSize < 1 * pageSize by decide).trans_le (Nat.mul_le_mul_right _ hpages)
  refine ⟨hf.pos, hf.page, by simp only [grownRegion]; omega, hf.small, .inl ?_⟩
  refine ⟨⟨rfl, ?_⟩, ?_, ?_, ?_, ?_, List.isChain_singleton _⟩
  · simp only [Tiles, Block.stop, grownRegion]
    omega
  · simp [grownRegion]
  · simp [grownRegion]
  · simp only [grownRegion, List.mem_singleton, forall_eq]
    exact Nat.dvd_sub (Dvd.dvd.mul_left (by decide) _) (by decide)
  · simp only [grownRegion, List.mem_singleton, forall_eq, Block.payload]
    omega

/-- A fresh range is apart from the regions. -/
lemma FreshRange.apart_regions {owned : List (ℕ × ℕ)} {virt pages : ℕ}
    (hf : FreshRange owned virt pages)
    (hrs : RegionsOk rs) (howned : owned = rs.map fun r => (r.base, r.stop - r.base))
    (M : List Block) : ∀ s ∈ rs, s.Apart ⟨virt, virt + pages * pageSize, M⟩ := by
  intro s hs
  have hmem : (s.base, s.stop - s.base) ∈ owned := by
    rw [howned]
    exact List.mem_map_of_mem hs
  have hlt := (hrs.ok s hs).lt
  have := hf.apart _ hmem
  simp only [Region.Apart] at this ⊢
  omega

/-- **`heap_grow` adds a region** of one free block. -/
lemma HeapInv.grow (hi : HeapInv h rs F) {virt : ℕ}
    (hf : FreshRange h.owned virt (growPages size)) :
    HeapInv (heapGrow h size virt) (rs ++ [grownRegion virt (growPages size)]) F ∧
      (∀ q k, Live (heapBlocks (rs ++ [grownRegion virt (growPages size)])) F q k ↔
        Live (heapBlocks rs) F q k) ∧
      Undisturbed (Live (heapBlocks rs) F) h.mem (heapGrow h size virt).mem := by
  have hpages := le_growPages size
  have hok := grownRegion_ok hf ((show 0 < pagesPerGrowth by decide).trans_le hpages)
  have hrs : RegionsOk (rs ++ [grownRegion virt (growPages size)]) :=
    hi.regions.append hok (hf.apart_regions hi.regions hi.owned _)
  set b : Block := ⟨virt, growPages size * pageSize - bhSize, true, .free⟩ with hb
  have hL : heapBlocks (rs ++ [grownRegion virt (growPages size)]) = heapBlocks rs ++ [b] := by
    rw [heapBlocks_append]
    simp [heapBlocks, grownRegion, hb]
  have hs := hrs.spread
  have hlive : ∀ q k, Live (heapBlocks rs ++ [b]) F q k ↔ Live (heapBlocks rs) F q k := by
    intro q k
    simp [Live, hb, or_and_right, exists_or]
  rw [hL] at hs ⊢
  -- the new header stands apart from the others
  set m := setFlags (setSize (setMagic (clearHeader h.mem virt) virt heapMagic) virt
    (wsub (growPages size * pageSize) bhSize)) virt (bhFree ||| bhBoundaryStart) with hm
  have hhead : readHeader m b.addr = b.header 0 0 := by
    have hsize : wsub (growPages size * pageSize) bhSize = growPages size * pageSize - bhSize := by
      have hlen : bhSize ≤ pagesPerGrowth * pageSize := by decide
      have := hf.small
      exact wsub_of_le (hlen.trans (Nat.mul_le_mul_right _ hpages)) (by omega)
    have hsmall := hf.small
    simp only [hm, hb, readHeader_setFlags, readHeader_setSize, readHeader_setMagic,
      readHeader_clearHeader, hsize]
    rw [Nat.mod_eq_of_lt (show growPages size * pageSize - bhSize < word by omega)]
    rfl
  have hmem : SameOutside (headerRange virt) h.mem m :=
    (((sameOutside_clearHeader _).trans_self (sameOutside_setMagic _)).trans_self
      (sameOutside_setSize _)).trans_self (sameOutside_setFlags _)
  have hrep : BlockRep { h with
      mem := m
      owned := h.owned ++ [(virt, growPages size * pageSize)] } (heapBlocks rs) := by
    refine hi.blocks.congr rfl rfl rfl fun d hd => readHeader_congr hmem ?_
    exact (hs.of_append hd (by simp : b ∈ [b])).header.disjoint
  have hsame : SameOutside (spareBytes (heapBlocks rs ++ [b])) h.mem
    (heapGrow h size virt).mem := by
    refine (hmem.trans (sameOutside_listAppend hrep virt)).mono ?_
    rintro x (hx | hx | ⟨d, hd, hx⟩)
    · exact ⟨b, by simp, .inl hx⟩
    · exact ⟨b, by simp, .inl hx⟩
    · exact ⟨d, by simp [hd], .inl hx⟩
  rw [← hL] at hsame
  refine ⟨⟨hrs, ?_, ?_, ?_⟩, hlive, ?_⟩
  · change h.owned ++ [(virt, growPages size * pageSize)] = _
    rw [List.map_append, hi.owned]
    simp [grownRegion]
  · rw [hL]
    exact hrep.append hs hhead
  · refine hi.pools.congr rfl rfl ?_ (hi.pools.slotLink_eq hrs (fun d hd => ?_) hsame)
    · rw [hL]
      simp [hb, BlockKind.isPool]
    · rw [hL]
      simp [hd]
  · intro q k hq x hx hx'
    refine hsame x (Live.not_mem_spareBytes hrs (hL ▸ (hlive q k).mpr hq) hx hx')

/-! ## Searching and growing -/

/-- The answers of `heap_grow` to come are fresh ranges, each apart from the earlier ones too. -/
def FreshGrants (pages : ℕ) : List (ℕ × ℕ) → List ℕ → Prop
  | _, [] => True
  | owned, virt :: grants => virt = 0 ∨
    FreshRange owned virt pages ∧ FreshGrants pages (owned ++ [(virt, pages * pageSize)]) grants

/-- What an allocation of at least `size` bytes does: it returns null, or the pointer of one more
allocation. -/
def Allocates (h : Heap) (rs : List Region) (F : ℕ → List ℕ) (size p : ℕ) (h' : Heap) : Prop :=
  ∃ rs' F', HeapInv h' rs' F' ∧ Undisturbed (Live (heapBlocks rs) F) h.mem h'.mem ∧
    ((p = 0 ∧ ∀ q k, Live (heapBlocks rs') F' q k ↔ Live (heapBlocks rs) F q k) ∨
      0 < p ∧ (∀ k, ¬ Live (heapBlocks rs) F p k) ∧ ∃ n, size ≤ n ∧
        ∀ q k, Live (heapBlocks rs') F' q k ↔ Live (heapBlocks rs) F q k ∨ q = p ∧ k = n)

lemma Allocates.mono {size' p : ℕ} {h' : Heap} (ha : Allocates h rs F size p h')
    (hle : size' ≤ size) : Allocates h rs F size' p h' := by
  obtain ⟨rs', F', hi, hkeep, hnull | ⟨hpos, hnew, n, hn, hlive⟩⟩ := ha
  · exact ⟨rs', F', hi, hkeep, .inl hnull⟩
  · exact ⟨rs', F', hi, hkeep, .inr ⟨hpos, hnew, n, hle.trans hn, hlive⟩⟩

/-- The payload of a free block is not allocated. -/
lemma RegionsOk.free_not_live (hrs : RegionsOk rs) (hb : b ∈ heapBlocks rs) (hk : b.kind = .free)
    (k : ℕ) : ¬ Live (heapBlocks rs) F b.payload k := by
  rintro (⟨c, hc, hkc, hp, -⟩ | ⟨c, hc, used, hkc, hs, -⟩)
  · have haddr : b.addr = c.addr := by
      simp only [Block.payload] at hp
      omega
    rw [hrs.spread.addr_inj hb hc haddr, hkc] at hk
    exact absurd hk (by simp)
  · exact hrs.payload_not_slot hb (by simp [hk, BlockKind.isPool]) hc hkc hs

section MallocBlock

variable {grants : List ℕ} {virt p : ℕ}

lemma mallocBlock_found (hb : 0 < b.addr)
    (hsearch : searchFit h.mem h.head (searchStart h) size word (searchStart h) false =
      some b.addr) : mallocBlock size grants h = some (takeBlock h size b.addr) := by
  rw [mallocBlock.eq_def]
  change (searchFit h.mem h.head (searchStart h) size word (searchStart h) false >>= _) = _
  rw [hsearch, Option.bind_eq_bind, Option.bind_some, if_pos hb.ne']

lemma mallocBlock_grow
    (hsearch : searchFit h.mem h.head (searchStart h) size word (searchStart h) false = some 0) :
    mallocBlock size grants h = match grants with
      | [] => some (0, h)
      | virt :: grants =>
        if virt = 0 then some (0, h) else mallocBlock size grants (heapGrow h size virt) := by
  rw [mallocBlock.eq_def]
  change (searchFit h.mem h.head (searchStart h) size word (searchStart h) false >>= _) = _
  rw [hsearch, Option.bind_eq_bind, Option.bind_some]
  refine (if_neg (not_not.mpr rfl)).trans ?_
  cases grants <;> rfl

/-- A request that nothing is found for returns null, and nothing has changed. -/
lemma HeapInv.allocates_null (hi : HeapInv h rs F) : Allocates h rs F size 0 h :=
  ⟨rs, F, hi, .refl _ _, .inl ⟨rfl, fun _ _ => Iff.rfl⟩⟩

lemma HeapInv.allocates_take (hi : HeapInv h rs F) (hb : b ∈ heapBlocks rs)
    (hfit : b.Fits size) (hdvd : heapAlignment ∣ size) :
    Allocates h rs F size (takeBlock h size b.addr).1 (takeBlock h size b.addr).2 := by
  obtain ⟨hp, rs', hi', -, hlive, hkeep⟩ := hi.take hb hfit hdvd
  have hle : size ≤ b.takenSize size := by
    rw [Block.takenSize]
    split_ifs
    · exact le_rfl
    · exact hfit.2
  rw [hp]
  exact ⟨rs', F, hi', hkeep, .inr ⟨Nat.add_pos_right _ (by decide),
    hi.regions.free_not_live hb hfit.1, _, hle, hlive⟩⟩

/-- What is allocated after the heap has grown. -/
lemma HeapInv.allocates_grow (hi : HeapInv h rs F)
    (hf : FreshRange h.owned virt (growPages size)) {size' : ℕ} {h' : Heap}
    (ha : Allocates (heapGrow h size virt) (rs ++ [grownRegion virt (growPages size)]) F size' p
    h') :
    Allocates h rs F size' p h' := by
  obtain ⟨-, hlive, hkeep⟩ := hi.grow hf
  obtain ⟨rs', F', hi', hkeep', hcases⟩ := ha
  simp only [hlive] at hcases
  exact ⟨rs', F', hi', hkeep.trans hkeep' fun q k hq => (hlive q k).mpr hq, hcases⟩

/-- **The block list serves a request**, or grows until it does. -/
lemma HeapInv.serve (hi : HeapInv h rs F) (hdvd : heapAlignment ∣ size)
    (hg : FreshGrants (growPages size) h.owned grants) :
    ∃ p h', mallocBlock size grants h = some (p, h') ∧ Allocates h rs F size p h' := by
  induction grants generalizing h rs with
  | nil =>
    rcases hi.blocks.search hi.regions.spread size with ⟨b, hb, hfit, hsearch⟩ | ⟨-, hsearch⟩
    · exact ⟨_, _, mallocBlock_found (hi.regions.spread.pos hb) hsearch,
        hi.allocates_take hb hfit hdvd⟩
    · exact ⟨0, h, mallocBlock_grow hsearch, hi.allocates_null⟩
  | cons virt grants ih =>
    rcases hi.blocks.search hi.regions.spread size with ⟨b, hb, hfit, hsearch⟩ | ⟨-, hsearch⟩
    · exact ⟨_, _, mallocBlock_found (hi.regions.spread.pos hb) hsearch,
        hi.allocates_take hb hfit hdvd⟩
    rw [mallocBlock_grow hsearch]
    dsimp only
    split_ifs with hzero
    · exact ⟨0, h, rfl, hi.allocates_null⟩
    · obtain ⟨hf, hg⟩ := hg.resolve_left hzero
      obtain ⟨p, h', heq, ha⟩ := ih (hi.grow hf).1 hg
      exact ⟨p, h', heq, hi.allocates_grow hf ha⟩

end MallocBlock

end

end Cuore
