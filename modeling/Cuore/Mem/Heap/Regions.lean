import Cuore.Mem.Heap.Edit
import Cuore.Framework.Tiling
import Mathlib.Data.List.Chain

/-!
# The regions of the heap

The heap holds ranges of virtual memory, and each of them is a region of the block list: either
the blocks that a range was cut into, or the one block of a pool page.  `Region.Ok` says that the
blocks tile the range, that the first and only the first has `BH_BOUNDARY_START`, and that no two
free blocks are adjacent.

A change of the blocks inside a region keeps this when the new blocks tile the same stretch and no
two free ones come together (`BlockRegion.replace`), and what is behind a region is the first
block of another one, which is a boundary or a pool page and never coalesced with.
-/

namespace Cuore

/-- A range of the heap and its blocks. -/
structure Region where
  base : ℕ
  stop : ℕ
  blocks : List Block
  deriving DecidableEq, Repr

/-- The block is a pool page. -/
def BlockKind.isPool : BlockKind → Bool
  | .pool _ _ => true
  | _ => false

/-- No two adjacent blocks are free. -/
def Coalesced (l : List Block) : Prop := l.IsChain fun b c => ¬ (b.kind = .free ∧ c.kind = .free)

/-- The region is cut into free and used blocks. -/
structure BlockRegion (r : Region) : Prop where
  tiles : Tiles Block.addr Block.stop r.base r.blocks r.stop
  kinds : ∀ b ∈ r.blocks, b.kind = .free ∨ b.kind = .used
  starts : ∀ b ∈ r.blocks, b.start = decide (b.addr = r.base)
  sizes : ∀ b ∈ r.blocks, heapAlignment ∣ b.size
  inside : ∀ b ∈ r.blocks, b.payload < r.stop
  coalesced : Coalesced r.blocks

/-- The slots of a pool page. -/
def slotCount (bin : ℕ) : ℕ := (pageSize - bhSize) / bin

/-- The region is a pool page. -/
def PoolRegion (r : Region) : Prop :=
  r.stop = r.base + pageSize ∧ ∃ bin used, bin ∈ poolSizes ∧
    r.blocks = [⟨r.base, pageSize - bhSize, false, .pool bin used⟩]

/-- **A region of the heap.** -/
structure Region.Ok (r : Region) : Prop where
  pos : 0 < r.base
  page : pageSize ∣ r.base
  lt : r.base < r.stop
  small : r.stop < word
  body : BlockRegion r ∨ PoolRegion r

/-- The regions do not overlap. -/
def Region.Apart (r s : Region) : Prop := r.stop ≤ s.base ∨ s.stop ≤ r.base

/-- **The regions of the heap.** -/
structure RegionsOk (rs : List Region) : Prop where
  ok : ∀ r ∈ rs, r.Ok
  apart : rs.Pairwise Region.Apart

/-- The blocks of all regions. -/
def heapBlocks (rs : List Region) : List Block := rs.flatMap Region.blocks

lemma heapBlocks_append (X Y : List Region) :
    heapBlocks (X ++ Y) = heapBlocks X ++ heapBlocks Y := List.flatMap_append

/-- The blocks around a region. -/
lemma heapBlocks_split (X Y : List Region) (r : Region) :
    heapBlocks (X ++ r :: Y) = heapBlocks X ++ r.blocks ++ heapBlocks Y := by
  simp [heapBlocks]

lemma mem_heapBlocks {rs : List Region} {b : Block} :
    b ∈ heapBlocks rs ↔ ∃ r ∈ rs, b ∈ r.blocks := List.mem_flatMap

lemma Block.addr_le_stop (b : Block) : b.addr ≤ b.stop := by
  simp only [Block.stop]
  omega

/-! ## Blocks in a region -/

section Region

variable {r : Region} {b c : Block} {A B M M' : List Block}

lemma PoolRegion.tiles (h : PoolRegion r) :
    Tiles Block.addr Block.stop r.base r.blocks r.stop := by
  obtain ⟨hstop, bin, used, -, hblocks⟩ := h
  rw [hblocks, hstop]
  exact ⟨rfl, by simp only [Tiles, Block.stop, bhSize, pageSize]⟩

lemma Region.Ok.tiles (h : r.Ok) : Tiles Block.addr Block.stop r.base r.blocks r.stop :=
  h.body.elim BlockRegion.tiles PoolRegion.tiles

lemma Region.Ok.bounds (h : r.Ok) (hb : b ∈ r.blocks) : r.base ≤ b.addr ∧ b.stop ≤ r.stop :=
  h.tiles.bounds Block.addr_le_stop hb

lemma Region.Ok.low (h : r.Ok) : pageSize ≤ r.base := Nat.le_of_dvd h.pos h.page

/-- A region has a first block, and it is a boundary or a pool page. -/
lemma Region.Ok.first (h : r.Ok) :
    ∃ b B, r.blocks = b :: B ∧ b.addr = r.base ∧ (b.start = true ∨ b.kind.isPool = true) := by
  have htiles := h.tiles
  cases hblocks : r.blocks with
  | nil =>
    rw [hblocks] at htiles
    exact absurd htiles h.lt.ne
  | cons b B =>
    rw [hblocks] at htiles
    refine ⟨b, B, rfl, htiles.1, ?_⟩
    rcases h.body with hbody | ⟨-, bin, used, -, hpool⟩
    · left
      rw [hbody.starts b (by simp [hblocks]), decide_eq_true htiles.1]
    · right
      rw [hpool, List.cons.injEq] at hblocks
      rw [← hblocks.1]
      rfl

lemma coalesced_splice (hM : M ≠ []) : Coalesced (A ++ M ++ B) ↔
    Coalesced A ∧ Coalesced M ∧ Coalesced B ∧
      (∀ b ∈ A.getLast?, ∀ c ∈ M.head?, ¬ (b.kind = .free ∧ c.kind = .free)) ∧
      ∀ b ∈ M.getLast?, ∀ c ∈ B.head?, ¬ (b.kind = .free ∧ c.kind = .free) := by
  simp only [Coalesced, List.append_assoc, List.isChain_append, List.head?_append_of_ne_nil _ hM]
  tauto

/-- **Blocks of a region are exchanged** for others on the same stretch. -/
lemma BlockRegion.replace {base stop : ℕ} (h : BlockRegion ⟨base, stop, A ++ M ++ B⟩)
    (htiles : ∀ p q, Tiles Block.addr Block.stop p M q → Tiles Block.addr Block.stop p M' q)
    (hkinds : ∀ b ∈ M', b.kind = .free ∨ b.kind = .used)
    (hstarts : ∀ b ∈ M', b.start = decide (b.addr = base))
    (hsizes : ∀ b ∈ M', heapAlignment ∣ b.size) (hinside : ∀ b ∈ M', b.payload < stop)
    (hcoal : Coalesced (A ++ M' ++ B)) : BlockRegion ⟨base, stop, A ++ M' ++ B⟩ := by
  have hmem : ∀ b ∈ A ++ M' ++ B, b ∈ A ++ M ++ B ∨ b ∈ M' := by
    intro b hb
    simp only [List.mem_append] at hb ⊢
    tauto
  exact
    { tiles := h.tiles.replace htiles
      kinds := fun b hb => (hmem b hb).elim (h.kinds b) (hkinds b)
      starts := fun b hb => (hmem b hb).elim (h.starts b) (hstarts b)
      sizes := fun b hb => (hmem b hb).elim (h.sizes b) (hsizes b)
      inside := fun b hb => (hmem b hb).elim (h.inside b) (hinside b)
      coalesced := hcoal }

end Region

/-! ## Blocks of the heap -/

section Regions

variable {rs X Y : List Region} {r r' : Region} {b : Block}

/-- **The blocks of the regions do not overlap.** -/
lemma RegionsOk.spread (h : RegionsOk rs) : Spread (heapBlocks rs) where
  apart := by
    refine List.pairwise_flatMap.mpr ⟨fun r hr => ?_, ?_⟩
    · exact ((h.ok r hr).tiles.pairwise Block.addr_le_stop).imp .inl
    · refine h.apart.imp_of_mem fun {r s} hr hs hrs b hb c hc => ?_
      have hbr := (h.ok r hr).bounds hb
      have hcs := (h.ok s hs).bounds hc
      exact hrs.imp (fun hle => hbr.2.trans (hle.trans hcs.1)) fun hle =>
        hcs.2.trans (hle.trans hbr.1)
  low := fun b hb => by
    obtain ⟨r, hr, hb⟩ := mem_heapBlocks.mp hb
    exact (h.ok r hr).low.trans ((h.ok r hr).bounds hb).1
  small := fun b hb => by
    obtain ⟨r, hr, hb⟩ := mem_heapBlocks.mp hb
    exact ((h.ok r hr).bounds hb).2.trans_lt (h.ok r hr).small

lemma RegionsOk.perm (h : RegionsOk rs) (hp : rs.Perm X) : RegionsOk X :=
  ⟨fun r hr => h.ok r (hp.mem_iff.mpr hr), (hp.pairwise_iff fun {_ _} => Or.symm).mp h.apart⟩

/-- A region is exchanged for another one on the same range. -/
lemma RegionsOk.replace (h : RegionsOk (X ++ r :: Y)) (hok : r'.Ok) (hbase : r'.base = r.base)
    (hstop : r'.stop = r.stop) : RegionsOk (X ++ r' :: Y) := by
  refine ⟨fun s hs => ?_, ?_⟩
  · rcases List.mem_append.mp hs with hs | hs
    · exact h.ok s (by simp [hs])
    · rcases List.mem_cons.mp hs with rfl | hs
      · exact hok
      · exact h.ok s (by simp [hs])
  · have hXY := List.pairwise_append.mp h.apart
    have hrY := List.pairwise_cons.mp hXY.2.1
    refine List.pairwise_append.mpr ⟨hXY.1, List.pairwise_cons.mpr ⟨fun s hs => ?_, hrY.2⟩, ?_⟩
    · have := hrY.1 s hs
      rwa [Region.Apart, ← hbase, ← hstop] at this
    · intro s hs t ht
      rcases List.mem_cons.mp ht with rfl | ht
      · have := hXY.2.2 s hs r (by simp)
        rwa [Region.Apart, ← hbase, ← hstop] at this
      · exact hXY.2.2 s hs t (by simp [ht])

lemma RegionsOk.sublist (h : RegionsOk rs) (hsub : X.Sublist rs) : RegionsOk X :=
  ⟨fun s hs => h.ok s (hsub.subset hs), h.apart.sublist hsub⟩

/-- A region is taken away. -/
lemma RegionsOk.erase (h : RegionsOk (X ++ r :: Y)) : RegionsOk (X ++ Y) := h.sublist (by simp)

/-- A region is added at the end. -/
lemma RegionsOk.append (h : RegionsOk rs) (hok : r.Ok)
    (hfresh : ∀ s ∈ rs, s.Apart r) : RegionsOk (rs ++ [r]) := by
  refine ⟨fun s hs => ?_, List.pairwise_append.mpr ⟨h.apart, List.pairwise_singleton _ _, ?_⟩⟩
  · rcases List.mem_append.mp hs with hs | hs
    · exact h.ok s hs
    · exact List.mem_singleton.mp hs ▸ hok
  · intro s hs t ht
    exact List.mem_singleton.mp ht ▸ hfresh s hs

/-- A pool page is not in the range of another region. -/
lemma RegionsOk.not_mem_range (h : RegionsOk rs) (hr : r ∈ rs) (hr' : r' ∈ rs) (hne : r ≠ r') :
    ¬ (r.base ≤ r'.base ∧ r'.base < r.stop) := by
  have : Std.Symm Region.Apart := ⟨fun _ _ => Or.symm⟩
  have hapart : r.Apart r' := h.apart.forall hr hr' hne
  have := (h.ok r' hr').lt
  rcases hapart with hle | hle <;> omega

/-- The blocks `M` inside a region, between `A` and `B`. -/
def around (X : List Region) (base stop : ℕ) (A M B : List Block) (Y : List Region) : List Region :=
  X ++ ⟨base, stop, A ++ M ++ B⟩ :: Y

lemma heapBlocks_around (base stop : ℕ) (A M B : List Block) :
    heapBlocks (around X base stop A M B Y) = (heapBlocks X ++ A) ++ M ++ (B ++ heapBlocks Y) := by
  simp [around, heapBlocks_split]

lemma ranges_around (base stop : ℕ) (A M M' B : List Block) :
    ((around X base stop A M' B Y).map fun r => (r.base, r.stop - r.base)) =
      (around X base stop A M B Y).map fun r => (r.base, r.stop - r.base) := by
  simp [around]

lemma RegionsOk.of_around {base stop : ℕ} {A M M' B : List Block}
    (h : RegionsOk (around X base stop A M B Y)) (hok : BlockRegion ⟨base, stop, A ++ M' ++ B⟩) :
    RegionsOk (around X base stop A M' B Y) := by
  have hr := h.ok ⟨base, stop, A ++ M ++ B⟩ (by simp [around])
  exact RegionsOk.replace h ⟨hr.pos, hr.page, hr.lt, hr.small, .inl hok⟩ rfl rfl

/-- The region of a block that is not a pool page. -/
lemma RegionsOk.exists_region (h : RegionsOk rs) (hb : b ∈ heapBlocks rs)
    (hk : b.kind.isPool = false) : ∃ X base stop A B Y,
      rs = around X base stop A [b] B Y ∧ BlockRegion ⟨base, stop, A ++ [b] ++ B⟩ := by
  obtain ⟨r, hr, hbr⟩ := mem_heapBlocks.mp hb
  obtain ⟨X, Y, rfl⟩ := List.append_of_mem hr
  obtain ⟨A, B, hblocks⟩ := List.append_of_mem hbr
  have hregion : (⟨r.base, r.stop, A ++ [b] ++ B⟩ : Region) = r := by
    rw [List.append_assoc, List.singleton_append, ← hblocks]
  refine ⟨X, r.base, r.stop, A, B, Y, by rw [around, hregion], ?_⟩
  rw [hregion]
  refine (h.ok r hr).body.resolve_right ?_
  rintro ⟨-, bin, used, -, hpool⟩
  rw [hpool, List.mem_singleton] at hbr
  rw [hbr] at hk
  exact absurd hk (by simp [BlockKind.isPool])

end Regions

end Cuore
