import Cuore.Mem.Heap.Run

/-!
# The block list of a run

What a heap in order looks like from its headers: each range of the heap is tiled by blocks, the
list links them all, and no two pieces of memory that somebody counts on overlap.  Runs without a
short split keep this (`heapRun_sound`).

One short split is enough to lose it.  On the heap of two pages, a block of 208 bytes is grown by
16: the new header covers the `next` of the old one before that is read, so the list ends there and
the pool pages are not in it any more (`heapRun_shortSplit_unsound`).
-/

namespace Cuore

open Memory

/-- A piece of memory that is counted on: a header, a free block, or what a client holds. -/
inductive HeapPiece
  | header (b : Block)
  | free (b : Block)
  | held (ptr : ℕ)

/-- Where the piece is, and how long. -/
def HeapPiece.range (h : Heap) : HeapPiece → ℕ × ℕ
  | header b => (b.addr, bhSize)
  | free b => (b.payload, b.size)
  | held ptr => (ptr, capacity h ptr)

/-- The pieces of a heap with the regions `rs`. -/
def HeapPiece.In (rs : List Region) (held : List ℕ) : HeapPiece → Prop
  | .header b => b ∈ heapBlocks rs
  | .free b => b ∈ heapBlocks rs ∧ b.kind = .free
  | .held ptr => ptr ∈ held

/-- **The block list is sound**: the blocks of the regions `rs` are the list, they tile the ranges
of the heap, no two free ones are adjacent, and the pieces are apart and aligned. -/
structure HeapSound (h : Heap) (held : List ℕ) (rs : List Region) : Prop where
  list : BlockRep h (heapBlocks rs)
  owned : h.owned = rs.map fun r => (r.base, r.stop - r.base)
  apart : rs.Pairwise Region.Apart
  tiles : ∀ r ∈ rs, r.base < r.stop ∧ Tiles Block.addr Block.stop r.base r.blocks r.stop
  starts : ∀ r ∈ rs, (∀ b ∈ r.blocks, b.start = decide (b.addr = r.base)) ∨
    ∃ b, r.blocks = [b] ∧ b.kind.isPool = true
  coalesced : ∀ r ∈ rs, Coalesced r.blocks
  disjoint : ∀ u v : HeapPiece, u.In rs held → v.In rs held → u ≠ v →
    (u.range h).1 + (u.range h).2 ≤ (v.range h).1 ∨ (v.range h).1 + (v.range h).2 ≤ (u.range h).1
  aligned : ∀ u : HeapPiece, u.In rs held → heapAlignment ∣ (u.range h).1

section

variable {h : Heap} {rs : List Region} {F : ℕ → List ℕ} {held : List ℕ} {p n : ℕ}

/-! ## Alignment -/

lemma dvd_addr_of_tiles {l : List Block} {a z : ℕ} (ht : Tiles Block.addr Block.stop a l z)
    (ha : heapAlignment ∣ a) (hl : ∀ b ∈ l, heapAlignment ∣ b.size) :
    ∀ b ∈ l, heapAlignment ∣ b.addr := by
  induction l generalizing a with
  | nil => simp
  | cons b l ih =>
    obtain ⟨rfl, ht⟩ := ht
    have hstop : heapAlignment ∣ b.stop :=
      Nat.dvd_add (Nat.dvd_add ha (by decide)) (hl b (by simp))
    intro c hc
    rcases List.mem_cons.mp hc with rfl | hc
    · exact ha
    · exact ih ht hstop (fun d hd => hl d (by simp [hd])) c hc

/-- Headers are aligned. -/
lemma RegionsOk.dvd_addr (hrs : RegionsOk rs) {b : Block} (hb : b ∈ heapBlocks rs) :
    heapAlignment ∣ b.addr := by
  obtain ⟨r, hr, hbr⟩ := mem_heapBlocks.mp hb
  have hbase : heapAlignment ∣ r.base :=
    (show heapAlignment ∣ pageSize by decide).trans (hrs.ok r hr).page
  refine dvd_addr_of_tiles (hrs.ok r hr).tiles hbase (fun c hc => ?_) b hbr
  rcases (hrs.ok r hr).body with hbody | ⟨-, bin, used, -, hblocks⟩
  · exact hbody.sizes c hc
  · rw [hblocks, List.mem_singleton] at hc
    subst hc
    exact (show heapAlignment ∣ pageSize - bhSize by decide)

/-- Allocations are aligned. -/
lemma Live.dvd (hp : Live (heapBlocks rs) F p n) (hrs : RegionsOk rs) : heapAlignment ∣ p := by
  rcases hp with ⟨b, hb, -, rfl, -⟩ | ⟨b, hb, used, hk, hs, -⟩
  · exact Nat.dvd_add (hrs.dvd_addr hb) (by decide)
  · obtain ⟨i, -, rfl⟩ := mem_slotsOf.mp hs
    have hbin : heapAlignment ∣ n := by
      have := (hrs.pool_region hb hk).1
      simp only [poolSizes, List.mem_cons, List.not_mem_nil, or_false] at this
      rcases this with rfl | rfl | rfl <;> decide
    exact Nat.dvd_add (Nat.dvd_add (hrs.dvd_addr hb) (by decide)) (hbin.mul_left i)

/-! ## Pieces -/

/-- The block that a piece lies in. -/
lemma InOrder.carrier (hh : InOrder h held rs F) {u : HeapPiece} (hu : u.In rs held) :
    ∃ b ∈ heapBlocks rs, b.addr ≤ (u.range h).1 ∧ (u.range h).1 + (u.range h).2 ≤ b.stop ∧
      (u = .header b ∨ b.payload ≤ (u.range h).1 ∧
        (u = .free b ∧ b.kind = .free ∨ b.kind ≠ .free ∧ ∃ p, u = .held p)) := by
  cases u with
  | header b =>
    refine ⟨b, hu, le_rfl, ?_, .inl rfl⟩
    simp only [HeapPiece.range, Block.stop]
    omega
  | free b => exact ⟨b, hu.1, Nat.le_add_right _ _, le_rfl, .inr ⟨le_rfl, .inl ⟨rfl, hu.2⟩⟩⟩
  | held p =>
    obtain ⟨n, hn⟩ := (hh.2 p).mp hu
    obtain ⟨b, hb, hk, hle, hle'⟩ := hn.bounds hh.1.regions
    simp only [HeapPiece.range, hh.1.capacity_eq hn]
    refine ⟨b, hb, (Nat.le_add_right _ _).trans hle, hle', .inr ⟨hle, .inr ⟨hk, p, rfl⟩⟩⟩

/-- **Pieces do not overlap.** -/
lemma InOrder.pieces_apart (hh : InOrder h held rs F) {u v : HeapPiece} (hu : u.In rs held)
    (hv : v.In rs held) (hne : u ≠ v) :
    (u.range h).1 + (u.range h).2 ≤ (v.range h).1 ∨
      (v.range h).1 + (v.range h).2 ≤ (u.range h).1 := by
  obtain ⟨b, hb, hub, hub', hub''⟩ := hh.carrier hu
  obtain ⟨c, hc, hvc, hvc', hvc''⟩ := hh.carrier hv
  rcases eq_or_ne b c with rfl | hbc
  · rcases hub'' with rfl | ⟨hpu, hub''⟩
    · rcases hvc'' with rfl | ⟨hpv, -⟩
      · exact absurd rfl hne
      · exact .inl hpv
    rcases hvc'' with rfl | ⟨hpv, hvc''⟩
    · exact .inr hpu
    rcases hub'' with ⟨rfl, hfree⟩ | ⟨hk, p, rfl⟩
    · rcases hvc'' with ⟨rfl, -⟩ | ⟨hk, -⟩
      · exact absurd rfl hne
      · exact absurd hfree hk
    · rcases hvc'' with ⟨-, hfree⟩ | ⟨-, q, rfl⟩
      · exact absurd hfree hk
      · obtain ⟨n, hn⟩ := (hh.2 p).mp hu
        obtain ⟨k, hk⟩ := (hh.2 q).mp hv
        simp only [HeapPiece.range, hh.1.capacity_eq hn, hh.1.capacity_eq hk]
        exact hn.apart hh.1.regions hk fun heq => hne (heq ▸ rfl)
  · rcases hh.1.regions.spread.of_mem hb hc hbc with hle | hle
    · exact .inl (hub'.trans (hle.trans hvc))
    · exact .inr (hvc'.trans (hle.trans hub))

lemma InOrder.sound (hh : InOrder h held rs F) : HeapSound h held rs where
  list := hh.1.blocks
  owned := hh.1.owned
  apart := hh.1.regions.apart
  tiles := fun r hr => ⟨(hh.1.regions.ok r hr).lt, (hh.1.regions.ok r hr).tiles⟩
  starts := fun r hr => by
    rcases (hh.1.regions.ok r hr).body with hbody | ⟨-, bin, used, -, hblocks⟩
    · exact .inl hbody.starts
    · exact .inr ⟨_, hblocks, rfl⟩
  coalesced := fun r hr => by
    rcases (hh.1.regions.ok r hr).body with hbody | ⟨-, bin, used, -, hblocks⟩
    · exact hbody.coalesced
    · rw [hblocks]
      exact List.isChain_singleton _
  disjoint := fun _ _ hu hv hne => hh.pieces_apart hu hv hne
  aligned := fun u hu => by
    cases u with
    | header b => exact hh.1.regions.dvd_addr hu
    | free b => exact Nat.dvd_add (hh.1.regions.dvd_addr hu.1) (by decide)
    | held p =>
      obtain ⟨n, hn⟩ := (hh.2 p).mp hu
      exact hn.dvd hh.1.regions

/-- **A run without a short split keeps the block list sound.** -/
theorem heapRun_sound (hr : HeapRun HeapOp.Safe h held) : ∃ rs, HeapSound h held rs := by
  obtain ⟨rs, F, hh⟩ := hr.inOrder
  exact ⟨rs, hh.sound⟩

end

/-- After a block is allocated, and one that is freed again. -/
theorem heapRun_sound_boot : ∃ h held, HeapRun HeapOp.Safe h held ∧
    held = [0xFFFF800100000030] ∧ ∃ rs, HeapSound h held rs := by
  obtain ⟨s, hrun, hheld⟩ := @bootReplay_value HeapOp.Safe _ [.malloc 208 [], .malloc 64 [],
    .realloc 0xFFFF800100000030 300 [], .free 0xFFFF800100003FB0] _ Prod.snd
    [0xFFFF800100000030] (by decide +kernel)
  exact ⟨s.1, s.2, hrun, hheld, heapRun_sound hrun⟩

/-! ## A short split -/

section

variable {h : Heap} {rs : List Region} {held : List ℕ}

/-- Each range of the heap has a block. -/
lemma length_le_heapBlocks (hne : ∀ r ∈ rs, r.blocks ≠ []) :
    rs.length ≤ (heapBlocks rs).length := by
  induction rs with
  | nil => simp
  | cons r rs ih =>
    have hr := List.length_pos_of_ne_nil (hne r (by simp))
    have hrest := ih fun q hq => hne q (by simp [hq])
    simp only [heapBlocks, List.flatMap_cons, List.length_append, List.length_cons] at hrest ⊢
    omega

lemma HeapSound.length_owned_le (hs : HeapSound h held rs) :
    h.owned.length ≤ (heapBlocks rs).length := by
  rw [hs.owned, List.length_map]
  refine length_le_heapBlocks fun r hr hnil => ?_
  obtain ⟨hlt, htiles⟩ := hs.tiles r hr
  rw [hnil] at htiles
  exact absurd htiles hlt.ne

/-- No block is at null. -/
lemma HeapSound.addr_pos (hs : HeapSound h held rs) (howned : ∀ o ∈ h.owned, 0 < o.1) {b : Block}
    (hb : b ∈ heapBlocks rs) : 0 < b.addr := by
  obtain ⟨r, hr, hbr⟩ := mem_heapBlocks.mp hb
  have hbase := howned (r.base, r.stop - r.base) (hs.owned ▸ List.mem_map_of_mem hr)
  exact hbase.trans_le ((hs.tiles r hr).2.bounds Block.addr_le_stop hbr).1

/-- The list of a heap of more than two ranges goes on behind its second block. -/
lemma HeapSound.third (hs : HeapSound h held rs) (howned : ∀ o ∈ h.owned, 0 < o.1)
    (hlen : 2 < h.owned.length) :
    (readHeader h.mem (readHeader h.mem h.head).next).next ≠ 0 := by
  have hlist := hs.list
  have hpos : ∀ b ∈ heapBlocks rs, 0 < b.addr := fun b hb => hs.addr_pos howned hb
  have hlong := hlen.trans_le hs.length_owned_le
  match hL : heapBlocks rs with
  | [] | [a] | [a, b] =>
    rw [hL] at hlong
    exact absurd hlong (by simp)
  | a :: b :: c :: L =>
    rw [hL] at hlist hpos
    obtain ⟨ha, hb, -⟩ := hlist.linked
    have hhead : h.head = a.addr := hlist.head
    rw [hhead, show (readHeader h.mem a.addr).next = b.addr from congrArg BlockHeader.next ha,
      show (readHeader h.mem b.addr).next = c.addr from congrArg BlockHeader.next hb]
    exact (hpos c (by simp)).ne'

end

/-- **A short split loses the rest of the list.**  The block of 208 bytes at the start of the heap
is grown by 16. -/
theorem heapRun_shortSplit_unsound :
    ¬ ∀ h held, HeapRun (fun _ _ => True) h held → ∃ rs, HeapSound h held rs := by
  intro hall
  obtain ⟨s, hrun, hs⟩ := @bootReplay_value (fun _ _ => True) _ [.malloc 208 [],
    .realloc 0xFFFF800100000030 224 []] _ (fun s => (s.1.owned.length,
      s.1.owned.all fun o => decide (0 < o.1),
      (readHeader s.1.mem (readHeader s.1.mem s.1.head).next).next)) (4, true, 0)
    (by decide +kernel)
  simp only [Prod.mk.injEq, List.all_eq_true, decide_eq_true_eq] at hs
  obtain ⟨hlen, howned, hnext⟩ := hs
  obtain ⟨rs, hsound⟩ := hall s.1 s.2 hrun
  exact hsound.third howned (by omega) hnext

end Cuore
