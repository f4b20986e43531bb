import Cuore.Mem.Heap.Header
import Cuore.Framework.Links
import Mathlib.Data.List.Pairwise

/-!
# The block list of the heap

A `Block` is what a header says apart from its links.  `BlockRep h L` says that the block list of
the heap is `L`: the headers stand in memory, linked both ways, `head` and `tail` are its ends, and
`last_fit` is null or in it.

Headers are written one at a time, and a header that is written must not lie in another one.  So
every change of the list is stated for a list that is `Spread` before and after it: its blocks do
not overlap.  The bytes that the changes write are the `spareBytes` of the list before: headers,
and the payloads of free blocks.
-/

namespace Cuore

open Memory

/-! ## Blocks -/

/-- What a block is used for: a pool block serves slots of `bin` bytes, `used` of them taken. -/
inductive BlockKind
  | free
  | used
  | pool (bin used : ℕ)
  deriving DecidableEq, Repr

/-- A block: what its header says, apart from the links. -/
structure Block where
  addr : ℕ
  size : ℕ
  start : Bool
  kind : BlockKind
  deriving DecidableEq, Repr

namespace Block

variable (b c : Block)

/-- The address behind the block. -/
def stop : ℕ := b.addr + bhSize + b.size

/-- Where the block lies. -/
def extent : ℕ × ℕ := (b.addr, b.size)

/-- The payload of the block. -/
def payload : ℕ := b.addr + bhSize

/-- The flags of the block. -/
def flags : ℕ :=
  (if b.start then bhBoundaryStart else 0) +
    match b.kind with
    | .free => bhFree
    | .used => 0
    | .pool _ _ => bhPoolBlock

/-- `bin_size` of the block. -/
def bin : ℕ :=
  match b.kind with
  | .pool bin _ => bin
  | _ => 0

/-- `used_slots` of the block. -/
def usedSlots : ℕ :=
  match b.kind with
  | .pool _ used => used
  | _ => 0

/-- The header of the block between `p` and `q`. -/
def header (p q : ℕ) : BlockHeader := ⟨heapMagic, b.flags, b.size, b.bin, b.usedSlots, q, p⟩

/-- The blocks do not overlap. -/
def Apart : Prop := b.stop ≤ c.addr ∨ c.stop ≤ b.addr

variable {b c}

lemma Apart.symm (h : b.Apart c) : c.Apart b := Or.symm h

lemma Apart.header (h : b.Apart c) : HeaderApart b.addr c.addr := by
  rcases h with h | h <;> simp only [stop] at h
  · exact .inl (by omega)
  · exact .inr (by omega)

lemma flags_lt : b.flags < 2 ^ 32 := by
  rw [flags]
  cases b.start <;> cases b.kind <;> simp [bhFree, bhBoundaryStart, bhPoolBlock]

lemma flags_and_free : (b.flags &&& bhFree != 0) = decide (b.kind = .free) := by
  rw [flags]
  cases b.start <;> cases b.kind <;> simp [bhFree, bhBoundaryStart, bhPoolBlock]

lemma flags_and_pool : (b.flags &&& bhPoolBlock != 0) =
    decide (b.kind ≠ .free ∧ b.kind ≠ .used) := by
  rw [flags]
  cases b.start <;> cases b.kind <;> simp [bhFree, bhBoundaryStart, bhPoolBlock]

lemma flags_and_start : (b.flags &&& bhBoundaryStart != 0) = b.start := by
  rw [flags]
  cases b.start <;> cases b.kind <;> simp [bhFree, bhBoundaryStart, bhPoolBlock]

/-- A used block becomes free by `BH_SET_FREE`. -/
lemma flags_or_free (h : b.kind = .used) : b.flags ||| bhFree = { b with kind := .free }.flags := by
  simp only [flags, h]
  cases b.start <;> decide

/-- A free block becomes used by `BH_CLR_FREE`. -/
lemma flags_and_not_free (h : b.kind = .free) :
    b.flags &&& (2 ^ 32 - 1 - bhFree) = { b with kind := .used }.flags := by
  simp only [flags, h]
  cases b.start <;> decide

end Block

/-- The header of `b` is in memory, between `p` and `q`. -/
def BlockAt (m : Memory) (p : ℕ) (b : Block) (q : ℕ) : Prop := readHeader m b.addr = b.header p q

/-- The blocks `l` are linked in memory, between `p` and `q`. -/
def BlockList (m : Memory) (p : ℕ) (l : List Block) (q : ℕ) : Prop :=
  Linked Block.addr (BlockAt m) p l q

section BlockAt

variable {m m' : Memory} {p q : ℕ} {b : Block}

lemma BlockAt.isFree (h : BlockAt m p b q) : bhIsFree m b.addr = decide (b.kind = .free) := by
  rw [bhIsFree, h]
  exact Block.flags_and_free

lemma BlockAt.isPool (h : BlockAt m p b q) :
    bhIsPool m b.addr = decide (b.kind ≠ .free ∧ b.kind ≠ .used) := by
  rw [bhIsPool, h]
  exact Block.flags_and_pool

lemma BlockAt.isBoundary (h : BlockAt m p b q) : bhIsBoundary m b.addr = b.start := by
  rw [bhIsBoundary, h]
  exact Block.flags_and_start

lemma BlockAt.congr (h : BlockAt m p b q) (heq : readHeader m' b.addr = readHeader m b.addr) :
    BlockAt m' p b q := by
  rw [BlockAt, heq]
  exact h

end BlockAt

/-! ## Lists of blocks -/

/-- The blocks do not overlap, and they lie in the address space. -/
structure Spread (L : List Block) : Prop where
  apart : L.Pairwise Block.Apart
  low : ∀ b ∈ L, pageSize ≤ b.addr
  small : ∀ b ∈ L, b.stop < word

/-- The bytes of the headers. -/
def headersOf (L : List Block) : Set ℕ := {x | ∃ b ∈ L, x ∈ headerRange b.addr}

/-- The bytes of the headers and of the free blocks. -/
def spareBytes (L : List Block) : Set ℕ :=
  {x | ∃ b ∈ L, x ∈ headerRange b.addr ∨ b.kind = .free ∧ b.addr ≤ x ∧ x < b.stop}

lemma headersOf_subset_spareBytes (L : List Block) : headersOf L ⊆ spareBytes L :=
  fun _ ⟨b, hb, hx⟩ => ⟨b, hb, .inl hx⟩

section Spread

variable {L P S : List Block} {b c : Block}

lemma Spread.pos (h : Spread L) (hb : b ∈ L) : 0 < b.addr :=
  (show 0 < pageSize by decide).trans_le (h.low b hb)

lemma Spread.of_mem (h : Spread L) (hb : b ∈ L) (hc : c ∈ L) (hne : b ≠ c) : b.Apart c :=
  have : Std.Symm Block.Apart := ⟨fun _ _ => Block.Apart.symm⟩
  h.apart.forall hb hc hne

lemma Spread.addr_inj (h : Spread L) (hb : b ∈ L) (hc : c ∈ L) (heq : b.addr = c.addr) : b = c := by
  by_contra hne
  have := (h.of_mem hb hc hne).header
  simp only [HeaderApart, bhSize] at this
  omega

lemma Spread.sublist (h : Spread L) (hsub : P.Sublist L) : Spread P :=
  ⟨h.apart.sublist hsub, fun b hb => h.low b (hsub.subset hb),
    fun b hb => h.small b (hsub.subset hb)⟩

lemma Spread.of_append (h : Spread (P ++ S)) (hb : b ∈ P) (hc : c ∈ S) : b.Apart c :=
  (List.pairwise_append.mp h.apart).2.2 b hb c hc

/-- A block is at no other block's address. -/
lemma Spread.addr_ne {M : List Block} (h : Spread (P ++ M ++ S)) (hb : b ∈ M) (hc : c ∈ P ++ S) :
    c.addr ≠ b.addr := by
  have hapart : c.Apart b := by
    rcases List.mem_append.mp hc with hc | hc
    · exact Spread.of_append (P := P) (S := M ++ S) (by simpa using h) hc (by simp [hb])
    · exact (h.of_append (b := b) (by simp [hb]) hc).symm
  have := hapart.header
  simp only [HeaderApart, bhSize] at this
  omega

lemma Spread.addr_lt (h : Spread L) (hb : b ∈ L) : b.addr < word := by
  have := h.small b hb
  simp only [Block.stop] at this
  omega

lemma Spread.firstAddr_lt (h : Spread L) : firstAddr Block.addr L 0 < word := by
  cases L with
  | nil => decide
  | cons b L => exact h.addr_lt (by simp)

lemma Spread.eq_nil (h : Spread L) (hz : firstAddr Block.addr L 0 = 0) : L = [] := by
  cases L with
  | nil => rfl
  | cons b L => exact absurd hz (h.pos (by simp)).ne'

/-- Where the blocks lie is all that counts. -/
lemma Spread.of_map (h : Spread L) (heq : P.map Block.extent = L.map Block.extent) : Spread P := by
  have hmem : ∀ b ∈ P, ∃ c ∈ L, c.addr = b.addr ∧ c.stop = b.stop := fun b hb => by
    have hext : b.extent ∈ L.map Block.extent := heq ▸ List.mem_map_of_mem hb
    obtain ⟨c, hc, hcb⟩ := List.mem_map.mp hext
    simp only [Block.extent, Prod.mk.injEq] at hcb
    exact ⟨c, hc, hcb.1, by rw [Block.stop, Block.stop, hcb.1, hcb.2]⟩
  have hapart : ∀ l : List Block, l.Pairwise Block.Apart ↔ (l.map Block.extent).Pairwise
      fun u v => u.1 + bhSize + u.2 ≤ v.1 ∨ v.1 + bhSize + v.2 ≤ u.1 := fun l => by
    rw [List.pairwise_map]
    rfl
  refine ⟨(hapart P).mpr (heq ▸ (hapart L).mp h.apart), fun b hb => ?_, fun b hb => ?_⟩
  · obtain ⟨c, hc, haddr, -⟩ := hmem b hb
    exact haddr ▸ h.low c hc
  · obtain ⟨c, hc, -, hstop⟩ := hmem b hb
    exact hstop ▸ h.small c hc

/-- The payload of a block that is not free is not spare. -/
lemma Spread.payload_not_spare {x : ℕ} (h : Spread L) (hb : b ∈ L) (hk : b.kind ≠ .free)
    (hle : b.payload ≤ x) (hlt : x < b.stop) : x ∉ spareBytes L := by
  rintro ⟨c, hc, hx⟩
  simp only [Block.payload] at hle
  rcases eq_or_ne b c with rfl | hne
  · rcases hx with hx | ⟨hfree, -⟩
    · simp only [headerRange, Set.mem_Ico] at hx
      omega
    · exact hk hfree
  · have hmem : c.addr ≤ x ∧ x < c.stop := by
      rcases hx with hx | ⟨-, hx⟩
      · simp only [headerRange, Set.mem_Ico] at hx
        exact ⟨hx.1, by simp only [Block.stop]; omega⟩
      · exact hx
    rcases h.of_mem hb hc hne with hapart | hapart <;> omega

end Spread

/-- **The block list of the heap.** -/
structure BlockRep (h : Heap) (L : List Block) : Prop where
  linked : BlockList h.mem 0 L 0
  head : h.head = firstAddr Block.addr L 0
  tail : h.tail = lastAddr Block.addr 0 L
  lastFit : h.lastFit = 0 ∨ ∃ b ∈ L, b.addr = h.lastFit

end Cuore
