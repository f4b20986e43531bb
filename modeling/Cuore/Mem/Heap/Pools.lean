import Cuore.Mem.Heap.Regions
import Cuore.Framework.Threaded
import Mathlib.Data.List.Perm.Basic
import Mathlib.Logic.Function.Basic

/-!
# The pools of the heap

A pool page is cut into slots of its `bin` bytes.  The free slots of a size are threaded through
their own first words, and the page of a slot is the page that the slot lies in.

`PoolRep h L F` says that `F bin` are the free slots of each size, that they are slots of the pool
pages in the list `L`, and that a page counts the slots that are not free.
-/

namespace Cuore

open Memory

/-! ## Slots -/

/-- The slots of the pool page at `page`. -/
def slotsOf (page bin : ℕ) : List ℕ :=
  (List.range (slotCount bin)).map fun i => page + bhSize + i * bin

lemma pageBase_eq_alignDown {x : ℕ} (hx : x < word) : pageBase x = alignDown pageSize x :=
  @and_wnot_pred 12 x (by decide) hx

lemma pageBase_eq {x a : ℕ} (ha : pageSize ∣ a) (hle : a ≤ x) (hlt : x < a + pageSize)
    (hx : x < word) : pageBase x = a := by
  have hdiv := (div_eq_div_iff_of_dvd (by decide) ha).mpr ⟨hle, hlt⟩
  rw [pageBase_eq_alignDown hx, alignDown, hdiv, Nat.div_mul_cancel ha]

lemma mem_slotsOf {page bin s : ℕ} :
    s ∈ slotsOf page bin ↔ ∃ i < slotCount bin, s = page + bhSize + i * bin := by
  simp [slotsOf, eq_comm]

lemma slotsOf_nodup (page : ℕ) {bin : ℕ} (hbin : 0 < bin) : (slotsOf page bin).Nodup := by
  refine List.Nodup.map_on (fun i _ j _ hij => ?_) List.nodup_range
  exact Nat.eq_of_mul_eq_mul_right hbin (Nat.add_left_cancel hij)

/-- A slot lies in the payload of its page. -/
lemma slot_bounds {page bin s : ℕ} (hs : s ∈ slotsOf page bin) :
    page + bhSize ≤ s ∧ s + bin ≤ page + pageSize := by
  obtain ⟨i, hi, rfl⟩ := mem_slotsOf.mp hs
  have hmul : (i + 1) * bin ≤ slotCount bin * bin := Nat.mul_le_mul_right bin hi
  have hcount : slotCount bin * bin ≤ pageSize - bhSize := Nat.div_mul_le_self _ _
  rw [Nat.succ_mul] at hmul
  simp only [pageSize, bhSize] at hcount ⊢
  omega

/-- Two slots of a page do not overlap. -/
lemma slot_apart {page bin s t : ℕ} (hs : s ∈ slotsOf page bin) (ht : t ∈ slotsOf page bin)
    (hne : s ≠ t) : s + bin ≤ t ∨ t + bin ≤ s := by
  obtain ⟨i, -, rfl⟩ := mem_slotsOf.mp hs
  obtain ⟨j, -, rfl⟩ := mem_slotsOf.mp ht
  rcases lt_trichotomy i j with hij | rfl | hij
  · have := Nat.mul_le_mul_right bin (show i + 1 ≤ j from hij)
    rw [Nat.succ_mul] at this
    omega
  · exact absurd rfl hne
  · have := Nat.mul_le_mul_right bin (show j + 1 ≤ i from hij)
    rw [Nat.succ_mul] at this
    omega

lemma slotCount_pos {bin : ℕ} (h : bin ∈ poolSizes) :
    8 ≤ bin ∧ bin < word ∧ slotCount bin < 2 ^ 32 := by
  simp only [poolSizes, List.mem_cons, List.not_mem_nil, or_false] at h
  rcases h with rfl | rfl | rfl <;> decide

/-! ## The free lists -/

/-- The link of a free slot. -/
def slotLink (m : Memory) (s : ℕ) : ℕ := m.load s 8

/-- Pools of the sizes `bins`, with the free slots `F` of each size. -/
structure PoolsOf (bins : List ℕ) (h : Heap) (L : List Block) (F : ℕ → List ℕ) : Prop where
  sizes : h.pools.map FixedPool.blockSize = bins
  threaded : ∀ p ∈ h.pools, Threaded (slotLink h.mem) p.freeList (F p.blockSize)
  nodup : ∀ bin ∈ bins, (F bin).Nodup
  slot : ∀ bin ∈ bins, ∀ s ∈ F bin,
    ∃ b ∈ L, ∃ used, b.kind = .pool bin used ∧ s ∈ slotsOf b.addr bin
  count : ∀ b ∈ L, ∀ bin used, b.kind = .pool bin used →
    used + (F bin).countP (fun s => pageBase s = b.addr) = slotCount bin
  registry : h.poolPageRegistry.Perm ((L.filter fun b => b.kind.isPool).map Block.addr)

/-- **The pools of the heap**, with the free slots `F` of each size. -/
abbrev PoolRep : Heap → List Block → (ℕ → List ℕ) → Prop := PoolsOf poolSizes

end Cuore
