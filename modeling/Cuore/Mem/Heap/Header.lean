import Cuore.Mem.Heap
import Mathlib.Order.Interval.Set.Basic
import Mathlib.Order.Disjoint
import Mathlib.Data.Set.Lattice

/-!
# Block headers in memory

Each field of a header is written by a store into its 48 bytes.  What a header says after such a
write is what it said before with the field changed, and the headers that lie apart from it say
what they said before; every later argument about headers is made from these two facts.
-/

namespace Cuore

open Memory

/-! ## The bytes of a header -/

/-- The bytes of a header. -/
def headerRange (b : ℕ) : Set ℕ := Set.Ico b (b + bhSize)

/-- Two headers do not overlap. -/
def HeaderApart (b c : ℕ) : Prop := b + bhSize ≤ c ∨ c + bhSize ≤ b

lemma HeaderApart.symm {b c : ℕ} (h : HeaderApart b c) : HeaderApart c b := Or.symm h

lemma HeaderApart.disjoint {b c : ℕ} (h : HeaderApart b c) :
    Disjoint (headerRange b) (headerRange c) := by
  refine Set.disjoint_left.mpr fun x hb hc => ?_
  simp only [headerRange, Set.mem_Ico] at hb hc
  rcases h with h | h <;> omega

/-- A header depends on its own bytes only. -/
lemma readHeader_congr {S : Set ℕ} {m m' : Memory} {b : ℕ} (h : SameOutside S m m')
    (hd : Disjoint (headerRange b) S) : readHeader m' b = readHeader m b := by
  have hload : ∀ off n, off + n ≤ bhSize → m'.load (b + off) n = m.load (b + off) n :=
    fun off n hle => h.load_eq (hd.mono_left (Set.Ico_subset_Ico (by omega) (by omega)))
  rw [readHeader, readHeader, hload 4 4 (by decide), hload 8 8 (by decide), hload 16 8 (by decide),
    hload 24 4 (by decide), hload 32 8 (by decide), hload 40 8 (by decide)]
  congr 1
  exact hload 0 4 (by decide)

lemma readHeader_next_lt (m : Memory) (b : ℕ) : (readHeader m b).next < word := m.load_lt _ 8

lemma readHeader_prev_lt (m : Memory) (b : ℕ) : (readHeader m b).prev < word := m.load_lt _ 8

/-! ## Writing a field -/

lemma pow_four_bytes : 256 ^ 4 = 2 ^ 32 := by decide

lemma pow_eight_bytes : 256 ^ 8 = word := by decide

section Fields

variable (m : Memory) {b c v : ℕ}

/-- A store inside a header. -/
lemma sameOutside_headerStore {off n : ℕ} (h : off + n ≤ bhSize) (v : ℕ) :
    SameOutside (headerRange b) m (m.store (b + off) n v) :=
  (sameOutside_store m _ n v).mono (Set.Ico_subset_Ico (by omega) (by omega))

lemma sameOutside_clearHeader : SameOutside (headerRange b) m (clearHeader m b) :=
  sameOutside_fill m b bhSize 0

lemma sameOutside_setMagic : SameOutside (headerRange b) m (setMagic m b v) :=
  @sameOutside_headerStore m b 0 4 (by decide) v

lemma sameOutside_setFlags : SameOutside (headerRange b) m (setFlags m b v) :=
  sameOutside_headerStore m (by decide) v

lemma sameOutside_setSize : SameOutside (headerRange b) m (setSize m b v) :=
  sameOutside_headerStore m (by decide) v

lemma sameOutside_setBinSize : SameOutside (headerRange b) m (setBinSize m b v) :=
  sameOutside_headerStore m (by decide) v

lemma sameOutside_setUsedSlots : SameOutside (headerRange b) m (setUsedSlots m b v) :=
  sameOutside_headerStore m (by decide) v

lemma sameOutside_setNext : SameOutside (headerRange b) m (setNext m b v) :=
  sameOutside_headerStore m (by decide) v

lemma sameOutside_setPrev : SameOutside (headerRange b) m (setPrev m b v) :=
  sameOutside_headerStore m (by decide) v

lemma sameOutside_bhSetFree : SameOutside (headerRange b) m (bhSetFree m b) :=
  sameOutside_setFlags m

lemma sameOutside_bhClrFree : SameOutside (headerRange b) m (bhClrFree m b) :=
  sameOutside_setFlags m

@[simp] lemma readHeader_clearHeader : readHeader (clearHeader m b) b = ⟨0, 0, 0, 0, 0, 0, 0⟩ := by
  simp (disch := omega) only [readHeader, clearHeader, bhSize, load_fill_zero]

@[simp] lemma readHeader_setMagic :
    readHeader (setMagic m b v) b = { readHeader m b with magic := v % 2 ^ 32 } := by
  simp (disch := omega) only [readHeader, setMagic, load_store_self, load_store_of_disjoint,
    pow_four_bytes]

@[simp] lemma readHeader_setFlags :
    readHeader (setFlags m b v) b = { readHeader m b with flags := v % 2 ^ 32 } := by
  simp (disch := omega) only [readHeader, setFlags, load_store_self, load_store_of_disjoint,
    pow_four_bytes]

@[simp] lemma readHeader_setSize :
    readHeader (setSize m b v) b = { readHeader m b with size := v % word } := by
  simp (disch := omega) only [readHeader, setSize, load_store_self, load_store_of_disjoint,
    pow_eight_bytes]

@[simp] lemma readHeader_setBinSize :
    readHeader (setBinSize m b v) b = { readHeader m b with binSize := v % word } := by
  simp (disch := omega) only [readHeader, setBinSize, load_store_self, load_store_of_disjoint,
    pow_eight_bytes]

@[simp] lemma readHeader_setUsedSlots :
    readHeader (setUsedSlots m b v) b = { readHeader m b with usedSlots := v % 2 ^ 32 } := by
  simp (disch := omega) only [readHeader, setUsedSlots, load_store_self, load_store_of_disjoint,
    pow_four_bytes]

@[simp] lemma readHeader_setNext :
    readHeader (setNext m b v) b = { readHeader m b with next := v % word } := by
  simp (disch := omega) only [readHeader, setNext, load_store_self, load_store_of_disjoint,
    pow_eight_bytes]

@[simp] lemma readHeader_setPrev :
    readHeader (setPrev m b v) b = { readHeader m b with prev := v % word } := by
  simp (disch := omega) only [readHeader, setPrev, load_store_self, load_store_of_disjoint,
    pow_eight_bytes]

variable (h : HeaderApart c b)
include h

@[simp] lemma readHeader_clearHeader_apart : readHeader (clearHeader m b) c = readHeader m c :=
  readHeader_congr (sameOutside_clearHeader m) h.disjoint

@[simp] lemma readHeader_setMagic_apart : readHeader (setMagic m b v) c = readHeader m c :=
  readHeader_congr (sameOutside_setMagic m) h.disjoint

@[simp] lemma readHeader_setFlags_apart : readHeader (setFlags m b v) c = readHeader m c :=
  readHeader_congr (sameOutside_setFlags m) h.disjoint

@[simp] lemma readHeader_setSize_apart : readHeader (setSize m b v) c = readHeader m c :=
  readHeader_congr (sameOutside_setSize m) h.disjoint

@[simp] lemma readHeader_setBinSize_apart : readHeader (setBinSize m b v) c = readHeader m c :=
  readHeader_congr (sameOutside_setBinSize m) h.disjoint

@[simp] lemma readHeader_setUsedSlots_apart : readHeader (setUsedSlots m b v) c = readHeader m c :=
  readHeader_congr (sameOutside_setUsedSlots m) h.disjoint

@[simp] lemma readHeader_setNext_apart : readHeader (setNext m b v) c = readHeader m c :=
  readHeader_congr (sameOutside_setNext m) h.disjoint

@[simp] lemma readHeader_setPrev_apart : readHeader (setPrev m b v) c = readHeader m c :=
  readHeader_congr (sameOutside_setPrev m) h.disjoint

end Fields

end Cuore
