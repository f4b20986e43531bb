import Mathlib.Data.List.Basic
import Mathlib.Data.List.GetD
import Mathlib.Data.UInt
import Mathlib.Tactic.Ring
import Mathlib.Order.CompletePartialOrder
import Mathlib.Data.Set.Lattice

/-!
# Byte-addressed memory and little-endian integers

A memory is a function from addresses to bytes.  Multi-byte objects are little-endian, as on
the machine the kernel runs on: `load m a n` is the integer in the `n` bytes at `a`, and
`store m a n v` overwrites these bytes with those of `v`.  The read-over-write lemmas
`load_store_self` and `load_store_of_disjoint` are the interface; `load_congr` and
`store_of_outside` are what the frame arguments use.  `SameAt` is agreement on a range of bytes, for
statements about what a function reads.  `fill` is `memset` and `copyFrom` is `memcpy`.

`leBytes n v` is the same encoding as a list, for images that are built as byte strings, and
`Holds m a bs` says that a byte string stands in memory at `a`, and `put` writes one.  `Holds`
splits over concatenation (`holds_append`), so the fields of a packed structure are read off its
encoding one by one.
-/

namespace Cuore

/-- Byte-addressed memory. -/
abbrev Memory := ℕ → UInt8

namespace Memory

/-! ## Integers in memory -/

/-- The little-endian integer in the `n` bytes at `a`. -/
def load (m : Memory) (a : ℕ) : ℕ → ℕ
  | 0 => 0
  | n + 1 => (m a).toNat + 256 * load m (a + 1) n

/-- Overwrite the `n` bytes at `a` with the little-endian bytes of `v`. -/
def store (m : Memory) (a n v : ℕ) : Memory :=
  fun x => if a ≤ x ∧ x < a + n then UInt8.ofNat (v / 256 ^ (x - a)) else m x

lemma load_congr {m m' : Memory} {a n : ℕ} (h : ∀ x, a ≤ x → x < a + n → m x = m' x) :
    load m a n = load m' a n := by
  induction n generalizing a with
  | zero => rfl
  | succ n ih =>
    rw [load, load, h a le_rfl (by omega), ih (fun x h1 h2 => h x (by omega) (by omega))]

/-- The memories have the same bytes in the `r.2` bytes at `r.1`. -/
def SameAt (m m' : Memory) (r : ℕ × ℕ) : Prop := ∀ x, r.1 ≤ x → x < r.1 + r.2 → m x = m' x

lemma SameAt.mono {m m' : Memory} {a b n k : ℕ} (h : SameAt m m' (a, n)) (hle : a ≤ b)
    (hend : b + k ≤ a + n) : SameAt m m' (b, k) := fun x hx hx' =>
  h x (hle.trans hx) (by dsimp only at hx' ⊢; omega)

lemma SameAt.load_eq {m m' : Memory} {a n : ℕ} (h : SameAt m m' (a, n)) :
    load m a n = load m' a n := load_congr h

lemma load_eq_of_range' {m m' : Memory} {a n : ℕ} (h : ∀ r ∈ List.range' a n, m r = m' r) :
    load m a n = load m' a n :=
  load_congr fun x hx hx' => h x (List.mem_range'_1.mpr ⟨hx, hx'⟩)

/-- The same bytes at two places are the same integer. -/
lemma load_eq_load {m m' : Memory} {a a' n : ℕ} (h : ∀ i < n, m (a + i) = m' (a' + i)) :
    load m a n = load m' a' n := by
  induction n generalizing a a' with
  | zero => rfl
  | succ n ih =>
    have hrest : load m (a + 1) n = load m' (a' + 1) n := ih fun i hi => by
      rw [Nat.add_assoc, Nat.add_assoc, Nat.add_comm 1 i]
      exact h (i + 1) (by omega)
    rw [load, load, hrest, show m a = m' a' from h 0 (by omega)]

lemma load_lt (m : Memory) (a n : ℕ) : load m a n < 256 ^ n := by
  induction n generalizing a with
  | zero => simp [load]
  | succ n ih =>
    have hb := (m a).toNat_lt
    have := ih (a + 1)
    rw [load, pow_succ]
    omega

lemma store_of_outside {m : Memory} {a n v x : ℕ} (h : x < a ∨ a + n ≤ x) :
    store m a n v x = m x := by
  rw [store, if_neg (by omega)]

lemma load_store_of_disjoint {m : Memory} {a b n k v : ℕ} (h : a + n ≤ b ∨ b + k ≤ a) :
    load (store m b k v) a n = load m a n :=
  load_congr fun _ _ _ => store_of_outside (by omega)

lemma load_store_self (m : Memory) (a n v : ℕ) : load (store m a n v) a n = v % 256 ^ n := by
  suffices h : ∀ k i, i + k = n → load (store m a n v) (a + i) k = v / 256 ^ i % 256 ^ k by
    simpa using h n 0 (by omega)
  intro k
  induction k with
  | zero => intro i _; simp [load, Nat.mod_one]
  | succ k ih =>
    intro i hi
    have hbyte : (store m a n v (a + i)).toNat = v / 256 ^ i % 256 := by
      rw [store, if_pos (by omega), Nat.add_sub_cancel_left, UInt8.toNat_ofNat']
    have hrest : load (store m a n v) (a + i + 1) k = v / 256 ^ i / 256 % 256 ^ k := by
      rw [Nat.add_assoc, ih (i + 1) (by omega), pow_succ, Nat.div_div_eq_div_mul]
    rw [load, hbyte, hrest, pow_succ', Nat.mod_mul]

/-! ## The bytes at an address -/

/-- The `n` bytes at `a`. -/
def bytesAt (m : Memory) (a n : ℕ) : List UInt8 := (List.range n).map fun i => m (a + i)

lemma bytesAt_congr {m m' : Memory} {a a' n : ℕ} (h : ∀ i < n, m (a + i) = m' (a' + i)) :
    m.bytesAt a n = m'.bytesAt a' n :=
  List.map_congr_left fun i hi => h i (List.mem_range.mp hi)

lemma SameAt.bytesAt_eq {m m' : Memory} {a n : ℕ} (h : SameAt m m' (a, n)) :
    m.bytesAt a n = m'.bytesAt a n :=
  bytesAt_congr fun i hi => h (a + i) (Nat.le_add_right a i) (by dsimp only; omega)

lemma bytesAt_succ (m : Memory) (a n : ℕ) :
    m.bytesAt a (n + 1) = m a :: m.bytesAt (a + 1) n := by
  rw [bytesAt, List.range_succ_eq_map, List.map_cons, List.map_map, Nat.add_zero, bytesAt]
  congr 1
  refine List.map_congr_left fun i _ => ?_
  rw [Function.comp_apply, Nat.add_assoc, Nat.succ_eq_add_one, Nat.add_comm 1]

lemma mem_bytesAt {m : Memory} {a n : ℕ} {c : UInt8} :
    c ∈ m.bytesAt a n ↔ ∃ i < n, m (a + i) = c := by
  simp [bytesAt]

/-! ## Filling and copying -/

/-- `memset`: the `n` bytes at `a` become `b`. -/
def fill (m : Memory) (a n : ℕ) (b : UInt8) : Memory :=
  fun x => if a ≤ x ∧ x < a + n then b else m x

lemma fill_of_outside {m : Memory} {a n : ℕ} {b : UInt8} {x : ℕ} (h : x < a ∨ a + n ≤ x) :
    fill m a n b x = m x := by
  rw [fill, if_neg (by omega)]

lemma fill_of_inside {m : Memory} {a n : ℕ} {b : UInt8} {x : ℕ} (h : a ≤ x) (h' : x < a + n) :
    fill m a n b x = b := by
  rw [fill, if_pos ⟨h, h'⟩]

lemma load_fill_of_disjoint {m : Memory} {a c n k : ℕ} {b : UInt8} (h : a + n ≤ c ∨ c + k ≤ a) :
    load (fill m c k b) a n = load m a n :=
  load_congr fun _ _ _ => fill_of_outside (by omega)

lemma load_fill_zero {m : Memory} {a c n k : ℕ} (h : c ≤ a) (h' : a + n ≤ c + k) :
    load (fill m c k 0) a n = 0 := by
  induction n generalizing a with
  | zero => rfl
  | succ n ih =>
    rw [load, fill_of_inside h (by omega), ih (by omega) (by omega)]
    rfl

/-- `memcpy` from another memory: the `n` bytes at `a` become those of `src` at `b` and on. -/
def copyFrom (m : Memory) (a n : ℕ) (src : Memory) (b : ℕ) : Memory :=
  fun x => if a ≤ x ∧ x < a + n then src (b + (x - a)) else m x

lemma copyFrom_of_outside {m src : Memory} {a b n x : ℕ} (h : x < a ∨ a + n ≤ x) :
    copyFrom m a n src b x = m x := by
  rw [copyFrom, if_neg (by omega)]

lemma copyFrom_of_inside {m src : Memory} {a b n x : ℕ} (h : a ≤ x) (h' : x < a + n) :
    copyFrom m a n src b x = src (b + (x - a)) := by
  rw [copyFrom, if_pos ⟨h, h'⟩]

lemma copyFrom_congr {m src src' : Memory} {a b n : ℕ} (h : SameAt src src' (b, n)) :
    copyFrom m a n src b = copyFrom m a n src' b := by
  funext x
  rw [copyFrom, copyFrom]
  split_ifs with hx
  · exact h _ (Nat.le_add_right _ _) (by dsimp only; omega)
  · rfl

/-- The bytes outside `S` are the same. -/
def SameOutside (S : Set ℕ) (m m' : Memory) : Prop := ∀ x, x ∉ S → m' x = m x

lemma SameOutside.refl (S : Set ℕ) (m : Memory) : SameOutside S m m := fun _ _ => rfl

lemma SameOutside.trans {S T : Set ℕ} {m m' m'' : Memory} (h : SameOutside S m m')
    (h' : SameOutside T m' m'') : SameOutside (S ∪ T) m m'' := fun x hx =>
  (h' x fun hT => hx (.inr hT)).trans (h x fun hS => hx (.inl hS))

lemma SameOutside.trans_self {S : Set ℕ} {m m' m'' : Memory} (h : SameOutside S m m')
    (h' : SameOutside S m' m'') : SameOutside S m m'' := fun x hx => (h' x hx).trans (h x hx)

lemma SameOutside.mono {S T : Set ℕ} {m m' : Memory} (h : SameOutside S m m') (hST : S ⊆ T) :
    SameOutside T m m' := fun x hx => h x fun hS => hx (hST hS)

lemma sameOutside_store (m : Memory) (a n v : ℕ) :
    SameOutside (Set.Ico a (a + n)) m (m.store a n v) := fun x hx =>
  store_of_outside (by rw [Set.mem_Ico] at hx; omega)

lemma sameOutside_fill (m : Memory) (a n : ℕ) (b : UInt8) :
    SameOutside (Set.Ico a (a + n)) m (m.fill a n b) := fun x hx =>
  fill_of_outside (by rw [Set.mem_Ico] at hx; omega)

lemma SameOutside.load_eq {S : Set ℕ} {m m' : Memory} {a n : ℕ} (h : SameOutside S m m')
    (hd : Disjoint (Set.Ico a (a + n)) S) : m'.load a n = m.load a n :=
  load_congr fun x hx hx' => h x (Set.disjoint_left.mp hd ⟨hx, hx'⟩)

end Memory

/-! ## Byte strings -/

/-- The `n` little-endian bytes of `v`. -/
def leBytes : ℕ → ℕ → List UInt8
  | 0, _ => []
  | n + 1, v => UInt8.ofNat v :: leBytes n (v / 256)

@[simp] lemma length_leBytes (n v : ℕ) : (leBytes n v).length = n := by
  induction n generalizing v with
  | zero => rfl
  | succ n ih => simp [leBytes, ih]

/-- The byte string `bs` stands in memory at `a`. -/
def Holds (m : Memory) : ℕ → List UInt8 → Prop
  | _, [] => True
  | a, b :: bs => m a = b ∧ Holds m (a + 1) bs

lemma holds_append {m : Memory} {a : ℕ} {bs cs : List UInt8} :
    Holds m a (bs ++ cs) ↔ Holds m a bs ∧ Holds m (a + bs.length) cs := by
  induction bs generalizing a with
  | nil => simp [Holds]
  | cons b bs ih =>
    rw [List.cons_append, Holds, Holds, ih, List.length_cons, and_assoc]
    rw [show a + 1 + bs.length = a + (bs.length + 1) by omega]

lemma holds_iff_getElem {m : Memory} {a : ℕ} {bs : List UInt8} :
    Holds m a bs ↔ ∀ i (h : i < bs.length), m (a + i) = bs[i] := by
  induction bs generalizing a with
  | nil => simp [Holds]
  | cons b bs ih =>
    rw [Holds, ih]
    constructor
    · rintro ⟨h0, h⟩ i hi
      cases i with
      | zero => exact h0
      | succ i =>
        have := h i (by simpa using hi)
        rwa [show a + 1 + i = a + (i + 1) by omega] at this
    · intro h
      refine ⟨h 0 (by simp), fun i hi => ?_⟩
      have := h (i + 1) (by simpa using hi)
      rwa [show a + (i + 1) = a + 1 + i by omega] at this

/-- A little-endian integer that stands in memory is what `load` reads. -/
lemma Holds.load_leBytes {m : Memory} {a n v : ℕ} (h : Holds m a (leBytes n v)) :
    m.load a n = v % 256 ^ n := by
  induction n generalizing a v with
  | zero => simp [Memory.load, Nat.mod_one]
  | succ n ih =>
    rw [leBytes, Holds] at h
    have hbyte : (UInt8.ofNat v).toNat = v % 256 := UInt8.toNat_ofNat'
    rw [Memory.load, h.1, ih h.2, hbyte, pow_succ', Nat.mod_mul]

/-- A field of `n` bytes is what its first `i` bytes and the rest of them spell. -/
lemma Memory.load_add (m : Memory) (a i n : ℕ) :
    m.load a (i + n) = m.load a i + 256 ^ i * m.load (a + i) n := by
  induction i generalizing a with
  | zero => simp [Memory.load]
  | succ i ih =>
    rw [show i + 1 + n = (i + n) + 1 by omega, Memory.load, Memory.load, ih (a + 1), pow_succ,
      show a + 1 + i = a + (i + 1) by omega]
    ring

/-- The byte string `bs` is written at `a`. -/
def Memory.put (m : Memory) (a : ℕ) (bs : List UInt8) : Memory :=
  fun x => if a ≤ x then bs.getD (x - a) (m x) else m x

namespace Memory

variable {m : Memory} {a : ℕ} {s l : List UInt8}

lemma put_of_outside {x : ℕ} (h : x < a ∨ a + s.length ≤ x) : m.put a s x = m x := by
  unfold put
  split_ifs with hle
  · rw [List.getD_eq_default _ _ (by omega)]
  · rfl

lemma put_of_inside {i : ℕ} (h : i < s.length) : m.put a s (a + i) = s[i] := by
  rw [put, if_pos (Nat.le_add_right _ _), Nat.add_sub_cancel_left, List.getD_eq_getElem _ _ h]

@[simp] lemma put_nil : m.put a [] = m := by
  funext x
  exact put_of_outside (by rw [List.length_nil]; omega)

/-- Writing on. -/
lemma put_put : (m.put a l).put (a + l.length) s = m.put a (l ++ s) := by
  funext x
  rcases Nat.lt_or_ge x (a + l.length) with hlt | hge
  · rw [put_of_outside (.inl hlt)]
    unfold put
    split_ifs with hle
    · rw [List.getD_append _ _ _ _ (by omega)]
    · rfl
  · rw [put, if_pos hge, put_of_outside (.inr hge), put, if_pos (by omega),
      List.getD_append_right _ _ _ _ (by omega), Nat.sub_add_eq]

lemma holds_put : Holds (m.put a s) a s :=
  holds_iff_getElem.mpr fun _ h => put_of_inside h

end Memory

end Cuore
