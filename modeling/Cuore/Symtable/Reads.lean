import Cuore.Symtable

/-!
# What a symbol lookup reads (`symtable.c`)

`symtable_init` compares the size of the entries, computed in 64 bits, with the size of the blob,
and `symtable_lookup` compares the offset of a name with the size of what is behind the entries.
That the product did not wrap, and that the names end, is not checked.

`lookupReads` and `nameReads` list what the two lookups read of the blob.  A bisection can come to an
entry in one way only, past its `pivots`, and comes there if the name is on the entry's side of each
of them (`looks_iff`).  `searchSafe_iff` says which of the blobs that are accepted are safe: the
entries have to be inside, and a name that runs on to the end of the blob has to be shielded by one
of its pivots.  Pointers into the blob do not wrap, and of the entries that are not in it the first
is enough to tell.
-/

namespace Cuore.Symtable

/-! ## The accesses -/

/-- `n` bytes at `a` are in the blob. -/
def Inside (base total : ℕ) (r : ℕ × ℕ) : Prop := base ≤ r.1 ∧ r.1 + r.2 ≤ base + total

/-- What `symtable_lookup` reads, with an `out_addr`: address and offset of the entry. -/
def lookupReads (t : SymTable) (index : ℕ) : List (ℕ × ℕ) :=
  if t.entries = 0 ∨ index ≥ t.entryCount then []
  else [(t.entries + index * entrySize, 8), (t.entries + index * entrySize + 8, 4)]

/-- What the loop of `symtable_lookup_name` reads. -/
def searchReads (m : Memory) (t : SymTable) (name : List UInt8) : ℕ → ℕ → ℕ → List (ℕ × ℕ)
  | 0, _, _ => []
  | fuel + 1, low, high =>
    if low ≤ high then
      let mid := low + (high - low) / 2
      lookupReads t mid ++
        match symtableLookup m t mid with
        | (none, _) => []
        | (some symName, _) => (symName, strcmpReads m name symName) ::
          let res := strcmp m name symName
          if res = 0 then []
          else if res < 0 then
            if mid = 0 then [] else searchReads m t name fuel low (mid - 1)
          else searchReads m t name fuel (mid + 1) high
    else []

/-- What `symtable_lookup_name` reads of the blob. -/
def nameReads (m : Memory) (t : SymTable) (name : List UInt8) : List (ℕ × ℕ) :=
  if t.entryCount = 0 then []
  else searchReads m t name (t.entryCount + 1) 0 (t.entryCount - 1)

/-- Both lookups end, for every index and every name, and read inside the blob. -/
structure SearchSafe (m : Memory) (base total : ℕ) (t : SymTable) : Prop where
  lookup : ∀ index, ∀ r ∈ lookupReads t index, Inside base total r
  ends : ∀ name, symtableLookupName m t name ≠ none
  name : ∀ name, 0 ∉ name → ∀ r ∈ nameReads m t name, Inside base total r

/-! ## The entries that a search comes to -/

/-- The search for a name between two bounds comes to this entry. -/
inductive Looks (m : Memory) (t : SymTable) (name : List UInt8) : ℕ → ℕ → ℕ → Prop
  | here {low high : ℕ} (hle : low ≤ high) : Looks m t name low high (low + (high - low) / 2)
  | left {low high i p addr : ℕ} (hle : low ≤ high) (hpos : low + (high - low) / 2 ≠ 0)
      (hlookup : symtableLookup m t (low + (high - low) / 2) = (some p, addr))
      (hlt : strcmp m name p < 0) (h : Looks m t name low (low + (high - low) / 2 - 1) i) :
      Looks m t name low high i
  | right {low high i p addr : ℕ} (hle : low ≤ high)
      (hlookup : symtableLookup m t (low + (high - low) / 2) = (some p, addr))
      (hlt : 0 < strcmp m name p) (h : Looks m t name (low + (high - low) / 2 + 1) high i) :
      Looks m t name low high i

section Search

variable {m : Memory} {t : SymTable} {name : List UInt8} {fuel low high i : ℕ} {r : ℕ × ℕ}

lemma Looks.le (h : Looks m t name low high i) : low ≤ i ∧ i ≤ high := by
  induction h with
  | here hle => omega
  | left hle hpos hlookup hlt h ih => omega
  | right hle hlookup hlt h ih => omega

/-- The entries that every bisection between `low` and `high` looks at before it comes to `i`. -/
def pivots (i : ℕ) : ℕ → ℕ → ℕ → List ℕ
  | 0, _, _ => []
  | fuel + 1, low, high =>
    let mid := low + (high - low) / 2
    if i < mid then mid :: pivots i fuel low (mid - 1)
    else if mid < i then mid :: pivots i fuel (mid + 1) high
    else []

/-- The comparison of the name with entry `j` sends the search on to the side of entry `i`. -/
def Passes (m : Memory) (t : SymTable) (name : List UInt8) (i j : ℕ) : Prop :=
  ∃ p addr, symtableLookup m t j = (some p, addr) ∧ (i < j → strcmp m name p < 0) ∧
    (j < i → 0 < strcmp m name p)

/-- The search comes to an entry exactly if it passes all its pivots. -/
lemma looks_iff (hlow : low ≤ i) (hhigh : i ≤ high) (hfuel : high + 1 - low ≤ fuel) :
    Looks m t name low high i ↔ ∀ j ∈ pivots i fuel low high, Passes m t name i j := by
  induction fuel generalizing low high with
  | zero => omega
  | succ fuel ih =>
    rw [pivots]
    rcases Nat.lt_trichotomy i (low + (high - low) / 2) with hlt | heq | hlt
    · rw [if_pos hlt, List.forall_mem_cons, ← ih hlow (by omega) (by omega)]
      constructor
      · rintro (- | ⟨hle, hpos, hlookup, hcmp, h⟩ | ⟨hle, hlookup, hcmp, h⟩)
        · omega
        · exact ⟨⟨_, _, hlookup, fun _ => hcmp, fun hgt => by omega⟩, h⟩
        · have := h.le
          omega
      · rintro ⟨⟨p, addr, hlookup, hcmp, -⟩, h⟩
        exact .left (by omega) (by omega) hlookup (hcmp hlt) h
    · rw [if_neg (by omega), if_neg (by omega)]
      refine iff_of_true ?_ fun j hj => absurd hj List.not_mem_nil
      exact heq ▸ .here (by omega)
    · rw [if_neg (by omega), if_pos hlt, List.forall_mem_cons, ← ih (by omega) hhigh (by omega)]
      constructor
      · rintro (- | ⟨hle, hpos, hlookup, hcmp, h⟩ | ⟨hle, hlookup, hcmp, h⟩)
        · omega
        · have := h.le
          omega
        · exact ⟨⟨_, _, hlookup, fun hgt => by omega, fun _ => hcmp⟩, h⟩
      · rintro ⟨⟨p, addr, hlookup, -, hcmp⟩, h⟩
        exact .right (by omega) hlookup (hcmp hlt) h

/-- The search reads the entries that it comes to, and their names. -/
lemma mem_searchReads (h : r ∈ searchReads m t name fuel low high) :
    ∃ i, Looks m t name low high i ∧ (r ∈ lookupReads t i ∨
      ∃ p addr, symtableLookup m t i = (some p, addr) ∧ r = (p, strcmpReads m name p)) := by
  induction fuel generalizing low high with
  | zero => exact absurd h List.not_mem_nil
  | succ fuel ih =>
    rw [searchReads] at h
    split_ifs at h with hle
    · rcases List.mem_append.mp h with h | h
      · exact ⟨_, .here hle, .inl h⟩
      · split at h
        · exact absurd h List.not_mem_nil
        · rename_i p addr hlookup
          rcases List.mem_cons.mp h with h | h
          · exact ⟨_, .here hle, .inr ⟨p, addr, hlookup, h⟩⟩
          · dsimp only at h
            split_ifs at h with h0 hneg hmid
            · exact absurd h List.not_mem_nil
            · exact absurd h List.not_mem_nil
            · obtain ⟨i, hlooks, hr⟩ := ih h
              exact ⟨i, hlooks.left hle hmid hlookup hneg, hr⟩
            · obtain ⟨i, hlooks, hr⟩ := ih h
              exact ⟨i, hlooks.right hle hlookup (by omega), hr⟩
    · exact absurd h List.not_mem_nil

/-- What is compared with the name is read. -/
lemma Looks.mem_searchReads (h : Looks m t name low high i) (hfuel : high + 1 - low < fuel)
    {p addr : ℕ} (hp : symtableLookup m t i = (some p, addr)) :
    (p, strcmpReads m name p) ∈ searchReads m t name fuel low high := by
  induction h generalizing fuel with
  | here hle =>
    obtain ⟨fuel, rfl⟩ := Nat.exists_eq_add_one.mpr (Nat.zero_lt_of_lt hfuel)
    rw [searchReads, if_pos hle]
    simp [hp]
  | left hle hpos hlookup hlt h ih =>
    obtain ⟨fuel, rfl⟩ := Nat.exists_eq_add_one.mpr (Nat.zero_lt_of_lt hfuel)
    rw [searchReads, if_pos hle]
    simp only [hlookup, List.mem_append, List.mem_cons]
    rw [if_neg (by omega), if_pos hlt, if_neg hpos]
    exact .inr (.inr (ih (by omega) hp))
  | right hle hlookup hlt h ih =>
    obtain ⟨fuel, rfl⟩ := Nat.exists_eq_add_one.mpr (Nat.zero_lt_of_lt hfuel)
    rw [searchReads, if_pos hle]
    simp only [hlookup, List.mem_append, List.mem_cons]
    rw [if_neg (by omega), if_neg (by omega)]
    exact .inr (.inr (ih (by omega) hp))

/-- **The search ends**, on any table: each round leaves fewer entries. -/
lemma searchLoop_ne_none (hfuel : high + 1 - low < fuel) :
    searchLoop m t name fuel low high ≠ none := by
  induction fuel generalizing low high with
  | zero => omega
  | succ fuel ih =>
    rw [searchLoop]
    by_cases hle : low ≤ high
    · rw [if_pos hle]
      rcases hlookup : symtableLookup m t (low + (high - low) / 2) with ⟨_ | p, addr⟩
      · simp [hlookup]
      · simp only [hlookup]
        split_ifs
        · simp
        · simp
        · exact ih (by omega)
        · exact ih (by omega)
    · rw [if_neg hle]
      simp

lemma symtableLookupName_ne_none (m : Memory) (t : SymTable) (name : List UInt8) :
    symtableLookupName m t name ≠ none := by
  rw [symtableLookupName]
  split_ifs
  · simp
  · exact searchLoop_ne_none (by omega)

end Search

/-! ## Which blobs are safe -/

section Safe

variable {m : Memory} {t : SymTable} {base total : ℕ} {name : List UInt8}

/-- The name at `p` does not end in the blob. -/
def Unterminated (m : Memory) (base total p : ℕ) : Prop := ∀ x, p ≤ x → x < base + total → m x ≠ 0

/-- A name that does not end in the blob has a pivot that stops, or sends to the other side, every
search for a name that begins with it. -/
def NamesEnd (m : Memory) (base total : ℕ) (t : SymTable) : Prop :=
  ∀ i p addr, symtableLookup m t i = (some p, addr) → Unterminated m base total p →
    ∀ name, 0 ∉ name → m.bytesAt p (base + total - p) <+: name →
      ∃ j ∈ pivots i t.entryCount 0 (t.entryCount - 1), ¬ Passes m t name i j

/-- The table of a blob that is accepted. -/
structure Accepted (m : Memory) (base total : ℕ) (t : SymTable) : Prop where
  base_ne_zero : base ≠ 0
  le_total : 8 ≤ total
  size_le : wadd 8 (wmul (m.load base 8) entrySize) ≤ total
  entries : t.entries = base + 8
  stringBlob : t.stringBlob = base + wadd 8 (wmul (m.load base 8) entrySize)
  entryCount : t.entryCount = m.load base 8
  stringPoolMax : t.stringPoolMax = total - wadd 8 (wmul (m.load base 8) entrySize)

lemma accepted_of_symtableInit (h : symtableInit m base total = some t) :
    Accepted m base total t := by
  rw [symtableInit] at h
  dsimp only at h
  split_ifs at h with hargs hsize
  rw [not_or, not_lt] at hargs
  obtain rfl := Option.some.inj h
  exact ⟨hargs.1, hargs.2, not_lt.mp hsize, rfl, rfl, rfl, rfl⟩

lemma symtableLookup_eq_some {i p addr : ℕ} (h : symtableLookup m t i = (some p, addr)) :
    i < t.entryCount ∧ ∃ offset < t.stringPoolMax, p = t.stringBlob + offset := by
  rw [symtableLookup] at h
  dsimp only at h
  split_ifs at h with hindex hoff
  · simp at h
  · simp at h
  · rw [not_or, not_le] at hindex
    exact ⟨hindex.2, _, not_le.mp hoff, (Option.some.inj (Prod.mk.inj h).1).symm⟩

/-- The first entry that is not inside shows a wrapped product. -/
lemma entries_le_of_lookup (h : symtableInit m base total = some t)
    (hlookup : ∀ index, ∀ r ∈ lookupReads t index, Inside base total r) :
    8 + m.load base 8 * entrySize ≤ total := by
  obtain ⟨hbase, htotal, -, hentries, -, hcount, -⟩ := accepted_of_symtableInit h
  by_contra hlong
  have hindex : (total - 8) / entrySize < m.load base 8 := by
    rw [Nat.div_lt_iff_lt_mul (by decide)]
    omega
  have hread := hlookup ((total - 8) / entrySize)
    (base + 8 + (total - 8) / entrySize * entrySize + 8, 4) (by
      rw [lookupReads, hentries, hcount, if_neg (by omega)]
      simp)
  have hdiv := Nat.lt_div_mul_add (a := total - 8) (show 0 < entrySize by decide)
  simp only [Inside, entrySize] at hread hdiv ⊢
  omega

/-- **Which accepted blobs are safe to search.**  The entries fit the blob, and every name that does
not end in it is shielded by one of its pivots. -/
theorem searchSafe_iff (h : symtableInit m base total = some t) :
    SearchSafe m base total t ↔
      8 + m.load base 8 * entrySize ≤ total ∧ NamesEnd m base total t := by
  constructor
  · intro hsafe
    refine ⟨entries_le_of_lookup h hsafe.lookup,
      fun i p addr hp hopen name hname hfront => ?_⟩
    by_contra hpass
    push Not at hpass
    have hi := (symtableLookup_eq_some hp).1
    have hlooks := (looks_iff (Nat.zero_le i) (by omega) (by omega)).mpr hpass
    have hmem : (p, strcmpReads m name p) ∈ nameReads m t name := by
      rw [nameReads, if_neg (by omega)]
      exact hlooks.mem_searchReads (by omega) hp
    have hinside := hsafe.name name hname _ hmem
    have hlong := (lt_strcmpReads_iff hname).mpr hfront
    simp only [Inside] at hinside
    omega
  · rintro ⟨hfit, hends⟩
    obtain ⟨hbase, htotal, hsize, hentries, hblob, hcount, hpool⟩ := accepted_of_symtableInit h
    have hlookup : ∀ index, ∀ r ∈ lookupReads t index, Inside base total r := by
      intro index r hr
      rw [lookupReads, hentries, hcount] at hr
      by_cases hindex : base + 8 = 0 ∨ index ≥ m.load base 8
      · rw [if_pos hindex] at hr
        exact absurd hr List.not_mem_nil
      · rw [if_neg hindex] at hr
        simp only [List.mem_cons, List.not_mem_nil, or_false, entrySize] at hr hfit
        rcases hr with rfl | rfl
        all_goals
          simp only [Inside]
          omega
    refine ⟨hlookup, symtableLookupName_ne_none m t, fun name hname r hr => ?_⟩
    rw [nameReads] at hr
    split_ifs at hr with hzero
    · exact absurd hr List.not_mem_nil
    · obtain ⟨i, hlooks, hr | ⟨p, addr, hp, rfl⟩⟩ := mem_searchReads hr
      · exact hlookup i r hr
      · obtain ⟨-, offset, hoff, rfl⟩ := symtableLookup_eq_some hp
        have hstart : t.stringBlob + offset < base + total ∧ base ≤ t.stringBlob := by omega
        rw [Inside]
        dsimp only
        by_contra hlong
        have hfront : m.bytesAt (t.stringBlob + offset) (base + total - (t.stringBlob + offset)) <+:
            name := (lt_strcmpReads_iff hname).mp (by omega)
        have hi := (symtableLookup_eq_some hp).1
        have hpass : ∀ j ∈ pivots i t.entryCount 0 (t.entryCount - 1), Passes m t name i j :=
          (looks_iff (Nat.zero_le i) (by omega) (by omega)).mp hlooks
        have hopen : Unterminated m base total (t.stringBlob + offset) := by
          intro x hx hx' h0
          refine hname (hfront.subset (Memory.mem_bytesAt.mpr
            ⟨x - (t.stringBlob + offset), by omega, ?_⟩))
          rw [Nat.add_sub_of_le hx, h0]
        obtain ⟨j, hj, hstop⟩ := hends i _ addr hp hopen name hname hfront
        exact hstop (hpass j hj)

end Safe

/-- A blob that ends behind its count, of `2 ^ 62` entries. -/
def wrappedBlob : Memory := fun x => (leBytes 8 (2 ^ 62)).getD (x - 0x100000) 0

lemma symtableInit_wrappedBlob : symtableInit wrappedBlob 0x100000 8 =
    some ⟨0x100008, 0x100008, 2 ^ 62, 0⟩ := by
  decide +kernel

/-- The size of the entries wraps to zero, and the first entry is behind the blob. -/
theorem not_searchSafe_wrappedBlob : ¬ ∀ m base total t, symtableInit m base total = some t →
    SearchSafe m base total t := by
  intro hall
  have hle := entries_le_of_lookup symtableInit_wrappedBlob
    (hall _ _ _ _ symtableInit_wrappedBlob).lookup
  exact absurd hle (by decide +kernel)

/-- Three entries: `a`, the byte `0xFF`, and a `z` that is the last byte of the blob. -/
def shieldedBytes : List UInt8 :=
  leBytes 8 3 ++ (leBytes 8 0x1000 ++ leBytes 4 0) ++ (leBytes 8 0x2000 ++ leBytes 4 2) ++
    (leBytes 8 0x3000 ++ leBytes 4 4) ++ [0x61, 0, 0xFF, 0, 0x7A]

/-- The blob in memory, with no zero byte behind it. -/
def shieldedBlob : Memory := fun x => shieldedBytes.getD (x - 0x100000) 0xFF

lemma symtableInit_shieldedBlob : symtableInit shieldedBlob 0x100000 49 =
    some ⟨0x100008, 0x10002C, 3, 5⟩ := by
  decide +kernel

lemma symtableLookup_shieldedBlob : ∀ i < 3, symtableLookup shieldedBlob
    ⟨0x100008, 0x10002C, 3, 5⟩ i = (some (0x10002C + 2 * i), 0x1000 * (i + 1)) := by
  decide +kernel

/-- A search for a name with `z` in front looks at `0xFF` first, and goes to the other side. -/
theorem searchSafe_shieldedBlob :
    SearchSafe shieldedBlob 0x100000 49 ⟨0x100008, 0x10002C, 3, 5⟩ := by
  refine (searchSafe_iff symtableInit_shieldedBlob).mpr ⟨by decide +kernel, ?_⟩
  intro i p addr hp hopen name hname hfront
  have hi : i < 3 := (symtableLookup_eq_some hp).1
  obtain ⟨hp', -⟩ := Prod.mk.inj ((symtableLookup_shieldedBlob i hi).symm.trans hp)
  obtain rfl := Option.some.inj hp'
  have hlast : i = 2 := by
    by_contra hne
    -- the first two names end
    have hzero : ∀ i < 2, shieldedBlob (0x10002C + 2 * i + 1) = 0 := by decide +kernel
    exact hopen _ (Nat.le_succ _) (by omega) (hzero i (by omega))
  subst hlast
  have hz : shieldedBlob.bytesAt 0x100030 1 = [0x7A] := by decide +kernel
  obtain ⟨rest, rfl⟩ : [0x7A] <+: name := hz ▸ hfront
  refine ⟨1, by decide, fun ⟨q, addr', hq, _, hcmp⟩ => ?_⟩
  obtain ⟨hq', -⟩ := Prod.mk.inj ((symtableLookup_shieldedBlob 1 (by decide)).symm.trans hq)
  obtain rfl := Option.some.inj hq'
  have hff : shieldedBlob 0x10002E = 0xFF := by decide +kernel
  have hneg : strcmp shieldedBlob ([0x7A] ++ rest) 0x10002E = 0x7A - 0xFF := by
    rw [List.singleton_append, strcmp, hff]
    rfl
  have hpos := hcmp (by decide)
  rw [show 0x10002C + 2 * 1 = 0x10002E from rfl, hneg] at hpos
  exact absurd hpos (by decide)

end Cuore.Symtable
