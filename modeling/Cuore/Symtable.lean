import Cuore.Framework.Word
import Cuore.Tools.Mksymtable

/-!
# Looking up kernel symbols (`symtable.c`)

`symtable_init` finds the entries and the names in the blob that `mksymtable.py` writes, and
`symtable_lookup_name` searches the entries for a name by bisection, with inclusive bounds.

`ReadsAs` is what a table in memory has to offer the search: every entry of a list of symbols, at
its place.  The search then needs the names to increase in the order of `strcmp`
(`searchLoop_of_mem`, `searchLoop_of_forall_ne`), which is the order that the packer sorts by.
-/

namespace Cuore.Symtable

open Mksymtable

/-! ## The decoder -/

/-- `struct SymTable`, with `k_string_pool_max`. -/
structure SymTable where
  entries : ℕ
  stringBlob : ℕ
  entryCount : ℕ
  stringPoolMax : ℕ
  deriving DecidableEq

/-- `sizeof(struct SymTableEntry)`, which is packed. -/
def entrySize : ℕ := 12

/-- `symtable_init`.  A panic is `none`. -/
def symtableInit (m : Memory) (tableBlob totalSize : ℕ) : Option SymTable :=
  if tableBlob = 0 ∨ totalSize < 8 then none
  else
    let count := m.load tableBlob 8
    let expectedEntriesSize := wmul count entrySize
    let headerPlusEntries := wadd 8 expectedEntriesSize
    if headerPlusEntries > totalSize then none
    else some ⟨tableBlob + 8, tableBlob + headerPlusEntries, count, totalSize - headerPlusEntries⟩

/-- `symtable_lookup`: the name, if there is one, and the address stored through `out_addr`. -/
def symtableLookup (m : Memory) (t : SymTable) (index : ℕ) : Option ℕ × ℕ :=
  if t.entries = 0 ∨ index ≥ t.entryCount then (none, 0)
  else
    let entry := t.entries + index * entrySize
    let address := m.load entry 8
    let stringOffset := m.load (entry + 8) 4
    if stringOffset ≥ t.stringPoolMax then (none, address)
    else (some (t.stringBlob + stringOffset), address)

/-- The loop of `symtable_lookup_name`. -/
def searchLoop (m : Memory) (t : SymTable) (name : List UInt8) : ℕ → ℕ → ℕ → Option ℕ
  | 0, _, _ => none
  | fuel + 1, low, high =>
    if low ≤ high then
      let mid := low + (high - low) / 2
      match symtableLookup m t mid with
      | (none, _) => some 0
      | (some symName, addr) =>
        let res := strcmp m name symName
        if res = 0 then some addr
        else if res < 0 then
          if mid = 0 then some 0 else searchLoop m t name fuel low (mid - 1)
        else searchLoop m t name fuel (mid + 1) high
    else some 0

/-- `symtable_lookup_name`.  Each round of the loop leaves fewer entries, so it ends within as many
rounds as there are entries, and one. -/
def symtableLookupName (m : Memory) (t : SymTable) (name : List UInt8) : Option ℕ :=
  if t.entryCount = 0 then some 0
  else searchLoop m t name (t.entryCount + 1) 0 (t.entryCount - 1)

/-! ## Searching -/

/-- The table in memory holds the symbols `l`, in this order. -/
structure ReadsAs (m : Memory) (t : SymTable) (l : List NmSymbol) : Prop where
  count : t.entryCount = l.length
  lookup : ∀ i (h : i < l.length), ∃ p, symtableLookup m t i = (some p, l[i].address) ∧
    Holds m p (encode l[i].name ++ [0])

section Search

variable {m : Memory} {t : SymTable} {l : List NmSymbol} {q : List UInt8}

/-- One round of the loop. -/
lemma ReadsAs.searchLoop_succ (h : ReadsAs m t l) (hl : ∀ s ∈ l, '\x00' ∉ s.name) (hq : 0 ∉ q)
    {fuel low high : ℕ} (hle : low ≤ high)
    (hmid : low + (high - low) / 2 < l.length) :
    searchLoop m t q (fuel + 1) low high =
      let mid := low + (high - low) / 2
      let res := compareBytes q (encode l[mid].name)
      if res = 0 then some l[mid].address
      else if res < 0 then
        if mid = 0 then some 0 else searchLoop m t q fuel low (mid - 1)
      else searchLoop m t q fuel (mid + 1) high := by
  obtain ⟨p, hp, hname⟩ := h.lookup _ hmid
  have hnul := zero_notMem_encode (hl _ (List.getElem_mem hmid))
  rw [searchLoop, if_pos hle]
  simp only [hp, strcmp_of_holds hq hnul hname]

/-- A name that is in the table within the bounds is found. -/
lemma ReadsAs.searchLoop_of_mem (h : ReadsAs m t l) (hl : ∀ s ∈ l, '\x00' ∉ s.name)
    (hsorted : l.Pairwise fun s s' => s.name < s'.name) {j : ℕ} (hj : j < l.length)
    {fuel low high : ℕ} (hhigh : high < l.length) (hlow : low ≤ j) (hjh : j ≤ high)
    (hfuel : high + 1 - low < fuel) :
    searchLoop m t (encode l[j].name) fuel low high = some l[j].address := by
  have hq := zero_notMem_encode (hl _ (List.getElem_mem hj))
  induction fuel generalizing low high with
  | zero => omega
  | succ fuel ih =>
    have hmid : low + (high - low) / 2 < l.length := by omega
    rw [h.searchLoop_succ hl hq (by omega) hmid]
    have hmid_le : low ≤ low + (high - low) / 2 ∧ low + (high - low) / 2 ≤ high := by omega
    generalize low + (high - low) / 2 = mid at hmid hmid_le
    have hget := List.pairwise_iff_getElem.mp hsorted
    rcases Nat.lt_trichotomy mid j with hlt | rfl | hlt
    · -- the name is behind the middle
      have hcmp := compareBytes_encode (hget mid j hmid hj hlt) (hl _ (List.getElem_mem hj))
      have hswap := compareBytes_swap (encode l[mid].name) (encode l[j].name)
      simp only
      rw [if_neg (by omega), if_neg (by omega)]
      exact ih hhigh (by omega) hjh (by omega)
    · simp only
      rw [if_pos (compareBytes_self _)]
    · have hcmp := compareBytes_encode (hget j mid hj hmid hlt) (hl _ (List.getElem_mem hmid))
      simp only
      rw [if_neg (by omega), if_pos hcmp, if_neg (by omega)]
      exact ih (by omega) hlow (by omega) (by omega)

/-- A name that is not in the table is not found. -/
lemma ReadsAs.searchLoop_of_forall_ne (h : ReadsAs m t l) (hl : ∀ s ∈ l, '\x00' ∉ s.name)
    (hq : 0 ∉ q) (hne : ∀ s ∈ l, q ≠ encode s.name) {fuel low high : ℕ} (hhigh : high < l.length)
    (hfuel : high + 1 - low < fuel) : searchLoop m t q fuel low high = some 0 := by
  induction fuel generalizing low high with
  | zero => omega
  | succ fuel ih =>
    by_cases hle : low ≤ high
    · have hmid : low + (high - low) / 2 < l.length := by omega
      rw [h.searchLoop_succ hl hq hle hmid]
      have hmid_le : low ≤ low + (high - low) / 2 ∧ low + (high - low) / 2 ≤ high := by omega
      generalize low + (high - low) / 2 = mid at hmid hmid_le
      have hmem := List.getElem_mem hmid
      simp only
      rw [if_neg fun h0 => hne _ hmem
        ((compareBytes_eq_zero_iff hq (zero_notMem_encode (hl _ hmem))).mp h0)]
      split_ifs
      · rfl
      · exact ih (by omega) (by omega)
      · exact ih hhigh (by omega)
    · rw [searchLoop, if_neg hle]

end Search

/-! ## The packed table -/

section Packed

variable {m : Memory} {base : ℕ}

/-- Entry `i` of the packed entries. -/
lemma holds_entriesFrom {l : List NmSymbol} {off : ℕ} {a : ℕ} (h : Holds m a (entriesFrom off l))
    (hfits : Fits off l) {i : ℕ} (hi : i < l.length) :
    m.load (a + i * entrySize) 8 = l[i].address ∧
      m.load (a + i * entrySize + 8) 4 = off + (pool (l.take i)).length ∧
      off + (pool (l.take i)).length < 2 ^ 32 := by
  induction l generalizing off a i with
  | nil => exact absurd hi (Nat.not_lt_zero _)
  | cons s l ih =>
    rw [entriesFrom, holds_append, holds_append, List.length_append, length_leBytes,
      length_leBytes] at h
    obtain ⟨⟨haddr, hoff⟩, hrest⟩ := h
    obtain ⟨hfa, hfo, hfr⟩ := hfits
    cases i with
    | zero =>
      rw [Nat.zero_mul, Nat.add_zero, haddr.load_leBytes, hoff.load_leBytes, List.take_zero]
      exact ⟨Nat.mod_eq_of_lt hfa, Nat.mod_eq_of_lt hfo, hfo⟩
    | succ i =>
      obtain ⟨h1, h2, h3⟩ := ih hrest hfr (Nat.lt_of_succ_lt_succ hi)
      have hpos : a + (i + 1) * entrySize = a + (8 + 4) + i * entrySize := by
        rw [entrySize]
        omega
      have hpool : (pool ((s :: l).take (i + 1))).length =
          (encode s.name ++ [0]).length + (pool (l.take i)).length := by
        rw [List.take_succ_cons, pool, List.flatMap_cons, List.length_append]
        rfl
      rw [hpos, h1, h2, hpool, ← Nat.add_assoc]
      exact ⟨rfl, rfl, h3⟩

/-- Name `i` of the pool. -/
lemma holds_pool {l : List NmSymbol} {a : ℕ} (h : Holds m a (pool l)) {i : ℕ} (hi : i < l.length) :
    Holds m (a + (pool (l.take i)).length) (encode l[i].name ++ [0]) ∧
      (pool (l.take i)).length < (pool l).length := by
  have hsplit : pool l = pool (l.take i) ++
    ((encode l[i].name ++ [0]) ++ pool (l.drop (i + 1))) := by
    conv_lhs => rw [← List.take_append_drop i l, List.drop_eq_getElem_cons hi]
    rw [pool, List.flatMap_append, List.flatMap_cons]
    rfl
  rw [hsplit, holds_append, holds_append] at h
  refine ⟨h.2.1, ?_⟩
  rw [hsplit, List.length_append, List.length_append, List.length_append, List.length_singleton]
  omega

/-- **`symtable_init` finds the packed table.** -/
lemma readsAs_symtableInit {l : List NmSymbol} (hbase : base ≠ 0) (hfits : Fits 0 l)
    (h : Holds m base (leBytes 8 l.length ++ entriesFrom 0 l ++ pool l)) :
    ∃ t, symtableInit m base (leBytes 8 l.length ++ entriesFrom 0 l ++ pool l).length = some t ∧
      ReadsAs m t l := by
  have hlen : (leBytes 8 l.length ++ entriesFrom 0 l ++ pool l).length =
      8 + 12 * l.length + (pool l).length := by
    rw [List.length_append, List.length_append, length_leBytes, length_entriesFrom]
  have hcount : l.length ≤ 2 ^ 32 := by
    rcases hfits.length_lt with rfl | hle
    · exact Nat.zero_le _
    · omega
  rw [holds_append, holds_append, List.length_append, length_leBytes, length_entriesFrom] at h
  obtain ⟨⟨hc, hes⟩, hpool⟩ := h
  have hload : m.load base 8 = l.length := by
    rw [hc.load_leBytes]
    exact Nat.mod_eq_of_lt (by omega)
  have hmul : wmul l.length entrySize = 12 * l.length := by
    rw [entrySize, wmul_of_lt (by simp only [word]; omega), Nat.mul_comm]
  have hadd : wadd 8 (12 * l.length) = 8 + 12 * l.length :=
    wadd_of_lt (by simp only [word]; omega)
  refine ⟨⟨base + 8, base + (8 + 12 * l.length), l.length, (pool l).length⟩, ?_, rfl,
    fun i hi => ?_⟩
  · rw [symtableInit, hlen, if_neg (by omega)]
    simp only [hload, hmul, hadd]
    rw [if_neg (by omega), Nat.add_sub_cancel_left]
  · obtain ⟨haddr, hoff, -⟩ := holds_entriesFrom hes hfits hi
    obtain ⟨hname, hlt⟩ := holds_pool hpool hi
    rw [Nat.zero_add] at hoff
    refine ⟨_, ?_, hname⟩
    rw [symtableLookup, if_neg (by dsimp only; omega)]
    simp only [haddr, hoff]
    rw [if_neg (by omega)]

end Packed

/-! ## The round trip -/

lemma sortSymbols_perm (l : List NmSymbol) : (sortSymbols l).Perm l := List.mergeSort_perm _ _

/-- Sorting by distinct names gives increasing names. -/
lemma sortSymbols_sorted {l : List NmSymbol} (h : (l.map NmSymbol.name).Nodup) :
    (sortSymbols l).Pairwise fun s s' => s.name < s'.name := by
  have htrans : ∀ a b c : NmSymbol, decide (a.name ≤ b.name) = true →
      decide (b.name ≤ c.name) = true → decide (a.name ≤ c.name) = true := fun a b c hab hbc =>
    decide_eq_true (le_trans (of_decide_eq_true hab) (of_decide_eq_true hbc))
  have htotal : ∀ a b : NmSymbol,
    (decide (a.name ≤ b.name) || decide (b.name ≤ a.name)) = true := by
    intro a b
    rw [Bool.or_eq_true, decide_eq_true_eq, decide_eq_true_eq]
    exact le_total a.name b.name
  have hle : (sortSymbols l).Pairwise fun s s' => decide (s.name ≤ s'.name) = true :=
    List.pairwise_mergeSort htrans htotal l
  have hne : (sortSymbols l).Pairwise fun s s' => s.name ≠ s'.name :=
    List.pairwise_map.mp (((sortSymbols_perm l).map _).nodup_iff.mpr h)
  exact (hle.and hne).imp fun h => lt_of_le_of_ne (of_decide_eq_true h.1) h.2

/-- **Symbol table round trip.**  For every list of symbols with distinct names without zero
characters: if their names fill less than `2 ^ 32` bytes and their addresses are words, then a table
is written; and the kernel, given a table that is written, finds every symbol of the list by its
name and no other name. -/
theorem symtable_roundtrip (nm : List NmSymbol) (hnodup : ((symbols nm).map NmSymbol.name).Nodup)
    (hnul : ∀ s ∈ symbols nm, '\x00' ∉ s.name) :
    ((∀ s ∈ symbols nm, s.address < 2 ^ 64) →
      ((symbols nm).map fun s => (encode s.name).length + 1).sum < 2 ^ 32 →
      ∃ blob, genTable nm = some blob) ∧
    ∀ blob, genTable nm = some blob → ∀ (m : Memory) (base : ℕ), base ≠ 0 → Holds m base blob →
      ∃ t, symtableInit m base blob.length = some t ∧
        (∀ s ∈ symbols nm, symtableLookupName m t (encode s.name) = some s.address) ∧
        ∀ q : List UInt8, 0 ∉ q → (∀ s ∈ symbols nm, q ≠ encode s.name) →
          symtableLookupName m t q = some 0 := by
  have hperm := sortSymbols_perm (symbols nm)
  have hsorted := sortSymbols_sorted hnodup
  have hgen := fun blob => @genTable_eq_some nm blob
  generalize sortSymbols (symbols nm) = l at hperm hsorted hgen
  constructor
  · intro haddr hbytes
    have hpool : (pool l).length < 2 ^ 32 := by
      have hsum : (pool l).length = ((symbols nm).map fun s => (encode s.name).length + 1).sum := by
        have hlen := (hperm.flatMap_right fun s => encode s.name ++ [0]).length_eq
        rw [pool, hlen, List.length_flatMap]
        simp
      omega
    have hfits : Fits 0 l := fits_of_pool (fun s hs => haddr s (hperm.mem_iff.mp hs)) (by omega)
    have hcount : l.length < 2 ^ 64 := by
      rcases hfits.length_lt with hnil | hle
      · simp [hnil]
      · omega
    exact ⟨_, (hgen _).mpr ⟨hcount, hfits, rfl⟩⟩
  · intro blob hblob m base hbase hm
    obtain ⟨-, hfits, rfl⟩ := (hgen _).mp hblob
    obtain ⟨t, hinit, hreads⟩ := readsAs_symtableInit hbase hfits hm
    have hnul' : ∀ s ∈ l, '\x00' ∉ s.name := fun s hs => hnul s (hperm.mem_iff.mp hs)
    refine ⟨t, hinit, fun s hs => ?_, fun q hq hne => ?_⟩
    · obtain ⟨j, hj, rfl⟩ := List.getElem_of_mem (hperm.mem_iff.mpr hs)
      have hcount : t.entryCount = l.length := hreads.count
      rw [symtableLookupName, if_neg (by omega)]
      exact hreads.searchLoop_of_mem hnul' hsorted hj (by omega) (by omega) (by omega) (by omega)
    · have hcount : t.entryCount = l.length := hreads.count
      rw [symtableLookupName]
      split_ifs with h0
      · rfl
      · exact hreads.searchLoop_of_forall_ne hnul' hq
          (fun s hs => hne s (hperm.mem_iff.mp hs)) (by omega) (by omega)

/-- Two symbols, listed out of order. -/
def twoSymbols : List NmSymbol := [⟨0x1000, 'T', ['k', 'm']⟩, ⟨0x2000, 'T', ['a']⟩]

lemma symbols_twoSymbols : symbols twoSymbols = twoSymbols := by decide

/-- The table of the two symbols gives their addresses, and finds nothing else. -/
theorem symtable_roundtrip_two : ∃ blob, genTable twoSymbols = some blob ∧
    ∃ (m : Memory) (t : SymTable), symtableInit m 0x100000 blob.length = some t ∧
      symtableLookupName m t (encode ['a']) = some 0x2000 ∧
      symtableLookupName m t (encode ['k', 'm']) = some 0x1000 ∧
      ∀ q : List UInt8, 0 ∉ q → q ≠ encode ['a'] → q ≠ encode ['k', 'm'] →
        symtableLookupName m t q = some 0 := by
  have hnodup : ((symbols twoSymbols).map NmSymbol.name).Nodup := by decide
  have hnul : ∀ s ∈ symbols twoSymbols, '\x00' ∉ s.name := by
    rw [symbols_twoSymbols]
    decide
  obtain ⟨hwrite, hread⟩ := symtable_roundtrip twoSymbols hnodup hnul
  obtain ⟨blob, hblob⟩ := hwrite (by rw [symbols_twoSymbols]; decide)
    (by rw [symbols_twoSymbols]; decide)
  have hm : Holds (fun x => blob.getD (x - 0x100000) 0) 0x100000 blob :=
    holds_iff_getElem.mpr fun i hi => by
      rw [Nat.add_sub_cancel_left, List.getD_eq_getElem _ _ hi]
  obtain ⟨t, hinit, hfound, hother⟩ := hread blob hblob _ 0x100000 (by decide) hm
  rw [symbols_twoSymbols, twoSymbols] at hfound hother
  refine ⟨blob, hblob, _, t, hinit, hfound ⟨0x2000, 'T', ['a']⟩ (by simp),
    hfound ⟨0x1000, 'T', ['k', 'm']⟩ (by simp), fun q hq ha hkm => hother q hq ?_⟩
  simp [ha, hkm]

end Cuore.Symtable
