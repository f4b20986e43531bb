import Cuore.Framework.CString
import Mathlib.Data.Char
import Mathlib.Data.List.Infix
import Mathlib.Data.List.Lex
import Mathlib.Data.List.Sort

/-!
# Packing a symbol table (`tools/mksymtable.py`)

`gen_table` takes the global text symbols that `nm` lists, leaves out the interrupt stubs, sorts the
rest by name and writes a count, one packed entry per symbol and the pool of names.  Names are
Python strings, sorted by code points and written in UTF-8; `struct.pack` raises an error for a
value that does not fit its field, and then no table is written.

`genTable_eq` says what comes out.  `encode_lt` is the reason why the kernel can search the table
with `strcmp`: UTF-8 keeps the order of code points, byte by byte.
-/

namespace Cuore.Mksymtable

/-! ## The encoder -/

/-- A line of `nm`: address, type and name. -/
structure NmSymbol where
  address : ℕ
  symType : Char
  name : List Char
  deriving DecidableEq, Repr

/-- `name.encode('utf-8')`. -/
def encode (name : List Char) : List UInt8 := name.flatMap String.utf8EncodeChar

/-- The symbols that go into the table. -/
def symbols (nm : List NmSymbol) : List NmSymbol :=
  nm.filter fun s => s.symType.toUpper = 'T' ∧ ¬"irq_handler_".toList <:+: s.name

/-- `symbols.sort(key=lambda x: x[0])`. -/
def sortSymbols (l : List NmSymbol) : List NmSymbol := l.mergeSort fun s t => s.name ≤ t.name

/-- The loop that fills `string_pool` and `sym_offsets`. -/
def poolStep (acc : List UInt8 × List ℕ) (s : NmSymbol) : List UInt8 × List ℕ :=
  (acc.1 ++ (encode s.name ++ [0]), acc.2 ++ [acc.1.length])

/-- `struct.pack('<QI', addr, string_offset)`. -/
def packEntry (s : NmSymbol) (stringOffset : ℕ) : Option (List UInt8) :=
  if s.address < 2 ^ 64 ∧ stringOffset < 2 ^ 32 then
    some (leBytes 8 s.address ++ leBytes 4 stringOffset)
  else none

/-- The loop that writes the entries. -/
def packEntries : List (NmSymbol × ℕ) → Option (List UInt8)
  | [] => some []
  | (s, off) :: rest => do
    let entry ← packEntry s off
    let entries ← packEntries rest
    some (entry ++ entries)

/-- `gen_table`: the bytes of the output file, if no `struct.pack` fails. -/
def genTable (nm : List NmSymbol) : Option (List UInt8) :=
  let symbols := sortSymbols (symbols nm)
  let symbolCount := symbols.length
  let (stringPool, symOffsets) := symbols.foldl poolStep ([], [])
  if symbolCount < 2 ^ 64 then
    (packEntries (symbols.zip symOffsets)).map fun entries =>
      leBytes 8 symbolCount ++ entries ++ stringPool
  else none

/-! ## What is written -/

/-- The pool of the names of `l`. -/
def pool (l : List NmSymbol) : List UInt8 := l.flatMap fun s => encode s.name ++ [0]

/-- The entries of `l`, the first of which has its name at `off`. -/
def entriesFrom : ℕ → List NmSymbol → List UInt8
  | _, [] => []
  | off, s :: l =>
    leBytes 8 s.address ++ leBytes 4 off ++ entriesFrom (off + (encode s.name ++ [0]).length) l

/-- Every address and every offset fits its field. -/
def Fits : ℕ → List NmSymbol → Prop
  | _, [] => True
  | off, s :: l =>
    s.address < 2 ^ 64 ∧ off < 2 ^ 32 ∧ Fits (off + (encode s.name ++ [0]).length) l

/-- The offsets of the names of `l`, the first of which is at `off`. -/
def offsetsFrom : ℕ → List NmSymbol → List ℕ
  | _, [] => []
  | off, s :: l => off :: offsetsFrom (off + (encode s.name ++ [0]).length) l

lemma foldl_poolStep (l : List NmSymbol) (p : List UInt8) (os : List ℕ) :
    l.foldl poolStep (p, os) = (p ++ pool l, os ++ offsetsFrom p.length l) := by
  induction l generalizing p os with
  | nil => simp [pool, offsetsFrom]
  | cons s l ih =>
    rw [List.foldl_cons, poolStep, ih]
    simp [pool, offsetsFrom]

lemma packEntries_eq_some {l : List NmSymbol} {off : ℕ} {bs : List UInt8} :
    packEntries (l.zip (offsetsFrom off l)) = some bs ↔ Fits off l ∧ bs = entriesFrom off l := by
  induction l generalizing off bs with
  | nil => simp [offsetsFrom, packEntries, Fits, entriesFrom, eq_comm]
  | cons s l ih =>
    rw [offsetsFrom, List.zip_cons_cons, packEntries, packEntry, Fits, entriesFrom]
    by_cases hfit : s.address < 2 ^ 64 ∧ off < 2 ^ 32
    · rw [if_pos hfit]
      simp only [Option.bind_eq_bind, Option.bind_some, Option.bind_eq_some_iff, ih]
      constructor
      · rintro ⟨es, ⟨hl, rfl⟩, hbs⟩
        exact ⟨⟨hfit.1, hfit.2, hl⟩, (Option.some.inj hbs).symm⟩
      · rintro ⟨⟨-, -, hl⟩, rfl⟩
        exact ⟨_, ⟨hl, rfl⟩, rfl⟩
    · rw [if_neg hfit]
      simp only [Option.bind_eq_bind, Option.bind_none, reduceCtorEq, false_iff]
      exact fun h => hfit ⟨h.1.1, h.1.2.1⟩

/-- **The table**: count, entries, names. -/
lemma genTable_eq_some {nm : List NmSymbol} {blob : List UInt8} :
    genTable nm = some blob ↔ (sortSymbols (symbols nm)).length < 2 ^ 64 ∧
      Fits 0 (sortSymbols (symbols nm)) ∧
      blob = leBytes 8 (sortSymbols (symbols nm)).length ++
        entriesFrom 0 (sortSymbols (symbols nm)) ++ pool (sortSymbols (symbols nm)) := by
  have hfold := foldl_poolStep (sortSymbols (symbols nm)) [] []
  rw [List.nil_append, List.nil_append, List.length_nil] at hfold
  simp only [genTable, hfold]
  split_ifs with hcount
  · rw [Option.map_eq_some_iff]
    constructor
    · rintro ⟨es, hes, rfl⟩
      obtain ⟨hfits, rfl⟩ := packEntries_eq_some.mp hes
      exact ⟨hcount, hfits, rfl⟩
    · rintro ⟨-, hfits, rfl⟩
      exact ⟨_, packEntries_eq_some.mpr ⟨hfits, rfl⟩, rfl⟩
  · exact ⟨fun h => (by cases h), fun h => absurd h.1 hcount⟩

lemma length_entriesFrom (off : ℕ) (l : List NmSymbol) :
    (entriesFrom off l).length = 12 * l.length := by
  induction l generalizing off with
  | nil => rfl
  | cons s l ih =>
    rw [entriesFrom, List.length_append, List.length_append, length_leBytes, length_leBytes, ih,
      List.length_cons]
    omega

lemma fits_of_pool {l : List NmSymbol} {off : ℕ} (haddr : ∀ s ∈ l, s.address < 2 ^ 64)
    (hpool : off + (pool l).length ≤ 2 ^ 32) : Fits off l := by
  induction l generalizing off with
  | nil => trivial
  | cons s l ih =>
    have hlen : (pool (s :: l)).length = (encode s.name ++ [0]).length + (pool l).length := by
      rw [pool, List.flatMap_cons, List.length_append]
      rfl
    have hpos : 0 < (encode s.name ++ [0]).length := by simp
    exact ⟨haddr s List.mem_cons_self, by omega,
      ih (fun t ht => haddr t (List.mem_cons_of_mem _ ht)) (by omega)⟩

/-- As many symbols as offsets below `2 ^ 32`. -/
lemma Fits.length_lt {l : List NmSymbol} {off : ℕ} (h : Fits off l) :
    l = [] ∨ off + l.length ≤ 2 ^ 32 := by
  induction l generalizing off with
  | nil => exact .inl rfl
  | cons s l ih =>
    have hpos : 0 < (encode s.name ++ [0]).length := by simp
    right
    rcases ih h.2.2 with rfl | hle
    · have := h.2.1
      simp
      omega
    · rw [List.length_cons]
      omega

/-! ## The order of the names -/

lemma toNat_lt_of_char_lt {c d : Char} (h : c < d) : c.val.toNat < d.val.toNat := h

lemma zero_notMem_utf8EncodeChar {c : Char} (h : c ≠ '\x00') : 0 ∉ String.utf8EncodeChar c := by
  have hpos : 0 < c.val.toNat := Nat.pos_of_ne_zero fun h0 => h (Char.ext (UInt32.toNat_inj.mp h0))
  have hbyte : ∀ n : ℕ, 0 < n % 256 → (0 : UInt8) ≠ UInt8.ofNat n := by
    intro n hn h0
    have h0' := congrArg UInt8.toNat h0
    rw [UInt8.toNat_ofNat'] at h0'
    simp at h0'
    omega
  rw [String.utf8EncodeChar]
  split_ifs <;> simp only [List.mem_cons, List.not_mem_nil, or_false, not_or]
  · exact hbyte _ (by omega)
  · exact ⟨hbyte _ (by omega), hbyte _ (by omega)⟩
  · exact ⟨hbyte _ (by omega), hbyte _ (by omega), hbyte _ (by omega)⟩
  · exact ⟨hbyte _ (by omega), hbyte _ (by omega), hbyte _ (by omega), hbyte _ (by omega)⟩

lemma zero_notMem_encode {name : List Char} (h : '\x00' ∉ name) : 0 ∉ encode name := by
  rw [encode, List.mem_flatMap]
  rintro ⟨c, hc, h0⟩
  exact zero_notMem_utf8EncodeChar (fun heq => h (heq ▸ hc)) h0

lemma encode_cons_ne_nil (c : Char) (name : List Char) : encode (c :: name) ≠ [] := by
  rw [encode, List.flatMap_cons, String.utf8EncodeChar]
  split_ifs <;> exact List.cons_ne_nil _ _

/-- The bytes of a smaller character are smaller at the first difference. -/
lemma compareBytes_utf8EncodeChar {c d : Char} (h : c < d) (s t : List UInt8) :
    compareBytes (String.utf8EncodeChar c ++ s) (String.utf8EncodeChar d ++ t) < 0 := by
  have hlt := toNat_lt_of_char_lt h
  have hmax : d.val.toNat < 0x110000 := by
    rcases d.valid with hd | hd
    · exact Nat.lt_trans hd (by decide)
    · exact hd.2
  have hbyte : ∀ a b : ℕ, UInt8.ofNat a ≠ UInt8.ofNat b ↔ a % 256 ≠ b % 256 := by
    intro a b
    rw [ne_eq, ← UInt8.toNat_inj, UInt8.toNat_ofNat', UInt8.toNat_ofNat']
  simp only [String.utf8EncodeChar]
  split_ifs <;>
    simp only [List.cons_append, List.nil_append, compareBytes, hbyte, UInt8.toNat_ofNat'] <;>
    split_ifs <;> omega

/-- **UTF-8 keeps the order of strings.** -/
lemma compareBytes_encode {a b : List Char} (h : a < b) (hb : '\x00' ∉ b) :
    compareBytes (encode a) (encode b) < 0 := by
  replace h : List.Lex (· < ·) a b := h
  induction h with
  | nil => exact compareBytes_nil_lt (encode_cons_ne_nil _ _) (zero_notMem_encode hb)
  | cons _ ih =>
    rw [List.mem_cons, not_or] at hb
    rw [encode, encode, List.flatMap_cons, List.flatMap_cons, compareBytes_append]
    exact ih hb.2
  | rel hlt =>
    rw [encode, encode, List.flatMap_cons, List.flatMap_cons]
    exact compareBytes_utf8EncodeChar hlt _ _

end Cuore.Mksymtable
