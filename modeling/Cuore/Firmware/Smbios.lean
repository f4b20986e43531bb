import Cuore.Framework.Bytes

/-!
# The SMBIOS table (`firmware/smbios/smbios.c`)

The table is a sequence of structures: a header with type, length and handle, the rest of the
formatted area, and the strings, of which the last is followed by one more zero (`encode`).  The
code knows the length of the formatted area only; it finds the next structure by looking for two
zero bytes behind it.

The loops are bounded by the end of the table alone, so they run on fuel, and the results say that
some amount of fuel is enough for what they return, and that more makes no difference.

* `smbiosSkipStrings_eq`: the search for the two zero bytes ends at the end of the strings.
* `smbios_walk`: looking up by type, by handle and by number of a string is correct on every
  table.
-/

namespace Cuore

/-! ## The code -/

/-- `smbios_table_base` and `smbios_available`. -/
structure SmbiosState where
  tableBase : ℕ
  available : Bool

/-- What `smbios_get_string` returns: a literal, or an address. -/
inductive SmbiosString
  | literal (s : String)
  | addr (a : ℕ)
  deriving DecidableEq, Repr

/-- The loop to the end of a string. -/
def smbiosStringEnd (m : Memory) : ℕ → ℕ → Option ℕ
  | 0, _ => none
  | fuel + 1, a => if m a ≠ 0 then smbiosStringEnd m fuel (a + 1) else some a

/-- The loop of `smbios_get_string`, at `strTable` with the index `current`. -/
def smbiosStringLoop (m : Memory) (idx : ℕ) : ℕ → ℕ → ℕ → Option SmbiosString
  | 0, _, _ => none
  | fuel + 1, current, strTable =>
    if current < idx then do
      let stop ← smbiosStringEnd m fuel strTable
      if m (stop + 1) = 0 then some (.literal "Unknown")
      else smbiosStringLoop m idx fuel (current + 1) (stop + 1)
    else some (.addr strTable)

/-- `smbios_get_string`. -/
def smbiosGetString (m : Memory) (header idx fuel : ℕ) : Option SmbiosString :=
  if idx = 0 then some (.literal "None")
  else smbiosStringLoop m idx fuel 1 (header + (m (header + 1)).toNat)

/-- The loop to two zero bytes. -/
def smbiosSkipStrings (m : Memory) : ℕ → ℕ → Option ℕ
  | 0, _ => none
  | fuel + 1, a => if m.load a 2 ≠ 0 then smbiosSkipStrings m fuel (a + 1) else some a

/-- The address of the structure behind that at `a`. -/
def smbiosNext (m : Memory) (fuel a : ℕ) : Option ℕ := do
  let next ← smbiosSkipStrings m fuel (a + (m (a + 1)).toNat)
  some (next + 2)

/-- The loop of `smbios_get_by_type`; the null pointer is `none`. -/
def smbiosTypeLoop (m : Memory) (type : UInt8) (index : ℕ) : ℕ → ℕ → ℕ → Option (Option ℕ)
  | 0, _, _ => none
  | fuel + 1, current, count =>
    if m current = type ∧ count = index then some (some current)
    else
      let count := if m current = type then count + 1 else count
      if m current = 127 then some none
      else do
        let next ← smbiosNext m fuel current
        smbiosTypeLoop m type index fuel next count

/-- `smbios_get_by_type`. -/
def smbiosGetByType (m : Memory) (s : SmbiosState) (type : UInt8) (index fuel : ℕ) :
    Option (Option ℕ) :=
  if !s.available ∨ s.tableBase = 0 then some none
  else smbiosTypeLoop m type index fuel s.tableBase 0

/-- The loop of `smbios_get_by_handle`. -/
def smbiosHandleLoop (m : Memory) (handle : ℕ) : ℕ → ℕ → Option (Option ℕ)
  | 0, _ => none
  | fuel + 1, current =>
    if m.load (current + 2) 2 = handle then some (some current)
    else if m current = 127 then some none
    else do
      let next ← smbiosNext m fuel current
      smbiosHandleLoop m handle fuel next

/-- `smbios_get_by_handle`. -/
def smbiosGetByHandle (m : Memory) (s : SmbiosState) (handle fuel : ℕ) : Option (Option ℕ) :=
  if !s.available ∨ s.tableBase = 0 then some none else smbiosHandleLoop m handle fuel s.tableBase

/-! ## The format -/

/-- A structure: its header, the rest of the formatted area, and its strings. -/
structure SmbiosStructure where
  type : UInt8
  handle : ℕ
  data : List UInt8
  strings : List (List UInt8)
  handle_lt : handle < 2 ^ 16
  length_le : 4 + data.length ≤ 255
  strings_le : strings.length ≤ 254
  strings_valid : ∀ s ∈ strings, s ≠ [] ∧ 0 ∉ s

/-- The strings behind a formatted area. -/
def encodeStrings (strings : List (List UInt8)) : List UInt8 :=
  if strings = [] then [0, 0] else strings.flatMap (fun s => s ++ [0]) ++ [0]

namespace SmbiosStructure

/-- The formatted area. -/
def formatted (s : SmbiosStructure) : List UInt8 :=
  s.type :: UInt8.ofNat (4 + s.data.length) :: leBytes 2 s.handle ++ s.data

/-- The structure as it stands in the table. -/
def encode (s : SmbiosStructure) : List UInt8 := s.formatted ++ encodeStrings s.strings

end SmbiosStructure

/-- The structures of a table with their addresses. -/
def smbiosLayout : ℕ → List SmbiosStructure → List (ℕ × SmbiosStructure)
  | _, [] => []
  | a, s :: ss => (a, s) :: smbiosLayout (a + s.encode.length) ss

variable {m : Memory} {a b fuel n : ℕ} {s : SmbiosStructure} {ss : List SmbiosStructure}
  {str : List UInt8} {strings : List (List UInt8)} {c : UInt8}

/-! ## Strings -/

lemma load_two : m.load a 2 = (m a).toNat + 256 * (m (a + 1)).toNat := by
  simp [Memory.load]

lemma load_two_eq_zero_iff : m.load a 2 = 0 ↔ m a = 0 ∧ m (a + 1) = 0 := by
  rw [load_two, ← UInt8.toNat_inj, ← UInt8.toNat_inj (a := m (a + 1))]
  simp only [UInt8.toNat_zero]
  omega

/-- Bytes that are not zero are skipped one by one. -/
lemma smbiosSkipStrings_append (hstr : 0 ∉ str) (h : Holds m a str) :
    smbiosSkipStrings m (str.length + fuel) a = smbiosSkipStrings m fuel (a + str.length) := by
  induction str generalizing a with
  | nil => rw [List.length_nil, Nat.zero_add, Nat.add_zero]
  | cons c str ih =>
    rw [List.mem_cons, not_or] at hstr
    have hload : m.load a 2 ≠ 0 := fun hzero =>
      hstr.1 (h.1.symm.trans (load_two_eq_zero_iff.mp hzero).1).symm
    rw [List.length_cons, Nat.add_right_comm, smbiosSkipStrings, if_pos hload, ih hstr.2 h.2,
      Nat.add_right_comm, Nat.add_assoc]

lemma encodeStrings_cons_cons {str' : List UInt8} :
    encodeStrings (str :: str' :: strings) = str ++ 0 :: encodeStrings (str' :: strings) := by
  simp [encodeStrings]

/-- The first string is not empty. -/
lemma exists_encodeStrings_cons (hne : str ≠ []) (hstr : 0 ∉ str) :
    ∃ c rest, encodeStrings (str :: strings) = c :: rest ∧ c ≠ 0 := by
  obtain ⟨c, str, rfl⟩ := List.exists_cons_of_ne_nil hne
  rw [List.mem_cons, not_or] at hstr
  exact ⟨c, str ++ 0 :: (strings.flatMap (fun s => s ++ [0]) ++ [0]), by simp [encodeStrings],
    Ne.symm hstr.1⟩

/-- **The search for two zero bytes**, from the end of the formatted area, ends at the last string,
or at once if there are no strings. -/
lemma smbiosSkipStrings_eq (hvalid : ∀ s ∈ strings, s ≠ [] ∧ 0 ∉ s)
    (h : Holds m a (encodeStrings strings)) (hfuel : (encodeStrings strings).length ≤ fuel) :
    ∃ b, smbiosSkipStrings m fuel a = some b ∧ b + 2 = a + (encodeStrings strings).length := by
  induction strings generalizing a fuel with
  | nil =>
    obtain ⟨k, rfl⟩ := Nat.exists_eq_add_of_le hfuel
    have hload : m.load a 2 = 0 := load_two_eq_zero_iff.mpr ⟨h.1, h.2.1⟩
    exact ⟨a, by rw [encodeStrings]; simp [smbiosSkipStrings, hload, Nat.add_comm], rfl⟩
  | cons str strings ih =>
    obtain ⟨-, hstr⟩ := hvalid str List.mem_cons_self
    cases strings with
    | nil =>
      have heq : encodeStrings [str] = str ++ [0, 0] := by simp [encodeStrings]
      rw [heq] at h hfuel ⊢
      obtain ⟨hbytes, hzeros⟩ := holds_append.mp h
      have hload : m.load (a + str.length) 2 = 0 :=
        load_two_eq_zero_iff.mpr ⟨hzeros.1, hzeros.2.1⟩
      rw [List.length_append] at hfuel
      obtain ⟨k, rfl⟩ := Nat.exists_eq_add_of_le hfuel
      refine ⟨a + str.length, ?_, by simp; omega⟩
      rw [Nat.add_assoc, smbiosSkipStrings_append hstr hbytes]
      simp [smbiosSkipStrings, hload, Nat.add_comm]
    | cons str' strings =>
      rw [encodeStrings_cons_cons] at h hfuel ⊢
      obtain ⟨hbytes, hzero, hrest⟩ := holds_append.mp h
      -- the zero at the end of the string is followed by a byte of the next one
      have hnext : m.load (a + str.length) 2 ≠ 0 := by
        obtain ⟨hne, hstr'⟩ := hvalid str' (List.mem_cons_of_mem _ List.mem_cons_self)
        obtain ⟨c, rest, heq, hc⟩ := @exists_encodeStrings_cons str' strings hne hstr'
        rw [heq] at hrest
        exact fun hload => hc (hrest.1.symm.trans (load_two_eq_zero_iff.mp hload).2)
      rw [List.length_append, List.length_cons] at hfuel ⊢
      obtain ⟨k, rfl⟩ := Nat.exists_eq_add_of_le hfuel
      obtain ⟨b, heq, hb⟩ := ih (fun s hs => hvalid s (List.mem_cons_of_mem _ hs)) hrest
        (Nat.le_add_right _ k)
      refine ⟨b, ?_, by omega⟩
      have hsplit : str.length + ((encodeStrings (str' :: strings)).length + 1) + k =
          str.length + ((encodeStrings (str' :: strings)).length + k + 1) := by omega
      rw [hsplit, smbiosSkipStrings_append hstr hbytes, smbiosSkipStrings, if_pos hnext]
      exact heq

/-! ## Structures -/

namespace SmbiosStructure

lemma length_formatted : s.formatted.length = 4 + s.data.length := by
  simp [formatted]
  omega

lemma length_encode : s.encode.length = s.formatted.length + (encodeStrings s.strings).length :=
  List.length_append

/-- What the code reads of a structure. -/
structure Reads (m : Memory) (a : ℕ) (s : SmbiosStructure) : Prop where
  type : m a = s.type
  length : (m (a + 1)).toNat = s.formatted.length
  handle : m.load (a + 2) 2 = s.handle
  strings : Holds m (a + s.formatted.length) (encodeStrings s.strings)

lemma reads (h : Holds m a s.encode) : Reads m a s := by
  obtain ⟨hformatted, hstrings⟩ := holds_append.mp h
  obtain ⟨htype, hlength, hrest⟩ := hformatted
  have hhandle := (holds_append.mp hrest).1.load_leBytes
  have hle := s.length_le
  refine ⟨htype, ?_, ?_, hstrings⟩
  · rw [hlength, length_formatted, UInt8.toNat_ofNat']
    exact Nat.mod_eq_of_lt (by omega)
  · rw [Nat.add_assoc] at hhandle
    rw [hhandle]
    exact Nat.mod_eq_of_lt s.handle_lt

/-- The next structure is found. -/
lemma next_eq (h : Reads m a s) (hfuel : s.encode.length ≤ fuel) :
    smbiosNext m fuel a = some (a + s.encode.length) := by
  rw [length_encode] at hfuel ⊢
  obtain ⟨b, heq, hb⟩ := smbiosSkipStrings_eq s.strings_valid h.strings
    ((Nat.le_add_left _ _).trans hfuel)
  unfold smbiosNext
  rw [h.length, heq]
  exact congrArg some (by omega)

end SmbiosStructure

/-- A table: structures, none of type 127 but the last. -/
structure SmbiosTable where
  structures : List SmbiosStructure
  terminator : SmbiosStructure
  type_ne : ∀ s ∈ structures, s.type ≠ 127
  terminator_type : terminator.type = 127

namespace SmbiosTable

/-- All structures, with the terminator. -/
def all (t : SmbiosTable) : List SmbiosStructure := t.structures ++ [t.terminator]

/-- The table as it stands in memory. -/
def encode (t : SmbiosTable) : List UInt8 := t.all.flatMap SmbiosStructure.encode

end SmbiosTable

/-! ## Walking -/

lemma two_le_length_encodeStrings : 2 ≤ (encodeStrings strings).length := by
  unfold encodeStrings
  split_ifs with hnil
  · exact Nat.le_refl _
  · obtain ⟨str, strings, rfl⟩ := List.exists_cons_of_ne_nil hnil
    simp
    omega

lemma encode_length_pos : 6 ≤ s.encode.length := by
  have hle := @two_le_length_encodeStrings s.strings
  rw [SmbiosStructure.length_encode, SmbiosStructure.length_formatted]
  omega

/-- A structure and those behind it. -/
lemma holds_cons (h : Holds m a ((s :: ss).flatMap SmbiosStructure.encode)) :
    SmbiosStructure.Reads m a s ∧
    Holds m (a + s.encode.length) (ss.flatMap SmbiosStructure.encode) :=
  (holds_append.mp h).imp_left SmbiosStructure.reads

lemma mem_smbiosLayout {x : ℕ × SmbiosStructure} (hx : x ∈ smbiosLayout a ss)
    (h : Holds m a (ss.flatMap SmbiosStructure.encode)) : Holds m x.1 x.2.encode := by
  induction ss generalizing a with
  | nil => cases hx
  | cons s ss ih =>
    obtain ⟨hs, hss⟩ := holds_append.mp h
    rcases List.mem_cons.mp hx with rfl | hx
    · exact hs
    · exact ih hx hss

variable {term : SmbiosStructure} {type : UInt8} {index count handle idx current : ℕ}

/-- The loop of `smbios_get_by_type`. -/
lemma smbiosTypeLoop_eq (hss : ∀ s ∈ ss, s.type ≠ 127) (hterm : term.type = 127)
    (h : Holds m a ((ss ++ [term]).flatMap SmbiosStructure.encode))
    (hfuel : ((ss ++ [term]).flatMap SmbiosStructure.encode).length ≤ fuel)
    (hcount : count ≤ index) :
    smbiosTypeLoop m type index fuel a count = some
      (((smbiosLayout a (ss ++ [term])).filter fun x => x.2.type = type)[index - count]?.map
        Prod.fst) := by
  induction ss generalizing a fuel count with
  | nil =>
    obtain ⟨hreads, -⟩ := holds_cons h
    have hpos := encode_length_pos (s := term)
    rw [List.nil_append, List.flatMap_singleton] at hfuel
    obtain ⟨k, rfl⟩ := Nat.exists_eq_add_of_le' (show 1 ≤ fuel by omega)
    rw [smbiosTypeLoop, hreads.type, hterm]
    by_cases hfound : 127 = type ∧ count = index
    · obtain ⟨rfl, rfl⟩ := hfound
      simp [smbiosLayout, hterm]
    · rw [if_neg hfound]
      dsimp only
      rw [if_pos rfl]
      by_cases htype : 127 = type
      · have hlt : index - count ≠ 0 := by
          have hne : count ≠ index := fun heq => hfound ⟨htype, heq⟩
          omega
        obtain ⟨j, hj⟩ := Nat.exists_eq_succ_of_ne_zero hlt
        simp [smbiosLayout, hterm, ← htype, hj]
      · simp [smbiosLayout, hterm, htype]
  | cons s ss ih =>
    obtain ⟨hreads, hrest⟩ := @holds_cons m a s (ss ++ [term]) h
    have hpos := encode_length_pos (s := s)
    have hpos' : 0 < ((ss ++ [term]).flatMap SmbiosStructure.encode).length := by
      have := encode_length_pos (s := term)
      simp only [List.flatMap_append, List.flatMap_singleton, List.length_append]
      omega
    rw [List.cons_append, List.flatMap_cons, List.length_append] at hfuel
    obtain ⟨k, rfl⟩ := Nat.exists_eq_add_of_le' (show 1 ≤ fuel by omega)
    have hne : s.type ≠ 127 := hss s List.mem_cons_self
    have hih := fun {c} (hc : c ≤ index) =>
      ih (fun s' hs' => hss s' (List.mem_cons_of_mem _ hs')) hrest (show _ ≤ k by omega) hc
    rw [smbiosTypeLoop, hreads.type, List.cons_append, smbiosLayout]
    by_cases hfound : s.type = type ∧ count = index
    · obtain ⟨rfl, rfl⟩ := hfound
      simp
    · rw [if_neg hfound]
      dsimp only
      rw [if_neg hne, SmbiosStructure.next_eq hreads (by omega)]
      dsimp only [Option.bind_eq_bind, Option.bind_some]
      by_cases htype : s.type = type
      · have hlt : count < index := by
          have hne : count ≠ index := fun heq => hfound ⟨htype, heq⟩
          omega
        have hsub : index - count = index - (count + 1) + 1 := by omega
        rw [if_pos htype, hih hlt, List.filter_cons_of_pos (by simpa using htype), hsub,
          List.getElem?_cons_succ]
      · rw [if_neg htype, hih hcount, List.filter_cons_of_neg (by simpa using htype)]

/-- The loop of `smbios_get_by_handle`. -/
lemma smbiosHandleLoop_eq (hss : ∀ s ∈ ss, s.type ≠ 127) (hterm : term.type = 127)
    (h : Holds m a ((ss ++ [term]).flatMap SmbiosStructure.encode))
    (hfuel : ((ss ++ [term]).flatMap SmbiosStructure.encode).length ≤ fuel) :
    smbiosHandleLoop m handle fuel a = some
      (((smbiosLayout a (ss ++ [term])).find? fun x => x.2.handle = handle).map Prod.fst) := by
  induction ss generalizing a fuel with
  | nil =>
    obtain ⟨hreads, -⟩ := holds_cons h
    have hpos := encode_length_pos (s := term)
    rw [List.nil_append, List.flatMap_singleton] at hfuel
    obtain ⟨k, rfl⟩ := Nat.exists_eq_add_of_le' (show 1 ≤ fuel by omega)
    rw [smbiosHandleLoop, hreads.handle, hreads.type, hterm, if_pos rfl, List.nil_append,
      smbiosLayout, smbiosLayout]
    split_ifs with hfound <;> simp [hfound]
  | cons s ss ih =>
    obtain ⟨hreads, hrest⟩ := @holds_cons m a s (ss ++ [term]) h
    have hpos := encode_length_pos (s := s)
    have hpos' := encode_length_pos (s := term)
    rw [List.cons_append, List.flatMap_cons, List.length_append] at hfuel
    obtain ⟨k, rfl⟩ := Nat.exists_eq_add_of_le' (show 1 ≤ fuel by omega)
    rw [smbiosHandleLoop, hreads.handle, hreads.type, if_neg (hss s List.mem_cons_self),
      List.cons_append, smbiosLayout]
    split_ifs with hfound
    · rw [List.find?_cons_of_pos (by simpa using hfound)]
      rfl
    · have hlast : term.encode.length ≤ ((ss ++ [term]).flatMap SmbiosStructure.encode).length := by
        simp
      rw [SmbiosStructure.next_eq hreads (by omega), List.find?_cons_of_neg (by simpa using hfound)]
      exact ih (fun s' hs' => hss s' (List.mem_cons_of_mem _ hs')) hrest (by omega)

/-! ## The strings of a structure -/

lemma smbiosStringEnd_eq (hstr : 0 ∉ str) (h : Holds m a (str ++ [0])) (hfuel : str.length < fuel) :
    smbiosStringEnd m fuel a = some (a + str.length) := by
  obtain ⟨k, rfl⟩ := Nat.exists_eq_add_of_lt hfuel
  induction str generalizing a with
  | nil =>
    rw [List.length_nil, Nat.zero_add, smbiosStringEnd, h.1, if_neg (not_not.mpr rfl), Nat.add_zero]
  | cons c str ih =>
    rw [List.mem_cons, not_or] at hstr
    rw [List.length_cons, Nat.add_right_comm _ 1 k, smbiosStringEnd, h.1, if_pos (Ne.symm hstr.1),
      ih hstr.2 h.2 (by omega), Nat.add_right_comm, Nat.add_assoc]

lemma holds_first_string (h : Holds m a (encodeStrings (str :: strings))) :
    Holds m a (str ++ [0]) := by
  have heq : encodeStrings (str :: strings) =
      (str ++ [0]) ++ (strings.flatMap (fun s => s ++ [0]) ++ [0]) := by
    simp [encodeStrings]
  rw [heq] at h
  exact (holds_append.mp h).1

lemma smbiosStringLoop_self (hfuel : (encodeStrings strings).length ≤ fuel) :
    smbiosStringLoop m idx fuel idx a = some (.addr a) := by
  have hlong := @two_le_length_encodeStrings strings
  obtain ⟨k, rfl⟩ := Nat.exists_eq_add_of_le' (show 1 ≤ fuel by omega)
  exact if_neg (Nat.lt_irrefl idx)

/-- **The loop of `smbios_get_string`**, at the start of a string. -/
lemma smbiosStringLoop_eq (hvalid : ∀ s ∈ str :: strings, s ≠ [] ∧ 0 ∉ s)
    (h : Holds m a (encodeStrings (str :: strings))) (hidx : current ≤ idx) :
    (∀ hi : idx - current < (str :: strings).length, ∃ p,
        Holds m p ((str :: strings)[idx - current] ++ [0]) ∧
          ∀ fuel, (encodeStrings (str :: strings)).length ≤ fuel →
            smbiosStringLoop m idx fuel current a = some (.addr p)) ∧
      ((str :: strings).length ≤ idx - current →
        ∀ fuel, (encodeStrings (str :: strings)).length ≤ fuel →
          smbiosStringLoop m idx fuel current a = some (.literal "Unknown")) := by
  induction strings generalizing str a current with
  | nil =>
    have hstr := (hvalid str List.mem_cons_self).2
    have hfirst := holds_first_string h
    have heq : encodeStrings [str] = str ++ [0, 0] := by simp [encodeStrings]
    constructor
    · intro hi
      obtain rfl : current = idx := by
        simp only [List.length_cons, List.length_nil] at hi
        omega
      exact ⟨a, by simpa using hfirst, fun fuel hfuel => smbiosStringLoop_self hfuel⟩
    · intro hle fuel hfuel
      rw [heq] at h hfuel
      simp only [List.length_append, List.length_cons, List.length_nil] at hfuel hle
      obtain ⟨k, rfl⟩ := Nat.exists_eq_add_of_le' (show 1 ≤ fuel by omega)
      have hzero : m (a + str.length + 1) = 0 := (holds_append.mp h).2.2.1
      rw [smbiosStringLoop, if_pos (by omega), smbiosStringEnd_eq hstr hfirst (by omega)]
      exact if_pos hzero
  | cons str' strings ih =>
    have hstr := (hvalid str List.mem_cons_self).2
    have hfirst := holds_first_string h
    have hlong := @two_le_length_encodeStrings (str' :: strings)
    have hvalid' : ∀ s ∈ str' :: strings, s ≠ [] ∧ 0 ∉ s :=
      fun s hs => hvalid s (List.mem_cons_of_mem _ hs)
    rw [encodeStrings_cons_cons] at h
    obtain ⟨-, -, hrest⟩ := holds_append.mp h
    have hlength : (encodeStrings (str :: str' :: strings)).length =
        str.length + (encodeStrings (str' :: strings)).length + 1 := by
      rw [encodeStrings_cons_cons, List.length_append, List.length_cons, Nat.add_assoc]
    by_cases hlt : current < idx
    · -- the next string is not empty
      have hnext : m (a + str.length + 1) ≠ 0 := by
        obtain ⟨hne, hstr'⟩ := hvalid' str' List.mem_cons_self
        obtain ⟨c, rest, heq, hc⟩ := @exists_encodeStrings_cons str' strings hne hstr'
        rw [heq] at hrest
        exact fun hzero => hc (hrest.1.symm.trans hzero)
      have hstep : ∀ k, str.length < k → smbiosStringLoop m idx (k + 1) current a =
          smbiosStringLoop m idx k (current + 1) (a + str.length + 1) := by
        intro k hk
        rw [smbiosStringLoop, if_pos hlt, smbiosStringEnd_eq hstr hfirst hk]
        exact if_neg hnext
      have hsub : idx - current = idx - (current + 1) + 1 := by omega
      obtain ⟨hin, hout⟩ := ih hvalid' hrest hlt
      simp only [hsub, hlength]
      constructor
      · intro hi
        obtain ⟨p, hp, hloop⟩ := hin (Nat.lt_of_succ_lt_succ hi)
        refine ⟨p, hp, fun fuel hfuel => ?_⟩
        obtain ⟨k, rfl⟩ := Nat.exists_eq_add_of_le' (show 1 ≤ fuel by omega)
        rw [hstep k (by omega)]
        exact hloop k (by omega)
      · intro hle fuel hfuel
        obtain ⟨k, rfl⟩ := Nat.exists_eq_add_of_le' (show 1 ≤ fuel by omega)
        rw [hstep k (by omega)]
        exact hout (Nat.le_of_succ_le_succ hle) k (by omega)
    · obtain rfl : current = idx := by omega
      simp only [Nat.sub_self]
      constructor
      · intro hi
        exact ⟨a, hfirst, fun fuel hfuel => smbiosStringLoop_self hfuel⟩
      · intro hle
        exact absurd hle (by simp)

/-! ## Correctness -/

/-- **Walking the table.**  On every table, looking up by type finds the structure of the type with
that number, looking up by handle the first structure with the handle, both with the terminator
among the structures; and of a structure with strings, a string is found by its number, and numbers
behind the last one are unknown.  All loops end. -/
theorem smbios_walk {base : ℕ} (t : SmbiosTable) (hbase : base ≠ 0) (h : Holds m base t.encode) :
    (∀ type index, ∃ n, ∀ fuel ≥ n, smbiosGetByType m ⟨base, true⟩ type index fuel = some
        (((smbiosLayout base t.all).filter fun x => x.2.type = type)[index]?.map Prod.fst)) ∧
      (∀ handle, ∃ n, ∀ fuel ≥ n, smbiosGetByHandle m ⟨base, true⟩ handle fuel = some
        (((smbiosLayout base t.all).find? fun x => x.2.handle = handle).map Prod.fst)) ∧
      ∀ x ∈ smbiosLayout base t.all, Holds m x.1 x.2.encode ∧
        (∀ i, ∀ hi : i < x.2.strings.length, ∃ n p, Holds m p (x.2.strings[i] ++ [0]) ∧
          ∀ fuel ≥ n, smbiosGetString m x.1 (i + 1) fuel = some (.addr p)) ∧
        ∀ idx, x.2.strings ≠ [] → x.2.strings.length < idx → ∃ n, ∀ fuel ≥ n,
          smbiosGetString m x.1 idx fuel = some (.literal "Unknown") := by
  have hstart : ¬((!true) = true ∨ base = 0) := by simp [hbase]
  refine ⟨fun type index => ⟨t.encode.length, fun fuel hfuel => ?_⟩,
    fun handle => ⟨t.encode.length, fun fuel hfuel => ?_⟩, fun x hx => ?_⟩
  · exact (if_neg hstart).trans
      (smbiosTypeLoop_eq t.type_ne t.terminator_type h hfuel (Nat.zero_le index))
  · exact (if_neg hstart).trans (smbiosHandleLoop_eq t.type_ne t.terminator_type h hfuel)
  · have henc := mem_smbiosLayout hx h
    obtain ⟨a, s⟩ := x
    dsimp only at henc ⊢
    have hreads := SmbiosStructure.reads henc
    have hstrings := hreads.strings
    have hvalid := s.strings_valid
    have hget : ∀ idx fuel, idx ≠ 0 → smbiosGetString m a idx fuel =
        smbiosStringLoop m idx fuel 1 (a + s.formatted.length) := by
      intro idx fuel hidx
      rw [smbiosGetString, if_neg hidx, hreads.length]
    refine ⟨henc, fun i hi => ?_, fun idx hne hidx => ⟨(encodeStrings s.strings).length,
      fun fuel hfuel => ?_⟩⟩
    · obtain ⟨str, strings, heq⟩ := List.exists_cons_of_ne_nil (List.ne_nil_of_length_pos
        (Nat.zero_lt_of_lt hi))
      simp only [heq] at hi hstrings hvalid ⊢
      obtain ⟨p, hp, hloop⟩ := (smbiosStringLoop_eq hvalid hstrings (Nat.le_add_left 1 i)).1 hi
      exact ⟨_, p, hp, fun fuel hfuel => (hget _ _ (Nat.succ_ne_zero i)).trans (hloop fuel hfuel)⟩
    · obtain ⟨str, strings, heq⟩ := List.exists_cons_of_ne_nil hne
      rw [heq] at hstrings hvalid hidx hfuel
      rw [hget idx fuel (by omega)]
      exact (smbiosStringLoop_eq hvalid hstrings (by omega)).2 (by omega) fuel hfuel

/-- A table of two structures and the terminator; the first has two strings, and a formatted area
that ends with zeros. -/
def smallTable : SmbiosTable where
  structures := [⟨0, 7, [1, 0, 0], [[65, 66], [67]], by decide, by decide, by decide, by decide⟩,
    ⟨1, 8, [], [], by decide, by decide, by decide, by decide⟩]
  terminator := ⟨127, 9, [], [], by decide, by decide, by decide, by decide⟩
  type_ne := by decide
  terminator_type := rfl

/-- The second structure of the table is found by its type, the terminator by its handle, and the
second string of the first structure by its number; there is no third one. -/
theorem smbios_walk_smallTable :
    let m := Memory.put (fun _ => 0) 4096 smallTable.encode
    (∃ n, ∀ fuel ≥ n, smbiosGetByType m ⟨4096, true⟩ 1 0 fuel = some (some 4109)) ∧
      (∃ n, ∀ fuel ≥ n, smbiosGetByHandle m ⟨4096, true⟩ 9 fuel = some (some 4115)) ∧
      (∃ n p, Holds m p [67, 0] ∧
        ∀ fuel ≥ n, smbiosGetString m 4096 2 fuel = some (.addr p)) ∧
      ∃ n, ∀ fuel ≥ n, smbiosGetString m 4096 3 fuel = some (.literal "Unknown") := by
  intro m
  obtain ⟨htype, hhandle, hall⟩ := smbios_walk smallTable (by decide)
    (Memory.holds_put (m := fun _ => 0) (a := 4096))
  obtain ⟨n, hn⟩ := htype 1 0
  obtain ⟨k, hk⟩ := hhandle 9
  have hfirst : (4096, smallTable.structures.head (by decide)) ∈
      smbiosLayout 4096 smallTable.all := List.mem_cons_self
  obtain ⟨-, hstring, hunknown⟩ := hall _ hfirst
  refine ⟨⟨n, fun fuel hfuel => (hn fuel hfuel).trans ?_⟩,
    ⟨k, fun fuel hfuel => (hk fuel hfuel).trans ?_⟩, hstring 1 (by decide),
    hunknown 3 (by decide) (by decide)⟩
  · decide
  · decide

end Cuore
