import Cuore.Framework.Bytes
import Cuore.Framework.Word

/-!
# The sleep type of S5 (`firmware/acpi/fadt.c`)

To turn the machine off, the kernel needs the value that the DSDT gives to its object `_S5_`.
`fadt_get_s5_types` does not interpret the table: it looks for the bytes of the name with the opcode
of a package behind them, steps over the length of the package and the count of its elements, and
takes the byte that follows for the value.

An element from 2 to 7 is two bytes long, a prefix and the value, and of these the prefix is taken.
The name is not looked for in the last eight bytes of the table, where the shortest package has just
enough room.  And a package whose header runs up to the end of the table is read beyond it.
`fadtGetS5Types_iff` says for which tables all of this does no harm.  `fadtS5Reads` is what is read;
the rest makes no difference (`fadtGetS5Types_congr`).
-/

namespace Cuore

open Memory

/-! ## The function -/

/-- The fields of `acpi_fadt_t` that are read here. -/
structure AcpiFadt where
  length : ℕ
  dsdt : ℕ
  xDsdt : ℕ

/-- The address of the DSDT in `fadt_get_s5_types`. -/
def dsdtAddr (fadt : AcpiFadt) (hhdmOffset : ℕ) : ℕ :=
  if fadt.length ≥ 148 ∧ fadt.xDsdt ≠ 0 then wadd fadt.xDsdt hhdmOffset
  else wadd fadt.dsdt hhdmOffset

/-- The bytes from an address on. -/
def dsdtAt (m : Memory) (addr : ℕ) : Memory := fun i => m (addr + i)

/-- `"_S5_"`. -/
def s5Name : List UInt8 := [0x5F, 0x53, 0x35, 0x5F]

instance decidableHolds (m : Memory) : ∀ a bs, Decidable (Holds m a bs)
  | _, [] => inferInstanceAs (Decidable True)
  | a, b :: bs =>
    have := decidableHolds m (a + 1) bs
    inferInstanceAs (Decidable (m a = b ∧ Holds m (a + 1) bs))

/-- By how much the length of a package is stepped over. -/
def pkgLengthBytes (pkgLen : ℕ) : ℕ :=
  if pkgLen >>> 6 = 0 then 1
  else if pkgLen >>> 6 = 1 then 2
  else if pkgLen >>> 6 = 2 then 3
  else 4

/-- The loop of `fadt_get_s5_types` from `i` on. -/
def s5Loop (dsdt : Memory) (dsdtLen : ℕ) : ℕ → ℕ → Option ℕ
  | 0, _ => none
  | fuel + 1, i =>
    if i < (dsdtLen + 2 ^ 32 - 8) % 2 ^ 32 then
      if Holds dsdt i s5Name then
        let i := (i + 4) % 2 ^ 32
        if dsdt i = 0x12 then
          let i := (i + 1) % 2 ^ 32
          let i := (i + pkgLengthBytes (dsdt i).toNat) % 2 ^ 32
          let i := (i + 1) % 2 ^ 32
          some ((dsdt i).toNat <<< 10 % 2 ^ 16)
        else s5Loop dsdt dsdtLen fuel ((i + 1) % 2 ^ 32)
      else s5Loop dsdt dsdtLen fuel ((i + 1) % 2 ^ 32)
    -- if not found
    else some (5 <<< 10)

/-- `fadt_get_s5_types`.  The loop has as many rounds as the counter has values; if it goes on after
that, it never ends. -/
def fadtGetS5Types (m : Memory) (hhdmOffset : ℕ) : Option AcpiFadt → Option ℕ
  | none => some (5 <<< 10)
  | some fadt =>
    let dsdt := dsdtAt m (dsdtAddr fadt hhdmOffset)
    s5Loop dsdt (dsdt.load 4 4) (2 ^ 32) 0

/-! ## The accesses -/

/-- The bytes that `memcmp` reads, up to the first one that differs. -/
def memcmpReads (m : Memory) : ℕ → List UInt8 → List ℕ
  | _, [] => []
  | a, b :: bs => if m a = b then a :: memcmpReads m (a + 1) bs else [a]

/-- The offsets that the loop reads. -/
def s5Reads (dsdt : Memory) (dsdtLen : ℕ) : ℕ → ℕ → List ℕ
  | 0, _ => []
  | fuel + 1, i =>
    if i < (dsdtLen + 2 ^ 32 - 8) % 2 ^ 32 then
      memcmpReads dsdt i s5Name ++
      if Holds dsdt i s5Name then
        let i := (i + 4) % 2 ^ 32
        i :: if dsdt i = 0x12 then
          let i := (i + 1) % 2 ^ 32
          i :: [((i + pkgLengthBytes (dsdt i).toNat) % 2 ^ 32 + 1) % 2 ^ 32]
        else s5Reads dsdt dsdtLen fuel ((i + 1) % 2 ^ 32)
      else s5Reads dsdt dsdtLen fuel ((i + 1) % 2 ^ 32)
    else []

/-- The offsets in the DSDT that `fadt_get_s5_types` reads. -/
def fadtS5Reads (m : Memory) (hhdmOffset : ℕ) (fadt : AcpiFadt) : List ℕ :=
  let dsdt := dsdtAt m (dsdtAddr fadt hhdmOffset)
  [4, 5, 6, 7] ++ s5Reads dsdt (dsdt.load 4 4) (2 ^ 32) 0

section Congr

variable {m m' dsdt dsdt' : Memory} {dsdtLen fuel i : ℕ}

/-- `memcmp` depends on what it reads. -/
lemma holds_congr {a : ℕ} {bs : List UInt8} (h : ∀ r ∈ memcmpReads m a bs, m' r = m r) :
    Holds m' a bs ↔ Holds m a bs := by
  induction bs generalizing a with
  | nil => exact Iff.rfl
  | cons b bs ih =>
    rw [memcmpReads] at h
    rw [Holds, Holds]
    split_ifs at h with hb
    · rw [List.forall_mem_cons] at h
      rw [h.1, ih h.2]
    · rw [h a (List.mem_singleton_self a)]
      simp only [hb, false_and]

/-- The loop depends on what it reads. -/
lemma s5Loop_congr (h : ∀ r ∈ s5Reads dsdt dsdtLen fuel i, dsdt' r = dsdt r) :
    s5Loop dsdt' dsdtLen fuel i = s5Loop dsdt dsdtLen fuel i := by
  induction fuel generalizing i with
  | zero => rfl
  | succ fuel ih =>
    rw [s5Reads] at h
    rw [s5Loop, s5Loop]
    by_cases hlt : i < (dsdtLen + 2 ^ 32 - 8) % 2 ^ 32
    · rw [if_pos hlt, List.forall_mem_append] at h
      obtain ⟨hname, h⟩ := h
      have hsame := holds_congr hname
      rw [if_pos hlt, if_pos hlt]
      by_cases hholds : Holds dsdt i s5Name
      · rw [if_pos hholds, List.forall_mem_cons] at h
        obtain ⟨hop, h⟩ := h
        rw [if_pos (hsame.mpr hholds), if_pos hholds]
        dsimp only
        rw [hop]
        by_cases hpkg : dsdt ((i + 4) % 2 ^ 32) = 0x12
        · rw [if_pos hpkg, List.forall_mem_cons, List.forall_mem_singleton] at h
          rw [if_pos hpkg, if_pos hpkg, h.1, h.2]
        · rw [if_neg hpkg] at h
          rw [if_neg hpkg, if_neg hpkg, ih h]
      · rw [if_neg hholds] at h
        rw [if_neg (hsame.not.mpr hholds), if_neg hholds, ih h]
    · rw [if_neg hlt, if_neg hlt]

/-- **`fadt_get_s5_types` depends on nothing but `fadtS5Reads`.** -/
lemma fadtGetS5Types_congr {hhdmOffset : ℕ} {fadt : AcpiFadt}
    (h : ∀ r ∈ fadtS5Reads m hhdmOffset fadt,
      m' (dsdtAddr fadt hhdmOffset + r) = m (dsdtAddr fadt hhdmOffset + r)) :
    fadtGetS5Types m' hhdmOffset (some fadt) = fadtGetS5Types m hhdmOffset (some fadt) := by
  rw [fadtS5Reads, List.forall_mem_append] at h
  obtain ⟨hlen, hloop⟩ := h
  have hload : (dsdtAt m' (dsdtAddr fadt hhdmOffset)).load 4 4 =
      (dsdtAt m (dsdtAddr fadt hhdmOffset)).load 4 4 :=
    load_eq_of_range' hlen
  rw [fadtGetS5Types, fadtGetS5Types, hload]
  exact s5Loop_congr hloop

end Congr

/-! ## The object -/

/-- A constant of one byte: its value, and the bytes it takes. -/
def amlByteConst (dsdt : Memory) (a : ℕ) : Option (ℕ × ℕ) :=
  if dsdt a = 0x00 then some (0, 1)
  else if dsdt a = 0x01 then some (1, 1)
  else if dsdt a = 0x0A then some ((dsdt (a + 1)).toNat, 2)
  else none

/-- The name with a package behind it. -/
def IsS5 (dsdt : Memory) (p : ℕ) : Prop := Holds dsdt p s5Name ∧ dsdt (p + 4) = 0x12

instance (dsdt : Memory) (p : ℕ) : Decidable (IsS5 dsdt p) := inferInstanceAs (Decidable (_ ∧ _))

/-- The only package named `_S5_` is at `q`.  The name follows the opcode of a definition or a
prefix of a path; the length of the package has `k` bytes, which the first one says; and the first
element is the constant `c`, of `n` bytes. -/
structure S5Package (dsdt : Memory) (dsdtLen q k c n : ℕ) : Prop where
  here : IsS5 dsdt q
  only : ∀ p, p + 4 < dsdtLen → IsS5 dsdt p → p = q
  named : 0 < q ∧ dsdt (q - 1) ∈ [0x08, 0x5C, 0x5E]
  pkgLength : k = (dsdt (q + 5)).toNat / 2 ^ 6 + 1
  element : amlByteConst dsdt (q + 6 + k) = some (c, n)
  le : c ≤ 7
  inside : q + 6 + k + n ≤ dsdtLen

/-- The loop comes from `i` to `p`. -/
inductive S5Visits (dsdt : Memory) (dsdtLen : ℕ) : ℕ → ℕ → Prop
  | here {i : ℕ} : i + 8 < dsdtLen → S5Visits dsdt dsdtLen i i
  | pass {i p : ℕ} : i + 8 < dsdtLen → ¬Holds dsdt i s5Name → S5Visits dsdt dsdtLen (i + 1) p →
      S5Visits dsdt dsdtLen i p
  | skip {i p : ℕ} : i + 8 < dsdtLen → Holds dsdt i s5Name → dsdt (i + 4) ≠ 0x12 →
      S5Visits dsdt dsdtLen (i + 5) p → S5Visits dsdt dsdtLen i p

/-- Where the first element of a package is looked for. -/
def s5Element (dsdt : Memory) (p : ℕ) : ℕ :=
  (p + 6 + pkgLengthBytes (dsdt (p + 5)).toNat) % 2 ^ 32

section Scan

variable {dsdt : Memory} {dsdtLen fuel i p q : ℕ}

/-- In a table of at least eight bytes the bound of the loop does not wrap. -/
lemma lt_bound_iff (hlen : 8 ≤ dsdtLen) (hword : dsdtLen < 2 ^ 32) :
    i < (dsdtLen + 2 ^ 32 - 8) % 2 ^ 32 ↔ i + 8 < dsdtLen := by
  omega

lemma pkgLengthBytes_eq (pkgLen : UInt8) :
    pkgLengthBytes pkgLen.toNat = pkgLen.toNat / 2 ^ 6 + 1 := by
  have hlt := pkgLen.toNat_lt
  rw [pkgLengthBytes, Nat.shiftRight_eq_div_pow]
  split_ifs <;> omega

/-- What a round of the loop does, and what it reads. -/
lemma s5Loop_end (hlen : 8 ≤ dsdtLen) (hword : dsdtLen < 2 ^ 32) (h : ¬i + 8 < dsdtLen) :
    s5Loop dsdt dsdtLen (fuel + 1) i = some (5 <<< 10) ∧
      s5Reads dsdt dsdtLen (fuel + 1) i = [] := by
  have hbound := mt (lt_bound_iff hlen hword).mp h
  rw [s5Loop, s5Reads, if_neg hbound, if_neg hbound]
  exact ⟨rfl, rfl⟩

lemma s5Loop_pass (hlen : 8 ≤ dsdtLen) (hword : dsdtLen < 2 ^ 32) (h : i + 8 < dsdtLen)
    (hname : ¬Holds dsdt i s5Name) :
    s5Loop dsdt dsdtLen (fuel + 1) i = s5Loop dsdt dsdtLen fuel (i + 1) ∧
      s5Reads dsdt dsdtLen (fuel + 1) i =
        memcmpReads dsdt i s5Name ++ s5Reads dsdt dsdtLen fuel (i + 1) := by
  have hbound := (lt_bound_iff hlen hword).mpr h
  rw [s5Loop, s5Reads, if_pos hbound, if_pos hbound, if_neg hname, if_neg hname,
    Nat.mod_eq_of_lt (by omega : i + 1 < 2 ^ 32)]
  exact ⟨rfl, rfl⟩

lemma s5Loop_skip (hlen : 8 ≤ dsdtLen) (hword : dsdtLen < 2 ^ 32) (h : i + 8 < dsdtLen)
    (hname : Holds dsdt i s5Name) (hop : dsdt (i + 4) ≠ 0x12) :
    s5Loop dsdt dsdtLen (fuel + 1) i = s5Loop dsdt dsdtLen fuel (i + 5) ∧
      s5Reads dsdt dsdtLen (fuel + 1) i =
        memcmpReads dsdt i s5Name ++ (i + 4) :: s5Reads dsdt dsdtLen fuel (i + 5) := by
  have hbound := (lt_bound_iff hlen hword).mpr h
  rw [s5Loop, s5Reads, if_pos hbound, if_pos hbound, if_pos hname, if_pos hname]
  simp only [Nat.mod_eq_of_lt (by omega : i + 4 < 2 ^ 32), if_neg hop]
  rw [Nat.mod_eq_of_lt (by omega : i + 4 + 1 < 2 ^ 32)]
  exact ⟨rfl, rfl⟩

lemma s5Loop_found (hlen : 8 ≤ dsdtLen) (hword : dsdtLen < 2 ^ 32) (h : i + 8 < dsdtLen)
    (hfound : IsS5 dsdt i) :
    s5Loop dsdt dsdtLen (fuel + 1) i = some ((dsdt (s5Element dsdt i)).toNat <<< 10 % 2 ^ 16) ∧
      s5Reads dsdt dsdtLen (fuel + 1) i =
        memcmpReads dsdt i s5Name ++ [i + 4, i + 5, s5Element dsdt i] := by
  obtain ⟨hname, hop⟩ := hfound
  have helement : ((i + 5 + pkgLengthBytes (dsdt (i + 5)).toNat) % 2 ^ 32 + 1) % 2 ^ 32 =
      s5Element dsdt i := by
    rw [s5Element]
    omega
  have hbound := (lt_bound_iff hlen hword).mpr h
  rw [s5Loop, s5Reads, if_pos hbound, if_pos hbound, if_pos hname, if_pos hname]
  simp only [Nat.mod_eq_of_lt (by omega : i + 4 < 2 ^ 32), if_pos hop,
    Nat.mod_eq_of_lt (by omega : i + 4 + 1 < 2 ^ 32)]
  rw [helement]
  exact ⟨rfl, rfl⟩

/-- The cases of a round. -/
lemma s5_cases (dsdt : Memory) (dsdtLen i : ℕ) :
    ¬i + 8 < dsdtLen ∨ i + 8 < dsdtLen ∧ (¬Holds dsdt i s5Name ∨
      (Holds dsdt i s5Name ∧ dsdt (i + 4) ≠ 0x12) ∨ IsS5 dsdt i) := by
  rw [IsS5]
  tauto

/-! ## The value -/

/-- A name that follows an opcode is not passed over: the bytes of an earlier name end before. -/
lemma add_five_le (hname : Holds dsdt i s5Name) (hopcode : dsdt (q - 1) ∈ [0x08, 0x5C, 0x5E])
    (hlt : i < q) : i + 5 ≤ q := by
  by_contra hclose
  simp only [Holds, s5Name] at hname
  obtain ⟨h0, h1, h2, h3, -⟩ := hname
  obtain rfl | rfl | rfl | rfl : q = i + 1 ∨ q = i + 2 ∨ q = i + 3 ∨ q = i + 4 := by omega
  all_goals simp_all

/-- **What the loop returns** when the name is at one place only. -/
lemma s5Loop_eq (hlen : 8 ≤ dsdtLen) (hword : dsdtLen < 2 ^ 32) (hfuel : dsdtLen - i < fuel)
    (hhere : IsS5 dsdt q) (honly : ∀ p, p + 4 < dsdtLen → IsS5 dsdt p → p = q)
    (hopcode : dsdt (q - 1) ∈ [0x08, 0x5C, 0x5E]) (hle : i ≤ q) :
    s5Loop dsdt dsdtLen fuel i =
      some (if q + 8 < dsdtLen then (dsdt (s5Element dsdt q)).toNat <<< 10 % 2 ^ 16
        else 5 <<< 10) := by
  induction fuel generalizing i with
  | zero => omega
  | succ fuel ih =>
    rcases s5_cases dsdt dsdtLen i with hend | ⟨hi, hname | ⟨hname, hop⟩ | hfound⟩
    · rw [(s5Loop_end hlen hword hend).1, if_neg (by omega)]
    · have hne : i ≠ q := fun heq => hname (heq ▸ hhere.1)
      rw [(s5Loop_pass hlen hword hi hname).1]
      exact ih (by omega) (by omega)
    · have hne : i ≠ q := fun heq => hop (heq ▸ hhere.2)
      rw [(s5Loop_skip hlen hword hi hname hop).1]
      exact ih (by omega) (add_five_le hname hopcode (by omega))
    · obtain rfl := honly i (by omega) hfound
      rw [(s5Loop_found hlen hword hi hfound).1, if_pos hi]

lemma amlByteConst_size_pos {a c n : ℕ} (h : amlByteConst dsdt a = some (c, n)) : 1 ≤ n := by
  rw [amlByteConst] at h
  split_ifs at h <;> simp at h <;> omega

/-- **The value of the object**: the first element has to be a constant without a prefix, and the
name must not be in the last eight bytes. -/
lemma S5Package.s5Loop_iff {k c n : ℕ} (h : S5Package dsdt dsdtLen q k c n)
    (hword : dsdtLen < 2 ^ 32) (hfuel : dsdtLen < fuel) :
    s5Loop dsdt dsdtLen fuel 0 = some (c <<< 10) ↔
      dsdt (q + 6 + k) ≠ 0x0A ∧ q + 8 < dsdtLen := by
  have hinside := h.inside
  have hk : s5Element dsdt q = q + 6 + k := by
    rw [s5Element, pkgLengthBytes_eq, ← h.pkgLength, Nat.mod_eq_of_lt (by omega)]
  have hpos : 1 ≤ k := by
    have hform := h.pkgLength
    omega
  have hsize := amlByteConst_size_pos h.element
  rw [s5Loop_eq (by omega) hword (by omega) h.here h.only h.named.2 (Nat.zero_le q), hk,
    Option.some_inj, Nat.shiftLeft_eq c]
  have helement := h.element
  have hle := h.le
  rw [amlByteConst] at helement
  split_ifs at helement with hzero hone hbyte
  · obtain ⟨rfl, rfl⟩ : 0 = c ∧ 1 = n := by simpa using helement
    rw [hzero]
    split_ifs with hlt <;> simp [hlt]
  · obtain ⟨rfl, rfl⟩ : 1 = c ∧ 1 = n := by simpa using helement
    rw [hone]
    split_ifs with hlt <;> simp [hlt]
  · obtain ⟨-, rfl⟩ : (dsdt (q + 6 + k + 1)).toNat = c ∧ 2 = n := by simpa using helement
    rw [hbyte, if_pos (by omega : q + 8 < dsdtLen)]
    refine iff_of_false ?_ fun hne => hne.1 rfl
    rw [show (0x0A : UInt8).toNat <<< 10 % 2 ^ 16 = 10 * 2 ^ 10 from rfl]
    omega

/-- The loop ends. -/
lemma s5Loop_isSome (hlen : 8 ≤ dsdtLen) (hword : dsdtLen < 2 ^ 32) (hfuel : dsdtLen - i < fuel) :
    (s5Loop dsdt dsdtLen fuel i).isSome := by
  induction fuel generalizing i with
  | zero => omega
  | succ fuel ih =>
    rcases s5_cases dsdt dsdtLen i with hend | ⟨hi, hname | ⟨hname, hop⟩ | hfound⟩
    · rw [(s5Loop_end hlen hword hend).1, Option.isSome_some]
    · rw [(s5Loop_pass hlen hword hi hname).1]
      exact ih (by omega)
    · rw [(s5Loop_skip hlen hword hi hname hop).1]
      exact ih (by omega)
    · rw [(s5Loop_found hlen hword hi hfound).1, Option.isSome_some]

/-! ## The reads -/

lemma lt_of_mem_memcmpReads {m : Memory} {a r : ℕ} {bs : List UInt8}
    (h : r ∈ memcmpReads m a bs) : r < a + bs.length := by
  induction bs generalizing a with
  | nil => exact absurd h List.not_mem_nil
  | cons b bs ih =>
    rw [List.length_cons]
    rw [memcmpReads] at h
    split_ifs at h
    · rcases List.mem_cons.mp h with rfl | h
      · omega
      · have hr := ih h
        omega
    · obtain rfl := List.mem_singleton.mp h
      omega

/-- The comparison itself stays inside. -/
lemma memcmpReads_lt (h : i + 8 < dsdtLen) : ∀ r ∈ memcmpReads dsdt i s5Name, r < dsdtLen := by
  intro r hr
  have hlt := lt_of_mem_memcmpReads hr
  rw [show s5Name.length = 4 from rfl] at hlt
  omega

/-- A package that the loop comes to. -/
def S5Stops (dsdt : Memory) (dsdtLen i p : ℕ) : Prop := S5Visits dsdt dsdtLen i p ∧ IsS5 dsdt p

lemma s5Stops_end (h : ¬i + 8 < dsdtLen) : ¬S5Stops dsdt dsdtLen i p := by
  rintro ⟨hvisits, -⟩
  cases hvisits <;> exact h ‹_›

lemma s5Stops_pass (h : i + 8 < dsdtLen) (hname : ¬Holds dsdt i s5Name) :
    S5Stops dsdt dsdtLen i p ↔ S5Stops dsdt dsdtLen (i + 1) p := by
  constructor
  · rintro ⟨hvisits, hp⟩
    cases hvisits with
    | here => exact absurd hp.1 hname
    | pass _ _ hrest => exact ⟨hrest, hp⟩
    | skip _ hholds _ _ => exact absurd hholds hname
  · exact fun hstops => ⟨.pass h hname hstops.1, hstops.2⟩

lemma s5Stops_skip (h : i + 8 < dsdtLen) (hname : Holds dsdt i s5Name)
    (hop : dsdt (i + 4) ≠ 0x12) :
    S5Stops dsdt dsdtLen i p ↔ S5Stops dsdt dsdtLen (i + 5) p := by
  constructor
  · rintro ⟨hvisits, hp⟩
    cases hvisits with
    | here => exact absurd hp.2 hop
    | pass _ hnot _ => exact absurd hname hnot
    | skip _ _ _ hrest => exact ⟨hrest, hp⟩
  · exact fun hstops => ⟨.skip h hname hop hstops.1, hstops.2⟩

lemma s5Stops_found (h : i + 8 < dsdtLen) (hfound : IsS5 dsdt i) :
    S5Stops dsdt dsdtLen i p ↔ p = i := by
  constructor
  · rintro ⟨hvisits, -⟩
    cases hvisits with
    | here => rfl
    | pass _ hnot _ => exact absurd hfound.1 hnot
    | skip _ _ hop _ => exact absurd hfound.2 hop
  · rintro rfl
    exact ⟨.here h, hfound⟩

/-- **The loop reads inside the table** unless the element of the package it stops at is outside. -/
lemma s5Reads_lt_iff (hlen : 8 ≤ dsdtLen) (hword : dsdtLen < 2 ^ 32) (hfuel : dsdtLen - i < fuel) :
    (∀ r ∈ s5Reads dsdt dsdtLen fuel i, r < dsdtLen) ↔
      ∀ p, S5Stops dsdt dsdtLen i p → s5Element dsdt p < dsdtLen := by
  induction fuel generalizing i with
  | zero => omega
  | succ fuel ih =>
    rcases s5_cases dsdt dsdtLen i with hend | ⟨hi, hname | ⟨hname, hop⟩ | hfound⟩
    · rw [(s5Loop_end hlen hword hend).2]
      exact iff_of_true (fun _ h => absurd h List.not_mem_nil)
        fun p hp => absurd hp (s5Stops_end hend)
    · rw [(s5Loop_pass hlen hword hi hname).2, List.forall_mem_append, ih (by omega)]
      simp only [s5Stops_pass hi hname]
      exact and_iff_right (memcmpReads_lt hi)
    · rw [(s5Loop_skip hlen hword hi hname hop).2, List.forall_mem_append, List.forall_mem_cons,
        ih (by omega)]
      simp only [s5Stops_skip hi hname hop]
      rw [and_iff_right (memcmpReads_lt hi), and_iff_right (by omega)]
    · rw [(s5Loop_found hlen hword hi hfound).2, List.forall_mem_append]
      simp only [s5Stops_found hi hfound, forall_eq, List.forall_mem_cons]
      rw [and_iff_right (memcmpReads_lt hi), and_iff_right (by omega), and_iff_right (by omega)]
      exact and_iff_left (fun _ h => absurd h List.not_mem_nil)

end Scan

/-- **Which tables `fadt_get_s5_types` decodes, and which it reads inside.**  For every DSDT with one
package named `_S5_`, whatever form its length has and whatever constant from 0 to 7 its first
element is, the value is the constant if and only if it is written without a prefix and the name is
not in the last eight bytes of the table.  For every DSDT at all, the reads are inside if and only
if the table has its first eight bytes and the element of the package at which the scan stops is
inside; and then the function returns. -/
theorem fadtGetS5Types_iff (m : Memory) (hhdmOffset : ℕ) (fadt : AcpiFadt) :
    let dsdt := dsdtAt m (dsdtAddr fadt hhdmOffset)
    let dsdtLen := dsdt.load 4 4
    (∀ q k c n, S5Package dsdt dsdtLen q k c n →
      (fadtGetS5Types m hhdmOffset (some fadt) = some (c <<< 10) ↔
        dsdt (q + 6 + k) ≠ 0x0A ∧ q + 8 < dsdtLen)) ∧
    ((∀ r ∈ fadtS5Reads m hhdmOffset fadt, r < dsdtLen) ↔
      8 ≤ dsdtLen ∧ ∀ p, S5Visits dsdt dsdtLen 0 p → IsS5 dsdt p → s5Element dsdt p < dsdtLen) ∧
    (8 ≤ dsdtLen → (fadtGetS5Types m hhdmOffset (some fadt)).isSome) := by
  intro dsdt dsdtLen
  have hword : dsdtLen < 2 ^ 32 := load_lt dsdt 4 4
  refine ⟨fun q k c n h => h.s5Loop_iff hword hword, ?_, fun hlen =>
    s5Loop_isSome hlen hword (by omega)⟩
  have hfirst : (∀ r ∈ [4, 5, 6, 7], r < dsdtLen) ↔ 8 ≤ dsdtLen := by
    simp only [List.forall_mem_cons]
    simp
    omega
  have hreads : fadtS5Reads m hhdmOffset fadt =
      [4, 5, 6, 7] ++ s5Reads dsdt dsdtLen (2 ^ 32) 0 := rfl
  rw [hreads, List.forall_mem_append, hfirst]
  refine and_congr_right fun hlen => ?_
  rw [s5Reads_lt_iff hlen hword (by omega)]
  exact forall_congr' fun p => and_imp

/-- A table of twenty bytes whose package starts with `OneOp`. -/
theorem fadtGetS5Types_iff_one :
    let table : List UInt8 := [0x44, 0x53, 0x44, 0x54, 20, 0, 0, 0, 0x08, 0x5F, 0x53, 0x35, 0x5F,
      0x12, 0x06, 0x04, 0x01, 0x01, 0x00, 0x00]
    fadtGetS5Types (fun a => table.getD (a - 0xFFFF80000FE00000) 0) 0xFFFF800000000000
      (some ⟨244, 0, 0x0FE00000⟩) = some (1 <<< 10) := by
  intro table
  have hpackage : S5Package (dsdtAt (fun a => table.getD (a - 0xFFFF80000FE00000) 0)
      (dsdtAddr ⟨244, 0, 0x0FE00000⟩ 0xFFFF800000000000)) 20 9 1 1 1 := by
    have honly : ∀ p < 16, IsS5 (dsdtAt (fun a => table.getD (a - 0xFFFF80000FE00000) 0)
        (dsdtAddr ⟨244, 0, 0x0FE00000⟩ 0xFFFF800000000000)) p → p = 9 := by decide +kernel
    exact ⟨by decide +kernel, fun p hp => honly p (by omega), by decide +kernel,
      by decide +kernel, by decide +kernel, by decide, by decide⟩
  exact ((fadtGetS5Types_iff _ 0xFFFF800000000000 ⟨244, 0, 0x0FE00000⟩).1 9 1 1 1 hpackage).mpr
    (by decide +kernel)

/-- A table whose package starts with the constant 5 as a prefix and a byte.  The prefix is
returned. -/
theorem fadtGetS5Types_prefix :
    let table : List UInt8 := [0x44, 0x53, 0x44, 0x54, 22, 0, 0, 0, 0x08, 0x5F, 0x53, 0x35, 0x5F,
      0x12, 0x08, 0x04, 0x0A, 0x05, 0x0A, 0x05, 0x00, 0x00]
    let m : Memory := fun a => table.getD (a - 0xFFFF80000FE00000) 0
    let fadt : AcpiFadt := ⟨244, 0, 0x0FE00000⟩
    S5Package (dsdtAt m (dsdtAddr fadt 0xFFFF800000000000)) 22 9 1 5 2 ∧
      fadtGetS5Types m 0xFFFF800000000000 (some fadt) = some (10 <<< 10) := by
  intro table m fadt
  have honly : ∀ p < 18, IsS5 (dsdtAt m (dsdtAddr fadt 0xFFFF800000000000)) p → p = 9 := by
    decide +kernel
  exact ⟨⟨by decide +kernel, fun p hp => honly p (by omega), by decide +kernel,
    by decide +kernel, by decide +kernel, by decide, by decide⟩, by decide +kernel⟩

end Cuore
