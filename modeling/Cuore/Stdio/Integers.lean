import Cuore.Stdio.Bounded

/-!
# Integers are formatted correctly and parse back (`stdio.c`)

`_internal_printf_fmt_uint` fills the array `tmp` from the end, by one of five loops.  `fillTmp` are
the loops with the index at which they store each digit, and `fillTmp_eq` says that they store what
`uintDigits` lists: the numeral of the value (`uintDigits_eq_numeral`).  What the function then
emits is a field (`intField`), with the padding where the flags ask for it.

`strtoull` is modelled on the bytes from `nptr` on.  On digits it computes their value
(`strtoullLoop_digits`), so it inverts the conversions whose fields are numerals, with or without
the prefix and zeros of `%p`.
-/

namespace Cuore

variable {v base n i : ℕ} {upper : Bool} {tmp : List UInt8} {digit : UInt8 → Option ℕ}

/-! ## Numerals and fields -/

/-- The character of the digit `d`. -/
def digitSym (upper : Bool) (d : ℕ) : UInt8 :=
  if d < 10 then UInt8.ofNat (48 + d) else UInt8.ofNat ((if upper then 65 else 97) + (d - 10))

/-- The digits of a number, most significant first; only zero itself has a leading zero. -/
def numeralDigits (base v : ℕ) : List ℕ := if v = 0 then [0] else (Nat.digits base v).reverse

/-- The numeral of a number. -/
def numeral (base : ℕ) (upper : Bool) (v : ℕ) : List UInt8 :=
  (numeralDigits base v).map (digitSym upper)

/-- A numeral with its prefix, and padded to the width: with spaces behind it, with zeros between
the two, or with spaces in front. -/
def intField (width : ℕ) (flags : PrintfFlags) (pre num : List UInt8) : List UInt8 :=
  let padding := width - (pre.length + num.length)
  if flags.left then pre ++ num ++ List.replicate padding (ascii ' ')
  else if flags.zero then pre ++ List.replicate padding (ascii '0') ++ num
  else List.replicate padding (ascii ' ') ++ pre ++ num

/-- What comes in front of the magnitude of a signed value. -/
def signPrefix (val : ℤ) (flags : PrintfFlags) : List UInt8 :=
  if val < 0 then [ascii '-']
  else if flags.sign then [ascii '+']
  else if flags.space then [ascii ' ']
  else []

lemma length_intField {width : ℕ} {flags : PrintfFlags} {pre num : List UInt8} :
    (intField width flags pre num).length = max width (pre.length + num.length) := by
  unfold intField
  split_ifs <;> simp only [List.length_append, List.length_replicate] <;> omega

lemma intField_zero {flags : PrintfFlags} {pre num : List UInt8} :
    intField 0 flags pre num = pre ++ num := by
  unfold intField
  rw [Nat.zero_sub]
  split_ifs <;> simp

lemma digitChar_eq_digitSym (hbase : base ≤ 16) {d : ℕ} (hd : d < base) :
    digitChar base upper d = digitSym upper d := by
  have htable : ∀ upper, ∀ d < 16, (digitChars upper).getD d 0 = digitSym upper d := by decide
  unfold digitChar
  split_ifs with hdec
  · exact (if_pos (by omega)).symm
  · exact htable upper d (by omega)

lemma mem_numeralDigits (hbase : 1 < base) : ∀ d ∈ numeralDigits base v, d < base := by
  intro d hd
  unfold numeralDigits at hd
  split_ifs at hd
  · rw [List.mem_singleton] at hd
    omega
  · exact Nat.digits_lt_base hbase (List.mem_reverse.mp hd)

/-- **The digits that are stored** are the numeral. -/
lemma uintDigits_eq_numeral (hv : v < word) (hbase : 1 < base) (hle : base ≤ 16) :
    uintDigits v base upper = numeral base upper v := by
  unfold numeral numeralDigits
  by_cases hzero : v = 0
  · rw [if_pos hzero, uintDigits, if_pos hzero]
    rfl
  · rw [if_neg hzero, uintDigits_eq (Nat.pos_of_ne_zero hzero) hv hbase, List.map_reverse]
    congr 1
    exact List.map_congr_left fun d hd =>
      digitChar_eq_digitSym hle (Nat.digits_lt_base hbase hd)

lemma length_numeral_le {k : ℕ} (hbase : 1 < base) (hk : 0 < k) (hv : v < base ^ k) :
    (numeral base upper v).length ≤ k := by
  rw [numeral, List.length_map, numeralDigits]
  split_ifs
  · exact hk
  · rw [List.length_reverse]
    exact (Nat.digits_length_le_iff hbase v).mpr hv

/-! ## The array `tmp` -/

/-- The index `i`, and what has been stored into `tmp`, the last store first. -/
structure TmpState where
  i : ℤ
  stores : List (ℤ × UInt8)

/-- `tmp[--i] = c`. -/
def TmpState.push (t : TmpState) (c : UInt8) : TmpState := ⟨t.i - 1, (t.i - 1, c) :: t.stores⟩

/-- `digitLoop`, with the indices (`digitStores_eq`). -/
def digitStores (base : ℕ) (digit : ℕ → UInt8) : ℕ → ℕ → TmpState → TmpState
  | 0, _, t => t
  | n + 1, val, t =>
    if val = 0 then t else digitStores base digit n (val / base) (t.push (digit (val % base)))

/-- `pairLoop`, with the indices (`pairStores_eq`). -/
def pairStores : ℕ → ℕ → TmpState → ℕ × TmpState
  | 0, val, t => (val, t)
  | n + 1, val, t =>
    if val ≥ 100 then
      let rem := val % 100
      pairStores n (val / 100)
        ((t.push (map100.getD (2 * rem + 1) 0)).push (map100.getD (2 * rem) 0))
    else (val, t)

/-- `uintDigits`, with the indices (`fillTmp_eq`). -/
def fillTmp (val base : ℕ) (upper : Bool) : TmpState :=
  let t : TmpState := ⟨65, []⟩
  if val = 0 then t.push (ascii '0')
  else if base = 2 then digitStores 2 (fun d => UInt8.ofNat (48 + d)) 64 val t
  else if base = 10 then
    let (val, t) := pairStores 64 val t
    if val ≥ 10 then (t.push (map100.getD (2 * val + 1) 0)).push (map100.getD (2 * val) 0)
    else t.push (UInt8.ofNat (48 + val))
  else digitStores base (fun d => (digitChars upper).getD d 0) 64 val t

/-- The digits at the end of `tmp`. -/
def tmpOf : List UInt8 → TmpState
  | [] => ⟨65, []⟩
  | c :: tmp => (tmpOf tmp).push c

lemma digitStores_eq {digit : ℕ → UInt8} :
    digitStores base digit n v (tmpOf tmp) = tmpOf (digitLoop base digit n v tmp) := by
  induction n generalizing v tmp with
  | zero => rfl
  | succ n ih =>
    rw [digitStores, digitLoop]
    split_ifs
    · rfl
    · exact @ih (v / base) (digit (v % base) :: tmp)

lemma pairStores_eq :
    pairStores n v (tmpOf tmp) = ((pairLoop n v tmp).1, tmpOf (pairLoop n v tmp).2) := by
  induction n generalizing v tmp with
  | zero => rfl
  | succ n ih =>
    rw [pairStores, pairLoop]
    split_ifs
    · exact @ih (v / 100) (map100.getD (2 * (v % 100)) 0 ::
        map100.getD (2 * (v % 100) + 1) 0 :: tmp)
    · rfl

/-- **The loops store the digits at the end of `tmp`.** -/
lemma fillTmp_eq : fillTmp v base upper = tmpOf (uintDigits v base upper) := by
  have hstart : TmpState.mk 65 [] = tmpOf [] := rfl
  unfold fillTmp uintDigits
  dsimp only
  rw [hstart, pairStores_eq, digitStores_eq, digitStores_eq]
  dsimp only
  split_ifs <;> rfl

lemma tmpOf_i : (tmpOf tmp).i = 65 - tmp.length := by
  induction tmp with
  | nil => rfl
  | cons c tmp ih =>
    have hpush : (tmpOf (c :: tmp)).i = (tmpOf tmp).i - 1 := rfl
    rw [List.length_cons, hpush]
    omega

/-- The digits lie in a row, the last one at index 64. -/
lemma mem_stores_tmpOf {j : ℤ} {c : UInt8} :
    (j, c) ∈ (tmpOf tmp).stores ↔ ∃ k : ℕ, tmp[k]? = some c ∧ j = (tmpOf tmp).i + k := by
  induction tmp with
  | nil => simp [tmpOf]
  | cons d tmp ih =>
    have hpush : (tmpOf (d :: tmp)).i = (tmpOf tmp).i - 1 := rfl
    have hstores : (tmpOf (d :: tmp)).stores = ((tmpOf tmp).i - 1, d) :: (tmpOf tmp).stores := rfl
    rw [hstores, hpush, List.mem_cons, ih]
    constructor
    · rintro (heq | ⟨k, hk, hj⟩)
      · obtain ⟨rfl, rfl⟩ := Prod.mk.inj heq
        exact ⟨0, rfl, by omega⟩
      · exact ⟨k + 1, hk, by omega⟩
    · rintro ⟨_ | k, hk, hj⟩
      · exact .inl (Prod.ext (by omega) (Option.some.inj hk).symm)
      · exact .inr ⟨k, hk, by omega⟩

/-- All of the stores are inside of `tmp`, which has 66 bytes, and the bytes from `i` up to index 64
are those of `num`. -/
structure TmpHolds (t : TmpState) (num : List UInt8) : Prop where
  inside : ∀ s ∈ t.stores, 0 ≤ s.1 ∧ s.1 < 66
  first : 0 ≤ t.i
  numlen : 65 - t.i = num.length
  bytes : ∀ k : ℕ, ∀ c, num[k]? = some c → (t.i + k, c) ∈ t.stores

/-- **The digits fit.** -/
lemma tmpHolds_of_length (hlen : tmp.length ≤ 65) : TmpHolds (tmpOf tmp) tmp where
  inside s hs := by
    obtain ⟨k, hk, hj⟩ := mem_stores_tmpOf.mp hs
    obtain ⟨hlt, -⟩ := List.getElem?_eq_some_iff.mp hk
    rw [tmpOf_i] at hj
    omega
  first := by
    rw [tmpOf_i]
    omega
  numlen := by
    rw [tmpOf_i]
    omega
  bytes k c hk := mem_stores_tmpOf.mpr ⟨k, hk, rfl⟩

/-! ## `_internal_printf_fmt_uint` and `_internal_printf_fmt_signed` -/

/-- **What `_internal_printf_fmt_uint` emits.** -/
lemma text_fmtUint {width : ℤ} {flags : PrintfFlags} {pre : List UInt8} (hv : v < word)
    (hbase : 1 < base) (hle : base ≤ 16) :
    printfText (fmtUint v base width flags upper pre) =
      intField width.toNat flags pre (numeral base upper v) := by
  have hpad : (if width > (((numeral base upper v).length : ℕ) : ℤ) + (pre.length : ℕ) then
      width - (((numeral base upper v).length : ℕ) + (pre.length : ℕ)) else (0 : ℤ)).toNat =
      width.toNat - (pre.length + (numeral base upper v).length) := by
    split_ifs <;> omega
  unfold fmtUint intField
  rw [uintDigits_eq_numeral hv hbase hle]
  dsimp only
  rcases flags with ⟨alt, zero, left, space, sign⟩
  cases left <;> cases zero <;>
    simp [printfText, PrintfCall.text, hpad]

/-- **What `_internal_printf_fmt_signed` emits**: the sign and the magnitude. -/
lemma text_fmtSigned {val width : ℤ} {flags : PrintfFlags} (hmin : -2 ^ 63 ≤ val)
    (hmax : val < 2 ^ 63) : printfText (fmtSigned val width flags) =
      intField width.toNat flags (signPrefix val flags) (numeral 10 false val.natAbs) := by
  have hword : val.natAbs < word := by
    unfold word
    omega
  have hmagnitude : val < 0 → wadd (-(val + 1)).toNat 1 = val.natAbs := by
    intro hneg
    rw [wadd_of_lt (by unfold word at *; omega)]
    omega
  unfold fmtSigned signPrefix
  split_ifs with hneg
  · rw [hmagnitude hneg, text_fmtUint hword (by decide) (by decide)]
  all_goals
    rw [show val.toNat = val.natAbs by omega]
    exact text_fmtUint hword (by decide) (by decide)

/-! ## `strtoull` -/

/-- The value of a decimal digit. -/
def decValue (c : UInt8) : Option ℕ :=
  if isDigit c then some (c.toNat - 48) else none

/-- The value of a hexadecimal digit. -/
def hexValue (c : UInt8) : Option ℕ :=
  if isDigit c then some (c.toNat - 48)
  else if ascii 'a' ≤ c ∧ c ≤ ascii 'f' then some (c.toNat - 97 + 10)
  else if ascii 'A' ≤ c ∧ c ≤ ascii 'F' then some (c.toNat - 65 + 10)
  else none

/-- The two loops of `strtoull`, which stop at the first byte that is no digit. -/
def strtoullLoop (base : ℕ) (digit : UInt8 → Option ℕ) (val : ℕ) : List UInt8 → ℕ
  | [] => val
  | c :: nptr =>
    match digit c with
    | some d => strtoullLoop base digit ((val * base + d) % word) nptr
    | none => val

/-- `strtoull` of the bytes from `nptr` on. -/
def strtoull (nptr : List UInt8) : ℕ :=
  if nptr.take 2 = asciiString "0x" ∨ nptr.take 2 = asciiString "0X" then
    strtoullLoop 16 hexValue 0 (nptr.drop 2)
  else strtoullLoop 10 decValue 0 nptr

/-- **Digits are read as their value**, modulo 2^64. -/
lemma strtoullLoop_digits {ds : List ℕ} {behind : List UInt8}
    (hdigit : ∀ d ∈ ds, digit (digitSym upper d) = some d) (hstop : digit 0 = none) :
    strtoullLoop base digit (v % word) (ds.map (digitSym upper) ++ 0 :: behind) =
      ds.foldl (fun val d => val * base + d) v % word := by
  induction ds generalizing v with
  | nil => simp [strtoullLoop, hstop]
  | cons d ds ih =>
    rw [List.forall_mem_cons] at hdigit
    have hnext : (v % word * base + d) % word = (v * base + d) % word :=
      (Nat.mod_modEq v word).mul_right base |>.add_right d
    rw [List.map_cons, List.cons_append, strtoullLoop, hdigit.1, List.foldl_cons]
    dsimp only
    rw [hnext]
    exact ih hdigit.2

/-- The value of the digits of a numeral. -/
lemma foldl_numeralDigits :
    (numeralDigits base v).foldl (fun val d => val * base + d) 0 = v := by
  unfold numeralDigits
  split_ifs with hzero
  · simp [hzero]
  · rw [List.foldl_reverse]
    refine Eq.trans ?_ (Nat.ofDigits_digits base v)
    rw [Nat.ofDigits_eq_foldr]
    refine congrFun (congrArg₂ _ ?_ rfl) _
    funext d val
    rw [Nat.cast_id, Nat.add_comm, Nat.mul_comm]

lemma decValue_digitSym {d : ℕ} (hd : d < 10) : decValue (digitSym upper d) = some d := by
  have hall : ∀ upper, ∀ d < 10, decValue (digitSym upper d) = some d := by decide
  exact hall upper d hd

lemma hexValue_digitSym {d : ℕ} (hd : d < 16) : hexValue (digitSym upper d) = some d := by
  have hall : ∀ upper, ∀ d < 16, hexValue (digitSym upper d) = some d := by decide
  exact hall upper d hd

/-- **A decimal numeral parses back.** -/
lemma strtoull_decimal {behind : List UInt8} (hv : v < word) :
    strtoull (numeral 10 upper v ++ 0 :: behind) = v := by
  have hdigits : ∀ d ∈ numeralDigits 10 v, decValue (digitSym upper d) = some d :=
    fun d hd => decValue_digitSym (mem_numeralDigits (by decide) d hd)
  -- the second byte is a digit or the terminating zero
  have hfront : ∀ x, decValue x = none → x ≠ 0 →
      (numeral 10 upper v ++ 0 :: behind).take 2 ≠ [ascii '0', x] := by
    intro x hx hne heq
    rw [numeral] at heq
    generalize numeralDigits 10 v = ds at heq hdigits
    rcases ds with _ | ⟨d, _ | ⟨d', ds⟩⟩
    · cases heq
    · exact hne (List.cons.inj (List.cons.inj heq).2).1.symm
    · rw [List.forall_mem_cons, List.forall_mem_cons] at hdigits
      have hx' : digitSym upper d' = x := (List.cons.inj (List.cons.inj heq).2).1
      rw [hx', hx] at hdigits
      cases hdigits.2.1
  have hloop := @strtoullLoop_digits 0 10 upper decValue (numeralDigits 10 v) behind hdigits rfl
  rw [foldl_numeralDigits, Nat.mod_eq_of_lt hv] at hloop
  unfold strtoull
  refine (if_neg (not_or.mpr ⟨?_, ?_⟩)).trans hloop
  · exact hfront (ascii 'x') (by decide) (by decide)
  · exact hfront (ascii 'X') (by decide) (by decide)

/-- **A hexadecimal numeral parses back**, behind its prefix and zeros. -/
lemma strtoull_hex {behind : List UInt8} {zeros : ℕ} (hv : v < word) :
    strtoull ([ascii '0', if upper then ascii 'X' else ascii 'x'] ++
      List.replicate zeros (ascii '0') ++ numeral 16 upper v ++ 0 :: behind) = v := by
  have hdigits : ∀ d ∈ List.replicate zeros 0 ++ numeralDigits 16 v,
      hexValue (digitSym upper d) = some d := by
    intro d hd
    rcases List.mem_append.mp hd with hd | hd
    · rw [List.eq_of_mem_replicate hd]
      exact hexValue_digitSym (by decide)
    · exact hexValue_digitSym (mem_numeralDigits (by decide) d hd)
  have hzeros : (List.replicate zeros 0).foldl (fun val d => val * 16 + d) 0 = 0 := by
    clear hdigits
    induction zeros with
    | zero => rfl
    | succ n ih => exact ih
  have hloop := @strtoullLoop_digits 0 16 upper hexValue _ behind hdigits rfl
  rw [List.foldl_append, hzeros, foldl_numeralDigits, Nat.mod_eq_of_lt hv, List.map_append,
    List.map_replicate] at hloop
  have hfront : ([ascii '0', if upper then ascii 'X' else ascii 'x'] ++
      (List.replicate zeros (ascii '0') ++ numeral 16 upper v ++ 0 :: behind)).take 2 =
        asciiString (if upper then "0X" else "0x") := by
    cases upper <;> rfl
  rw [List.append_assoc, List.append_assoc, ← List.append_assoc (List.replicate _ _)]
  unfold strtoull
  rw [hfront]
  refine (if_pos ?_).trans hloop
  cases upper
  · exact .inl rfl
  · exact .inr rfl

/-! ## Formatted and parsed back -/

section RoundTrip

variable {m : Memory} {buf bufsz : ℕ} {fmt : List UInt8} {args : List PrintfArg}
  {items : List PrintfItem} {calls : List PrintfCall}

lemma Holds.bytesAt {s : List UInt8} (h : Holds m buf s) (hlen : s.length ≤ n) :
    m.bytesAt buf n = s ++ m.bytesAt (buf + s.length) (n - s.length) := by
  induction s generalizing buf n with
  | nil => rfl
  | cons c s ih =>
    obtain ⟨n, rfl⟩ : ∃ k, n = k + 1 := ⟨n - 1, by rw [List.length_cons] at hlen; omega⟩
    rw [List.length_cons] at hlen ⊢
    rw [Memory.bytesAt_succ, h.1, ih h.2 (by omega), List.cons_append, Nat.add_sub_add_right,
      Nat.add_assoc, Nat.add_comm 1]

lemma not_reachesNull (hbuf : buf ≠ 0) (hword : buf + n + (printfText calls).length < word) :
    ¬ReachesNull buf n calls := by
  induction calls generalizing n with
  | nil => exact id
  | cons call calls ih =>
    rw [printfText_cons, List.length_append, PrintfCall.length_text] at hword
    rintro (⟨-, hnull⟩ | hnull)
    · rw [wadd_of_lt (by omega)] at hnull
      omega
    · exact ih (by omega) hnull

/-- **The output is the text**, in a buffer that holds it. -/
lemma vsnprintf_text (hitems : printfItems fmt = some items)
    (hcalls : itemCalls items args = some calls) (hbuf : buf ≠ 0)
    (hlen : (printfText calls).length < bufsz) (hroom : ∀ i < bufsz, ptrIsCanonical (buf + i)) :
    ∃ ret m' behind, vsnprintf m buf bufsz fmt args = some (ret, m') ∧
      m'.bytesAt buf bufsz = printfText calls ++ 0 :: behind := by
  have hword := lt_word_of_canonical (hroom _ hlen)
  have hnull : ¬ReachesNull buf 0 calls := not_reachesNull hbuf (by omega)
  rw [vsnprintf_eq hitems hcalls (by omega) fun i hi => hroom i (by omega), if_neg hnull,
    if_pos (by omega), List.take_of_length_le (by omega)]
  have hle : (printfText calls ++ [0]).length ≤ bufsz := by
    rw [List.length_append, List.length_singleton]
    exact hlen
  have hbytes := (@Memory.holds_put m buf (printfText calls ++ [0])).bytesAt hle
  rw [List.append_assoc, List.singleton_append] at hbytes
  exact ⟨_, _, _, rfl, hbytes⟩

/-- `strtoull` of what `vsnprintf` leaves in a buffer for the format and the value `v` is `v`. -/
def ParsesBack (fmt : List UInt8) (v : BitVec 64) : Prop :=
  ∀ m buf bufsz, buf ≠ 0 → 20 < bufsz → (∀ i < bufsz, ptrIsCanonical (buf + i)) →
    ∃ ret m', vsnprintf m buf bufsz fmt [.word v] = some (ret, m') ∧
      strtoull (m'.bytesAt buf bufsz) = v.toNat

lemma parsesBack_of_text {v : BitVec 64} (hitems : printfItems fmt = some items)
    (hcalls : itemCalls items [.word v] = some calls) (hlen : (printfText calls).length ≤ 20)
    (hparse : ∀ behind, strtoull (printfText calls ++ 0 :: behind) = v.toNat) :
    ParsesBack fmt v := by
  intro m buf bufsz hbuf hsize hroom
  obtain ⟨ret, m', behind, hrun, hbytes⟩ :=
    @vsnprintf_text m buf bufsz _ _ _ _ hitems hcalls hbuf (by omega) hroom
  exact ⟨ret, m', hrun, hbytes ▸ hparse behind⟩

lemma parsesBack_llu {v : BitVec 64} : ParsesBack (asciiString "%llu") v := by
  have hitems : printfItems (asciiString "%llu") = some [.spec
      ⟨⟨false, false, false, false, false⟩, some 0, false, .ll, ascii 'u'⟩] := by
    decide +kernel
  have hcalls : itemCalls [.spec ⟨⟨false, false, false, false, false⟩, some 0, false, .ll,
      ascii 'u'⟩] [.word v] =
        some (fmtUint v.toNat 10 0 ⟨false, false, false, false, false⟩ false [] ++ []) := rfl
  have htext := @text_fmtUint v.toNat 10 false 0 ⟨false, false, false, false, false⟩ [] v.isLt
    (by decide) (by decide)
  have hlen : (numeral 10 false v.toNat).length ≤ 20 :=
    length_numeral_le (by decide) (by decide) (v.isLt.trans (by decide))
  rw [List.append_nil] at hcalls
  refine parsesBack_of_text hitems hcalls ?_ fun behind => ?_
  · rw [htext, length_intField]
    exact max_le (by decide) ((Nat.zero_add _).trans_le hlen)
  · rw [htext, Int.toNat_zero, intField_zero]
    exact strtoull_decimal v.isLt

/-- The prefix of the hexadecimal conversions. -/
def hexPrefix (upper : Bool) : List UInt8 := [ascii '0', if upper then ascii 'X' else ascii 'x']

lemma parsesBack_hex {v : BitVec 64} {width : ℤ} {flags : PrintfFlags}
    (hitems : printfItems fmt = some items)
    (hcalls : itemCalls items [.word v] =
      some (fmtUint v.toNat 16 width flags upper (hexPrefix upper)))
    (hwidth : width ≤ 20) (hleft : flags.left = false) (hzero : flags.zero ∨ width = 0) :
    ParsesBack fmt v := by
  have htext := @text_fmtUint v.toNat 16 upper width flags (hexPrefix upper) v.isLt (by decide)
    (by decide)
  have hlen : (numeral 16 upper v.toNat).length ≤ 16 :=
    length_numeral_le (by decide) (by decide) (v.isLt.trans_le (by decide))
  refine parsesBack_of_text hitems hcalls ?_ fun behind => ?_
  · rw [htext, length_intField]
    exact max_le (by omega) (by rw [hexPrefix, List.length_cons, List.length_singleton]; omega)
  · rw [htext]
    rcases hzero with hzero | rfl
    · rw [intField, hleft, hzero]
      exact strtoull_hex v.isLt
    · rw [Int.toNat_zero, intField_zero]
      exact @strtoull_hex v.toNat upper behind 0 v.isLt

end RoundTrip

/-! ## The result -/

/-- **Integers are formatted correctly and parse back.**  For every value, base, case, width and set
of flags, the digits are stored into `tmp` only, they are the numeral of the value, and the function
emits the field that the flags ask for, of the larger one of the width and the length of prefix and
numeral.  A signed value is its sign and its magnitude.  What `%llu`, `%#llx`, `%#llX` and `%p`
leave in a buffer is parsed back by `strtoull`. -/
theorem integers_formatted (v : BitVec 64) :
    (∀ base ∈ [2, 8, 10, 16], ∀ upper flags pre, ∀ width ≥ (0 : ℤ),
      TmpHolds (fillTmp v.toNat base upper) (numeral base upper v.toNat) ∧
      printfText (fmtUint v.toNat base width flags upper pre) =
        intField width.toNat flags pre (numeral base upper v.toNat) ∧
      (printfText (fmtUint v.toNat base width flags upper pre)).length =
        max width.toNat (pre.length + (numeral base upper v.toNat).length)) ∧
    (∀ flags, ∀ width ≥ (0 : ℤ), printfText (fmtSigned v.toInt width flags) =
      intField width.toNat flags (signPrefix v.toInt flags) (numeral 10 false v.toInt.natAbs)) ∧
    ∀ fmt ∈ ["%llu", "%#llx", "%#llX", "%p"].map asciiString, ParsesBack fmt v := by
  refine ⟨fun base hbase upper flags pre width _ => ?_, fun flags width _ => ?_, ?_⟩
  · have hrange : 1 < base ∧ base ≤ 16 := by
      simp only [List.mem_cons, List.not_mem_nil, or_false] at hbase
      omega
    have hlen : (numeral base upper v.toNat).length ≤ 64 :=
      length_numeral_le hrange.1 (by decide) (v.isLt.trans_le (Nat.pow_le_pow_left hrange.1 64))
    have htext := @text_fmtUint v.toNat base upper width flags pre v.isLt hrange.1 hrange.2
    refine ⟨?_, htext, by rw [htext, length_intField]⟩
    rw [fillTmp_eq, uintDigits_eq_numeral v.isLt hrange.1 hrange.2]
    exact tmpHolds_of_length (hlen.trans (by decide))
  · exact text_fmtSigned (BitVec.le_toInt v) BitVec.toInt_lt
  · intro fmt hfmt
    simp only [List.map_cons, List.map_nil, List.mem_cons, List.not_mem_nil, or_false] at hfmt
    rcases hfmt with rfl | rfl | rfl | rfl
    · exact parsesBack_llu
    · have hitems : printfItems (asciiString "%#llx") = some [.spec
          ⟨⟨true, false, false, false, false⟩, some 0, false, .ll, ascii 'x'⟩] := by
        decide +kernel
      exact parsesBack_hex hitems (congrArg some (List.append_nil _)) (by decide) rfl (.inr rfl)
    · have hitems : printfItems (asciiString "%#llX") = some [.spec
          ⟨⟨true, false, false, false, false⟩, some 0, false, .ll, ascii 'X'⟩] := by
        decide +kernel
      exact parsesBack_hex hitems (congrArg some (List.append_nil _)) (by decide) rfl (.inr rfl)
    · have hitems : printfItems (asciiString "%p") = some [.spec
          ⟨⟨false, false, false, false, false⟩, some 0, false, .default, ascii 'p'⟩] := by
        decide +kernel
      exact parsesBack_hex hitems (congrArg some (List.append_nil _)) (by decide) rfl (.inl rfl)

/-! ## `ptrthex` -/

/-- `hex_chars`. -/
def hexChars : List UInt8 := asciiString "0123456789ABCDEF"

/-- The loop of `ptrthex`, before it fills the first `n` bytes of the buffer. -/
def ptrthexLoop : ℕ → ℕ → List UInt8 → List UInt8
  | 0, _, buf => buf
  | n + 1, val, buf => ptrthexLoop n (val >>> 4) (hexChars.getD (val &&& 0xF) 0 :: buf)

/-- `ptrthex`: what it leaves in the buffer. -/
def ptrthex (val : ℕ) : List UInt8 := ptrthexLoop 16 val [0]

lemma ptrthexLoop_succ (val : ℕ) (buf : List UInt8) : ptrthexLoop (n + 1) val buf =
    ptrthexLoop n (val / 16) (digitSym true (val % 16) :: buf) := by
  have hchars : ∀ d < 16, hexChars.getD d 0 = digitSym true d := by decide
  have hmask : val &&& 0xF = val % 16 := Nat.and_two_pow_sub_one_eq_mod val 4
  rw [ptrthexLoop, Nat.shiftRight_eq_div_pow, hmask, hchars _ (Nat.mod_lt _ (by decide))]

lemma ptrthexLoop_append (val : ℕ) (buf : List UInt8) :
    ptrthexLoop n val buf = ptrthexLoop n val [] ++ buf := by
  induction n generalizing val buf with
  | zero => rfl
  | succ n ih =>
    rw [ptrthexLoop_succ, ptrthexLoop_succ, ih, ih (val / 16) [_], List.append_assoc]
    rfl

/-- The digits are read as the value, whatever stands behind them. -/
lemma strtoullLoop_ptrthexLoop (a val : ℕ) (buf : List UInt8) :
    strtoullLoop 16 hexValue (a % word) (ptrthexLoop n val buf) =
      strtoullLoop 16 hexValue ((a * 16 ^ n + val % 16 ^ n) % word) buf := by
  induction n generalizing val buf with
  | zero => rw [ptrthexLoop, pow_zero, Nat.mod_one, Nat.mul_one, Nat.add_zero]
  | succ n ih =>
    have hmod : ((a * 16 ^ n + val / 16 % 16 ^ n) % word * 16 + val % 16) % word =
        ((a * 16 ^ n + val / 16 % 16 ^ n) * 16 + val % 16) % word :=
      (Nat.mod_modEq _ word).mul_right 16 |>.add_right _
    have hdigits : (a * 16 ^ n + val / 16 % 16 ^ n) * 16 + val % 16 =
        a * 16 ^ (n + 1) + val % 16 ^ (n + 1) := by
      rw [pow_succ', Nat.mod_mul]
      ring
    rw [ptrthexLoop_succ, ih, strtoullLoop, hexValue_digitSym (Nat.mod_lt _ (by decide))]
    dsimp only
    rw [hmod, hdigits]

end Cuore
