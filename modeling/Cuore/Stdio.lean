import Cuore.Framework.Bytes
import Cuore.Mem.Common
import Mathlib.Data.Nat.Digits.Lemmas

/-!
# Formatted output (`stdio.c`, `mem/mem.h`)

`vsnprintf` reads a format from left to right and emits text through three bounded writers, `putc`,
`write` and `pad`, which clip at the capacity and count on.  What the functions `fmt_*` emit does
not depend on the state of the output, so they are modelled by the list of the calls that they make,
and `vsnprintf` runs the calls of the whole format on the output.

A string is the list of its bytes before the terminating zero, an argument is a 64-bit slot or what
it points to.  `vsnprintf` has the outcome `none` where it runs past the end of the format, where an
argument is missing or of another type than the directive asks for, and where `memcpy` or `memset`
panics.  The sources of `memcpy` are strings and local arrays, of which only the bytes are
modelled.  Overflow of an `int` wraps.
-/

namespace Cuore

open Function

/-! ## Characters and 32-bit integers -/

/-- The code of an ASCII character. -/
def ascii (c : Char) : UInt8 := UInt8.ofNat c.toNat

/-- The bytes of an ASCII string. -/
def asciiString (s : String) : List UInt8 := s.toList.map ascii

/-- Conversion to `int`. -/
def wrap32 (x : ℤ) : ℤ := x.bmod (2 ^ 32)

/-! ## Memory (`mem/mem.h`) -/

/-- `memcpy` of the bytes `s`. -/
def memcpy (m : Memory) (dest : ℕ) (s : List UInt8) : Option Memory :=
  if dest = 0 then none else if rangeIsSafe dest s.length then some (m.put dest s) else none

/-- `memset`. -/
def memset (m : Memory) (dest : ℕ) (c : UInt8) (n : ℕ) : Option Memory :=
  if dest = 0 then none
  else if rangeIsSafe dest n then some (m.put dest (List.replicate n c)) else none

/-! ## Bounded writers -/

/-- `_internal_printf_ctx_t`, with the memory that `buf` points into. -/
structure PrintfCtx where
  mem : Memory
  buf : ℕ
  cap : ℕ
  pos : ℕ

/-- `ctx->cap > ctx->pos ? ctx->cap - ctx->pos : 0`. -/
def PrintfCtx.avail (ctx : PrintfCtx) : ℕ := if ctx.cap > ctx.pos then ctx.cap - ctx.pos else 0

/-- `_internal_printf_ctx_putc`. -/
def PrintfCtx.putc (ctx : PrintfCtx) (c : UInt8) : PrintfCtx :=
  { ctx with
    mem := if ctx.pos < ctx.cap then ctx.mem.put (wadd ctx.buf ctx.pos) [c] else ctx.mem
    pos := wadd ctx.pos 1 }

/-- `_internal_printf_ctx_write`. -/
def PrintfCtx.write (ctx : PrintfCtx) (s : List UInt8) : Option PrintfCtx :=
  if s.length = 0 then some ctx
  else do
    let copy := if s.length < ctx.avail then s.length else ctx.avail
    let mem ← memcpy ctx.mem (wadd ctx.buf ctx.pos) (s.take copy)
    some { ctx with mem, pos := wadd ctx.pos s.length }

/-- `_internal_printf_ctx_pad`. -/
def PrintfCtx.pad (ctx : PrintfCtx) (ch : UInt8) (n : ℤ) : Option PrintfCtx :=
  if n ≤ 0 then some ctx
  else do
    let fill := if n.toNat < ctx.avail then n.toNat else ctx.avail
    let mem ← memset ctx.mem (wadd ctx.buf ctx.pos) ch fill
    some { ctx with mem, pos := wadd ctx.pos n.toNat }

/-- A call of one of the writers. -/
inductive PrintfCall
  | putc (c : UInt8)
  | write (s : List UInt8)
  | pad (ch : UInt8) (n : ℤ)
  deriving DecidableEq, Repr

/-- The call. -/
def PrintfCall.run (ctx : PrintfCtx) : PrintfCall → Option PrintfCtx
  | putc c => some (ctx.putc c)
  | write s => ctx.write s
  | pad ch n => ctx.pad ch n

/-! ## Numbers and strings -/

/-- `FLAG_ALT`, `FLAG_ZERO`, `FLAG_LEFT`, `FLAG_SPACE` and `FLAG_SIGN`. -/
structure PrintfFlags where
  alt : Bool
  zero : Bool
  left : Bool
  space : Bool
  sign : Bool
  deriving DecidableEq, Repr

/-- `map100`: the digits of the numbers below 100, two for each. -/
def map100 : List UInt8 :=
  (List.range 100).flatMap fun n => [UInt8.ofNat (48 + n / 10), UInt8.ofNat (48 + n % 10)]

/-- `digits_lower` and `digits_upper`. -/
def digitChars (upper : Bool) : List UInt8 :=
  if upper then asciiString "0123456789ABCDEF" else asciiString "0123456789abcdef"

/-- The loops that take one digit in a round: `n` rounds are enough for `n` digits. -/
def digitLoop (base : ℕ) (digit : ℕ → UInt8) : ℕ → ℕ → List UInt8 → List UInt8
  | 0, _, tmp => tmp
  | n + 1, val, tmp =>
    if val = 0 then tmp else digitLoop base digit n (val / base) (digit (val % base) :: tmp)

/-- The loop that takes two decimal digits in a round, and the value that it leaves. -/
def pairLoop : ℕ → ℕ → List UInt8 → ℕ × List UInt8
  | 0, val, tmp => (val, tmp)
  | n + 1, val, tmp =>
    if val ≥ 100 then
      let rem := val % 100
      pairLoop n (val / 100) (map100.getD (2 * rem) 0 :: map100.getD (2 * rem + 1) 0 :: tmp)
    else (val, tmp)

/-- The digits that `_internal_printf_fmt_uint` puts at the end of `tmp`. -/
def uintDigits (val base : ℕ) (upper : Bool) : List UInt8 :=
  if val = 0 then [ascii '0']
  else if base = 2 then digitLoop 2 (fun d => UInt8.ofNat (48 + d)) 64 val []
  else if base = 10 then
    let (val, tmp) := pairLoop 64 val []
    if val ≥ 10 then map100.getD (2 * val) 0 :: map100.getD (2 * val + 1) 0 :: tmp
    else UInt8.ofNat (48 + val) :: tmp
  else digitLoop base (fun d => (digitChars upper).getD d 0) 64 val []

section Digits

variable {val base n : ℕ} {tmp : List UInt8} {digit : ℕ → UInt8}

/-- A round for every digit is enough. -/
lemma digitLoop_eq (hbase : 1 < base) (hval : val < base ^ n) :
    digitLoop base digit n val tmp = ((Nat.digits base val).map digit).reverse ++ tmp := by
  induction n generalizing val tmp with
  | zero =>
    have hzero : val = 0 := by
      rw [pow_zero] at hval
      omega
    simp [digitLoop, hzero]
  | succ n ih =>
    rw [digitLoop]
    split_ifs with hzero
    · simp [hzero]
    · have hrest : val / base < base ^ n := by
        rw [Nat.div_lt_iff_lt_mul (by omega), ← pow_succ]
        exact hval
      have hdigits : Nat.digits base val = val % base :: Nat.digits base (val / base) :=
        Nat.digits_def' hbase (Nat.pos_of_ne_zero hzero)
      rw [ih hrest, hdigits]
      simp

/-- The decimal digit `d`. -/
def decChar (d : ℕ) : UInt8 := UInt8.ofNat (48 + d)

lemma map100_getD : ∀ k < 100, map100.getD (2 * k) 0 = decChar (k / 10) ∧
    map100.getD (2 * k + 1) 0 = decChar (k % 10) := by
  decide +kernel

/-- The last two digits. -/
lemma digits_of_ge (hval : 10 ≤ val) :
    Nat.digits 10 val = val % 100 % 10 :: val % 100 / 10 :: Nat.digits 10 (val / 100) := by
  rw [Nat.digits_def' (by decide) (by omega), Nat.digits_def' (by decide) (by omega : 0 < val / 10),
    Nat.div_div_eq_div_mul]
  congr 1
  · omega
  · congr 1
    omega

/-- The digits that are left over are one or two. -/
lemma pairLoop_spec (hpos : 0 < val) (hval : val < 100 ^ (n + 1)) :
    0 < (pairLoop n val tmp).1 ∧ (pairLoop n val tmp).1 < 100 ∧
      ((Nat.digits 10 (pairLoop n val tmp).1).map decChar).reverse ++ (pairLoop n val tmp).2 =
        ((Nat.digits 10 val).map decChar).reverse ++ tmp := by
  induction n generalizing val tmp with
  | zero => exact ⟨hpos, by rw [zero_add, pow_one] at hval; exact hval, rfl⟩
  | succ n ih =>
    rw [pairLoop]
    split_ifs with hge
    · have hrest : val / 100 < 100 ^ (n + 1) := by
        rw [Nat.div_lt_iff_lt_mul (by decide), ← pow_succ]
        exact hval
      obtain ⟨hpos', hlt, heq⟩ := @ih (val / 100) (map100.getD (2 * (val % 100)) 0 ::
        map100.getD (2 * (val % 100) + 1) 0 :: tmp) (by omega) hrest
      obtain ⟨hfirst, hsecond⟩ := map100_getD (val % 100) (Nat.mod_lt _ (by decide))
      refine ⟨hpos', hlt, heq.trans ?_⟩
      have hge : 10 ≤ val := by omega
      rw [digits_of_ge hge, hfirst, hsecond]
      simp
    · exact ⟨hpos, by omega, rfl⟩

/-- The character of a digit. -/
def digitChar (base : ℕ) (upper : Bool) (d : ℕ) : UInt8 :=
  if base = 2 ∨ base = 10 then decChar d else (digitChars upper).getD d 0

/-- **The digits of a number**, most significant first. -/
lemma uintDigits_eq {upper : Bool} (hpos : 0 < val) (hval : val < word) (hbase : 1 < base) :
    uintDigits val base upper = ((Nat.digits base val).map (digitChar base upper)).reverse := by
  have hrounds : val < base ^ 64 := lt_of_lt_of_le hval (Nat.pow_le_pow_left hbase 64)
  unfold uintDigits
  rw [if_neg hpos.ne']
  by_cases htwo : base = 2
  · have hchar : digitChar base upper = fun d => UInt8.ofNat (48 + d) :=
      funext fun d => if_pos (.inl htwo)
    rw [if_pos htwo, hchar, htwo, digitLoop_eq (by decide) (htwo ▸ hrounds), List.append_nil]
  by_cases hten : base = 10
  · have hchar : digitChar base upper = decChar := funext fun d => if_pos (.inr hten)
    obtain ⟨hpos', hlt, heq⟩ := @pairLoop_spec val 64 [] hpos
      (lt_trans hval (by decide))
    rw [List.append_nil] at heq
    rw [if_neg htwo, if_pos hten, hchar, hten, ← heq]
    generalize pairLoop 64 val [] = r at hpos' hlt
    obtain ⟨v, tmp⟩ := r
    dsimp only at hpos' hlt ⊢
    split_ifs with hge
    · obtain ⟨hfirst, hsecond⟩ := map100_getD v hlt
      rw [hfirst, hsecond, digits_of_ge hge, Nat.mod_eq_of_lt hlt, Nat.div_eq_of_lt hlt]
      simp
    · rw [Nat.digits_of_lt 10 v (by omega) (by omega)]
      rfl
  · have hchar : digitChar base upper = fun d => (digitChars upper).getD d 0 :=
      funext fun d => if_neg (not_or.mpr ⟨htwo, hten⟩)
    rw [if_neg htwo, if_neg hten, digitLoop_eq hbase hrounds, List.append_nil, hchar]

end Digits

/-- `_internal_printf_fmt_uint`. -/
def fmtUint (val base : ℕ) (width : ℤ) (flags : PrintfFlags) (upper : Bool) (pre : List UInt8) :
    List PrintfCall :=
  let digits := uintDigits val base upper
  let total : ℤ := digits.length + pre.length
  let padding := if width > total then width - total else 0
  (if !flags.left then
      if flags.zero then [.write pre, .pad (ascii '0') padding]
      else [.pad (ascii ' ') padding, .write pre]
    else [.write pre]) ++
  [.write digits] ++
  (if flags.left then [.pad (ascii ' ') padding] else [])

/-- `_internal_printf_fmt_signed`. -/
def fmtSigned (val : ℤ) (width : ℤ) (flags : PrintfFlags) : List PrintfCall :=
  if val < 0 then
    fmtUint (wadd (-(val + 1)).toNat 1) 10 width flags false [ascii '-']
  else
    let pre := if flags.sign then [ascii '+'] else if flags.space then [ascii ' '] else []
    fmtUint val.toNat 10 width flags false pre

/-- `_internal_printf_fmt_string`, of a string that is not null. -/
def fmtString (s : List UInt8) (width : ℤ) (flags : PrintfFlags) : List PrintfCall :=
  let len := wrap32 s.length
  let padding := if width > len then wrap32 (width - len) else 0
  (if !flags.left then [.pad (ascii ' ') padding] else []) ++
  [.write s] ++
  (if flags.left then [.pad (ascii ' ') padding] else [])

/-- `_internal_printf_fmt_u8_dec`. -/
def fmtU8Dec (v : UInt8) : List PrintfCall :=
  let v := v.toNat
  if v ≥ 100 then
    let rem := v % 100
    [.write [UInt8.ofNat (48 + v / 100), map100.getD (2 * rem) 0, map100.getD (2 * rem + 1) 0]]
  else if v ≥ 10 then [.write [map100.getD (2 * v) 0, map100.getD (2 * v + 1) 0]]
  else [.putc (UInt8.ofNat (48 + v))]

/-- `_internal_printf_fmt_u8_hex2`. -/
def fmtU8Hex2 (v : UInt8) : List PrintfCall :=
  [.write [(digitChars true).getD (v.toNat / 16) 0, (digitChars true).getD (v.toNat % 16) 0]]

/-! ## Directives -/

/-- The length modifiers. -/
inductive PrintfLength
  | default | hh | h | l | ll | z | j | t
  deriving DecidableEq, Repr

/-- A directive: the flags, the width, unless it is an argument, whether the precision is an
argument, the length modifier and the conversion. -/
structure PrintfSpec where
  flags : PrintfFlags
  width : Option ℤ
  starPrecision : Bool
  length : PrintfLength
  conv : UInt8
  deriving DecidableEq, Repr

/-- The loop over the flags. -/
def parseFlags (f : PrintfFlags) : List UInt8 → PrintfFlags × List UInt8
  | [] => (f, [])
  | c :: p =>
    if c = ascii '#' then parseFlags { f with alt := true } p
    else if c = ascii '0' then parseFlags { f with zero := true } p
    else if c = ascii '-' then parseFlags { f with left := true } p
    else if c = ascii ' ' then parseFlags { f with space := true } p
    else if c = ascii '+' then parseFlags { f with sign := true } p
    else (f, c :: p)

/-- `*p >= '0' && *p <= '9'`. -/
def isDigit (c : UInt8) : Bool := decide (ascii '0' ≤ c) && decide (c ≤ ascii '9')

/-- The loop over the digits of a width. -/
def parseDigits (width : ℤ) : List UInt8 → ℤ × List UInt8
  | [] => (width, [])
  | c :: p =>
    if isDigit c then parseDigits (wrap32 (width * 10 + (c.toNat - 48))) p else (width, c :: p)

/-- The width. -/
def parseWidth : List UInt8 → Option ℤ × List UInt8
  | [] => (some 0, [])
  | c :: p =>
    if c = ascii '*' then (none, p)
    else
      let (width, p) := parseDigits 0 (c :: p)
      (some width, p)

/-- The precision, of which only an argument matters. -/
def parsePrecision : List UInt8 → Bool × List UInt8
  | [] => (false, [])
  | c :: p =>
    if c = ascii '.' then
      match p with
      | [] => (false, [])
      | d :: p => if d = ascii '*' then (true, p) else (false, (d :: p).dropWhile isDigit)
    else (false, c :: p)

/-- The length modifier. -/
def parseLength : List UInt8 → PrintfLength × List UInt8
  | [] => (.default, [])
  | c :: p =>
    if c = ascii 'h' then
      match p with
      | [] => (.h, [])
      | d :: p => if d = ascii 'h' then (.hh, p) else (.h, d :: p)
    else if c = ascii 'l' then
      match p with
      | [] => (.l, [])
      | d :: p => if d = ascii 'l' then (.ll, p) else (.l, d :: p)
    else if c = ascii 'z' then (.z, p)
    else if c = ascii 'j' then (.j, p)
    else if c = ascii 't' then (.t, p)
    else (.default, c :: p)

/-- A directive behind its percent sign; `none` if the format ends before the conversion. -/
def parseSpec (p : List UInt8) : Option (PrintfSpec × List UInt8) :=
  let (flags, p) := parseFlags ⟨false, false, false, false, false⟩ p
  let flags := if flags.left then { flags with zero := false } else flags
  let (width, p) := parseWidth p
  let (starPrecision, p) := parsePrecision p
  let (length, p) := parseLength p
  match p with
  | [] => none
  | conv :: p => some (⟨flags, width, starPrecision, length, conv⟩, p)

section Lengths

variable {p q : List UInt8} {f g : PrintfFlags} {w v : ℤ}

lemma parseFlags_length (h : parseFlags f p = (g, q)) : q.length ≤ p.length := by
  induction p generalizing f with
  | nil =>
    cases h
    exact Nat.le_refl _
  | cons c p ih =>
    rw [parseFlags] at h
    split_ifs at h
    case neg =>
      cases h
      exact Nat.le_refl _
    all_goals exact (ih h).trans (Nat.le_succ _)

lemma parseDigits_length (h : parseDigits w p = (v, q)) : q.length ≤ p.length := by
  induction p generalizing w with
  | nil =>
    cases h
    exact Nat.le_refl _
  | cons c p ih =>
    rw [parseDigits] at h
    split_ifs at h
    · exact (ih h).trans (Nat.le_succ _)
    · cases h
      exact Nat.le_refl _

lemma parseWidth_length {width : Option ℤ} (h : parseWidth p = (width, q)) :
    q.length ≤ p.length := by
  cases p with
  | nil =>
    cases h
    exact Nat.le_refl _
  | cons c p =>
    rw [parseWidth] at h
    split_ifs at h
    · cases h
      exact Nat.le_succ _
    · obtain ⟨-, rfl⟩ := Prod.mk.inj h
      exact parseDigits_length rfl

lemma parsePrecision_length {star : Bool} (h : parsePrecision p = (star, q)) :
    q.length ≤ p.length := by
  rcases p with _ | ⟨c, _ | ⟨d, p⟩⟩
  · cases h
    exact Nat.le_refl _
  · simp only [parsePrecision] at h
    split_ifs at h <;> cases h <;> simp
  · simp only [parsePrecision] at h
    split_ifs at h
    · cases h
      exact (Nat.le_succ _).trans (Nat.le_succ _)
    · obtain ⟨-, rfl⟩ := Prod.mk.inj h
      exact (List.dropWhile_suffix _).length_le.trans (Nat.le_succ _)
    · cases h
      exact Nat.le_refl _

lemma parseLength_length {length : PrintfLength} (h : parseLength p = (length, q)) :
    q.length ≤ p.length := by
  rcases p with _ | ⟨c, _ | ⟨d, p⟩⟩
  · cases h
    exact Nat.le_refl _
  · simp only [parseLength] at h
    split_ifs at h <;> cases h <;> simp
  · simp only [parseLength] at h
    split_ifs at h <;> cases h <;> simp only [List.length_cons] <;> omega

lemma parseSpec_length {spec : PrintfSpec} (h : parseSpec p = some (spec, q)) :
    q.length < p.length := by
  unfold parseSpec at h
  rcases h₁ : parseFlags ⟨false, false, false, false, false⟩ p with ⟨flags, p₁⟩
  rcases h₂ : parseWidth p₁ with ⟨width, p₂⟩
  rcases h₃ : parsePrecision p₂ with ⟨star, p₃⟩
  rcases h₄ : parseLength p₃ with ⟨length, p₄⟩
  have hle : p₄.length ≤ p.length := (parseLength_length h₄).trans <|
    (parsePrecision_length h₃).trans <| (parseWidth_length h₂).trans (parseFlags_length h₁)
  simp only [h₁, h₂, h₃, h₄] at h
  cases p₄ with
  | nil => cases h
  | cons c p₄ =>
    obtain ⟨-, rfl⟩ := Prod.mk.inj (Option.some.inj h)
    exact hle

end Lengths

/-- A part of a format. -/
inductive PrintfItem
  | text (s : List UInt8)
  | spec (d : PrintfSpec)
  deriving DecidableEq, Repr

/-- The parts of a format; `none` if it ends within a directive. -/
def printfItems (p : List UInt8) : Option (List PrintfItem) :=
  match p with
  | [] => some []
  | c :: p =>
    if c ≠ ascii '%' then do
      let items ← printfItems (p.dropWhile (· ≠ ascii '%'))
      some (.text (c :: p.takeWhile (· ≠ ascii '%')) :: items)
    else if p = [] then some []
    else
      match _hspec : parseSpec p with
      | none => none
      | some (d, q) => do
        let items ← printfItems q
        some (.spec d :: items)
termination_by p.length
decreasing_by
  · exact Nat.lt_succ_of_le (List.dropWhile_suffix _).length_le
  · exact (parseSpec_length _hspec).trans (Nat.lt_succ_self _)

/-! ## Arguments -/

/-- An argument: a slot of 64 bits, what a pointer points to, or the null pointer. -/
inductive PrintfArg
  | word (v : BitVec 64)
  | str (s : List UInt8)
  | bytes (b : List UInt8)
  | null
  deriving DecidableEq, Repr

/-- `va_arg(args, int)`. -/
def vaInt : List PrintfArg → Option (ℤ × List PrintfArg)
  | .word v :: args => some ((v.setWidth 32).toInt, args)
  | _ => none

/-- The value of `%d`. -/
def signedArg (length : PrintfLength) (v : BitVec 64) : ℤ :=
  match length with
  | .l | .ll | .z | .j | .t => v.toInt
  | .h => (v.setWidth 16).toInt
  | .hh => (v.setWidth 8).toInt
  | .default => (v.setWidth 32).toInt

/-- The value of `%u`. -/
def unsignedArg (length : PrintfLength) (v : BitVec 64) : ℕ :=
  match length with
  | .l | .ll | .z | .j | .t => v.toNat
  | .h => (v.setWidth 16).toNat
  | .hh => (v.setWidth 8).toNat
  | .default => (v.setWidth 32).toNat

/-- The prefix and the base of `%u`, `%x`, `%X`, `%o` and `%b`. -/
def unsignedPrefix (conv : UInt8) (alt : Bool) (val : ℕ) : List UInt8 × ℕ :=
  if conv = ascii 'x' then (if alt then asciiString "0x" else [], 16)
  else if conv = ascii 'X' then (if alt then asciiString "0X" else [], 16)
  else if conv = ascii 'o' then (if alt ∧ val ≠ 0 then asciiString "0" else [], 8)
  else if conv = ascii 'b' then (if alt then asciiString "0b" else [], 2)
  else ([], 10)

/-- The switch over the conversion. -/
def convCalls (d : PrintfSpec) (flags : PrintfFlags) (width : ℤ) (args : List PrintfArg) :
    Option (List PrintfCall × List PrintfArg) :=
  let dot : PrintfCall := .putc (ascii '.')
  let colon : PrintfCall := .putc (ascii ':')
  if d.conv = ascii 'd' ∨ d.conv = ascii 'i' then
    match args with
    | .word v :: args => some (fmtSigned (signedArg d.length v) width flags, args)
    | _ => none
  else if d.conv ∈ asciiString "uxXob" then
    match args with
    | .word v :: args =>
      let val := unsignedArg d.length v
      let (pre, base) := unsignedPrefix d.conv flags.alt val
      some (fmtUint val base width flags (decide (d.conv = ascii 'X')) pre, args)
    | _ => none
  else if d.conv = ascii 'p' then
    let pwidth := if width > 0 then width else 18
    let flags := ⟨false, true, false, false, false⟩
    match args with
    | .word v :: args => some (fmtUint v.toNat 16 pwidth flags false (asciiString "0x"), args)
    | .null :: args => some (fmtUint 0 16 pwidth flags false (asciiString "0x"), args)
    | _ => none
  else if d.conv = ascii 's' then
    match args with
    | .str s :: args => some (fmtString s width flags, args)
    | .null :: args => some (fmtString (asciiString "(null)") width flags, args)
    | _ => none
  else if d.conv = ascii 'c' then
    match args with
    | .word v :: args => some ([.putc (UInt8.ofNat v.toNat)], args)
    | _ => none
  else if d.conv = ascii 'I' then
    match args with
    | .bytes [a, b, c, e] :: args =>
      some (fmtU8Dec a ++ dot :: fmtU8Dec b ++ dot :: fmtU8Dec c ++ dot :: fmtU8Dec e, args)
    | _ => none
  else if d.conv = ascii 'M' then
    match args with
    | .bytes [a, b, c, e, f, g] :: args =>
      some (fmtU8Hex2 a ++ colon :: fmtU8Hex2 b ++ colon :: fmtU8Hex2 c ++ colon :: fmtU8Hex2 e ++
        colon :: fmtU8Hex2 f ++ colon :: fmtU8Hex2 g, args)
    | .null :: args => some (fmtString (asciiString "(null)") width flags, args)
    | _ => none
  else if d.conv = ascii '%' then some ([.putc (ascii '%')], args)
  else some ([.putc (ascii '%'), .putc d.conv], args)

/-- A directive, with the arguments that are left. -/
def specCalls (d : PrintfSpec) (args : List PrintfArg) :
    Option (List PrintfCall × List PrintfArg) := do
  let (flags, width, args) ← match d.width with
    | some width => some (d.flags, width, args)
    | none => do
      let (width, args) ← vaInt args
      if width < 0 then some ({ d.flags with left := true }, wrap32 (-width), args)
      else some (d.flags, width, args)
  let args ← if d.starPrecision then (vaInt args).map Prod.snd else some args
  convCalls d flags width args

/-- The calls for the parts of a format. -/
def itemCalls : List PrintfItem → List PrintfArg → Option (List PrintfCall)
  | [], _ => some []
  | .text s :: items, args => do
    let calls ← itemCalls items args
    some (.write s :: calls)
  | .spec d :: items, args => do
    let (first, args) ← specCalls d args
    let calls ← itemCalls items args
    some (first ++ calls)

/-- `vsnprintf`: what it returns, and the memory. -/
def vsnprintf (m : Memory) (buf bufsz : ℕ) (fmt : List UInt8) (args : List PrintfArg) :
    Option (ℤ × Memory) := do
  let items ← printfItems fmt
  let calls ← itemCalls items args
  let cap := if bufsz > 0 then bufsz - 1 else 0
  let ctx ← calls.foldlM PrintfCall.run ⟨m, buf, cap, 0⟩
  let stop := if ctx.pos < ctx.cap then ctx.pos else ctx.cap
  let m := if bufsz > 0 then ctx.mem.put (wadd buf stop) [0] else ctx.mem
  some (wrap32 ctx.pos, m)

end Cuore
