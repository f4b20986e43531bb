import Cuore.Stdio

/-!
# Bounded formatting is a prefix of unbounded formatting

The text of a format is what its calls emit, one after the other (`printfText`).  After some calls
the output holds as much of their text as fits below the capacity, and has counted all of it
(`PrintfCtx.after`); the next call only adds to the text (`PrintfCall.run_after`).

One thing gets in between: `write` and `pad` compute the address that the text would go on at even
if they have nothing to copy, and `memcpy` and `memset` panic if it is the null pointer.  The
address is null if the text, laid out from the start of the buffer, reaches the end of the address
space just where a call begins (`ReachesNull`).  `vsnprintf_eq` is what `vsnprintf` does, and
`vsnprintf_bounded_iff` says that it is bounded formatting exactly without such a call.
-/

namespace Cuore

variable {m : Memory} {a buf bufsz n : ℕ} {s l : List UInt8} {c : UInt8} {ctx : PrintfCtx}
  {call : PrintfCall} {calls : List PrintfCall}

/-! ## The text -/

namespace PrintfCall

/-- What a call emits. -/
def text : PrintfCall → List UInt8
  | putc c => [c]
  | write s => s
  | pad ch n => List.replicate n.toNat ch

/-- The length of what a call emits. -/
def length : PrintfCall → ℕ
  | putc _ => 1
  | write s => s.length
  | pad _ n => n.toNat

/-- The call goes to `memcpy` or `memset`, also if there is nothing to copy. -/
def checked : PrintfCall → Bool
  | putc _ => false
  | write s => decide (s.length ≠ 0)
  | pad _ n => decide (0 < n)

lemma length_text : call.text.length = call.length := by
  cases call <;> simp [text, length]

end PrintfCall

/-- **The text of a format**, of its calls. -/
def printfText (calls : List PrintfCall) : List UInt8 := calls.flatMap PrintfCall.text

/-- Behind `n` bytes of text, some call goes to `memcpy` or `memset` at the null pointer. -/
def ReachesNull (buf : ℕ) : ℕ → List PrintfCall → Prop
  | _, [] => False
  | n, call :: calls => (call.checked ∧ wadd buf n = 0) ∨ ReachesNull buf (n + call.length) calls

instance decidableReachesNull : ∀ n calls, Decidable (ReachesNull buf n calls)
  | _, [] => .isFalse id
  | n, call :: calls =>
    have := decidableReachesNull (n + call.length) calls
    inferInstanceAs (Decidable (_ ∨ _))

/-- The output when `l` has been emitted. -/
def PrintfCtx.after (ctx : PrintfCtx) (l : List UInt8) : PrintfCtx :=
  { ctx with mem := ctx.mem.put ctx.buf (l.take ctx.cap), pos := l.length }

/-! ## One call -/

/-- The first `n` bytes of the buffer, as far as they are below the capacity, are memory. -/
def HasRoom (ctx : PrintfCtx) (n : ℕ) : Prop :=
  ∀ i < min n ctx.cap, ptrIsCanonical (ctx.buf + i)

lemma HasRoom.mono {k : ℕ} (h : HasRoom ctx n) (hk : k ≤ n) : HasRoom ctx k :=
  fun i hi => h i (by omega)

lemma lt_word_of_canonical (h : ptrIsCanonical a) : a < word := by
  have ha := of_decide_eq_true h
  have hlt : a * 2 ^ 7 % word / 2 ^ 7 < 2 ^ 57 := Nat.div_lt_of_lt_mul (Nat.mod_lt _ (by decide))
  simp only [word] at *
  split_ifs at ha <;> omega

lemma PrintfCtx.avail_eq : ctx.avail = ctx.cap - ctx.pos := by
  unfold avail
  split_ifs with h <;> omega

/-- **Clipping.**  What is copied of `s`, behind `l`, is in range, and goes on with the text. -/
lemma PrintfCtx.clip (hroom : HasRoom ctx (l ++ s).length)
    (hn : n = if s.length < (ctx.after l).avail then s.length else (ctx.after l).avail) :
    rangeIsSafe (wadd ctx.buf l.length) n ∧
      (ctx.after l).mem.put (wadd ctx.buf l.length) (s.take n) = (ctx.after (l ++ s)).mem := by
  rw [avail_eq] at hn
  change n = if s.length < ctx.cap - l.length then s.length else ctx.cap - l.length at hn
  rw [HasRoom, List.length_append] at hroom
  rcases Nat.eq_zero_or_pos n with hzero | hpos
  · -- nothing is copied
    refine ⟨by rw [hzero]; rfl, ?_⟩
    rw [hzero, List.take_zero, Memory.put_nil]
    show ctx.mem.put ctx.buf (l.take ctx.cap) = ctx.mem.put ctx.buf ((l ++ s).take ctx.cap)
    have hnil : s.take (ctx.cap - l.length) = [] := by
      rw [List.take_eq_nil_iff, ← List.length_eq_zero_iff]
      split_ifs at hn <;> omega
    rw [List.take_append, hnil, List.append_nil]
  · have hle : n ≤ s.length ∧ n ≤ ctx.cap - l.length := by
      split_ifs at hn <;> omega
    have hfirst := hroom l.length (by omega)
    have hlast := hroom (l.length + (n - 1)) (by omega)
    have hdest : wadd ctx.buf l.length = ctx.buf + l.length :=
      wadd_of_lt (lt_word_of_canonical hfirst)
    have hstop : wsub (wadd (ctx.buf + l.length) n) 1 = ctx.buf + (l.length + (n - 1)) := by
      rw [wsub_wadd_one (by omega), Nat.mod_eq_of_lt (by
        have := lt_word_of_canonical hlast
        omega)]
      omega
    rw [hdest]
    constructor
    · unfold rangeIsSafe
      dsimp only
      rw [hstop, if_neg (by omega), if_neg (by omega), hfirst, hlast]
      rfl
    · show (ctx.mem.put ctx.buf (l.take ctx.cap)).put (ctx.buf + l.length) (s.take n) =
        ctx.mem.put ctx.buf ((l ++ s).take ctx.cap)
      have htake : s.take n = s.take (ctx.cap - l.length) := by
        rw [List.take_eq_take_iff]
        split_ifs at hn <;> omega
      have hall : l.take ctx.cap = l := List.take_of_length_le (by omega)
      rw [List.take_append, hall, Memory.put_put, htake]

lemma PrintfCtx.write_after (hroom : HasRoom ctx (l ++ s).length)
    (hword : (l ++ s).length < word) :
    (ctx.after l).write s = if s.length ≠ 0 ∧ wadd ctx.buf l.length = 0 then none
      else some (ctx.after (l ++ s)) := by
  unfold write
  by_cases hs : s.length = 0
  · rw [if_pos hs, if_neg (fun h => h.1 hs), List.length_eq_zero_iff.mp hs, List.append_nil]
  · obtain ⟨hsafe, hmem⟩ := PrintfCtx.clip hroom rfl
    rw [if_neg hs]
    dsimp only
    set n := if s.length < (ctx.after l).avail then s.length else (ctx.after l).avail with hn
    have hlen : (s.take n).length = n := by
      rw [List.length_take]
      split_ifs at hn <;> omega
    have hpos : wadd l.length s.length = (l ++ s).length := by
      rw [List.length_append] at hword ⊢
      exact wadd_of_lt hword
    by_cases hnull : wadd ctx.buf l.length = 0
    · have hcopy : memcpy (ctx.after l).mem (wadd (ctx.after l).buf (ctx.after l).pos) (s.take n) =
          none := if_pos hnull
      rw [if_pos ⟨hs, hnull⟩, hcopy]
      rfl
    · have hcopy : memcpy (ctx.after l).mem (wadd (ctx.after l).buf (ctx.after l).pos) (s.take n) =
          some (ctx.after (l ++ s)).mem := by
        unfold memcpy
        rw [hlen]
        refine (if_neg hnull).trans ((if_pos hsafe).trans ?_)
        rw [← hmem]
        rfl
      rw [if_neg (fun h => hnull h.2), hcopy]
      exact congrArg (fun pos =>
        some (PrintfCtx.mk (ctx.after (l ++ s)).mem ctx.buf ctx.cap pos)) hpos

/-- Padding is writing. -/
lemma PrintfCtx.pad_eq {n : ℤ} : ctx.pad c n = ctx.write (List.replicate n.toNat c) := by
  unfold pad write
  rw [List.length_replicate]
  by_cases hn : n ≤ 0
  · have hzero : n.toNat = 0 := by omega
    rw [if_pos hn, if_pos hzero]
  · have hne : n.toNat ≠ 0 := by omega
    rw [if_neg hn, if_neg hne]
    dsimp only
    rw [List.take_replicate, min_eq_left (by split_ifs <;> omega)]
    unfold memset memcpy
    rw [List.length_replicate]

/-- **One call** adds its text, or panics at the null pointer. -/
lemma PrintfCall.run_after (hroom : HasRoom ctx (l ++ call.text).length)
    (hword : (l ++ call.text).length < word) :
    call.run (ctx.after l) = if call.checked ∧ wadd ctx.buf l.length = 0 then none
      else some (ctx.after (l ++ call.text)) := by
  cases call with
  | putc c =>
    have hpos : wadd l.length 1 = (l ++ [c]).length := by
      rw [List.length_append] at hword ⊢
      exact wadd_of_lt hword
    have hput : (if l.length < ctx.cap then
        (ctx.mem.put ctx.buf (l.take ctx.cap)).put (wadd ctx.buf l.length) [c]
        else ctx.mem.put ctx.buf (l.take ctx.cap)) =
          ctx.mem.put ctx.buf ((l ++ [c]).take ctx.cap) := by
      split_ifs with hlt
      · have hcanon := hroom l.length (by simp [text, hlt])
        have hall : l.take ctx.cap = l := List.take_of_length_le hlt.le
        have hall' : (l ++ [c]).take ctx.cap = l ++ [c] :=
          List.take_of_length_le (by rw [List.length_append, List.length_singleton]; exact hlt)
        rw [wadd_of_lt (lt_word_of_canonical hcanon), hall, hall', Memory.put_put]
      · rw [List.take_append_of_le_length (by omega)]
    rw [if_neg (by simp [checked])]
    exact congrArg₂ (fun mem pos => some (PrintfCtx.mk mem ctx.buf ctx.cap pos)) hput hpos
  | write s =>
    simp only [checked, decide_eq_true_eq, run, text] at hroom hword ⊢
    exact PrintfCtx.write_after hroom hword
  | pad ch n =>
    simp only [checked, decide_eq_true_eq, run, text] at hroom hword ⊢
    rw [PrintfCtx.pad_eq, PrintfCtx.write_after hroom hword, List.length_replicate]
    simp only [ne_eq, Int.toNat_eq_zero, not_le]

/-! ## All calls -/

lemma length_printfText : (printfText calls).length = (calls.map PrintfCall.length).sum := by
  rw [printfText, List.length_flatMap]
  simp only [PrintfCall.length_text]

lemma printfText_cons : printfText (call :: calls) = call.text ++ printfText calls :=
  List.flatMap_cons

/-- **The calls of a format** leave its text in the buffer, as far as it is below the capacity, or
one of them panics. -/
lemma run_calls (hroom : HasRoom ctx (l ++ printfText calls).length)
    (hword : (l ++ printfText calls).length < word) :
    calls.foldlM PrintfCall.run (ctx.after l) = if ReachesNull ctx.buf l.length calls then none
      else some (ctx.after (l ++ printfText calls)) := by
  induction calls generalizing l with
  | nil => simp [printfText, ReachesNull]
  | cons call calls ih =>
    rw [printfText_cons, ← List.append_assoc] at hroom hword ⊢
    have hle : (l ++ call.text).length ≤ (l ++ call.text ++ printfText calls).length := by
      rw [@List.length_append _ (l ++ call.text)]
      exact Nat.le_add_right _ _
    rw [List.foldlM_cons, PrintfCall.run_after (hroom.mono hle) (lt_of_le_of_lt hle hword)]
    have hnext : ReachesNull ctx.buf (l ++ call.text).length calls ↔
        ReachesNull ctx.buf (l.length + call.length) calls := by
      rw [List.length_append, PrintfCall.length_text]
    by_cases hnull : call.checked ∧ wadd ctx.buf l.length = 0
    · rw [if_pos hnull, if_pos (.inl hnull)]
      rfl
    · rw [if_neg hnull]
      refine (ih hroom hword).trans (if_congr ?_ rfl rfl)
      rw [hnext, ReachesNull, or_iff_right hnull]

/-! ## `vsnprintf` -/

/-- **What `vsnprintf` does.** -/
lemma vsnprintf_eq {fmt : List UInt8} {args : List PrintfArg} {items : List PrintfItem}
    (hitems : printfItems fmt = some items) (hcalls : itemCalls items args = some calls)
    (hword : (printfText calls).length < word)
    (hroom : ∀ i < min ((printfText calls).length + 1) bufsz, ptrIsCanonical (buf + i)) :
    vsnprintf m buf bufsz fmt args = if ReachesNull buf 0 calls then none
      else some (wrap32 (printfText calls).length,
        if bufsz > 0 then m.put buf ((printfText calls).take (bufsz - 1) ++ [0]) else m) := by
  have hcap : (if bufsz > 0 then bufsz - 1 else 0) = bufsz - 1 := by
    split_ifs <;> omega
  have hstart : (PrintfCtx.mk m buf (bufsz - 1) 0).after [] = PrintfCtx.mk m buf (bufsz - 1) 0 := by
    simp [PrintfCtx.after]
  have hrun : calls.foldlM PrintfCall.run ⟨m, buf, bufsz - 1, 0⟩ =
      if ReachesNull buf 0 calls then none
      else some ((PrintfCtx.mk m buf (bufsz - 1) 0).after (printfText calls)) := by
    have hroom' : HasRoom (PrintfCtx.mk m buf (bufsz - 1) 0) ([] ++ printfText calls).length := by
      intro i hi
      change i < min (printfText calls).length (bufsz - 1) at hi
      exact hroom i (by omega)
    have hrun := run_calls hroom' hword
    rw [hstart] at hrun
    exact hrun
  unfold vsnprintf
  simp only [hitems, hcalls, Option.bind_eq_bind, Option.bind_some]
  rw [hcap, hrun]
  by_cases hnull : ReachesNull buf 0 calls
  · rw [if_pos hnull, if_pos hnull]
    rfl
  rw [if_neg hnull, if_neg hnull, Option.bind_some]
  by_cases hsize : bufsz > 0
  · -- the zero comes right behind the text
    rw [if_pos hsize, if_pos hsize]
    have hstop : wadd buf (if (printfText calls).length < bufsz - 1 then (printfText calls).length
        else bufsz - 1) = buf + ((printfText calls).take (bufsz - 1)).length := by
      have hcanon := hroom ((printfText calls).take (bufsz - 1)).length
        (by rw [List.length_take]; omega)
      rw [← wadd_of_lt (lt_word_of_canonical hcanon), List.length_take]
      congr 1
      split_ifs <;> omega
    rw [← Memory.put_put, ← hstop]
    rfl
  · rw [if_neg hsize, if_neg hsize]
    have hnone : (printfText calls).take (bufsz - 1) = [] := by
      rw [show bufsz - 1 = 0 by omega, List.take_zero]
    have hmem : ((PrintfCtx.mk m buf (bufsz - 1) 0).after (printfText calls)).mem = m := by
      show m.put buf ((printfText calls).take (bufsz - 1)) = m
      rw [hnone, Memory.put_nil]
    rw [hmem]
    rfl

/-- **Bounded formatting.**  A format of complete directives with matching arguments, which have a
text that some buffer could hold, is formatted into a buffer as follows: no byte outside of the
buffer is written, the length of the text is returned, and a buffer that is not empty holds the text
up to its last byte but one, followed by a zero.  This is so exactly if no call goes to `memcpy` or
`memset` at the null pointer. -/
theorem vsnprintf_bounded_iff {fmt : List UInt8} {args : List PrintfArg} {items : List PrintfItem}
    (hitems : printfItems fmt = some items) (hcalls : itemCalls items args = some calls)
    (hword : (printfText calls).length + 1 < word)
    (hroom : ∀ i < min ((printfText calls).length + 1) bufsz, ptrIsCanonical (buf + i)) :
    (∃ m', vsnprintf m buf bufsz fmt args = some (wrap32 (printfText calls).length, m') ∧
      (∀ x, x < buf ∨ buf + bufsz ≤ x → m' x = m x) ∧
      (0 < bufsz → Holds m' buf ((printfText calls).take (bufsz - 1) ++ [0]))) ↔
    ¬ReachesNull buf 0 calls := by
  rw [vsnprintf_eq hitems hcalls (by omega) hroom]
  by_cases hnull : ReachesNull buf 0 calls
  · rw [if_pos hnull]
    refine iff_of_false ?_ (not_not.mpr hnull)
    rintro ⟨m', hnone, -⟩
    cases hnone
  · rw [if_neg hnull]
    refine iff_of_true ⟨_, rfl, fun x hx => ?_, fun hsize => ?_⟩ hnull
    · split_ifs with hsize
      · refine Memory.put_of_outside (hx.imp_right fun hge => ?_)
        rw [List.length_append, List.length_take, List.length_singleton]
        omega
      · rfl
    · rw [if_pos hsize]
      exact Memory.holds_put

/-- A buffer of twelve bytes gets the first eleven bytes of the text, which has twelve. -/
theorem vsnprintf_bounded_example : ∃ m',
    vsnprintf (fun _ => 0) 4096 12 (asciiString "%5d|%#06x") [.word 42, .word 255] = some (12, m') ∧
      (∀ x, x < 4096 ∨ 4108 ≤ x → m' x = 0) ∧ Holds m' 4096 (asciiString "   42|0x00f" ++ [0]) := by
  have hitems : printfItems (asciiString "%5d|%#06x") =
      some [.spec ⟨⟨false, false, false, false, false⟩, some 5, false, .default, ascii 'd'⟩,
        .text (asciiString "|"),
        .spec ⟨⟨true, true, false, false, false⟩, some 6, false, .default, ascii 'x'⟩] := by
    decide +kernel
  have hcalls : itemCalls [.spec ⟨⟨false, false, false, false, false⟩, some 5, false, .default,
      ascii 'd'⟩, .text (asciiString "|"), .spec ⟨⟨true, true, false, false, false⟩, some 6, false,
      .default, ascii 'x'⟩] [.word 42, .word 255] =
      some [.pad (ascii ' ') 3, .write [], .write (asciiString "42"), .write (asciiString "|"),
        .write (asciiString "0x"), .pad (ascii '0') 2, .write (asciiString "ff")] := by
    decide +kernel
  obtain ⟨m', heq, houtside, hholds⟩ :=
    (@vsnprintf_bounded_iff (fun _ => 0) 4096 12 _ _ _ _ hitems hcalls (by decide)
    (by decide)).mpr (by decide)
  refine ⟨m', heq.trans ?_, houtside, hholds (by decide)⟩
  exact congrArg (fun ret => some (ret, m')) (by decide)

/-- A number that is padded up to the end of the address space, and one behind it. -/
theorem vsnprintf_panics : ∃ items calls,
    printfItems (asciiString "%*d%d") = some items ∧
      itemCalls items [.word 0x7FFFF000, .word 1, .word 2] = some calls ∧
      (printfText calls).length + 1 < word ∧
      (∀ i < min ((printfText calls).length + 1) 16, ptrIsCanonical (0xFFFFFFFF80001000 + i)) ∧
      ∀ m, vsnprintf m 0xFFFFFFFF80001000 16 (asciiString "%*d%d")
        [.word 0x7FFFF000, .word 1, .word 2] = none := by
  have hitems : printfItems (asciiString "%*d%d") =
      some [.spec ⟨⟨false, false, false, false, false⟩, none, false, .default, ascii 'd'⟩,
        .spec ⟨⟨false, false, false, false, false⟩, some 0, false, .default, ascii 'd'⟩] := by
    decide +kernel
  have hcalls : itemCalls [.spec ⟨⟨false, false, false, false, false⟩, none, false, .default,
      ascii 'd'⟩, .spec ⟨⟨false, false, false, false, false⟩, some 0, false, .default, ascii 'd'⟩]
        [.word 0x7FFFF000, .word 1, .word 2] =
      some [.pad (ascii ' ') 0x7FFFEFFF, .write [], .write (asciiString "1"), .pad (ascii ' ') 0,
        .write [], .write (asciiString "2")] := by
    decide +kernel
  have hlength := @length_printfText [.pad (ascii ' ') 0x7FFFEFFF, .write [],
    .write (asciiString "1"), .pad (ascii ' ') 0, .write [], .write (asciiString "2")]
  have hroom : ∀ i < 16, ptrIsCanonical (0xFFFFFFFF80001000 + i) := by decide
  refine ⟨_, _, hitems, hcalls, ?_, fun i hi => hroom i (by omega), fun m => ?_⟩
  · rw [hlength]
    decide
  · rw [vsnprintf_eq hitems hcalls (by rw [hlength]; decide) fun i hi => hroom i (by omega)]
    exact if_pos (by decide)

end Cuore
