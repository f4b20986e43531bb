import Cuore.Stdio

/-!
# Where `vsnprintf` stops reading its format (`stdio.c`)

The writers never move the cursor `p`, so what `vsnprintf` reads of its format depends on the bytes
from `fmt` on only, with the terminating zero and what lies behind it among them.  `formatLoop` is
its main loop over these bytes, and leaves the ones that are not read.

On a format without cut directives this is `printfItems`, and what lies behind the zero is left
(`formatLoop_of_items`).  A directive that ends before its conversion is another matter: the
`switch` takes the zero for the conversion, the default case prints it, and the advance behind the
`switch` steps over it (`formatLoop_of_cut`).  `stopsAtEnd_iff` says that this is the only case.
-/

namespace Cuore

/-! ## The main loop -/

/-- The main loop of `vsnprintf` over the bytes from `p` on: the parts of the format, and the bytes
that are not read; `none` if it reads on behind the last of them. -/
def formatLoop (p : List UInt8) : Option (List PrintfItem × List UInt8) :=
  match p with
  | [] => none
  | c :: p =>
    if c = 0 then some ([], p)
    else if c ≠ ascii '%' then do
      let (items, q) ← formatLoop (p.dropWhile fun c => c ≠ 0 ∧ c ≠ ascii '%')
      some (.text (c :: p.takeWhile fun c => c ≠ 0 ∧ c ≠ ascii '%') :: items, q)
    else
      match p with
      | [] => none
      | d :: p =>
        if d = 0 then some ([], p)
        else
          match _hspec : parseSpec (d :: p) with
          | none => none
          | some (spec, q) => do
            let (items, q) ← formatLoop q
            some (.spec spec :: items, q)
termination_by p.length
decreasing_by
  · exact Nat.lt_succ_of_le (List.dropWhile_suffix _).length_le
  · exact (parseSpec_length _hspec).trans (Nat.lt_succ_self _)

/-- Nothing behind the terminating zero of `fmt` is read. -/
def StopsAtEnd (fmt : List UInt8) : Prop :=
  ∀ behind, ∃ items, formatLoop (fmt ++ 0 :: behind) = some (items, behind)

/-! ## Cut directives -/

/-- A flag. -/
def isFlag (c : UInt8) : Bool := decide (c ∈ asciiString "#0- +")

/-- What is left of `p` behind an asterisk or digits. -/
def behindNumber (p : List UInt8) : List UInt8 :=
  if p.head? = some (ascii '*') then p.tail else p.dropWhile isDigit

/-- What is left of `p` behind a precision. -/
def behindPrecision (p : List UInt8) : List UInt8 :=
  if p.head? = some (ascii '.') then behindNumber p.tail else p

/-- What is left of `p` behind a length modifier. -/
def behindLength : List UInt8 → List UInt8
  | [] => []
  | c :: p =>
    if c ∈ asciiString "hl" then (if p.head? = some c then p.tail else p)
    else if c ∈ asciiString "zjt" then p
    else c :: p

/-- What is left of `p` behind flags, a width, a precision and a length modifier: the conversion,
and the format behind it. -/
def behindModifiers (p : List UInt8) : List UInt8 :=
  behindLength (behindPrecision (behindNumber (p.dropWhile isFlag)))

/-- A format with a directive of flags, width, precision and length modifier only. -/
inductive CutShort : List UInt8 → Prop
  /-- The directive that is cut. -/
  | cut {p} : p ≠ [] → behindModifiers p = [] → CutShort (ascii '%' :: p)
  /-- Text. -/
  | text {c p} : c ≠ ascii '%' → CutShort p → CutShort (c :: p)
  /-- A directive that has its conversion. -/
  | directive {p conv q} : behindModifiers p = conv :: q → CutShort q → CutShort (ascii '%' :: p)

section Parsers

variable {p q : List UInt8}

lemma parseFlags_snd {f : PrintfFlags} : (parseFlags f p).2 = p.dropWhile isFlag := by
  induction p generalizing f with
  | nil => rfl
  | cons c p ih =>
    have hflag : isFlag c ↔
        c = ascii '#' ∨ c = ascii '0' ∨ c = ascii '-' ∨ c = ascii ' ' ∨ c = ascii '+' := by
      rw [isFlag, decide_eq_true_eq]
      simp [asciiString]
    rw [parseFlags, List.dropWhile_cons]
    split_ifs with h₁ h₂ h₃ h₄ h₅ h₆ <;> first | exact ih | rfl | grind

lemma parseDigits_snd {w : ℤ} : (parseDigits w p).2 = p.dropWhile isDigit := by
  induction p generalizing w with
  | nil => rfl
  | cons c p ih =>
    rw [parseDigits, List.dropWhile_cons]
    split_ifs
    · exact ih
    · rfl

lemma parseWidth_snd : (parseWidth p).2 = behindNumber p := by
  cases p with
  | nil => rfl
  | cons c p =>
    rw [parseWidth, behindNumber, List.head?_cons]
    by_cases hstar : c = ascii '*'
    · rw [if_pos hstar, if_pos (congrArg some hstar)]
      rfl
    · rw [if_neg hstar, if_neg fun h => hstar (Option.some.inj h)]
      exact parseDigits_snd

lemma parsePrecision_snd : (parsePrecision p).2 = behindPrecision p := by
  rcases p with _ | ⟨c, _ | ⟨d, p⟩⟩
  · rfl
  · simp only [parsePrecision, behindPrecision, List.head?_cons, Option.some.injEq]
    split_ifs <;> rfl
  · simp only [parsePrecision, behindPrecision, behindNumber, List.head?_cons, Option.some.injEq,
      List.tail_cons]
    split_ifs <;> rfl

lemma parseLength_snd : (parseLength p).2 = behindLength p := by
  rcases p with _ | ⟨c, p⟩
  · rfl
  have hmem : (c ∈ asciiString "hl" ↔ c = ascii 'h' ∨ c = ascii 'l') ∧
      (c ∈ asciiString "zjt" ↔ c = ascii 'z' ∨ c = ascii 'j' ∨ c = ascii 't') := by
    simp [asciiString]
  simp only [behindLength, hmem.1, hmem.2]
  rcases p with _ | ⟨d, p⟩
  · simp only [parseLength, List.head?_nil, reduceCtorEq, if_false]
    grind
  · simp only [parseLength, List.head?_cons, Option.some.injEq, List.tail_cons]
    grind

/-- **What `parseSpec` consumes.** -/
lemma parseSpec_behind : match parseSpec p with
    | none => behindModifiers p = []
    | some (d, q) => behindModifiers p = d.conv :: q := by
  unfold parseSpec behindModifiers
  rw [← @parseFlags_snd p ⟨false, false, false, false, false⟩, ← parseWidth_snd,
    ← parsePrecision_snd, ← parseLength_snd]
  rcases h : (parseLength (parsePrecision (parseWidth (parseFlags
    ⟨false, false, false, false, false⟩ p).2).2).2).2 with _ | ⟨conv, q⟩
  · simp only [h]
  · simp only [h]

/-! The zero behind the format stops each of the parsers, if it gets there. -/

variable {behind : List UInt8}

lemma parseFlags_zero {f : PrintfFlags} : parseFlags f (p ++ 0 :: behind) =
    ((parseFlags f p).1, (parseFlags f p).2 ++ 0 :: behind) := by
  induction p generalizing f with
  | nil => rfl
  | cons c p ih =>
    simp only [List.cons_append, parseFlags]
    split_ifs
    case neg => rfl
    all_goals exact ih

lemma parseDigits_zero {w : ℤ} : parseDigits w (p ++ 0 :: behind) =
    ((parseDigits w p).1, (parseDigits w p).2 ++ 0 :: behind) := by
  induction p generalizing w with
  | nil => rfl
  | cons c p ih =>
    simp only [List.cons_append, parseDigits]
    split_ifs
    · exact ih
    · rfl

lemma parseWidth_zero : parseWidth (p ++ 0 :: behind) =
    ((parseWidth p).1, (parseWidth p).2 ++ 0 :: behind) := by
  cases p with
  | nil => rfl
  | cons c p =>
    simp only [List.cons_append, parseWidth]
    split_ifs
    · rfl
    · rw [← List.cons_append, parseDigits_zero]

lemma dropWhile_isDigit_zero :
    (p ++ 0 :: behind).dropWhile isDigit = p.dropWhile isDigit ++ 0 :: behind := by
  rw [← @parseDigits_snd _ 0, ← @parseDigits_snd _ 0, parseDigits_zero]

lemma parsePrecision_zero : parsePrecision (p ++ 0 :: behind) =
    ((parsePrecision p).1, (parsePrecision p).2 ++ 0 :: behind) := by
  rcases p with _ | ⟨c, _ | ⟨d, p⟩⟩
  · rfl
  · simp only [List.cons_append, List.nil_append, parsePrecision]
    split_ifs <;> first | rfl | contradiction
  · simp only [List.cons_append, parsePrecision]
    split_ifs
    · rfl
    · rw [← List.cons_append, dropWhile_isDigit_zero]
    · rfl

lemma parseLength_zero : parseLength (p ++ 0 :: behind) =
    ((parseLength p).1, (parseLength p).2 ++ 0 :: behind) := by
  rcases p with _ | ⟨c, _ | ⟨d, p⟩⟩
  · rfl
  · simp only [List.cons_append, List.nil_append, parseLength]
    split_ifs <;> first | rfl | contradiction
  · simp only [List.cons_append, parseLength]
    split_ifs <;> rfl

/-- **A directive with its conversion** is parsed as without the zero. -/
lemma parseSpec_zero {d : PrintfSpec} (h : parseSpec p = some (d, q)) :
    parseSpec (p ++ 0 :: behind) = some (d, q ++ 0 :: behind) := by
  unfold parseSpec at h ⊢
  simp only [parseFlags_zero, parseWidth_zero, parsePrecision_zero, parseLength_zero] at h ⊢
  split at h
  · cases h
  · next heq =>
    simp only [heq] at h ⊢
    cases h
    rfl

/-- **A cut directive** takes the zero for its conversion. -/
lemma parseSpec_zero_of_cut (h : parseSpec p = none) :
    ∃ d, d.conv = 0 ∧ parseSpec (p ++ 0 :: behind) = some (d, behind) := by
  unfold parseSpec at h ⊢
  simp only [parseFlags_zero, parseWidth_zero, parsePrecision_zero, parseLength_zero] at h ⊢
  split at h
  · next heq =>
    simp only [heq]
    exact ⟨_, rfl, rfl⟩
  · cases h

end Parsers

/-! ## Complete formats -/

section Formats

variable {p q behind : List UInt8} {c d : UInt8} {spec : PrintfSpec} {items : List PrintfItem}

lemma formatLoop_zero : formatLoop (0 :: p) = some ([], p) := by
  rw [formatLoop.eq_def]
  rfl

lemma formatLoop_percent : formatLoop (ascii '%' :: 0 :: p) = some ([], p) := by
  rw [formatLoop.eq_def]
  rfl

lemma formatLoop_text (hzero : c ≠ 0) (htext : c ≠ ascii '%') :
    formatLoop (c :: p) = (formatLoop (p.dropWhile fun c => c ≠ 0 ∧ c ≠ ascii '%')).map
      (Prod.map (.text (c :: p.takeWhile fun c => c ≠ 0 ∧ c ≠ ascii '%') :: ·) id) := by
  rw [formatLoop.eq_def]
  simp only [if_neg hzero, if_pos htext]
  cases formatLoop (p.dropWhile fun c => c ≠ 0 ∧ c ≠ ascii '%') <;> rfl

lemma formatLoop_spec (hzero : d ≠ 0) (hspec : parseSpec (d :: p) = some (spec, q)) :
    formatLoop (ascii '%' :: d :: p) =
      (formatLoop q).map (Prod.map (.spec spec :: ·) id) := by
  have hpercent : ascii '%' ≠ 0 := by decide
  rw [formatLoop.eq_def]
  simp only [if_neg hpercent, ne_eq, not_true_eq_false, if_false, if_neg hzero]
  split
  · next heq => cases heq.symm.trans hspec
  · next heq =>
    cases heq.symm.trans hspec
    cases formatLoop q <;> rfl

lemma formatLoop_directive (hzero : 0 ∉ p) (hne : p ≠ [])
    (hspec : parseSpec (p ++ 0 :: behind) = some (spec, q)) :
    formatLoop (ascii '%' :: (p ++ 0 :: behind)) =
      (formatLoop q).map (Prod.map (.spec spec :: ·) id) := by
  obtain ⟨d, p, rfl⟩ := List.exists_cons_of_ne_nil hne
  rw [List.mem_cons, not_or] at hzero
  exact formatLoop_spec (Ne.symm hzero.1) hspec

lemma printfItems_text (htext : c ≠ ascii '%') :
    printfItems (c :: p) = (printfItems (p.dropWhile (· ≠ ascii '%'))).map
      (.text (c :: p.takeWhile (· ≠ ascii '%')) :: ·) := by
  rw [printfItems.eq_def]
  simp only [if_pos htext]
  cases printfItems (p.dropWhile (· ≠ ascii '%')) <;> rfl

lemma printfItems_spec (hne : p ≠ []) (hspec : parseSpec p = some (spec, q)) :
    printfItems (ascii '%' :: p) = (printfItems q).map (.spec spec :: ·) := by
  rw [printfItems.eq_def]
  simp only [ne_eq, not_true_eq_false, if_false, if_neg hne]
  split
  · next heq => cases heq.symm.trans hspec
  · next heq =>
    cases heq.symm.trans hspec
    cases printfItems q <;> rfl

lemma printfItems_of_cut (hne : p ≠ []) (hspec : parseSpec p = none) :
    printfItems (ascii '%' :: p) = none := by
  rw [printfItems.eq_def]
  simp only [ne_eq, not_true_eq_false, if_false, if_neg hne]
  split
  · rfl
  · next heq => cases heq.symm.trans hspec

lemma behindNumber_suffix : behindNumber p <:+ p := by
  unfold behindNumber
  split_ifs
  · exact List.tail_suffix p
  · exact List.dropWhile_suffix _

lemma behindLength_suffix : behindLength p <:+ p := by
  cases p with
  | nil => exact List.suffix_rfl
  | cons c p =>
    simp only [behindLength]
    split_ifs
    · exact (List.tail_suffix p).trans (List.suffix_cons c p)
    · exact List.suffix_cons c p
    · exact List.suffix_cons c p
    · exact List.suffix_rfl

lemma behindModifiers_suffix : behindModifiers p <:+ p := by
  have hprecision {p : List UInt8} : behindPrecision p <:+ p := by
    unfold behindPrecision
    split_ifs
    · exact behindNumber_suffix.trans (List.tail_suffix p)
    · exact List.suffix_rfl
  exact behindLength_suffix.trans <| hprecision.trans <| behindNumber_suffix.trans <|
    List.dropWhile_suffix _

/-- What lies behind a directive of a format has no zero either. -/
lemma not_mem_of_parseSpec (hspec : parseSpec p = some (spec, q)) (hzero : 0 ∉ p) : 0 ∉ q := by
  have hbehind := @parseSpec_behind p
  rw [hspec] at hbehind
  refine fun hmem => hzero (behindModifiers_suffix.subset ?_)
  rw [hbehind]
  exact List.mem_cons_of_mem _ hmem

/-- In a format, text ends at a percent sign or at the terminating zero. -/
lemma text_zero (hzero : 0 ∉ p) :
    (p ++ 0 :: behind).takeWhile (fun c => c ≠ 0 ∧ c ≠ ascii '%') =
        p.takeWhile (· ≠ ascii '%') ∧
      (p ++ 0 :: behind).dropWhile (fun c => c ≠ 0 ∧ c ≠ ascii '%') =
        p.dropWhile (· ≠ ascii '%') ++ 0 :: behind := by
  induction p with
  | nil => exact ⟨rfl, rfl⟩
  | cons c p ih =>
    rw [List.mem_cons, not_or] at hzero
    obtain ⟨htake, hdrop⟩ := ih hzero.2
    have hc : c ≠ 0 := Ne.symm hzero.1
    simp only [List.cons_append, List.takeWhile_cons, List.dropWhile_cons, hc, ne_eq,
      not_false_eq_true, true_and]
    split_ifs
    · exact ⟨congrArg (c :: ·) htake, hdrop⟩
    · exact ⟨rfl, rfl⟩

/-- **A format without cut directives** is read up to its terminating zero. -/
lemma formatLoop_of_items (hzero : 0 ∉ p) (h : printfItems p = some items) :
    formatLoop (p ++ 0 :: behind) = some (items, behind) := by
  induction p using printfItems.induct generalizing items with
  | case1 =>
    cases (printfItems.eq_def []).symm.trans h
    exact formatLoop_zero
  | case2 c p htext ih =>
    rw [printfItems_text htext] at h
    obtain ⟨items', hitems, rfl⟩ := Option.map_eq_some_iff.mp h
    rw [List.mem_cons, not_or] at hzero
    obtain ⟨htake, hdrop⟩ := @text_zero p behind hzero.2
    have hrest : 0 ∉ p.dropWhile (· ≠ ascii '%') :=
      fun hmem => hzero.2 ((List.dropWhile_suffix _).subset hmem)
    rw [List.cons_append, formatLoop_text (Ne.symm hzero.1) htext, htake, hdrop, ih hrest hitems]
    rfl
  | case3 c hpercent =>
    obtain rfl : c = ascii '%' := not_not.mp hpercent
    cases (printfItems.eq_def [ascii '%']).symm.trans h
    exact formatLoop_percent
  | case4 c p hpercent hne hspec =>
    obtain rfl : c = ascii '%' := not_not.mp hpercent
    cases (printfItems_of_cut hne hspec).symm.trans h
  | case5 c p hpercent hne spec q hspec ih =>
    obtain rfl : c = ascii '%' := not_not.mp hpercent
    rw [printfItems_spec hne hspec] at h
    obtain ⟨items', hitems, rfl⟩ := Option.map_eq_some_iff.mp h
    rw [List.mem_cons, not_or] at hzero
    rw [List.cons_append, formatLoop_directive hzero.2 hne (parseSpec_zero hspec),
      ih (not_mem_of_parseSpec hspec hzero.2) hitems]
    rfl

/-- **A format with a cut directive** is not read up to its terminating zero only. -/
lemma formatLoop_of_cut (hzero : 0 ∉ p) (h : printfItems p = none) :
    formatLoop (p ++ [0]) = none := by
  induction p using printfItems.induct with
  | case1 => cases (printfItems.eq_def []).symm.trans h
  | case2 c p htext ih =>
    rw [printfItems_text htext, Option.map_eq_none_iff] at h
    rw [List.mem_cons, not_or] at hzero
    obtain ⟨-, hdrop⟩ := @text_zero p [] hzero.2
    have hrest : 0 ∉ p.dropWhile (· ≠ ascii '%') :=
      fun hmem => hzero.2 ((List.dropWhile_suffix _).subset hmem)
    rw [List.cons_append, formatLoop_text (Ne.symm hzero.1) htext, hdrop, ih hrest h]
    rfl
  | case3 c hpercent =>
    obtain rfl : c = ascii '%' := not_not.mp hpercent
    cases (printfItems.eq_def [ascii '%']).symm.trans h
  | case4 c p hpercent hne hspec =>
    -- the zero is the conversion, and the loop goes on behind it
    obtain rfl : c = ascii '%' := not_not.mp hpercent
    rw [List.mem_cons, not_or] at hzero
    obtain ⟨cut, -, hcut⟩ := @parseSpec_zero_of_cut _ [] hspec
    rw [List.cons_append, formatLoop_directive hzero.2 hne hcut, formatLoop.eq_def]
    rfl
  | case5 c p hpercent hne spec q hspec ih =>
    obtain rfl : c = ascii '%' := not_not.mp hpercent
    rw [printfItems_spec hne hspec, Option.map_eq_none_iff] at h
    rw [List.mem_cons, not_or] at hzero
    rw [List.cons_append, formatLoop_directive hzero.2 hne (parseSpec_zero hspec),
      ih (not_mem_of_parseSpec hspec hzero.2) h]
    rfl

lemma cutShort_dropWhile : CutShort (p.dropWhile (· ≠ ascii '%')) ↔ CutShort p := by
  induction p with
  | nil => rfl
  | cons c p ih =>
    rw [List.dropWhile_cons]
    split_ifs with htext
    · have hc : c ≠ ascii '%' := of_decide_eq_true htext
      refine ih.trans ⟨.text hc, fun h => ?_⟩
      cases h with
      | text _ h => exact h
      | cut => exact absurd rfl hc
      | directive => exact absurd rfl hc
    · rfl

/-- **Formats that `vsnprintf` reads as parts** are those without a cut directive. -/
lemma printfItems_eq_none_iff : printfItems p = none ↔ CutShort p := by
  induction p using printfItems.induct with
  | case1 =>
    refine iff_of_false (fun h => ?_) (fun h => by cases h)
    cases (printfItems.eq_def []).symm.trans h
  | case2 c p htext ih =>
    rw [printfItems_text htext, Option.map_eq_none_iff, ih, cutShort_dropWhile]
    refine ⟨.text htext, fun h => ?_⟩
    cases h with
    | text _ h => exact h
    | cut => exact absurd rfl htext
    | directive => exact absurd rfl htext
  | case3 c hpercent =>
    obtain rfl : c = ascii '%' := not_not.mp hpercent
    refine iff_of_false (fun h => ?_) (fun h => ?_)
    · cases (printfItems.eq_def [ascii '%']).symm.trans h
    · cases h with
      | text hne => exact hne rfl
      | cut hne => exact hne rfl
      | directive hbehind => cases hbehind
  | case4 c p hpercent hne hspec =>
    obtain rfl : c = ascii '%' := not_not.mp hpercent
    have hbehind := @parseSpec_behind p
    rw [hspec] at hbehind
    exact iff_of_true (printfItems_of_cut hne hspec) (.cut hne hbehind)
  | case5 c p hpercent hne spec q hspec ih =>
    obtain rfl : c = ascii '%' := not_not.mp hpercent
    have hbehind := @parseSpec_behind p
    rw [hspec] at hbehind
    rw [printfItems_spec hne hspec, Option.map_eq_none_iff, ih]
    refine ⟨.directive hbehind, fun h => ?_⟩
    cases h with
    | text hne => exact absurd rfl hne
    | cut _ hcut => cases hbehind.symm.trans hcut
    | directive hother h =>
      cases hbehind.symm.trans hother
      exact h

/-- **Where the format is read.**  `vsnprintf` reads nothing behind the terminating zero of its
format, whatever lies there, exactly if no directive of the format is cut short behind its flags,
width, precision or length modifier. -/
theorem stopsAtEnd_iff (hzero : 0 ∉ p) : StopsAtEnd p ↔ ¬CutShort p := by
  rw [← printfItems_eq_none_iff]
  constructor
  · intro hstops hnone
    obtain ⟨items, hitems⟩ := hstops []
    cases (formatLoop_of_cut hzero hnone).symm.trans hitems
  · intro hitems behind
    obtain ⟨items, hitems⟩ := Option.ne_none_iff_exists'.mp hitems
    exact ⟨items, formatLoop_of_items hzero hitems⟩

/-- Two complete directives, and text around them. -/
theorem stopsAtEnd_complete : 0 ∉ asciiString "at %5d: %-08llx." ∧
    StopsAtEnd (asciiString "at %5d: %-08llx.") := by
  have hzero : 0 ∉ asciiString "at %5d: %-08llx." := by decide
  refine ⟨hzero, (stopsAtEnd_iff hzero).mpr ?_⟩
  rw [← printfItems_eq_none_iff]
  decide +kernel

/-- A directive that ends behind its width: the zero is printed, and what lies behind it is taken
for the format. -/
theorem not_stopsAtEnd_width : 0 ∉ asciiString "%5" ∧ ¬StopsAtEnd (asciiString "%5") ∧
    formatLoop (asciiString "%5" ++ 0 :: asciiString "%s" ++ [0]) =
      some ([.spec ⟨⟨false, false, false, false, false⟩, some 5, false, .default, 0⟩,
        .spec ⟨⟨false, false, false, false, false⟩, some 0, false, .default, ascii 's'⟩], []) := by
  have hzero : 0 ∉ asciiString "%5" := by decide
  refine ⟨hzero, fun hstops => ?_, by decide +kernel⟩
  obtain ⟨items, hitems⟩ := hstops []
  have hnone : printfItems (asciiString "%5") = none := by decide +kernel
  cases (formatLoop_of_cut hzero hnone).symm.trans hitems

end Formats

end Cuore
