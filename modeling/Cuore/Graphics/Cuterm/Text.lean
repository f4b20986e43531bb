import Cuore.Graphics.Cuterm

/-!
# The text on the terminal

What a reader sees of the terminal, colours aside, is where the cursor stands, what state the
parser is in, which glyphs were drawn in which cells and when the screen was scrolled.  `TermText`
is that part of the state, and `TermText.put` what a byte of plain text does to it.
`cutermPutc_text` says that the terminal does this and no more, whatever its colours and the remains
of earlier parameters are.

The parser touches none of it but its own state (`ansiFeed_text`), so a sequence that sets colours
leaves the text as it was.  `puts_sgr` is the statement for one sequence, and
`sgr_leaves_text` the comparison of a stream with the same stream without its colour sequences.

Colours do change what is stored to the framebuffer, but not where.  `places` are the accesses of a
terminal without the colours, and `Alike` is the relation that drawing keeps between two terminals
with the same text that differ in their colours.
-/

namespace Cuore

/-! ## The text of a terminal -/

/-- An access to the framebuffer or the font, without the colours that are stored. -/
def TermAccess.uncoloured : TermAccess → Option TermAccess
  | store addr bytes => some (store addr (bytes.map fun _ => 0))
  | move dst src len => some (move dst src len)
  | font i => some (font i)
  | param _ | basic _ | cube _ => none

/-- The state of a terminal without colours and parameters. -/
structure TermText where
  fb : Framebuffer
  cursorX : ℤ
  cursorY : ℤ
  ansiState : AnsiState
  events : List TermEvent

namespace TermText

/-- The cursor moves to the next row, or the screen moves up under it. -/
def newline (t : TermText) : TermText :=
  let rows := Cuterm.asInt (t.fb.height / cutermCharHeight : ℕ)
  if t.cursorY + 1 ≥ rows then
    { t with cursorY := rows - 1, events := t.events ++ [.scroll] }
  else { t with cursorY := t.cursorY + 1 }

/-- The cursor moves to the next column, or to the next line. -/
def advance (t : TermText) : TermText :=
  let t := { t with cursorX := t.cursorX + 1 }
  let columns : ℤ := (t.fb.width / cutermCharWidth : ℕ)
  if t.cursorX % 2 ^ 32 ≥ columns then { t with cursorX := 0 }.newline else t

/-- A byte of plain text. -/
def put (t : TermText) (c : UInt8) : TermText :=
  if c = 10 then { t with cursorX := 0 }.newline
  else advance { t with events := t.events ++ [.glyph c t.cursorX t.cursorY] }

lemma ansiState_newline (t : TermText) : t.newline.ansiState = t.ansiState := by
  rw [newline]
  split_ifs <;> rfl

lemma ansiState_advance (t : TermText) : t.advance.ansiState = t.ansiState := by
  rw [advance]
  split_ifs
  · rw [ansiState_newline]
  · rfl

lemma ansiState_put (t : TermText) (c : UInt8) : (t.put c).ansiState = t.ansiState := by
  rw [put]
  split_ifs
  · rw [ansiState_newline]
  · rw [ansiState_advance]

end TermText

namespace Cuterm

/-- The text of a terminal. -/
def text (s : Cuterm) : TermText := ⟨s.fb, s.cursorX, s.cursorY, s.ansiState, s.events⟩

/-! ## Drawing -/

/-- Steps that leave the text alone, one after the other. -/
lemma text_foldl {α : Type*} {f : Cuterm → α → Cuterm} (h : ∀ s x, (f s x).text = s.text)
    (l : List α) (s : Cuterm) : (l.foldl f s).text = s.text := by
  induction l generalizing s with
  | nil => rfl
  | cons x l ih => rw [List.foldl_cons, ih, h]

@[simp] lemma text_touch (s : Cuterm) (as : List TermAccess) : (s.touch as).text = s.text := rfl

lemma text_setPixel (s : Cuterm) (x y : ℤ) (c : Rgb) : (s.setPixel x y c).text = s.text := rfl

lemma text_clearRows (s : Cuterm) (yStart heightPx : ℤ) :
    (s.clearRows yStart heightPx).text = s.text := by
  rw [clearRows]
  split_ifs <;> rfl

lemma text_drawRow (row : ℕ) (posX posY : ℤ) (s : Cuterm) :
    (drawRow row posX posY s).text = s.text :=
  text_foldl (fun s _ => s.text_setPixel _ _ _) _ s

/-- An event more, on a terminal that has kept its text. -/
lemma text_addEvent {s s' : Cuterm} (h : s'.text = s.text) (e : TermEvent) :
    { s' with events := s'.events ++ [e] }.text = { s.text with events := s.events ++ [e] } := by
  have hevents : s'.events = s.events := congrArg TermText.events h
  rw [← h, ← hevents]
  rfl

lemma text_cutermScroll (s : Cuterm) :
    s.cutermScroll.text = { s.text with events := s.events ++ [.scroll] } :=
  text_addEvent (text_clearRows _ _ _) _

lemma text_cutermNewline (s : Cuterm) : s.cutermNewline.text = s.text.newline := by
  have hscroll := text_cutermScroll { s with cursorY := s.cursorY + 1 }
  by_cases hrows : s.cursorY + 1 ≥ asInt (s.fb.height / cutermCharHeight : ℕ)
  · have hterm : s.cutermNewline = { { s with cursorY := s.cursorY + 1 }.cutermScroll with
        cursorY := asInt (s.fb.height / cutermCharHeight : ℕ) - 1 } := if_pos hrows
    have htext : s.text.newline = { s.text with
        cursorY := asInt (s.fb.height / cutermCharHeight : ℕ) - 1
        events := s.events ++ [.scroll] } := if_pos hrows
    rw [hterm, htext]
    exact congrArg (fun t : TermText =>
      { t with cursorY := asInt (s.fb.height / cutermCharHeight : ℕ) - 1 }) hscroll
  · have hterm : s.cutermNewline = { s with cursorY := s.cursorY + 1 } := if_neg hrows
    have htext : s.text.newline = { s.text with cursorY := s.cursorY + 1 } := if_neg hrows
    rw [hterm, htext]
    rfl

lemma text_drawRows (font : ℤ → ℕ) (s : Cuterm) (fontIdx posX posY : ℤ) :
    (s.drawRows font fontIdx posX posY).text = s.text := by
  rw [drawRows]
  exact text_foldl (fun s y => (text_drawRow _ _ _ _).trans (text_touch s _)) _ s

lemma text_drawChar (font : ℤ → ℕ) (s : Cuterm) (c : UInt8) :
    (s.drawChar font c).text =
      { s.text with events := s.events ++ [.glyph c s.cursorX s.cursorY] } := by
  have hrows := text_drawRows font s (c.toNat * cutermCharHeight) (s.cursorX * cutermCharWidth)
    (s.cursorY * cutermCharHeight)
  rw [drawChar]
  generalize s.drawRows font _ _ _ = drawn at hrows ⊢
  have hx : drawn.cursorX = s.cursorX := congrArg TermText.cursorX hrows
  have hy : drawn.cursorY = s.cursorY := congrArg TermText.cursorY hrows
  rw [← hx, ← hy]
  exact text_addEvent hrows _

/-! ## The parser -/

lemma text_sgrRead (s : Cuterm) (i : ℕ) : (s.sgrRead i).text = s.text := by
  rw [sgrRead]
  split_ifs <;> rfl

lemma text_sgrCase (s : Cuterm) (i : ℕ) (p : ℤ) : (s.sgrCase i p).1.text = s.text := by
  rw [sgrCase]
  split_ifs <;> rfl

lemma text_sgrLoop (turns i : ℕ) (s : Cuterm) : (sgrLoop turns i s).text = s.text := by
  induction turns generalizing i s with
  | zero => rfl
  | succ turns ih =>
    rw [sgrLoop]
    split_ifs
    · exact (ih _ _).trans ((text_sgrCase _ _ _).trans (text_sgrRead s i))
    · rfl

lemma text_ansiApplySgr (s : Cuterm) : s.ansiApplySgr.text = s.text := by
  rw [ansiApplySgr]
  split_ifs
  · rfl
  · exact text_sgrLoop _ _ _

lemma text_ansiPushParam (s : Cuterm) : s.ansiPushParam.text = s.text := by
  rw [ansiPushParam]
  split_ifs <;> rfl

/-- The parser leaves the text alone, but for its own state. -/
lemma ansiFeed_text (s : Cuterm) (c : UInt8) :
    (s.ansiFeed c).2.text = { s.text with ansiState := (s.ansiFeed c).2.ansiState } := by
  rw [ansiFeed]
  cases hstate : s.ansiState with
  | normal =>
    dsimp only
    split_ifs <;> rfl
  | esc =>
    dsimp only
    split_ifs <;> rfl
  | csi =>
    have hpush := text_ansiPushParam s
    dsimp only
    split_ifs
    · rfl
    · exact congrArg (fun t => { t with ansiState := s.ansiPushParam.ansiState }) hpush
    · exact congrArg (fun t => { t with ansiState := .normal })
        ((text_ansiApplySgr _).trans hpush)
    · exact congrArg (fun t => { t with ansiState := .normal }) hpush

lemma ansiState_ansiPushParam (s : Cuterm) : s.ansiPushParam.ansiState = s.ansiState :=
  congrArg TermText.ansiState (text_ansiPushParam s)

/-! ## One byte -/

variable (font : ℤ → ℕ)

lemma text_advance (s : Cuterm) : s.advance.text = s.text.advance := by
  by_cases hwrap : (s.cursorX + 1) % 2 ^ 32 ≥ (s.fb.width / cutermCharWidth : ℕ)
  · have hterm : s.advance = { s with cursorX := 0 }.cutermNewline := if_pos hwrap
    have htext : s.text.advance = { s.text with cursorX := 0 }.newline := if_pos hwrap
    rw [hterm, htext]
    exact text_cutermNewline _
  · have hterm : s.advance = { s with cursorX := s.cursorX + 1 } := if_neg hwrap
    have htext : s.text.advance = { s.text with cursorX := s.cursorX + 1 } := if_neg hwrap
    rw [hterm, htext]
    rfl

lemma ansiFeed_plain {s : Cuterm} {c : UInt8} (hstate : s.ansiState = .normal) (hc : c ≠ 0x1b) :
    s.ansiFeed c = (false, s) := by
  rw [ansiFeed, hstate]
  exact if_neg hc

lemma cutermPutc_lineFeed {s : Cuterm} (hstate : s.ansiState = .normal) :
    s.cutermPutc font 10 = { s with cursorX := 0 }.cutermNewline := by
  rw [cutermPutc, ansiFeed_plain hstate (by decide)]
  rfl

lemma cutermPutc_glyph {s : Cuterm} {c : UInt8} (hstate : s.ansiState = .normal) (hc : c ≠ 0x1b)
    (hline : c ≠ 10) : s.cutermPutc font c = (s.drawChar font c).advance := by
  rw [cutermPutc, ansiFeed_plain hstate hc]
  exact if_neg hline

/-- **A byte of plain text** does to the terminal what it does to the text. -/
lemma cutermPutc_text {s : Cuterm} {c : UInt8} (hstate : s.ansiState = .normal) (hc : c ≠ 0x1b) :
    (s.cutermPutc font c).text = s.text.put c := by
  by_cases hline : c = 10
  · subst hline
    rw [cutermPutc_lineFeed font hstate]
    exact text_cutermNewline _
  · rw [cutermPutc_glyph font hstate hc hline, TermText.put, if_neg hline, text_advance,
      text_drawChar]
    rfl

lemma cutermPutc_of_taken {s : Cuterm} {c : UInt8} (h : (s.ansiFeed c).1 = true) :
    s.cutermPutc font c = (s.ansiFeed c).2 := by
  rw [cutermPutc]
  exact if_pos h

/-- A byte that belongs to a sequence changes the state of the parser and nothing else. -/
lemma cutermPutc_text_of_taken {s : Cuterm} {c : UInt8} (h : (s.ansiFeed c).1 = true) :
    (s.cutermPutc font c).text = { s.text with ansiState := (s.ansiFeed c).2.ansiState } := by
  rw [cutermPutc_of_taken font h, ansiFeed_text]

/-- A byte that the parser does not take is plain text. -/
lemma plain_of_not_taken {s : Cuterm} {c : UInt8} (h : (s.ansiFeed c).1 ≠ true) :
    s.ansiState = .normal ∧ c ≠ 0x1b := by
  rw [ansiFeed] at h
  cases hstate : s.ansiState with
  | normal =>
    refine ⟨rfl, fun hc => h ?_⟩
    rw [hstate]
    exact congrArg Prod.fst (if_pos hc)
  | esc =>
    simp only [hstate] at h
    split_ifs at h <;> exact absurd rfl h
  | csi =>
    simp only [hstate] at h
    split_ifs at h <;> exact absurd rfl h

/-- The bytes between the bracket and the letter of a sequence: digits and semicolons. -/
def IsSgrByte (c : UInt8) : Prop := (48 ≤ c ∧ c ≤ 57) ∨ c = 59

/-- A digit or a semicolon leaves the parser within its sequence. -/
lemma cutermPutc_sgrByte {s : Cuterm} {c : UInt8} (hstate : s.ansiState = .csi)
    (hc : IsSgrByte c) : (s.cutermPutc font c).text = s.text := by
  have hfeed : (s.ansiFeed c).1 = true ∧ (s.ansiFeed c).2.ansiState = s.ansiState := by
    rw [ansiFeed]
    simp only [hstate]
    by_cases hdigit : 48 ≤ c ∧ c ≤ 57
    · rw [if_pos hdigit]
      exact ⟨rfl, rfl⟩
    · rw [if_neg hdigit, if_pos (hc.resolve_left hdigit)]
      exact ⟨rfl, (ansiState_ansiPushParam s).trans hstate⟩
  rw [cutermPutc_text_of_taken font hfeed.1, hfeed.2]
  rfl

/-- The escape character begins a sequence. -/
lemma cutermPutc_esc {s : Cuterm} (hstate : s.ansiState = .normal) :
    (s.cutermPutc font 0x1b).text = { s.text with ansiState := .esc } := by
  have hfeed : s.ansiFeed 0x1b = (true, { s with ansiState := .esc }) := by
    rw [ansiFeed, hstate]
    exact if_pos rfl
  rw [cutermPutc_text_of_taken font (by rw [hfeed]), hfeed]

/-- The bracket begins the parameters. -/
lemma cutermPutc_bracket {s : Cuterm} (hstate : s.ansiState = .esc) :
    (s.cutermPutc font 91).text = { s.text with ansiState := .csi } := by
  have hfeed : (s.ansiFeed 91).1 = true ∧ (s.ansiFeed 91).2.ansiState = .csi := by
    rw [ansiFeed, hstate]
    exact ⟨rfl, rfl⟩
  rw [cutermPutc_text_of_taken font hfeed.1, hfeed.2]

/-- The letter m ends the sequence. -/
lemma cutermPutc_sgrEnd {s : Cuterm} (hstate : s.ansiState = .csi) :
    (s.cutermPutc font 109).text = { s.text with ansiState := .normal } := by
  have hfeed : (s.ansiFeed 109).1 = true ∧ (s.ansiFeed 109).2.ansiState = .normal := by
    rw [ansiFeed, hstate]
    exact ⟨rfl, rfl⟩
  rw [cutermPutc_text_of_taken font hfeed.1, hfeed.2]

/-! ## Streams -/

/-- The parameters of a sequence leave the text alone. -/
lemma puts_sgrBytes {body : List UInt8} (hbody : ∀ c ∈ body, IsSgrByte c) {s : Cuterm}
    (hstate : s.ansiState = .csi) : (s.puts font body).text = s.text := by
  induction body generalizing s with
  | nil => rfl
  | cons c body ih =>
    have hbyte := cutermPutc_sgrByte font hstate (hbody c List.mem_cons_self)
    have hnext : (s.cutermPutc font c).ansiState = .csi :=
      (congrArg TermText.ansiState hbyte).trans hstate
    exact (ih (fun d hd => hbody d (List.mem_cons_of_mem c hd)) hnext).trans hbyte

/-- **A colour sequence** leaves the text as it was. -/
lemma puts_sgr {body : List UInt8} (hbody : ∀ c ∈ body, IsSgrByte c) {s : Cuterm}
    (hstate : s.ansiState = .normal) :
    (s.puts font (0x1b :: 91 :: (body ++ [109]))).text = s.text := by
  have hesc := cutermPutc_esc font hstate
  have hbracket := cutermPutc_bracket font (congrArg TermText.ansiState hesc)
  have hparams := puts_sgrBytes font hbody (congrArg TermText.ansiState hbracket)
  have hend := cutermPutc_sgrEnd font
    ((congrArg TermText.ansiState hparams).trans (congrArg TermText.ansiState hbracket))
  have hputs : s.puts font (0x1b :: 91 :: (body ++ [109])) =
      (((s.cutermPutc font 0x1b).cutermPutc font 91).puts font body).cutermPutc font 109 := by
    simp only [puts, List.foldl_cons, List.foldl_append, List.foldl_nil]
  rw [hputs, hend, hparams, hbracket, hesc, ← hstate]
  rfl

/-- A stretch of a stream: a byte of text or a colour sequence with its parameters. -/
inductive TextPiece
  | byte (c : UInt8)
  | sgr (body : List UInt8)

namespace TextPiece

/-- What the text may hold: any byte but the escape character, and sequences whose parameters are
digits and semicolons. -/
def WellFormed : TextPiece → Prop
  | byte c => c ≠ 0x1b
  | sgr body => ∀ c ∈ body, IsSgrByte c

/-- The bytes of a piece. -/
def bytes : TextPiece → List UInt8
  | byte c => [c]
  | sgr body => 0x1b :: 91 :: (body ++ [109])

/-- The bytes of a piece without colour sequences. -/
def plain : TextPiece → List UInt8
  | byte c => [c]
  | sgr _ => []

lemma ne_esc_of_mem_plain {p : TextPiece} (hp : p.WellFormed) {c : UInt8} (hc : c ∈ p.plain) :
    c ≠ 0x1b := by
  cases p with
  | byte d =>
    rw [List.mem_singleton.1 hc]
    exact hp
  | sgr body => exact absurd hc List.not_mem_nil

end TextPiece

/-- One piece of a stream: the text takes its plain bytes. -/
lemma puts_piece {p : TextPiece} (hp : p.WellFormed) {s : Cuterm} (hstate : s.ansiState = .normal) :
    (s.puts font p.bytes).text = p.plain.foldl TermText.put s.text := by
  cases p with
  | byte c => exact cutermPutc_text font hstate hp
  | sgr body => exact puts_sgr font hp hstate

/-- The state of the parser under plain bytes. -/
lemma ansiState_foldl_put (cs : List UInt8) (t : TermText) :
    (cs.foldl TermText.put t).ansiState = t.ansiState := by
  induction cs generalizing t with
  | nil => rfl
  | cons c cs ih => rw [List.foldl_cons, ih, TermText.ansiState_put]

/-- **A stream of text and colour sequences**: the text takes the plain bytes, one after the
other. -/
lemma puts_pieces {pieces : List TextPiece} (hpieces : ∀ p ∈ pieces, p.WellFormed) {s : Cuterm}
    (hstate : s.ansiState = .normal) :
    (s.puts font (pieces.flatMap TextPiece.bytes)).text =
      (pieces.flatMap TextPiece.plain).foldl TermText.put s.text := by
  induction pieces generalizing s with
  | nil => rfl
  | cons p pieces ih =>
    have hpiece := puts_piece font (hpieces p List.mem_cons_self) hstate
    have hnext : (s.puts font p.bytes).ansiState = .normal := by
      have h := congrArg TermText.ansiState hpiece
      rw [ansiState_foldl_put] at h
      exact h.trans hstate
    have hrest := ih (fun q hq => hpieces q (List.mem_cons_of_mem p hq)) hnext
    rw [List.flatMap_cons, List.flatMap_cons, List.foldl_append, ← hpiece, ← hrest, puts,
      List.foldl_append]
    rfl

/-- A stream of plain bytes. -/
lemma puts_plain {cs : List UInt8} (hcs : ∀ c ∈ cs, c ≠ 0x1b) {s : Cuterm}
    (hstate : s.ansiState = .normal) :
    (s.puts font cs).text = cs.foldl TermText.put s.text := by
  have hpieces : ∀ p ∈ cs.map TextPiece.byte, p.WellFormed := by
    intro p hp
    obtain ⟨c, hc, rfl⟩ := List.mem_map.1 hp
    exact hcs c hc
  have h := puts_pieces font hpieces hstate
  have hbytes : (cs.map TextPiece.byte).flatMap TextPiece.bytes = cs := by
    rw [List.flatMap_map]
    exact List.flatMap_singleton' cs
  have hplain : (cs.map TextPiece.byte).flatMap TextPiece.plain = cs := by
    rw [List.flatMap_map]
    exact List.flatMap_singleton' cs
  rwa [hbytes, hplain] at h

/-! ## Where it is drawn -/

section Places

variable {s s' : Cuterm}

/-- Where a terminal has drawn: its accesses to the framebuffer and the font, colours aside. -/
def places (s : Cuterm) : List TermAccess := s.accesses.filterMap TermAccess.uncoloured

lemma fb_touch (s : Cuterm) (as : List TermAccess) : (s.touch as).fb = s.fb := rfl

lemma places_touch (s : Cuterm) (as : List TermAccess) :
    (s.touch as).places = s.places ++ as.filterMap TermAccess.uncoloured :=
  List.filterMap_append

/-- Two terminals with the same text, that have drawn in the same places. -/
structure Alike (s s' : Cuterm) : Prop where
  text : s.text = s'.text
  places : s.places = s'.places

lemma Alike.fb (h : Alike s s') : s.fb = s'.fb := congrArg TermText.fb h.text

lemma Alike.cursorX (h : Alike s s') : s.cursorX = s'.cursorX := congrArg TermText.cursorX h.text

lemma Alike.cursorY (h : Alike s s') : s.cursorY = s'.cursorY := congrArg TermText.cursorY h.text

lemma Alike.events (h : Alike s s') : s.events = s'.events := congrArg TermText.events h.text

lemma Alike.touch (h : Alike s s') {as as' : List TermAccess}
    (has : as.filterMap TermAccess.uncoloured = as'.filterMap TermAccess.uncoloured) :
    Alike (s.touch as) (s'.touch as') :=
  ⟨h.text, by rw [places_touch, places_touch, h.places, has]⟩

/-- Terminals that are drawn to alike stay alike. -/
lemma Alike.foldl {α : Type*} {f g : Cuterm → α → Cuterm}
    (hstep : ∀ s s' x, Alike s s' → Alike (f s x) (g s' x)) (h : Alike s s') (l : List α) :
    Alike (l.foldl f s) (l.foldl g s') := by
  induction l generalizing s s' with
  | nil => exact h
  | cons x l ih => exact ih (hstep s s' x h)

/-- The places of a pixel do not depend on its colour. -/
lemma uncoloured_pixelStores (fb : Framebuffer) (addr : ℤ) (color color' : ℕ) :
    (pixelStores fb addr color).filterMap TermAccess.uncoloured =
      (pixelStores fb addr color').filterMap TermAccess.uncoloured := by
  rw [pixelStores, pixelStores]
  split_ifs <;> simp [TermAccess.uncoloured, leBytes]

lemma Alike.setPixel (h : Alike s s') (x y : ℤ) (c c' : Rgb) :
    Alike (s.setPixel x y c) (s'.setPixel x y c') := by
  refine h.touch ?_
  rw [h.fb]
  exact uncoloured_pixelStores _ _ _ _

lemma Alike.clearRows (h : Alike s s') (yStart heightPx : ℤ) :
    Alike (s.clearRows yStart heightPx) (s'.clearRows yStart heightPx) := by
  simp only [Cuterm.clearRows, h.fb]
  by_cases hnone : heightPx ≤ 0
  · rw [if_pos hnone, if_pos hnone]
    exact h
  · rw [if_neg hnone, if_neg hnone]
    refine h.touch ?_
    simp only [List.filterMap_flatMap, uncoloured_pixelStores s'.fb _ (packColor s'.fb s.bg)
      (packColor s'.fb s'.bg)]

lemma Alike.withCursorX (h : Alike s s') {x x' : ℤ} (hx : x = x') :
    Alike { s with cursorX := x } { s' with cursorX := x' } := by
  subst hx
  exact ⟨congrArg (fun t : TermText => { t with cursorX := x }) h.text, h.places⟩

lemma Alike.withCursorY (h : Alike s s') {y y' : ℤ} (hy : y = y') :
    Alike { s with cursorY := y } { s' with cursorY := y' } := by
  subst hy
  exact ⟨congrArg (fun t : TermText => { t with cursorY := y }) h.text, h.places⟩

lemma Alike.withEvent (h : Alike s s') {e e' : TermEvent} (he : e = e') :
    Alike { s with events := s.events ++ [e] } { s' with events := s'.events ++ [e'] } := by
  subst he
  exact ⟨congrArg (fun t : TermText => { t with events := t.events ++ [e] }) h.text, h.places⟩

lemma Alike.cutermScroll (h : Alike s s') : Alike s.cutermScroll s'.cutermScroll := by
  have hmove : ∀ m : TermAccess, Alike (s.touch [m]) (s'.touch [m]) := fun m => h.touch rfl
  unfold Cuterm.cutermScroll
  dsimp only
  rw [fb_touch, fb_touch, h.fb]
  exact ((hmove _).clearRows _ _).withEvent rfl

lemma Alike.cutermNewline (h : Alike s s') : Alike s.cutermNewline s'.cutermNewline := by
  have hnext := h.withCursorY (congrArg (· + 1) h.cursorY)
  by_cases hrows : s.cursorY + 1 ≥ asInt (s.fb.height / cutermCharHeight : ℕ)
  · have hterm : s.cutermNewline = { { s with cursorY := s.cursorY + 1 }.cutermScroll with
        cursorY := asInt (s.fb.height / cutermCharHeight : ℕ) - 1 } := if_pos hrows
    rw [h.fb, h.cursorY] at hrows
    have hterm' : s'.cutermNewline = { { s' with cursorY := s'.cursorY + 1 }.cutermScroll with
        cursorY := asInt (s'.fb.height / cutermCharHeight : ℕ) - 1 } := if_pos hrows
    rw [hterm, hterm']
    exact hnext.cutermScroll.withCursorY (by rw [h.fb])
  · have hterm : s.cutermNewline = { s with cursorY := s.cursorY + 1 } := if_neg hrows
    rw [h.fb, h.cursorY] at hrows
    have hterm' : s'.cutermNewline = { s' with cursorY := s'.cursorY + 1 } := if_neg hrows
    rw [hterm, hterm']
    exact hnext

lemma Alike.advance (h : Alike s s') : Alike s.advance s'.advance := by
  by_cases hwrap : (s.cursorX + 1) % 2 ^ 32 ≥ (s.fb.width / cutermCharWidth : ℕ)
  · have hterm : s.advance = { s with cursorX := 0 }.cutermNewline := if_pos hwrap
    rw [h.fb, h.cursorX] at hwrap
    have hterm' : s'.advance = { s' with cursorX := 0 }.cutermNewline := if_pos hwrap
    rw [hterm, hterm']
    exact (h.withCursorX rfl).cutermNewline
  · have hterm : s.advance = { s with cursorX := s.cursorX + 1 } := if_neg hwrap
    rw [h.fb, h.cursorX] at hwrap
    have hterm' : s'.advance = { s' with cursorX := s'.cursorX + 1 } := if_neg hwrap
    rw [hterm, hterm']
    exact h.withCursorX (congrArg (· + 1) h.cursorX)

lemma Alike.drawRow (h : Alike s s') (row : ℕ) (posX posY : ℤ) :
    Alike (drawRow row posX posY s) (drawRow row posX posY s') := by
  rw [Cuterm.drawRow, Cuterm.drawRow]
  refine h.foldl (fun t t' x ht => ?_) _
  exact ht.setPixel _ _ _ _

lemma Alike.drawRows (h : Alike s s') (font : ℤ → ℕ) (fontIdx posX posY : ℤ) :
    Alike (s.drawRows font fontIdx posX posY) (s'.drawRows font fontIdx posX posY) := by
  rw [Cuterm.drawRows, Cuterm.drawRows]
  refine h.foldl (fun t t' y ht => ?_) _
  have hfont : Alike (t.touch [.font (fontIdx + y)]) (t'.touch [.font (fontIdx + y)]) :=
    ht.touch rfl
  exact hfont.drawRow _ _ _

lemma Alike.drawChar (h : Alike s s') (font : ℤ → ℕ) (c : UInt8) :
    Alike (s.drawChar font c) (s'.drawChar font c) := by
  have hrows := h.drawRows font (c.toNat * cutermCharHeight) (s'.cursorX * cutermCharWidth)
    (s'.cursorY * cutermCharHeight)
  rw [Cuterm.drawChar, Cuterm.drawChar, h.cursorX, h.cursorY]
  exact hrows.withEvent (by rw [hrows.cursorX, hrows.cursorY])

/-- **A byte of plain text** is drawn in the same places. -/
lemma Alike.cutermPutc (h : Alike s s') (font : ℤ → ℕ) {c : UInt8} (hstate : s.ansiState = .normal)
    (hc : c ≠ 0x1b) : Alike (s.cutermPutc font c) (s'.cutermPutc font c) := by
  have hstate' : s'.ansiState = .normal := (congrArg TermText.ansiState h.text).symm.trans hstate
  by_cases hline : c = 10
  · subst hline
    rw [cutermPutc_lineFeed font hstate, cutermPutc_lineFeed font hstate']
    exact (h.withCursorX rfl).cutermNewline
  · rw [cutermPutc_glyph font hstate hc hline, cutermPutc_glyph font hstate' hc hline]
    exact (h.drawChar font c).advance

/-! ## Colour sequences draw nothing -/

lemma places_touch_of_table {as : List TermAccess}
    (has : as.filterMap TermAccess.uncoloured = []) : (s.touch as).places = s.places := by
  rw [places_touch, has, List.append_nil]

lemma places_sgrRead (s : Cuterm) (i : ℕ) : (s.sgrRead i).places = s.places := by
  rw [sgrRead]
  split_ifs <;> exact places_touch_of_table rfl

lemma uncoloured_ansi256ToRgb (code : ℕ) :
    (ansi256ToRgb code).2.filterMap TermAccess.uncoloured = [] := by
  rw [ansi256ToRgb]
  split_ifs <;> rfl

lemma places_sgrCase (s : Cuterm) (i : ℕ) (p : ℤ) : (s.sgrCase i p).1.places = s.places := by
  have hextended : ∀ code : ℕ, (s.touch (.param (i + 2) :: (ansi256ToRgb code).2)).places =
      s.places := fun code => places_touch_of_table (uncoloured_ansi256ToRgb code)
  rw [sgrCase]
  split_ifs
  · rfl
  · exact places_touch_of_table rfl
  · exact hextended _
  · rfl
  · exact places_touch_of_table rfl
  · exact hextended _
  · rfl
  · exact places_touch_of_table rfl
  · exact places_touch_of_table rfl
  · rfl

lemma places_sgrLoop (turns i : ℕ) (s : Cuterm) : (sgrLoop turns i s).places = s.places := by
  induction turns generalizing i s with
  | zero => rfl
  | succ turns ih =>
    rw [sgrLoop]
    split_ifs
    · exact (ih _ _).trans ((places_sgrCase _ _ _).trans (places_sgrRead s i))
    · rfl

lemma places_ansiApplySgr (s : Cuterm) : s.ansiApplySgr.places = s.places := by
  rw [ansiApplySgr]
  split_ifs
  · rfl
  · exact places_sgrLoop _ _ _

lemma places_ansiPushParam (s : Cuterm) : s.ansiPushParam.places = s.places := by
  rw [ansiPushParam]
  by_cases hcount : s.ansiParamCount < ansiMaxParams
  · rw [if_pos hcount]
    exact places_touch_of_table rfl
  · rw [if_neg hcount]
    rfl

/-- The parser draws nothing. -/
lemma places_ansiFeed (s : Cuterm) (c : UInt8) : (s.ansiFeed c).2.places = s.places := by
  rw [ansiFeed]
  cases s.ansiState with
  | normal =>
    dsimp only
    split_ifs <;> rfl
  | esc =>
    dsimp only
    split_ifs <;> rfl
  | csi =>
    have hpush := places_ansiPushParam s
    dsimp only
    split_ifs
    · rfl
    · exact hpush
    · exact (places_ansiApplySgr _).trans hpush
    · exact hpush

/-- A byte that belongs to a sequence draws nothing. -/
lemma cutermPutc_places (font : ℤ → ℕ) {c : UInt8} (h : ¬(s.ansiState = .normal ∧ c ≠ 0x1b)) :
    (s.cutermPutc font c).places = s.places := by
  have htaken : (s.ansiFeed c).1 = true := by
    by_contra hnot
    exact h (plain_of_not_taken hnot)
  rw [cutermPutc_of_taken font htaken, places_ansiFeed]

lemma puts_sgrBytes_places (font : ℤ → ℕ) {body : List UInt8} (hbody : ∀ c ∈ body, IsSgrByte c)
    {s : Cuterm} (hstate : s.ansiState = .csi) : (s.puts font body).places = s.places := by
  induction body generalizing s with
  | nil => rfl
  | cons c body ih =>
    have hbyte := cutermPutc_sgrByte font hstate (hbody c List.mem_cons_self)
    have hnext : (s.cutermPutc font c).ansiState = .csi :=
      (congrArg TermText.ansiState hbyte).trans hstate
    have hrest := ih (fun d hd => hbody d (List.mem_cons_of_mem c hd)) hnext
    exact hrest.trans (cutermPutc_places font fun h => by simp [hstate] at h)

/-- **A colour sequence** draws nothing. -/
lemma puts_sgr_places (font : ℤ → ℕ) {body : List UInt8} (hbody : ∀ c ∈ body, IsSgrByte c)
    (hstate : s.ansiState = .normal) :
    (s.puts font (0x1b :: 91 :: (body ++ [109]))).places = s.places := by
  have hesc : (s.cutermPutc font 0x1b).ansiState = .esc :=
    congrArg TermText.ansiState (cutermPutc_esc font hstate)
  have hbracket : ((s.cutermPutc font 0x1b).cutermPutc font 91).ansiState = .csi :=
    congrArg TermText.ansiState (cutermPutc_bracket font hesc)
  have hparams : (((s.cutermPutc font 0x1b).cutermPutc font 91).puts font body).ansiState = .csi :=
    (congrArg TermText.ansiState (puts_sgrBytes font hbody hbracket)).trans hbracket
  have hputs : s.puts font (0x1b :: 91 :: (body ++ [109])) =
      (((s.cutermPutc font 0x1b).cutermPutc font 91).puts font body).cutermPutc font 109 := by
    simp only [puts, List.foldl_cons, List.foldl_append, List.foldl_nil]
  have hstop : ∀ {t : Cuterm} {c : UInt8}, t.ansiState ≠ .normal →
      (t.cutermPutc font c).places = t.places := fun hne => cutermPutc_places font fun h => hne h.1
  rw [hputs, hstop (by rw [hparams]; decide), puts_sgrBytes_places font hbody hbracket,
    hstop (by rw [hesc]; decide), cutermPutc_places font fun h => h.2 rfl]

/-- **A stream and its plain bytes** are drawn in the same places. -/
lemma Alike.puts_pieces (h : Alike s s') (font : ℤ → ℕ) {pieces : List TextPiece}
    (hpieces : ∀ p ∈ pieces, p.WellFormed) (hstate : s.ansiState = .normal) :
    Alike (s.puts font (pieces.flatMap TextPiece.bytes))
      (s'.puts font (pieces.flatMap TextPiece.plain)) := by
  induction pieces generalizing s s' with
  | nil => exact h
  | cons p pieces ih =>
    rw [List.forall_mem_cons] at hpieces
    obtain ⟨hp, hpieces⟩ := hpieces
    have hpiece : Alike (s.puts font p.bytes) (s'.puts font p.plain) := by
      cases p with
      | byte c => exact h.cutermPutc font hstate hp
      | sgr body =>
        exact ⟨(puts_sgr font hp hstate).trans h.text,
          (puts_sgr_places font hp hstate).trans h.places⟩
    have hnext : (s.puts font p.bytes).ansiState = .normal := by
      have htext := congrArg TermText.ansiState (puts_piece font hp hstate)
      rw [ansiState_foldl_put] at htext
      exact htext.trans hstate
    have hrest := ih hpiece hpieces hnext
    rw [List.flatMap_cons, List.flatMap_cons, puts, puts, List.foldl_append, List.foldl_append]
    exact hrest

end Places

/-- **Colour sequences do not disturb the text**: a stream and the same stream without its colour
sequences draw the same glyphs in the same cells with the same scrolls, and leave the cursor and the
parser in the same state.  Colours aside, the accesses to the framebuffer and the font are the
same. -/
theorem sgr_leaves_text (s : Cuterm) (hstate : s.ansiState = .normal) (pieces : List TextPiece)
    (hpieces : ∀ p ∈ pieces, p.WellFormed) :
    (s.puts font (pieces.flatMap TextPiece.bytes)).text =
      (s.puts font (pieces.flatMap TextPiece.plain)).text ∧
    (s.puts font (pieces.flatMap TextPiece.bytes)).places =
      (s.puts font (pieces.flatMap TextPiece.plain)).places := by
  have hplain : ∀ c ∈ pieces.flatMap TextPiece.plain, c ≠ 0x1b := by
    intro c hc
    obtain ⟨p, hp, hcp⟩ := List.mem_flatMap.1 hc
    exact TextPiece.ne_esc_of_mem_plain (hpieces p hp) hcp
  have hself : Alike s s := ⟨rfl, rfl⟩
  refine ⟨?_, (hself.puts_pieces font hpieces hstate).places⟩
  rw [puts_pieces font hpieces hstate, puts_plain font hplain hstate]

/-- A word in red on a small screen. -/
theorem sgr_leaves_text_red :
    let fb : Framebuffer := ⟨0, 64, 32, 256, 32, 8, 16, 8, 8, 8, 0⟩
    let pieces : List TextPiece :=
      [.byte 104, .sgr [51, 49], .byte 105, .sgr [], .byte 10, .sgr [51, 56, 59, 53, 59, 57]]
    ((init fb).puts (fun _ => 0) (pieces.flatMap TextPiece.bytes)).text =
      ((init fb).puts (fun _ => 0) [104, 105, 10]).text ∧
    ((init fb).puts (fun _ => 0) (pieces.flatMap TextPiece.bytes)).places =
      ((init fb).puts (fun _ => 0) [104, 105, 10]).places :=
  sgr_leaves_text _ (init _) rfl
    [.byte 104, .sgr [51, 49], .byte 105, .sgr [], .byte 10, .sgr [51, 56, 59, 53, 59, 57]]
    (by simp [TextPiece.WellFormed, IsSgrByte])

end Cuterm

end Cuore
