import Cuore.Framework.Bytes

/-!
# The framebuffer terminal (`graphics/ui/cuterm.c`)

`cuterm_putc` feeds a byte to a parser for escape sequences with three states.  A byte that the
parser leaves alone is drawn into the cell under the cursor, or ends the line; at the end of a line
the cursor moves down, and at the end of the last row the screen is scrolled.

The framebuffer is only ever written, so the model keeps no pixels.  It records what is done: in
`accesses` every access to the framebuffer and to the tables, with the index or the address as the
source computes it, and in `events` the glyphs drawn, with their cells, and the scrolls.
Coordinates, parameters and indices are `int`s and stand in `ℤ`; a number narrowed to an `int`, and
the number that a sequence spells, wrap at 32 bits, and addresses at 64.  The shapes in the font are
a parameter.
-/

namespace Cuore

/-! ## Data -/

/-- `rgb_t`. -/
structure Rgb where
  r : ℕ
  g : ℕ
  b : ℕ

/-- `linear_framebuffer_t`. -/
structure Framebuffer where
  address : ℕ
  width : ℕ
  height : ℕ
  pitch : ℕ
  bpp : ℕ
  redSize : ℕ
  redShift : ℕ
  greenSize : ℕ
  greenShift : ℕ
  blueSize : ℕ
  blueShift : ℕ

/-- `ansi_state_t`. -/
inductive AnsiState
  | normal
  | esc
  | csi
  deriving DecidableEq

/-- `ANSI_MAX_PARAMS`. -/
def ansiMaxParams : ℕ := 16

/-- `CUTERM_CHAR_WIDTH`. -/
def cutermCharWidth : ℕ := 8

/-- `CUTERM_CHAR_HEIGHT`. -/
def cutermCharHeight : ℕ := 16

/-- The number of bytes of `builtin_font`. -/
def builtinFontSize : ℕ := 4096

/-- `ansi_basic_colors`. -/
def ansiBasicColors : List Rgb :=
  [⟨0, 0, 0⟩, ⟨205, 0, 0⟩, ⟨0, 205, 0⟩, ⟨205, 205, 0⟩, ⟨0, 0, 238⟩, ⟨205, 0, 205⟩, ⟨0, 205, 205⟩,
    ⟨229, 229, 229⟩, ⟨127, 127, 127⟩, ⟨255, 0, 0⟩, ⟨0, 255, 0⟩, ⟨255, 255, 0⟩, ⟨92, 92, 255⟩,
    ⟨255, 0, 255⟩, ⟨0, 255, 255⟩, ⟨255, 255, 255⟩]

/-- `ansi_cube_levels`. -/
def ansiCubeLevels : List ℕ := [0, 95, 135, 175, 215, 255]

/-- An access to memory: bytes stored to the framebuffer, bytes copied within it, or a table read
or written at an index. -/
inductive TermAccess
  | store (addr : ℕ) (bytes : List UInt8)
  | move (dst src len : ℕ)
  | font (i : ℤ)
  | param (i : ℤ)
  | basic (i : ℤ)
  | cube (i : ℤ)

/-- What happens to the text: a glyph drawn in a cell, or a scroll. -/
inductive TermEvent
  | glyph (c : UInt8) (x y : ℤ)
  | scroll
  deriving DecidableEq

/-- `cuterm_state_t`, and what has been done. -/
structure Cuterm where
  fb : Framebuffer
  cursorX : ℤ
  cursorY : ℤ
  ansiState : AnsiState
  ansiParams : ℕ → ℤ
  ansiParamCount : ℕ
  ansiCurParam : ℤ
  ansiHasDigit : Bool
  fg : Rgb
  bg : Rgb
  events : List TermEvent
  accesses : List TermAccess

namespace Cuterm

/-- `g_cuterm_state` after `cuterm_init`. -/
def init (fb : Framebuffer) : Cuterm :=
  { fb := fb, cursorX := 0, cursorY := 0, ansiState := .normal, ansiParams := fun _ => 0,
    ansiParamCount := 0, ansiCurParam := 0, ansiHasDigit := false, fg := ⟨255, 255, 255⟩,
    bg := ⟨0, 0, 0⟩, events := [], accesses := [] }

/-- Record accesses. -/
def touch (s : Cuterm) (as : List TermAccess) : Cuterm := { s with accesses := s.accesses ++ as }

/-! ## Pixels -/

/-- A number as an address. -/
def uintptr (a : ℤ) : ℕ := (a % 2 ^ 64).toNat

/-- A number as an `int`. -/
def asInt (a : ℤ) : ℤ := Int.bmod a (2 ^ 32)

/-- `pack_color`. -/
def packColor (fb : Framebuffer) (c : Rgb) : ℕ :=
  (((c.r >>> (8 - fb.redSize)) <<< fb.redShift) |||
    ((c.g >>> (8 - fb.greenSize)) <<< fb.greenShift) |||
    ((c.b >>> (8 - fb.blueSize)) <<< fb.blueShift)) % 2 ^ 32

/-- The stores of one pixel: four bytes at once, or three one by one. -/
def pixelStores (fb : Framebuffer) (addr : ℤ) (color : ℕ) : List TermAccess :=
  if fb.bpp = 32 then [.store (uintptr addr) (leBytes 4 color)]
  else if fb.bpp = 24 then
    [.store (uintptr addr) (leBytes 1 color), .store (uintptr (addr + 1)) (leBytes 1 (color >>> 8)),
      .store (uintptr (addr + 2)) (leBytes 1 (color >>> 16))]
  else []

/-- `set_pixel`. -/
def setPixel (s : Cuterm) (x y : ℤ) (c : Rgb) : Cuterm :=
  let addr : ℤ := s.fb.address + y * s.fb.pitch + x * (s.fb.bpp / 8 : ℕ)
  s.touch (pixelStores s.fb addr (packColor s.fb c))

/-- `clear_rows`. -/
def clearRows (s : Cuterm) (yStart heightPx : ℤ) : Cuterm :=
  if heightPx ≤ 0 then s
  else
    let color := packColor s.fb s.bg
    let base : ℤ := s.fb.address + yStart * s.fb.pitch
    s.touch <| (List.range heightPx.toNat).flatMap fun (y : ℕ) =>
      let row : ℤ := base + y * s.fb.pitch
      (List.range s.fb.width).flatMap fun (x : ℕ) =>
        pixelStores s.fb (row + x * (if s.fb.bpp = 32 then 4 else 3 : ℕ)) color

/-- `cuterm_scroll`. -/
def cutermScroll (s : Cuterm) : Cuterm :=
  let rowBytes : ℕ := s.fb.pitch * cutermCharHeight % 2 ^ 64
  let totalBytes : ℕ := s.fb.pitch * s.fb.height % 2 ^ 64
  let base : ℕ := s.fb.address
  let s := s.touch [.move base (uintptr (base + rowBytes))
    (uintptr ((totalBytes : ℤ) - rowBytes))]
  let s := s.clearRows (asInt s.fb.height - cutermCharHeight) cutermCharHeight
  { s with events := s.events ++ [.scroll] }

/-- `cuterm_newline`. -/
def cutermNewline (s : Cuterm) : Cuterm :=
  let s := { s with cursorY := s.cursorY + 1 }
  let rows := asInt (s.fb.height / cutermCharHeight : ℕ)
  if s.cursorY ≥ rows then { s.cutermScroll with cursorY := rows - 1 } else s

/-! ## Colours -/

/-- `ansi_basic_colors[i]`. -/
def basicColor (i : ℤ) : Rgb := ansiBasicColors.getD i.toNat ⟨0, 0, 0⟩

/-- `ansi_256_to_rgb`: the colour, and the tables read for it. -/
def ansi256ToRgb (code : ℕ) : Rgb × List TermAccess :=
  if code < 16 then (basicColor code, [.basic code])
  else if code ≥ 232 then
    let v := (8 + (code - 232) * 10) % 2 ^ 8
    (⟨v, v, v⟩, [])
  else
    let idx := (code - 16) % 2 ^ 8
    (⟨ansiCubeLevels.getD (idx / 36) 0, ansiCubeLevels.getD (idx / 6 % 6) 0,
      ansiCubeLevels.getD (idx % 6) 0⟩,
      [.cube (idx / 36 : ℕ), .cube (idx / 6 % 6 : ℕ), .cube (idx % 6 : ℕ)])

/-- `ansi_reset_colors`. -/
def ansiResetColors (s : Cuterm) : Cuterm := { s with fg := ⟨200, 200, 200⟩, bg := ⟨0, 0, 0⟩ }

/-- The colour of index `i` in the basic table as the foreground. -/
def basicFg (s : Cuterm) (i : ℤ) : Cuterm := { s.touch [.basic i] with fg := basicColor i }

/-- The colour of index `i` in the basic table as the background. -/
def basicBg (s : Cuterm) (i : ℤ) : Cuterm := { s.touch [.basic i] with bg := basicColor i }

/-- The test `i + 2 < ansi_param_count && ansi_params[i + 1] == 5`, behind a parameter 38 or 48. -/
def is256 (s : Cuterm) (i : ℕ) : Bool := i + 2 < s.ansiParamCount ∧ s.ansiParams (i + 1) = 5

/-- The parameters that a turn of the loop in `ansi_apply_sgr` looks at first: number `i`, and the
next one if number `i` starts an extended colour and there is a third one. -/
def sgrRead (s : Cuterm) (i : ℕ) : Cuterm :=
  let p := s.ansiParams i
  if (p = 38 ∨ p = 48) ∧ i + 2 < s.ansiParamCount then s.touch [.param i, .param (i + 1)]
  else s.touch [.param i]

/-- The cases of the loop in `ansi_apply_sgr` for a parameter `p`: the state afterwards, and the
`i` that they leave behind. -/
def sgrCase (s : Cuterm) (i : ℕ) (p : ℤ) : Cuterm × ℕ :=
  if p = 0 then (s.ansiResetColors, i)
  else if 30 ≤ p ∧ p ≤ 37 then (s.basicFg (p - 30), i)
  else if p = 38 ∧ s.is256 i then
    let (c, read) := ansi256ToRgb (s.ansiParams (i + 2) % 2 ^ 8).toNat
    ({ s.touch (.param (i + 2) :: read) with fg := c }, i + 2)
  else if p = 39 then ({ s with fg := ⟨255, 255, 255⟩ }, i)
  else if 40 ≤ p ∧ p ≤ 47 then (s.basicBg (p - 40), i)
  else if p = 48 ∧ s.is256 i then
    let (c, read) := ansi256ToRgb (s.ansiParams (i + 2) % 2 ^ 8).toNat
    ({ s.touch (.param (i + 2) :: read) with bg := c }, i + 2)
  else if p = 49 then ({ s with bg := ⟨0, 0, 0⟩ }, i)
  else if 90 ≤ p ∧ p ≤ 97 then (s.basicFg (p - 90 + 8), i)
  else if 100 ≤ p ∧ p ≤ 107 then (s.basicBg (p - 100 + 8), i)
  else (s, i)

/-- The loop in `ansi_apply_sgr`.  `i` grows by at least one in a turn, so as many turns as there
are parameters are enough. -/
def sgrLoop : ℕ → ℕ → Cuterm → Cuterm
  | 0, _, s => s
  | turns + 1, i, s =>
    if i < s.ansiParamCount then
      let (s, i) := (s.sgrRead i).sgrCase i (s.ansiParams i)
      sgrLoop turns (i + 1) s
    else s

/-- `ansi_apply_sgr`. -/
def ansiApplySgr (s : Cuterm) : Cuterm :=
  if s.ansiParamCount = 0 then s.ansiResetColors else sgrLoop s.ansiParamCount 0 s

/-! ## The parser -/

/-- `ansi_push_param`. -/
def ansiPushParam (s : Cuterm) : Cuterm :=
  let s :=
    if s.ansiParamCount < ansiMaxParams then
      { s.touch [.param s.ansiParamCount] with
        ansiParams := fun k => if k = s.ansiParamCount then
            (if s.ansiHasDigit then s.ansiCurParam else 0) else s.ansiParams k
        ansiParamCount := s.ansiParamCount + 1 }
    else s
  { s with ansiCurParam := 0, ansiHasDigit := false }

/-- `ansi_feed`: whether the byte belongs to a sequence, and the state behind it. -/
def ansiFeed (s : Cuterm) (c : UInt8) : Bool × Cuterm :=
  match s.ansiState with
  | .normal => if c = 0x1b then (true, { s with ansiState := .esc }) else (false, s)
  | .esc =>
    -- 91 is the opening bracket
    if c = 91 then
      (true, { s with
        ansiState := .csi, ansiParamCount := 0, ansiCurParam := 0, ansiHasDigit := false })
    else (true, { s with ansiState := .normal })
  | .csi =>
    -- the digits, 59 is the semicolon, 109 the letter m
    if 48 ≤ c ∧ c ≤ 57 then
      (true, { s with
        ansiCurParam := asInt (s.ansiCurParam * 10 + (c.toNat - 48))
        ansiHasDigit := true })
    else if c = 59 then (true, s.ansiPushParam)
    else
      let s := s.ansiPushParam
      let s := if c = 109 then s.ansiApplySgr else s
      (true, { s with ansiState := .normal })

/-! ## Drawing -/

/-- The pixels of row `y` of a glyph, from column `x` on. -/
def drawRow (row : ℕ) (posX posY : ℤ) (s : Cuterm) : Cuterm :=
  (List.range cutermCharWidth).foldl
    (fun s (x : ℕ) => s.setPixel (posX + x) posY
      (if (row >>> (7 - x)) &&& 1 ≠ 0 then s.fg else s.bg)) s

/-- The rows of a glyph, which starts at `fontIdx` in the font. -/
def drawRows (font : ℤ → ℕ) (s : Cuterm) (fontIdx posX posY : ℤ) : Cuterm :=
  (List.range cutermCharHeight).foldl
    (fun s (y : ℕ) =>
      drawRow (font (fontIdx + y)) posX (posY + y) (s.touch [.font (fontIdx + y)])) s

/-- `draw_char`. -/
def drawChar (font : ℤ → ℕ) (s : Cuterm) (c : UInt8) : Cuterm :=
  let s := s.drawRows font (c.toNat * cutermCharHeight) (s.cursorX * cutermCharWidth)
    (s.cursorY * cutermCharHeight)
  { s with events := s.events ++ [.glyph c s.cursorX s.cursorY] }

/-- The cursor behind a glyph: the next column, or the next line. -/
def advance (s : Cuterm) : Cuterm :=
  let s := { s with cursorX := s.cursorX + 1 }
  let columns : ℤ := (s.fb.width / cutermCharWidth : ℕ)
  -- the column is compared as an `unsigned int`
  if s.cursorX % 2 ^ 32 ≥ columns then { s with cursorX := 0 }.cutermNewline else s

/-- `cuterm_putc`; 10 is the line feed. -/
def cutermPutc (font : ℤ → ℕ) (s : Cuterm) (c : UInt8) : Cuterm :=
  let (taken, s) := s.ansiFeed c
  if taken then s
  else if c = 10 then { s with cursorX := 0 }.cutermNewline
  else (s.drawChar font c).advance

/-- A stream of bytes. -/
def puts (font : ℤ → ℕ) (s : Cuterm) (bytes : List UInt8) : Cuterm :=
  bytes.foldl (cutermPutc font) s

end Cuterm

end Cuore
