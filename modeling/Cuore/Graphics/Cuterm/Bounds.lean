import Cuore.Graphics.Cuterm.Text

/-!
# The terminal stays within its framebuffer

`Safe` collects what holds of every access on record: a store and a copy stay within the bytes of
the framebuffer, and an index stays within its table.  Each function of the terminal keeps it; the
lemmas are named `safe_` with the function they are about.  A pixel is in bounds because its row is
below the height and its column below the width (`inFramebuffer_pixel`), and a row of pixels fits
into the pitch.  An index of a parameter is in bounds because no more than sixteen are ever kept.

The cursor is part of the text, so its bounds are proved there (`TermText.CursorInside`), and hold
of the terminal by the lemmas of `Cuore.Graphics.Cuterm.Text`.  The main result is
`puts_stays_inside`, for every stream from the initial state.
-/

namespace Cuore

/-! ## Framebuffers -/

/-- The framebuffers that the terminal is meant for. -/
structure Framebuffer.Valid (fb : Framebuffer) : Prop where
  bpp_eq : fb.bpp = 24 ∨ fb.bpp = 32
  le_width : 8 ≤ fb.width
  width_lt : fb.width < 2 ^ 28
  le_height : 16 ≤ fb.height
  height_lt : fb.height < 2 ^ 28
  le_pitch : fb.width * fb.bpp / 8 ≤ fb.pitch

/-- The addresses of a framebuffer: `pitch * height` bytes from its base on, as addresses of 64
bits. -/
def InFramebuffer (fb : Framebuffer) (a : ℕ) : Prop :=
  ∃ k < fb.pitch * fb.height, a = (fb.address + k) % 2 ^ 64

/-- The byte at offset `k` of a framebuffer. -/
lemma inFramebuffer_offset {fb : Framebuffer} {k : ℕ} (hk : k < fb.pitch * fb.height) :
    InFramebuffer fb ((fb.address + k) % 2 ^ 64) :=
  ⟨k, hk, rfl⟩

/-- A framebuffer as large as the address space holds every address. -/
lemma inFramebuffer_of_large {fb : Framebuffer} (h : 2 ^ 64 ≤ fb.pitch * fb.height) {a : ℕ}
    (ha : a < 2 ^ 64) : InFramebuffer fb a := by
  refine ⟨(a + 2 ^ 64 - fb.address % 2 ^ 64) % 2 ^ 64, ?_, ?_⟩
  · exact (Nat.mod_lt _ (by norm_num)).trans_le h
  · have hbase := Nat.mod_lt fb.address (by norm_num : 0 < 2 ^ 64)
    omega

/-- What an access may touch. -/
def TermAccess.InRange (fb : Framebuffer) : TermAccess → Prop
  | .store addr bytes => ∀ j < bytes.length, InFramebuffer fb ((addr + j) % 2 ^ 64)
  | .move dst src len =>
    ∀ j < len, InFramebuffer fb ((dst + j) % 2 ^ 64) ∧ InFramebuffer fb ((src + j) % 2 ^ 64)
  | .font i => 0 ≤ i ∧ i < builtinFontSize
  | .param i => 0 ≤ i ∧ i < ansiMaxParams
  | .basic i => 0 ≤ i ∧ i < ansiBasicColors.length
  | .cube i => 0 ≤ i ∧ i < ansiCubeLevels.length

/-! ## The invariant -/

namespace Cuterm

/-- A terminal on `fb` that has touched nothing out of bounds, and keeps no more parameters than
there is room for. -/
structure Safe (fb : Framebuffer) (s : Cuterm) : Prop where
  fb_eq : s.fb = fb
  count_le : s.ansiParamCount ≤ ansiMaxParams
  inRange : ∀ a ∈ s.accesses, a.InRange fb

section Safe

variable {fb : Framebuffer} {s : Cuterm}

lemma safe_init (fb : Framebuffer) : Safe fb (init fb) :=
  ⟨rfl, Nat.zero_le _, fun _ ha => absurd ha List.not_mem_nil⟩

/-- `Safe` is about the framebuffer, the accesses and the number of parameters alone. -/
lemma Safe.of_eq (h : Safe fb s) {s' : Cuterm} (hfb : s'.fb = s.fb)
    (haccesses : s'.accesses = s.accesses) (hcount : s'.ansiParamCount ≤ ansiMaxParams) :
    Safe fb s' :=
  ⟨hfb.trans h.fb_eq, hcount, haccesses ▸ h.inRange⟩

lemma Safe.touch (h : Safe fb s) {as : List TermAccess} (has : ∀ a ∈ as, a.InRange fb) :
    Safe fb (s.touch as) := by
  refine ⟨h.fb_eq, h.count_le, fun a ha => ?_⟩
  rcases List.mem_append.1 ha with ha | ha
  · exact h.inRange a ha
  · exact has a ha

lemma Safe.touch_one (h : Safe fb s) {a : TermAccess} (ha : a.InRange fb) :
    Safe fb (s.touch [a]) :=
  h.touch fun _ hb => List.mem_singleton.1 hb ▸ ha

/-! ## Pixels -/

/-- A number that fits is an `int` already. -/
lemma asInt_natCast {n : ℕ} (h : n < 2 ^ 31) : asInt n = n := by
  rw [asInt, Int.bmod_eq_of_le] <;> omega

lemma uintptr_natCast (n : ℕ) : uintptr n = n % 2 ^ 64 := by
  rw [uintptr]
  omega

/-- The bytes of the pixel in column `x` of row `y`, as offsets from the base. -/
lemma inFramebuffer_pixel (hfb : fb.Valid) {x y j : ℕ} (hx : x < fb.width) (hy : y < fb.height)
    (hj : j < fb.bpp / 8) :
    y * fb.pitch + x * (fb.bpp / 8) + j < fb.pitch * fb.height := by
  have hrow : (x + 1) * (fb.bpp / 8) ≤ fb.pitch := by
    have hmul : (x + 1) * (fb.bpp / 8) ≤ fb.width * (fb.bpp / 8) := Nat.mul_le_mul_right _ hx
    have hpitch := hfb.le_pitch
    rcases hfb.bpp_eq with h | h <;> rw [h] at hmul hpitch ⊢ <;> omega
  calc y * fb.pitch + x * (fb.bpp / 8) + j
      < y * fb.pitch + (x + 1) * (fb.bpp / 8) := by rw [Nat.succ_mul]; omega
    _ ≤ y * fb.pitch + fb.pitch := by omega
    _ = fb.pitch * (y + 1) := by ring
    _ ≤ fb.pitch * fb.height := Nat.mul_le_mul_left _ hy

lemma inRange_store {addr : ℕ} {bytes : List UInt8}
    (h : ∀ j < bytes.length, InFramebuffer fb ((addr + j) % 2 ^ 64)) :
    (TermAccess.store (uintptr addr) bytes).InRange fb := by
  intro j hj
  rw [uintptr_natCast, Nat.mod_add_mod]
  exact h j hj

/-- The stores of a pixel stay within the framebuffer if the bytes of the pixel do. -/
lemma inRange_pixelStores {k color : ℕ} (hk : ∀ j < fb.bpp / 8, k + j < fb.pitch * fb.height) :
    ∀ a ∈ pixelStores fb (fb.address + k : ℕ) color, a.InRange fb := by
  have hbyte : ∀ j < fb.bpp / 8, InFramebuffer fb ((fb.address + k + j) % 2 ^ 64) := by
    intro j hj
    rw [Nat.add_assoc]
    exact inFramebuffer_offset (hk j hj)
  intro a ha
  rw [pixelStores] at ha
  split_ifs at ha with hbpp hbpp
  · rw [List.mem_singleton.1 ha]
    refine inRange_store fun j hj => hbyte j ?_
    rw [length_leBytes] at hj
    omega
  · have hone : ∀ i < 3, ∀ v, (TermAccess.store (uintptr (fb.address + k + i : ℕ))
        (leBytes 1 v)).InRange fb := by
      intro i hi v
      refine inRange_store fun j hj => ?_
      rw [length_leBytes] at hj
      rw [Nat.add_assoc]
      exact hbyte (i + j) (by omega)
    simp only [List.mem_cons, List.not_mem_nil, or_false] at ha
    rcases ha with rfl | rfl | rfl
    · exact hone 0 (by omega) _
    · exact hone 1 (by omega) _
    · exact hone 2 (by omega) _
  · exact absurd ha List.not_mem_nil

lemma safe_setPixel (hfb : fb.Valid) (h : Safe fb s) {x y : ℕ} (hx : x < fb.width)
    (hy : y < fb.height) (c : Rgb) : Safe fb (s.setPixel x y c) := by
  rw [setPixel, h.fb_eq]
  have haddr : (fb.address : ℤ) + y * fb.pitch + x * (fb.bpp / 8 : ℕ) =
      (fb.address + (y * fb.pitch + x * (fb.bpp / 8)) : ℕ) := by
    push_cast
    ring
  rw [haddr]
  exact h.touch (inRange_pixelStores fun j hj => inFramebuffer_pixel hfb hx hy hj)

/-- The rows from `yStart` on, of which the framebuffer has `rows`. -/
lemma safe_clearRows (hfb : fb.Valid) (h : Safe fb s) {yStart rows : ℕ}
    (hrows : yStart + rows ≤ fb.height) : Safe fb (s.clearRows yStart rows) := by
  by_cases hnone : (rows : ℤ) ≤ 0
  · rwa [clearRows, if_pos hnone]
  rw [clearRows, if_neg hnone, h.fb_eq]
  refine h.touch fun a ha => ?_
  obtain ⟨y, hy, ha⟩ := List.mem_flatMap.1 ha
  obtain ⟨x, hx, ha⟩ := List.mem_flatMap.1 ha
  rw [List.mem_range, Int.toNat_natCast] at hy
  rw [List.mem_range] at hx
  have hsize : (if fb.bpp = 32 then 4 else 3 : ℕ) = fb.bpp / 8 := by
    rcases hfb.bpp_eq with hbpp | hbpp <;> rw [hbpp] <;> rfl
  have haddr : (fb.address : ℤ) + yStart * fb.pitch + y * fb.pitch + x * (fb.bpp / 8 : ℕ) =
      (fb.address + ((yStart + y) * fb.pitch + x * (fb.bpp / 8)) : ℕ) := by
    push_cast
    ring
  rw [hsize, haddr] at ha
  exact inRange_pixelStores
    (fun j hj => inFramebuffer_pixel hfb hx (by omega : yStart + y < fb.height) hj) a ha

/-! ## Scrolling -/

/-- The copy of a scroll: from one text row down to the base. -/
lemma inRange_scroll (hfb : fb.Valid) :
    (TermAccess.move fb.address
      (uintptr (fb.address + (fb.pitch * cutermCharHeight % 2 ^ 64 : ℕ)))
      (uintptr ((fb.pitch * fb.height % 2 ^ 64 : ℕ) -
        (fb.pitch * cutermCharHeight % 2 ^ 64 : ℕ)))).InRange fb := by
  intro j hj
  by_cases hlarge : 2 ^ 64 ≤ fb.pitch * fb.height
  · exact ⟨inFramebuffer_of_large hlarge (Nat.mod_lt _ (by norm_num)),
      inFramebuffer_of_large hlarge (Nat.mod_lt _ (by norm_num))⟩
  · have hrow : fb.pitch * cutermCharHeight ≤ fb.pitch * fb.height :=
      Nat.mul_le_mul_left _ hfb.le_height
    have hlen : ((fb.pitch * fb.height : ℕ) : ℤ) - (fb.pitch * cutermCharHeight : ℕ) =
        (fb.pitch * fb.height - fb.pitch * cutermCharHeight : ℕ) := by omega
    rw [Nat.mod_eq_of_lt (by omega), Nat.mod_eq_of_lt (by omega), hlen, uintptr_natCast,
      Nat.mod_eq_of_lt (by omega)] at hj
    rw [Nat.mod_eq_of_lt (by omega : fb.pitch * cutermCharHeight < 2 ^ 64), ← Nat.cast_add,
      uintptr_natCast, Nat.mod_add_mod, Nat.add_assoc]
    exact ⟨inFramebuffer_offset (by omega), inFramebuffer_offset (by omega)⟩

lemma safe_cutermScroll (hfb : fb.Valid) (h : Safe fb s) : Safe fb s.cutermScroll := by
  obtain rfl := h.fb_eq
  have hmove := h.touch_one (inRange_scroll hfb)
  have hheight : asInt s.fb.height - cutermCharHeight = (s.fb.height - cutermCharHeight : ℕ) := by
    have hle := hfb.le_height
    have hlt := hfb.height_lt
    rw [asInt_natCast (by omega), cutermCharHeight]
    omega
  have hlast : s.fb.height - cutermCharHeight + cutermCharHeight ≤ s.fb.height :=
    (Nat.sub_add_cancel hfb.le_height).le
  have hclear := safe_clearRows hfb hmove hlast
  rw [← hheight] at hclear
  rw [cutermScroll]
  exact hclear.of_eq rfl rfl hclear.count_le

lemma safe_cutermNewline (hfb : fb.Valid) (h : Safe fb s) : Safe fb s.cutermNewline := by
  have hmoved : Safe fb { s with cursorY := s.cursorY + 1 } := h.of_eq rfl rfl h.count_le
  rw [cutermNewline]
  split_ifs
  · have hscroll := safe_cutermScroll hfb hmoved
    exact hscroll.of_eq rfl rfl hscroll.count_le
  · exact hmoved

lemma safe_advance (hfb : fb.Valid) (h : Safe fb s) : Safe fb s.advance := by
  rw [advance]
  split_ifs
  · exact safe_cutermNewline hfb (h.of_eq rfl rfl h.count_le)
  · exact h.of_eq rfl rfl h.count_le

/-! ## Drawing -/

lemma safe_drawRow (hfb : fb.Valid) (h : Safe fb s) (row : ℕ) {posX y : ℕ}
    (hx : posX + cutermCharWidth ≤ fb.width) (hy : y < fb.height) :
    Safe fb (drawRow row posX y s) := by
  rw [drawRow]
  refine List.foldlRecOn _ _ h fun s h x hmem => ?_
  have hlt := List.mem_range.1 hmem
  rw [← Nat.cast_add]
  exact safe_setPixel hfb h (by omega) hy _

lemma safe_drawRows (hfb : fb.Valid) (font : ℤ → ℕ) (h : Safe fb s) {fontIdx posX posY : ℕ}
    (hfont : fontIdx + cutermCharHeight ≤ builtinFontSize)
    (hx : posX + cutermCharWidth ≤ fb.width) (hy : posY + cutermCharHeight ≤ fb.height) :
    Safe fb (s.drawRows font fontIdx posX posY) := by
  rw [drawRows]
  refine List.foldlRecOn _ _ h fun s h y hmem => ?_
  have hlt := List.mem_range.1 hmem
  have hread : (TermAccess.font (fontIdx + y)).InRange fb := by
    rw [TermAccess.InRange]
    omega
  rw [← Nat.cast_add posY]
  exact safe_drawRow hfb (h.touch_one hread) _ hx (by omega)

/-- The glyph of a byte starts at a multiple of its height, within the font. -/
lemma fontIdx_add_le (c : UInt8) :
    c.toNat * cutermCharHeight + cutermCharHeight ≤ builtinFontSize := by
  have hc := c.toNat_lt
  rw [cutermCharHeight, builtinFontSize]
  omega

/-- A glyph drawn in a cell of the screen. -/
lemma safe_drawChar (hfb : fb.Valid) (font : ℤ → ℕ) (h : Safe fb s) {x y : ℕ}
    (hx : s.cursorX = x) (hy : s.cursorY = y) (hxlt : x < fb.width / cutermCharWidth)
    (hylt : y < fb.height / cutermCharHeight) (c : UInt8) : Safe fb (s.drawChar font c) := by
  have hcol : x * cutermCharWidth + cutermCharWidth ≤ fb.width := by
    rw [cutermCharWidth] at hxlt ⊢
    omega
  have hrow : y * cutermCharHeight + cutermCharHeight ≤ fb.height := by
    rw [cutermCharHeight] at hylt ⊢
    omega
  have hdrawn : Safe fb (s.drawRows font (c.toNat * cutermCharHeight)
      (s.cursorX * cutermCharWidth) (s.cursorY * cutermCharHeight)) := by
    rw [hx, hy]
    exact_mod_cast safe_drawRows hfb font h (fontIdx_add_le c) hcol hrow
  rw [drawChar]
  generalize s.drawRows font _ _ _ = drawn at hdrawn ⊢
  exact hdrawn.of_eq rfl rfl hdrawn.count_le

/-! ## Colours -/

lemma safe_ansiResetColors (h : Safe fb s) : Safe fb s.ansiResetColors :=
  h.of_eq rfl rfl h.count_le

lemma safe_basicFg (h : Safe fb s) {i : ℤ} (h0 : 0 ≤ i) (hlt : i < ansiBasicColors.length) :
    Safe fb (s.basicFg i) :=
  (h.touch_one (a := .basic i) ⟨h0, hlt⟩).of_eq rfl rfl h.count_le

lemma safe_basicBg (h : Safe fb s) {i : ℤ} (h0 : 0 ≤ i) (hlt : i < ansiBasicColors.length) :
    Safe fb (s.basicBg i) :=
  (h.touch_one (a := .basic i) ⟨h0, hlt⟩).of_eq rfl rfl h.count_le

/-- The tables read for a colour out of 256. -/
lemma inRange_ansi256ToRgb {code : ℕ} (hcode : code < 2 ^ 8) :
    ∀ a ∈ (ansi256ToRgb code).2, a.InRange fb := by
  intro a ha
  rw [ansi256ToRgb] at ha
  split_ifs at ha with hbasic hgrey
  · rw [List.mem_singleton.1 ha]
    exact ⟨Int.natCast_nonneg _, Nat.cast_lt.2 hbasic⟩
  · exact absurd ha List.not_mem_nil
  · have hcube : ∀ i < 6, (TermAccess.cube (i : ℕ)).InRange fb := fun i hi =>
      ⟨Int.natCast_nonneg _, Nat.cast_lt.2 hi⟩
    simp only [List.mem_cons, List.not_mem_nil, or_false] at ha
    rcases ha with rfl | rfl | rfl
    · exact hcube _ (by omega)
    · exact hcube _ (by omega)
    · exact hcube _ (by omega)

/-! ## The parser -/

/-- A parameter that is kept. -/
lemma inRange_param (h : Safe fb s) {i : ℕ} (hi : i < s.ansiParamCount) :
    (TermAccess.param i).InRange fb :=
  ⟨Int.natCast_nonneg _, Nat.cast_lt.2 (hi.trans_le h.count_le)⟩

lemma safe_sgrRead (h : Safe fb s) {i : ℕ} (hi : i < s.ansiParamCount) :
    Safe fb (s.sgrRead i) := by
  rw [sgrRead]
  split_ifs with hext
  · refine h.touch fun a ha => ?_
    simp only [List.mem_cons, List.not_mem_nil, or_false] at ha
    rcases ha with rfl | rfl
    · exact inRange_param h hi
    · have hnext : i + 1 < s.ansiParamCount := by omega
      exact_mod_cast inRange_param h hnext
  · exact h.touch_one (inRange_param h hi)

/-- The parameter behind a 5, and the tables for the colour that it names. -/
lemma inRange_extended (h : Safe fb s) {i : ℕ} (hext : s.is256 i) :
    ∀ a ∈ .param (i + 2) :: (ansi256ToRgb (s.ansiParams (i + 2) % 2 ^ 8).toNat).2,
      a.InRange fb := by
  have hthird : i + 2 < s.ansiParamCount := (of_decide_eq_true hext).1
  intro a ha
  rcases List.mem_cons.1 ha with rfl | ha
  · exact_mod_cast inRange_param h hthird
  · exact inRange_ansi256ToRgb (by omega) a ha

lemma safe_sgrCase (h : Safe fb s) (i : ℕ) (p : ℤ) : Safe fb (s.sgrCase i p).1 := by
  have hbasic : (ansiBasicColors.length : ℤ) = 16 := rfl
  rw [sgrCase]
  split_ifs with _ hfg hfg256 _ hbg hbg256 _ hfg' hbg'
  · exact safe_ansiResetColors h
  · exact safe_basicFg h (by omega) (by omega)
  · exact (h.touch (inRange_extended h hfg256.2)).of_eq rfl rfl h.count_le
  · exact h.of_eq rfl rfl h.count_le
  · exact safe_basicBg h (by omega) (by omega)
  · exact (h.touch (inRange_extended h hbg256.2)).of_eq rfl rfl h.count_le
  · exact h.of_eq rfl rfl h.count_le
  · exact safe_basicFg h (by omega) (by omega)
  · exact safe_basicBg h (by omega) (by omega)
  · exact h

lemma safe_sgrLoop (turns i : ℕ) (h : Safe fb s) : Safe fb (sgrLoop turns i s) := by
  induction turns generalizing i s with
  | zero => exact h
  | succ turns ih =>
    rw [sgrLoop]
    split_ifs with hi
    · exact ih _ (safe_sgrCase (safe_sgrRead h hi) _ _)
    · exact h

lemma safe_ansiApplySgr (h : Safe fb s) : Safe fb s.ansiApplySgr := by
  rw [ansiApplySgr]
  split_ifs
  · exact safe_ansiResetColors h
  · exact safe_sgrLoop _ _ h

lemma safe_ansiPushParam (h : Safe fb s) : Safe fb s.ansiPushParam := by
  by_cases hroom : s.ansiParamCount < ansiMaxParams
  · have hparam : (TermAccess.param s.ansiParamCount).InRange fb :=
      ⟨Int.natCast_nonneg _, Nat.cast_lt.2 hroom⟩
    rw [ansiPushParam, if_pos hroom]
    exact (h.touch_one hparam).of_eq rfl rfl hroom
  · rw [ansiPushParam, if_neg hroom]
    exact h.of_eq rfl rfl h.count_le

lemma safe_ansiFeed (h : Safe fb s) (c : UInt8) : Safe fb (s.ansiFeed c).2 := by
  have hpush := safe_ansiPushParam h
  have happly := safe_ansiApplySgr hpush
  rw [ansiFeed]
  cases s.ansiState with
  | normal =>
    dsimp only
    split_ifs
    · exact h.of_eq rfl rfl h.count_le
    · exact h
  | esc =>
    dsimp only
    split_ifs
    · exact h.of_eq rfl rfl (Nat.zero_le _)
    · exact h.of_eq rfl rfl h.count_le
  | csi =>
    dsimp only
    split_ifs
    · exact h.of_eq rfl rfl h.count_le
    · exact hpush
    · exact happly.of_eq rfl rfl happly.count_le
    · exact hpush.of_eq rfl rfl hpush.count_le

end Safe

end Cuterm

/-! ## The cursor -/

namespace TermText

/-- The cursor is in a cell of the screen. -/
structure CursorInside (t : TermText) : Prop where
  x_nonneg : 0 ≤ t.cursorX
  x_lt : t.cursorX < (t.fb.width / cutermCharWidth : ℕ)
  y_nonneg : 0 ≤ t.cursorY
  y_lt : t.cursorY < (t.fb.height / cutermCharHeight : ℕ)

variable {t : TermText}

lemma CursorInside.newline (hfb : t.fb.Valid) (h : t.CursorInside) : t.newline.CursorInside := by
  have hrows : Cuterm.asInt (t.fb.height / cutermCharHeight : ℕ) =
      (t.fb.height / cutermCharHeight : ℕ) :=
    Cuterm.asInt_natCast ((Nat.div_le_self _ _).trans_lt (hfb.height_lt.trans (by decide)))
  have hsome : 0 < t.fb.height / cutermCharHeight := Nat.div_pos hfb.le_height (by decide)
  have hy := h.y_nonneg
  rw [TermText.newline, hrows]
  split_ifs
  · exact ⟨h.x_nonneg, h.x_lt, by dsimp only; omega, by dsimp only; omega⟩
  · exact ⟨h.x_nonneg, h.x_lt, by dsimp only; omega, by dsimp only; omega⟩

/-- The first cell of a row. -/
lemma CursorInside.first (hfb : t.fb.Valid) (h : t.CursorInside) :
    CursorInside { t with cursorX := 0 } :=
  ⟨le_refl _, Int.natCast_pos.2 (Nat.div_pos hfb.le_width (by decide)), h.y_nonneg, h.y_lt⟩

lemma CursorInside.advance (hfb : t.fb.Valid) (h : t.CursorInside) :
    t.advance.CursorInside := by
  have hx := h.x_nonneg
  have hlt := h.x_lt
  have hwidth := hfb.width_lt
  have hcolumns : t.fb.width / cutermCharWidth ≤ t.fb.width := Nat.div_le_self _ _
  have hcolumn : (t.cursorX + 1) % 2 ^ 32 = t.cursorX + 1 :=
    Int.emod_eq_of_lt (by omega) (by omega)
  rw [TermText.advance, hcolumn]
  split_ifs with hwrap
  · exact (h.first hfb).newline hfb
  · exact ⟨by dsimp only; omega, not_le.1 hwrap, h.y_nonneg, h.y_lt⟩

/-- A byte of plain text leaves the cursor in a cell. -/
lemma CursorInside.put (hfb : t.fb.Valid) (h : t.CursorInside) (c : UInt8) :
    (t.put c).CursorInside := by
  rw [TermText.put]
  split_ifs
  · exact (h.first hfb).newline hfb
  · have hdrawn : CursorInside { t with events := t.events ++ [.glyph c t.cursorX t.cursorY] } :=
      ⟨h.x_nonneg, h.x_lt, h.y_nonneg, h.y_lt⟩
    exact hdrawn.advance hfb

end TermText

/-! ## Streams -/

namespace Cuterm

variable {fb : Framebuffer} {s : Cuterm} (font : ℤ → ℕ)

/-- One byte keeps the accesses in range. -/
lemma safe_cutermPutc (hfb : fb.Valid) (h : Safe fb s) (hcursor : s.text.CursorInside)
    (c : UInt8) : Safe fb (s.cutermPutc font c) := by
  by_cases htaken : (s.ansiFeed c).1 = true
  · rw [cutermPutc_of_taken font htaken]
    exact safe_ansiFeed h c
  obtain ⟨hstate, hc⟩ := plain_of_not_taken htaken
  by_cases hline : c = 10
  · rw [hline, cutermPutc_lineFeed font hstate]
    exact safe_cutermNewline hfb (h.of_eq rfl rfl h.count_le)
  · obtain ⟨x, hx⟩ := Int.eq_ofNat_of_zero_le hcursor.x_nonneg
    obtain ⟨y, hy⟩ := Int.eq_ofNat_of_zero_le hcursor.y_nonneg
    have hxlt := hcursor.x_lt
    have hylt := hcursor.y_lt
    rw [hx] at hxlt
    rw [hy] at hylt
    have hfb_eq : s.text.fb = fb := h.fb_eq
    rw [hfb_eq, Nat.cast_lt] at hxlt hylt
    rw [cutermPutc_glyph font hstate hc hline]
    exact safe_advance hfb (safe_drawChar hfb font h hx hy hxlt hylt c)

/-- One byte leaves the cursor in a cell. -/
lemma cursorInside_cutermPutc (hfb : s.fb.Valid) (h : s.text.CursorInside) (c : UInt8) :
    (s.cutermPutc font c).text.CursorInside := by
  by_cases htaken : (s.ansiFeed c).1 = true
  · rw [cutermPutc_text_of_taken font htaken]
    exact ⟨h.x_nonneg, h.x_lt, h.y_nonneg, h.y_lt⟩
  · obtain ⟨hstate, hc⟩ := plain_of_not_taken htaken
    rw [cutermPutc_text font hstate hc]
    exact h.put hfb c

/-- A stream keeps both. -/
lemma safe_puts (hfb : fb.Valid) (bytes : List UInt8) (h : Safe fb s)
    (hcursor : s.text.CursorInside) :
    Safe fb (s.puts font bytes) ∧ (s.puts font bytes).text.CursorInside := by
  induction bytes generalizing s with
  | nil => exact ⟨h, hcursor⟩
  | cons c bytes ih =>
    exact ih (safe_cutermPutc font hfb h hcursor c)
      (cursorInside_cutermPutc font (h.fb_eq ▸ hfb) hcursor c)

/-- **The terminal stays within its framebuffer**: after every stream of bytes the cursor is in a
cell of the screen, no more parameters are kept than there is room for, and every store, every copy
and every index into a table has been in range. -/
theorem puts_stays_inside (hfb : fb.Valid) (bytes : List UInt8) :
    let s := (init fb).puts font bytes
    (0 ≤ s.cursorX ∧ s.cursorX < (fb.width / 8 : ℕ)) ∧
      (0 ≤ s.cursorY ∧ s.cursorY < (fb.height / 16 : ℕ)) ∧
      s.ansiParamCount ≤ ansiMaxParams ∧ ∀ a ∈ s.accesses, a.InRange fb := by
  have hcursor : (init fb).text.CursorInside :=
    ⟨le_refl _, Int.natCast_pos.2 (Nat.div_pos hfb.le_width (by decide)), le_refl _,
      Int.natCast_pos.2 (Nat.div_pos hfb.le_height (by decide))⟩
  obtain ⟨hsafe, hinside⟩ := safe_puts font hfb bytes (safe_init fb) hcursor
  have hfb_eq : ((init fb).puts font bytes).text.fb = fb := hsafe.fb_eq
  have hxlt := hinside.x_lt
  have hylt := hinside.y_lt
  rw [hfb_eq] at hxlt hylt
  exact ⟨⟨hinside.x_nonneg, hxlt⟩, ⟨hinside.y_nonneg, hylt⟩, hsafe.count_le, hsafe.inRange⟩

/-- A screen of 640 by 400 pixels whose rows are padded, under a stream of colours and lines. -/
theorem puts_stays_inside_padded :
    let fb : Framebuffer := ⟨0xffff800000000000, 640, 400, 2048, 24, 8, 16, 8, 8, 8, 0⟩
    let s := (init fb).puts (fun _ => 0x18) [65, 0x1b, 91, 51, 49, 109, 10, 66]
    (0 ≤ s.cursorX ∧ s.cursorX < (80 : ℕ)) ∧ (0 ≤ s.cursorY ∧ s.cursorY < (25 : ℕ)) ∧
      s.ansiParamCount ≤ ansiMaxParams ∧ ∀ a ∈ s.accesses, a.InRange fb :=
  puts_stays_inside (fun _ => 0x18)
    ⟨.inl rfl, by decide, by decide, by decide, by decide, by decide⟩ _

end Cuterm

end Cuore
