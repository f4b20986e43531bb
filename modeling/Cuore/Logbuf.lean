import Cuore.Framework.Ring
import Cuore.Framework.Word

/-!
# The log ring (`logbuf.c`)

The kernel log is a ring of `LOGBUF_SIZE` characters between `read_pos` and `write_pos`, one of
which always stays empty.  `logbuf_putc` moves `read_pos` on when it catches up with it, so that the
oldest character is dropped.  `logbuf_write` copies a whole string with one or two `memcpy`s and
then compares positions to find out whether it has overtaken `read_pos`.

The two agree exactly when the string fits behind what the ring holds.  When it does not,
`logbuf_write` either moves `read_pos` to `write_pos`, which empties the ring, or does not notice,
and the ring then holds only what was written beyond the old `read_pos`.
-/

namespace Cuore

/-- `LOGBUF_SIZE`. -/
def logbufSize : ℕ := 16384

/-- `logbuf_buffer` and the static variables of the log. -/
structure Logbuf where
  buffer : ℕ → UInt8
  writePos : ℕ
  readPos : ℕ
  wrapped : Bool

namespace Logbuf

/-- The log as it is loaded. -/
def empty : Logbuf := ⟨fun _ => 0, 0, 0, false⟩

/-- `memcpy(&logbuf_buffer[pos], s, s.length)`. -/
def overwrite (buf : ℕ → UInt8) (pos : ℕ) (s : List UInt8) : ℕ → UInt8 :=
  fun i => if pos ≤ i ∧ i < pos + s.length then s.getD (i - pos) 0 else buf i

/-- `logbuf_putc`. -/
def putc (b : Logbuf) (c : UInt8) : Logbuf :=
  let b := { b with
    buffer := Function.update b.buffer b.writePos c
    writePos := (b.writePos + 1) % logbufSize }
  if b.writePos = b.readPos then
    { b with readPos := (b.readPos + 1) % logbufSize, wrapped := true }
  else b

/-- `logbuf_write`, of the characters in front of the terminating zero. -/
def write (b : Logbuf) (str : List UInt8) : Logbuf :=
  let len := str.length
  let spaceUntilEnd := logbufSize - b.writePos
  let firstChunk := if len < spaceUntilEnd then len else spaceUntilEnd
  let secondChunk := len - firstChunk
  let buf := overwrite b.buffer b.writePos (str.take firstChunk)
  let buf := if secondChunk > 0 then overwrite buf 0 (str.drop firstChunk) else buf
  let b := { b with buffer := buf, writePos := wadd b.writePos len % logbufSize }
  if len ≥ logbufSize then { b with readPos := b.writePos, wrapped := true }
  -- `write_pos - len` and `write_pos + LOGBUF_SIZE - len` are computed in `size_t`
  else if b.writePos > b.readPos ∧ wsub b.writePos len < b.readPos then
    { b with readPos := b.writePos, wrapped := true }
  else if b.writePos < b.readPos ∧ wsub (b.writePos + logbufSize) len < b.readPos then
    { b with readPos := b.writePos, wrapped := true }
  else b

/-- `logbuf_clear`. -/
def clear (b : Logbuf) : Logbuf := { b with readPos := b.writePos }

/-- The loop of `logbuf_flush`: the characters put out from `curr` on. -/
def flushLoop (b : Logbuf) : ℕ → ℕ → Option (List UInt8)
  | 0, _ => none
  | fuel + 1, curr =>
    if curr = b.writePos then some []
    else (flushLoop b fuel ((curr + 1) % logbufSize)).map (b.buffer curr :: ·)

/-- `logbuf_flush`: the characters put out.  The loop meets `write_pos` within one turn. -/
def flush (b : Logbuf) : Option (List UInt8) := flushLoop b logbufSize b.readPos

/-! ## What the ring holds -/

/-- The two positions are in the ring. -/
structure InRange (b : Logbuf) : Prop where
  write_lt : b.writePos < logbufSize
  read_lt : b.readPos < logbufSize

/-- The number of characters in the ring. -/
def used (b : Logbuf) : ℕ := (b.writePos + logbufSize - b.readPos) % logbufSize

/-- The characters in the ring. -/
def contents (b : Logbuf) : List UInt8 := ringView logbufSize b.buffer b.readPos b.used

@[simp] lemma length_contents (b : Logbuf) : b.contents.length = b.used := length_ringView _

/-- The last characters of a text, as many as the ring can hold. -/
def newest (l : List UInt8) : List UInt8 := l.drop (l.length - (logbufSize - 1))

lemma newest_of_le {l : List UInt8} (h : l.length ≤ logbufSize - 1) : newest l = l := by
  rw [newest, Nat.sub_eq_zero_of_le h, List.drop_zero]

lemma length_newest (l : List UInt8) : (newest l).length = min l.length (logbufSize - 1) := by
  rw [newest, List.length_drop]
  omega

/-- Dropping the oldest characters on the way makes no difference. -/
lemma newest_newest_append (l m : List UInt8) : newest (newest l ++ m) = newest (l ++ m) := by
  have hsplit : newest l ++ m = (l ++ m).drop (l.length - (logbufSize - 1)) := by
    rw [newest, List.drop_append_of_le_length (by omega)]
  have hcount : l.length - (logbufSize - 1) +
      (l.length + m.length - (l.length - (logbufSize - 1)) - (logbufSize - 1)) =
      l.length + m.length - (logbufSize - 1) := by omega
  rw [hsplit, newest, newest, List.drop_drop, List.length_drop, List.length_append, hcount]

section Positions

variable {b : Logbuf}

lemma InRange.used_lt (_ : b.InRange) : b.used < logbufSize := Nat.mod_lt _ (by decide)

lemma InRange.writePos_eq (h : b.InRange) : b.writePos = (b.readPos + b.used) % logbufSize := by
  obtain ⟨hw, hr⟩ := h
  simp only [used, logbufSize] at *
  omega

/-- The number of characters between two positions. -/
lemma used_eq {k : ℕ} (hk : k < logbufSize) (hr : b.readPos < logbufSize)
    (hw : b.writePos = (b.readPos + k) % logbufSize) : b.used = k := by
  simp only [used, logbufSize] at *
  omega

lemma contents_eq {k : ℕ} (hk : k < logbufSize) (hr : b.readPos < logbufSize)
    (hw : b.writePos = (b.readPos + k) % logbufSize) :
    b.contents = ringView logbufSize b.buffer b.readPos k := by
  rw [contents, used_eq hk hr hw]

lemma InRange.flush_eq (h : b.InRange) : b.flush = some b.contents := by
  suffices hloop : ∀ k curr fuel, curr < logbufSize → k < fuel → k < logbufSize →
      b.writePos = (curr + k) % logbufSize →
      flushLoop b fuel curr = some (ringView logbufSize b.buffer curr k) from
    hloop b.used b.readPos logbufSize h.read_lt h.used_lt h.used_lt h.writePos_eq
  intro k
  induction k with
  | zero =>
    intro curr fuel hcurr hfuel _ hw
    obtain ⟨fuel, rfl⟩ : ∃ f, fuel = f + 1 := ⟨fuel - 1, by omega⟩
    rw [Nat.add_zero, Nat.mod_eq_of_lt hcurr] at hw
    rw [flushLoop, if_pos hw.symm]
    rfl
  | succ k ih =>
    intro curr fuel hcurr hfuel hk hw
    obtain ⟨fuel, rfl⟩ : ∃ f, fuel = f + 1 := ⟨fuel - 1, by omega⟩
    have hne : curr ≠ b.writePos := by
      simp only [logbufSize] at *
      omega
    rw [flushLoop, if_neg hne,
      ih ((curr + 1) % logbufSize) fuel (Nat.mod_lt _ (by decide)) (by omega)
      (by omega) (by rw [hw, Nat.mod_add_mod, Nat.add_assoc, Nat.add_comm 1])]
    rw [Nat.add_comm k 1, ringView_add]
    simp [ringView, Nat.mod_eq_of_lt hcurr]

end Positions

/-! ## One character -/

lemma InRange.putc {b : Logbuf} (h : b.InRange) (c : UInt8) : (b.putc c).InRange := by
  have hpos : 0 < logbufSize := by decide
  rw [Logbuf.putc]
  split_ifs
  · exact ⟨Nat.mod_lt _ hpos, Nat.mod_lt _ hpos⟩
  · exact ⟨Nat.mod_lt _ hpos, h.read_lt⟩

/-- `logbuf_putc` keeps the newest characters. -/
lemma InRange.contents_putc {b : Logbuf} (h : b.InRange) (c : UInt8) :
    (b.putc c).contents = newest (b.contents ++ [c]) := by
  have hused := h.used_lt
  have hw := h.writePos_eq
  have hr := h.read_lt
  -- the cells of the ring, with the new one behind them
  have hview : ringView logbufSize (Function.update b.buffer b.writePos c) b.readPos (b.used + 1) =
      b.contents ++ [c] := by
    rw [ringView_succ, ← hw, Function.update_self, contents]
    congr 1
    refine ringView_congr fun i hi => Function.update_of_ne ?_ _ _
    rw [hw]
    exact ring_pos_ne hi (by omega)
  by_cases hfull : b.used + 1 = logbufSize
  · have hcatch : (b.writePos + 1) % logbufSize = b.readPos := by
      rw [hw, Nat.mod_add_mod, Nat.add_assoc, hfull, Nat.add_mod_right, Nat.mod_eq_of_lt hr]
    rw [Logbuf.putc, if_pos hcatch, newest, List.length_append, length_contents,
      List.length_singleton,
      ← hview, hfull, show logbufSize - (logbufSize - 1) = 1 by decide, drop_ringView (by decide)]
    refine contents_eq (by decide) (Nat.mod_lt _ (by decide)) ?_
    simp only [hcatch]
    simp only [logbufSize] at *
    omega
  · have hmiss : (b.writePos + 1) % logbufSize ≠ b.readPos := by
      rw [hw, Nat.mod_add_mod, Nat.add_assoc]
      simp only [logbufSize] at *
      omega
    have hle : (b.contents ++ [c]).length ≤ logbufSize - 1 := by
      rw [List.length_append, length_contents, List.length_singleton]
      omega
    rw [Logbuf.putc, if_neg hmiss, newest_of_le hle, ← hview]
    refine contents_eq (by omega) hr ?_
    simp only [hw, Nat.mod_add_mod, Nat.add_assoc]

lemma inRange_foldl_putc {b : Logbuf} (h : b.InRange) (s : List UInt8) :
    (s.foldl Logbuf.putc b).InRange := by
  induction s generalizing b with
  | nil => exact h
  | cons c s ih => exact ih (h.putc c)

lemma contents_foldl_putc {b : Logbuf} (h : b.InRange) (s : List UInt8) :
    (s.foldl Logbuf.putc b).contents = newest (b.contents ++ s) := by
  induction s generalizing b with
  | nil =>
    rw [List.append_nil, newest_of_le]
    · rfl
    · have := h.used_lt
      rw [length_contents]
      omega
  | cons c s ih =>
    rw [List.foldl_cons, ih (h.putc c), h.contents_putc, newest_newest_append, List.append_assoc]
    rfl

/-! ## A whole string -/

section Overwrite

variable {buf : ℕ → UInt8} {pos i : ℕ} {s : List UInt8}

lemma overwrite_nil : overwrite buf pos [] = buf := by
  funext i
  rw [overwrite, if_neg (by simp)]

lemma overwrite_of_inside (h : pos ≤ i) (h' : i < pos + s.length) :
    overwrite buf pos s i = s.getD (i - pos) 0 := by
  rw [overwrite, if_pos ⟨h, h'⟩]

lemma overwrite_of_outside (h : i < pos ∨ pos + s.length ≤ i) : overwrite buf pos s i = buf i := by
  rw [overwrite, if_neg (by omega)]

end Overwrite

section Write

variable {b : Logbuf} {s : List UInt8}

/-- What the two copies leave in the buffer. -/
lemma buffer_write_eq : (b.write s).buffer =
    let firstChunk := if s.length < logbufSize - b.writePos then s.length
      else logbufSize - b.writePos
    let buf := overwrite b.buffer b.writePos (s.take firstChunk)
    if s.length - firstChunk > 0 then overwrite buf 0 (s.drop firstChunk) else buf := by
  simp only [write]
  split_ifs <;> rfl

/-- The positions behind `write_pos`, in the order of the copy. -/
lemma buffer_write (h : b.InRange) (hs : s.length ≤ logbufSize) {i : ℕ} (hi : i < logbufSize) :
    (b.write s).buffer ((b.writePos + i) % logbufSize) =
      if i < s.length then s.getD i 0 else b.buffer ((b.writePos + i) % logbufSize) := by
  obtain ⟨hw, hr⟩ := h
  rw [buffer_write_eq]
  by_cases hfit : s.length < logbufSize - b.writePos
  · simp only [if_pos hfit, Nat.sub_self, lt_irrefl, if_false, List.take_length]
    by_cases hlt : i < s.length
    · rw [Nat.mod_eq_of_lt (by omega), overwrite_of_inside (by omega) (by omega), if_pos hlt,
        Nat.add_sub_cancel_left]
    · rw [if_neg hlt, overwrite_of_outside]
      simp only [logbufSize] at *
      omega
  · have hlen : (s.take (logbufSize - b.writePos)).length = logbufSize - b.writePos :=
      List.length_take_of_le (by omega)
    have hsecond : ∀ buf : ℕ → UInt8, (if s.length - (logbufSize - b.writePos) > 0 then
        overwrite buf 0 (s.drop (logbufSize - b.writePos)) else buf) =
        overwrite buf 0 (s.drop (logbufSize - b.writePos)) := by
      intro buf
      split_ifs with h0
      · rfl
      · rw [List.drop_eq_nil_of_le (by omega), overwrite_nil]
    simp only [if_neg hfit, hsecond]
    by_cases hfirst : i < logbufSize - b.writePos
    · rw [Nat.mod_eq_of_lt (by omega), overwrite_of_outside (by rw [List.length_drop]; omega),
        overwrite_of_inside (by omega) (by omega), if_pos (by omega), Nat.add_sub_cancel_left]
      rw [List.getD_eq_getElem?_getD, List.getD_eq_getElem?_getD, List.getElem?_take_of_lt hfirst]
    · have hpos : (b.writePos + i) % logbufSize = i - (logbufSize - b.writePos) := by
        simp only [logbufSize] at *
        omega
      rw [hpos]
      by_cases hlt : i < s.length
      · rw [overwrite_of_inside (by omega) (by rw [List.length_drop]; omega), if_pos hlt,
          List.getD_eq_getElem?_getD, List.getD_eq_getElem?_getD, List.getElem?_drop]
        congr 2
        omega
      · rw [overwrite_of_outside (by rw [List.length_drop]; omega),
          overwrite_of_outside (by omega), if_neg hlt]

/-- The new positions, for strings that are shorter than the ring. -/
lemma write_positions (h : b.InRange) (hs : s.length < logbufSize) :
    (b.write s).writePos = (b.writePos + s.length) % logbufSize ∧
    (b.write s).readPos =
      if (b.write s).writePos > b.readPos ∧ wsub (b.write s).writePos s.length < b.readPos ∨
          (b.write s).writePos < b.readPos ∧
            wsub ((b.write s).writePos + logbufSize) s.length < b.readPos then
        (b.write s).writePos
      else b.readPos := by
  have hw : (b.write s).writePos = wadd b.writePos s.length % logbufSize := by
    simp only [write]
    split_ifs <;> rfl
  have hlt : b.writePos + s.length < word := by
    have := h.write_lt
    simp only [logbufSize, word] at *
    omega
  rw [hw, wadd_of_lt hlt]
  refine ⟨rfl, ?_⟩
  simp only [write, wadd_of_lt hlt, if_neg (not_le.mpr hs), ge_iff_le]
  split_ifs <;> first | rfl | omega

/-- Whatever is written, the positions stay in the ring. -/
lemma InRange.write (h : b.InRange) (s : List UInt8) : (b.write s).InRange := by
  have hw : (b.write s).writePos = wadd b.writePos s.length % logbufSize := by
    simp only [Logbuf.write]
    split_ifs <;> rfl
  have hr : (b.write s).readPos = (b.write s).writePos ∨ (b.write s).readPos = b.readPos := by
    simp only [Logbuf.write]
    split_ifs <;> simp
  have hlt : (b.write s).writePos < logbufSize := by
    rw [hw]
    exact Nat.mod_lt _ (by decide)
  refine ⟨hlt, ?_⟩
  rcases hr with hr | hr
  · rwa [hr]
  · rw [hr]
    exact h.read_lt

/-- A string that fits leaves `read_pos` where it is. -/
lemma readPos_write_of_fits (h : b.InRange) (hs : b.used + s.length < logbufSize) :
    (b.write s).readPos = b.readPos := by
  obtain ⟨hw, hr⟩ := write_positions h (s := s) (by omega)
  have hw' := h.writePos_eq
  have hread := h.read_lt
  rw [hr, if_neg]
  simp only [wsub, word, logbufSize] at *
  omega

/-- A string that does not fit leaves room in the ring. -/
lemma used_write_of_overflow (h : b.InRange) (hs : s.length < logbufSize)
    (hover : logbufSize ≤ b.used + s.length) : (b.write s).used < logbufSize - 1 := by
  obtain ⟨hw, hr⟩ := write_positions h hs
  have hw' := h.writePos_eq
  have hread := h.read_lt
  have hused := h.used_lt
  rw [used, hr]
  split_ifs
  · rw [Nat.add_sub_cancel_left, Nat.mod_self]
    decide
  · simp only [logbufSize] at *
    omega

/-- **A string that fits** is appended. -/
lemma contents_write_of_fits (h : b.InRange) (hs : b.used + s.length < logbufSize) :
    (b.write s).contents = b.contents ++ s := by
  obtain ⟨hw, -⟩ := write_positions h (s := s) (by omega)
  have hr := readPos_write_of_fits h hs
  have hpos := h.writePos_eq
  have hview : (b.write s).contents =
      ringView logbufSize (b.write s).buffer b.readPos (b.used + s.length) := by
    rw [← hr]
    refine contents_eq hs (by rw [hr]; exact h.read_lt) ?_
    rw [hr, hw, hpos, Nat.mod_add_mod, Nat.add_assoc]
  rw [hview, ringView_add, ← hpos]
  congr 1
  · -- the characters before are `logbufSize - used` cells and more behind `write_pos`
    refine ringView_congr fun i hi => ?_
    have hcell : (b.readPos + i) % logbufSize =
        (b.writePos + (logbufSize - b.used + i)) % logbufSize := by
      rw [hpos, Nat.mod_add_mod, show b.readPos + b.used + (logbufSize - b.used + i) =
        b.readPos + i + logbufSize by omega, Nat.add_mod_right]
    rw [hcell, buffer_write h (by omega) (by omega), if_neg (by omega)]
  · refine List.ext_getElem (by simp) fun i hi hi' => ?_
    rw [length_ringView] at hi
    simp only [ringView, List.getElem_map, List.getElem_range]
    rw [buffer_write h (by omega) (by omega), if_pos hi, List.getD_eq_getElem _ _ hi]

/-- **`logbuf_write` does what `logbuf_putc` does** for the characters one by one, exactly when the
string fits or is empty. -/
lemma contents_write_iff (h : b.InRange) (hs : s.length < logbufSize) :
    (b.write s).contents = newest (b.contents ++ s) ↔ s = [] ∨ b.used + s.length < logbufSize := by
  constructor
  · intro heq
    by_contra! hover
    have hlen := congrArg List.length heq
    rw [length_newest, List.length_append, length_contents, length_contents] at hlen
    have := used_write_of_overflow h hs (by omega)
    omega
  · intro hfits
    have hfits' : b.used + s.length < logbufSize := by
      rcases hfits with rfl | hfits
      · simpa using h.used_lt
      · exact hfits
    rw [contents_write_of_fits h hfits', newest_of_le]
    rw [List.length_append, length_contents]
    omega

end Write

end Logbuf

/-! ## Runs -/

/-- A call that changes the log. -/
inductive LogOp
  | putc (c : UInt8)
  | write (s : List UInt8)
  | clear

namespace LogOp

/-- The call on the ring. -/
def onRing (b : Logbuf) : LogOp → Logbuf
  | putc c => b.putc c
  | write s => b.write s
  | clear => b.clear

/-- The call on the text written since the last `logbuf_clear`. -/
def onText (l : List UInt8) : LogOp → List UInt8
  | putc c => l ++ [c]
  | write s => l ++ s
  | clear => []

end LogOp

/-- The log after a sequence of calls. -/
def logRun (ops : List LogOp) : Logbuf := ops.foldl LogOp.onRing Logbuf.empty

/-- The characters written since the last `logbuf_clear` of a sequence of calls. -/
def logText (ops : List LogOp) : List UInt8 := ops.foldl LogOp.onText []

/-- Every string is shorter than the ring. -/
def ShortWrites (ops : List LogOp) : Prop := ∀ s, LogOp.write s ∈ ops → s.length < logbufSize

/-- Every string that is written fits behind the text written since the last `logbuf_clear`. -/
def FittingWrites (ops : List LogOp) : Prop := ∀ p s q, ops = p ++ LogOp.write s :: q →
  s ≠ [] → (logText p).length + s.length < logbufSize

lemma logRun_append_singleton (ops : List LogOp) (op : LogOp) :
    logRun (ops ++ [op]) = op.onRing (logRun ops) := by
  rw [logRun, List.foldl_append]
  rfl

lemma logText_append_singleton (ops : List LogOp) (op : LogOp) :
    logText (ops ++ [op]) = op.onText (logText ops) := by
  rw [logText, List.foldl_append]
  rfl

lemma inRange_onRing {b : Logbuf} (h : b.InRange) (op : LogOp) : (op.onRing b).InRange := by
  cases op with
  | putc c => exact h.putc c
  | write s => exact h.write s
  | clear => exact ⟨h.write_lt, h.write_lt⟩

lemma inRange_logRun (ops : List LogOp) : (logRun ops).InRange := by
  induction ops using List.reverseRecOn with
  | nil => exact ⟨by decide, by decide⟩
  | append_singleton ops op ih =>
    rw [logRun_append_singleton]
    exact inRange_onRing ih op

/-- One call keeps the ring at the newest characters, unless it writes a string that does not
fit. -/
lemma contents_onRing_iff {b : Logbuf} {l : List UInt8} (h : b.InRange)
    (hl : b.contents = Logbuf.newest l) (op : LogOp)
    (hs : ∀ s, op = .write s → s.length < logbufSize) :
    (op.onRing b).contents = Logbuf.newest (op.onText l) ↔
      ∀ s, op = .write s → s ≠ [] → l.length + s.length < logbufSize := by
  cases op with
  | putc c =>
    simp only [LogOp.onRing, LogOp.onText, h.contents_putc, hl, Logbuf.newest_newest_append,
      reduceCtorEq, false_imp_iff, implies_true]
  | write s =>
    have hused : b.used = min l.length (logbufSize - 1) := by
      rw [← Logbuf.length_contents, hl, Logbuf.length_newest]
    have hiff := Logbuf.contents_write_iff h (hs s rfl)
    rw [hl, Logbuf.newest_newest_append] at hiff
    simp only [LogOp.onRing, LogOp.onText, LogOp.write.injEq, forall_eq', hiff]
    by_cases hnil : s = []
    · simp [hnil]
    · have hpos := List.length_pos_iff.mpr hnil
      simp only [hnil, false_or, ne_eq, not_false_eq_true, true_imp_iff]
      omega
  | clear =>
    have hclear : (LogOp.clear.onRing b).contents = [] := by
      apply List.eq_nil_of_length_eq_zero
      rw [Logbuf.length_contents]
      simp [LogOp.onRing, Logbuf.clear, Logbuf.used]
    rw [hclear]
    simp [LogOp.onText, Logbuf.newest]

/-- **The log ring keeps the newest text** throughout a sequence of calls exactly when every string
that is written fits behind the text written since the last `logbuf_clear`.  And in any state of the
ring, `logbuf_write` leaves what `logbuf_putc` leaves for the characters one by one exactly when the
string is empty or fits behind what the ring holds. -/
theorem logbuf_flush_newest_iff (ops : List LogOp) (hs : ShortWrites ops) :
    ((∀ p q, ops = p ++ q → (logRun p).flush = some (Logbuf.newest (logText p))) ↔
      FittingWrites ops) ∧
    ∀ b : Logbuf, b.InRange → ∀ s : List UInt8, s.length < logbufSize →
      ((b.write s).flush = (s.foldl Logbuf.putc b).flush ↔
        s = [] ∨ b.used + s.length < logbufSize) := by
  refine ⟨⟨fun hall p s q hops => ?_, fun hfit p q hops => ?_⟩, fun b hb s hlen => ?_⟩
  · have hp := hall p _ hops
    have hnext := hall (p ++ [.write s]) q (by simp [hops])
    have hin := inRange_logRun p
    have hslen : ∀ t, LogOp.write s = .write t → t.length < logbufSize := by
      rintro t ⟨⟩
      exact hs s (by simp [hops])
    rw [hin.flush_eq, Option.some.injEq] at hp
    rw [logRun_append_singleton, logText_append_singleton, (inRange_onRing hin _).flush_eq,
      Option.some.injEq, contents_onRing_iff hin hp _ hslen] at hnext
    exact hnext s rfl
  · subst hops
    have hshort : ShortWrites p := fun s hmem => hs s (List.mem_append_left _ hmem)
    rw [(inRange_logRun p).flush_eq, Option.some.injEq]
    clear hs
    induction p using List.reverseRecOn generalizing q with
    | nil => rfl
    | append_singleton p op ih =>
      have hshort' : ShortWrites p := fun s hmem => hshort s (List.mem_append_left _ hmem)
      have hp := ih (op :: q) (by simpa using hfit) hshort'
      rw [logRun_append_singleton, logText_append_singleton,
        contents_onRing_iff (inRange_logRun p) hp]
      · rintro s rfl
        exact hfit p s q (by simp)
      · rintro s rfl
        exact hshort s (by simp)
  · rw [(hb.write s).flush_eq, (Logbuf.inRange_foldl_putc hb s).flush_eq, Option.some.injEq,
      Logbuf.contents_foldl_putc hb]
    exact Logbuf.contents_write_iff hb hlen

/-- Two short texts in a row, and the first of them character by character. -/
theorem logbuf_flush_newest_hello :
    let ops : List LogOp := [.write [104, 105], .putc 33]
    ShortWrites ops ∧ FittingWrites ops ∧
      (∀ p q, ops = p ++ q → (logRun p).flush = some (Logbuf.newest (logText p))) ∧
      (logRun ops).flush = some [104, 105, 33] ∧
      (Logbuf.empty.write [104, 105]).flush =
        ([104, 105].foldl Logbuf.putc Logbuf.empty).flush := by
  intro ops
  have hs : ShortWrites ops := by
    intro s hs
    simp only [ops, List.mem_cons, LogOp.write.injEq, reduceCtorEq, List.not_mem_nil,
      or_false] at hs
    subst hs
    decide
  have hfit : FittingWrites ops := by
    intro p s q hops _
    match p with
    | [] =>
      obtain ⟨rfl, -⟩ : [104, 105] = s ∧ _ := by simpa [ops] using hops
      decide
    | [_] => simp [ops] at hops
    | _ :: _ :: _ => simp [ops] at hops
  obtain ⟨hnewest, hcalls⟩ := logbuf_flush_newest_iff ops hs
  have hall := hnewest.mpr hfit
  exact ⟨hs, hfit, hall,
    (hall ops [] (List.append_nil _).symm).trans (congrArg some (Logbuf.newest_of_le (by decide))),
    (hcalls Logbuf.empty (inRange_logRun []) [104, 105] (by decide)).mpr (.inr (by decide))⟩

/-- One more character, written as a string, empties a full ring. -/
lemma flush_full_then_one {A : List UInt8} (hlen : A.length = logbufSize - 1) (c : UInt8) :
    ShortWrites [.write A, .write [c]] ∧ (logRun [.write A, .write [c]]).flush ≠
      some (Logbuf.newest (logText [.write A, .write [c]])) := by
  have hshort : A.length < logbufSize := by
    rw [hlen]
    decide
  have hs : ShortWrites [.write A, .write [c]] := by
    intro s hs
    simp only [List.mem_cons, LogOp.write.injEq, List.not_mem_nil, or_false] at hs
    rcases hs with rfl | rfl
    · exact hshort
    · exact (by decide : 1 < logbufSize)
  refine ⟨hs, ?_⟩
  have hempty : Logbuf.empty.InRange := ⟨by decide, by decide⟩
  have hfirst : (Logbuf.empty.write A).contents = Logbuf.newest ([] ++ A) :=
    (Logbuf.contents_write_iff hempty hshort).mpr (.inr (by rw [hlen]; decide))
  have hone : ∀ t, LogOp.write [c] = .write t → t.length < logbufSize := by
    rintro t ⟨⟩
    exact (by decide : 1 < logbufSize)
  rw [(inRange_logRun _).flush_eq, ne_eq, Option.some.injEq]
  intro heq
  have hfits := (contents_onRing_iff (hempty.write A) hfirst (.write [c]) hone).mp heq _ rfl
    (by simp)
  rw [List.nil_append, hlen] at hfits
  exact absurd hfits (by simp [logbufSize])

/-- A text of `LOGBUF_SIZE - 1` characters, then one more: nothing is put out. -/
theorem logbuf_write_full_then_one :
    ¬ ∀ ops : List LogOp, ShortWrites ops →
      (logRun ops).flush = some (Logbuf.newest (logText ops)) := by
  intro hall
  obtain ⟨hs, hne⟩ := flush_full_then_one (A := List.replicate (logbufSize - 1) 97)
    List.length_replicate 98
  exact hne (hall _ hs)

end Cuore
