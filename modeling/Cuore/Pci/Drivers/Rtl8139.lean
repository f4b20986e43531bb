import Cuore.Framework.Bytes
import Cuore.Framework.Ring
import Cuore.Framework.Word
import Mathlib.Algebra.BigOperators.Ring.List

/-!
# Receiving with the RTL8139 (`pci/drivers/rtl8139.c`)

The network card stores a frame as a 4-byte header and its bytes, from a multiple of four on and
back at offset zero behind the last of the 8192 bytes of its ring.  `rtl_rx_drain` reads header and
frame from `rx_offset` on as if they lay in one piece.  Behind the ring the driver has allocated a
third page and zeroed it, but in the configured mode the card never writes there, so a frame that
goes round the end of the ring is delivered with zeros in place of the bytes that are at its
beginning.

The model runs the card and the turns of the driver's loop in any order; what has been stored and
delivered is kept in the state.  `RtlInv` is the invariant, over the positions of the frames in the
stream of all that was ever stored (`framePos`).  `rtl_rx_drain_iff` says which frames come out
intact.
-/

namespace Cuore

/-! ## Frames -/

/-- `RTL_RX_BUF_SIZE`. -/
def rtlRxBufSize : ℕ := 8192

/-- A received frame: the flags of its header, and its bytes with the checksum. -/
structure RtlFrame where
  flags : ℕ
  bytes : List UInt8

namespace RtlFrame

/-- A good frame: received without error, of a length that Ethernet allows. -/
structure Good (f : RtlFrame) : Prop where
  flags_lt : f.flags < 2 ^ 16
  rok : f.flags &&& 0x0001 ≠ 0
  noError : f.flags &&& 0x003E = 0
  le_length : 64 ≤ f.bytes.length
  length_le : f.bytes.length ≤ 1518

instance (f : RtlFrame) : Decidable f.Good :=
  decidable_of_iff (f.flags < 2 ^ 16 ∧ f.flags &&& 0x0001 ≠ 0 ∧ f.flags &&& 0x003E = 0 ∧
      64 ≤ f.bytes.length ∧ f.bytes.length ≤ 1518)
    ⟨fun ⟨h1, h2, h3, h4, h5⟩ => ⟨h1, h2, h3, h4, h5⟩,
      fun h => ⟨h.flags_lt, h.rok, h.noError, h.le_length, h.length_le⟩⟩

/-- Header and bytes, as the card stores them. -/
def image (f : RtlFrame) : List UInt8 := leBytes 4 (f.flags + 2 ^ 16 * f.bytes.length) ++ f.bytes

/-- The bytes of the ring up to the next frame. -/
def slot (f : RtlFrame) : ℕ := (4 + f.bytes.length + 3) / 4 * 4

/-- The frame without its checksum. -/
def payload (f : RtlFrame) : List UInt8 := f.bytes.take (f.bytes.length - 4)

lemma length_image (f : RtlFrame) : f.image.length = 4 + f.bytes.length := by
  rw [image, List.length_append, length_leBytes]

lemma length_image_le_slot (f : RtlFrame) : f.image.length ≤ f.slot := by
  rw [length_image, slot]
  omega

lemma Good.length_image_le {f : RtlFrame} (h : f.Good) : f.image.length ≤ rtlRxBufSize := by
  have hlen := h.length_le
  rw [length_image, rtlRxBufSize]
  omega

end RtlFrame

/-- The position of frame `i` in the stream of all frames. -/
def framePos (frames : List RtlFrame) (i : ℕ) : ℕ := ((frames.take i).map RtlFrame.slot).sum

section FramePos

variable {frames : List RtlFrame} {i j : ℕ} {f : RtlFrame}

lemma framePos_succ (h : frames[i]? = some f) :
    framePos frames (i + 1) = framePos frames i + f.slot := by
  rw [framePos, framePos, List.take_add_one, h, Option.toList_some, List.map_append,
    List.sum_append]
  simp

lemma framePos_append (h : i ≤ frames.length) :
    framePos (frames ++ [f]) i = framePos frames i := by
  rw [framePos, framePos, List.take_append_of_le_length h]

lemma framePos_append_self : framePos (frames ++ [f]) (frames.length + 1) =
    framePos frames frames.length + f.slot := by
  rw [framePos_succ (f := f) (by simp), framePos_append le_rfl]

/-- A frame of a list with one more: an old one, or that one. -/
lemma getElem?_append_frame {g : RtlFrame} (hg : (frames ++ [f])[i]? = some g) :
    frames[i]? = some g ∨ i = frames.length ∧ g = f := by
  rcases Nat.lt_or_ge i frames.length with hi | hi
  · exact Or.inl (by rwa [List.getElem?_append_left hi] at hg)
  · rw [List.getElem?_append_right hi, List.getElem?_singleton] at hg
    split_ifs at hg with hzero
    cases hg
    exact Or.inr ⟨by omega, rfl⟩

lemma four_dvd_framePos : 4 ∣ framePos frames i := by
  refine List.dvd_sum fun x hx => ?_
  obtain ⟨f, -, rfl⟩ := List.mem_map.1 hx
  exact Dvd.intro_left _ rfl

lemma framePos_mono (h : i ≤ j) : framePos frames i ≤ framePos frames j := by
  have hprefix : frames.take i <+: frames.take j := List.take_prefix_take_left h
  obtain ⟨rest, hrest⟩ := hprefix
  rw [framePos, framePos, ← hrest, List.map_append, List.sum_append]
  exact Nat.le_add_right _ _

end FramePos

/-! ## The card and the driver -/

/-- The ring and the guard page behind it, the driver's offset, and what happened: the frames
stored by the card, how many the driver has been through, the buffers handed to `on_received`, and
the values written to the CAPR and command registers. -/
structure Rtl where
  rxBuffer : Memory
  /-- where the card stores next -/
  cbr : ℕ
  rxOffset : ℕ
  frames : List RtlFrame
  drained : ℕ
  delivered : List (List UInt8)
  caprs : List ℕ
  commands : List ℕ

namespace Rtl

/-- After `rtl8139_init`: the three pages are zeroed. -/
def init : Rtl := ⟨fun _ => 0, 0, 0, [], 0, [], [], []⟩

/-- What can happen. -/
inductive Act
  /-- The card stores a frame. -/
  | receive (f : RtlFrame)
  /-- A turn of the loop in `rtl_rx_drain`. -/
  | drain

/-- The card stores a good frame, if it does not overrun what the driver has not been through. -/
def receive (s : Rtl) (f : RtlFrame) : Option Rtl :=
  if f.Good ∧ framePos s.frames s.frames.length + f.slot ≤
      framePos s.frames s.drained + rtlRxBufSize then
    some { s with
      rxBuffer := ringWrite rtlRxBufSize s.rxBuffer s.cbr f.image
      cbr := (s.cbr + f.slot) % rtlRxBufSize
      frames := s.frames ++ [f] }
  else none

/-- A turn of the loop in `rtl_rx_drain`, with a frame in the ring. -/
def drainTurn (s : Rtl) : Rtl :=
  let rxOffset := if s.rxOffset ≥ rtlRxBufSize then 0 else s.rxOffset
  let headerVal := s.rxBuffer.load rxOffset 4
  let rxFlags := headerVal &&& 0xFFFF
  let packetLen := (headerVal >>> 16) % 2 ^ 16
  if ¬(rxFlags &&& 0x0001 ≠ 0) ∨ rxFlags &&& 0x003E ≠ 0 then
    { s with rxOffset := rxOffset, commands := s.commands ++ [0x04 ||| 0x08] }
  else if packetLen < 64 ∨ packetLen > 1518 then { s with rxOffset := rxOffset }
  else
    let packetData := (List.range (packetLen - 4)).map fun k => s.rxBuffer (rxOffset + 4 + k)
    let next := ((rxOffset + packetLen + 4 + 3) &&& (2 ^ 32 - 1 - 3)) % rtlRxBufSize
    let capr := if next < 0x10 then (rtlRxBufSize - (0x10 - next)) % 2 ^ 16
      else (next - 0x10) % 2 ^ 16
    { s with
      rxOffset := next
      drained := s.drained + 1
      delivered := s.delivered ++ [packetData]
      caprs := s.caprs ++ [capr] }

/-- One step.  The loop turns while the card does not report an empty ring. -/
def step (s : Rtl) : Act → Option Rtl
  | .receive f => s.receive f
  | .drain => if s.drained < s.frames.length then some s.drainTurn else none

/-- A sequence of steps. -/
def run (s : Rtl) : List Act → Option Rtl
  | [] => some s
  | a :: acts => (s.step a).bind fun s' => s'.run acts

/-- The frames that the card stores in a sequence of steps. -/
def received (acts : List Act) : List RtlFrame :=
  acts.filterMap fun
    | .receive f => some f
    | .drain => none

/-- The turns of the loop in a sequence of steps. -/
def turns (acts : List Act) : ℕ :=
  acts.countP fun
    | .receive _ => false
    | .drain => true

end Rtl

/-! ## The invariant -/

/-- What a reader sees who reads a frame in one piece from its place in the ring on: zeros for what
lies round the end. -/
def RtlFrame.seenAt (f : RtlFrame) (offset : ℕ) : List UInt8 :=
  (List.range (f.bytes.length - 4)).map fun k =>
    if offset + 4 + k < rtlRxBufSize then f.bytes.getD k 0 else 0

/-- **The ring holds the frames** that the driver has not been through, and the driver has seen
those before. -/
structure RtlInv (s : Rtl) : Prop where
  good : ∀ f ∈ s.frames, f.Good
  drained_le : s.drained ≤ s.frames.length
  fits : framePos s.frames s.frames.length ≤ framePos s.frames s.drained + rtlRxBufSize
  cbr_eq : s.cbr = framePos s.frames s.frames.length % rtlRxBufSize
  rxOffset_eq : s.rxOffset = framePos s.frames s.drained % rtlRxBufSize
  stored : ∀ i f, s.frames[i]? = some f → s.drained ≤ i → ∀ k (h : k < f.image.length),
    s.rxBuffer ((framePos s.frames i + k) % rtlRxBufSize) = f.image[k]
  guard : ∀ x ≥ rtlRxBufSize, s.rxBuffer x = 0
  length_delivered : s.delivered.length = s.drained
  delivered : ∀ i f, s.frames[i]? = some f → i < s.drained →
    s.delivered[i]? = some (f.seenAt (framePos s.frames i % rtlRxBufSize))
  caprs : s.caprs = (List.range s.drained).map fun i =>
    (framePos s.frames (i + 1) % rtlRxBufSize + (rtlRxBufSize - 16)) % rtlRxBufSize
  commands : s.commands = []

lemma rtlInv_init : RtlInv Rtl.init where
  good f hf := absurd hf List.not_mem_nil
  drained_le := le_rfl
  fits := Nat.zero_le _
  cbr_eq := rfl
  rxOffset_eq := rfl
  stored i f h := by cases h
  guard _ _ := rfl
  length_delivered := rfl
  delivered i f h := by cases h
  caprs := rfl
  commands := rfl

namespace RtlInv

variable {s s' : Rtl} {f : RtlFrame}

/-- A frame that the driver has not been through lies outside the cells of the next one. -/
lemma kept (h : RtlInv s)
    (hfits : framePos s.frames s.frames.length + f.slot ≤
      framePos s.frames s.drained + rtlRxBufSize)
    {i : ℕ} {g : RtlFrame} (hg : s.frames[i]? = some g) (hi : s.drained ≤ i) {k : ℕ}
    (hk : k < g.image.length) :
    ringWrite rtlRxBufSize s.rxBuffer s.cbr f.image ((framePos s.frames i + k) % rtlRxBufSize) =
      s.rxBuffer ((framePos s.frames i + k) % rtlRxBufSize) := by
  have hlt : i < s.frames.length := (List.getElem?_eq_some_iff.1 hg).1
  have hbefore : framePos s.frames (i + 1) ≤ framePos s.frames s.frames.length :=
    framePos_mono hlt
  have hafter : framePos s.frames s.drained ≤ framePos s.frames i := framePos_mono hi
  have hgslot := g.length_image_le_slot
  have hfslot := f.length_image_le_slot
  rw [framePos_succ hg] at hbefore
  have hindex : (framePos s.frames i + k) % rtlRxBufSize =
      (framePos s.frames s.frames.length +
        (framePos s.frames i + k + rtlRxBufSize - framePos s.frames s.frames.length)) %
          rtlRxBufSize := by
    rw [Nat.add_sub_cancel' (by omega), Nat.add_mod_right]
  rw [h.cbr_eq, ringWrite_mod, hindex]
  exact ringWrite_outside (by omega) (by omega)

/-- **The card stores a frame** behind the others. -/
lemma receive (h : RtlInv s) (hs : s.receive f = some s') : RtlInv s' := by
  rw [Rtl.receive] at hs
  split_ifs at hs with hfree
  cases hs
  obtain ⟨hgood, hfits⟩ := hfree
  have hdrained : framePos (s.frames ++ [f]) s.drained = framePos s.frames s.drained :=
    framePos_append h.drained_le
  refine ⟨?_, ?_, ?_, ?_, ?_, ?_, ?_, h.length_delivered, ?_, ?_, h.commands⟩
  · exact fun g hg => (List.mem_append.1 hg).elim (h.good g)
      fun hg => List.mem_singleton.1 hg ▸ hgood
  · rw [List.length_append]
    exact h.drained_le.trans (Nat.le_add_right _ _)
  · rw [List.length_append, List.length_singleton, framePos_append_self, hdrained]
    exact hfits
  · rw [List.length_append, List.length_singleton, framePos_append_self, h.cbr_eq,
      Nat.mod_add_mod]
  · rw [hdrained]
    exact h.rxOffset_eq
  · intro i g hg hi k hk
    rcases getElem?_append_frame hg with hg | ⟨rfl, rfl⟩
    · rw [framePos_append (List.getElem?_eq_some_iff.1 hg).1.le]
      exact (h.kept hfits hg hi hk).trans (h.stored i g hg hi k hk)
    · rw [framePos_append le_rfl, h.cbr_eq, ringWrite_mod]
      exact ringWrite_inside hk hgood.length_image_le
  · exact fun x hx => (ringWrite_of_le hx).trans (h.guard x hx)
  · intro i g hg hi
    rcases getElem?_append_frame hg with hg | ⟨rfl, rfl⟩
    · rw [framePos_append (hi.le.trans h.drained_le)]
      exact h.delivered i g hg hi
    · exact absurd hi (not_lt.2 h.drained_le)
  · rw [h.caprs]
    refine List.map_congr_left fun i hi => ?_
    rw [framePos_append ((List.mem_range.1 hi).trans_le h.drained_le)]

/-- The mask that rounds down to a multiple of four, on 32 bits. -/
lemma and_mask_four {x : ℕ} (hx : x < 2 ^ 32) : x &&& (2 ^ 32 - 1 - 3) = x / 4 * 4 := by
  have hmask : 2 ^ 32 - 1 - 3 = wnot (2 ^ 2 - 1) &&& (2 ^ 32 - 1) := by decide
  rw [hmask, ← Nat.and_assoc, and_wnot_pred (by decide) (by simp only [word]; omega),
    Nat.and_two_pow_sub_one_eq_mod, alignDown]
  omega

/-- A byte of a frame that lies in front of the end of the ring. -/
lemma rxBuffer_eq (h : RtlInv s) {i : ℕ} (hf : s.frames[i]? = some f) (hi : s.drained ≤ i) {k : ℕ}
    (hk : k < f.image.length) (hin : framePos s.frames i % rtlRxBufSize + k < rtlRxBufSize) :
    s.rxBuffer (framePos s.frames i % rtlRxBufSize + k) = f.image[k] := by
  rw [← h.stored i f hf hi k hk, ← Nat.mod_add_mod, Nat.mod_eq_of_lt hin]

/-- The header of the next frame. -/
lemma load_header (h : RtlInv s) (hf : s.frames[s.drained]? = some f) :
    s.rxBuffer.load s.rxOffset 4 = f.flags + 2 ^ 16 * f.bytes.length := by
  have hgood := h.good f (List.mem_of_getElem? hf)
  have hlen := hgood.length_le
  have hflags := hgood.flags_lt
  have haligned : framePos s.frames s.drained % rtlRxBufSize % 4 = 0 := by
    rw [Nat.mod_mod_of_dvd _ (by decide)]
    exact Nat.mod_eq_zero_of_dvd four_dvd_framePos
  have hlt : framePos s.frames s.drained % rtlRxBufSize < rtlRxBufSize := Nat.mod_lt _ (by decide)
  have hsize : rtlRxBufSize = 8192 := rfl
  have himage := f.length_image
  have hholds : Holds s.rxBuffer s.rxOffset (leBytes 4 (f.flags + 2 ^ 16 * f.bytes.length)) := by
    refine holds_iff_getElem.2 fun k hk => ?_
    rw [length_leBytes] at hk
    rw [h.rxOffset_eq, h.rxBuffer_eq hf le_rfl (by omega) (by omega)]
    exact List.getElem_append_left _
  rw [hholds.load_leBytes]
  exact Nat.mod_eq_of_lt (by omega)

/-- The bytes behind the header, as the driver reads them. -/
lemma read_eq_seenAt (h : RtlInv s) (hf : s.frames[s.drained]? = some f) :
    ((List.range (f.bytes.length - 4)).map fun k => s.rxBuffer (s.rxOffset + 4 + k)) =
      f.seenAt s.rxOffset := by
  have himage := f.length_image
  refine List.map_congr_left fun k hk => ?_
  rw [List.mem_range] at hk
  split_ifs with hin
  · rw [h.rxOffset_eq] at hin ⊢
    rw [Nat.add_assoc, h.rxBuffer_eq hf le_rfl (by omega) (by omega),
      List.getD_eq_getElem _ _ (by omega)]
    simp [RtlFrame.image, List.getElem_append_right]
  · exact h.guard _ (by omega)

/-- The driver's arithmetic on the offset: behind the frame, rounded up to a multiple of four. -/
lemma next_offset (hgood : f.Good) {o : ℕ} (halign : o % 4 = 0) (hlt : o < rtlRxBufSize) :
    ((o + f.bytes.length + 4 + 3) &&& (2 ^ 32 - 1 - 3)) % rtlRxBufSize =
      (o + f.slot) % rtlRxBufSize := by
  have hlen := hgood.length_le
  rw [rtlRxBufSize] at hlt
  rw [and_mask_four (by omega), RtlFrame.slot]
  congr 1
  omega

/-- The two cases of the CAPR value. -/
lemma capr_eq (next : ℕ) (hlt : next < rtlRxBufSize) :
    (if next < 0x10 then (rtlRxBufSize - (0x10 - next)) % 2 ^ 16 else (next - 0x10) % 2 ^ 16) =
      (next + (rtlRxBufSize - 16)) % rtlRxBufSize := by
  rw [rtlRxBufSize] at hlt ⊢
  split_ifs <;> omega

/-- **A turn of the loop** reads the next frame and moves on to the one after. -/
lemma drainTurn_eq (h : RtlInv s) (hf : s.frames[s.drained]? = some f) :
    s.drainTurn = { s with
      rxOffset := framePos s.frames (s.drained + 1) % rtlRxBufSize
      drained := s.drained + 1
      delivered := s.delivered ++ [f.seenAt (framePos s.frames s.drained % rtlRxBufSize)]
      caprs := s.caprs ++ [(framePos s.frames (s.drained + 1) % rtlRxBufSize +
        (rtlRxBufSize - 16)) % rtlRxBufSize] } := by
  have hgood := h.good f (List.mem_of_getElem? hf)
  have hlow := hgood.le_length
  have hhigh := hgood.length_le
  have hflags := hgood.flags_lt
  have hlt : s.rxOffset < rtlRxBufSize := h.rxOffset_eq ▸ Nat.mod_lt _ (by decide)
  have haligned : s.rxOffset % 4 = 0 := by
    rw [h.rxOffset_eq, Nat.mod_mod_of_dvd _ (by decide)]
    exact Nat.mod_eq_zero_of_dvd four_dvd_framePos
  have hrxFlags : (f.flags + 2 ^ 16 * f.bytes.length) &&& 0xFFFF = f.flags := by
    have hmod := Nat.and_two_pow_sub_one_eq_mod (f.flags + 2 ^ 16 * f.bytes.length) 16
    exact hmod.trans (by omega)
  have hlen : ((f.flags + 2 ^ 16 * f.bytes.length) >>> 16) % 2 ^ 16 = f.bytes.length := by
    rw [Nat.shiftRight_eq_div_pow]
    omega
  have hnext : (s.rxOffset + f.slot) % rtlRxBufSize =
      framePos s.frames (s.drained + 1) % rtlRxBufSize := by
    rw [framePos_succ hf, h.rxOffset_eq, Nat.mod_add_mod]
  rw [Rtl.drainTurn]
  simp only [if_neg (not_le.2 hlt), h.load_header hf, hrxFlags, hlen, h.read_eq_seenAt hf,
    next_offset hgood haligned hlt, capr_eq _ (Nat.mod_lt _ (by decide)), hnext]
  rw [if_neg (by rw [not_or]; exact ⟨not_not_intro hgood.rok, not_not_intro hgood.noError⟩),
    if_neg (by omega), h.rxOffset_eq]

/-- **A turn of the loop** keeps the invariant. -/
lemma drainTurn (h : RtlInv s) (hlt : s.drained < s.frames.length) :
    RtlInv s.drainTurn ∧ s.drainTurn.drained = s.drained + 1 ∧ s.drainTurn.frames = s.frames := by
  obtain ⟨f, hf⟩ : ∃ f, s.frames[s.drained]? = some f := ⟨_, List.getElem?_eq_getElem hlt⟩
  rw [h.drainTurn_eq hf]
  refine ⟨⟨h.good, hlt, ?_, h.cbr_eq, rfl, ?_, h.guard, ?_, ?_, ?_, h.commands⟩, rfl, rfl⟩
  · exact h.fits.trans (Nat.add_le_add_right (framePos_mono (Nat.le_succ _)) _)
  · exact fun i g hg hi => h.stored i g hg (Nat.le_of_succ_le hi)
  · rw [List.length_append, h.length_delivered, List.length_singleton]
  · intro i g hg hi
    rcases Nat.lt_succ_iff_lt_or_eq.1 hi with hi | rfl
    · rw [List.getElem?_append_left (by rw [h.length_delivered]; exact hi)]
      exact h.delivered i g hg hi
    · cases hf.symm.trans hg
      rw [List.getElem?_append_right (by rw [h.length_delivered]), h.length_delivered, Nat.sub_self,
        List.getElem?_cons_zero]
  · rw [h.caprs, List.range_succ, List.map_append]
    rfl

lemma step (h : RtlInv s) {a : Rtl.Act} (hs : s.step a = some s') : RtlInv s' := by
  cases a with
  | receive f => exact h.receive hs
  | drain =>
    rw [Rtl.step] at hs
    split_ifs at hs with hlt
    cases hs
    exact (h.drainTurn hlt).1

/-- What a step records. -/
lemma step_records (h : RtlInv s) {a : Rtl.Act} (hs : s.step a = some s') :
    s'.frames = s.frames ++ Rtl.received [a] ∧ s'.drained = s.drained + Rtl.turns [a] := by
  cases a with
  | receive f =>
    rw [Rtl.step, Rtl.receive] at hs
    split_ifs at hs
    cases hs
    exact ⟨rfl, rfl⟩
  | drain =>
    rw [Rtl.step] at hs
    split_ifs at hs with hlt
    cases hs
    exact ⟨(h.drainTurn hlt).2.2.trans (List.append_nil _).symm, (h.drainTurn hlt).2.1⟩

/-- **Every run** keeps the invariant, and each turn of the loop goes through one frame. -/
lemma run (h : RtlInv s) {acts : List Rtl.Act} (hrun : s.run acts = some s') :
    RtlInv s' ∧ s'.frames = s.frames ++ Rtl.received acts ∧
      s'.drained = s.drained + Rtl.turns acts := by
  induction acts generalizing s with
  | nil =>
    cases hrun
    exact ⟨h, (List.append_nil _).symm, rfl⟩
  | cons a acts ih =>
    obtain ⟨t, hstep, hrest⟩ := Option.bind_eq_some_iff.1 hrun
    obtain ⟨hinv, hframes, hdrained⟩ := ih (h.step hstep) hrest
    obtain ⟨hframes', hdrained'⟩ := h.step_records hstep
    refine ⟨hinv, ?_, ?_⟩
    · rw [hframes, hframes', List.append_assoc, Rtl.received, Rtl.received, Rtl.received,
        ← List.filterMap_append, List.singleton_append]
    · rw [hdrained, hdrained', Nat.add_assoc, Rtl.turns, Rtl.turns, Rtl.turns, ← List.countP_append,
        List.singleton_append]

end RtlInv

/-! ## Which frames come out intact -/

/-- A frame read in one piece is intact if what lies round the end of the ring is zero. -/
lemma RtlFrame.seenAt_eq_payload_iff (f : RtlFrame) (offset : ℕ) :
    f.seenAt offset = f.payload ↔ ∀ k (h : k < f.bytes.length - 4),
      rtlRxBufSize ≤ offset + 4 + k → f.bytes[k] = 0 := by
  have hpayload : ∀ k (h : k < f.bytes.length - 4), f.payload[k]? = some f.bytes[k] := by
    intro k hk
    rw [payload, List.getElem?_take_of_lt hk, List.getElem?_eq_getElem]
  have hseen : ∀ k (h : k < f.bytes.length - 4), (f.seenAt offset)[k]? =
      some (if offset + 4 + k < rtlRxBufSize then f.bytes[k] else 0) := by
    intro k hk
    rw [seenAt, List.getElem?_map, List.getElem?_range hk, Option.map_some,
      List.getD_eq_getElem _ _ (by omega)]
  constructor
  · intro heq k hk hround
    have hk' := hseen k hk
    rw [heq, hpayload k hk, if_neg (not_lt.2 hround)] at hk'
    exact Option.some_inj.1 hk'
  · intro hzero
    refine List.ext_getElem? fun k => ?_
    by_cases hk : k < f.bytes.length - 4
    · rw [hseen k hk, hpayload k hk]
      split_ifs with hin
      · rfl
      · rw [hzero k hk (not_lt.1 hin)]
    · rw [List.getElem?_eq_none, List.getElem?_eq_none]
      · rw [payload, List.length_take]
        omega
      · rw [seenAt, List.length_map, List.length_range]
        omega

/-- **Received frames are delivered intact.** -/
structure RtlIntact (s : Rtl) : Prop where
  /-- `on_received` is called once for each frame, in order, with its bytes -/
  delivered : s.delivered = (s.frames.take s.drained).map RtlFrame.payload
  aligned : s.rxOffset % 4 = 0
  offset_lt : s.rxOffset < rtlRxBufSize
  /-- the offset after each frame, less 16, is what is written to CAPR -/
  caprs : s.caprs = (List.range s.drained).map fun i =>
    (framePos s.frames (i + 1) % rtlRxBufSize + (rtlRxBufSize - 16)) % rtlRxBufSize
  rxOffset_eq : s.rxOffset = framePos s.frames s.drained % rtlRxBufSize

lemma RtlInv.intact_iff {s : Rtl} (h : RtlInv s) :
    RtlIntact s ↔ ∀ i f, s.frames[i]? = some f → i < s.drained →
      f.seenAt (framePos s.frames i % rtlRxBufSize) = f.payload := by
  have haligned : s.rxOffset % 4 = 0 := by
    have hdvd : 4 ∣ framePos s.frames s.drained := four_dvd_framePos
    rw [h.rxOffset_eq, Nat.mod_mod_of_dvd _ (by decide)]
    omega
  have hlt : s.rxOffset < rtlRxBufSize := by
    rw [h.rxOffset_eq]
    exact Nat.mod_lt _ (by decide)
  constructor
  · intro hintact i f hf hi
    have hseen := h.delivered i f hf hi
    rw [hintact.delivered, List.getElem?_map, List.getElem?_take_of_lt hi, hf,
      Option.map_some] at hseen
    exact (Option.some_inj.1 hseen).symm
  · intro hall
    refine ⟨List.ext_getElem? fun i => ?_, haligned, hlt, h.caprs, h.rxOffset_eq⟩
    by_cases hi : i < s.drained
    · obtain ⟨f, hf⟩ : ∃ f, s.frames[i]? = some f :=
        ⟨_, List.getElem?_eq_getElem (hi.trans_le h.drained_le)⟩
      rw [h.delivered i f hf hi, hall i f hf hi, List.getElem?_map, List.getElem?_take_of_lt hi, hf,
        Option.map_some]
    · rw [List.getElem?_eq_none, List.getElem?_eq_none]
      · rw [List.length_map, List.length_take]
        omega
      · rw [h.length_delivered]
        omega

/-- **When frames are delivered intact.**  Every turn of the loop goes through one of the frames
stored, in order, and in every run the frames come out intact exactly if in each of them the bytes
that lie round the end of the ring, but for the checksum, are zero. -/
theorem rtl_rx_drain_iff (acts : List Rtl.Act) (s : Rtl) (hrun : Rtl.init.run acts = some s) :
    s.frames = Rtl.received acts ∧ s.drained = Rtl.turns acts ∧
    (RtlIntact s ↔ ∀ i f, s.frames[i]? = some f → i < s.drained →
      ∀ k (h : k < f.bytes.length - 4),
        rtlRxBufSize ≤ framePos s.frames i % rtlRxBufSize + 4 + k → f.bytes[k] = 0) := by
  obtain ⟨h, hframes, hdrained⟩ := rtlInv_init.run hrun
  refine ⟨hframes, hdrained.trans (Nat.zero_add _), h.intact_iff.trans ?_⟩
  simp only [RtlFrame.seenAt_eq_payload_iff]

/-! ## A frame that goes round the end -/

/-- Every sequence of good frames can be received and drained one by one. -/
lemma exists_run_each {s : Rtl} (h : RtlInv s) (hempty : s.drained = s.frames.length)
    {fs : List RtlFrame} (hgood : ∀ f ∈ fs, f.Good) :
    ∃ s', s.run (fs.flatMap fun f => [.receive f, .drain]) = some s' ∧ RtlInv s' ∧
      s'.frames = s.frames ++ fs ∧ s'.drained = s'.frames.length := by
  induction fs generalizing s with
  | nil => exact ⟨s, rfl, h, (List.append_nil _).symm, hempty⟩
  | cons f fs ih =>
    obtain ⟨hf, hfs⟩ := List.forall_mem_cons.1 hgood
    have hroom : framePos s.frames s.frames.length + f.slot ≤
        framePos s.frames s.drained + rtlRxBufSize := by
      have hlen := hf.length_le
      rw [hempty, RtlFrame.slot, rtlRxBufSize]
      omega
    obtain ⟨t, ht⟩ : ∃ t, s.receive f = some t := ⟨_, if_pos ⟨hf, hroom⟩⟩
    have htinv := h.receive ht
    obtain ⟨htframes, htdrained⟩ := h.step_records (a := .receive f) ht
    have hlt : t.drained < t.frames.length := by
      rw [htframes, htdrained, List.length_append, hempty]
      exact Nat.lt_succ_self _
    obtain ⟨hdinv, hddrained, hdframes⟩ := htinv.drainTurn hlt
    have hdempty : t.drainTurn.drained = t.drainTurn.frames.length := by
      rw [hddrained, hdframes, htframes, htdrained, List.length_append, hempty]
      rfl
    obtain ⟨s', hrun, hinv, hframes, hend⟩ := ih hdinv hdempty hfs
    refine ⟨s', ?_, hinv, ?_, hend⟩
    · rw [List.flatMap_cons, List.cons_append, List.cons_append, List.nil_append, Rtl.run, Rtl.step,
        ht, Option.bind_some, Rtl.run, Rtl.step, if_pos hlt, Option.bind_some]
      exact hrun
    · rw [hframes, hdframes, htframes, List.append_assoc]
      rfl

/-- A frame of 1518 bytes, none of them zero. -/
def fullFrame : RtlFrame := ⟨0x0001, List.replicate 1518 0xFF⟩

lemma good_fullFrame : fullFrame.Good := by
  refine ⟨by decide, by decide, by decide, ?_, ?_⟩ <;>
    simp only [fullFrame, List.length_replicate] <;> decide

lemma good_replicate (n : ℕ) : ∀ f ∈ List.replicate n fullFrame, f.Good :=
  fun _ hf => (List.mem_replicate.1 hf).2 ▸ good_fullFrame

lemma framePos_fullFrame {n i : ℕ} (h : i ≤ n) :
    framePos (List.replicate n fullFrame) i = 1524 * i := by
  have hslot : fullFrame.slot = 1524 := by
    rw [RtlFrame.slot, fullFrame, List.length_replicate]
  rw [framePos, List.take_replicate, List.map_replicate, List.sum_replicate, hslot, min_eq_left h]
  exact Nat.mul_comm i 1524

/-- Five such frames fit below the end of the ring. -/
theorem rtl_rx_drain_iff_five :
    ∃ s, Rtl.init.run ((List.replicate 5 fullFrame).flatMap fun f => [.receive f, .drain]) =
      some s ∧ RtlIntact s := by
  obtain ⟨s, hrun, -, hframes, hend⟩ := exists_run_each rtlInv_init rfl (good_replicate 5)
  refine ⟨s, hrun, (rtl_rx_drain_iff _ s hrun).2.2.2 fun i f hf hi k hk hround => ?_⟩
  rw [hframes] at hf hround
  have hlt : i < 5 := by simpa [Rtl.init] using (List.getElem?_eq_some_iff.1 hf).1
  have hlen : f.bytes.length = 1518 := by
    rw [(List.mem_replicate.1 (List.mem_of_getElem? hf)).2, fullFrame, List.length_replicate]
  have hpos : framePos (Rtl.init.frames ++ List.replicate 5 fullFrame) i = 1524 * i :=
    framePos_fullFrame hlt.le
  rw [hpos, rtlRxBufSize, Nat.mod_eq_of_lt (by omega)] at hround
  omega

/-- The sixth one goes round the end and is delivered with zeros. -/
theorem rtl_rx_drain_round :
    ∃ s, Rtl.init.run ((List.replicate 6 fullFrame).flatMap fun f => [.receive f, .drain]) =
      some s ∧ ¬RtlIntact s := by
  obtain ⟨s, hrun, hinv, hframes, hend⟩ := exists_run_each rtlInv_init rfl (good_replicate 6)
  refine ⟨s, hrun, fun hintact => ?_⟩
  have hf : s.frames[5]? = some fullFrame := by
    rw [hframes]
    rfl
  have hpos : framePos s.frames 5 = 1524 * 5 := by
    rw [hframes]
    exact framePos_fullFrame (by decide)
  have hdrained : 5 < s.drained := by
    rw [hend, hframes]
    decide
  have hbytes := (fullFrame.seenAt_eq_payload_iff _).1 (hinv.intact_iff.1 hintact 5 _ hf hdrained)
    1000 (by rw [fullFrame, List.length_replicate]; decide) (by rw [hpos]; decide)
  exact absurd (hbytes.symm.trans (List.getElem_replicate _)) (by decide)

end Cuore
