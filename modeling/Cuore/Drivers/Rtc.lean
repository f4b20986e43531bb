import Cuore.Time
import Mathlib.Data.Nat.Bitwise

/-!
# The real-time clock (`drivers/RTC.c`)

`read_rtc` waits until the clock is not being updated, reads its registers, and decodes them by the
two bits of register B: packed decimal digits or binary, and hours from 1 to 12 with a flag for the
afternoon or from 0 to 23.  The register of the century is the one that the FADT names, if it names
one.

`ShowsTime` says what the registers hold at a moment, in each of the four formats.  The epoch that
follows from them is `ShowsTime.epoch_eq`: it is right except for the hours of midnight and noon in
the twelve-hour format, which come out swapped.  `rtcEpoch_format` is the equivalence.
-/

namespace Cuore

/-! ## The function -/

/-- `cmos_read`, with the registers of the chip. -/
def cmosRead (cmos : ℕ → ℕ) (reg : ℕ) : ℕ := cmos reg % 2 ^ 8

/-- `is_updating`. -/
def isUpdating (cmos : ℕ → ℕ) : Prop := cmosRead cmos 0x0A &&& 0x80 ≠ 0

instance (cmos : ℕ → ℕ) : Decidable (isUpdating cmos) := inferInstanceAs (Decidable (_ ≠ _))

/-- `BCD_TO_BIN`.  On a byte it is at most 165. -/
def bcdToBin (val : ℕ) : ℕ := (val &&& 0x0F) + val / 16 * 10

/-- A field of `read_rtc` other than the hour. -/
def rtcByte (registerB val : ℕ) : ℕ := if registerB &&& 0x04 = 0 then bcdToBin val else val

/-- The hour of `read_rtc`. -/
def rtcHour (registerB hour : ℕ) : ℕ :=
  let hour :=
    if registerB &&& 0x04 = 0 then
      ((hour &&& 0x0F) + (hour &&& 0x70) / 16 * 10) ||| (hour &&& 0x80)
    else hour
  -- handle 12 hour mode
  if registerB &&& 0x02 = 0 ∧ hour &&& 0x80 ≠ 0 then ((hour &&& 0x7F) + 12) % 24 else hour

/-- The index of the century register.  `fadt` is the field of the table, if there is a table. -/
def centuryIndex (fadt : Option ℕ) : Option ℕ := fadt.filter (· ≠ 0)

/-- The century, which stays zero without a register for it. -/
def rtcCentury (fadt : Option ℕ) (cmos : ℕ → ℕ) : ℕ :=
  match centuryIndex fadt with
  | some reg => rtcByte (cmosRead cmos 0x0B) (cmosRead cmos reg)
  | none => 0

/-- `read_rtc` behind the loop. -/
def rtcFields (fadt : Option ℕ) (cmos : ℕ → ℕ) : RtcTime :=
  let registerB := cmosRead cmos 0x0B
  let century := rtcCentury fadt cmos
  let year := rtcByte registerB (cmosRead cmos 0x09)
  { second := rtcByte registerB (cmosRead cmos 0x00)
    minute := rtcByte registerB (cmosRead cmos 0x02)
    hour := rtcHour registerB (cmosRead cmos 0x04)
    day := rtcByte registerB (cmosRead cmos 0x07)
    month := rtcByte registerB (cmosRead cmos 0x08)
    year := if century ≠ 0 then year + century * 100 else year + 2000 }

/-- `read_rtc`, on the chip as it is each time it is polled.  An update does not begin for a while
after the flag was seen clear, so that the fields are read from one state of the chip. -/
def readRtc (fadt : Option ℕ) : List (ℕ → ℕ) → Option RtcTime
  | [] => none
  | cmos :: polls => if isUpdating cmos then readRtc fadt polls else some (rtcFields fadt cmos)

/-- The epoch of a reading. -/
def rtcEpoch (fadt : Option ℕ) (polls : List (ℕ → ℕ)) : Option ℕ :=
  (readRtc fadt polls).bind epochOfFields

/-! ## The formats -/

/-- A format of the registers. -/
structure RtcFormat where
  bcd : Bool
  twelveHour : Bool
  deriving DecidableEq

/-- A number below 100 in a register. -/
def RtcFormat.byte (f : RtcFormat) (n : ℕ) : ℕ := if f.bcd then n / 10 * 16 + n % 10 else n

/-- An hour of the day in its register. -/
def RtcFormat.hour (f : RtcFormat) (n : ℕ) : ℕ :=
  if f.twelveHour then
    f.byte (if n % 12 = 0 then 12 else n % 12) + if 12 ≤ n then 0x80 else 0
  else f.byte n

/-- Register B in a format, its other bits clear. -/
def RtcFormat.registerB (f : RtcFormat) : ℕ :=
  (if f.bcd then 0 else 0x04) + if f.twelveHour then 0 else 0x02

/-- The registers show a moment in a format, and no update is in progress. -/
structure ShowsTime (f : RtcFormat) (fadt : Option ℕ) (d : Date 1970) (hour minute second : ℕ)
    (cmos : ℕ → ℕ) : Prop where
  idle : ¬isUpdating cmos
  bcd : cmosRead cmos 0x0B &&& 0x04 = 0 ↔ f.bcd
  twelveHour : cmosRead cmos 0x0B &&& 0x02 = 0 ↔ f.twelveHour
  second : cmosRead cmos 0x00 = f.byte second
  minute : cmosRead cmos 0x02 = f.byte minute
  hour : cmosRead cmos 0x04 = f.hour hour
  day : cmosRead cmos 0x07 = f.byte d.day
  month : cmosRead cmos 0x08 = f.byte d.month
  year : cmosRead cmos 0x09 = f.byte (d.year % 100)
  century : ∀ reg, centuryIndex fadt = some reg → cmosRead cmos reg = f.byte (d.year / 100)

/-- The registers that `read_rtc` reads whatever the table says. -/
def clockRegisters : List ℕ := [0x00, 0x02, 0x04, 0x07, 0x08, 0x09, 0x0A, 0x0B]

/-- The registers of the clock at a moment. -/
def clockOf (f : RtcFormat) (d : Date 1970) (hour minute second : ℕ) : ℕ → ℕ
  | 0x00 => f.byte second
  | 0x02 => f.byte minute
  | 0x04 => f.hour hour
  | 0x07 => f.byte d.day
  | 0x08 => f.byte d.month
  | 0x09 => f.byte (d.year % 100)
  | 0x0B => f.registerB
  | _ => 0

/-- A chip that shows a moment in a format. -/
def cmosOf (f : RtcFormat) (fadt : Option ℕ) (d : Date 1970) (hour minute second reg : ℕ) : ℕ :=
  if centuryIndex fadt = some reg then f.byte (d.year / 100) else clockOf f d hour minute second reg

/-- What becomes of an hour: in the twelve-hour format midnight, the hour `12` without the flag,
is left as it is, and noon has 12 added as every hour of the afternoon. -/
def misreadHour (f : RtcFormat) (hour : ℕ) : ℕ :=
  if f.twelveHour ∧ hour % 12 = 0 then 12 - hour else hour

section Decoding

variable {f : RtcFormat} {fadt : Option ℕ} {d : Date 1970} {hour minute second registerB n : ℕ}
  {cmos : ℕ → ℕ}

lemma byte_lt (hn : n < 100) : f.byte n < 2 ^ 8 := by
  rw [RtcFormat.byte]
  split_ifs <;> omega

lemma bcdToBin_digits : bcdToBin (n / 10 * 16 + n % 10) = n := by
  have hmask : (n / 10 * 16 + n % 10) &&& 0x0F = (n / 10 * 16 + n % 10) % 2 ^ 4 :=
    Nat.and_two_pow_sub_one_eq_mod _ 4
  rw [bcdToBin, hmask]
  omega

lemma hour_lt : ∀ f : RtcFormat, ∀ n < 24, f.hour n < 2 ^ 8 := by
  rintro ⟨_ | _, _ | _⟩ <;> decide

lemma registerB_lt : ∀ f : RtcFormat, f.registerB < 2 ^ 8 := by
  rintro ⟨_ | _, _ | _⟩ <;> decide

/-- A field is decoded by the format it was written in. -/
lemma rtcByte_byte (hbcd : registerB &&& 0x04 = 0 ↔ f.bcd) : rtcByte registerB (f.byte n) = n := by
  rw [rtcByte, RtcFormat.byte]
  simp only [hbcd]
  split_ifs
  · exact bcdToBin_digits
  · rfl

/-- The hour on one of the values of register B. -/
lemma rtcHour_registerB : ∀ f : RtcFormat, ∀ n < 24,
    rtcHour f.registerB (f.hour n) = misreadHour f n := by
  rintro ⟨_ | _, _ | _⟩ <;> decide

/-- Only two bits of register B matter. -/
lemma rtcHour_congr {registerB' : ℕ} (hbcd : registerB &&& 0x04 = 0 ↔ registerB' &&& 0x04 = 0)
    (htwelve : registerB &&& 0x02 = 0 ↔ registerB' &&& 0x02 = 0) :
    rtcHour registerB n = rtcHour registerB' n := by
  simp only [rtcHour, hbcd, htwelve]

lemma registerB_bcd : ∀ f : RtcFormat, f.registerB &&& 0x04 = 0 ↔ f.bcd := by
  rintro ⟨_ | _, _ | _⟩ <;> decide

lemma registerB_twelveHour : ∀ f : RtcFormat, f.registerB &&& 0x02 = 0 ↔ f.twelveHour := by
  rintro ⟨_ | _, _ | _⟩ <;> decide

lemma rtcHour_hour (hbcd : registerB &&& 0x04 = 0 ↔ f.bcd)
    (htwelve : registerB &&& 0x02 = 0 ↔ f.twelveHour) (hn : n < 24) :
    rtcHour registerB (f.hour n) = misreadHour f n := by
  rw [rtcHour_congr (hbcd.trans (registerB_bcd f).symm)
    (htwelve.trans (registerB_twelveHour f).symm)]
  exact rtcHour_registerB f n hn

/-- The years for which a chip can say which century it is: without a register for it `read_rtc`
takes the year 2000 and later. -/
def HasCentury (fadt : Option ℕ) (year : ℕ) : Prop :=
  2000 ≤ year ∧ year < if (centuryIndex fadt).isSome then 10000 else 2100

instance (fadt : Option ℕ) (year : ℕ) : Decidable (HasCentury fadt year) :=
  inferInstanceAs (Decidable (_ ∧ _))

/-- The year is put together from its two parts. -/
lemma ShowsTime.year_eq (h : ShowsTime f fadt d hour minute second cmos)
    (hyear : HasCentury fadt d.year) : (rtcFields fadt cmos).year = d.year := by
  obtain ⟨hfirst, hlast⟩ := hyear
  simp only [rtcFields, rtcCentury, h.year, rtcByte_byte h.bcd]
  cases hreg : centuryIndex fadt with
  | none =>
    rw [hreg] at hlast
    simp only [Option.isSome_none, Bool.false_eq_true, if_false] at hlast
    simp only [ne_eq, not_true, if_false]
    omega
  | some reg =>
    have hcentury : d.year / 100 ≠ 0 := by omega
    simp only [h.century reg hreg, rtcByte_byte h.bcd, if_pos hcentury]
    omega

/-- **The fields of a reading** are those of the moment, up to the hour. -/
lemma ShowsTime.fields_eq (h : ShowsTime f fadt d hour minute second cmos)
    (hyear : HasCentury fadt d.year) (hhour : hour < 24) :
    rtcFields fadt cmos = fieldsAt d (misreadHour f hour) minute second := by
  have hy := h.year_eq hyear
  have hh : rtcHour (cmosRead cmos 0x0B) (cmosRead cmos 0x04) = misreadHour f hour := by
    rw [h.hour]
    exact rtcHour_hour h.bcd h.twelveHour hhour
  rw [← rtcHour_hour h.bcd h.twelveHour hhour, ← h.hour]
  simp only [rtcFields, fieldsAt] at hy ⊢
  rw [hy, h.second, h.minute, h.day, h.month]
  simp only [rtcByte_byte h.bcd]

/-- Polls during an update are passed over. -/
lemma readRtc_append {busy : List (ℕ → ℕ)} (hbusy : ∀ cmos ∈ busy, isUpdating cmos)
    (hidle : ¬isUpdating cmos) (later : List (ℕ → ℕ)) :
    readRtc fadt (busy ++ cmos :: later) = some (rtcFields fadt cmos) := by
  induction busy with
  | nil => rw [List.nil_append, readRtc, if_neg hidle]
  | cons first busy ih =>
    obtain ⟨hfirst, htail⟩ := List.forall_mem_cons.1 hbusy
    rw [List.cons_append, readRtc, if_pos hfirst, ih htail]

lemma misreadHour_lt (hhour : hour < 24) : misreadHour f hour < 24 := by
  rw [misreadHour]
  split_ifs <;> omega

/-- **The epoch of a reading.** -/
lemma ShowsTime.epoch_eq (h : ShowsTime f fadt d hour minute second cmos)
    (hyear : HasCentury fadt d.year) (hhour : hour < 24) (hminute : minute < 60)
    (hsecond : second < 60) {busy : List (ℕ → ℕ)} (hbusy : ∀ cmos ∈ busy, isUpdating cmos)
    (later : List (ℕ → ℕ)) :
    rtcEpoch fadt (busy ++ cmos :: later) =
      some (86400 * d.dayNumber + (3600 * misreadHour f hour + 60 * minute + second)) := by
  have hlast : d.year < 2 ^ 32 := by
    obtain ⟨-, hlast⟩ := hyear
    split_ifs at hlast <;> omega
  rw [rtcEpoch, readRtc_append hbusy h.idle, h.fields_eq hyear hhour]
  rw [Option.bind_some, epochOfFields_eq d hlast (misreadHour_lt hhour) hminute hsecond]

/-- Every format has a chip that shows the moment. -/
lemma showsTime_cmosOf (f : RtcFormat) (hyear : HasCentury fadt d.year) (hhour : hour < 24)
    (hminute : minute < 60) (hsecond : second < 60)
    (hreg : ∀ reg, centuryIndex fadt = some reg → reg ∉ clockRegisters) :
    ShowsTime f fadt d hour minute second (cmosOf f fadt d hour minute second) := by
  have hlast : d.year < 10000 := by
    obtain ⟨-, hlast⟩ := hyear
    split_ifs at hlast <;> omega
  have hday : d.day < 100 := by
    refine (d.day_le.trans ?_).trans_lt (by decide : 31 < 100)
    rw [daysInMonth]
    split_ifs <;> decide
  have hread : ∀ reg ∈ clockRegisters, clockOf f d hour minute second reg < 2 ^ 8 →
      cmosRead (cmosOf f fadt d hour minute second) reg = clockOf f d hour minute second reg := by
    intro reg hmem hlt
    rw [cmosRead, cmosOf, if_neg fun heq => hreg reg heq hmem, Nat.mod_eq_of_lt hlt]
  have hbcd := hread 0x0B (by decide) (registerB_lt f)
  exact {
    idle := by
      rw [isUpdating, hread 0x0A (by decide) (Nat.two_pow_pos 8)]
      exact not_not_intro (Nat.zero_and _)
    bcd := by
      rw [hbcd]
      exact registerB_bcd f
    twelveHour := by
      rw [hbcd]
      exact registerB_twelveHour f
    second := hread 0x00 (by decide) (byte_lt (by omega))
    minute := hread 0x02 (by decide) (byte_lt (by omega))
    hour := hread 0x04 (by decide) (hour_lt f hour hhour)
    day := hread 0x07 (by decide) (byte_lt hday)
    month := hread 0x08 (by decide) (byte_lt (by have := d.month_le; omega))
    year := hread 0x09 (by decide) (byte_lt (by omega))
    century := fun reg heq => by
      rw [cmosRead, cmosOf, if_pos heq, Nat.mod_eq_of_lt (byte_lt (by omega))] }

lemma misreadHour_eq_iff (hhour : hour < 24) :
    (∀ f f', misreadHour f hour = misreadHour f' hour) ↔ hour % 12 ≠ 0 := by
  constructor
  · intro h hzero
    have heq := h ⟨true, true⟩ ⟨true, false⟩
    simp only [misreadHour, hzero, and_self, Bool.false_eq_true, false_and, if_true,
      if_false] at heq
    omega
  · intro hne f f'
    rw [misreadHour, misreadHour, if_neg fun h => hne h.2, if_neg fun h => hne h.2]

end Decoding

/-! ## The epoch and the formats -/

/-- **The format changes the time exactly at midnight and noon.**  For every date of the years that
a reading can tell apart and every time of day, the epoch that `read_rtc` and `get_epoch_rtc` make
of a chip that shows this moment is the same in the four formats if and only if the hour is neither
0 nor 12. -/
theorem rtcEpoch_format (fadt : Option ℕ) (d : Date 1970) (hour minute second : ℕ)
    (hreg : ∀ reg, centuryIndex fadt = some reg → reg ∉ clockRegisters)
    (hyear : HasCentury fadt d.year) (hhour : hour < 24) (hminute : minute < 60)
    (hsecond : second < 60) :
    (∀ f f' busy busy' later later' cmos cmos',
      (∀ c ∈ busy, isUpdating c) → (∀ c ∈ busy', isUpdating c) →
      ShowsTime f fadt d hour minute second cmos → ShowsTime f' fadt d hour minute second cmos' →
      rtcEpoch fadt (busy ++ cmos :: later) = rtcEpoch fadt (busy' ++ cmos' :: later')) ↔
    hour % 12 ≠ 0 := by
  rw [← misreadHour_eq_iff hhour]
  constructor
  · intro h f f'
    have hshow := showsTime_cmosOf f hyear hhour hminute hsecond hreg
    have hshow' := showsTime_cmosOf f' hyear hhour hminute hsecond hreg
    have heq := h f f' [] [] [] [] _ _ (by simp) (by simp) hshow hshow'
    rw [hshow.epoch_eq hyear hhour hminute hsecond (by simp),
      hshow'.epoch_eq hyear hhour hminute hsecond (by simp), Option.some_inj] at heq
    omega
  · intro h f f' busy busy' later later' cmos cmos' hbusy hbusy' hshow hshow'
    rw [hshow.epoch_eq hyear hhour hminute hsecond hbusy,
      hshow'.epoch_eq hyear hhour hminute hsecond hbusy', h f f']

/-- Nine in the evening of the 29th of February 2024, on a machine without a century register. -/
theorem rtcEpoch_format_evening :
    let d : Date 1970 := ⟨2024, 2, 29, by decide, by decide, by decide, by decide, by decide⟩
    ∀ f f', rtcEpoch none [cmosOf f none d 21 5 0] = rtcEpoch none [cmosOf f' none d 21 5 0] := by
  intro d f f'
  have hreg : ∀ reg, centuryIndex none = some reg → reg ∉ clockRegisters := by simp [centuryIndex]
  have hyear : HasCentury none d.year := by decide
  have hshow : ∀ f, ShowsTime f none d 21 5 0 (cmosOf f none d 21 5 0) := fun f =>
    showsTime_cmosOf f hyear (by decide) (by decide) (by decide) hreg
  exact (rtcEpoch_format none d 21 5 0 hreg hyear (by decide) (by decide) (by decide)).mpr
    (by decide) f f' [] [] [] [] _ _ (by simp) (by simp) (hshow f) (hshow f')

/-- Noon of the first of January 2024 on two chips that keep packed decimal digits.  The one with
twelve-hour hours is read as midnight. -/
theorem rtcEpoch_format_noon :
    let d : Date 1970 := ⟨2024, 1, 1, by decide, by decide, by decide, by decide, by decide⟩
    let cmos := cmosOf ⟨true, true⟩ (some 0x32) d 12 0 0
    let cmos' := cmosOf ⟨true, false⟩ (some 0x32) d 12 0 0
    ShowsTime ⟨true, true⟩ (some 0x32) d 12 0 0 cmos ∧
      ShowsTime ⟨true, false⟩ (some 0x32) d 12 0 0 cmos' ∧
      rtcEpoch (some 0x32) [cmos] = some 1704067200 ∧
      rtcEpoch (some 0x32) [cmos'] = some 1704110400 := by
  intro d cmos cmos'
  have hreg : ∀ reg, centuryIndex (some 0x32) = some reg → reg ∉ clockRegisters := by
    intro reg heq
    obtain ⟨rfl, -⟩ : 0x32 = reg ∧ reg ≠ 0 := by simpa [centuryIndex] using heq
    decide
  have hyear : HasCentury (some 0x32) d.year := by decide
  exact ⟨showsTime_cmosOf _ hyear (by decide) (by decide) (by decide) hreg,
    showsTime_cmosOf _ hyear (by decide) (by decide) (by decide) hreg, by decide, by decide⟩

end Cuore
