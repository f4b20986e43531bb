import Cuore.Firmware.Acpi.Hpet
import Cuore.Time
import Mathlib.Data.List.Pairwise

/-!
# Sleeping (`time.c`)

`time_init` divides a millisecond and a microsecond by the period of the timer, and `msleep` and
`usleep` wait until the main counter has advanced by the quotient times the request.

The counter is a 64-bit register.  Here it is read at counts that never decrease and have no bound,
so that a register which wraps during the wait is one of the cases.  `sleepTicks_le` says that the
counter has really advanced by the ticks that were asked for.  They are too few when the period
does not divide the unit: the quotient is rounded down before it is multiplied.  `sleeps_not_short`
is the equivalence.
-/

namespace Cuore

/-! ## The functions -/

/-- The static variables of `time.c`. -/
structure TimeState where
  bootEpoch : ℕ
  bootHpetTicks : ℕ
  hpetTicksPerMs : ℕ
  hpetTicksPerUs : ℕ

/-- `time_init`, with the readings of the clock.  A period of zero is divided by. -/
def timeInit (s : Hpet) (regs : HpetRegs) (readings : List (RtcTime × RtcTime)) :
    Option TimeState :=
  let fPerTick := hpetFemtoPerTick s regs
  if fPerTick = 0 then none
  else (getEpochRtc readings).map fun epoch =>
    { bootEpoch := epoch
      bootHpetTicks := hpetGetTicks regs
      hpetTicksPerMs := 1000000000000 / fPerTick
      hpetTicksPerUs := 1000000000 / fPerTick }

/-- The loop of `msleep` and `usleep`, with the counts at which it reads the register.  The result
is the count at which it ends. -/
def sleepLoop (totalTicks start : ℕ) : List ℕ → Option ℕ
  | [] => none
  | count :: counts =>
    if wsub (count % word) start < totalTicks then sleepLoop totalTicks start counts else some count

/-- `msleep` and `usleep` behind the product, with the counts at which they read the register.  The
result is by how much the counter has advanced. -/
def sleepTicks (totalTicks : ℕ) : List ℕ → Option ℕ
  | [] => none
  | first :: counts => (sleepLoop totalTicks (first % word) counts).map fun last => last - first

/-- `msleep`. -/
def msleep (t : TimeState) (ms : ℕ) (counts : List ℕ) : Option ℕ :=
  sleepTicks (wmul ms t.hpetTicksPerMs) counts

/-- `usleep`. -/
def usleep (t : TimeState) (us : ℕ) (counts : List ℕ) : Option ℕ :=
  sleepTicks (wmul us t.hpetTicksPerUs) counts

/-! ## The wait -/

section Wait

variable {totalTicks start d : ℕ} {counts : List ℕ}

/-- The difference of two readings is the one of the counts, up to whole turns of the register. -/
lemma wsub_mod_word {first count : ℕ} (h : first ≤ count) :
    wsub (count % word) (first % word) = (count - first) % word := by
  simp only [wsub, word]
  omega

lemma sleepLoop_le {first last : ℕ} (hle : ∀ c ∈ counts, first ≤ c)
    (h : sleepLoop totalTicks (first % word) counts = some last) :
    totalTicks ≤ last - first := by
  induction counts with
  | nil => cases h
  | cons count counts ih =>
    obtain ⟨hcount, htail⟩ := List.forall_mem_cons.1 hle
    rw [sleepLoop, wsub_mod_word hcount] at h
    split_ifs at h with hlt
    · exact ih htail h
    · obtain rfl := Option.some.inj h
      exact (not_lt.mp hlt).trans (Nat.mod_le _ _)

/-- **A wait is as long as the ticks asked for.** -/
lemma sleepTicks_le (hsorted : (start :: counts).Pairwise (· ≤ ·))
    (h : sleepTicks totalTicks (start :: counts) = some d) : totalTicks ≤ d := by
  obtain ⟨last, hlast, rfl⟩ := Option.map_eq_some_iff.mp h
  exact sleepLoop_le (List.pairwise_cons.mp hsorted).1 hlast

/-- A wait that is not longer than that. -/
lemma sleepTicks_exact (hlt : totalTicks < word) :
    sleepTicks totalTicks [start, start + totalTicks] = some totalTicks := by
  have hdiff : wsub ((start + totalTicks) % word) (start % word) = totalTicks := by
    rw [wsub_mod_word (Nat.le_add_right _ _), Nat.add_sub_cancel_left, Nat.mod_eq_of_lt hlt]
  rw [sleepTicks, sleepLoop, hdiff, if_neg (lt_irrefl _), Option.map_some,
    Nat.add_sub_cancel_left]

end Wait

/-! ## The ticks of a request -/

section Requests

variable {unit f amount start : ℕ}

/-- Rounding the ticks of a unit down costs nothing when the period divides it. -/
lemma le_mul_div_mul_iff :
    amount * unit ≤ amount * (unit / f) * f ↔ amount = 0 ∨ f ∣ unit := by
  rw [Nat.mul_assoc]
  rcases Nat.eq_zero_or_pos amount with rfl | hpos
  · simp
  · rw [Nat.mul_le_mul_left_iff hpos]
    have hround := Nat.div_mul_le_self unit f
    constructor
    · intro h
      exact Or.inr (Dvd.intro_left (unit / f) (le_antisymm hround h))
    · rintro (h | h)
      · omega
      · rw [Nat.div_mul_cancel h]

lemma mul_div_lt_word (hlt : amount * unit < word) : amount * (unit / f) < word :=
  (Nat.mul_le_mul_left amount (Nat.div_le_self unit f)).trans_lt hlt

/-- **When a wait is never short**, for a unit of `unit` femtoseconds and a period of `f`. -/
lemma sleepTicks_not_short_iff (hlt : amount * unit < word) :
    (∀ later d, (start :: later).Pairwise (· ≤ ·) →
      sleepTicks (wmul amount (unit / f)) (start :: later) = some d → amount * unit ≤ d * f) ↔
    amount = 0 ∨ f ∣ unit := by
  have htotal := mul_div_lt_word (f := f) hlt
  rw [wmul_of_lt htotal, ← le_mul_div_mul_iff]
  constructor
  · intro h
    exact h _ _ (by simp) (sleepTicks_exact htotal)
  · intro h later d hsorted hd
    exact h.trans (Nat.mul_le_mul_right f (sleepTicks_le hsorted hd))

end Requests

/-- The rates that `time_init` stores. -/
lemma timeInit_eq_some {s : Hpet} {regs : HpetRegs} {readings : List (RtcTime × RtcTime)}
    {t : TimeState} (h : timeInit s regs readings = some t) :
    t.hpetTicksPerMs = 10 ^ 12 / hpetFemtoPerTick s regs ∧
      t.hpetTicksPerUs = 10 ^ 9 / hpetFemtoPerTick s regs := by
  simp only [timeInit] at h
  split_ifs at h
  obtain ⟨epoch, -, rfl⟩ := Option.map_eq_some_iff.mp h
  exact ⟨rfl, rfl⟩

/-- **Sleeps are long enough exactly where the period divides the unit.**  For every period, every
request whose femtoseconds fit a word and every count at which the wait begins, all waits last at
least as long as the request if and only if the request is zero or the period of the timer divides
the microsecond (for `usleep`) or the millisecond (for `msleep`). -/
theorem sleeps_not_short {s : Hpet} {regs : HpetRegs} {readings : List (RtcTime × RtcTime)}
    {t : TimeState} (hinit : timeInit s regs readings = some t) (start : ℕ) :
    let f := hpetFemtoPerTick s regs
    (∀ us, us * 10 ^ 9 < word →
      ((∀ later d, (start :: later).Pairwise (· ≤ ·) → usleep t us (start :: later) = some d →
        us * 10 ^ 9 ≤ d * f) ↔ us = 0 ∨ f ∣ 10 ^ 9)) ∧
    ∀ ms, ms * 10 ^ 12 < word →
      ((∀ later d, (start :: later).Pairwise (· ≤ ·) → msleep t ms (start :: later) = some d →
        ms * 10 ^ 12 ≤ d * f) ↔ ms = 0 ∨ f ∣ 10 ^ 12) := by
  intro f
  obtain ⟨hms, hus⟩ := timeInit_eq_some hinit
  simp only [usleep, msleep, hms, hus]
  exact ⟨fun us hlt => sleepTicks_not_short_iff hlt, fun ms hlt => sleepTicks_not_short_iff hlt⟩

/-- On a timer of 10 MHz a microsecond is ten ticks, also where the register wraps. -/
theorem sleeps_not_short_wrapping :
    let s : Hpet := ⟨0xFFFF8000FED00000, 100000000⟩
    let regs : HpetRegs := ⟨0x5F5E10000000000, 1, 0⟩
    let t1 : RtcTime := ⟨0, 0, 0, 1, 1, 2024⟩
    ∃ t d, timeInit s regs [(t1, t1)] = some t ∧
      usleep t 25 [2 ^ 64 - 1, 2 ^ 64 + 100, 2 ^ 64 + 300] = some d ∧
        25 * 10 ^ 9 ≤ d * 100000000 := by
  intro s regs t1
  have hf : hpetFemtoPerTick s regs = 100000000 := by decide
  obtain ⟨d, hd⟩ : ∃ d, (timeInit s regs [(t1, t1)]).bind
      (fun t => usleep t 25 [2 ^ 64 - 1, 2 ^ 64 + 100, 2 ^ 64 + 300]) = some d :=
    Option.isSome_iff_exists.mp (by decide +kernel)
  obtain ⟨t, ht, hd⟩ := Option.bind_eq_some_iff.mp hd
  have hnever := (sleeps_not_short ht (2 ^ 64 - 1)).1 25 (by decide)
  rw [hf] at hnever
  exact ⟨t, d, ht, hd, hnever.mpr (Or.inr (by decide)) _ d (by decide) hd⟩

/-- On a timer of 14.318180 MHz a microsecond is 14 ticks and a bit.  A request of a second ends
after 14 million ticks, 22 milliseconds early. -/
theorem usleep_short :
    let s : Hpet := ⟨0xFFFF8000FED00000, 69841279⟩
    let regs : HpetRegs := ⟨0x429B17F00000000, 1, 5⟩
    let t1 : RtcTime := ⟨0, 0, 0, 1, 1, 2024⟩
    ∃ t, timeInit s regs [(t1, t1)] = some t ∧ hpetFemtoPerTick s regs = 69841279 ∧
      usleep t 1000000 [6, 14000005, 14000006] = some 14000000 ∧
      14000000 * 69841279 < 1000000 * 10 ^ 9 ∧ 1000000 * 10 ^ 9 < word := by
  intro s regs t1
  obtain ⟨t, ht⟩ := Option.isSome_iff_exists.mp
    (by decide +kernel : (timeInit s regs [(t1, t1)]).isSome)
  have hf : hpetFemtoPerTick s regs = 69841279 := by decide
  have hrate := (timeInit_eq_some ht).2
  rw [hf] at hrate
  refine ⟨t, ht, hf, ?_, by decide, by decide⟩
  rw [usleep, hrate]
  decide

end Cuore
