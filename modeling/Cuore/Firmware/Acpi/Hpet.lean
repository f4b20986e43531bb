import Cuore.Framework.Word

/-!
# The high precision event timer (`firmware/acpi/hpet.c`)

The timer counts ticks of a period that its capability register gives in femtoseconds, at most
`10 ^ 8` of them by its specification.  `hpet_get_nanos` and `hpet_get_ms` multiply the main counter
by the period and divide the product, which is taken on 64-bit words.

So the time since the counter was zero has to be below `2 ^ 64` femtoseconds, about five hours and
seven minutes.  `hpetExact_iff` says that the conversions are exact up to there and wrong from there
on, and `hpetConversions_iff` adds what that means between two values of the counter.
-/

namespace Cuore

/-! ## The functions -/

/-- The static variables of the driver. -/
structure Hpet where
  base : ℕ
  femtosecondsPerTick : ℕ

/-- The registers that the driver uses. -/
structure HpetRegs where
  caps : ℕ
  config : ℕ
  mainCounter : ℕ

/-- `hpet_init`, with the address of the registers from the table. -/
def hpetInit (address hhdmOffset : ℕ) (regs : HpetRegs) : Hpet × HpetRegs :=
  ({ base := wadd address hhdmOffset
     femtosecondsPerTick := (regs.caps >>> 32) % 2 ^ 32 },
   { regs with config := regs.config ||| 0x01 })

/-- `hpet_get_ticks`. -/
def hpetGetTicks (regs : HpetRegs) : ℕ := regs.mainCounter

/-- `hpet_femto_per_tick`. -/
def hpetFemtoPerTick (s : Hpet) (regs : HpetRegs) : ℕ :=
  if s.base = 0 then 0 else (regs.caps >>> 32) % 2 ^ 32

/-- `hpet_get_frequency`.  Before the timer is set up this divides by zero. -/
def hpetGetFrequency (s : Hpet) : Option ℕ :=
  if s.femtosecondsPerTick = 0 then none else some (1000000000000000 / s.femtosecondsPerTick)

/-- `hpet_get_nanos`. -/
def hpetGetNanos (s : Hpet) (regs : HpetRegs) : ℕ :=
  if s.base = 0 then 0 else wmul (hpetGetTicks regs) s.femtosecondsPerTick / 1000000

/-- `hpet_get_ms`. -/
def hpetGetMs (s : Hpet) (regs : HpetRegs) : ℕ :=
  if s.base = 0 then 0 else wmul (hpetGetTicks regs) s.femtosecondsPerTick / 1000000000000

/-- The period that `time_init` asks for is the one that `hpet_init` has stored. -/
lemma hpetFemtoPerTick_init {address hhdmOffset : ℕ} {regs : HpetRegs}
    (h : wadd address hhdmOffset ≠ 0) :
    hpetFemtoPerTick (hpetInit address hhdmOffset regs).1 (hpetInit address hhdmOffset regs).2 =
      (hpetInit address hhdmOffset regs).1.femtosecondsPerTick :=
  if_neg h

/-! ## Exactness -/

/-- The femtoseconds since the counter was zero. -/
def femtoseconds (s : Hpet) (regs : HpetRegs) : ℕ := hpetGetTicks regs * s.femtosecondsPerTick

/-- Both conversions give the whole units, where a word can hold them. -/
structure HpetExact (s : Hpet) (regs : HpetRegs) : Prop where
  nanos : femtoseconds s regs / 10 ^ 6 < word → hpetGetNanos s regs = femtoseconds s regs / 10 ^ 6
  ms : femtoseconds s regs / 10 ^ 12 < word → hpetGetMs s regs = femtoseconds s regs / 10 ^ 12

section Conversions

variable {s : Hpet} {regs : HpetRegs}

lemma hpetGetNanos_eq (h : s.base ≠ 0) :
    hpetGetNanos s regs = femtoseconds s regs % word / 10 ^ 6 := if_neg h

lemma hpetGetMs_eq (h : s.base ≠ 0) :
    hpetGetMs s regs = femtoseconds s regs % word / 10 ^ 12 := if_neg h

/-- A product that wraps loses at least one unit. -/
lemma mod_word_div_lt {n T : ℕ} (hn : 0 < n) (hword : n ≤ word) (hT : word ≤ T) :
    T % word / n < T / n := by
  have hlost : T % word + n ≤ T := by
    have hquot : 1 ≤ T / word := Nat.div_pos hT (Nat.two_pow_pos 64)
    have hsplit := Nat.mod_add_div T word
    have hle := Nat.mul_le_mul_left word hquot
    omega
  have hdiv := Nat.div_le_div_right (c := n) hlost
  rw [Nat.add_div_right _ hn] at hdiv
  omega

/-- With a period of at most `10 ^ 8`, the milliseconds always fit. -/
lemma femtoseconds_div_lt (hle : s.femtosecondsPerTick ≤ 10 ^ 8)
    (hcounter : regs.mainCounter < word) : femtoseconds s regs / 10 ^ 12 < word := by
  have hmul := Nat.mul_le_mul_left (hpetGetTicks regs) hle
  rw [femtoseconds]
  simp only [hpetGetTicks, word] at *
  omega

/-- **The conversions are exact below `2 ^ 64` femtoseconds and nowhere else.** -/
lemma hpetExact_iff (hbase : s.base ≠ 0) (hle : s.femtosecondsPerTick ≤ 10 ^ 8)
    (hcounter : regs.mainCounter < word) : HpetExact s regs ↔ femtoseconds s regs < word := by
  constructor
  · intro h
    by_contra hwrap
    have hms := h.ms (femtoseconds_div_lt hle hcounter)
    rw [hpetGetMs_eq hbase] at hms
    have hlost := mod_word_div_lt (n := 10 ^ 12) (by decide) (by decide) (not_lt.mp hwrap)
    omega
  · intro hlt
    exact ⟨fun _ => by rw [hpetGetNanos_eq hbase, Nat.mod_eq_of_lt hlt],
      fun _ => by rw [hpetGetMs_eq hbase, Nat.mod_eq_of_lt hlt]⟩

end Conversions

/-- **The conversions up to a value of the counter.**  For every period up to `10 ^ 8` femtoseconds
and every two values of the counter, the conversions are exact at both and do not decrease from the
first to the second if and only if the second comes before `2 ^ 64` femtoseconds. -/
theorem hpetConversions_iff (s : Hpet) (hbase : s.base ≠ 0)
    (hle : s.femtosecondsPerTick ≤ 10 ^ 8) (regs regs' : HpetRegs)
    (hticks : regs.mainCounter ≤ regs'.mainCounter) (hcounter : regs'.mainCounter < word) :
    (HpetExact s regs ∧ HpetExact s regs' ∧ hpetGetNanos s regs ≤ hpetGetNanos s regs' ∧
      hpetGetMs s regs ≤ hpetGetMs s regs') ↔
    regs'.mainCounter * s.femtosecondsPerTick < word := by
  have hexact : HpetExact s regs ↔ femtoseconds s regs < word :=
    hpetExact_iff hbase hle (hticks.trans_lt hcounter)
  have hexact' : HpetExact s regs' ↔ femtoseconds s regs' < word :=
    hpetExact_iff hbase hle hcounter
  have hmono : femtoseconds s regs ≤ femtoseconds s regs' := Nat.mul_le_mul_right _ hticks
  constructor
  · rintro ⟨-, h', -, -⟩
    exact hexact'.mp h'
  · intro (hlt : femtoseconds s regs' < word)
    have hlt' : femtoseconds s regs < word := hmono.trans_lt hlt
    refine ⟨hexact.mpr hlt', hexact'.mpr hlt, ?_, ?_⟩
    · rw [hpetGetNanos_eq hbase, hpetGetNanos_eq hbase, Nat.mod_eq_of_lt hlt',
        Nat.mod_eq_of_lt hlt]
      exact Nat.div_le_div_right hmono
    · rw [hpetGetMs_eq hbase, hpetGetMs_eq hbase, Nat.mod_eq_of_lt hlt', Nat.mod_eq_of_lt hlt]
      exact Nat.div_le_div_right hmono

/-- A timer of 10 MHz in its first second. -/
theorem hpetConversions_iff_second :
    let s : Hpet := ⟨0xFFFF8000FED00000, 100000000⟩
    HpetExact s ⟨0x5F5E10000000000, 1, 10000000⟩ ∧ hpetGetMs s ⟨0x5F5E10000000000, 1, 10000000⟩ =
      1000 := by
  intro s
  have h := (hpetConversions_iff s (by decide) (by decide) ⟨0x5F5E10000000000, 1, 0⟩
    ⟨0x5F5E10000000000, 1, 10000000⟩ (by decide) (by decide)).mpr (by decide)
  exact ⟨h.2.1, by decide⟩

/-- One tick of 100 nanoseconds, after which the milliseconds start again from zero. -/
theorem hpetConversions_wrap :
    let s : Hpet := ⟨0xFFFF8000FED00000, 100000000⟩
    let regs : HpetRegs := ⟨0x5F5E10000000000, 1, 184467440737⟩
    let regs' : HpetRegs := ⟨0x5F5E10000000000, 1, 184467440738⟩
    hpetGetMs s regs = 18446744 ∧ hpetGetMs s regs' = 0 ∧
      femtoseconds s regs' / 10 ^ 12 = 18446744 ∧ femtoseconds s regs' / 10 ^ 12 < word := by
  decide

end Cuore
