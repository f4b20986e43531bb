import Cuore.Framework.Word

/-!
# A beep (`multimedia/beep.c`)

`audio_beep` fills a buffer with a square wave and plays it.  The number of samples and the size of
the buffer are computed in 32 bits, and the half period by two divisions, with a value of its own
for a period of zero.  A period of one sample is not one of the cases, and its half is zero.

`audioBeep` has no result if it divides by zero.  `beepSafe_iff` says when that happens, and when
the product behind the number of samples wraps; the samples themselves are always written inside
(`audioBeep_inside`).
-/

namespace Cuore

/-! ## The function -/

/-- The fields of `kernel_audio_dev_t` that are read here. -/
structure KernelAudioDev where
  sampleRate : ℕ
  channels : ℕ
  bitDepth : ℕ

/-- What is handed to the device: the buffer, its size in bytes, and the samples in it by their
indices. -/
structure Beep where
  virt : ℕ
  bufferSize : ℕ
  samples : List (ℕ × ℤ)
  deriving DecidableEq

/-- `num_samples`. -/
def beepNumSamples (dev : KernelAudioDev) (durationMs : ℕ) : ℕ :=
  dev.sampleRate * durationMs % 2 ^ 32 / 1000

/-- `buffer_size`. -/
def beepBufferSize (dev : KernelAudioDev) (durationMs : ℕ) : ℕ :=
  wmul (beepNumSamples dev durationMs * dev.channels % 2 ^ 32) (dev.bitDepth / 8)

/-- `half_period`. -/
def beepHalfPeriod (dev : KernelAudioDev) (freq : ℕ) : ℕ :=
  let period := dev.sampleRate / freq
  if period = 0 then 1 else period / 2

/-- `sample`. -/
def beepSample (halfPeriod i : ℕ) : ℤ := if i / halfPeriod % 2 ≠ 0 then 3000 else -3000

/-- The loop over the samples, with `n` of them left from `i` on. -/
def beepLoop (halfPeriod channels : ℕ) : ℕ → ℕ → Option (List (ℕ × ℤ))
  | 0, _ => some []
  | n + 1, i =>
    if halfPeriod = 0 then none
    else (beepLoop halfPeriod channels n (i + 1)).map fun rest =>
      (List.range channels).map
        (fun c => ((i * channels + c) % 2 ^ 32, beepSample halfPeriod i)) ++ rest

/-- `audio_beep`, on a device that is not playing.  `dmalloc32` gives the address of a buffer, if
there is one.  Without a result, the function has divided by zero; otherwise it returns what it
plays, if it plays something. -/
def audioBeep (dmalloc32 : ℕ → Option ℕ) (dev : KernelAudioDev) (freq durationMs : ℕ) :
    Option (Option Beep) :=
  if freq = 0 ∨ durationMs = 0 then some none
  else
    let bufferSize := beepBufferSize dev durationMs
    match dmalloc32 bufferSize with
    | none => some none
    | some virt =>
      if dev.bitDepth = 16 then
        (beepLoop (beepHalfPeriod dev freq) dev.channels (beepNumSamples dev durationMs) 0).map
          fun samples => some ⟨virt, bufferSize, samples⟩
      else some (some ⟨virt, bufferSize, []⟩)

/-! ## Safety -/

/-- **A beep is arithmetically safe**: nothing is divided by zero, the number of samples is the one
of the duration, and every sample of 16 bits is written inside the buffer. -/
structure BeepSafe (dmalloc32 : ℕ → Option ℕ) (dev : KernelAudioDev) (freq durationMs : ℕ) :
    Prop where
  divides : audioBeep dmalloc32 dev freq durationMs ≠ none
  numSamples : beepNumSamples dev durationMs = dev.sampleRate * durationMs / 1000
  inside : ∀ b, audioBeep dmalloc32 dev freq durationMs = some (some b) →
    ∀ w ∈ b.samples, 2 * w.1 + 2 ≤ b.bufferSize

section Loop

variable {halfPeriod channels n i : ℕ} {samples : List (ℕ × ℤ)}

/-- The loop divides by zero if there is a sample at all. -/
lemma beepLoop_eq_none_iff : beepLoop halfPeriod channels n i = none ↔ halfPeriod = 0 ∧ n ≠ 0 := by
  induction n generalizing i with
  | zero => simp [beepLoop]
  | succ n ih =>
    rw [beepLoop]
    split_ifs with hzero
    · simp [hzero]
    · simp [ih, hzero]

/-- **Every sample is inside**, as long as the indices do not wrap. -/
lemma beepLoop_inside (hword : (i + n) * channels ≤ 2 ^ 32)
    (h : beepLoop halfPeriod channels n i = some samples) :
    ∀ w ∈ samples, w.1 < (i + n) * channels := by
  induction n generalizing i samples with
  | zero =>
    obtain rfl := Option.some.inj h
    exact fun w hw => absurd hw List.not_mem_nil
  | succ n ih =>
    rw [beepLoop] at h
    split_ifs at h
    obtain ⟨rest, hrest, rfl⟩ := Option.map_eq_some_iff.mp h
    have hshift : i + (n + 1) = i + 1 + n := by omega
    rw [hshift] at hword ⊢
    intro w hw
    rcases List.mem_append.mp hw with hw | hw
    · obtain ⟨c, hc, rfl⟩ := List.mem_map.mp hw
      have hc := List.mem_range.mp hc
      have hround : (i + 1) * channels ≤ (i + 1 + n) * channels :=
        Nat.mul_le_mul_right _ (Nat.le_add_right _ _)
      rw [Nat.succ_mul] at hround
      exact (Nat.mod_le _ _).trans_lt (by omega)
    · exact ih hword hrest w hw

end Loop

section Beep

variable {dmalloc32 : ℕ → Option ℕ} {dev : KernelAudioDev} {freq durationMs : ℕ}

/-- **The number of samples** is right exactly if the product does not wrap. -/
lemma beepNumSamples_eq_iff :
    beepNumSamples dev durationMs = dev.sampleRate * durationMs / 1000 ↔
      dev.sampleRate * durationMs < 2 ^ 32 := by
  rw [beepNumSamples]
  omega

/-- The half period is zero for a period of one sample. -/
lemma beepHalfPeriod_eq_zero_iff : beepHalfPeriod dev freq = 0 ↔ dev.sampleRate / freq = 1 := by
  simp only [beepHalfPeriod]
  generalize dev.sampleRate / freq = period
  split_ifs with hzero
  · simp [hzero]
  · omega

/-- The buffer has room for all samples of up to two channels. -/
lemma beepBufferSize_eq (hbits : dev.bitDepth = 16) (hchannels : dev.channels ≤ 2)
    (durationMs : ℕ) :
    beepNumSamples dev durationMs * dev.channels ≤ 2 ^ 32 ∧
      beepBufferSize dev durationMs = 2 * (beepNumSamples dev durationMs * dev.channels) := by
  have hsamples : beepNumSamples dev durationMs ≤ 2 ^ 32 / 1000 :=
    Nat.div_le_div_right (Nat.mod_lt _ (Nat.two_pow_pos 32)).le
  have hproduct := Nat.mul_le_mul hsamples hchannels
  have hword : beepNumSamples dev durationMs * dev.channels < 2 ^ 32 :=
    hproduct.trans_lt (by decide)
  rw [beepBufferSize, hbits, Nat.mod_eq_of_lt hword, wmul_of_lt (by simp only [word]; omega)]
  omega

/-- The result for a device of 16 bits that has a buffer. -/
lemma audioBeep_eq (hbits : dev.bitDepth = 16) (hfreq : 1 ≤ freq) (hduration : 1 ≤ durationMs)
    {virt : ℕ} (hdma : dmalloc32 (beepBufferSize dev durationMs) = some virt) :
    audioBeep dmalloc32 dev freq durationMs =
      (beepLoop (beepHalfPeriod dev freq) dev.channels (beepNumSamples dev durationMs) 0).map
        fun samples => some ⟨virt, beepBufferSize dev durationMs, samples⟩ := by
  rw [audioBeep, if_neg (by omega)]
  simp only [hdma]
  rw [if_pos hbits]

lemma audioBeep_ne_none_iff (hbits : dev.bitDepth = 16) (hfreq : 1 ≤ freq)
    (hduration : 1 ≤ durationMs) :
    audioBeep dmalloc32 dev freq durationMs ≠ none ↔ dev.sampleRate / freq ≠ 1 ∨
      beepNumSamples dev durationMs = 0 ∨ dmalloc32 (beepBufferSize dev durationMs) = none := by
  rcases hdma : dmalloc32 (beepBufferSize dev durationMs) with _ | virt
  · rw [audioBeep, if_neg (by omega)]
    simp [hdma]
  · rw [audioBeep_eq hbits hfreq hduration hdma, ne_eq, Option.map_eq_none_iff,
      beepLoop_eq_none_iff, beepHalfPeriod_eq_zero_iff]
    simp [imp_iff_not_or]

/-- **What is written is inside the buffer**, also if the number of samples has wrapped. -/
lemma audioBeep_inside (hbits : dev.bitDepth = 16) (hchannels : dev.channels ≤ 2)
    (hfreq : 1 ≤ freq) (hduration : 1 ≤ durationMs) {b : Beep}
    (h : audioBeep dmalloc32 dev freq durationMs = some (some b)) :
    ∀ w ∈ b.samples, 2 * w.1 + 2 ≤ b.bufferSize := by
  obtain ⟨hword, hsize⟩ := beepBufferSize_eq hbits hchannels durationMs
  rcases hdma : dmalloc32 (beepBufferSize dev durationMs) with _ | virt
  · rw [audioBeep, if_neg (by omega)] at h
    simp [hdma] at h
  · rw [audioBeep_eq hbits hfreq hduration hdma] at h
    obtain ⟨samples, hsamples, hb⟩ := Option.map_eq_some_iff.mp h
    obtain rfl := Option.some.inj hb
    intro w hw
    have hlt := beepLoop_inside (by rwa [Nat.zero_add]) hsamples w hw
    rw [Nat.zero_add] at hlt
    simp only [hsize]
    omega

end Beep

/-- **When a beep is safe.**  For every device of 16 bits with one or two channels, every sample
rate, frequency and duration, and every answer of the allocator, `audio_beep` is arithmetically safe
if and only if the product of sample rate and duration fits 32 bits, and the period is not one
sample, or the duration is shorter than a sample, or there is no buffer. -/
theorem beepSafe_iff (dmalloc32 : ℕ → Option ℕ) (dev : KernelAudioDev) (hbits : dev.bitDepth = 16)
    (hchannels : dev.channels = 1 ∨ dev.channels = 2) (freq durationMs : ℕ) (hfreq : 1 ≤ freq)
    (hduration : 1 ≤ durationMs) :
    BeepSafe dmalloc32 dev freq durationMs ↔
      dev.sampleRate * durationMs < 2 ^ 32 ∧ (dev.sampleRate / freq ≠ 1 ∨
        dev.sampleRate * durationMs < 1000 ∨
        dmalloc32 (2 * (dev.sampleRate * durationMs / 1000 * dev.channels)) = none) := by
  have hle : dev.channels ≤ 2 := by omega
  have hsize := (beepBufferSize_eq hbits hle durationMs).2
  have hdivides : audioBeep dmalloc32 dev freq durationMs ≠ none ↔ _ :=
    audioBeep_ne_none_iff hbits hfreq hduration
  rw [hsize] at hdivides
  constructor
  · intro h
    refine ⟨beepNumSamples_eq_iff.mp h.numSamples, ?_⟩
    have hcases := hdivides.mp h.divides
    rw [h.numSamples, Nat.div_eq_zero_iff_lt (by decide)] at hcases
    exact hcases
  · rintro ⟨hword, hcases⟩
    have hsamples := beepNumSamples_eq_iff.mpr hword
    rw [hsamples, Nat.div_eq_zero_iff_lt (by decide)] at hdivides
    exact ⟨hdivides.mpr hcases, hsamples, fun b hb =>
      audioBeep_inside hbits hle hfreq hduration hb⟩

/-- The beep at boot, on a device of 48 kHz. -/
theorem beepSafe_iff_boot : BeepSafe (fun _ => some 0xFFFF800000200000) ⟨48000, 2, 16⟩ 659 150 :=
  (beepSafe_iff _ ⟨48000, 2, 16⟩ rfl (Or.inr rfl) 659 150 (by decide) (by decide)).mpr (by decide)

/-- At 44.1 kHz a frequency above half the sample rate has a period of one sample, and a duration
of a day wraps. -/
theorem audioBeep_divides_by_zero :
    audioBeep (fun _ => some 0xFFFF800000200000) ⟨44100, 1, 16⟩ 30000 100 = none ∧
      beepNumSamples ⟨44100, 1, 16⟩ 86400000 ≠ 44100 * 86400000 / 1000 := by
  decide +kernel

end Cuore
