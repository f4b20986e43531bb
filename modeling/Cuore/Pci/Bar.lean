import Cuore.Framework.Word
import Mathlib.Logic.Function.Basic

/-!
# Base address registers (`pci/pci.c`)

A base address register gives the address of a window of the device, and its low bits are hardwired.
`pci_get_bar` finds the size of the window by writing ones and reading back which of the bits have
kept them.

`PciFunction` is the configuration space of a function: each register has a value and a mask of the
bits that can be written.  `HasBars` says that the registers from the first one on are those of a
sequence of windows.  Whatever they are, they are restored (`pciGetBar_snd`), and the windows are
decoded as they are, except where the upper half of a register of ports is hardwired: these bits are
counted into the size.  `pciGetBar_iff` puts this together.
-/

namespace Cuore

/-! ## Configuration space -/

/-- A register with a mask of its writable bits after a write. -/
def writeMasked (mask old data : ℕ) : ℕ := (old &&& (0xFFFFFFFF ^^^ mask)) ||| (data &&& mask)

/-- The registers of a function by their offsets, and the masks of the bits that can be written. -/
@[ext] structure PciFunction where
  val : ℕ → ℕ
  mask : ℕ → ℕ
  val_lt : ∀ offset, val offset < 2 ^ 32
  mask_lt : ∀ offset, mask offset < 2 ^ 32

/-- `pci_read`. -/
def pciRead (f : PciFunction) (offset : ℕ) : ℕ := f.val offset

lemma writeMasked_lt {mask old data : ℕ} (hmask : mask < 2 ^ 32) (hold : old < 2 ^ 32) :
    writeMasked mask old data < 2 ^ 32 :=
  Nat.or_lt_two_pow (Nat.and_le_left.trans_lt hold) (Nat.and_le_right.trans_lt hmask)

/-- `pci_write`. -/
def pciWrite (f : PciFunction) (offset data : ℕ) : PciFunction where
  val := Function.update f.val offset (writeMasked (f.mask offset) (f.val offset) data)
  mask := f.mask
  val_lt := by
    intro o
    rw [Function.update_apply]
    split_ifs
    · exact writeMasked_lt (f.mask_lt offset) (f.val_lt offset)
    · exact f.val_lt o
  mask_lt := f.mask_lt

/-! ## The function -/

/-- `pci_bar_t`. -/
structure PciBar where
  base : ℕ
  size : ℕ
  isIo : Bool
  deriving DecidableEq

/-- `~v + 1` on 32-bit words. -/
def negate32 (v : ℕ) : ℕ := (0xFFFFFFFF - v + 1) % 2 ^ 32

/-- `pci_get_bar`. -/
def pciGetBar (f : PciFunction) (barIndex : ℕ) : PciBar × PciFunction :=
  let offset := 0x10 + barIndex * 4
  let low := pciRead f offset
  if low = 0 then (⟨0, 0, false⟩, f)
  else
    let f := pciWrite f offset 0xFFFFFFFF
    let readback := pciRead f offset
    let f := pciWrite f offset low
    if low &&& 0x1 ≠ 0 then
      ({ base := low &&& 0xFFFFFFFC, size := negate32 (readback &&& 0xFFFFFFFC), isIo := true }, f)
    else if low &&& 0x6 = 0x4 then
      let high := pciRead f (offset + 4)
      let f := pciWrite f (offset + 4) 0xFFFFFFFF
      let readbackHigh := pciRead f (offset + 4)
      let f := pciWrite f (offset + 4) high
      let combinedReadback := readbackHigh <<< 32 ||| (readback &&& 0xFFFFFFF0)
      ({ base := (low &&& 0xFFFFFFF0) ||| high <<< 32
         size := wadd (wnot combinedReadback) 1
         isIo := false }, f)
    else
      ({ base := low &&& 0xFFFFFFF0, size := negate32 (readback &&& 0xFFFFFFF0), isIo := false }, f)

/-- The loop of `pci_init` over the registers from `b` on, with the array it fills. -/
def pciBarLoop : ℕ → ℕ → (ℕ → PciBar) → PciFunction → (ℕ → PciBar) × PciFunction
  | 0, _, bars, f => (bars, f)
  | fuel + 1, b, bars, f =>
    if b < 6 then
      let (bar, f) := pciGetBar f b
      let bars := Function.update bars b bar
      -- handle 64 bit BARs
      let raw := pciRead f (0x10 + b * 4)
      let b := if raw &&& 0x1 = 0 ∧ raw &&& 0x6 = 0x4 then b + 1 else b
      pciBarLoop fuel (b + 1) bars f
    else (bars, f)

/-! ## Windows -/

/-- The kinds of windows.  The upper half of the address of ports may be hardwired. -/
inductive PciBarKind where
  | mem32
  | mem64
  | io (hardwired : Bool)
  deriving DecidableEq

/-- The bits of an address of this kind that are not hardwired by the kind. -/
def PciBarKind.width : PciBarKind → ℕ
  | mem32 => 32
  | mem64 => 64
  | io hardwired => if hardwired then 16 else 32

/-- The low bits of the register that are not part of the address. -/
def PciBarKind.lowBits : PciBarKind → ℕ
  | mem32 | mem64 => 4
  | io _ => 2

/-- A window with an address: of a power of two of bytes or ports, and aligned to its size. -/
structure AssignedBar where
  kind : PciBarKind
  prefetchable : Bool
  log2Size : ℕ
  base : ℕ
  base_pos : 0 < base
  base_lt : base < 2 ^ kind.width
  aligned : 2 ^ log2Size ∣ base
  lowBits_le : kind.lowBits ≤ log2Size

namespace AssignedBar

/-- A window of ports. -/
def isIo (b : AssignedBar) : Bool :=
  match b.kind with
  | .io _ => true
  | _ => false

/-- The low bits of the register. -/
def flags (b : AssignedBar) : ℕ :=
  match b.kind with
  | .mem32 => if b.prefetchable then 0x8 else 0x0
  | .mem64 => if b.prefetchable then 0xC else 0x4
  | .io _ => 0x1

/-- The number of registers. -/
def slots (b : AssignedBar) : ℕ := if b.kind = .mem64 then 2 else 1

/-- The registers at `i` are those of a window. -/
structure At (b : AssignedBar) (f : PciFunction) (i : ℕ) : Prop where
  val : f.val (0x10 + i * 4) = b.base % 2 ^ 32 + b.flags
  mask : f.mask (0x10 + i * 4) = bitsMask (min b.log2Size 32) (min b.kind.width 32)
  valHigh : b.kind = .mem64 → f.val (0x10 + i * 4 + 4) = b.base / 2 ^ 32
  maskHigh : b.kind = .mem64 → f.mask (0x10 + i * 4 + 4) = bitsMask (b.log2Size - 32) 32

end AssignedBar

/-- The windows of a function, one behind the other from register `i` on. -/
def PciFunction.HasBars (f : PciFunction) : ℕ → List AssignedBar → Prop
  | _, [] => True
  | i, b :: bars => b.At f i ∧ f.HasBars (i + b.slots) bars

/-- The number of registers of a sequence of windows. -/
def barSlots (bars : List AssignedBar) : ℕ := (bars.map AssignedBar.slots).sum

/-! ## Registers are restored -/

section Registers

variable {mask old data x : ℕ} {f : PciFunction} {offset i k n r : ℕ}

lemma testBit_ones32 : (0xFFFFFFFF : ℕ).testBit i = decide (i < 32) :=
  Nat.testBit_two_pow_sub_one 32 i

/-- Bit by bit, a write takes the new value where the mask allows it. -/
lemma testBit_writeMasked (hold : old < 2 ^ 32) :
    (writeMasked mask old data).testBit i =
      if mask.testBit i then data.testBit i else old.testBit i := by
  rw [writeMasked, Nat.testBit_or, Nat.testBit_and, Nat.testBit_and, Nat.testBit_xor,
    testBit_ones32]
  by_cases hi : i < 32
  · cases mask.testBit i <;> simp [hi]
  · have hbit : old.testBit i = false := Nat.testBit_lt_two_pow
      (hold.trans_le (Nat.pow_le_pow_right (by decide) (not_lt.mp hi)))
    cases mask.testBit i <;> simp [hbit]

/-- Writing back what was there restores it. -/
lemma writeMasked_restore (hmask : mask < 2 ^ 32) (hold : old < 2 ^ 32) :
    writeMasked mask (writeMasked mask old data) old = old := by
  apply Nat.eq_of_testBit_eq
  intro i
  rw [testBit_writeMasked (writeMasked_lt hmask hold), testBit_writeMasked hold]
  split_ifs <;> rfl

lemma pciRead_pciWrite : pciRead (pciWrite f offset data) offset =
    writeMasked (f.mask offset) (pciRead f offset) data :=
  Function.update_self ..

lemma pciWrite_restore : pciWrite (pciWrite f offset data) offset (pciRead f offset) = f := by
  apply PciFunction.ext
  · funext o
    simp only [pciWrite, pciRead, Function.update_apply]
    by_cases ho : o = offset
    · rw [if_pos ho, if_pos trivial, ho]
      exact writeMasked_restore (f.mask_lt offset) (f.val_lt offset)
    · rw [if_neg ho, if_neg ho]
  · rfl

/-- **Every register is restored**, whatever its bits are. -/
lemma pciGetBar_snd (f : PciFunction) (barIndex : ℕ) : (pciGetBar f barIndex).2 = f := by
  simp only [pciGetBar, pciWrite_restore]
  split_ifs <;> rfl

/-! ## Masks -/

/-- **Writing ones** to the register of an aligned address sets the bits of the mask and leaves the
low bits. -/
lemma writeMasked_ones (hk : k ≤ n) (hn : n ≤ 32) (hx : 2 ^ k ∣ x) (hlt : x < 2 ^ n)
    (hr : r < 2 ^ k) : writeMasked (bitsMask k n) (x + r) 0xFFFFFFFF = bitsMask k n + r := by
  have hold : x + r < 2 ^ 32 :=
    (add_lt_two_pow_of_dvd hk hx hlt hr).trans_le (Nat.pow_le_pow_right (by decide) hn)
  obtain ⟨q, rfl⟩ := hx
  apply Nat.eq_of_testBit_eq
  intro i
  rw [testBit_writeMasked hold, testBit_bitsMask hk, bitsMask_eq hk,
    Nat.testBit_two_pow_mul_add _ hr, Nat.testBit_two_pow_mul_add _ hr, testBit_ones32,
    Nat.testBit_two_pow_sub_one]
  by_cases hlow : i < k
  · have hout : ¬(k ≤ i ∧ i < n) := by omega
    simp [hlow, hout]
  · by_cases hi : i < n
    · have hin : k ≤ i ∧ i < n := by omega
      have hword : i < 32 := by omega
      have hdiff : i - k < n - k := by omega
      simp [hlow, hin, hword, hdiff]
    · have hbit : (2 ^ k * q).testBit i = false := Nat.testBit_lt_two_pow
        (hlt.trans_le (Nat.pow_le_pow_right (by decide) (not_lt.mp hi)))
      rw [Nat.testBit_two_pow_mul, decide_eq_true (not_lt.mp hlow), Bool.true_and] at hbit
      have hout : ¬(k ≤ i ∧ i < n) := by omega
      have hdiff : ¬i - k < n - k := by omega
      simp [hlow, hout, hdiff, hbit]

/-- Only the low bits of a number matter below them. -/
lemma add_and_of_lt (hx : 2 ^ k ∣ x) (hr : r < 2 ^ k) (hmask : mask < 2 ^ k) :
    (x + r) &&& mask = r &&& mask := by
  obtain ⟨q, rfl⟩ := hx
  have hlt : (2 ^ k * q + r) &&& mask < 2 ^ k := Nat.and_le_right.trans_lt hmask
  rw [← Nat.mod_eq_of_lt hlt, Nat.and_mod_two_pow, Nat.mul_add_mod, Nat.mod_eq_of_lt hr,
    Nat.mod_eq_of_lt hmask]

end Registers

/-! ## Windows are decoded -/

lemma negate32_bitsMask {k n : ℕ} (hk : k < n) (hn : n ≤ 32) :
    negate32 (bitsMask k n) = 2 ^ 32 - 2 ^ n + 2 ^ k := by
  have hlt : 2 ^ k < 2 ^ n := Nat.pow_lt_pow_right (by decide) hk
  have hle : 2 ^ n ≤ 2 ^ 32 := Nat.pow_le_pow_right (by decide) hn
  have hpos : 0 < 2 ^ k := Nat.two_pow_pos k
  rw [negate32, bitsMask]
  omega

/-- The result of `pci_get_bar`, by what the register and the one behind it hold and can hold. -/
lemma pciGetBar_fst {f : PciFunction} {i low rb : ℕ} (hlow : f.val (0x10 + i * 4) = low)
    (hrb : writeMasked (f.mask (0x10 + i * 4)) low 0xFFFFFFFF = rb) (hne : low ≠ 0) :
    (pciGetBar f i).1 =
      if low &&& 0x1 ≠ 0 then ⟨low &&& 0xFFFFFFFC, negate32 (rb &&& 0xFFFFFFFC), true⟩
      else if low &&& 0x6 = 0x4 then
        let high := f.val (0x10 + i * 4 + 4)
        let rbHigh := writeMasked (f.mask (0x10 + i * 4 + 4)) high 0xFFFFFFFF
        ⟨(low &&& 0xFFFFFFF0) ||| high <<< 32,
          wadd (wnot (rbHigh <<< 32 ||| (rb &&& 0xFFFFFFF0))) 1, false⟩
      else ⟨low &&& 0xFFFFFFF0, negate32 (rb &&& 0xFFFFFFF0), false⟩ := by
  subst hlow hrb
  have hread : pciRead f (0x10 + i * 4) ≠ 0 := hne
  simp only [pciGetBar, pciWrite_restore, pciRead_pciWrite]
  rw [if_neg hread, apply_ite Prod.fst, apply_ite Prod.fst]
  rfl

namespace AssignedBar

variable {b : AssignedBar} {f : PciFunction} {i : ℕ}

lemma log2Size_lt (b : AssignedBar) : b.log2Size < b.kind.width := by
  have hle := Nat.le_of_dvd b.base_pos b.aligned
  exact (Nat.pow_lt_pow_iff_right (by decide)).mp (hle.trans_lt b.base_lt)

lemma flags_lt (b : AssignedBar) : b.flags < 2 ^ b.kind.lowBits := by
  rw [flags]
  cases b.kind with
  | mem32 => cases b.prefetchable <;> decide
  | mem64 => cases b.prefetchable <;> decide
  | io hardwired => exact (by decide : 1 < 2 ^ 2)

lemma lowBits_le_32 (b : AssignedBar) : b.kind.lowBits ≤ 32 := by
  cases b.kind with
  | mem32 | mem64 => decide
  | io hardwired => exact (by decide : 2 ≤ 32)

/-- The low half of the address keeps the alignment, up to its own width. -/
lemma dvd_low (b : AssignedBar) : 2 ^ min b.log2Size 32 ∣ b.base % 2 ^ 32 :=
  (Nat.dvd_mod_iff (Nat.pow_dvd_pow 2 (min_le_right _ _))).mpr
    ((Nat.pow_dvd_pow 2 (min_le_left _ _)).trans b.aligned)

lemma low_lt (b : AssignedBar) : b.base % 2 ^ 32 < 2 ^ min b.kind.width 32 := by
  rcases min_choice b.kind.width 32 with hmin | hmin
  · rw [hmin]
    exact (Nat.mod_le _ _).trans_lt b.base_lt
  · rw [hmin]
    exact Nat.mod_lt _ (Nat.two_pow_pos 32)

/-- **The low register** with ones written to it. -/
lemma readback_eq (b : AssignedBar) :
    writeMasked (bitsMask (min b.log2Size 32) (min b.kind.width 32)) (b.base % 2 ^ 32 + b.flags)
      0xFFFFFFFF = bitsMask (min b.log2Size 32) (min b.kind.width 32) + b.flags := by
  have hle := b.log2Size_lt
  have hflags : b.flags < 2 ^ min b.log2Size 32 :=
    b.flags_lt.trans_le (Nat.pow_le_pow_right (by decide) (le_min b.lowBits_le b.lowBits_le_32))
  exact writeMasked_ones (by omega) (min_le_right _ _) b.dvd_low b.low_lt hflags

/-- What is aligned to the window is aligned to the low bits of the register. -/
lemma dvd_of_dvd {x : ℕ} (b : AssignedBar) (h : 2 ^ min b.log2Size 32 ∣ x) :
    2 ^ b.kind.lowBits ∣ x :=
  (Nat.pow_dvd_pow 2 (le_min b.lowBits_le b.lowBits_le_32)).trans h

/-- Without its low bits, the register of an aligned address is the address. -/
lemma and_lowBits {x : ℕ} (b : AssignedBar) (h : 2 ^ min b.log2Size 32 ∣ x) (hlt : x < 2 ^ 32) :
    (x + b.flags) &&& bitsMask b.kind.lowBits 32 = x := by
  have hdvd := b.dvd_of_dvd h
  rw [and_bitsMask b.lowBits_le_32 (add_lt_two_pow_of_dvd b.lowBits_le_32 hdvd hlt b.flags_lt),
    alignDown_add_of_lt hdvd b.flags_lt]

lemma low_and (b : AssignedBar) :
    (b.base % 2 ^ 32 + b.flags) &&& bitsMask b.kind.lowBits 32 = b.base % 2 ^ 32 :=
  b.and_lowBits b.dvd_low (Nat.mod_lt _ (Nat.two_pow_pos 32))

/-- And what is read back is the mask. -/
lemma readback_and (b : AssignedBar) :
    (bitsMask (min b.log2Size 32) (min b.kind.width 32) + b.flags) &&&
      bitsMask b.kind.lowBits 32 = bitsMask (min b.log2Size 32) (min b.kind.width 32) := by
  have hle := b.log2Size_lt
  have hpos : 0 < 2 ^ min b.log2Size 32 := Nat.two_pow_pos _
  have hword : 2 ^ min b.kind.width 32 ≤ 2 ^ 32 :=
    Nat.pow_le_pow_right (by decide) (min_le_right _ _)
  apply b.and_lowBits
  · rw [bitsMask_eq (by omega)]
    exact Nat.dvd_mul_right _ _
  · rw [bitsMask]
    omega

lemma flag_and {m : ℕ} (hm : m < 2 ^ b.kind.lowBits) :
    (b.base % 2 ^ 32 + b.flags) &&& m = b.flags &&& m :=
  add_and_of_lt (b.dvd_of_dvd b.dvd_low) b.flags_lt hm

/-- The low register of a window is not zero. -/
lemma low_ne_zero (b : AssignedBar) : b.base % 2 ^ 32 + b.flags ≠ 0 := by
  have hpos := b.base_pos
  have hlt := b.base_lt
  cases hkind : b.kind with
  | mem32 =>
    rw [hkind, PciBarKind.width] at hlt
    rw [Nat.mod_eq_of_lt hlt]
    omega
  | mem64 =>
    rw [flags, hkind]
    cases b.prefetchable <;> simp
  | io hardwired =>
    rw [flags, hkind]
    exact Nat.succ_ne_zero _

lemma At.readback (h : b.At f i) :
    writeMasked (f.mask (0x10 + i * 4)) (b.base % 2 ^ 32 + b.flags) 0xFFFFFFFF =
      bitsMask (min b.log2Size 32) (min b.kind.width 32) + b.flags := by
  rw [h.mask]
  exact b.readback_eq

/-- An address of at most 32 bits is in the low register. -/
lemma base_mod (hwidth : b.kind.width ≤ 32) : b.base % 2 ^ 32 = b.base :=
  Nat.mod_eq_of_lt (b.base_lt.trans_le (Nat.pow_le_pow_right (by decide) hwidth))

/-- The size that is computed from the low register alone. -/
lemma negate32_readback (hwidth : b.kind.width ≤ 32) :
    negate32 (bitsMask (min b.log2Size 32) (min b.kind.width 32)) =
      2 ^ 32 - 2 ^ b.kind.width + 2 ^ b.log2Size := by
  have hle := b.log2Size_lt
  rw [min_eq_left hwidth, min_eq_left (by omega), negate32_bitsMask hle hwidth]

/-- **A window of ports.**  Its size includes the bits that are hardwired. -/
lemma At.io (h : b.At f i) {hardwired : Bool} (hkind : b.kind = .io hardwired) :
    (pciGetBar f i).1 = ⟨b.base, 2 ^ 32 - 2 ^ b.kind.width + 2 ^ b.log2Size, true⟩ := by
  have hbits : b.kind.lowBits = 2 := by rw [hkind, PciBarKind.lowBits]
  have hwidth : b.kind.width ≤ 32 := by
    rw [hkind]
    cases hardwired <;> decide
  have hflags : b.flags = 0x1 := by rw [flags, hkind]
  have hio : (b.base % 2 ^ 32 + b.flags) &&& 0x1 ≠ 0 := by
    rw [flag_and (by rw [hbits]; decide), hflags]
    decide
  have hlow := b.low_and
  have hrb := b.readback_and
  rw [hbits, show bitsMask 2 32 = 0xFFFFFFFC from rfl] at hlow hrb
  rw [pciGetBar_fst h.val h.readback b.low_ne_zero, if_pos hio, hlow, hrb, base_mod hwidth,
    negate32_readback hwidth]

/-- The low bits of a window of memory do not say that it is one of ports. -/
lemma not_io (hbits : b.kind.lowBits = 4) (hflags : b.flags &&& 0x1 = 0) :
    ¬(b.base % 2 ^ 32 + b.flags) &&& 0x1 ≠ 0 := by
  rw [flag_and (by rw [hbits]; decide), hflags]
  exact not_not_intro rfl

/-- **A window of memory with an address of 32 bits.** -/
lemma At.mem32 (h : b.At f i) (hkind : b.kind = .mem32) :
    (pciGetBar f i).1 = ⟨b.base, 2 ^ b.log2Size, false⟩ := by
  have hbits : b.kind.lowBits = 4 := by rw [hkind, PciBarKind.lowBits]
  have hwidth : b.kind.width = 32 := by rw [hkind, PciBarKind.width]
  have hflags : b.flags &&& 0x1 = 0 ∧ b.flags &&& 0x6 ≠ 0x4 := by
    rw [flags, hkind]
    cases b.prefetchable <;> decide
  have htype : ¬(b.base % 2 ^ 32 + b.flags) &&& 0x6 = 0x4 := by
    rw [flag_and (by rw [hbits]; decide)]
    exact hflags.2
  have hlow := b.low_and
  have hrb := b.readback_and
  rw [hbits, show bitsMask 4 32 = 0xFFFFFFF0 from rfl] at hlow hrb
  rw [pciGetBar_fst h.val h.readback b.low_ne_zero, if_neg (not_io hbits hflags.1), if_neg htype,
    hlow, hrb, base_mod hwidth.le, negate32_readback hwidth.le, hwidth, Nat.sub_self, Nat.zero_add]

/-- The high half of an address of 64 bits keeps what is left of the alignment. -/
lemma dvd_high (b : AssignedBar) : 2 ^ (b.log2Size - 32) ∣ b.base / 2 ^ 32 := by
  rcases le_or_gt 32 b.log2Size with hle | hlt
  · rw [Nat.dvd_div_iff_mul_dvd, ← Nat.pow_add, Nat.add_sub_cancel' hle]
    · exact b.aligned
    · exact (Nat.pow_dvd_pow 2 hle).trans b.aligned
  · rw [Nat.sub_eq_zero_of_le hlt.le]
    exact one_dvd _

/-- **The high register** with ones written to it. -/
lemma At.readbackHigh (h : b.At f i) (hkind : b.kind = .mem64) :
    writeMasked (f.mask (0x10 + i * 4 + 4)) (f.val (0x10 + i * 4 + 4)) 0xFFFFFFFF =
      bitsMask (b.log2Size - 32) 32 := by
  have hle := b.log2Size_lt
  have hlt := b.base_lt
  rw [hkind, PciBarKind.width] at hle hlt
  have hones := writeMasked_ones (k := b.log2Size - 32) (n := 32) (r := 0) (by omega) le_rfl
    b.dvd_high (by omega) (Nat.two_pow_pos _)
  rwa [h.maskHigh hkind, h.valHigh hkind]

/-- The two masks together. -/
lemma bitsMask_halves (k : ℕ) :
    bitsMask (k - 32) 32 * 2 ^ 32 + bitsMask (min k 32) 32 = 2 ^ 64 - 2 ^ k := by
  rcases le_or_gt 32 k with hle | hlt
  · have hpow : 2 ^ (k - 32) * 2 ^ 32 = 2 ^ k := by rw [← Nat.pow_add, Nat.sub_add_cancel hle]
    rw [min_eq_right hle, bitsMask, bitsMask, Nat.sub_mul, hpow]
    omega
  · have hpow : 2 ^ k ≤ 2 ^ 32 := Nat.pow_le_pow_right (by decide) hlt.le
    rw [Nat.sub_eq_zero_of_le hlt.le, min_eq_left hlt.le, bitsMask, bitsMask]
    omega

/-- **A window of memory with an address of 64 bits.** -/
lemma At.mem64 (h : b.At f i) (hkind : b.kind = .mem64) :
    (pciGetBar f i).1 = ⟨b.base, 2 ^ b.log2Size, false⟩ := by
  have hbits : b.kind.lowBits = 4 := by rw [hkind, PciBarKind.lowBits]
  have hwidth : b.kind.width = 64 := by rw [hkind, PciBarKind.width]
  have hflags : b.flags &&& 0x1 = 0 ∧ b.flags &&& 0x6 = 0x4 := by
    rw [flags, hkind]
    cases b.prefetchable <;> decide
  have htype : (b.base % 2 ^ 32 + b.flags) &&& 0x6 = 0x4 := by
    rw [flag_and (by rw [hbits]; decide)]
    exact hflags.2
  have hlow := b.low_and
  have hrb := b.readback_and
  rw [hbits, show bitsMask 4 32 = 0xFFFFFFF0 from rfl] at hlow hrb
  rw [pciGetBar_fst h.val h.readback b.low_ne_zero, if_neg (not_io hbits hflags.1), if_pos htype]
  have hrbHigh := h.readbackHigh hkind
  rw [h.valHigh hkind] at hrbHigh
  have hbase : b.base % 2 ^ 32 ||| (b.base / 2 ^ 32) <<< 32 = b.base := by
    rw [Nat.or_comm, ← Nat.shiftLeft_add_eq_or_of_lt (Nat.mod_lt _ (Nat.two_pow_pos 32)),
      Nat.shiftLeft_eq, Nat.div_add_mod']
  have hmask : bitsMask (min b.log2Size 32) (min b.kind.width 32) < 2 ^ 32 := by
    have hpos : 0 < 2 ^ min b.log2Size 32 := Nat.two_pow_pos _
    rw [hwidth, show min 64 32 = 32 from rfl, bitsMask]
    omega
  have hcombined : bitsMask (b.log2Size - 32) 32 <<< 32 |||
      bitsMask (min b.log2Size 32) (min b.kind.width 32) = 2 ^ 64 - 2 ^ b.log2Size := by
    rw [← Nat.shiftLeft_add_eq_or_of_lt hmask, Nat.shiftLeft_eq, hwidth]
    exact bitsMask_halves b.log2Size
  have hsize : wadd (wnot (2 ^ 64 - 2 ^ b.log2Size)) 1 = 2 ^ b.log2Size := by
    have hlt : 2 ^ b.log2Size < 2 ^ 64 :=
      Nat.pow_lt_pow_right (by decide) (b.log2Size_lt.trans_eq hwidth)
    have hpos : 0 < 2 ^ b.log2Size := Nat.two_pow_pos _
    rw [wnot, wadd_of_lt]
    all_goals
      simp only [word]
      omega
  simp only [hlow, hrb, h.valHigh hkind, hrbHigh, hbase, hcombined, hsize]

/-- The upper half of the address is hardwired. -/
def HardwiredIo (b : AssignedBar) : Prop := b.kind = .io true

/-- What the window is. -/
def window (b : AssignedBar) : PciBar := ⟨b.base, 2 ^ b.log2Size, b.isIo⟩

/-- **One window**: it is decoded unless the upper half of its address is hardwired. -/
lemma At.window_iff (h : b.At f i) : (pciGetBar f i).1 = b.window ↔ ¬b.HardwiredIo := by
  rw [window, isIo, HardwiredIo]
  cases hkind : b.kind with
  | mem32 => simp [h.mem32 hkind]
  | mem64 => simp [h.mem64 hkind]
  | io hardwired =>
    rw [h.io hkind, hkind]
    cases hardwired <;> simp [PciBarKind.width]

/-- The test of `pci_init` for a second register. -/
lemma At.raw_iff (h : b.At f i) :
    (pciRead f (0x10 + i * 4) &&& 0x1 = 0 ∧ pciRead f (0x10 + i * 4) &&& 0x6 = 0x4) ↔
      b.kind = .mem64 := by
  rw [pciRead, h.val]
  cases hkind : b.kind with
  | mem32 | mem64 =>
    have hbits : b.kind.lowBits = 4 := by rw [hkind, PciBarKind.lowBits]
    rw [flag_and (by rw [hbits]; decide), flag_and (by rw [hbits]; decide), flags, hkind]
    cases b.prefetchable <;> decide
  | io hardwired =>
    have hbits : b.kind.lowBits = 2 := by rw [hkind, PciBarKind.lowBits]
    rw [flag_and (by rw [hbits]; decide), flags, hkind]
    simp

end AssignedBar

/-! ## The loop over the registers -/

section Loop

variable {f : PciFunction} {fuel j i : ℕ} {bars : ℕ → PciBar}

/-- Where the loop goes on. -/
def barAfter (f : PciFunction) (b : ℕ) : ℕ :=
  let raw := pciRead f (0x10 + b * 4)
  (if raw &&& 0x1 = 0 ∧ raw &&& 0x6 = 0x4 then b + 1 else b) + 1

lemma lt_barAfter : j < barAfter f j := by
  rw [barAfter]
  split_ifs <;> omega

lemma AssignedBar.At.barAfter_eq {b : AssignedBar} (h : b.At f j) :
    barAfter f j = j + b.slots := by
  simp only [barAfter, h.raw_iff, AssignedBar.slots]
  split_ifs <;> rfl

/-- A round stores the result at its register, and the function is as it was. -/
lemma pciBarLoop_succ (hj : j < 6) : pciBarLoop (fuel + 1) j bars f =
    pciBarLoop fuel (barAfter f j) (Function.update bars j (pciGetBar f j).1) f := by
  rw [pciBarLoop, if_pos hj]
  simp only [pciGetBar_snd, barAfter]

/-- The loop does not come back. -/
lemma pciBarLoop_of_lt (hi : i < j) : (pciBarLoop fuel j bars f).1 i = bars i := by
  induction fuel generalizing j bars with
  | zero => rfl
  | succ fuel ih =>
    by_cases hj : j < 6
    · rw [pciBarLoop_succ hj, ih (hi.trans lt_barAfter), Function.update_of_ne hi.ne]
    · rw [pciBarLoop, if_neg hj]

/-- **The loop looks at every window**, at its first register. -/
lemma pciBarLoop_start {pre post : List AssignedBar} {b : AssignedBar}
    (h : f.HasBars j (pre ++ b :: post)) (hslots : j + barSlots pre < 6) (hfuel : 6 ≤ fuel + j) :
    (pciBarLoop fuel j bars f).1 (j + barSlots pre) = (pciGetBar f (j + barSlots pre)).1 := by
  induction pre generalizing j bars fuel with
  | nil =>
    obtain ⟨fuel, rfl⟩ := Nat.exists_eq_add_one.mpr (by omega : 0 < fuel)
    have hfirst : j + barSlots [] = j := rfl
    rw [hfirst] at hslots ⊢
    rw [pciBarLoop_succ hslots, pciBarLoop_of_lt lt_barAfter, Function.update_self]
  | cons p pre ih =>
    obtain ⟨fuel, rfl⟩ := Nat.exists_eq_add_one.mpr (by omega : 0 < fuel)
    obtain ⟨hp, hrest⟩ := h
    have hcons : barSlots (p :: pre) = p.slots + barSlots pre := List.sum_cons
    have hafter := hp.barAfter_eq
    have hlt : j < barAfter f j := lt_barAfter
    rw [hcons, ← Nat.add_assoc] at hslots ⊢
    rw [pciBarLoop_succ (by omega), hafter]
    exact ih hrest hslots (by omega)

lemma PciFunction.HasBars.at {pre post : List AssignedBar} {b : AssignedBar}
    (h : f.HasBars j (pre ++ b :: post)) : b.At f (j + barSlots pre) := by
  induction pre generalizing j with
  | nil => exact h.1
  | cons p pre ih =>
    rw [show barSlots (p :: pre) = p.slots + barSlots pre from List.sum_cons, ← Nat.add_assoc]
    exact ih h.2

end Loop

/-- **Probing a window.**  For every function with a sequence of windows of every kind, size and
address in its six registers, and every window of it, `pci_get_bar` at the first register of the
window returns its kind, base and size and restores all registers if and only if the upper half of
the address is not hardwired.  The registers are restored in any case, and `pci_init` keeps what
`pci_get_bar` returns. -/
theorem pciGetBar_iff {f : PciFunction} (pre : List AssignedBar) (b : AssignedBar)
    (post : List AssignedBar) (h : f.HasBars 0 (pre ++ b :: post))
    (hslots : barSlots (pre ++ b :: post) ≤ 6) (bars : ℕ → PciBar) :
    let i := barSlots pre
    ((pciGetBar f i = (b.window, f)) ↔ ¬b.HardwiredIo) ∧ (pciGetBar f i).2 = f ∧
      (pciBarLoop 6 0 bars f).1 i = (pciGetBar f i).1 := by
  intro i
  have hb : b.At f i := by simpa using h.at
  have hrestored := pciGetBar_snd f i
  refine ⟨?_, hrestored, ?_⟩
  · rw [← hb.window_iff, Prod.ext_iff]
    exact and_iff_left hrestored
  · have hlt : 0 + barSlots pre < 6 := by
      have hpos : 0 < b.slots := by
        rw [AssignedBar.slots]
        split_ifs <;> decide
      rw [barSlots, List.map_append, List.sum_append, List.map_cons, List.sum_cons] at hslots
      rw [barSlots]
      omega
    have hstart : (pciBarLoop 6 0 bars f).1 (0 + barSlots pre) =
        (pciGetBar f (0 + barSlots pre)).1 := pciBarLoop_start h hlt le_rfl
    simpa using hstart

/-- A window of memory of 16 KiB above the first 4 GiB, and behind it one of 32 ports. -/
def twoBars (hardwired : Bool) : List AssignedBar :=
  [⟨.mem64, true, 14, 0x800004000, by decide, by decide, by decide, by decide⟩,
    ⟨.io hardwired, false, 5, 0xC040, by decide, by cases hardwired <;> decide, by decide,
      (by decide : 2 ≤ 5)⟩]

/-- A function with these windows. -/
def twoBarFunction (hardwired : Bool) : PciFunction where
  val := fun offset =>
    if offset = 0x10 then 0x400C else if offset = 0x14 then 0x8 else if offset = 0x18 then 0xC041
    else 0
  mask := fun offset =>
    if offset = 0x10 then bitsMask 14 32 else if offset = 0x14 then bitsMask 0 32
    else if offset = 0x18 then bitsMask 5 (if hardwired then 16 else 32) else 0
  val_lt := fun offset => by split_ifs <;> decide
  mask_lt := fun offset => by cases hardwired <;> split_ifs <;> decide

lemma twoBarFunction_hasBars (hardwired : Bool) :
    (twoBarFunction hardwired).HasBars 0 (twoBars hardwired) := by
  cases hardwired <;>
    exact ⟨⟨rfl, rfl, fun _ => rfl, fun _ => rfl⟩, ⟨rfl, rfl, by decide, by decide⟩, trivial⟩

/-- Both windows are decoded where all bits of the address of ports can be written. -/
theorem pciGetBar_iff_two :
    (pciGetBar (twoBarFunction false) 0).1 = ⟨0x800004000, 0x4000, false⟩ ∧
      (pciGetBar (twoBarFunction false) 2).1 = ⟨0xC040, 32, true⟩ := by
  have h := twoBarFunction_hasBars false
  have hfirst := (pciGetBar_iff [] _ _ h (by decide) fun _ => ⟨0, 0, false⟩).1.mpr
    (by simp [AssignedBar.HardwiredIo])
  have hsecond := (pciGetBar_iff [_] _ _ h (by decide) fun _ => ⟨0, 0, false⟩).1.mpr
    (by simp [AssignedBar.HardwiredIo])
  exact ⟨congrArg Prod.fst hfirst, congrArg Prod.fst hsecond⟩

/-- Where the upper half of the address of ports is hardwired, the 32 ports become almost all of
the address space. -/
theorem pciGetBar_hardwired :
    (twoBarFunction true).HasBars 0 (twoBars true) ∧
      ((twoBars true)[1]?).map AssignedBar.window = some ⟨0xC040, 32, true⟩ ∧
      (pciGetBar (twoBarFunction true) 2).1 = ⟨0xC040, 0xFFFF0020, true⟩ :=
  ⟨twoBarFunction_hasBars true, by decide, by decide +kernel⟩

end Cuore
