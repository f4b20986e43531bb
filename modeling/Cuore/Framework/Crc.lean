import Mathlib.Data.Nat.Bitwise
import Mathlib.Logic.Function.Iterate

/-!
# Reflected cyclic redundancy checks

A reflected CRC keeps its remainder with the lowest coefficient in the highest bit.  One bit of
the message shifts the register to the right and subtracts the polynomial `poly` if a one fell
out; a byte is folded into the low end of the register and shifted through bit by bit.  The width
does not appear: it is that of `poly` and of the initial register.

`crcShift_xor` says that a shift is linear over `^^^`, and `iterate_crcShift_shiftLeft` that bits
above the ones shifted out only move.  `crcByte_eq` follows from the two: a byte step is a plain
shift by eight and one value that depends on the eight bits that left, which is what a table of
256 entries stores.  `foldl_eq_crcBytes` carries it through a message for every step function
that agrees with this form.
-/

namespace Cuore

/-! ## The bitwise definition -/

/-- One bit of the message. -/
def crcShift (poly x : ℕ) : ℕ := if x % 2 = 1 then (x >>> 1) ^^^ poly else x >>> 1

/-- One byte of the message, bit by bit. -/
def crcByte (poly crc : ℕ) (byte : UInt8) : ℕ := (crcShift poly)^[8] (crc ^^^ byte.toNat)

/-- A message from an initial register. -/
def crcBytes (poly crc : ℕ) (bytes : List UInt8) : ℕ := bytes.foldl (crcByte poly) crc

/-! ## Linearity -/

/-- A shift is linear. -/
lemma crcShift_xor (poly x y : ℕ) :
    crcShift poly (x ^^^ y) = crcShift poly x ^^^ crcShift poly y := by
  have hbit : (x ^^^ y) % 2 = 1 ↔ ¬(x % 2 = 1 ↔ y % 2 = 1) := Nat.xor_mod_two_eq_one
  have hshift : (x ^^^ y) >>> 1 = (x >>> 1) ^^^ (y >>> 1) := Nat.shiftRight_xor_distrib
  rw [crcShift, crcShift, crcShift, hshift]
  by_cases hx : x % 2 = 1
  · by_cases hy : y % 2 = 1
    · rw [if_neg (by rw [hbit]; tauto), if_pos hx, if_pos hy, Nat.xor_right_comm, Nat.xor_assoc,
        Nat.xor_assoc, Nat.xor_self, Nat.xor_zero]
    · rw [if_pos (by rw [hbit]; tauto), if_pos hx, if_neg hy, Nat.xor_right_comm]
  · by_cases hy : y % 2 = 1
    · rw [if_pos (by rw [hbit]; tauto), if_neg hx, if_pos hy, Nat.xor_assoc]
    · rw [if_neg (by rw [hbit]; tauto), if_neg hx, if_neg hy]

lemma iterate_crcShift_xor (poly n x y : ℕ) :
    (crcShift poly)^[n] (x ^^^ y) = (crcShift poly)^[n] x ^^^ (crcShift poly)^[n] y := by
  induction n generalizing x y with
  | zero => rfl
  | succ n ih => rw [Function.iterate_succ_apply, Function.iterate_succ_apply,
      Function.iterate_succ_apply, crcShift_xor, ih]

/-- Zeros that fall out leave the rest as it is. -/
lemma iterate_crcShift_shiftLeft (poly n x : ℕ) : (crcShift poly)^[n] (x <<< n) = x := by
  induction n with
  | zero => rfl
  | succ n ih =>
    have hstep : crcShift poly (x <<< (n + 1)) = x <<< n := by
      rw [crcShift, Nat.shiftLeft_succ, if_neg (by omega), Nat.shiftRight_one,
        Nat.mul_div_cancel_left _ (by decide)]
    rw [Function.iterate_succ_apply, hstep, ih]

/-! ## Bytes -/

/-- A number is its high part next to its low bits. -/
lemma shiftRight_shiftLeft_xor_mod (x n : ℕ) : ((x >>> n) <<< n) ^^^ (x % 2 ^ n) = x := by
  refine Nat.eq_of_testBit_eq fun i => ?_
  rw [Nat.testBit_xor, Nat.testBit_shiftLeft, Nat.testBit_shiftRight, Nat.testBit_mod_two_pow]
  by_cases h : i < n
  · simp [h, show ¬i ≥ n by omega]
  · simp [h, show i ≥ n by omega, show n + (i - n) = i by omega]

/-- **A byte step** is a shift by eight and a function of the bits shifted out. -/
lemma crcByte_eq (poly crc : ℕ) (byte : UInt8) :
    crcByte poly crc byte =
      (crc >>> 8) ^^^ (crcShift poly)^[8] ((crc % 256) ^^^ byte.toNat) := by
  have hsplit : crc ^^^ byte.toNat =
      ((crc >>> 8) <<< 8) ^^^ ((crc % 256) ^^^ byte.toNat) := by
    rw [← Nat.xor_assoc]
    exact congrArg (· ^^^ byte.toNat) (shiftRight_shiftLeft_xor_mod crc 8).symm
  rw [crcByte, hsplit, iterate_crcShift_xor, iterate_crcShift_shiftLeft]

/-- The bits shifted out are a byte. -/
lemma mod_xor_lt (crc : ℕ) (byte : UInt8) : (crc % 256) ^^^ byte.toNat < 256 :=
  Nat.xor_lt_two_pow (n := 8) (Nat.mod_lt _ (by decide)) byte.toNat_lt

/-- **A table is enough**: a step function that shifts by eight and looks up the eight shifts of
the bits that leave computes the message bit by bit. -/
lemma foldl_eq_crcBytes {poly : ℕ} {step : ℕ → UInt8 → ℕ} {table : ℕ → ℕ}
    (htable : ∀ i < 256, table i = (crcShift poly)^[8] i)
    (hstep : ∀ crc byte, step crc byte = (crc >>> 8) ^^^ table ((crc % 256) ^^^ byte.toNat))
    (crc : ℕ) (bytes : List UInt8) : bytes.foldl step crc = crcBytes poly crc bytes := by
  induction bytes generalizing crc with
  | nil => rfl
  | cons byte bytes ih =>
    rw [List.foldl_cons, ih, crcBytes, crcBytes, List.foldl_cons, hstep, crcByte_eq,
      htable _ (mod_xor_lt crc byte)]

end Cuore
