import Cuore.Framework.Crc
import Cuore.Math.Crc32
import Cuore.Tools.Mkramfs

/-!
# Three CRC-32s that are one

The kernel looks its bytes up in a table typed into the assembly (`Math/Crc32.lean`), the image
packer fills its table by a loop (`Tools/Mkramfs.lean`), and the checksum has a definition bit by
bit.  Each table is compared with the eight shifts it stores, `poly8Lookup_eq` entry by entry and
`crc32Fill_eq` by the loop itself, and `Framework/Crc.lean` does the rest.
-/

namespace Cuore

/-- The reflected polynomial of CRC-32. -/
def crc32Poly : ℕ := 0xEDB88320

/-- CRC-32 bit by bit, with all ones before and after. -/
def bitwiseCrc32 (bytes : List UInt8) : ℕ := crcBytes crc32Poly 0xFFFFFFFF bytes ^^^ 0xFFFFFFFF

/-- The typed table holds the eight shifts of each byte. -/
lemma poly8Lookup_eq : ∀ i < 256, poly8Lookup.getD i 0 = (crcShift crc32Poly)^[8] i := by
  decide +kernel

/-- The filled table holds the eight shifts of each byte. -/
lemma crc32Fill_eq (i : ℕ) : Mkramfs.crc32Fill i = (crcShift crc32Poly)^[8] i := by
  rw [Mkramfs.crc32Fill, show List.range 8 = [0, 1, 2, 3, 4, 5, 6, 7] from rfl]
  simp only [List.foldl_cons, List.foldl_nil, Function.iterate_succ_apply, Function.iterate_zero,
    id_eq, crcShift, crc32Poly]

/-- The assembly works through the bytes in memory one after the other. -/
lemma crc32_eq_foldl {m : Memory} {data : ℕ} {bytes : List UInt8} (h : Holds m data bytes) :
    crc32 m data bytes.length = 0xFFFFFFFF ^^^ bytes.foldl crc32Step 0xFFFFFFFF := by
  have hfold : ∀ (bs : List UInt8) (a eax : ℕ), Holds m a bs →
      (List.range' a bs.length).foldl (fun eax x => crc32Step eax (m x)) eax =
        bs.foldl crc32Step eax := by
    intro bs
    induction bs with
    | nil => intro a eax _; rfl
    | cons b bs ih =>
      intro a eax hb
      rw [List.length_cons, List.range'_succ, List.foldl_cons, List.foldl_cons, hb.1, ih _ _ hb.2]
  rw [crc32, ← hfold bytes data _ h, List.range'_eq_map_range, List.foldl_map]

/-- **`crc32` is CRC-32.**  On every byte string shorter than `2 ^ 32` bytes, the assembly, the
packer and the definition bit by bit return the same value. -/
theorem crc32_eq_bitwiseCrc32 (m : Memory) (data : ℕ) (bytes : List UInt8)
    (hbytes : Holds m data bytes) (hlen : bytes.length < 2 ^ 32) :
    crc32 m data bytes.length = bitwiseCrc32 bytes ∧
    Mkramfs.crc32Byte bytes bytes.length = bitwiseCrc32 bytes := by
  constructor
  · rw [crc32_eq_foldl hbytes, bitwiseCrc32, Nat.xor_comm,
      foldl_eq_crcBytes poly8Lookup_eq fun crc byte => by rw [crc32Step, Nat.xor_comm byte.toNat]]
  · rw [Mkramfs.crc32Byte, Nat.mod_eq_of_lt hlen, List.take_length, bitwiseCrc32,
      foldl_eq_crcBytes (fun i _ => crc32Fill_eq i) fun crc byte => by rw [Nat.xor_comm]]

/-- The check value: the digits from one to nine give `0xCBF43926`. -/
theorem crc32_eq_bitwiseCrc32_check :
    let digits : List UInt8 := [49, 50, 51, 52, 53, 54, 55, 56, 57]
    crc32 (fun a => digits.getD a 0) 0 digits.length = 0xCBF43926 ∧
      Mkramfs.crc32Byte digits digits.length = 0xCBF43926 := by
  intro digits
  have hvalue : bitwiseCrc32 digits = 0xCBF43926 := by decide +kernel
  have h := crc32_eq_bitwiseCrc32 (fun a => digits.getD a 0) 0 digits (by simp [Holds, digits])
    (by decide)
  rw [hvalue] at h
  exact h

end Cuore
