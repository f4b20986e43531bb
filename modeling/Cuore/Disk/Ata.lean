import Mathlib.Data.List.Range
import Mathlib.Data.Nat.Bitwise

/-!
# ATA disks (`disk/ata.c`)

`ata_identify` decodes the 256 words of an identify block.  Of what it returns, the drivers use the
model string and `total_sectors`, which comes from the 48-bit fields if word 83 announces them and
from the 28-bit fields otherwise.

What a driver does with a disk is recorded as a list of `Transfer`s: which sector moved between
the disk and which address, and in which direction.  `requested` is the list that a request for
`count` sectors from `lba` on asks for.
-/

namespace Cuore

/-! ## Identification -/

/-- `ata_identity_t`. -/
structure AtaIdentity where
  config : ℕ
  totalSectors : ℕ
  model : List UInt8
  serial : List UInt8
  firmware : List UInt8
  capabilities : ℕ
  fieldValidity : ℕ
  pioModes : ℕ
  dmaModes : ℕ
  commandSets82 : ℕ
  commandSets83 : ℕ
  logicalSectorSize : ℕ

/-- `ata_parse_string`: two characters a word, with the spaces at the end zeroed. -/
def ataParseString (idData : ℕ → ℕ) (wordStart wordCount : ℕ) : List UInt8 :=
  let dest := (List.range wordCount).flatMap fun i =>
    let val := idData (wordStart + i)
    [UInt8.ofNat (val >>> 8), UInt8.ofNat (val &&& 0xFF)]
  let kept := (dest.reverse.dropWhile (· = 32)).reverse
  kept ++ List.replicate (dest.length - kept.length + 1) 0

/-- `ata_identify`. -/
def ataIdentify (idData : ℕ → ℕ) : AtaIdentity where
  config := idData 0
  totalSectors :=
    if idData 83 &&& (1 <<< 10) ≠ 0 then
      (idData 103 <<< 48) ||| (idData 102 <<< 32) ||| (idData 101 <<< 16) ||| idData 100
    else (idData 61 <<< 16) ||| idData 60
  model := ataParseString idData 27 20
  serial := ataParseString idData 10 10
  firmware := ataParseString idData 23 4
  capabilities := idData 49
  fieldValidity := idData 53
  pioModes := idData 64
  dmaModes := (idData 63 <<< 16) ||| idData 88
  commandSets82 := idData 82
  commandSets83 := idData 83
  logicalSectorSize := idData 106 &&& 0x0FFF

/-- A request for sectors that the disk has. -/
structure OnDisk (idData : ℕ → ℕ) (lba count : ℕ) : Prop where
  count_pos : 1 ≤ count
  lba_lt : lba < (ataIdentify idData).totalSectors
  end_le : lba + count ≤ (ataIdentify idData).totalSectors

/-! ## Transfers -/

/-- The way a sector moves. -/
inductive Direction
  /-- From the disk to memory. -/
  | read
  /-- From memory to the disk. -/
  | write
  deriving DecidableEq

/-- A sector that has moved between the disk and memory. -/
structure Transfer where
  direction : Direction
  sector : ℕ
  address : ℕ
  deriving DecidableEq

/-- `count` sectors from `lba` on, between the disk and the memory from `address` on, in order. -/
def requested (direction : Direction) (lba count address : ℕ) : List Transfer :=
  (List.range count).map fun i => ⟨direction, lba + i, address + 512 * i⟩

lemma requested_succ (direction : Direction) (lba count address : ℕ) :
    requested direction lba (count + 1) address =
      ⟨direction, lba, address⟩ :: requested direction (lba + 1) count (address + 512) := by
  rw [requested, List.range_succ_eq_map, List.map_cons, List.map_map]
  refine congrArg₂ List.cons rfl (List.map_congr_left fun i _ => ?_)
  simp only [Function.comp_apply, Transfer.mk.injEq, true_and]
  omega

/-- Requests are the same only for the same sectors. -/
lemma requested_eq_iff {direction : Direction} {lba lba' count count' address : ℕ}
    (hcount : 0 < count) : requested direction lba' count' address =
      requested direction lba count address ↔ count' = count ∧ lba' = lba := by
  constructor
  · intro h
    have hlength := congrArg List.length h
    simp only [requested, List.length_map, List.length_range] at hlength
    obtain ⟨k, rfl⟩ := Nat.exists_eq_succ_of_ne_zero hcount.ne'
    subst hlength
    rw [requested_succ, requested_succ] at h
    have hhead := (List.cons.injEq _ _ _ _).mp h
    exact ⟨rfl, congrArg Transfer.sector hhead.1⟩
  · rintro ⟨rfl, rfl⟩
    rfl

/-! ## Waiting -/

/-- A loop that reads a register until its value fails a test: what is left of the values that
the register will show.  It has no result while all of them pass the test. -/
def pollWhile (busy : ℕ → Bool) : List ℕ → Option (List ℕ)
  | [] => none
  | value :: values => if busy value then pollWhile busy values else some values

end Cuore
