import Cuore.Disk.Ata

/-!
# The IDE driver (`pci/drivers/ide.c`)

`ide_read_sectors` and `ide_write_sectors` put a sector number and a count into the task-file
registers, issue a command and move one sector for each turn of a loop.  `IdeDrive` is the disk at
the other end: READ SECTORS and WRITE SECTORS start at the sector that 28 bits of the registers
name and move as many sectors as the count register says, 256 for zero.

Sector and count are narrowed on the way.  `ideLoop_transfers` is the induction on the turns, and
`ideReadSectors_transfers` and `ideWriteSectors_transfers` say what a call that returns 0 has
moved.
-/

namespace Cuore

/-! ## The drive -/

/-- The task file of a drive, the command in progress and what has been moved. -/
structure IdeDrive where
  driveSel : ℕ
  sectorCnt : ℕ
  lbaLow : ℕ
  lbaMid : ℕ
  lbaHigh : ℕ
  /-- direction, next sector and number of sectors left -/
  command : Option (Direction × ℕ × ℕ)
  transfers : List Transfer

namespace IdeDrive

/-- The sector that the registers name. -/
def lba28 (d : IdeDrive) : ℕ :=
  d.lbaLow + 2 ^ 8 * d.lbaMid + 2 ^ 16 * d.lbaHigh + 2 ^ 24 * (d.driveSel % 16)

/-- The number of sectors that the count register asks for. -/
def count8 (d : IdeDrive) : ℕ := if d.sectorCnt = 0 then 256 else d.sectorCnt

/-- A write to the command register: 0x20 reads sectors, 0x30 writes them, and other commands move
none. -/
def start (d : IdeDrive) (cmd : ℕ) : IdeDrive :=
  { d with
    command :=
      if d.driveSel.testBit 6 then
        if cmd = 0x20 then some (.read, d.lba28, d.count8)
        else if cmd = 0x30 then some (.write, d.lba28, d.count8)
        else none
      else none }

/-- `outb` to a register of the drive. -/
def outb (d : IdeDrive) (reg value : ℕ) : IdeDrive :=
  match reg with
  | 2 => { d with sectorCnt := value }
  | 3 => { d with lbaLow := value }
  | 4 => { d with lbaMid := value }
  | 5 => { d with lbaHigh := value }
  | 6 => { d with driveSel := value }
  | 7 => d.start value
  | _ => d

/-- 256 words through the data register, one sector, between the drive and `address`. -/
def moveSector (d : IdeDrive) (direction : Direction) (address : ℕ) : IdeDrive :=
  match d.command with
  | some (dir, sector, left + 1) =>
    if dir = direction then
      { d with
        command := some (dir, sector + 1, left)
        transfers := d.transfers ++ [⟨dir, sector, address⟩] }
    else d
  | _ => d

end IdeDrive

/-! ## The driver -/

/-- The registers in front of a command, and the command. -/
def ideCommand (lba count8 cmd : ℕ) (d : IdeDrive) : IdeDrive :=
  let d := d.outb 6 ((0xA0 ||| 0x40) ||| ((lba >>> 24) &&& 0x0F))
  let d := d.outb 2 count8
  let d := d.outb 3 (lba % 2 ^ 8)
  let d := d.outb 4 ((lba >>> 8) % 2 ^ 8)
  let d := d.outb 5 ((lba >>> 16) % 2 ^ 8)
  d.outb 7 cmd

/-- The loop over the sectors, from turn `i` on, with the values that the status register will
show: the return value, what is left of them, and the drive.  An error bit ends it with 1. -/
def ideLoop (direction : Direction) (ptr : ℕ) :
    ℕ → ℕ → List ℕ → IdeDrive → Option (ℕ × List ℕ × IdeDrive)
  | 0, _, status, d => some (0, status, d)
  | left + 1, i, status, d =>
    -- wait for BSY to clear, then for DRQ
    match (pollWhile (fun st => st &&& 0x80 ≠ 0) status).bind
        (pollWhile fun st => ¬(st &&& 0x08 ≠ 0)) with
    | none | some [] => none
    | some (st :: status) =>
      if st &&& 0x21 ≠ 0 then some (1, status, d)
      else ideLoop direction ptr left (i + 1) status (d.moveSector direction (ptr + 2 * (i * 256)))

/-- `ide_read_sectors`: the return value and the drive.  The parameter `lba` has 32 bits. -/
def ideReadSectors (lba count virt : ℕ) (status : List ℕ) (d : IdeDrive) :
    Option (ℕ × IdeDrive) :=
  let lba := lba % 2 ^ 32
  let count8 := count % 2 ^ 8
  if count8 = 0 then some (0, d)
  else
    (ideLoop .read virt count8 0 status (ideCommand lba count8 0x20 d)).map
      fun (ret, _, d) => (ret, d)

/-- `ide_write_sectors`, which flushes the cache behind the loop. -/
def ideWriteSectors (lba count virt : ℕ) (status : List ℕ) (d : IdeDrive) :
    Option (ℕ × IdeDrive) :=
  let lba := lba % 2 ^ 32
  let count8 := count % 2 ^ 8
  if count8 = 0 then some (0, d)
  else
    match ideLoop .write virt count8 0 status (ideCommand lba count8 0x30 d) with
    | none => none
    | some (0, status, d) =>
      (pollWhile (fun st => st &&& 0x80 ≠ 0) status).map fun _ => (0, d.outb 7 0xE7)
    | some (ret, _, d) => some (ret, d)

/-! ## What a call moves -/

/-- The drive-select register: four bits of the sector number, and the LBA bit. -/
lemma driveSel_bits (high : ℕ) :
    ((0xA0 ||| 0x40) ||| (high &&& 0x0F)) % 16 = high % 16 ∧
      ((0xA0 ||| 0x40) ||| (high &&& 0x0F)).testBit 6 = true := by
  constructor
  · have hlow : high &&& 0x0F = high % 2 ^ 4 := Nat.and_two_pow_sub_one_eq_mod high 4
    have hor := Nat.or_mod_two_pow (a := 0xA0 ||| 0x40) (b := high % 2 ^ 4) (n := 4)
    rw [show (0xA0 ||| 0x40) % 2 ^ 4 = 0 by decide, Nat.zero_or] at hor
    rw [hlow]
    omega
  · rw [Nat.testBit_or, show (0xA0 ||| 0x40 : ℕ).testBit 6 = true by decide, Bool.true_or]

/-- The command names the low 28 bits of the sector number. -/
lemma ideCommand_eq (lba : ℕ) {count8 : ℕ} (cmd : ℕ) (d : IdeDrive) (hcount : count8 ≠ 0) :
    (ideCommand lba count8 cmd d).command =
        (if cmd = 0x20 then some (.read, lba % 2 ^ 28, count8)
        else if cmd = 0x30 then some (.write, lba % 2 ^ 28, count8) else none) ∧
      (ideCommand lba count8 cmd d).transfers = d.transfers := by
  obtain ⟨hsel, hbit⟩ := driveSel_bits (lba >>> 24)
  have hlba : lba % 2 ^ 8 + 2 ^ 8 * ((lba >>> 8) % 2 ^ 8) + 2 ^ 16 * ((lba >>> 16) % 2 ^ 8) +
      2 ^ 24 * ((lba >>> 24) % 16) = lba % 2 ^ 28 := by
    simp only [Nat.shiftRight_eq_div_pow]
    omega
  refine ⟨?_, rfl⟩
  simp only [ideCommand, IdeDrive.outb, IdeDrive.start, IdeDrive.lba28, IdeDrive.count8, hsel,
    hbit, hlba, if_true, if_neg hcount]

/-- **The loop** moves the sectors of the command in order, if it does not end with an error. -/
lemma ideLoop_transfers {direction : Direction} {ptr left i sector : ℕ} {status status' : List ℕ}
    {d d' : IdeDrive} (hcommand : d.command = some (direction, sector, left))
    (h : ideLoop direction ptr left i status d = some (0, status', d')) :
    d'.transfers = d.transfers ++ requested direction sector left (ptr + 512 * i) := by
  induction left generalizing i sector status d with
  | zero =>
    cases h
    rw [requested, List.range_zero, List.map_nil, List.append_nil]
  | succ left ih =>
    rw [ideLoop] at h
    split at h
    · cases h
    · cases h
    · have hmove : d.moveSector direction (ptr + 2 * (i * 256)) =
          { d with
            command := some (direction, sector + 1, left)
            transfers := d.transfers ++ [⟨direction, sector, ptr + 512 * i⟩] } := by
        have haddress : ptr + 2 * (i * 256) = ptr + 512 * i := by omega
        simp only [IdeDrive.moveSector, hcommand, if_true, haddress]
      rw [hmove] at h
      split_ifs at h with herr
      · cases h
      · rw [ih rfl h, requested_succ, List.append_assoc, List.singleton_append, Nat.mul_succ,
          Nat.add_assoc]

/-- **What a read that returns 0 has moved.** -/
lemma ideReadSectors_transfers {lba count virt : ℕ} {status : List ℕ} {d d' : IdeDrive}
    (h : ideReadSectors lba count virt status d = some (0, d')) :
    d'.transfers = d.transfers ++ requested .read (lba % 2 ^ 28) (count % 2 ^ 8) virt := by
  rw [ideReadSectors] at h
  dsimp only at h
  split_ifs at h with hzero
  · cases h
    rw [hzero, requested, List.range_zero, List.map_nil, List.append_nil]
  · obtain ⟨⟨ret, rest, d''⟩, hloop, hret⟩ := Option.map_eq_some_iff.1 h
    cases hret
    obtain ⟨hcommand, htransfers⟩ := ideCommand_eq (lba % 2 ^ 32) 0x20 d hzero
    rw [ideLoop_transfers hcommand hloop, htransfers, Nat.mul_zero, Nat.add_zero,
      Nat.mod_mod_of_dvd _ (by decide)]

/-- **What a write that returns 0 has moved.** -/
lemma ideWriteSectors_transfers {lba count virt : ℕ} {status : List ℕ} {d d' : IdeDrive}
    (h : ideWriteSectors lba count virt status d = some (0, d')) :
    d'.transfers = d.transfers ++ requested .write (lba % 2 ^ 28) (count % 2 ^ 8) virt := by
  rw [ideWriteSectors] at h
  split_ifs at h with hzero
  · cases h
    rw [hzero, requested, List.range_zero, List.map_nil, List.append_nil]
  · obtain ⟨hcommand, htransfers⟩ := ideCommand_eq (lba % 2 ^ 32) 0x30 d hzero
    cases hloop : ideLoop .write virt (count % 2 ^ 8) 0 status
        (ideCommand (lba % 2 ^ 32) (count % 2 ^ 8) 0x30 d) with
    | none =>
      rw [hloop] at h
      cases h
    | some result =>
      obtain ⟨ret, rest, d''⟩ := result
      rw [hloop] at h
      cases ret with
      | zero =>
        obtain ⟨_, -, hret⟩ := Option.map_eq_some_iff.1 h
        cases hret
        have hmoved := ideLoop_transfers hcommand hloop
        rwa [htransfers, Nat.mul_zero, Nat.add_zero, Nat.mod_mod_of_dvd _ (by decide)] at hmoved
      | succ ret => cases h

end Cuore
