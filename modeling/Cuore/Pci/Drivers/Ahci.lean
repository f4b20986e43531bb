import Cuore.Disk.Ata

/-!
# The AHCI driver (`pci/drivers/ahci.c`)

`ahci_exec_cmd` takes a free slot, describes the buffer in the one entry of its region table,
writes the command as a register FIS and waits for the port to clear the slot.  `AhciCommand` is
what the port finds in memory.  READ DMA EXT and WRITE DMA EXT take 48 bits of sector number and 16
bits of count from the FIS, zero standing for 65536, and move no more bytes than the region table
has room for; its byte count has 22 bits.

`run_ahciCommand` decodes what the driver has written, and `ahciExecCmd_transfers` says what a call
that returns 0 has moved.
-/

namespace Cuore

/-! ## The port -/

/-- A command slot: the direction bit and table length of its header, the first entry of its region
table, and its command FIS. -/
structure AhciCommand where
  w : Bool
  prdtl : ℕ
  dba : ℕ
  dbau : ℕ
  dbc : ℕ
  cfis : ℕ → ℕ

namespace AhciCommand

/-- The sector number in the FIS. -/
def lba48 (c : AhciCommand) : ℕ :=
  c.cfis 4 + 2 ^ 8 * c.cfis 5 + 2 ^ 16 * c.cfis 6 + 2 ^ 24 * c.cfis 8 + 2 ^ 32 * c.cfis 9 +
    2 ^ 40 * c.cfis 10

/-- The number of sectors in the FIS. -/
def count16 (c : AhciCommand) : ℕ :=
  if c.cfis 12 + 2 ^ 8 * c.cfis 13 = 0 then 2 ^ 16 else c.cfis 12 + 2 ^ 8 * c.cfis 13

/-- The bytes that the region table has room for. -/
def regionBytes (c : AhciCommand) : ℕ := if c.prdtl = 0 then 0 else c.dbc + 1

/-- What a command moves: the sectors it asks for, as far as the region table has room. -/
def run (c : AhciCommand) : List Transfer :=
  if c.cfis 0 = 0x27 ∧ c.cfis 1 = 0x80 ∧ (c.cfis 7).testBit 6 then
    if c.cfis 2 = 0x25 ∧ c.w = false then
      requested .read c.lba48 (min c.count16 (c.regionBytes / 512)) (c.dba + 2 ^ 32 * c.dbau)
    else if c.cfis 2 = 0x35 ∧ c.w = true then
      requested .write c.lba48 (min c.count16 (c.regionBytes / 512)) (c.dba + 2 ^ 32 * c.dbau)
    else []
  else []

end AhciCommand

/-- What the driver will read from the port: the slots in use at the start, the task-file status
while it waits to issue, and the pairs of command-issue and interrupt-status values while it waits
for the command. -/
structure AhciReads where
  sact : ℕ
  ci : ℕ
  tfd : List ℕ
  wait : List (ℕ × ℕ)

/-! ## The driver -/

/-- The command FIS that `ahci_exec_cmd` writes into the zeroed table. -/
def ahciFis (lba count ataCmd : ℕ) : ℕ → ℕ
  | 0 => 0x27
  | 1 => 0x80
  | 2 => ataCmd
  | 4 => if ataCmd = 0xEC then 0 else lba % 2 ^ 8
  | 5 => if ataCmd = 0xEC then 0 else (lba >>> 8) % 2 ^ 8
  | 6 => if ataCmd = 0xEC then 0 else (lba >>> 16) % 2 ^ 8
  | 7 => if ataCmd = 0xEC then 0 else 1 <<< 6
  | 8 => if ataCmd = 0xEC then 0 else (lba >>> 24) % 2 ^ 8
  | 9 => if ataCmd = 0xEC then 0 else (lba >>> 32) % 2 ^ 8
  | 10 => if ataCmd = 0xEC then 0 else (lba >>> 40) % 2 ^ 8
  | 12 => if ataCmd = 0xEC then 1 else count &&& 0xFF
  | 13 => if ataCmd = 0xEC then 0 else (count >>> 8) &&& 0xFF
  | _ => 0

/-- `(count * 512) - 1` in the 22 bits of the byte count. -/
def ahciByteCount (count : ℕ) : ℕ := (count * 512 + (2 ^ 22 - 1)) % 2 ^ 22

/-- The slot as `ahci_exec_cmd` leaves it. -/
def ahciCommand (lba phys count ataCmd : ℕ) (write : Bool) : AhciCommand where
  w := write
  prdtl := 1
  dba := phys % 2 ^ 32
  dbau := (phys >>> 32) % 2 ^ 32
  dbc := ahciByteCount count
  cfis := ahciFis lba count ataCmd

/-- The wait for the command: 0 once the slot is clear, 1 on an error. -/
def ahciWait (slot : ℕ) : List (ℕ × ℕ) → Option ℕ
  | [] => none
  | (ci, is) :: rest =>
    if ¬(ci &&& (1 <<< slot) ≠ 0) then some 0
    else if is &&& ((1 <<< 30) ||| (1 <<< 29) ||| (1 <<< 27)) ≠ 0 then some 1
    else ahciWait slot rest

/-- `ahci_exec_cmd`: the return value and what has been moved. -/
def ahciExecCmd (lba phys count ataCmd : ℕ) (write : Bool) (reads : AhciReads) :
    Option (ℕ × List Transfer) :=
  let slots := reads.sact ||| reads.ci
  match (List.range 32).find? fun i => ¬(slots &&& (1 <<< i) ≠ 0) with
  | none => some (1, [])
  | some slot =>
    if phys = 0 then some (1, [])
    else
      let cmd := ahciCommand lba phys count ataCmd write
      (pollWhile (fun tfd => tfd &&& (0x80 ||| 0x08) ≠ 0) reads.tfd).bind fun _ =>
        (ahciWait slot reads.wait).map fun ret => (ret, cmd.run)

/-- `ahci_read`.  The parameter `lba` has 32 bits. -/
def ahciRead (lba count phys : ℕ) (reads : AhciReads) : Option (ℕ × List Transfer) :=
  ahciExecCmd (lba % 2 ^ 32) phys (count % 2 ^ 16) 0x25 false reads

/-- `ahci_write`. -/
def ahciWrite (lba count phys : ℕ) (reads : AhciReads) : Option (ℕ × List Transfer) :=
  ahciExecCmd (lba % 2 ^ 32) phys (count % 2 ^ 16) 0x35 true reads

/-! ## What a call moves -/

/-- The number of sectors that a command for `count` of them moves. -/
def ahciMoved (count : ℕ) : ℕ :=
  min (if count = 0 then 2 ^ 16 else count) ((ahciByteCount count + 1) / 512)

/-- The FIS names the sector and the count. -/
lemma lba48_ahciCommand {lba phys count ataCmd : ℕ} {write : Bool} (hlba : lba < 2 ^ 32)
    (hcmd : ataCmd ≠ 0xEC) : (ahciCommand lba phys count ataCmd write).lba48 = lba := by
  simp only [AhciCommand.lba48, ahciCommand, ahciFis, if_neg hcmd, Nat.shiftRight_eq_div_pow]
  omega

lemma count16_ahciCommand {lba phys count ataCmd : ℕ} {write : Bool} (hcount : count < 2 ^ 16)
    (hcmd : ataCmd ≠ 0xEC) : (ahciCommand lba phys count ataCmd write).count16 =
      if count = 0 then 2 ^ 16 else count := by
  have hlow : count &&& 0xFF = count % 2 ^ 8 := Nat.and_two_pow_sub_one_eq_mod count 8
  have hhigh : (count >>> 8) &&& 0xFF = (count >>> 8) % 2 ^ 8 :=
    Nat.and_two_pow_sub_one_eq_mod _ 8
  have hsum : count % 2 ^ 8 + 2 ^ 8 * (count / 2 ^ 8 % 2 ^ 8) = count := by omega
  simp only [AhciCommand.count16, ahciCommand, ahciFis, if_neg hcmd, hlow, hhigh]
  rw [Nat.shiftRight_eq_div_pow, hsum]

/-- **What the port does** with a read or write that the driver has written. -/
lemma run_ahciCommand {lba phys count ataCmd : ℕ} {write : Bool} {direction : Direction}
    (hlba : lba < 2 ^ 32) (hcount : count < 2 ^ 16) (hphys : phys < 2 ^ 64)
    (hcmd : ataCmd = 0x25 ∧ write = false ∧ direction = .read ∨
      ataCmd = 0x35 ∧ write = true ∧ direction = .write) :
    (ahciCommand lba phys count ataCmd write).run =
      requested direction lba (ahciMoved count) phys := by
  have hne : ataCmd ≠ 0xEC := by omega
  have haddress : phys % 2 ^ 32 + 2 ^ 32 * ((phys >>> 32) % 2 ^ 32) = phys := by
    rw [Nat.shiftRight_eq_div_pow]
    omega
  have hbit : (1 <<< 6).testBit 6 = true := by decide
  have hlba' : (ahciCommand lba phys count ataCmd write).lba48 = lba := lba48_ahciCommand hlba hne
  have hcount' : (ahciCommand lba phys count ataCmd write).count16 =
      if count = 0 then 2 ^ 16 else count := count16_ahciCommand hcount hne
  rw [AhciCommand.run, hlba', hcount']
  simp only [AhciCommand.regionBytes, ahciCommand, ahciFis, if_neg hne, hbit, haddress, ahciMoved]
  rcases hcmd with ⟨rfl, rfl, rfl⟩ | ⟨rfl, rfl, rfl⟩ <;> simp

/-- **What a call that returns 0 has moved.** -/
lemma ahciExecCmd_transfers {lba phys count ataCmd : ℕ} {write : Bool} {reads : AhciReads}
    {moved : List Transfer}
    (h : ahciExecCmd lba phys count ataCmd write reads = some (0, moved)) :
    moved = (ahciCommand lba phys count ataCmd write).run := by
  rw [ahciExecCmd] at h
  dsimp only at h
  split at h
  · cases h
  · split_ifs at h with hzero
    · cases h
    · obtain ⟨_, -, hwait⟩ := Option.bind_eq_some_iff.1 h
      obtain ⟨ret, -, hret⟩ := Option.map_eq_some_iff.1 hwait
      cases hret
      rfl

/-- The region table has room for what is asked up to 4 MiB, and for no more. -/
lemma ahciMoved_eq_iff {count : ℕ} (hcount : 0 < count) :
    ahciMoved (count % 2 ^ 16) = count ↔ count ≤ 2 ^ 13 := by
  simp only [ahciMoved, ahciByteCount]
  split_ifs <;> omega

end Cuore
