import Cuore.Pci.Drivers.Ahci
import Cuore.Pci.Drivers.Ide

/-!
# What disk commands address

The disk layer asks for up to `2 ^ 64` sectors from a 64-bit number on and takes a return value of
0 for success.  Both drivers narrow the two numbers: the IDE driver to 28 and 8 bits, which are the
fields of its commands, the AHCI driver to 32 and 16 bits, and to the 4 MiB of one region entry.
`disk_commands_iff` says for which requests a call that returns 0 has moved what it was asked for.
-/

namespace Cuore

/-- **Which requests are carried out.**  For every request on the disk and every run of the
drivers that returns 0: the IDE driver has moved the sectors asked for, in order, exactly if the
first one is below `2 ^ 28` and there are at most 255; the AHCI driver exactly if the first one is
below `2 ^ 32` and there are at most 8192. -/
theorem disk_commands_iff (idData : ℕ → ℕ) (lba count : ℕ) (h : OnDisk idData lba count) :
    (∀ virt status d d', ideReadSectors lba count virt status d = some (0, d') →
      (d'.transfers = d.transfers ++ requested .read lba count virt ↔
        lba < 2 ^ 28 ∧ count ≤ 255)) ∧
    (∀ virt status d d', ideWriteSectors lba count virt status d = some (0, d') →
      (d'.transfers = d.transfers ++ requested .write lba count virt ↔
        lba < 2 ^ 28 ∧ count ≤ 255)) ∧
    (∀ phys reads moved, phys < 2 ^ 64 → ahciRead lba count phys reads = some (0, moved) →
      (moved = requested .read lba count phys ↔ lba < 2 ^ 32 ∧ count ≤ 8192)) ∧
    ∀ phys reads moved, phys < 2 ^ 64 → ahciWrite lba count phys reads = some (0, moved) →
      (moved = requested .write lba count phys ↔ lba < 2 ^ 32 ∧ count ≤ 8192) := by
  have hpos : 0 < count := h.count_pos
  have hide : count % 2 ^ 8 = count ∧ lba % 2 ^ 28 = lba ↔ lba < 2 ^ 28 ∧ count ≤ 255 := by omega
  have hahci : ahciMoved (count % 2 ^ 16) = count ∧ lba % 2 ^ 32 = lba ↔
      lba < 2 ^ 32 ∧ count ≤ 8192 := by
    rw [ahciMoved_eq_iff hpos]
    omega
  refine ⟨?_, ?_, ?_, ?_⟩
  · intro virt status d d' hrun
    rw [ideReadSectors_transfers hrun, List.append_cancel_left_eq, requested_eq_iff hpos, hide]
  · intro virt status d d' hrun
    rw [ideWriteSectors_transfers hrun, List.append_cancel_left_eq, requested_eq_iff hpos, hide]
  · intro phys reads moved hphys hrun
    rw [ahciExecCmd_transfers hrun, run_ahciCommand (Nat.mod_lt _ (by decide))
      (Nat.mod_lt _ (by decide)) hphys (Or.inl ⟨rfl, rfl, rfl⟩), requested_eq_iff hpos, hahci]
  · intro phys reads moved hphys hrun
    rw [ahciExecCmd_transfers hrun, run_ahciCommand (Nat.mod_lt _ (by decide))
      (Nat.mod_lt _ (by decide)) hphys (Or.inr ⟨rfl, rfl, rfl⟩), requested_eq_iff hpos, hahci]

/-- The identify block of a disk with 48-bit numbers and `2 ^ 29` sectors. -/
def largeDisk : ℕ → ℕ := fun i => if i = 83 then 2 ^ 10 else if i = 101 then 2 ^ 13 else 0

/-- Three sectors of it, each way and with each driver. -/
theorem disk_commands_iff_sectors :
    (∃ d, ideReadSectors 100 3 4096 [0, 8, 0, 0, 8, 0, 0, 8, 0] ⟨0, 0, 0, 0, 0, none, []⟩ =
      some (0, d) ∧ d.transfers = requested .read 100 3 4096) ∧
    (∃ d, ideWriteSectors 100 3 4096 [0, 8, 0, 0, 8, 0, 0, 8, 0, 0] ⟨0, 0, 0, 0, 0, none, []⟩ =
      some (0, d) ∧ d.transfers = requested .write 100 3 4096) ∧
    ahciRead 100 3 4096 ⟨0, 0, [0], [(0, 0)]⟩ = some (0, requested .read 100 3 4096) ∧
    ahciWrite 100 3 4096 ⟨0, 0, [0], [(0, 0)]⟩ = some (0, requested .write 100 3 4096) := by
  have hdisk : OnDisk largeDisk 100 3 := ⟨by decide, by decide, by decide⟩
  obtain ⟨hideRead, hideWrite, hread, hwrite⟩ := disk_commands_iff largeDisk 100 3 hdisk
  refine ⟨?_, ?_, ?_, ?_⟩
  · obtain ⟨d, hrun⟩ : ∃ d, ideReadSectors 100 3 4096 [0, 8, 0, 0, 8, 0, 0, 8, 0]
        ⟨0, 0, 0, 0, 0, none, []⟩ = some (0, d) := ⟨_, rfl⟩
    exact ⟨d, hrun, (hideRead 4096 _ _ d hrun).mpr (by decide)⟩
  · obtain ⟨d, hrun⟩ : ∃ d, ideWriteSectors 100 3 4096 [0, 8, 0, 0, 8, 0, 0, 8, 0, 0]
        ⟨0, 0, 0, 0, 0, none, []⟩ = some (0, d) := ⟨_, rfl⟩
    exact ⟨d, hrun, (hideWrite 4096 _ _ d hrun).mpr (by decide)⟩
  · have hrun : ahciRead 100 3 4096 ⟨0, 0, [0], [(0, 0)]⟩ =
        some (0, (ahciCommand 100 4096 3 0x25 false).run) := by decide
    rw [hrun, (hread 4096 _ _ (by decide) hrun).mpr (by decide)]
  · have hrun : ahciWrite 100 3 4096 ⟨0, 0, [0], [(0, 0)]⟩ =
        some (0, (ahciCommand 100 4096 3 0x35 true).run) := by decide
    rw [hrun, (hwrite 4096 _ _ (by decide) hrun).mpr (by decide)]

/-- On the same disk, the IDE driver reads sector 0 instead of sector `2 ^ 28`, and nothing at all
for 256 sectors, and returns 0; the AHCI driver moves one sector instead of 8193. -/
theorem disk_commands_narrowed :
    (OnDisk largeDisk (2 ^ 28) 1 ∧
      ∃ d', ideReadSectors (2 ^ 28) 1 0 [0, 8, 0] ⟨0, 0, 0, 0, 0, none, []⟩ = some (0, d') ∧
        d'.transfers = [⟨.read, 0, 0⟩] ∧ d'.transfers ≠ requested .read (2 ^ 28) 1 0) ∧
    (OnDisk largeDisk 0 256 ∧
      ∃ d', ideWriteSectors 0 256 0 [] ⟨0, 0, 0, 0, 0, none, []⟩ = some (0, d') ∧
        d'.transfers ≠ requested .write 0 256 0) ∧
    (OnDisk largeDisk 0 8193 ∧
      ∃ moved, ahciRead 0 8193 4096 ⟨0, 0, [0], [(0, 0)]⟩ = some (0, moved) ∧
        moved ≠ requested .read 0 8193 4096) := by
  refine ⟨⟨⟨by decide, by decide, by decide⟩, _, rfl, by decide, by decide⟩,
    ⟨⟨by decide, by decide, by decide⟩, _, rfl, ?_⟩,
    ⟨⟨by decide, by decide, by decide⟩, _, rfl, ?_⟩⟩
  · intro hnone
    exact absurd (congrArg List.length hnone) (by simp [requested])
  · intro hall
    have hlength := congrArg List.length hall
    have hrun : (ahciCommand (0 % 2 ^ 32) 4096 (8193 % 2 ^ 16) 0x25 false).run =
        requested .read (0 % 2 ^ 32) (ahciMoved (8193 % 2 ^ 16)) 4096 :=
      run_ahciCommand (by decide) (by decide) (by decide) (Or.inl ⟨rfl, rfl, rfl⟩)
    rw [hrun] at hlength
    simp [requested, ahciMoved, ahciByteCount] at hlength

end Cuore
