import Cuore.Framework.Word
import Cuore.Framework.Bytes
import Cuore.Framework.Links
import Cuore.Mem.Cmm
import Cuore.Tools.Mkramfs
import Cuore.Fs.Ramfs
import Cuore.Framework.Ring
import Cuore.Datatype.Avl
import Cuore.Datatype.Avl.Balance
import Cuore.Logbuf
import Cuore.Cpu.Smp.Mailbox
import Cuore.Framework.CString
import Cuore.Tools.Mksymtable
import Cuore.Symtable
import Cuore.Scheduler
import Cuore.Scheduler.Run
import Cuore.Scheduler.RoundRobin
import Cuore.Math.Crc32
import Cuore.Disk.Partition
import Cuore.Disk.Mbr
import Cuore.Disk.Gpt
import Cuore.Disk.Tables
import Cuore.Disk.Diskinit
import Cuore.Mem.Common
import Cuore.Mem.Heap
import Cuore.Mem.Vmm
import Cuore.Mem.Paging
import Cuore.Mem.Paging.Walk
import Cuore.Mem.Paging.Entry
import Cuore.Mem.Paging.Map
import Cuore.Mem.Paging.Frame
import Cuore.Mem.Paging.Missing
import Cuore.Mem.Paging.GetPhys
import Cuore.Mem.Paging.Unmap
import Cuore.Mem.Paging.Rights
import Cuore.Binfmt.Elf64
import Cuore.Binfmt.Elf64.Load
import Cuore.Binfmt.Elf64.Segment
import Cuore.Binfmt.Elf64.Image
import Cuore.Binfmt.Elf64.Reads
import Cuore.Binfmt.Elf64.Rights
import Cuore.Binfmt.Elf64.Alloc
import Cuore.Binfmt.Elf64.KernelHalf
import Cuore.Framework.Piece
import Cuore.Framework.Chains
import Cuore.Mem.Pma
import Cuore.Mem.Pma.Fields
import Cuore.Mem.Pma.Classes
import Cuore.Mem.Pma.Lists
import Cuore.Mem.Pma.Index
import Cuore.Mem.Pma.Pieces
import Cuore.Mem.Pma.Alloc
import Cuore.Mem.Pma.Free
import Cuore.Mem.Pma.Init
import Cuore.Mem.Pma.Run
import Cuore.Mem.Pma.Zone
import Cuore.Mem.Pma.Failure
import Cuore.Mem.Pma.Count
import Cuore.Mem.Pma.Page
import Cuore.Binfmt.Elf64.Leak
import Cuore.Stdio
import Cuore.Stdio.Bounded
import Cuore.Stdio.Format
import Cuore.Stdio.Integers
import Cuore.Firmware.Smbios
import Cuore.Cmdline
import Cuore.Framework.Tiling
import Cuore.Framework.Threaded
import Cuore.Mem.Heap.Header
import Cuore.Mem.Heap.Blocks
import Cuore.Mem.Heap.Edit
import Cuore.Mem.Heap.Search
import Cuore.Mem.Heap.Regions
import Cuore.Mem.Heap.Pools
import Cuore.Mem.Heap.Inv
import Cuore.Mem.Heap.Malloc
import Cuore.Mem.Heap.Slots
import Cuore.Mem.Heap.FreeSlot
import Cuore.Mem.Heap.Join
import Cuore.Mem.Heap.Free
import Cuore.Mem.Heap.Client
import Cuore.Mem.Heap.Realloc
import Cuore.Mem.Heap.Calls
import Cuore.Mem.Heap.Init
import Cuore.Mem.Heap.Run
import Cuore.Mem.Heap.Sound
import Cuore.Mem.Heap.Contents
import Cuore.Mem.Heap.Accounting
import Cuore.Mem.Heap.Restore
import Cuore.Mem.Heap.NextFit
import Cuore.Framework.FirstFit
import Cuore.Framework.Gaps
import Cuore.Mem.Vmm.Gap
import Cuore.Mem.Vmm.Aggregates
import Cuore.Mem.Vmm.FirstFit
import Cuore.Mem.Vmm.Oversize
import Cuore.Mem.Vmm.Release
import Cuore.Mem.Backing
import Cuore.Mem.Backing.Tables
import Cuore.Mem.Heap.Grow
import Cuore.Mem.Heap.Kernel
import Cuore.Mem.Heap.Emptied
import Cuore.Mem.Heap.Contract
import Cuore.Mem.Heap.AllOrNothing
import Cuore.Mem.Heap.Nested
import Cuore.Mem.Cmm.Init
import Cuore.Mem.Boot
import Cuore.Logbuf.Stores
import Cuore.Firmware.Acpi.Mcfg
import Cuore.Firmware.Acpi.Fadt
import Cuore.Framework.Records
import Cuore.Firmware.Acpi.Madt
import Cuore.Firmware.Acpi.Cedt
import Cuore.Firmware.Acpi.Subtables
import Cuore.Disk.Gpt.Layout
import Cuore.Disk.Gpt.Reads
import Cuore.Symtable.Reads
import Cuore.Framework.Calendar
import Cuore.Time
import Cuore.Drivers.Rtc
import Cuore.Firmware.Acpi.Hpet
import Cuore.Time.Sleep
import Cuore.Framework.Crc
import Cuore.Math.Crc32.Bitwise
import Cuore.Framework.Lcg
import Cuore.Framework.Scaling
import Cuore.Rand.Swrand
import Cuore.Drivers.Uart16550
import Cuore.Framework.Assignment
import Cuore.Pci
import Cuore.Pci.Bar
import Cuore.Disk.Ata
import Cuore.Pci.Drivers.Ide
import Cuore.Pci.Drivers.Ahci
import Cuore.Disk.Commands
import Cuore.Pci.Drivers.Rtl8139
import Cuore.Graphics.Cuterm
import Cuore.Graphics.Cuterm.Text
import Cuore.Graphics.Cuterm.Bounds
import Cuore.Multimedia.Beep
import Cuore.Framework.Stack
import Cuore.Cpu.Idt
import Cuore.Scheduler.Context
import Cuore.Framework.SpinLock
import Cuore.Cpu.Smp.Init
import Cuore.Framework.BinarySearch
import Cuore.Devices.Registry
import Cuore.Cpu.Idt.Exceptions
import Cuore.Cpu.Irq
