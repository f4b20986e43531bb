import Cuore.Cpu.Idt
import Cuore.Devices.Registry
import Cuore.Stdio.Integers
import Mathlib.Data.List.TakeWhile

/-!
# Exceptions (`cpu/IDT.c`)

For some exceptions the processor pushes an error code, and the stubs of the others push a zero in
its place.  Then every stub saves the same registers and calls `exception_main`, which prints them
on every character device that handles errors, each behind its label.

`exceptionEntry` runs the processor and the stub up to the call.  `exceptionEntry_spec` says that
the frame holds what has been interrupted, and `exception_report` what is printed then.
-/

namespace Cuore

open Memory

/-! ## The stubs -/

/-- The names of the exceptions, and whether the stub expects an error code. -/
def exceptionTable : List (String × Bool) :=
  [("Divide By Zero", false), ("Debug", false), ("Non-Maskable Interrupt", false),
    ("Breakpoint", false), ("Overflow", false), ("Bound Range Exceeded", false),
    ("Invalid Opcode", false), ("Device Not Available", false), ("Double Fault", true),
    ("Coprocessor Segment Overrun", false), ("Invalid TSS", true), ("Segment Not Present", true),
    ("Stack-Segment Fault", true), ("General Protection Fault", true), ("Page Fault", true),
    ("Reserved", false), ("x87 Floating-Point Exception", false), ("Alignment Check", true),
    ("Machine Check", false), ("SIMD Floating-Point Exception", false),
    ("Virtualization Exception", false), ("Control Protection Exception", true),
    ("Reserved", false), ("Reserved", false), ("Reserved", false), ("Reserved", false),
    ("Reserved", false), ("Reserved", false), ("Hypervisor Injection Exception", false),
    ("VMM Communication Exception", true), ("Security Exception", true), ("Reserved", false)]

/-- The order in which the segment registers are pushed. -/
def segOrder : List Seg := [.gs, .fs, .es, .ds]

/-- The order in which the control registers are pushed. -/
def crOrder : List Cr := [.cr4, .cr3, .cr2]

/-- `DEF_EXCEPTION_HANDLER` up to the call. -/
def exceptionStub (hasErr : Bool) (name : UInt64) : List Instr :=
  (if hasErr then [] else [0].map .pushImm) ++ pushOrder.map .push ++ [.movImm 0 .rax] ++
    segOrder.flatMap (fun g => [.movSeg g, .push .rax]) ++
    crOrder.flatMap (fun c => [.movCr c, .push .rax]) ++
    [.movFromRsp .rdi, .movImm name .rsi, .andRsp]

/-- The processor pushes an error code. -/
def pushesErrorCode (v : ℕ) : Bool := v ∈ [8, 10, 11, 12, 13, 14, 17, 21, 29, 30]

/-- The machine at the call of `exception_main`, after exception `v`. -/
def exceptionEntry (v : ℕ) (name err : UInt64) (ctx : Context) (seg : Seg → UInt16)
    (cr : Cr → UInt64) (m : Memory) : Processor :=
  ((ctx.interrupt seg cr m).pushes (if pushesErrorCode v then [err] else [])).run
    (exceptionStub (exceptionTable.getD v ("", false)).2 name)

/-- The frame of an exception. -/
def Context.exceptionFrame (ctx : Context) (seg : Seg → UInt16) (cr : Cr → UInt64) (err : UInt64) :
    TrapFrame where
  cr := cr
  seg g := (seg g).toUInt64
  regs := ctx.regs
  errorCode := err
  rip := ctx.rip
  cs := ctx.cs
  rflags := ctx.rflags
  rsp := ctx.rsp
  ss := ctx.ss

section Stub

variable {v : ℕ} {name err : UInt64} {ctx : Context} {seg : Seg → UInt16} {cr : Cr → UInt64}
  {m : Memory}

/-- The table has an error code for an exception exactly if the processor pushes one. -/
lemma exceptionTable_hasErr (hv : v < 32) :
    (exceptionTable.getD v ("", false)).2 = pushesErrorCode v := by
  have hall : ∀ v < 32, (exceptionTable.getD v ("", false)).2 = pushesErrorCode v := by decide
  exact hall v hv

/-- A segment register is written over another one. -/
lemma movSeg_over (g g' : UInt16) :
    g.toUInt64 &&& 0xFFFFFFFFFFFF0000 ||| g'.toUInt64 = g'.toUInt64 := by
  have hzero : g.toUInt64 &&& 0xFFFFFFFFFFFF0000 = 0 := by
    apply UInt64.toNat_inj.mp
    rw [UInt64.toNat_and, UInt16.toNat_toUInt64]
    refine Nat.eq_of_testBit_eq fun i => ?_
    have hmask : (0xFFFFFFFFFFFF0000 : UInt64).toNat = 0xFFFFFFFFFFFF <<< 16 := by decide
    rw [hmask, Nat.testBit_and, Nat.testBit_shiftLeft]
    by_cases hi : 16 ≤ i
    · rw [Nat.testBit_lt_two_pow (g.toNat_lt.trans_le (Nat.pow_le_pow_right (by decide) hi))]
      simp
    · simp [hi]
  rw [hzero, UInt64.zero_or]

/-- Segment registers are pushed through `rax`, the upper bits of which stay zero. -/
lemma run_pushSegs {s : Processor} (gs : List Seg) (hrax : ∃ g : UInt16, s.regs .rax = g.toUInt64) :
    (s.run (gs.flatMap fun g => [.movSeg g, .push .rax])).stack =
      pushAll s.stack (gs.map fun g => (s.seg g).toUInt64) ∧
    (s.run (gs.flatMap fun g => [.movSeg g, .push .rax])).cr = s.cr := by
  induction gs generalizing s with
  | nil => exact ⟨rfl, rfl⟩
  | cons g gs ih =>
    obtain ⟨g₀, hg₀⟩ := hrax
    set s₁ := (s.exec (.movSeg g)).exec (.push .rax) with hs₁
    have hmov : (s.exec (.movSeg g)).regs .rax = (s.seg g).toUInt64 := by
      rw [Processor.exec, Processor.regs_setReg_self, hg₀, movSeg_over]
    have hstack : s₁.stack = pushAll s.stack [(s.seg g).toUInt64] := by
      rw [hs₁, ← hmov]
      rfl
    obtain ⟨hrun, hcr⟩ := ih (s := s₁) ⟨s.seg g, hmov⟩
    have hcons : s.run ((g :: gs).flatMap fun g => [.movSeg g, .push .rax]) =
        s₁.run (gs.flatMap fun g => [.movSeg g, .push .rax]) := by
      rw [List.flatMap_cons, Processor.run_append]
      rfl
    rw [hcons]
    refine ⟨?_, hcr⟩
    rw [hrun, hstack, ← pushAll_append]
    rfl

/-- So are control registers. -/
lemma run_pushCrs {s : Processor} (cs : List Cr) :
    (s.run (cs.flatMap fun c => [.movCr c, .push .rax])).stack =
      pushAll s.stack (cs.map s.cr) := by
  induction cs generalizing s with
  | nil => rfl
  | cons c cs ih =>
    set s₁ := (s.exec (.movCr c)).exec (.push .rax) with hs₁
    have hstack : s₁.stack = pushAll s.stack [s.cr c] := by
      have hmov : (s.exec (.movCr c)).regs .rax = s.cr c := Processor.regs_setReg_self ..
      rw [hs₁, ← hmov]
      rfl
    have hcons : s.run ((c :: cs).flatMap fun c => [.movCr c, .push .rax]) =
        s₁.run (cs.flatMap fun c => [.movCr c, .push .rax]) := by
      rw [List.flatMap_cons, Processor.run_append]
      rfl
    rw [hcons, ih, hstack, ← pushAll_append]
    rfl

lemma words_exceptionFrame (ctx : Context) (seg : Seg → UInt16) (cr : Cr → UInt64) (err : UInt64) :
    (ctx.exceptionFrame seg cr err).words = ([ctx.ss, ctx.rsp, ctx.rflags, ctx.cs, ctx.rip] ++
      ([err] ++ pushOrder.map ctx.regs ++ segOrder.map (fun g => (seg g).toUInt64) ++
        crOrder.map cr)).reverse := rfl

/-- **The frame of an exception** holds what has been interrupted, whether the processor pushes an
error code or the stub pushes a zero. -/
lemma exceptionEntry_spec (name err : UInt64) (seg : Seg → UInt16) (cr : Cr → UInt64) (m : Memory)
    (hv : v < 32) (hroom : TrapFrame.size ≤ alignDown 16 ctx.rsp.toNat) :
    (exceptionEntry v name err ctx seg cr m).regs .rdi = UInt64.ofNat ctx.frameAddr ∧
    (exceptionEntry v name err ctx seg cr m).regs .rsi = name ∧
    FrameAt (exceptionEntry v name err ctx seg cr m).mem ctx.frameAddr
      (ctx.exceptionFrame seg cr (if pushesErrorCode v then err else 0)) ∧
    SameOutside (frameBytes ctx.frameAddr) m (exceptionEntry v name err ctx seg cr m).mem := by
  have hlt : alignDown 16 ctx.rsp.toNat < word :=
    (alignDown_le 16 _).trans_lt ctx.rsp.toNat_lt
  set err' := if pushesErrorCode v then err else 0 with herr'
  -- the machine once the error code is there
  set s₀ : Processor := Processor.pushes ⟨ctx.regs, seg, cr, alignDown 16 ctx.rsp.toNat, m⟩
    ([ctx.ss, ctx.rsp, ctx.rflags, ctx.cs, ctx.rip] ++ [err']) with hs₀
  have hcode : ((ctx.interrupt seg cr m).pushes (if pushesErrorCode v then [err] else [])).run
      (if pushesErrorCode v then [] else [0].map .pushImm) = s₀ := by
    have hint : ctx.interrupt seg cr m =
        Processor.pushes ⟨ctx.regs, seg, cr, alignDown 16 ctx.rsp.toNat, m⟩
          [ctx.ss, ctx.rsp, ctx.rflags, ctx.cs, ctx.rip] := rfl
    rw [hs₀, ← Processor.pushes_append, ← hint, herr']
    cases pushesErrorCode v
    · exact Processor.run_pushImm [0]
    · rfl
  -- the registers
  set s₁ := (s₀.run (pushOrder.map .push)).run [.movImm 0 .rax] with hs₁
  have hstack₁ : s₁.stack = pushAll s₀.stack (pushOrder.map ctx.regs) := by
    rw [hs₁, Processor.run_push]
    rfl
  have hrax₁ : s₁.regs .rax = (0 : UInt16).toUInt64 := Processor.regs_setReg_self ..
  obtain ⟨hstack₂, hcr₂⟩ := run_pushSegs (s := s₁) segOrder ⟨0, hrax₁⟩
  set s₂ := s₁.run (segOrder.flatMap fun g => [.movSeg g, .push .rax]) with hs₂
  have hstack₃ := run_pushCrs (s := s₂) crOrder
  set s₃ := s₂.run (crOrder.flatMap fun c => [.movCr c, .push .rax]) with hs₃
  have hseg₁ : s₁.seg = seg := by
    rw [hs₁, Processor.run_push]
    rfl
  have hcr₁ : s₁.cr = cr := by
    rw [hs₁, Processor.run_push]
    rfl
  have hentry : exceptionEntry v name err ctx seg cr m =
      s₃.run [.movFromRsp .rdi, .movImm name .rsi, .andRsp] := by
    rw [exceptionEntry, exceptionStub, exceptionTable_hasErr hv, Processor.run_append,
      Processor.run_append, Processor.run_append, Processor.run_append, Processor.run_append, hcode]
  set vs := (ctx.exceptionFrame seg cr err').words.reverse with hvs
  have hstack₀ : s₀.stack = pushAll (m, alignDown 16 ctx.rsp.toNat)
      ([ctx.ss, ctx.rsp, ctx.rflags, ctx.cs, ctx.rip] ++ [err']) := by
    rw [hs₀, Processor.pushes, Processor.stack_withStack]
    rfl
  have hstack : s₃.stack = pushAll (m, alignDown 16 ctx.rsp.toNat) vs := by
    rw [hstack₃, hstack₂, hstack₁, hcr₂, hcr₁, hseg₁, hstack₀, hvs, words_exceptionFrame,
      List.reverse_reverse, ← pushAll_append, ← pushAll_append, ← pushAll_append]
    simp only [List.append_assoc]
  have hlen : 8 * vs.length = TrapFrame.size := by
    rw [hvs, List.length_reverse, length_words, TrapFrame.size]
  obtain ⟨hrsp, hwords, hsame⟩ :=
    pushAll_spec m vs (by omega : 8 * vs.length ≤ alignDown 16 ctx.rsp.toNat) hlt
  rw [← hstack, hlen, ← Context.frameAddr] at hrsp hwords hsame
  have htop : ctx.frameAddr + TrapFrame.size = alignDown 16 ctx.rsp.toNat :=
    Nat.sub_add_cancel hroom
  have hrdi : (s₃.run [.movFromRsp .rdi, .movImm name .rsi, .andRsp]).regs .rdi =
      UInt64.ofNat s₃.rsp := by
    simp [Processor.run, Processor.exec, Processor.setReg]
  rw [hentry]
  refine ⟨?_, rfl, ?_, ?_⟩
  · rw [hrdi, show s₃.rsp = ctx.frameAddr from hrsp]
  · rw [hvs, List.reverse_reverse] at hwords
    exact hwords
  · rw [frameBytes, htop]
    exact hsame

end Stub

/-! ## `exception_main` -/

/-- The labels of `exception_main`. -/
def exceptionLabels : List String :=
  ["CR2", "CR3", "CR4", "DS ", "ES ", "FS ", "GS ", "R15", "R14", "R13", "R12", "R11", "R10", "R9 ",
    "R8 ", "RBP", "RDI", "RSI", "RDX", "RCX", "RBX", "RAX", "ERR", "RIP", "CS ", "FLG", "RSP",
    "SS "]

/-- What `dev_puts` puts: the bytes up to the terminating zero. -/
def devPuts (s : List UInt8) : List UInt8 := s.takeWhile (· ≠ 0)

/-- What `exception_main` puts on a device; a null description is `none`. -/
def exceptionText (m : Memory) (tf : ℕ) (description : Option (List UInt8)) : List UInt8 :=
  devPuts (asciiString "\n*** CPU EXCEPTION: ") ++
    devPuts (description.getD (asciiString "UNKNOWN")) ++
    devPuts (asciiString " ***\n") ++
    (List.range 28).flatMap fun j =>
      devPuts (asciiString (exceptionLabels.getD j "")) ++ devPuts (asciiString ": 0x") ++
        devPuts (ptrthex (m.load (tf + 8 * j) 8)) ++ [ascii '\n']

/-- `exception_main`: what is put, and on which devices.  `devCap` is the field `DevCAP` of the
device at an address. -/
def exceptionMain (m : Memory) (tf : ℕ) (description : Option (List UInt8)) (r : DeviceRegistry)
    (devCap : ℕ → UInt64) : List (ℕ × List UInt8) :=
  (List.range r.count).flatMap fun i =>
    let entry := r.entries i
    if entry.type ≠ .charDev then []
    else if devCap entry.devPtr &&& 1 = 1 then
      [(entry.devPtr, exceptionText m tf description)]
    else []

/-- What is saved at an exception, under the names that it is printed with. -/
def exceptionFields (ctx : Context) (seg : Seg → UInt16) (cr : Cr → UInt64) (err : UInt64) :
    List (String × ℕ) :=
  [("CR2", (cr .cr2).toNat), ("CR3", (cr .cr3).toNat), ("CR4", (cr .cr4).toNat),
    ("DS ", (seg .ds).toNat), ("ES ", (seg .es).toNat), ("FS ", (seg .fs).toNat),
    ("GS ", (seg .gs).toNat), ("R15", (ctx.regs .r15).toNat), ("R14", (ctx.regs .r14).toNat),
    ("R13", (ctx.regs .r13).toNat), ("R12", (ctx.regs .r12).toNat), ("R11", (ctx.regs .r11).toNat),
    ("R10", (ctx.regs .r10).toNat), ("R9 ", (ctx.regs .r9).toNat), ("R8 ", (ctx.regs .r8).toNat),
    ("RBP", (ctx.regs .rbp).toNat), ("RDI", (ctx.regs .rdi).toNat), ("RSI", (ctx.regs .rsi).toNat),
    ("RDX", (ctx.regs .rdx).toNat), ("RCX", (ctx.regs .rcx).toNat), ("RBX", (ctx.regs .rbx).toNat),
    ("RAX", (ctx.regs .rax).toNat), ("ERR", err.toNat), ("RIP", ctx.rip.toNat),
    ("CS ", ctx.cs.toNat), ("FLG", ctx.rflags.toNat), ("RSP", ctx.rsp.toNat), ("SS ", ctx.ss.toNat)]

/-- The line of a register. -/
def exceptionLine (f : String × ℕ) : List UInt8 :=
  asciiString f.1 ++ asciiString ": 0x" ++ ptrthexLoop 16 f.2 [] ++ [ascii '\n']

/-- What is printed about an exception. -/
def exceptionReport (name : String) (fields : List (String × ℕ)) : List UInt8 :=
  asciiString "\n*** CPU EXCEPTION: " ++ asciiString name ++ asciiString " ***\n" ++
    fields.flatMap exceptionLine

/-- The devices that errors are reported on. -/
def errorDevices (r : DeviceRegistry) (devCap : ℕ → UInt64) : List ℕ :=
  (((List.range r.count).map r.entries).filter fun e =>
    e.type = .charDev ∧ devCap e.devPtr &&& 1 = 1).map RegistryEntry.devPtr

section Report

variable {v : ℕ} {name err : UInt64} {ctx : Context} {seg : Seg → UInt16} {cr : Cr → UInt64}
  {m : Memory} {r : DeviceRegistry} {devCap : ℕ → UInt64}

lemma devPuts_of_terminated {s : List UInt8} (h : 0 ∉ s) : devPuts (s ++ [0]) = s := by
  have hpos : ∀ c ∈ s, decide (c ≠ 0) = true := fun c hc =>
    decide_eq_true fun h0 => h (h0 ▸ hc)
  rw [devPuts, List.takeWhile_append_of_pos hpos]
  exact List.append_nil s

lemma devPuts_of_notMem {s : List UInt8} (h : 0 ∉ s) : devPuts s = s :=
  List.takeWhile_eq_self_iff.mpr fun _ hc => decide_eq_true fun h0 => h (h0 ▸ hc)

lemma zero_notMem_ptrthexLoop (n val : ℕ) : 0 ∉ ptrthexLoop n val [] := by
  induction n generalizing val with
  | zero => exact List.not_mem_nil
  | succ n ih =>
    have hsym : ∀ d < 16, digitSym true d ≠ 0 := by decide
    rw [ptrthexLoop_succ, ptrthexLoop_append, List.mem_append, List.mem_singleton, not_or]
    exact ⟨ih _, (hsym _ (Nat.mod_lt _ (by decide))).symm⟩

/-- The fields are the words of the frame, in their order. -/
lemma exceptionFields_eq (ctx : Context) (seg : Seg → UInt16) (cr : Cr → UInt64) (err : UInt64) :
    exceptionFields ctx seg cr err = (List.range 28).map fun j =>
      (exceptionLabels.getD j "", ((ctx.exceptionFrame seg cr err).words.getD j 0).toNat) := by
  rw [show (ctx.exceptionFrame seg cr err).words = _ from rfl]
  simp [exceptionFields, exceptionLabels, TrapFrame.words, Context.exceptionFrame, popOrder,
    List.range_succ]

/-- What is printed is what the frame holds. -/
lemma exceptionText_eq {t : ℕ} {description : String} (hname : 0 ∉ asciiString description)
    (hframe : FrameAt m t (ctx.exceptionFrame seg cr err)) :
    exceptionText m t (some (asciiString description ++ [0])) =
      exceptionReport description (exceptionFields ctx seg cr err) := by
  rw [exceptionText, exceptionReport, Option.getD_some, devPuts_of_terminated hname,
    devPuts_of_notMem (by decide), devPuts_of_notMem (s := asciiString " ***\n") (by decide),
    exceptionFields_eq, List.flatMap_map]
  congr 1
  refine List.flatMap_congr fun j hj => ?_
  rw [List.mem_range] at hj
  have hlabels : ∀ j < 28, 0 ∉ asciiString (exceptionLabels.getD j "") := by decide
  have hload := hframe.load_getElem (j := j) hj
  have hget : (ctx.exceptionFrame seg cr err).words.getD j 0 =
      (ctx.exceptionFrame seg cr err).words[j] := List.getD_eq_getElem _ _ hj
  rw [exceptionLine, hload, ptrthex, ptrthexLoop_append,
    devPuts_of_terminated (zero_notMem_ptrthexLoop 16 _), devPuts_of_notMem (hlabels j hj),
    devPuts_of_notMem (s := asciiString ": 0x") (by decide), hget]

/-- A line is read back. -/
lemma strtoull_exceptionLine {val : ℕ} (hval : val < word) (rest : List UInt8) :
    strtoull (asciiString "0x" ++ ptrthexLoop 16 val [] ++ ascii '\n' :: rest) = val := by
  have hloop := strtoullLoop_ptrthexLoop (n := 16) 0 val (ascii '\n' :: rest)
  rw [ptrthexLoop_append] at hloop
  have hval' : val % 16 ^ 16 = val := Nat.mod_eq_of_lt hval
  rw [Nat.zero_mod, Nat.zero_mul, Nat.zero_add, hval', Nat.mod_eq_of_lt hval] at hloop
  rw [strtoull, if_pos (.inl rfl)]
  exact hloop

/-- What is put on the devices. -/
lemma exceptionMain_eq (t : ℕ) (description : Option (List UInt8)) :
    exceptionMain m t description r devCap =
      (errorDevices r devCap).map fun d => (d, exceptionText m t description) := by
  rw [exceptionMain, errorDevices, List.map_map, List.filter_map, List.map_map]
  generalize List.range r.count = l
  induction l with
  | nil => rfl
  | cons i l ih =>
    rw [List.flatMap_cons, ih, List.filter_cons]
    by_cases htype : (r.entries i).type = .charDev <;>
      by_cases hcap : devCap (r.entries i).devPtr &&& 1 = 1 <;> simp [htype, hcap]

end Report

/-- **Exceptions are reported as they are.**  Whatever the exception and what it interrupts, every
character device that handles errors, and no other, gets the name of the exception and all registers
as they were, and what stands behind the label of a register parses back to its value. -/
theorem exception_report {v : ℕ} (hv : v < 32) (name err : UInt64) (ctx : Context)
    (seg : Seg → UInt16) (cr : Cr → UInt64) (m : Memory) (r : DeviceRegistry) (devCap : ℕ → UInt64)
    (hroom : TrapFrame.size ≤ alignDown 16 ctx.rsp.toNat) :
    let s := exceptionEntry v name err ctx seg cr m
    let description := (exceptionTable.getD v ("", false)).1
    let fields := exceptionFields ctx seg cr (if pushesErrorCode v then err else 0)
    s.regs .rsi = name ∧
    exceptionMain s.mem (s.regs .rdi).toNat (some (asciiString description ++ [0])) r devCap =
      (errorDevices r devCap).map (fun d => (d, exceptionReport description fields)) ∧
    ∀ f ∈ fields, ∃ front behind, exceptionReport description fields =
      front ++ asciiString f.1 ++ asciiString ": " ++ behind ∧ strtoull behind = f.2 := by
  intro s description fields
  obtain ⟨hrdi, hrsi, hframe, -⟩ := exceptionEntry_spec name err seg cr m hv hroom
  have hnames : ∀ v < 32, 0 ∉ asciiString (exceptionTable.getD v ("", false)).1 := by decide
  have haddr : (s.regs .rdi).toNat = ctx.frameAddr := by
    have hlt : ctx.frameAddr < word := (Nat.sub_le _ _).trans_lt
      ((alignDown_le 16 _).trans_lt ctx.rsp.toNat_lt)
    rw [hrdi, UInt64.toNat_ofNat']
    exact Nat.mod_eq_of_lt hlt
  refine ⟨hrsi, ?_, fun f hf => ?_⟩
  · rw [exceptionMain_eq, haddr, exceptionText_eq (hnames v hv) hframe]
  · obtain ⟨l₁, l₂, hsplit⟩ := List.append_of_mem hf
    have hval : f.2 < word := by
      rw [show fields = _ from exceptionFields_eq ctx seg cr _] at hf
      obtain ⟨j, -, rfl⟩ := List.mem_map.mp hf
      exact UInt64.toNat_lt _
    refine ⟨asciiString "\n*** CPU EXCEPTION: " ++ asciiString description ++
      asciiString " ***\n" ++ l₁.flatMap exceptionLine, asciiString "0x" ++ ptrthexLoop 16 f.2 [] ++
        ascii '\n' :: l₂.flatMap exceptionLine, ?_, strtoull_exceptionLine hval _⟩
    have hcolon : asciiString ": 0x" = asciiString ": " ++ asciiString "0x" := by decide
    rw [exceptionReport, hsplit, List.flatMap_append, List.flatMap_cons, exceptionLine, hcolon]
    simp only [List.append_assoc, List.singleton_append]

/-- A page fault with the error code 6. -/
theorem exception_report_pageFault :
    let s := exceptionEntry 14 0x1000 6 ⟨fun _ => 7, 0x2000, 8, 0x202, 0x9000, 0x10⟩ (fun _ => 0x10)
      (fun _ => 3) fun _ => 0
    (s.regs .rsi = 0x1000 ∧
      exceptionMain s.mem (s.regs .rdi).toNat (some (asciiString "Page Fault" ++ [0]))
        ⟨fun _ => ⟨1, .charDev, 64⟩, 1, 2⟩ (fun _ => 1) = [(64, exceptionReport "Page Fault"
          (exceptionFields ⟨fun _ => 7, 0x2000, 8, 0x202, 0x9000, 0x10⟩ (fun _ => 0x10) (fun _ => 3)
            6))]) := by
  obtain ⟨hname, htext, -⟩ := exception_report (v := 14) (by decide) 0x1000 6
    ⟨fun _ => 7, 0x2000, 8, 0x202, 0x9000, 0x10⟩ (fun _ => 0x10) (fun _ => 3) (fun _ => 0)
    ⟨fun _ => ⟨1, .charDev, 64⟩, 1, 2⟩ (fun _ => 1) (by decide)
  exact ⟨hname, htext⟩

end Cuore
