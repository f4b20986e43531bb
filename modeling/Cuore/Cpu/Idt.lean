import Cuore.Framework.Stack

/-!
# Interrupt stubs (`cpu/IDT.c`)

Every interrupt vector has a stub in assembly.  The processor pushes five words onto the stack of
what it interrupts, the stub pushes the rest of a `struct trap_frame` and calls a handler with the
address of the frame.  The handler returns the address of a frame, not necessarily the same one, and
the stub loads the registers from there.

`irqEntry` and `irqExit` run the two halves of the stub of an IRQ, instruction by instruction.
`irqEntry_spec` says that the frame holds what has been interrupted and `irqExit_spec` that a frame
is resumed as it is.  The address of the handler is a register operand of the stub: the compiler
loads it in front of the first instruction into a register of its choice, `op`, whose content is
lost.

The stubs of exceptions do not return.  They also save segment and control registers.
-/

namespace Cuore

open Memory

/-! ## The machine -/

/-- The general registers, without the stack pointer. -/
inductive Gpr
  | rax | rbx | rcx | rdx | rsi | rdi | rbp | r8 | r9 | r10 | r11 | r12 | r13 | r14 | r15
  deriving DecidableEq, Repr

/-- The segment registers that are saved. -/
inductive Seg
  | ds | es | fs | gs
  deriving DecidableEq, Repr

/-- The control registers that are saved. -/
inductive Cr
  | cr2 | cr3 | cr4
  deriving DecidableEq, Repr

/-- What an interrupt interrupts. -/
@[ext] structure Context where
  regs : Gpr → UInt64
  rip : UInt64
  cs : UInt64
  rflags : UInt64
  rsp : UInt64
  ss : UInt64

/-- What a stub works on. -/
structure Processor where
  regs : Gpr → UInt64
  seg : Seg → UInt16
  cr : Cr → UInt64
  rsp : ℕ
  mem : Memory

/-- The instructions of the stubs. -/
inductive Instr
  | push (r : Gpr)
  | pushImm (v : UInt64)
  | pop (r : Gpr)
  | movImm (v : UInt64) (r : Gpr)
  | mov (r r' : Gpr)
  | movSeg (g : Seg)
  | movCr (c : Cr)
  | movFromRsp (r : Gpr)
  | movToRsp (r : Gpr)
  | addRsp (n : ℕ)
  | subRsp (n : ℕ)
  | andRsp

namespace Processor

/-- The memory, and where the stack is in it. -/
def stack (s : Processor) : Memory × ℕ := (s.mem, s.rsp)

/-- The machine with another stack. -/
def withStack (s : Processor) (p : Memory × ℕ) : Processor := { s with mem := p.1, rsp := p.2 }

/-- Push words, the first one first. -/
def pushes (s : Processor) (vs : List UInt64) : Processor := s.withStack (pushAll s.stack vs)

/-- Write a register. -/
def setReg (s : Processor) (r : Gpr) (v : UInt64) : Processor :=
  { s with regs := Function.update s.regs r v }

/-- One instruction: `pushq`, `popq`, `movq` to a register (the operand that is written last),
`movw %seg, %ax`, `movq %cr, %rax`, `movq %rsp, r`, `movq r, %rsp`, `addq $n, %rsp`,
`subq $n, %rsp` and `andq $-16, %rsp`. -/
def exec (s : Processor) : Instr → Processor
  | .push r => s.pushes [s.regs r]
  | .pushImm v => s.pushes [v]
  | .pop r => { s.setReg r (s.mem.load64 s.rsp) with rsp := wadd s.rsp 8 }
  | .movImm v r => s.setReg r v
  | .mov r r' => s.setReg r' (s.regs r)
  | .movSeg g => s.setReg .rax (s.regs .rax &&& 0xFFFFFFFFFFFF0000 ||| (s.seg g).toUInt64)
  | .movCr c => s.setReg .rax (s.cr c)
  | .movFromRsp r => s.setReg r (UInt64.ofNat s.rsp)
  | .movToRsp r => { s with rsp := (s.regs r).toNat }
  | .addRsp n => { s with rsp := wadd s.rsp n }
  | .subRsp n => { s with rsp := wsub s.rsp n }
  | .andRsp => { s with rsp := alignDown 16 s.rsp }

/-- A sequence of instructions. -/
def run (s : Processor) (is : List Instr) : Processor := is.foldl exec s

end Processor

/-! ## Frames -/

/-- `struct trap_frame`. -/
structure TrapFrame where
  cr : Cr → UInt64
  seg : Seg → UInt64
  regs : Gpr → UInt64
  errorCode : UInt64
  rip : UInt64
  cs : UInt64
  rflags : UInt64
  rsp : UInt64
  ss : UInt64

/-- The general registers in the order of the structure, which is the one they are popped in. -/
def popOrder : List Gpr :=
  [.r15, .r14, .r13, .r12, .r11, .r10, .r9, .r8, .rbp, .rdi, .rsi, .rdx, .rcx, .rbx, .rax]

/-- The order they are pushed in. -/
def pushOrder : List Gpr :=
  [.rax, .rbx, .rcx, .rdx, .rsi, .rdi, .rbp, .r8, .r9, .r10, .r11, .r12, .r13, .r14, .r15]

/-- The fields of a frame in the order of the structure. -/
def TrapFrame.words (t : TrapFrame) : List UInt64 :=
  [t.cr .cr2, t.cr .cr3, t.cr .cr4, t.seg .ds, t.seg .es, t.seg .fs, t.seg .gs] ++
    popOrder.map t.regs ++ [t.errorCode, t.rip, t.cs, t.rflags, t.rsp, t.ss]

/-- `sizeof(struct trap_frame)`. -/
def TrapFrame.size : ℕ := 224

/-- A frame stands in memory at `a`. -/
def FrameAt (m : Memory) (a : ℕ) (t : TrapFrame) : Prop := Words m a t.words

/-- The frame of an IRQ. -/
def Context.irqFrame (ctx : Context) (index : UInt64) : TrapFrame where
  cr _ := 0
  seg _ := 0
  regs := ctx.regs
  errorCode := index
  rip := ctx.rip
  cs := ctx.cs
  rflags := ctx.rflags
  rsp := ctx.rsp
  ss := ctx.ss

/-- What a frame resumes. -/
def TrapFrame.context (t : TrapFrame) : Context := ⟨t.regs, t.rip, t.cs, t.rflags, t.rsp, t.ss⟩

/-! ## IRQs -/

/-- What the processor does at an interrupt: it aligns the stack and pushes where it was. -/
def Context.interrupt (ctx : Context) (seg : Seg → UInt16) (cr : Cr → UInt64) (m : Memory) :
    Processor :=
  let p := pushAll (m, alignDown 16 ctx.rsp.toNat) [ctx.ss, ctx.rsp, ctx.rflags, ctx.cs, ctx.rip]
  ⟨ctx.regs, seg, cr, p.2, p.1⟩

/-- `DEF_IRQ_HANDLER` up to the call: the operand of the compiler, and the stub. -/
def irqStub (op : Gpr) (target index : UInt64) : List Instr :=
  [.movImm target op] ++
    ([.pushImm index] ++ pushOrder.map .push ++ List.replicate 7 (.pushImm 0)) ++
    [.movFromRsp .rdi, .movFromRsp .rbp, .andRsp, .subRsp 8, .mov op .rax]

/-- `DEF_IRQ_HANDLER` behind the call, up to the `iretq`. -/
def irqReturnStub : List Instr :=
  [.movToRsp .rax, .addRsp 56] ++ popOrder.map .pop ++ [.addRsp 8]

/-- The machine at the call of the handler. -/
def irqEntry (op : Gpr) (target index : UInt64) (ctx : Context) (seg : Seg → UInt16)
    (cr : Cr → UInt64) (m : Memory) : Processor :=
  (ctx.interrupt seg cr m).run (irqStub op target index)

/-- `iretq`. -/
def Processor.iret (s : Processor) : Context where
  regs := s.regs
  rip := s.mem.load64 s.rsp
  cs := s.mem.load64 (wadd s.rsp 8)
  rflags := s.mem.load64 (wadd s.rsp 16)
  rsp := s.mem.load64 (wadd s.rsp 24)
  ss := s.mem.load64 (wadd s.rsp 32)

/-- What runs on when the handler returns, with the address of a frame in `rax`. -/
def irqExit (s : Processor) : Context := (s.run irqReturnStub).iret

/-! ## Runs of pushes and pops -/

namespace Processor

variable {s : Processor} {is js : List Instr}

lemma run_append : s.run (is ++ js) = (s.run is).run js := List.foldl_append

lemma run_cons (i : Instr) : s.run (i :: is) = (s.exec i).run is := List.foldl_cons ..

@[simp] lemma stack_withStack (p : Memory × ℕ) : (s.withStack p).stack = p := rfl

lemma withStack_withStack (p q : Memory × ℕ) : (s.withStack p).withStack q = s.withStack q := rfl

lemma pushes_append (vs ws : List UInt64) : (s.pushes vs).pushes ws = s.pushes (vs ++ ws) := by
  rw [pushes, pushes, pushes, stack_withStack, withStack_withStack, pushAll_append]

@[simp] lemma regs_pushes (vs : List UInt64) : (s.pushes vs).regs = s.regs := rfl

@[simp] lemma regs_setReg_self (s : Processor) (r : Gpr) (v : UInt64) : (s.setReg r v).regs r = v :=
  Function.update_self ..

lemma run_movImm (r : Gpr) (v : UInt64) (vs : List UInt64) :
    (s.pushes vs).run [.movImm v r] = (s.setReg r v).pushes vs := rfl

/-- Registers are pushed. -/
lemma run_push (rs : List Gpr) : s.run (rs.map .push) = s.pushes (rs.map s.regs) := by
  induction rs generalizing s with
  | nil => rfl
  | cons r rs ih => rw [List.map_cons, run_cons, exec, ih, regs_pushes, pushes_append,
      List.map_cons, List.singleton_append]

/-- Constants are pushed. -/
lemma run_pushImm (vs : List UInt64) : s.run (vs.map .pushImm) = s.pushes vs := by
  induction vs generalizing s with
  | nil => rfl
  | cons v vs ih => rw [List.map_cons, run_cons, exec, ih, pushes_append, List.singleton_append]

/-- Registers are popped from the words that stand on the stack. -/
lemma run_pops {rs : List Gpr} (g : Gpr → UInt64) (hwords : Words s.mem s.rsp (rs.map g))
    (hlt : s.rsp + 8 * rs.length < word) :
    (s.run (rs.map .pop)).regs = (fun r => if r ∈ rs then g r else s.regs r) ∧
    (s.run (rs.map .pop)).rsp = s.rsp + 8 * rs.length ∧
    (s.run (rs.map .pop)).mem = s.mem := by
  induction rs generalizing s with
  | nil => simp [run]
  | cons r rs ih =>
    rw [List.length_cons] at hlt ⊢
    obtain ⟨hr, hrest⟩ := hwords
    have hadd : wadd s.rsp 8 = s.rsp + 8 := wadd_of_lt (by omega)
    have hmem : (s.exec (.pop r)).mem = s.mem := rfl
    have hrsp : (s.exec (.pop r)).rsp = s.rsp + 8 := hadd
    have hregs : (s.exec (.pop r)).regs = Function.update s.regs r (g r) := by
      rw [← hr]
      rfl
    obtain ⟨hregs', hrsp', hmem'⟩ := ih (s := s.exec (.pop r))
      (by rw [hmem, hrsp]; exact hrest) (by omega)
    rw [List.map_cons, run_cons]
    refine ⟨?_, by omega, hmem'.trans hmem⟩
    rw [hregs', hregs]
    funext q
    by_cases hq : q ∈ rs
    · simp [hq]
    · by_cases hqr : q = r
      · subst hqr
        simp [hq]
      · simp [hq, hqr]

end Processor

lemma mem_popOrder (r : Gpr) : r ∈ popOrder := by cases r <;> decide

/-! ## The two halves of a stub -/

/-- The context with another value in a register. -/
def Context.setReg (ctx : Context) (r : Gpr) (v : UInt64) : Context :=
  { ctx with regs := Function.update ctx.regs r v }

/-- Where the frame of an interrupt goes. -/
def Context.frameAddr (ctx : Context) : ℕ := alignDown 16 ctx.rsp.toNat - TrapFrame.size

/-- The bytes of a frame. -/
def frameBytes (a : ℕ) : Set ℕ := Set.Ico a (a + TrapFrame.size)

lemma length_words (t : TrapFrame) : t.words.length = 28 := rfl

lemma words_irqFrame (ctx : Context) (index : UInt64) : (ctx.irqFrame index).words =
    ([ctx.ss, ctx.rsp, ctx.rflags, ctx.cs, ctx.rip] ++
      ([index] ++ pushOrder.map ctx.regs ++ List.replicate 7 0)).reverse := rfl

section Stub

variable {op : Gpr} {target index : UInt64} {ctx : Context} {seg : Seg → UInt16} {cr : Cr → UInt64}
  {m : Memory}

/-- The pushes of a stub. -/
lemma run_irqPushes (s : Processor) :
    s.run ([.pushImm index] ++ pushOrder.map .push ++ List.replicate 7 (.pushImm 0)) =
      s.pushes ([index] ++ pushOrder.map s.regs ++ List.replicate 7 0) := by
  have hzeros : List.replicate 7 (Instr.pushImm 0) = (List.replicate 7 0).map .pushImm := rfl
  have hindex : [Instr.pushImm index] = [index].map .pushImm := rfl
  rw [Processor.run_append, Processor.run_append, hzeros, hindex, Processor.run_pushImm,
    Processor.run_pushImm, Processor.run_push, Processor.pushes_append, Processor.pushes_append,
    Processor.regs_pushes, List.append_assoc]

/-- The machine once the frame is complete. -/
lemma irqEntry_eq (op : Gpr) (target index : UInt64) (ctx : Context) (seg : Seg → UInt16)
    (cr : Cr → UInt64) (m : Memory) : irqEntry op target index ctx seg cr m =
      (Processor.pushes ⟨(ctx.setReg op target).regs, seg, cr, alignDown 16 ctx.rsp.toNat, m⟩
        ((ctx.setReg op target).irqFrame index).words.reverse).run
          [.movFromRsp .rdi, .movFromRsp .rbp, .andRsp, .subRsp 8, .mov op .rax] := by
  have hint : ctx.interrupt seg cr m =
      Processor.pushes ⟨ctx.regs, seg, cr, alignDown 16 ctx.rsp.toNat, m⟩
        [ctx.ss, ctx.rsp, ctx.rflags, ctx.cs, ctx.rip] := rfl
  rw [irqEntry, irqStub, Processor.run_append, Processor.run_append, hint, Processor.run_movImm,
    run_irqPushes, Processor.pushes_append, words_irqFrame, List.reverse_reverse]
  rfl

/-- What the stub does between the frame and the call. -/
lemma run_call (op : Gpr) (s : Processor) :
    (s.run [.movFromRsp .rdi, .movFromRsp .rbp, .andRsp, .subRsp 8, .mov op .rax]).mem = s.mem ∧
    (s.run [.movFromRsp .rdi, .movFromRsp .rbp, .andRsp, .subRsp 8, .mov op .rax]).regs .rdi =
      UInt64.ofNat s.rsp :=
  ⟨rfl, by simp [Processor.run, Processor.exec, Processor.setReg]⟩

/-- **The frame holds what has been interrupted**, with the operand of the stub in its register. -/
lemma irqEntry_spec (op : Gpr) (target index : UInt64) (seg : Seg → UInt16) (cr : Cr → UInt64)
    (m : Memory) (hroom : TrapFrame.size ≤ alignDown 16 ctx.rsp.toNat) :
    (irqEntry op target index ctx seg cr m).regs .rdi = UInt64.ofNat ctx.frameAddr ∧
    FrameAt (irqEntry op target index ctx seg cr m).mem ctx.frameAddr
      ((ctx.setReg op target).irqFrame index) ∧
    SameOutside (frameBytes ctx.frameAddr) m (irqEntry op target index ctx seg cr m).mem := by
  have hlt : alignDown 16 ctx.rsp.toNat < word :=
    (alignDown_le 16 _).trans_lt ctx.rsp.toNat_lt
  set vs := ((ctx.setReg op target).irqFrame index).words.reverse with hvs
  have hlen : 8 * vs.length = TrapFrame.size := by
    rw [hvs, List.length_reverse, length_words, TrapFrame.size]
  obtain ⟨hrsp, hwords, hsame⟩ :=
    pushAll_spec m vs (by omega : 8 * vs.length ≤ alignDown 16 ctx.rsp.toNat) hlt
  rw [hlen, ← Context.frameAddr] at hrsp hwords hsame
  have htop : ctx.frameAddr + TrapFrame.size = alignDown 16 ctx.rsp.toNat :=
    Nat.sub_add_cancel hroom
  set s := Processor.pushes ⟨(ctx.setReg op target).regs, seg, cr, alignDown 16 ctx.rsp.toNat, m⟩ vs
    with hs
  have hsrsp : s.rsp = ctx.frameAddr := hrsp
  have hentry : irqEntry op target index ctx seg cr m = s.run _ := irqEntry_eq ..
  obtain ⟨hmem, hrdi⟩ := run_call op s
  rw [hentry, hmem, hrdi, hsrsp]
  refine ⟨rfl, ?_, ?_⟩
  · rw [hvs, List.reverse_reverse] at hwords
    exact hwords
  · rw [frameBytes, htop]
    exact hsame

end Stub

/-- **A frame is resumed** as it is. -/
lemma irqExit_spec {s : Processor} {f : ℕ} {t : TrapFrame} (hframe : FrameAt s.mem f t)
    (hrax : s.regs .rax = UInt64.ofNat f) (hlt : f + TrapFrame.size < word) :
    irqExit s = t.context := by
  rw [TrapFrame.size] at hlt
  rw [FrameAt, TrapFrame.words, words_append, words_append] at hframe
  obtain ⟨⟨-, hregs⟩, hrest⟩ := hframe
  have hf : (UInt64.ofNat f).toNat = f := by
    rw [UInt64.toNat_ofNat']
    exact Nat.mod_eq_of_lt ((Nat.le_add_right f 224).trans_lt hlt)
  -- past the control and segment registers
  set s₁ := s.run [.movToRsp .rax, .addRsp 56] with hs₁
  have hrsp₁ : s₁.rsp = f + 56 := by
    have hstep : s₁.rsp = wadd (s.regs .rax).toNat 56 := rfl
    rw [hstep, hrax, hf, wadd_of_lt (by omega)]
  have hmem₁ : s₁.mem = s.mem := rfl
  obtain ⟨hregs₂, hrsp₂, hmem₂⟩ := Processor.run_pops (s := s₁) t.regs
    (by rw [hmem₁, hrsp₁]; exact hregs) (by rw [hrsp₁]; show f + 56 + 8 * 15 < word; omega)
  set s₂ := s₁.run (popOrder.map .pop) with hs₂
  rw [hrsp₁] at hrsp₂
  have hexit : irqExit s = ({ s₂ with rsp := wadd s₂.rsp 8 } : Processor).iret := by
    rw [irqExit, irqReturnStub, Processor.run_append, Processor.run_append, ← hs₁, ← hs₂]
    rfl
  have hrsp₃ : wadd s₂.rsp 8 = f + 184 := by
    rw [hrsp₂]
    exact wadd_of_lt (by show f + 56 + 8 * 15 + 8 < word; omega)
  have hrest' : Words s.mem (f + 176) [t.errorCode, t.rip, t.cs, t.rflags, t.rsp, t.ss] := hrest
  obtain ⟨-, hrip, hcs, hflags, hrsp, hss, -⟩ := hrest'
  rw [hexit]
  apply Context.ext
  · show s₂.regs = t.regs
    rw [hregs₂]
    funext r
    rw [if_pos (mem_popOrder r)]
  all_goals
    simp only [Processor.iret, hrsp₃, hmem₂, hmem₁, TrapFrame.context]
  · exact hrip
  · rw [wadd_of_lt (by omega)]
    exact hcs
  · rw [wadd_of_lt (by omega)]
    exact hflags
  · rw [wadd_of_lt (by omega)]
    exact hrsp
  · rw [wadd_of_lt (by omega)]
    exact hss

end Cuore
