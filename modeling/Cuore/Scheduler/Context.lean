import Cuore.Binfmt.Elf64.Leak
import Cuore.Cpu.Idt
import Cuore.Scheduler.Run

/-!
# Context switches

The timer interrupt is where one task stops and another one goes on: its stub saves the current task
in a frame, `scheduler_timer_handler` returns the frame of the next one, and the stub resumes that.
Here the three are put together.  A `Kernel` is the scheduler together with the memory that the
stacks are in and what runs on each CPU, and `resume` writes down what every task should go on with:
what it was interrupted in, or what it was created with.

The C code and the tasks may change memory as they like, except that nobody writes to the frame of a
task that waits.  `KernelInv` is the invariant: the frames of all waiting tasks hold what `resume`
says.  `context_switch_transparent` says what follows for a task: it goes on with the registers that
it was interrupted with, all but the one that the compiler uses for the operand of the stub.
-/

namespace Cuore

open Memory

variable {Cpu : Type*}

/-! ## Creating a task -/

/-- The frame that `scheduler_create_task` makes at the top of a stack: the memory afterwards, and
where the frame is. -/
def createFrame (m : Memory) (stackTop : ℕ) (entryPoint : UInt64) : Memory × ℕ :=
  let alignedStackTop := stackTop &&& wnot 0xF
  let frame := wsub alignedStackTop trapFrameSize
  (initFrame m frame entryPoint.toNat alignedStackTop, frame)

/-- What a new task begins with. -/
def newContext (stackTop : ℕ) (entryPoint : UInt64) : Context where
  regs _ := 0
  rip := entryPoint
  cs := 0x08
  rflags := 0x202
  rsp := UInt64.ofNat (alignDown 16 stackTop)
  ss := 0x10

/-- A frame from which `ctx` is resumed. -/
def Resumes (m : Memory) (f : ℕ) (ctx : Context) : Prop :=
  f + TrapFrame.size < word ∧ ∃ t, FrameAt m f t ∧ t.context = ctx

/-! ## The kernel -/

/-- The scheduler, memory, and what runs on each CPU.  `resume` is what each task goes on with. -/
structure Kernel (Cpu : Type*) where
  sched : Sched Cpu
  mem : Memory
  ctx : Cpu → Context
  resume : ℕ → Context

/-- A task that waits. -/
def Sched.Waiting (s : Sched Cpu) (a : ℕ) : Prop := a ∈ s.allocated ∧ ∀ d, s.currentTask d ≠ a

/-- Nobody writes to the frame of a waiting task. -/
def KeepsFrames (s : Sched Cpu) (m m' : Memory) : Prop :=
  ∀ a, s.Waiting a → ∀ x ∈ frameBytes (s.tasks a).rsp, m' x = m x

/-- A frame is none of those of waiting tasks. -/
def NewFrame (s : Sched Cpu) (f : ℕ) : Prop :=
  ∀ a, s.Waiting a → Disjoint (frameBytes (s.tasks a).rsp) (frameBytes f)

/-- What the stub depends on: the register of its operand and the address of the handler. -/
structure StubOperand where
  op : Gpr
  target : UInt64

/-- What is left of a context that the stub interrupts. -/
def StubOperand.saved (o : StubOperand) (ctx : Context) : Context := ctx.setReg o.op o.target

/-- An interrupt on `c`, up to the return of the handler: the stub makes its frame on the stack of
what runs there, and whatever the handler writes, it leaves that frame and those of the waiting
tasks alone. -/
structure Interrupted (o : StubOperand) (k : Kernel Cpu) (c : Cpu) (ret : Processor) : Prop where
  room : TrapFrame.size ≤ alignDown 16 (k.ctx c).rsp.toNat
  newFrame : NewFrame k.sched (k.ctx c).frameAddr
  keeps : KeepsFrames k.sched
    (irqEntry o.op o.target 32 (k.ctx c) ret.seg ret.cr k.mem).mem ret.mem
  keepsOwn : ∀ x ∈ frameBytes (k.ctx c).frameAddr,
    ret.mem x = (irqEntry o.op o.target 32 (k.ctx c) ret.seg ret.cr k.mem).mem x

variable [DecidableEq Cpu]

/-- What happens in the kernel: `scheduler_init`, a new task (with the top of its stack and its
entry point), a timer interrupt, the exit of a task, and anything else that runs on a CPU. -/
inductive KernelEvent (Cpu : Type*)
  | init (c : Cpu) (a : ℕ)
  | exec (c : Cpu) (ctx' : Context)
  | enroll (c : Cpu) (a stackTop : ℕ) (entryPoint : UInt64)
  | tick (c : Cpu)
  | exit (c : Cpu)

/-- A step of the kernel. -/
inductive KernelStep (garbage : (ℕ → Task) → ℕ → Task) (o : StubOperand) :
    Kernel Cpu → KernelEvent Cpu → Kernel Cpu → Prop
  /-- `scheduler_init`. -/
  | init {k : Kernel Cpu} {c : Cpu} {a : ℕ} {s' : Sched Cpu} :
      schedStep garbage k.sched (.init c a) = some s' →
      KernelStep garbage o k (.init c a) { k with sched := s' }
  /-- Anything else that runs on a CPU. -/
  | exec {k : Kernel Cpu} (c : Cpu) (ctx' : Context) {m' : Memory} :
      KeepsFrames k.sched k.mem m' →
      KernelStep garbage o k (.exec c ctx')
        { k with mem := m', ctx := Function.update k.ctx c ctx' }
  /-- `scheduler_create_task` and `scheduler_enroll_task`. -/
  | enroll {k : Kernel Cpu} {c : Cpu} {a : ℕ} {t : Task} {s' : Sched Cpu} (stackTop : ℕ)
      (entryPoint : UInt64) : stackTop < word → TrapFrame.size ≤ alignDown 16 stackTop →
      t.rsp = (createFrame k.mem stackTop entryPoint).2 → NewFrame k.sched t.rsp →
      schedStep garbage k.sched (.enroll c a t) = some s' →
      KernelStep garbage o k (.enroll c a stackTop entryPoint) { k with
        sched := s'
        mem := (createFrame k.mem stackTop entryPoint).1
        resume := Function.update k.resume a (newContext stackTop entryPoint) }
  /-- A timer interrupt, or the `int $32` of `scheduler_yield`. -/
  | tick {k : Kernel Cpu} {c : Cpu} {ret : Processor} : Interrupted o k c ret →
      k.sched.currentTask c ≠ 0 →
      ret.regs .rax = UInt64.ofNat (k.sched.timerHandler garbage c (k.ctx c).frameAddr).1 →
      KernelStep garbage o k (.tick c)
        ⟨(k.sched.timerHandler garbage c (k.ctx c).frameAddr).2, ret.mem,
          Function.update k.ctx c (irqExit ret),
          Function.update k.resume (k.sched.currentTask c) (o.saved (k.ctx c))⟩
  /-- `scheduler_exit_task`. -/
  | exit {k : Kernel Cpu} {c : Cpu} {s' : Sched Cpu} {ret : Processor} {f : ℕ} :
      Interrupted o k c ret → k.sched.currentTask c ≠ 0 →
      k.sched.exitTask garbage c (k.ctx c).frameAddr = some (f, s') →
      ret.regs .rax = UInt64.ofNat f →
      KernelStep garbage o k (.exit c)
        ⟨s', ret.mem, Function.update k.ctx c (irqExit ret), k.resume⟩

/-- The states of the kernel, from the moment at which no CPU has a task. -/
inductive KernelRun (garbage : (ℕ → Task) → ℕ → Task) (o : StubOperand) : Kernel Cpu → Prop
  | start (tasks : ℕ → Task) (pml4 : Cpu → ℕ) (m : Memory) (ctx : Cpu → Context)
      (resume : ℕ → Context) :
      KernelRun garbage o ⟨(schedStart tasks pml4).1, m, ctx, resume⟩
  | step {k k' : Kernel Cpu} {e : KernelEvent Cpu} : KernelRun garbage o k →
      KernelStep garbage o k e k' → KernelRun garbage o k'

/-- Steps during which a task waits. -/
inductive Waits (garbage : (ℕ → Task) → ℕ → Task) (o : StubOperand) (a : ℕ) :
    Kernel Cpu → Kernel Cpu → Prop
  | refl {k : Kernel Cpu} : k.sched.Waiting a → Waits garbage o a k k
  | step {k k' k'' : Kernel Cpu} {e : KernelEvent Cpu} : Waits garbage o a k k' →
      KernelStep garbage o k' e k'' → k''.sched.Waiting a → Waits garbage o a k k''

/-- In a step from `k`, the task `a` is left behind to go on with `ctx`. -/
def KernelEvent.Leaves (o : StubOperand) (k : Kernel Cpu) (a : ℕ) (ctx : Context) :
    KernelEvent Cpu → Prop
  | .tick c => a = k.sched.currentTask c ∧ ctx = o.saved (k.ctx c)
  | .enroll _ b stackTop entryPoint => a = b ∧ ctx = newContext stackTop entryPoint
  | _ => False

/-- The event switches tasks on a CPU. -/
def KernelEvent.Switches (c : Cpu) : KernelEvent Cpu → Prop
  | .tick d => d = c
  | .exit d => d = c
  | _ => False

/-! ## Frames -/

section Frames

variable {m m' : Memory} {f : ℕ} {ctx : Context}

/-- A frame is its bytes. -/
lemma Resumes.congr (h : Resumes m f ctx) (hsame : ∀ x ∈ frameBytes f, m' x = m x) :
    Resumes m' f ctx := by
  obtain ⟨hlt, t, hframe, hctx⟩ := h
  exact ⟨hlt, t, hframe.congr fun x hx hx' => hsame x ⟨hx, hx'⟩, hctx⟩

/-- What a returning handler goes on with. -/
lemma Resumes.irqExit {ret : Processor} (h : Resumes ret.mem f ctx)
    (hrax : ret.regs .rax = UInt64.ofNat f) : irqExit ret = ctx := by
  obtain ⟨hlt, t, hframe, rfl⟩ := h
  exact irqExit_spec hframe hrax hlt

lemma words_zero {n a : ℕ} (h : ∀ x, a ≤ x → x < a + 8 * n → m x = 0) :
    Words m a (List.replicate n 0) := by
  induction n generalizing a with
  | zero => trivial
  | succ n ih =>
    refine ⟨?_, ih fun x hx hx' => h x (by omega) (by omega)⟩
    have hzero : m.load a 8 = (m.fill a 8 0).load a 8 := load_congr fun x hx hx' => by
      rw [fill_of_inside hx hx', h x hx (by omega)]
    rw [load64, hzero, load_fill_zero le_rfl le_rfl]
    rfl

/-- The fields that are set are read back, and the others are zero. -/
lemma initFrame_words (m : Memory) (f stackTop : ℕ) (entryPoint : UInt64) (hlt : stackTop < word) :
    Words (initFrame m f entryPoint.toNat stackTop) f
      (List.replicate 23 0 ++ [entryPoint, 0x08, 0x202, UInt64.ofNat stackTop, 0x10]) := by
  have hzero : ∀ x, f ≤ x → x < f + 8 * 23 → initFrame m f entryPoint.toNat stackTop x = 0 := by
    intro x hx hx'
    simp only [initFrame, setFrame, FrameField.offset, trapFrameSize]
    rw [store_of_outside (by omega), store_of_outside (by omega), store_of_outside (by omega),
      store_of_outside (by omega), store_of_outside (by omega), fill_of_inside hx (by omega)]
  have hmod : ∀ v < word, UInt64.ofNat (v % 256 ^ 8) = UInt64.ofNat v := fun v hv => by
    rw [Nat.mod_eq_of_lt (show v < 256 ^ 8 from hv)]
  rw [words_append, List.length_replicate]
  refine ⟨words_zero hzero, ?_, ?_, ?_, ?_, ?_, trivial⟩ <;>
    simp only [load64, initFrame, setFrame, FrameField.offset, Nat.add_assoc, Nat.reduceMul,
      Nat.reduceAdd]
  · rw [load_store_of_disjoint (by omega), load_store_of_disjoint (by omega),
      load_store_of_disjoint (by omega), load_store_of_disjoint (by omega), load_store_self,
      hmod _ entryPoint.toNat_lt, UInt64.ofNat_toNat]
  · rw [load_store_of_disjoint (by omega), load_store_of_disjoint (by omega),
      load_store_of_disjoint (by omega), load_store_self]
    rfl
  · rw [load_store_self]
    rfl
  · rw [load_store_of_disjoint (by omega), load_store_self, hmod _ hlt]
  · rw [load_store_of_disjoint (by omega), load_store_of_disjoint (by omega), load_store_self]
    rfl

/-- **The frame of a new task** begins it at its entry point. -/
lemma createFrame_spec (m : Memory) {stackTop : ℕ} (entryPoint : UInt64) (hlt : stackTop < word)
    (hroom : TrapFrame.size ≤ alignDown 16 stackTop) :
    Resumes (createFrame m stackTop entryPoint).1 (createFrame m stackTop entryPoint).2
      (newContext stackTop entryPoint) ∧
    SameOutside (frameBytes (createFrame m stackTop entryPoint).2) m
      (createFrame m stackTop entryPoint).1 := by
  have halign : stackTop &&& wnot 0xF = alignDown 16 stackTop :=
    and_wnot_pred (k := 4) (by decide) hlt
  have hle := alignDown_le 16 stackTop
  rw [TrapFrame.size] at hroom
  have hcreate : createFrame m stackTop entryPoint =
      (initFrame m (alignDown 16 stackTop - 224) entryPoint.toNat (alignDown 16 stackTop),
        alignDown 16 stackTop - 224) := by
    rw [createFrame, halign, trapFrameSize, wsub_of_le hroom (by omega)]
  obtain ⟨f, hf⟩ : ∃ f, f = alignDown 16 stackTop - 224 := ⟨_, rfl⟩
  rw [hcreate, ← hf]
  refine ⟨⟨?_, ⟨fun _ => 0, fun _ => 0, fun _ => 0, 0, entryPoint, 0x08, 0x202,
    UInt64.ofNat (alignDown 16 stackTop), 0x10⟩, ?_, rfl⟩, fun x hx => ?_⟩
  · rw [TrapFrame.size]
    omega
  · exact initFrame_words m f _ entryPoint (by omega)
  · rw [frameBytes, TrapFrame.size, Set.mem_Ico] at hx
    simp only [initFrame, setFrame, FrameField.offset, trapFrameSize]
    rw [store_of_outside (by omega), store_of_outside (by omega), store_of_outside (by omega),
      store_of_outside (by omega), store_of_outside (by omega), fill_of_outside (by omega)]

end Frames

/-! ## The invariant -/

/-- The rings are linked, and every task that waits has a frame from which it goes on. -/
structure KernelInv (k : Kernel Cpu) (ring : Cpu → List ℕ) : Prop where
  sched : SchedInv k.sched ring
  saved : ∀ c, ∀ a ∈ (ring c).tail, Resumes k.mem (k.sched.tasks a).rsp (k.resume a)

section Steps

variable {garbage : (ℕ → Task) → ℕ → Task} {o : StubOperand} {k k' : Kernel Cpu}
  {ring : Cpu → List ℕ} {c : Cpu} {ret : Processor} {a : ℕ}

/-- The tasks that are not at the head of their ring wait. -/
lemma SchedInv.waiting_iff {s : Sched Cpu} (h : SchedInv s ring) :
    s.Waiting a ↔ ∃ d, a ∈ (ring d).tail := by
  constructor
  · rintro ⟨halloc, hcur⟩
    obtain ⟨d, hd⟩ := (h.allocated a).mp halloc
    refine ⟨d, ?_⟩
    have hhead := h.current d
    cases hring : ring d with
    | nil =>
      rw [hring] at hd
      cases hd
    | cons x l =>
      rw [hring] at hd hhead
      exact (List.mem_cons.mp hd).resolve_left fun hax => hcur d (hhead.trans hax.symm)
  · rintro ⟨d, hd⟩
    have hmem : a ∈ ring d := List.mem_of_mem_tail hd
    refine ⟨(h.allocated a).mpr ⟨d, hmem⟩, fun e he => ?_⟩
    have hhead := h.current e
    cases hring : ring e with
    | nil =>
      rw [hring] at hhead
      exact h.ne_zero d a hmem (he.symm.trans hhead)
    | cons x l =>
      rw [hring] at hhead
      have hax : a = x := he.symm.trans hhead
      by_cases hed : e = d
      · subst hed
        have hnodup := h.nodup e
        rw [hring] at hd hnodup
        exact (List.nodup_cons.mp hnodup).1 (hax ▸ hd)
      · refine h.disjoint e d hed a ?_ hmem
        rw [hring, hax]
        exact List.mem_cons_self

lemma KernelInv.of_waiting (h : KernelInv k ring) (ha : k.sched.Waiting a) :
    Resumes k.mem (k.sched.tasks a).rsp (k.resume a) := by
  obtain ⟨d, hd⟩ := h.sched.waiting_iff.mp ha
  exact h.saved d a hd

lemma KernelInv.waiting (h : KernelInv k ring) {d : Cpu} (ha : a ∈ (ring d).tail) :
    k.sched.Waiting a := h.sched.waiting_iff.mpr ⟨d, ha⟩

omit [DecidableEq Cpu] in
/-- The task that has been interrupted has its frame. -/
lemma Interrupted.own (h : Interrupted o k c ret) :
    Resumes ret.mem (k.ctx c).frameAddr (o.saved (k.ctx c)) := by
  obtain ⟨-, hframe, -⟩ := irqEntry_spec o.op o.target 32 ret.seg ret.cr k.mem h.room
  have htop : (k.ctx c).frameAddr + TrapFrame.size = alignDown 16 (k.ctx c).rsp.toNat :=
    Nat.sub_add_cancel h.room
  have hlt : alignDown 16 (k.ctx c).rsp.toNat < word :=
    (alignDown_le 16 _).trans_lt (k.ctx c).rsp.toNat_lt
  exact Resumes.congr ⟨htop.trans_lt hlt, _, hframe, rfl⟩ h.keepsOwn

omit [DecidableEq Cpu] in
/-- The tasks that wait have theirs still. -/
lemma Interrupted.kept (h : Interrupted o k c ret) {ctx : Context} (ha : k.sched.Waiting a)
    (hsaved : Resumes k.mem (k.sched.tasks a).rsp ctx) :
    Resumes ret.mem (k.sched.tasks a).rsp ctx := by
  obtain ⟨-, -, hsame⟩ := irqEntry_spec o.op o.target 32 ret.seg ret.cr k.mem h.room
  refine (hsaved.congr fun x hx => hsame x fun hx' => ?_).congr (h.keeps a ha)
  exact Set.disjoint_left.mp (h.newFrame a ha) hx hx'

/-- What a task goes on with after a switch: the old one if it stays, and those that waited. -/
lemma KernelInv.resumes_after (h : KernelInv k ring) (hint : Interrupted o k c ret)
    {s' : Sched Cpu} {x : ℕ} {l : List ℕ} (hsame : Sched.SameTasks k.sched s' l x)
    (hown : a = x → (s'.tasks a).rsp = (k.ctx c).frameAddr) (hother : a ≠ x → k.sched.Waiting a) :
    Resumes ret.mem (s'.tasks a).rsp (Function.update k.resume x (o.saved (k.ctx c)) a) := by
  by_cases hax : a = x
  · rw [hown hax, hax, Function.update_self]
    exact hint.own
  · rw [(hsame.fields a hax).2, Function.update_of_ne hax]
    exact hint.kept (hother hax) (h.of_waiting (hother hax))

omit [DecidableEq Cpu] in
lemma mem_tail_of_ne_head {l : List ℕ} {x : ℕ} (hl : ring c = x :: l) (ha : a ∈ ring c)
    (hax : a ≠ x) : a ∈ (ring c).tail := by
  rw [hl] at ha ⊢
  exact (List.mem_cons.mp ha).resolve_left hax

/-- The frame that the handler returns is that of the task that is current then. -/
lemma Sched.timerHandler_fst (garbage : (ℕ → Task) → ℕ → Task) (s : Sched Cpu) (c : Cpu) (tf : ℕ) :
    (s.timerHandler garbage c tf).1 = ((s.timerHandler garbage c tf).2.tasks
      ((s.timerHandler garbage c tf).2.currentTask c)).rsp := by
  have hswitch : ∀ (t : Sched Cpu) (next : ℕ), (t.switchTo c next).1 =
      ((t.switchTo c next).2.tasks ((t.switchTo c next).2.currentTask c)).rsp := by
    intro t next
    simp [Sched.switchTo, Sched.setCurrent]
  unfold Sched.timerHandler
  dsimp only
  split_ifs <;> exact hswitch _ _

/-- **A switch** on one CPU: what goes on is what the new current task should go on with. -/
lemma KernelInv.switch (h : KernelInv k ring) (hint : Interrupted o k c ret) {s' : Sched Cpu}
    {f x : ℕ} {l l' freed : List ℕ} (hring : ring c = x :: l)
    (hstep : SchedInv.Stepped k.sched s' c (x :: l) l' x freed) (hsched : SchedInv s'
      (Function.update ring c l')) (hl' : ∀ a ∈ l', a ∈ ring c) (hne : l' ≠ [])
    (hown : x ∈ l' → (s'.tasks x).rsp = (k.ctx c).frameAddr)
    (hf : f = (s'.tasks (s'.currentTask c)).rsp) (hrax : ret.regs .rax = UInt64.ofNat f) :
    KernelInv ⟨s', ret.mem, Function.update k.ctx c (irqExit ret),
        Function.update k.resume x (o.saved (k.ctx c))⟩ (Function.update ring c l') ∧
      irqExit ret = Function.update k.resume x (o.saved (k.ctx c)) (s'.currentTask c) := by
  -- a task of the ring is the old one or has waited
  have hmem : ∀ a ∈ l', Resumes ret.mem (s'.tasks a).rsp
      (Function.update k.resume x (o.saved (k.ctx c)) a) := fun a ha =>
    h.resumes_after hint hstep.same (fun hax => hax ▸ hown (hax ▸ ha)) fun hax =>
      h.waiting (mem_tail_of_ne_head hring (hl' a ha) hax)
  refine ⟨⟨hsched, fun d a ha => ?_⟩, ?_⟩
  · by_cases hd : d = c
    · subst hd
      rw [Function.update_self] at ha
      exact hmem a (List.mem_of_mem_tail ha)
    · rw [Function.update_of_ne hd] at ha
      have hax : a ≠ x := fun hax => h.sched.disjoint d c hd a (List.mem_of_mem_tail ha)
        (hring ▸ hax ▸ List.mem_cons_self)
      exact h.resumes_after hint hstep.same (fun hax' => absurd hax' hax) fun _ => h.waiting ha
  · obtain ⟨y, l₁, rfl⟩ := List.exists_cons_of_ne_nil hne
    have hcur : s'.currentTask c = y := by
      rw [hstep.current, Function.update_self]
      rfl
    rw [hf, hcur] at hrax
    rw [hcur]
    exact (hmem y List.mem_cons_self).irqExit hrax

lemma KernelInv.tick (h : KernelInv k ring) (hint : Interrupted o k c ret)
    (hcur : k.sched.currentTask c ≠ 0)
    (hrax : ret.regs .rax =
      UInt64.ofNat (k.sched.timerHandler garbage c (k.ctx c).frameAddr).1) :
    ∃ ring', KernelInv ⟨(k.sched.timerHandler garbage c (k.ctx c).frameAddr).2, ret.mem,
        Function.update k.ctx c (irqExit ret),
        Function.update k.resume (k.sched.currentTask c) (o.saved (k.ctx c))⟩ ring' ∧
      irqExit ret = Function.update k.resume (k.sched.currentTask c) (o.saved (k.ctx c))
        ((k.sched.timerHandler garbage c (k.ctx c).frameAddr).2.currentTask c) := by
  set s' := (k.sched.timerHandler garbage c (k.ctx c).frameAddr).2 with hs'
  have hs : schedStep garbage k.sched (.tick c (k.ctx c).frameAddr) = some s' := if_pos hcur
  have hinv := h.sched.step hs
  have hf := k.sched.timerHandler_fst garbage c (k.ctx c).frameAddr
  rw [← hs'] at hf
  obtain ⟨x, l, hring, hcase⟩ := h.sched.step_tick hs
  have hx : k.sched.currentTask c = x := by rw [h.sched.current c, hring]; rfl
  rw [hx]
  rcases hcase with ⟨hkeep, hstep, -, -, -, hrsp⟩ | ⟨hupid, hl, hstep, -, -⟩
  · rw [ringAfter, hring, tickRing, if_neg hkeep] at hinv
    refine ⟨_, h.switch hint hring hstep hinv (fun a ha => ?_) (by simp) (fun _ => hrsp) hf hrax⟩
    rw [hring]
    simpa [or_comm] using ha
  · rw [ringAfter, hring, tickRing, if_pos ⟨hupid, hl⟩] at hinv
    have hnodup := h.sched.nodup c
    rw [hring] at hnodup
    refine ⟨_, h.switch hint hring hstep hinv (fun a ha => ?_) hl
      (fun hxl => absurd hxl (List.nodup_cons.mp hnodup).1) hf hrax⟩
    rw [hring]
    exact List.mem_cons_of_mem _ ha

lemma KernelInv.exit (h : KernelInv k ring) (hint : Interrupted o k c ret) {s' : Sched Cpu} {f : ℕ}
    (hcur : k.sched.currentTask c ≠ 0)
    (hexit : k.sched.exitTask garbage c (k.ctx c).frameAddr = some (f, s'))
    (hrax : ret.regs .rax = UInt64.ofNat f) :
    ∃ ring', KernelInv ⟨s', ret.mem, Function.update k.ctx c (irqExit ret), k.resume⟩ ring' ∧
      irqExit ret = k.resume (s'.currentTask c) := by
  have hs : schedStep garbage k.sched (.exit c (k.ctx c).frameAddr) = some s' := by
    rw [schedStep, if_pos hcur, hexit]
    rfl
  have hinv := h.sched.step hs
  obtain ⟨x, l, hring, hl, hstep, -⟩ := h.sched.step_exit hs
  rw [ringAfter, hring, List.tail_cons] at hinv
  have hf : f = (s'.tasks (s'.currentTask c)).rsp := by
    rw [Sched.exitTask] at hexit
    split_ifs at hexit
    have hpair := Option.some.inj hexit
    have hfst := Sched.timerHandler_fst garbage
      (k.sched.modify (k.sched.currentTask c) fun t => { t with upid := 0 }) c (k.ctx c).frameAddr
    rwa [hpair] at hfst
  have hnodup := h.sched.nodup c
  rw [hring] at hnodup
  have hxl : x ∉ l := (List.nodup_cons.mp hnodup).1
  obtain ⟨hk, hgo⟩ := h.switch hint hring hstep hinv
    (fun a ha => hring ▸ List.mem_cons_of_mem _ ha) hl (fun hmem => absurd hmem hxl) hf hrax
  -- the task that has gone is in no ring
  have hgone : ∀ d, ∀ a ∈ Function.update ring c l d, a ≠ x := by
    rintro d a ha rfl
    by_cases hd : d = c
    · subst hd
      rw [Function.update_self] at ha
      exact hxl ha
    · rw [Function.update_of_ne hd] at ha
      exact h.sched.disjoint d c hd a ha (hring ▸ List.mem_cons_self)
  refine ⟨_, ⟨hk.sched, fun d a ha => ?_⟩, ?_⟩
  · have hsaved := hk.saved d a ha
    simp only [Function.update_of_ne (hgone d a (List.mem_of_mem_tail ha))] at hsaved
    exact hsaved
  · obtain ⟨y, l₁, rfl⟩ := List.exists_cons_of_ne_nil hl
    have hy : s'.currentTask c = y := by
      rw [hstep.current, Function.update_self]
      rfl
    have hyx : y ≠ x := hgone c y (by rw [Function.update_self]; exact List.mem_cons_self)
    rw [hgo, hy, Function.update_of_ne hyx]

/-- **Every step keeps the frames of the tasks that wait.** -/
lemma KernelInv.step (h : KernelInv k ring) {e : KernelEvent Cpu}
    (hs : KernelStep garbage o k e k') : ∃ ring', KernelInv k' ring' ∧
      ∀ d, e.Switches d → k'.ctx d = k'.resume (k'.sched.currentTask d) := by
  cases hs with
  | @init c a s' hs =>
    refine ⟨_, ⟨h.sched.step hs, fun e b hb => ?_⟩, fun _ => False.elim⟩
    obtain ⟨-, -, hfresh, hstep, -⟩ := h.sched.step_init hs
    rw [ringAfter] at hb
    by_cases he : e = c
    · subst he
      rw [Function.update_self] at hb
      cases hb
    · rw [Function.update_of_ne he] at hb
      have hba : b ≠ a := fun hba =>
        hfresh ((h.sched.allocated a).mpr ⟨e, hba ▸ List.mem_of_mem_tail hb⟩)
      show Resumes k.mem (s'.tasks b).rsp (k.resume b)
      rw [(hstep.same.fields b hba).2]
      exact h.saved e b hb
  | exec c ctx' hkeeps =>
    refine ⟨ring, ⟨h.sched, fun e b hb => ?_⟩, fun _ => False.elim⟩
    exact (h.saved e b hb).congr (hkeeps b (h.waiting hb))
  | @enroll c a t s' stackTop entryPoint hlt hroom hrsp hnew hs =>
    refine ⟨_, ⟨h.sched.step hs, fun e b hb => ?_⟩, fun _ => False.elim⟩
    obtain ⟨x, l, hring, -, hfresh, hstep, -, -, -, hrsp'⟩ := h.sched.step_enroll hs
    obtain ⟨hcreate, hsame⟩ := createFrame_spec k.mem entryPoint hlt hroom
    show Resumes (createFrame k.mem stackTop entryPoint).1 (s'.tasks b).rsp
      (Function.update k.resume a (newContext stackTop entryPoint) b)
    rw [ringAfter] at hb
    by_cases hba : b = a
    · subst hba
      rw [Function.update_self, hrsp', hrsp]
      exact hcreate
    · have hold : b ∈ (ring e).tail := by
        by_cases he : e = c
        · subst he
          rw [Function.update_self, hring, List.cons_append, List.tail_cons, List.mem_append,
            List.mem_singleton] at hb
          rw [hring]
          exact hb.resolve_right hba
        · rwa [Function.update_of_ne he] at hb
      rw [Function.update_of_ne hba, (hstep.same.fields b hba).2]
      refine (h.saved e b hold).congr fun y hy => hsame y fun hy' => ?_
      exact Set.disjoint_left.mp (hnew b (h.waiting hold)) hy (hrsp ▸ hy')
  | @tick c ret hint hcur hrax =>
    obtain ⟨ring', hinv, hgo⟩ := h.tick hint hcur hrax
    refine ⟨ring', hinv, ?_⟩
    rintro d rfl
    exact (Function.update_self ..).trans hgo
  | @exit c s' ret f hint hcur hexit hrax =>
    obtain ⟨ring', hinv, hgo⟩ := h.exit hint hcur hexit hrax
    refine ⟨ring', hinv, ?_⟩
    rintro d rfl
    exact (Function.update_self ..).trans hgo

/-- **Every run** keeps the frames of the tasks that wait. -/
lemma KernelRun.inv (h : KernelRun garbage o k) : ∃ ring, KernelInv k ring := by
  induction h with
  | start tasks pml4 m ctx resume =>
    refine ⟨fun _ => [], ⟨fun _ => trivial, fun _ => rfl, fun _ => List.nodup_nil, by simp,
      by simp, by simp [schedStart], by simp [schedStart]⟩, by simp⟩
  | step _ hs ih =>
    obtain ⟨ring, hinv⟩ := ih
    obtain ⟨ring', hinv', -⟩ := hinv.step hs
    exact ⟨ring', hinv'⟩

/-- What a waiting task should go on with is not changed. -/
lemma KernelInv.resume_eq (h : KernelInv k ring) {e : KernelEvent Cpu}
    (hs : KernelStep garbage o k e k') (ha : k.sched.Waiting a) : k'.resume a = k.resume a := by
  cases hs with
  | init hs => rfl
  | exec c ctx' hkeeps => rfl
  | @enroll c b t s' stackTop entryPoint hlt hroom hrsp hnew hs =>
    obtain ⟨x, l, -, -, hfresh, -⟩ := h.sched.step_enroll hs
    have hab : a ≠ b := fun hab => hfresh (hab ▸ ha.1)
    exact Function.update_of_ne hab ..
  | @tick c ret hint hcur hrax => exact Function.update_of_ne (ha.2 c).symm ..
  | exit hint hcur hexit hrax => rfl

/-- As long as a task waits, it should go on with the same. -/
lemma Waits.resume_eq (hw : Waits garbage o a k k') (hrun : KernelRun garbage o k) :
    KernelRun garbage o k' ∧ k'.sched.Waiting a ∧ k'.resume a = k.resume a := by
  induction hw with
  | refl hwait => exact ⟨hrun, hwait, rfl⟩
  | step _ hs hwait ih =>
    obtain ⟨hrun', hwait', hsame⟩ := ih
    obtain ⟨ring, hinv⟩ := hrun'.inv
    exact ⟨hrun'.step hs, hwait, (hinv.resume_eq hs hwait').trans hsame⟩

/-- What a task is left behind with is what it should go on with. -/
lemma KernelStep.resume_of_leaves {e : KernelEvent Cpu} {ctx : Context}
    (hs : KernelStep garbage o k e k') (hl : e.Leaves o k a ctx) : k'.resume a = ctx := by
  cases hs with
  | init => exact hl.elim
  | exec => exact hl.elim
  | exit => exact hl.elim
  | enroll =>
    obtain ⟨rfl, rfl⟩ := hl
    exact Function.update_self ..
  | tick =>
    obtain ⟨rfl, rfl⟩ := hl
    exact Function.update_self ..

end Steps

/-! ## Tasks do not see each other -/

/-- **Context switches are transparent.**  A task that an interrupt has taken its CPU from, or that
has just been created, goes on with what it was left behind with: at once if there is no other task,
and else when it is switched to after it has waited for any number of steps of any CPUs. -/
theorem context_switch_transparent {garbage : (ℕ → Task) → ℕ → Task} {o : StubOperand}
    {k₁ k₂ : Kernel Cpu} {leave : KernelEvent Cpu} {a : ℕ} {ctx : Context} {d : Cpu}
    (hrun : KernelRun garbage o k₁) (hleave : KernelStep garbage o k₁ leave k₂)
    (hctx : leave.Leaves o k₁ a ctx) :
    (leave.Switches d → k₂.sched.currentTask d = a → k₂.ctx d = ctx) ∧
    ∀ k₃ k₄ back, Waits garbage o a k₂ k₃ → KernelStep garbage o k₃ back k₄ → back.Switches d →
      k₄.sched.currentTask d = a → k₄.ctx d = ctx := by
  have hleft : k₂.resume a = ctx := hleave.resume_of_leaves hctx
  constructor
  · intro hswitch hcur
    obtain ⟨ring, hinv⟩ := hrun.inv
    obtain ⟨-, -, hgo⟩ := hinv.step hleave
    rw [hgo d hswitch, hcur, hleft]
  · intro k₃ k₄ back hwaits hback hswitch hcur
    obtain ⟨hrun₃, hwait, hsame⟩ := hwaits.resume_eq (hrun.step hleave)
    obtain ⟨ring, hinv⟩ := hrun₃.inv
    obtain ⟨-, -, hgo⟩ := hinv.step hback
    calc k₄.ctx d = k₄.resume (k₄.sched.currentTask d) := hgo d hswitch
      _ = k₄.resume a := by rw [hcur]
      _ = k₃.resume a := hinv.resume_eq hback hwait
      _ = k₂.resume a := hsame
      _ = ctx := hleft

/-- Freed memory is cleared here. -/
def cleared : (ℕ → Task) → ℕ → Task := fun _ _ => ⟨0, 0, 0, 0, 0, 0⟩

/-- The stub has its operand in `rcx`. -/
def stubOperand : StubOperand := ⟨.rcx, 0x1000⟩

/-- A context on a stack of its own. -/
def bootContext : Context := ⟨fun _ => 0, 0, 0x08, 0x202, 0x20000, 0x10⟩

/-- One CPU, whose bootstrap task is at 8. -/
def bootKernel : Kernel Unit where
  sched := (schedStart (fun _ => ⟨0, 0, 0, 0, 0, 0⟩) fun _ => 0).1.schedulerInit () 8
  mem _ := 0
  ctx _ := bootContext
  resume _ := bootContext

/-- The task that it creates. -/
def createdTask : Task := ⟨0, (createFrame bootKernel.mem 0x10000 0x400000).2, 0, 0, 0, 0⟩

/-- The new task is at 16. -/
def createdKernel : Kernel Unit where
  sched := (bootKernel.sched.allocTask 16 createdTask).enrollTask () 16
  mem := (createFrame bootKernel.mem 0x10000 0x400000).1
  ctx _ := bootContext
  resume := Function.update bootKernel.resume 16 (newContext 0x10000 0x400000)

lemma bootKernel_run : KernelRun cleared stubOperand bootKernel := by
  have hinit : schedStep cleared (schedStart (fun _ => ⟨0, 0, 0, 0, 0, 0⟩) fun _ => 0).1
      (.init () 8) = some bootKernel.sched := by
    rw [schedStep, if_pos (by decide)]
    rfl
  exact (KernelRun.start _ _ bootKernel.mem bootKernel.ctx bootKernel.resume).step (.init hinit)

lemma createdKernel_step : KernelStep cleared stubOperand bootKernel
    (.enroll () 16 0x10000 0x400000) createdKernel := by
  have henroll : schedStep cleared bootKernel.sched (.enroll () 16 createdTask) =
      some createdKernel.sched := by
    rw [schedStep, if_pos (by decide)]
    rfl
  refine .enroll 0x10000 0x400000 (by decide) (by decide) rfl (fun a ha => ?_) henroll
  -- nobody waits yet
  have halloc : a = 8 := List.mem_singleton.mp ha.1
  exact absurd halloc.symm (ha.2 ())

/-- What the stub and the handler of the next timer interrupt make of it. -/
def createdReturn : Processor :=
  let entry := irqEntry stubOperand.op stubOperand.target 32 bootContext (fun _ => 0) (fun _ => 0)
    createdKernel.mem
  entry.setReg .rax (UInt64.ofNat
    (createdKernel.sched.timerHandler cleared () bootContext.frameAddr).1)

lemma createdKernel_interrupted :
    Interrupted stubOperand createdKernel () createdReturn := by
  refine ⟨by decide, fun a ha => ?_, fun _ _ _ _ => rfl, fun _ _ => rfl⟩
  have halloc : a ∈ [16, 8] := ha.1
  have hne : 8 ≠ a := ha.2 ()
  have ha : a = 16 := by simpa [hne.symm] using halloc
  rw [ha, Set.disjoint_left]
  rintro x ⟨-, hx⟩ ⟨hx', -⟩
  exact absurd (hx'.trans_lt hx) (by decide)

/-- It creates a task, and the next timer interrupt switches to it. -/
theorem context_switch_transparent_created :
    ∃ k, KernelStep cleared stubOperand bootKernel (.enroll () 16 0x10000 0x400000) createdKernel ∧
      KernelStep cleared stubOperand createdKernel (.tick ()) k ∧
      k.ctx () = newContext 0x10000 0x400000 := by
  have hrax : createdReturn.regs .rax = UInt64.ofNat (createdKernel.sched.timerHandler cleared ()
      bootContext.frameAddr).1 := by
    rw [createdReturn, Processor.regs_setReg_self]
  have htick := KernelStep.tick createdKernel_interrupted (by decide) hrax
  have hwait : createdKernel.sched.Waiting 16 := ⟨by decide, by decide⟩
  exact ⟨_, createdKernel_step, htick, (context_switch_transparent (d := ()) bootKernel_run
    createdKernel_step ⟨rfl, rfl⟩).2 _ _ _ (.refl hwait) htick rfl rfl⟩

end Cuore
