import Cuore.Framework.Ring
import Mathlib.Logic.Function.Basic

/-!
# The UART receive ring (`drivers/UART16550.c`)

`uart16550_irq_handler` puts arriving characters into `rx_buffer` and `uart16550_getc` takes them
out.  The two share the buffer and two `volatile` indices, and the handler can interrupt `getc`
anywhere.  The model splits both into single accesses: a step of `Uart.step` is one read or one
write of a shared variable, together with what the code does to its local variables up to the next
access, and the steps of the two interleave in any order.

The state carries two records of what happened, which no step reads: `log`, the arrivals in the
order in which the handler tested for space, each with the number of characters queued at that
moment, and `returned`, what `getc` has returned.  `accepted` is the part of the log that a bounded
FIFO with `RX_BUF_SIZE - 1` places would have taken in.

The invariant is `FifoInv`: what was accepted is what was returned, then the window of the ring
between the two indices, then a character that the handler is about to publish.
`FifoInv.handlerStep` and `FifoInv.getcStep` are its step lemmas, `uart16550_fifo` the theorem over
all runs, and `exists_drain` says that what is queued does come out.
-/

namespace Cuore

/-! ## States -/

/-- `RX_BUF_SIZE`. -/
def rxBufSize : ℕ := 1024

/-- Where `uart16550_irq_handler` stands, with the locals it has at that point. -/
inductive HandlerPc
  /-- At the test of the line status, or outside the handler. -/
  | waiting
  /-- A character has been read from the data register. -/
  | received (c : UInt8)
  /-- `rx_write_ptr` has been read, and `next` computed. -/
  | haveNext (c : UInt8) (next : ℕ)
  /-- The test for space has succeeded. -/
  | storing (c : UInt8) (next : ℕ)
  /-- `rx_write_ptr` has been read again, as the index of the store. -/
  | storeAt (c : UInt8) (next index : ℕ)
  /-- The character is stored. -/
  | publish (c : UInt8) (next : ℕ)

/-- Where `uart16550_getc` stands, with the locals it has at that point. -/
inductive GetcPc
  /-- At the test of the loop, or outside the function. -/
  | loop
  /-- `rx_read_ptr` has been read for the test. -/
  | compare (readPtr : ℕ)
  /-- The test has found the indices different. -/
  | nonempty
  /-- `rx_read_ptr` has been read as the index of the load. -/
  | loadAt (index : ℕ)
  /-- The character is loaded. -/
  | loaded (c : UInt8)
  /-- `rx_read_ptr` has been read for the increment. -/
  | advance (c : UInt8) (readPtr : ℕ)

/-- The shared variables, both programs, and the records of what happened. -/
structure Uart where
  rxBuffer : ℕ → UInt8
  rxReadPtr : ℕ
  rxWritePtr : ℕ
  handler : HandlerPc
  getc : GetcPc
  log : List (UInt8 × ℕ)
  returned : List UInt8

/-- The arrivals that found fewer than `RX_BUF_SIZE - 1` characters queued, in order. -/
def accepted (log : List (UInt8 × ℕ)) : List UInt8 :=
  (log.filter fun p => p.2 < rxBufSize - 1).map Prod.fst

lemma accepted_append (log : List (UInt8 × ℕ)) (c : UInt8) (found : ℕ) :
    accepted (log ++ [(c, found)]) =
      accepted log ++ if found < rxBufSize - 1 then [c] else [] := by
  rw [accepted, accepted, List.filter_append, List.map_append]
  split_ifs with h <;> simp [h]

namespace Uart

/-- `uart16550_init`, with any contents of the buffer. -/
def init (rxBuffer : ℕ → UInt8) : Uart :=
  { rxBuffer := rxBuffer, rxReadPtr := 0, rxWritePtr := 0, handler := .waiting, getc := .loop,
    log := [], returned := [] }

/-- The number of characters queued: accepted, and not yet returned. -/
def queued (s : Uart) : ℕ := (accepted s.log).length - s.returned.length

/-! ## Steps -/

/-- What can happen next. -/
inductive Act
  /-- The handler reads an arriving character from the data register. -/
  | arrive (c : UInt8)
  /-- The handler's next access. -/
  | handler
  /-- The next access of `getc`. -/
  | getc

/-- The accesses of `uart16550_irq_handler` after the data register. -/
def handlerStep (s : Uart) : Option Uart :=
  match s.handler with
  | .waiting => none
  | .received c =>
    some { s with handler := .haveNext c ((s.rxWritePtr + 1) % 2 ^ 32 % rxBufSize) }
  | .haveNext c next =>
    let log := s.log ++ [(c, s.queued)]
    if next ≠ s.rxReadPtr then some { s with handler := .storing c next, log := log }
    else some { s with handler := .waiting, log := log }
  | .storing c next => some { s with handler := .storeAt c next s.rxWritePtr }
  | .storeAt c next index =>
    some { s with handler := .publish c next, rxBuffer := Function.update s.rxBuffer index c }
  | .publish _ next => some { s with handler := .waiting, rxWritePtr := next }

/-- The accesses of `uart16550_getc`.  Its last one returns the character. -/
def getcStep (s : Uart) : Uart :=
  match s.getc with
  | .loop => { s with getc := .compare s.rxReadPtr }
  | .compare readPtr =>
    if readPtr = s.rxWritePtr then { s with getc := .loop } else { s with getc := .nonempty }
  | .nonempty => { s with getc := .loadAt s.rxReadPtr }
  | .loadAt index => { s with getc := .loaded (s.rxBuffer index) }
  | .loaded c => { s with getc := .advance c s.rxReadPtr }
  | .advance c readPtr =>
    { s with getc := .loop, rxReadPtr := (readPtr + 1) % 2 ^ 32 % rxBufSize,
             returned := s.returned ++ [c] }

/-- One step.  A character is taken in when the handler is at the head of its loop. -/
def step (s : Uart) : Act → Option Uart
  | .arrive c =>
    match s.handler with
    | .waiting => some { s with handler := .received c }
    | _ => none
  | .handler => s.handlerStep
  | .getc => some s.getcStep

/-- A sequence of steps. -/
def run (s : Uart) : List Act → Option Uart
  | [] => some s
  | a :: acts => (s.step a).bind fun s' => run s' acts

/-- The characters that arrive in a sequence of steps. -/
def arrivals (acts : List Act) : List UInt8 :=
  acts.filterMap fun
    | .arrive c => some c
    | _ => none

/-- The character that the handler holds and has not yet found a place for. -/
def untested (s : Uart) : List UInt8 :=
  match s.handler with
  | .received c | .haveNext c _ => [c]
  | _ => []

/-- The character that the handler has found a place for and not yet published. -/
def unpublished (s : Uart) : List UInt8 :=
  match s.handler with
  | .storing c _ | .storeAt c _ _ | .publish c _ => [c]
  | _ => []

/-- What stands in the ring between the two indices. -/
def ring (s : Uart) : List UInt8 :=
  ringView rxBufSize s.rxBuffer s.rxReadPtr
    ((s.rxWritePtr + (rxBufSize - s.rxReadPtr)) % rxBufSize)

end Uart

/-! ## The invariant -/

/-- What the handler has already found out, with `q` characters in the ring. -/
def HandlerOk (buf : ℕ → UInt8) (w q : ℕ) : HandlerPc → Prop
  | .waiting | .received _ => True
  | .haveNext _ next => next = (w + 1) % rxBufSize
  | .storing _ next => next = (w + 1) % rxBufSize ∧ q + 1 < rxBufSize
  | .storeAt _ next index => next = (w + 1) % rxBufSize ∧ q + 1 < rxBufSize ∧ index = w
  | .publish c next => next = (w + 1) % rxBufSize ∧ q + 1 < rxBufSize ∧ buf w = c

/-- What `getc` has already found out, with `q` characters in the ring. -/
def GetcOk (buf : ℕ → UInt8) (r q : ℕ) : GetcPc → Prop
  | .loop => True
  | .compare readPtr => readPtr = r
  | .nonempty => 0 < q
  | .loadAt index => 0 < q ∧ index = r
  | .loaded c => 0 < q ∧ c = buf r
  | .advance c readPtr => 0 < q ∧ c = buf r ∧ readPtr = r

/-- **The ring is a queue** of `q` characters. -/
structure FifoInv (s : Uart) (q : ℕ) : Prop where
  read_lt : s.rxReadPtr < rxBufSize
  queue_lt : q < rxBufSize
  write_eq : s.rxWritePtr = (s.rxReadPtr + q) % rxBufSize
  contents : accepted s.log =
    s.returned ++ (ringView rxBufSize s.rxBuffer s.rxReadPtr q ++ s.unpublished)
  handlerOk : HandlerOk s.rxBuffer s.rxWritePtr q s.handler
  getcOk : GetcOk s.rxBuffer s.rxReadPtr q s.getc

lemma fifoInv_init (buf : ℕ → UInt8) : FifoInv (Uart.init buf) 0 where
  read_lt := Nat.succ_pos _
  queue_lt := by decide
  write_eq := rfl
  contents := rfl
  handlerOk := trivial
  getcOk := trivial

namespace FifoInv

variable {s : Uart} {q : ℕ}

lemma ring_eq (h : FifoInv s q) : s.ring = ringView rxBufSize s.rxBuffer s.rxReadPtr q := by
  have hr := h.read_lt
  have hq := h.queue_lt
  have hcount : (s.rxWritePtr + (rxBufSize - s.rxReadPtr)) % rxBufSize = q := by
    rw [h.write_eq]
    simp only [rxBufSize] at hr hq ⊢
    omega
  rw [Uart.ring, hcount]

/-- The arrival at the test finds the characters in the ring. -/
lemma queued_eq (h : FifoInv s q) (hu : s.unpublished = []) : s.queued = q := by
  rw [Uart.queued, h.contents, hu, List.append_nil, List.length_append, length_ringView,
    Nat.add_sub_cancel_left]

/-- The write index is not one of the positions that are queued. -/
lemma write_ne (h : FifoInv s q) {i : ℕ} (hi : i < q) :
    (s.rxReadPtr + i) % rxBufSize ≠ s.rxWritePtr := by
  rw [h.write_eq]
  have hq := h.queue_lt
  exact ring_pos_ne hi (by omega)

/-- The test for space succeeds exactly with fewer than `RX_BUF_SIZE - 1` characters queued. -/
lemma next_ne_iff (h : FifoInv s q) :
    (s.rxWritePtr + 1) % rxBufSize ≠ s.rxReadPtr ↔ q < rxBufSize - 1 := by
  have hr := h.read_lt
  have hq := h.queue_lt
  rw [h.write_eq]
  simp only [rxBufSize] at hr hq ⊢
  omega

end FifoInv

/-! ## Steps keep the invariant -/

/-- What `getc` knows survives further characters. -/
lemma GetcOk.mono {buf : ℕ → UInt8} {r q q' : ℕ} {pc : GetcPc} (h : GetcOk buf r q pc)
    (hq : q ≤ q') : GetcOk buf r q' pc := by
  cases pc with
  | loop => trivial
  | compare readPtr => exact h
  | nonempty => exact lt_of_lt_of_le h hq
  | loadAt index => exact ⟨h.1.trans_le hq, h.2⟩
  | loaded c => exact ⟨h.1.trans_le hq, h.2⟩
  | advance c readPtr => exact ⟨h.1.trans_le hq, h.2⟩

/-- What `getc` knows survives a store that misses the character in front. -/
lemma GetcOk.update {buf : ℕ → UInt8} {r q w : ℕ} {c : UInt8} {pc : GetcPc}
    (h : GetcOk buf r q pc) (hw : 0 < q → r ≠ w) : GetcOk (Function.update buf w c) r q pc := by
  cases pc with
  | loop => trivial
  | compare readPtr => exact h
  | nonempty => exact h
  | loadAt index => exact h
  | loaded d => exact ⟨h.1, by rw [Function.update_of_ne (hw h.1)]; exact h.2⟩
  | advance d readPtr => exact ⟨h.1, by rw [Function.update_of_ne (hw h.1)]; exact h.2⟩

/-- What the handler knows survives that a character is taken out. -/
lemma HandlerOk.anti {buf : ℕ → UInt8} {w q q' : ℕ} {pc : HandlerPc} (h : HandlerOk buf w q pc)
    (hq : q' ≤ q) : HandlerOk buf w q' pc := by
  cases pc with
  | waiting => trivial
  | received c => trivial
  | haveNext c next => exact h
  | storing c next => exact ⟨h.1, by have := h.2; omega⟩
  | storeAt c next index => exact ⟨h.1, by have := h.2.1; omega, h.2.2⟩
  | publish c next => exact ⟨h.1, by have := h.2.1; omega, h.2.2⟩

/-- The next index, on 32 bits. -/
lemma next_index (i : ℕ) : (i + 1) % 2 ^ 32 % rxBufSize = (i + 1) % rxBufSize :=
  Nat.mod_mod_of_dvd _ (by decide)

/-- **A step of the handler** keeps the queue, or appends to it. -/
lemma FifoInv.handlerStep {s s' : Uart} {q : ℕ} (h : FifoInv s q) (hs : s.handlerStep = some s') :
    ∃ q', FifoInv s' q' := by
  obtain ⟨buf, r, w, pc, getc, log, returned⟩ := s
  have hok := h.handlerOk
  have hcontents := h.contents
  cases pc with
  | waiting => cases hs
  | received c =>
    cases hs
    exact ⟨q, h.read_lt, h.queue_lt, h.write_eq, hcontents, next_index w, h.getcOk⟩
  | haveNext c next =>
    have hfound := h.queued_eq rfl
    have hspace := h.next_ne_iff
    have hnext : next = (w + 1) % rxBufSize := hok
    simp only [Uart.handlerStep, hfound] at hs
    rw [Uart.unpublished, List.append_nil] at hcontents
    by_cases hfree : next ≠ r
    · have hlt : q < rxBufSize - 1 := hspace.1 (by rw [← hnext]; exact hfree)
      rw [if_pos hfree] at hs
      cases hs
      refine ⟨q, h.read_lt, h.queue_lt, h.write_eq, ?_, ⟨hnext, by omega⟩, h.getcOk⟩
      rw [accepted_append, if_pos hlt, hcontents, List.append_assoc]
      rfl
    · have hfull : ¬q < rxBufSize - 1 := fun hlt => hfree (by rw [hnext]; exact hspace.2 hlt)
      rw [if_neg hfree] at hs
      cases hs
      refine ⟨q, h.read_lt, h.queue_lt, h.write_eq, ?_, trivial, h.getcOk⟩
      rw [accepted_append, if_neg hfull, hcontents, List.append_nil, Uart.unpublished,
        List.append_nil]
  | storing c next =>
    cases hs
    exact ⟨q, h.read_lt, h.queue_lt, h.write_eq, hcontents, ⟨hok.1, hok.2, rfl⟩, h.getcOk⟩
  | storeAt c next index =>
    cases hs
    obtain ⟨hnext, hlt, rfl⟩ := hok
    -- the store goes to the position behind the queue
    have hview : ringView rxBufSize (Function.update buf index c) r q =
        ringView rxBufSize buf r q :=
      ringView_congr fun i hi => Function.update_of_ne (h.write_ne hi) c buf
    refine ⟨q, h.read_lt, h.queue_lt, h.write_eq, ?_,
      ⟨hnext, hlt, Function.update_self _ _ _⟩, h.getcOk.update fun hpos => ?_⟩
    · exact hcontents.trans (by rw [← hview]; rfl)
    · have hne := h.write_ne hpos
      rwa [Nat.add_zero, Nat.mod_eq_of_lt h.read_lt] at hne
  | publish c next =>
    cases hs
    obtain ⟨hnext, hlt, hc⟩ := hok
    have hw : w = (r + q) % rxBufSize := h.write_eq
    refine ⟨q + 1, h.read_lt, hlt, ?_, ?_, trivial, h.getcOk.mono (Nat.le_succ q)⟩
    · rw [hnext, hw, Nat.mod_add_mod, Nat.add_assoc]
    · apply hcontents.trans
      rw [ringView_succ, ← hw, hc]
      simp only [Uart.unpublished, List.append_nil]

/-- **A step of `getc`** keeps the queue, or takes its first character. -/
lemma FifoInv.getcStep {s : Uart} {q : ℕ} (h : FifoInv s q) : ∃ q', FifoInv s.getcStep q' := by
  obtain ⟨buf, r, w, handler, pc, log, returned⟩ := s
  have hok := h.getcOk
  cases pc with
  | loop => exact ⟨q, h.read_lt, h.queue_lt, h.write_eq, h.contents, h.handlerOk, rfl⟩
  | compare readPtr =>
    have hr : readPtr = r := hok
    simp only [Uart.getcStep]
    split_ifs with hempty
    · exact ⟨q, h.read_lt, h.queue_lt, h.write_eq, h.contents, h.handlerOk, trivial⟩
    · refine ⟨q, h.read_lt, h.queue_lt, h.write_eq, h.contents, h.handlerOk, ?_⟩
      refine Nat.pos_of_ne_zero fun hzero => hempty ?_
      have hw : w = (r + q) % rxBufSize := h.write_eq
      rw [hw, hzero, Nat.add_zero, Nat.mod_eq_of_lt h.read_lt, hr]
  | nonempty => exact ⟨q, h.read_lt, h.queue_lt, h.write_eq, h.contents, h.handlerOk, hok, rfl⟩
  | loadAt index =>
    obtain ⟨hpos, rfl⟩ := hok
    exact ⟨q, h.read_lt, h.queue_lt, h.write_eq, h.contents, h.handlerOk, hpos, rfl⟩
  | loaded c =>
    exact ⟨q, h.read_lt, h.queue_lt, h.write_eq, h.contents, h.handlerOk, hok.1, hok.2, rfl⟩
  | advance c readPtr =>
    obtain ⟨hpos, hc, rfl⟩ := hok
    obtain ⟨k, rfl⟩ := Nat.exists_eq_succ_of_ne_zero hpos.ne'
    have hfirst : ringView rxBufSize buf readPtr (1 + k) =
        [c] ++ ringView rxBufSize buf ((readPtr + 1) % rxBufSize) k := by
      rw [ringView_add, hc]
      simp [ringView, Nat.mod_eq_of_lt h.read_lt]
    simp only [Uart.getcStep, next_index]
    refine ⟨k, Nat.mod_lt _ (by decide), (Nat.lt_succ_self k).trans h.queue_lt, ?_, ?_,
      h.handlerOk.anti (Nat.le_succ k), trivial⟩
    · have hw : w = (readPtr + (k + 1)) % rxBufSize := h.write_eq
      rw [hw, Nat.mod_add_mod, Nat.add_assoc, Nat.add_comm 1 k]
    · apply h.contents.trans
      rw [Nat.succ_eq_one_add, hfirst]
      simp only [List.append_assoc, Uart.unpublished]

/-! ## Runs -/

/-- The log and the character in the handler's hand are the arrivals so far. -/
lemma log_step {s s' : Uart} {a : Uart.Act} (h : s.step a = some s') :
    s'.log.map Prod.fst ++ s'.untested =
      s.log.map Prod.fst ++ s.untested ++ Uart.arrivals [a] := by
  obtain ⟨buf, r, w, pc, getc, log, returned⟩ := s
  cases a with
  | arrive c =>
    cases pc with
    | waiting =>
      cases h
      simp [Uart.untested, Uart.arrivals]
    | _ => cases h
  | handler =>
    cases pc with
    | waiting => cases h
    | haveNext c next =>
      simp only [Uart.step, Uart.handlerStep] at h
      split_ifs at h <;> cases h <;> simp [Uart.untested, Uart.arrivals]
    | _ =>
      cases h
      simp [Uart.untested, Uart.arrivals]
  | getc =>
    cases h
    cases getc with
    | compare readPtr =>
      simp only [Uart.getcStep]
      split_ifs <;> simp [Uart.untested, Uart.arrivals]
    | _ => simp [Uart.getcStep, Uart.untested, Uart.arrivals]

/-- Every step keeps the invariant. -/
lemma FifoInv.step {s s' : Uart} {a : Uart.Act} {q : ℕ} (h : FifoInv s q)
    (hs : s.step a = some s') : ∃ q', FifoInv s' q' := by
  cases a with
  | arrive c =>
    obtain ⟨buf, r, w, pc, getc, log, returned⟩ := s
    cases pc with
    | waiting =>
      cases hs
      exact ⟨q, h.read_lt, h.queue_lt, h.write_eq, h.contents, trivial, h.getcOk⟩
    | _ => cases hs
  | handler => exact h.handlerStep hs
  | getc =>
    cases hs
    exact h.getcStep

/-- Every run keeps the invariant, and logs its arrivals. -/
lemma FifoInv.run {acts : List Uart.Act} {s s' : Uart} {q : ℕ} (h : FifoInv s q)
    (hrun : s.run acts = some s') :
    (∃ q', FifoInv s' q') ∧ s'.log.map Prod.fst ++ s'.untested =
      s.log.map Prod.fst ++ s.untested ++ Uart.arrivals acts := by
  induction acts generalizing s q with
  | nil =>
    cases hrun
    exact ⟨⟨q, h⟩, by rw [Uart.arrivals, List.filterMap_nil, List.append_nil]⟩
  | cons a acts ih =>
    obtain ⟨t, hstep, hrest⟩ := Option.bind_eq_some_iff.1 hrun
    obtain ⟨q', h'⟩ := h.step hstep
    obtain ⟨hinv, hlog⟩ := ih h' hrest
    refine ⟨hinv, ?_⟩
    rw [hlog, log_step hstep, List.append_assoc, Uart.arrivals, Uart.arrivals, Uart.arrivals,
      ← List.filterMap_append]
    rfl

/-! ## Draining -/

lemma FifoInv.length_eq {s : Uart} {q : ℕ} (h : FifoInv s q) :
    (accepted s.log).length = s.returned.length + (q + s.unpublished.length) := by
  rw [h.contents, List.length_append, List.length_append, length_ringView]

/-- A call of `getc` without interruption returns the first character of the queue. -/
lemma run_getc {s : Uart} {q : ℕ} (h : FifoInv s (q + 1)) (hgetc : s.getc = .loop) :
    ∃ s', s.run (List.replicate 6 .getc) = some s' ∧ FifoInv s' q ∧ s'.getc = .loop ∧
      s'.handler = s.handler ∧ s'.log = s.log := by
  obtain ⟨buf, r, w, handler, pc, log, returned⟩ := s
  cases hgetc
  have hne : r ≠ w := by
    have hne := h.write_ne (Nat.succ_pos q)
    rwa [Nat.add_zero, Nat.mod_eq_of_lt h.read_lt] at hne
  -- the state in front of the last access
  let t : Uart := ⟨buf, r, w, handler, .advance (buf r) r, log, returned⟩
  have ht : FifoInv t (q + 1) :=
    ⟨h.read_lt, h.queue_lt, h.write_eq, h.contents, h.handlerOk, Nat.succ_pos q, rfl, rfl⟩
  have hrun : Uart.run ⟨buf, r, w, handler, .loop, log, returned⟩ (List.replicate 6 .getc) =
      some t.getcStep := by
    simp [List.replicate, Uart.run, Uart.step, Uart.getcStep, hne, t]
  obtain ⟨q', h'⟩ := ht.getcStep
  have hbefore := ht.length_eq
  have hafter := h'.length_eq
  have hq : q' = q := by
    simp only [t, Uart.getcStep, List.length_append, List.length_singleton,
      Uart.unpublished] at hbefore hafter
    omega
  exact ⟨t.getcStep, hrun, hq ▸ h', rfl, rfl, rfl⟩

lemma Uart.run_append (acts acts' : List Uart.Act) (s : Uart) :
    s.run (acts ++ acts') = (s.run acts).bind fun s' => s'.run acts' := by
  induction acts generalizing s with
  | nil => rfl
  | cons a acts ih =>
    rw [List.cons_append, Uart.run, Uart.run, Option.bind_assoc]
    exact congrArg _ (funext ih)

/-- **What is queued comes out**, a call of `getc` for each character. -/
lemma exists_drain {s : Uart} {q : ℕ} (h : FifoInv s q) (hgetc : s.getc = .loop) :
    ∃ s', s.run (List.replicate (6 * q) .getc) = some s' ∧ FifoInv s' 0 ∧
      s'.handler = s.handler ∧ s'.log = s.log := by
  induction q generalizing s with
  | zero => exact ⟨s, rfl, h, rfl, rfl⟩
  | succ q ih =>
    obtain ⟨t, hrun, ht, hidle, hhandler, hlog⟩ := run_getc h hgetc
    obtain ⟨s', hrest, hs', hhandler', hlog'⟩ := ih ht hidle
    refine ⟨s', ?_, hs', hhandler'.trans hhandler, hlog'.trans hlog⟩
    rw [Nat.mul_succ, Nat.add_comm, List.replicate_add, Uart.run_append, hrun]
    exact hrest

/-! ## The receive ring is a bounded FIFO -/

/-- **The receive ring is a bounded FIFO.**  In every run, whatever arrives and however the
accesses interleave, the log is the arrivals in order, and the arrivals that found fewer than
`RX_BUF_SIZE - 1` characters queued are, in order and each once: those `getc` has returned, those
in the ring, and one that the handler is storing.  What is queued when the handler tests for space
is what stands in the ring.  From every such state with the handler and `getc` at the head of their
loops, calls of `getc` alone return the rest. -/
theorem uart16550_fifo (buf : ℕ → UInt8) (acts : List Uart.Act) (s : Uart)
    (hrun : (Uart.init buf).run acts = some s) :
    s.log.map Prod.fst ++ s.untested = Uart.arrivals acts ∧
    accepted s.log = s.returned ++ s.ring ++ s.unpublished ∧
    (∀ c next, s.handler = .haveNext c next → s.queued = s.ring.length) ∧
    (s.handler = .waiting → s.getc = .loop → ∃ s',
      s.run (List.replicate (6 * s.ring.length) .getc) = some s' ∧ s'.log = s.log ∧
        s'.returned = accepted s.log) := by
  obtain ⟨⟨q, h⟩, hlog⟩ := (fifoInv_init buf).run hrun
  refine ⟨hlog, ?_, fun c next hnext => ?_, fun hhandler hgetc => ?_⟩
  · rw [h.ring_eq, h.contents, List.append_assoc]
  · rw [h.ring_eq, length_ringView]
    exact h.queued_eq (by rw [Uart.unpublished, hnext])
  · obtain ⟨s', hdrain, hs', hhandler', hlog'⟩ := exists_drain h hgetc
    refine ⟨s', by rw [h.ring_eq, length_ringView]; exact hdrain, hlog', ?_⟩
    have hcontents := hs'.contents
    rw [hlog'] at hcontents
    rw [hcontents, Uart.unpublished, hhandler', hhandler]
    simp [ringView]

/-- Two characters arrive, the second one while `getc` is at the first. -/
theorem uart16550_fifo_two :
    let acts : List Uart.Act := [.getc, .arrive 65, .handler, .handler, .handler, .handler,
      .handler, .getc, .getc, .arrive 66, .handler, .getc, .handler, .getc, .getc]
    ∃ s, (Uart.init fun _ => 0).run acts = some s ∧
      s.log.map Prod.fst ++ s.untested = [65, 66] ∧
      accepted s.log = s.returned ++ s.ring ++ s.unpublished ∧
      (∀ c next, s.handler = .haveNext c next → s.queued = s.ring.length) ∧
      (s.handler = .waiting → s.getc = .loop → ∃ s',
        s.run (List.replicate (6 * s.ring.length) .getc) = some s' ∧ s'.log = s.log ∧
          s'.returned = accepted s.log) := by
  intro acts
  exact ⟨_, rfl, uart16550_fifo (fun _ => 0) acts _ rfl⟩

end Cuore
