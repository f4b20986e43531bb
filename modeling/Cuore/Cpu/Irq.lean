import Cuore.Firmware.Acpi.Madt
import Cuore.Framework.Word
import Mathlib.Data.Finset.Card
import Mathlib.Data.Finset.Range

/-!
# Interrupt routing (`cpu/apic/ioapic.c`, `cpu/IDT.c`, `firmware/acpi/madt.c`)

The way of an interrupt from a pin of the I/O APIC to the handlers.  The redirection table of the
I/O APIC has a vector and a local APIC for each pin, and each core has a chain of handlers for each
vector.  `ioapic_init` routes the timer and the serial port, on the pins that the MADT has for them.
A driver takes the vector of the pin of its device, or a free one if the pin has none, and adds its
handler to the chain.

`IrqInv` is the invariant of the two tables.  `irq_routing` says which handlers an interrupt on a
pin calls, after any sequence of boot steps and interrupts.
-/

namespace Cuore

/-! ## The I/O APIC -/

/-- The registers of the I/O APIC, and the static variables. -/
structure Ioapic where
  regs : ℕ → ℕ
  pinToVector : ℕ → ℕ
  nextFreeVector : ℕ

namespace Ioapic

/-- `ioapic_write`. -/
def write (s : Ioapic) (reg value : ℕ) : Ioapic :=
  { s with regs := Function.update s.regs reg value }

/-- `ioapic_map_irq`. -/
def mapIrq (s : Ioapic) (irqPin vector cpuApicId flags : ℕ) : Ioapic :=
  let lowIndex := 0x10 + irqPin * 2
  (s.write (lowIndex + 1) (cpuApicId <<< 24)).write lowIndex (vector ||| flags)

/-- `ioapic_map_irq_to_free_vector`. -/
def mapIrqToFreeVector (s : Ioapic) (irqPin cpuApicId flags : ℕ) : ℕ × Ioapic :=
  if irqPin ≥ 24 then (0, s)
  else if s.pinToVector irqPin ≠ 0 then (s.pinToVector irqPin, s)
  else
    let vector := s.nextFreeVector
    let s := { s with nextFreeVector := (s.nextFreeVector + 1) % 256 }
    let s := s.mapIrq irqPin vector cpuApicId flags
    (vector, { s with pinToVector := Function.update s.pinToVector irqPin vector })

/-- Where an interrupt on a pin goes: the local APIC and the vector, unless the pin is masked. -/
def route (s : Ioapic) (irqPin : ℕ) : Option (ℕ × ℕ) :=
  let low := s.regs (0x10 + irqPin * 2)
  if low.testBit 16 then none else some (s.regs (0x10 + irqPin * 2 + 1) >>> 24, low % 256)

end Ioapic

/-- `madt_query_irq`: the pin and the flags. -/
def madtQueryIrq (isos : List MadtIso) (irq : ℕ) : ℕ × ℕ :=
  match isos.find? fun iso => iso.busSource = irq with
  | none => (irq, 0)
  | some iso =>
    let flags := if iso.flags &&& 3 = 3 then 1 <<< 13 else 0
    (iso.gsi % 256, if iso.flags >>> 2 &&& 3 = 3 then flags ||| 1 <<< 15 else flags)

/-- `ioapic_init`, once the I/O APIC is mapped. -/
def ioapicInit (isos : List MadtIso) (s : Ioapic) : Ioapic :=
  let (pin, flags) := madtQueryIrq isos 0
  let s := s.mapIrq pin 32 0 flags
  let (pin, flags) := madtQueryIrq isos 4
  s.mapIrq pin 36 0 flags

/-- The I/O APIC at reset: all pins are masked. -/
def Ioapic.reset : Ioapic where
  regs i := if i % 2 = 0 then 1 <<< 16 else 0
  pinToVector _ := 0
  nextFreeVector := 40

/-! ## The chains -/

/-- `MAX_HANDLERS_PER_VECTOR`. -/
def maxHandlersPerVector : ℕ := 4

/-- The chains of all cores, their counters, and a record of the calls of handlers and of the ends
of interrupts.  `kernel` is what the handlers work on. -/
structure IrqSys (H σ : Type*) where
  ioapic : Ioapic
  routines : ℕ → ℕ → List H
  irqStats : ℕ → ℕ → ℕ
  calls : List (H × ℕ)
  eois : List ℕ
  kernel : σ

/-- What the routing depends on: which cores have a block, which one has a local APIC id, and what a
handler does when it is called with the address of a frame.  The boot core, which has the index 0,
has the local APIC id 0. -/
structure IrqEnv (H σ : Type*) where
  present : ℕ → Bool
  coreOf : ℕ → ℕ
  run : H → ℕ → σ → ℕ × σ
  coreOf_zero : coreOf 0 = 0

namespace IrqSys

variable {H σ : Type*}

/-- `irq_install_handler`.  A panic is `none`. -/
def install (env : IrqEnv H σ) (s : IrqSys H σ) (logicalId vector : ℕ) (handler : H) :
    Option (IrqSys H σ) :=
  if !env.present logicalId then none
  else if (s.routines logicalId vector).length < maxHandlersPerVector then
    let chain := s.routines logicalId vector ++ [handler]
    let routines := Function.update (s.routines logicalId) vector chain
    some { s with routines := Function.update s.routines logicalId routines }
  else none

/-- The loop of `irq_dispatch`. -/
def dispatchLoop (env : IrqEnv H σ) (tf : ℕ) : List H → ℕ → IrqSys H σ → ℕ × IrqSys H σ
  | [], retTf, s => (retTf, s)
  | h :: hs, retTf, s =>
    let (tempTf, kernel) := env.run h tf s.kernel
    dispatchLoop env tf hs (if tempTf ≠ 0 then tempTf else retTf)
      { s with calls := s.calls ++ [(h, tf)], kernel := kernel }

/-- `irq_dispatch` on core `c`: the frame that it returns, and the state afterwards. -/
def dispatch (env : IrqEnv H σ) (s : IrqSys H σ) (c vector tf : ℕ) : ℕ × IrqSys H σ :=
  let stats := Function.update (s.irqStats c) vector (wadd (s.irqStats c vector) 1)
  let s := { s with irqStats := Function.update s.irqStats c stats }
  let (retTf, s) := dispatchLoop env tf (s.routines c vector) tf s
  (retTf, { s with eois := s.eois ++ [c] })

end IrqSys

/-- What happens to the routing: a driver takes a vector for its pin and adds its handler, a handler
is added to a vector that is fixed, or a pin is raised, when a core is interrupted at a frame. -/
inductive IrqEvent (H : Type*)
  | attach (irqPin : ℕ) (handler : H)
  | install (logicalId vector : ℕ) (handler : H)
  | raise (irqPin tf : ℕ)

section Run

variable {H σ : Type*} (env : IrqEnv H σ)

/-- A step. -/
def irqStep (s : IrqSys H σ) : IrqEvent H → Option (IrqSys H σ)
  | .attach irqPin handler =>
    let (vector, ioapic) := s.ioapic.mapIrqToFreeVector irqPin 0 0
    ({ s with ioapic := ioapic }).install env 0 vector handler
  | .install logicalId vector handler => s.install env logicalId vector handler
  | .raise irqPin tf =>
    match s.ioapic.route irqPin with
    | none => some s
    | some (apic, vector) => some (s.dispatch env (env.coreOf apic) vector tf).2

/-- A sequence of steps. -/
def irqRun (s : IrqSys H σ) : List (IrqEvent H) → Option (IrqSys H σ)
  | [] => some s
  | e :: es => (irqStep env s e).bind fun s' => irqRun s' es

/-- The state at boot, behind `ioapic_init`. -/
def irqBoot (isos : List MadtIso) (kernel : σ) : IrqSys H σ where
  ioapic := ioapicInit isos .reset
  routines _ _ := []
  irqStats _ _ := 0
  calls := []
  eois := []
  kernel := kernel

end Run

/-! ## The invariant -/

/-- The vector that a driver gets for a pin. -/
def Ioapic.vectorOf (s : Ioapic) (irqPin : ℕ) : ℕ := if irqPin < 24 then s.pinToVector irqPin else 0

/-- The handlers of a vector, as they have been installed. -/
def handlersOf {H : Type*} (s : Ioapic) (es : List (IrqEvent H)) (c vector : ℕ) : List H :=
  es.filterMap fun
    | .attach irqPin handler => if c = 0 ∧ vector = s.vectorOf irqPin then some handler else none
    | .install logicalId v handler => if c = logicalId ∧ vector = v then some handler else none
    | .raise _ _ => none

/-- A driver has asked for a vector for the pin. -/
def Attached {H : Type*} (es : List (IrqEvent H)) (irqPin : ℕ) : Prop :=
  ∃ handler, IrqEvent.attach irqPin handler ∈ es

/-- The tables after the steps `es`. -/
structure IrqInv {H σ : Type*} (boot : Ioapic) (es : List (IrqEvent H)) (s : IrqSys H σ) :
    Prop where
  mapped : ∀ p < 24, s.ioapic.pinToVector p ≠ 0 ↔ Attached es p
  range : ∀ p, s.ioapic.pinToVector p ≠ 0 →
    40 ≤ s.ioapic.pinToVector p ∧ s.ioapic.pinToVector p < s.ioapic.nextFreeVector
  injective : ∀ p q, s.ioapic.pinToVector p ≠ 0 →
    s.ioapic.pinToVector p = s.ioapic.pinToVector q → p = q
  next : s.ioapic.nextFreeVector =
    40 + ((Finset.range 24).filter fun p => s.ioapic.pinToVector p ≠ 0).card
  pins : ∀ p, s.ioapic.pinToVector p ≠ 0 → p < 24
  regs : ∀ p, s.ioapic.pinToVector p ≠ 0 → s.ioapic.regs (0x10 + p * 2) = s.ioapic.pinToVector p ∧
    s.ioapic.regs (0x10 + p * 2 + 1) = 0
  other : ∀ p, s.ioapic.pinToVector p = 0 →
    s.ioapic.regs (0x10 + p * 2) = boot.regs (0x10 + p * 2) ∧
    s.ioapic.regs (0x10 + p * 2 + 1) = boot.regs (0x10 + p * 2 + 1)
  routines : ∀ c v, s.routines c v = handlersOf s.ioapic es c v

section Steps

variable {H σ : Type*} {env : IrqEnv H σ} {boot io : Ioapic} {es : List (IrqEvent H)}
  {s s' : IrqSys H σ} {c v tf pin : ℕ} {handler : H}

/-- A handler is added to one chain. -/
lemma install_spec (h : s.install env c v handler = some s') : s'.ioapic = s.ioapic ∧
    ∀ c' v', s'.routines c' v' =
      if c' = c ∧ v' = v then s.routines c v ++ [handler] else s.routines c' v' := by
  unfold IrqSys.install at h
  split_ifs at h
  cases h
  refine ⟨rfl, fun c' v' => ?_⟩
  dsimp only
  by_cases hc : c' = c
  · subst hc
    rw [Function.update_self]
    by_cases hv : v' = v
    · subst hv
      simp
    · rw [Function.update_of_ne hv, if_neg fun h => hv h.2]
  · rw [Function.update_of_ne hc, if_neg fun h => hc h.1]

lemma dispatchLoop_spec (tf : ℕ) (hs : List H) (ret : ℕ) (s : IrqSys H σ) :
    (IrqSys.dispatchLoop env tf hs ret s).2.ioapic = s.ioapic ∧
    (IrqSys.dispatchLoop env tf hs ret s).2.routines = s.routines ∧
    (IrqSys.dispatchLoop env tf hs ret s).2.eois = s.eois ∧
    (IrqSys.dispatchLoop env tf hs ret s).2.calls = s.calls ++ hs.map fun h => (h, tf) := by
  induction hs generalizing ret s with
  | nil => exact ⟨rfl, rfl, rfl, (List.append_nil _).symm⟩
  | cons h hs ih =>
    obtain ⟨hio, hroutines, heois, hcalls⟩ := ih
      (if (env.run h tf s.kernel).1 ≠ 0 then (env.run h tf s.kernel).1 else ret)
      { s with calls := s.calls ++ [(h, tf)], kernel := (env.run h tf s.kernel).2 }
    refine ⟨hio, hroutines, heois, hcalls.trans ?_⟩
    rw [List.append_assoc, List.map_cons]
    rfl

/-- **A dispatch** calls the handlers of the vector, in their order. -/
lemma dispatch_spec (env : IrqEnv H σ) (s : IrqSys H σ) (c v tf : ℕ) :
    (s.dispatch env c v tf).2.ioapic = s.ioapic ∧
    (s.dispatch env c v tf).2.routines = s.routines ∧
    (s.dispatch env c v tf).2.eois = s.eois ++ [c] ∧
    (s.dispatch env c v tf).2.calls = s.calls ++ (s.routines c v).map fun h => (h, tf) := by
  obtain ⟨hio, hroutines, heois, hcalls⟩ := dispatchLoop_spec tf
    (s.routines c v) tf { s with
      irqStats := Function.update s.irqStats c
        (Function.update (s.irqStats c) v (wadd (s.irqStats c v) 1)) }
  exact ⟨hio, hroutines, congrArg (· ++ [c]) heois, hcalls⟩

/-- What is written for a pin is where its interrupts go. -/
lemma mapIrq_regs (io : Ioapic) (pin vector flags p : ℕ) :
    (io.mapIrq pin vector 0 flags).regs (0x10 + p * 2) =
      (if p = pin then vector ||| flags else io.regs (0x10 + p * 2)) ∧
    (io.mapIrq pin vector 0 flags).regs (0x10 + p * 2 + 1) =
      (if p = pin then 0 else io.regs (0x10 + p * 2 + 1)) := by
  simp only [Ioapic.mapIrq, Ioapic.write]
  by_cases hp : p = pin
  · subst hp
    rw [Function.update_self, Function.update_of_ne (by omega), Function.update_self, if_pos rfl,
      if_pos rfl]
    exact ⟨rfl, rfl⟩
  · rw [Function.update_of_ne (by omega), Function.update_of_ne (by omega),
      Function.update_of_ne (by omega), Function.update_of_ne (by omega), if_neg hp, if_neg hp]
    exact ⟨rfl, rfl⟩

lemma handlersOf_append (es es' : List (IrqEvent H)) :
    handlersOf io (es ++ es') c v = handlersOf io es c v ++ handlersOf io es' c v :=
  List.filterMap_append

/-- A handler goes to the vector of its pin. -/
lemma handlersOf_attach : handlersOf io [.attach pin handler] c v =
    if c = 0 ∧ v = io.vectorOf pin then [handler] else [] := by
  simp only [handlersOf, List.filterMap_cons, List.filterMap_nil]
  split_ifs <;> rfl

lemma handlersOf_install {c' v' : ℕ} : handlersOf io [.install c' v' handler] c v =
    if c = c' ∧ v = v' then [handler] else [] := by
  simp only [handlersOf, List.filterMap_cons, List.filterMap_nil]
  split_ifs <;> rfl

lemma attached_append_attach {p : ℕ} :
    Attached (es ++ [.attach pin handler]) p ↔ Attached es p ∨ p = pin := by
  unfold Attached
  simp only [List.mem_append, List.mem_singleton, IrqEvent.attach.injEq, exists_or]
  simp

/-- Interrupts and handlers at fixed vectors change no pin. -/
lemma IrqInv.append (h : IrqInv boot es s) {e : IrqEvent H} (he : ∀ p hd, e ≠ .attach p hd)
    (hio : s'.ioapic = s.ioapic)
    (hroutines : ∀ c v, s'.routines c v = s.routines c v ++ handlersOf s.ioapic [e] c v) :
    IrqInv boot (es ++ [e]) s' := by
  have hattached : ∀ p, Attached (es ++ [e]) p ↔ Attached es p := by
    refine fun p => exists_congr fun hd => ?_
    rw [List.mem_append, List.mem_singleton]
    exact or_iff_left (he p hd).symm
  refine ⟨fun p hp => ?_, ?_, ?_, ?_, ?_, ?_, ?_, fun c v => ?_⟩
  · rw [hio, hattached]
    exact h.mapped p hp
  all_goals rw [hio]
  · exact h.range
  · exact h.injective
  · exact h.next
  · exact h.pins
  · exact h.regs
  · exact h.other
  · rw [hroutines, h.routines, handlersOf_append]

/-- The handlers of a vector depend on the vectors of the pins in use. -/
lemma handlersOf_congr {io' : Ioapic} (h : ∀ p, Attached es p → io'.vectorOf p = io.vectorOf p) :
    handlersOf io' es c v = handlersOf io es c v := by
  refine List.filterMap_congr fun e he => ?_
  cases e with
  | attach p hd =>
    dsimp only
    rw [h p ⟨hd, he⟩]
  | install => rfl
  | raise => rfl

/-- A driver that asks for a pin that has a vector, or for one that there is not. -/
lemma IrqInv.append_attach (h : IrqInv boot es s) (hd : H) (hpin : pin < 24 → Attached es pin) :
    IrqInv boot (es ++ [.attach pin hd]) { s with
      routines := fun c v => s.routines c v ++ handlersOf s.ioapic [.attach pin hd] c v } := by
  refine ⟨fun p hp => ?_, h.range, h.injective, h.next, h.pins, h.regs, h.other, fun c v => ?_⟩
  · rw [attached_append_attach, h.mapped p hp]
    exact ⟨.inl, fun hor => hor.elim id fun hpp => hpp ▸ hpin (hpp ▸ hp)⟩
  · rw [handlersOf_append, ← h.routines]

/-- Fewer than 24 pins have a vector as long as one has none. -/
lemma IrqInv.next_lt (h : IrqInv boot es s) (hpin : pin < 24)
    (hfree : s.ioapic.pinToVector pin = 0) : s.ioapic.nextFreeVector < 64 := by
  have hlt : ((Finset.range 24).filter fun p => s.ioapic.pinToVector p ≠ 0).card <
      (Finset.range 24).card := by
    refine Finset.card_lt_card (Finset.filter_ssubset.mpr ⟨pin, Finset.mem_range.mpr hpin, ?_⟩)
    exact not_not.mpr hfree
  rw [h.next]
  rw [Finset.card_range] at hlt
  omega

/-- What changes when a free vector `n` is given to a pin. -/
structure TakesVector (io io' : Ioapic) (pin n : ℕ) : Prop where
  self : io'.pinToVector pin = n
  other : ∀ p, p ≠ pin → io'.pinToVector p = io.pinToVector p
  next : io'.nextFreeVector = n + 1
  low : ∀ p, io'.regs (0x10 + p * 2) = if p = pin then n else io.regs (0x10 + p * 2)
  high : ∀ p, io'.regs (0x10 + p * 2 + 1) = if p = pin then 0 else io.regs (0x10 + p * 2 + 1)

lemma mapIrqToFreeVector_free (hpin : pin < 24) (hfree : io.pinToVector pin = 0)
    (hlt : io.nextFreeVector < 64) :
    ∃ io', io.mapIrqToFreeVector pin 0 0 = (io'.vectorOf pin, io') ∧
      TakesVector io io' pin io.nextFreeVector := by
  set n := io.nextFreeVector with hn
  set io₁ : Ioapic := { io with nextFreeVector := (n + 1) % 256 } with hio₁
  set io' : Ioapic :=
    { io₁.mapIrq pin n 0 0 with pinToVector := Function.update io.pinToVector pin n } with hio'
  have hself : io'.pinToVector pin = n := Function.update_self ..
  have hregs := mapIrq_regs io₁ pin n 0
  refine ⟨io', ?_, hself, fun p hp => Function.update_of_ne hp .., Nat.mod_eq_of_lt (by omega),
    fun p => ?_, fun p => (hregs p).2⟩
  · rw [Ioapic.mapIrqToFreeVector, if_neg (by omega), if_neg (not_not.mpr hfree), Ioapic.vectorOf,
      if_pos hpin, hself]
    rfl
  · have hlow := (hregs p).1
    rw [Nat.or_zero] at hlow
    exact hlow

/-- **A free vector** is given to a pin. -/
lemma IrqInv.mapFree (h : IrqInv boot es s) (hd : H) (hpin : pin < 24)
    (hfree : s.ioapic.pinToVector pin = 0) :
    ∃ io', s.ioapic.mapIrqToFreeVector pin 0 0 = (io'.vectorOf pin, io') ∧
      IrqInv boot (es ++ [.attach pin hd]) { s with
        ioapic := io'
        routines := fun c v => s.routines c v ++ handlersOf io' [.attach pin hd] c v } := by
  have hlt := h.next_lt hpin hfree
  obtain ⟨io', hmap, hself, hother, hnext, hlow, hhigh⟩ := mapIrqToFreeVector_free hpin hfree hlt
  set n := s.ioapic.nextFreeVector with hn
  have hn40 : 40 ≤ n := by
    rw [hn, h.next]
    exact Nat.le_add_right _ _
  -- nobody has asked for this pin so far
  have hnot : ∀ p, Attached es p → p ≠ pin := by
    rintro p hp rfl
    exact (h.mapped p hpin).mpr hp hfree
  have hvec : ∀ p, Attached es p → io'.vectorOf p = s.ioapic.vectorOf p := by
    intro p hp
    rw [Ioapic.vectorOf, Ioapic.vectorOf, hother p (hnot p hp)]
  refine ⟨io', hmap, fun p hp => ?_, fun p hp => ?_, fun p q hp hpq => ?_, ?_, fun p hp => ?_,
    fun p hp => ?_, fun p hp => ?_, fun c v => ?_⟩
  · rw [attached_append_attach]
    by_cases hpp : p = pin
    · rw [hpp]
      exact iff_of_true (hself.trans_ne (by omega)) (.inr rfl)
    · rw [hother p hpp, h.mapped p hp]
      exact (or_iff_left hpp).symm
  · by_cases hpp : p = pin
    · rw [hpp, hself, hnext]
      omega
    · rw [hother p hpp] at hp ⊢
      obtain ⟨hlow, hhigh⟩ := h.range p hp
      rw [hnext]
      omega
  · by_cases hpp : p = pin <;> by_cases hqp : q = pin
    · exact hpp.trans hqp.symm
    · rw [hpp, hself, hother q hqp] at hpq
      have hrange := h.range q (by omega)
      omega
    · rw [hqp, hself, hother p hpp] at hpq
      rw [hother p hpp] at hp
      have hrange := h.range p hp
      omega
    · rw [hother p hpp] at hp
      rw [hother p hpp, hother q hqp] at hpq
      exact h.injective p q hp hpq
  · have hset : ((Finset.range 24).filter fun p => io'.pinToVector p ≠ 0) =
        insert pin ((Finset.range 24).filter fun p => s.ioapic.pinToVector p ≠ 0) := by
      ext p
      rw [Finset.mem_insert, Finset.mem_filter, Finset.mem_filter]
      by_cases hpp : p = pin
      · rw [hpp, hself]
        exact iff_of_true ⟨Finset.mem_range.mpr hpin, by omega⟩ (.inl rfl)
      · rw [hother p hpp]
        exact (or_iff_right hpp).symm
    have hnotMem : pin ∉ (Finset.range 24).filter fun p => s.ioapic.pinToVector p ≠ 0 :=
      fun hmem => (Finset.mem_filter.mp hmem).2 hfree
    show io'.nextFreeVector = _
    rw [hset, Finset.card_insert_of_notMem hnotMem, hnext, hn, h.next]
    rfl
  · by_cases hpp : p = pin
    · rwa [hpp]
    · rw [hother p hpp] at hp
      exact h.pins p hp
  · show io'.regs (0x10 + p * 2) = io'.pinToVector p ∧ io'.regs (0x10 + p * 2 + 1) = 0
    rw [hlow, hhigh]
    by_cases hpp : p = pin
    · rw [if_pos hpp, if_pos hpp, hpp, hself]
      exact ⟨rfl, rfl⟩
    · rw [hother p hpp] at hp ⊢
      rw [if_neg hpp, if_neg hpp]
      exact h.regs p hp
  · show io'.regs (0x10 + p * 2) = _ ∧ io'.regs (0x10 + p * 2 + 1) = _
    rw [hlow, hhigh]
    by_cases hpp : p = pin
    · rw [hpp, hself] at hp
      omega
    · rw [hother p hpp] at hp
      rw [if_neg hpp, if_neg hpp]
      exact h.other p hp
  · rw [handlersOf_append, handlersOf_congr hvec, ← h.routines]

/-- What a driver gets is the vector of the pin, and what it had stays so. -/
lemma IrqInv.mapIrqToFreeVector (h : IrqInv boot es s) (pin : ℕ) (hd : H) :
    ∃ io', s.ioapic.mapIrqToFreeVector pin 0 0 = (io'.vectorOf pin, io') ∧
      IrqInv boot (es ++ [.attach pin hd]) { s with
        ioapic := io'
        routines := fun c v => s.routines c v ++ handlersOf io' [.attach pin hd] c v } := by
  by_cases hpin : pin < 24
  · by_cases hfree : s.ioapic.pinToVector pin = 0
    · exact h.mapFree hd hpin hfree
    · refine ⟨s.ioapic, ?_, h.append_attach hd fun _ => (h.mapped pin hpin).mp hfree⟩
      rw [Ioapic.mapIrqToFreeVector, if_neg (by omega), if_pos hfree, Ioapic.vectorOf, if_pos hpin]
  · refine ⟨s.ioapic, ?_, h.append_attach hd fun hlt => absurd hlt hpin⟩
    rw [Ioapic.mapIrqToFreeVector, if_pos (by omega), Ioapic.vectorOf, if_neg hpin]

/-- **A driver takes a vector.** -/
lemma IrqInv.attach (h : IrqInv boot es s)
    (hs : irqStep env s (.attach pin handler) = some s') :
    IrqInv boot (es ++ [.attach pin handler]) s' := by
  obtain ⟨io', hmap, hinv⟩ := h.mapIrqToFreeVector pin handler
  rw [irqStep, hmap] at hs
  obtain ⟨hio, hroutines⟩ := install_spec hs
  have hsame : ∀ c v, s'.routines c v =
      s.routines c v ++ handlersOf io' [.attach pin handler] c v := by
    intro c v
    rw [hroutines, handlersOf_attach]
    split_ifs with hcv
    · rw [hcv.1, hcv.2]
    · rw [List.append_nil]
  exact ⟨hio ▸ hinv.mapped, hio ▸ hinv.range, hio ▸ hinv.injective, hio ▸ hinv.next,
    hio ▸ hinv.pins, hio ▸ hinv.regs, hio ▸ hinv.other,
    fun c v => (hsame c v).trans (hio ▸ hinv.routines c v)⟩

/-- **Every step** keeps the tables as they should be. -/
lemma IrqInv.step (h : IrqInv boot es s) {e : IrqEvent H} (hs : irqStep env s e = some s') :
    IrqInv boot (es ++ [e]) s' := by
  cases e with
  | attach pin hd => exact h.attach hs
  | install c' v' hd =>
    obtain ⟨hio, hroutines⟩ := install_spec hs
    refine h.append (fun _ _ => nofun) hio fun c v => ?_
    rw [hroutines, handlersOf_install]
    split_ifs with hcv
    · rw [hcv.1, hcv.2]
    · rw [List.append_nil]
  | raise pin tf =>
    have hsame : s'.ioapic = s.ioapic ∧ s'.routines = s.routines := by
      rw [irqStep] at hs
      cases hroute : s.ioapic.route pin with
      | none =>
        rw [hroute] at hs
        cases hs
        exact ⟨rfl, rfl⟩
      | some r =>
        rw [hroute] at hs
        cases hs
        exact ⟨(dispatch_spec ..).1, (dispatch_spec ..).2.1⟩
    refine h.append (fun _ _ => nofun) hsame.1 fun c v => ?_
    rw [hsame.2]
    exact (List.append_nil _).symm

/-- **Every run** does. -/
lemma IrqInv.run (h : IrqInv boot es s) {es' : List (IrqEvent H)}
    (hs : irqRun env s es' = some s') : IrqInv boot (es ++ es') s' := by
  induction es' generalizing es s with
  | nil =>
    cases hs
    rwa [List.append_nil]
  | cons e es' ih =>
    obtain ⟨s₁, hs₁, hrest⟩ := Option.bind_eq_some_iff.mp hs
    rw [← List.singleton_append, ← List.append_assoc]
    exact ih (h.step hs₁) hrest

lemma irqInv_boot (isos : List MadtIso) (kernel : σ) :
    IrqInv (ioapicInit isos .reset) ([] : List (IrqEvent H)) (irqBoot isos kernel) := by
  have hpins : ∀ p, (ioapicInit isos .reset).pinToVector p = 0 := fun _ => rfl
  refine ⟨fun p _ => ?_, fun p hp => absurd (hpins p) hp, fun p _ hp => absurd (hpins p) hp, ?_,
    fun p hp => absurd (hpins p) hp, fun p hp => absurd (hpins p) hp, fun _ _ => ⟨rfl, rfl⟩,
    fun _ _ => rfl⟩
  · exact iff_of_false (not_not.mpr (hpins p)) fun ⟨_, hmem⟩ => nomatch hmem
  · have hempty : ((Finset.range 24).filter fun p =>
        (ioapicInit isos .reset).pinToVector p ≠ 0) = ∅ :=
      Finset.filter_eq_empty_iff.mpr fun p _ => not_not.mpr (hpins p)
    show (ioapicInit isos .reset).nextFreeVector = _
    exact (congrArg (40 + Finset.card ·) hempty).symm

end Steps

/-! ## The way of an interrupt -/

/-- The flags leave the vector and the mask alone. -/
lemma madtQueryIrq_flags (isos : List MadtIso) (irq vector : ℕ) (hv : vector ∈ [32, 36]) :
    (vector ||| (madtQueryIrq isos irq).2).testBit 16 = false ∧
    (vector ||| (madtQueryIrq isos irq).2) % 256 = vector := by
  have hflags : (madtQueryIrq isos irq).2 ∈ [0, 1 <<< 13, 1 <<< 15, 1 <<< 13 ||| 1 <<< 15] := by
    rw [madtQueryIrq]
    split
    · simp
    · dsimp only
      split_ifs <;> simp
  have hall : ∀ v ∈ [32, 36], ∀ f ∈ [0, 1 <<< 13, 1 <<< 15, 1 <<< 13 ||| 1 <<< 15],
      (v ||| f).testBit 16 = false ∧ (v ||| f) % 256 = v := by decide
  exact hall vector hv _ hflags

/-- The pins at boot: the serial port and the timer are routed, and all others are masked. -/
lemma route_ioapicInit (isos : List MadtIso) (p : ℕ) : (ioapicInit isos .reset).route p =
    if p = (madtQueryIrq isos 4).1 then some (0, 36)
    else if p = (madtQueryIrq isos 0).1 then some (0, 32) else none := by
  obtain ⟨hlow, hhigh⟩ := mapIrq_regs (Ioapic.reset.mapIrq (madtQueryIrq isos 0).1 32 0
    (madtQueryIrq isos 0).2) (madtQueryIrq isos 4).1 36 (madtQueryIrq isos 4).2 p
  obtain ⟨hlow₀, hhigh₀⟩ := mapIrq_regs Ioapic.reset (madtQueryIrq isos 0).1 32
    (madtQueryIrq isos 0).2 p
  rw [hlow₀] at hlow
  rw [hhigh₀] at hhigh
  have hroute : (ioapicInit isos .reset).route p =
      if ((ioapicInit isos .reset).regs (0x10 + p * 2)).testBit 16 then none
      else some ((ioapicInit isos .reset).regs (0x10 + p * 2 + 1) >>> 24,
        (ioapicInit isos .reset).regs (0x10 + p * 2) % 256) := rfl
  rw [hroute, show (ioapicInit isos .reset).regs (0x10 + p * 2) = _ from hlow,
    show (ioapicInit isos .reset).regs (0x10 + p * 2 + 1) = _ from hhigh]
  by_cases h4 : p = (madtQueryIrq isos 4).1
  · obtain ⟨hmask, hvec⟩ := madtQueryIrq_flags isos 4 36 (by decide)
    simp only [if_pos h4, hmask, hvec]
    rfl
  · by_cases h0 : p = (madtQueryIrq isos 0).1
    · obtain ⟨hmask, hvec⟩ := madtQueryIrq_flags isos 0 32 (by decide)
      simp only [if_neg h4, if_pos h0, hmask, hvec]
      rfl
    · have hreset : Ioapic.reset.regs (0x10 + p * 2) = 1 <<< 16 := if_pos (by omega)
      simp only [if_neg h4, if_neg h0, hreset]
      rfl

/-- The handlers that an interrupt on a pin with a given vector is to call: those of the drivers
that have asked for the pin, and those that have been installed on the vector itself. -/
def pinHandlers {H : Type*} (es : List (IrqEvent H)) (pin vector : ℕ) : List H :=
  es.filterMap fun
    | .attach irqPin handler => if irqPin = pin then some handler else none
    | .install logicalId v handler => if logicalId = 0 ∧ v = vector then some handler else none
    | .raise _ _ => none

section Routing

variable {H σ : Type*} {env : IrqEnv H σ} {boot : Ioapic} {es : List (IrqEvent H)}
  {s : IrqSys H σ} {pin : ℕ}

/-- A pin that a driver has asked for goes to the boot core, under a vector of its own. -/
lemma IrqInv.route (h : IrqInv boot es s) (hpin : pin < 24) (hatt : Attached es pin) :
    40 ≤ s.ioapic.pinToVector pin ∧ s.ioapic.pinToVector pin < 64 ∧
    s.ioapic.route pin = some (0, s.ioapic.pinToVector pin) := by
  have hne := (h.mapped pin hpin).mpr hatt
  obtain ⟨hle, hlt⟩ := h.range pin hne
  have hcard : ((Finset.range 24).filter fun p => s.ioapic.pinToVector p ≠ 0).card ≤ 24 :=
    (Finset.card_filter_le _ _).trans_eq (Finset.card_range _)
  have hlt' : s.ioapic.pinToVector pin < 64 := by
    have hnext := h.next
    omega
  obtain ⟨hlow, hhigh⟩ := h.regs pin hne
  have hmask : (s.ioapic.pinToVector pin).testBit 16 = false :=
    Nat.testBit_lt_two_pow (hlt'.trans (by decide))
  refine ⟨hle, hlt', ?_⟩
  rw [Ioapic.route]
  simp only [hlow, hhigh, hmask, Nat.mod_eq_of_lt (hlt'.trans (by decide : 64 < 256))]
  rfl

/-- The chain of such a vector has the handlers of the pin. -/
lemma IrqInv.routines_eq (h : IrqInv boot es s) (hpin : pin < 24) (hatt : Attached es pin) :
    s.routines 0 (s.ioapic.pinToVector pin) = pinHandlers es pin (s.ioapic.pinToVector pin) := by
  have hne := (h.mapped pin hpin).mpr hatt
  rw [h.routines]
  refine List.filterMap_congr fun e _ => ?_
  cases e with
  | attach p hd =>
    have hiff : (0 = 0 ∧ s.ioapic.pinToVector pin = s.ioapic.vectorOf p) ↔ p = pin := by
      rw [Ioapic.vectorOf]
      by_cases hp : p < 24
      · rw [if_pos hp]
        exact ⟨fun heq => (h.injective pin p hne heq.2).symm, fun heq => ⟨rfl, heq ▸ rfl⟩⟩
      · rw [if_neg hp]
        exact iff_of_false (fun heq => hne heq.2) fun heq => hp (heq ▸ hpin)
    dsimp only
    by_cases hp : p = pin
    · rw [if_pos (hiff.mpr hp), if_pos hp]
    · rw [if_neg fun heq => hp (hiff.mp heq), if_neg hp]
  | install c v hd =>
    dsimp only
    by_cases hcv : c = 0 ∧ v = s.ioapic.pinToVector pin
    · rw [if_pos ⟨hcv.1.symm, hcv.2.symm⟩, if_pos hcv]
    · rw [if_neg fun heq => hcv ⟨heq.1.symm, heq.2.symm⟩, if_neg hcv]
  | raise => rfl

end Routing

/-- **Interrupts reach their handlers.**  After any sequence of drivers, handlers and interrupts, a
pin that a driver has asked for has a vector that no other pin has, and an interrupt on it calls
exactly the handlers of the drivers that have asked for this pin and of this vector, each once and
in the order they came, with the frame that was interrupted; then the interrupt is ended.  The other
pins are as at boot: the serial port at 36, the timer at 32 unless it has the same pin, and the rest
masked. -/
theorem irq_routing {H σ : Type*} (env : IrqEnv H σ) (isos : List MadtIso) (kernel : σ)
    (es : List (IrqEvent H)) (s : IrqSys H σ)
    (hrun : irqRun env (irqBoot isos kernel) es = some s) :
    (∀ pin < 24, Attached es pin → ∃ vector, 40 ≤ vector ∧ vector < 64 ∧
      s.ioapic.route pin = some (0, vector) ∧
      (∀ pin' ≠ pin, s.ioapic.route pin' ≠ some (0, vector)) ∧
      ∀ tf, ∃ s', irqStep env s (.raise pin tf) = some s' ∧
        s'.calls = s.calls ++ (pinHandlers es pin vector).map (fun h => (h, tf)) ∧
        s'.eois = s.eois ++ [0]) ∧
    ∀ pin, ¬(pin < 24 ∧ Attached es pin) → s.ioapic.route pin =
      if pin = (madtQueryIrq isos 4).1 then some (0, 36)
      else if pin = (madtQueryIrq isos 0).1 then some (0, 32) else none := by
  have h := (irqInv_boot isos kernel).run hrun
  rw [List.nil_append] at h
  have hrest : ∀ pin, ¬(pin < 24 ∧ Attached es pin) → s.ioapic.route pin =
      if pin = (madtQueryIrq isos 4).1 then some (0, 36)
      else if pin = (madtQueryIrq isos 0).1 then some (0, 32) else none := by
    intro pin hpin
    have hzero : s.ioapic.pinToVector pin = 0 := by
      by_contra hne
      exact hpin ⟨h.pins pin hne, (h.mapped pin (h.pins pin hne)).mp hne⟩
    obtain ⟨hlow, hhigh⟩ := h.other pin hzero
    rw [← route_ioapicInit, Ioapic.route, Ioapic.route, hlow, hhigh]
  refine ⟨fun pin hpin hatt => ?_, hrest⟩
  obtain ⟨hle, hlt, hroute⟩ := h.route hpin hatt
  refine ⟨_, hle, hlt, hroute, fun pin' hne hroute' => ?_, fun tf => ?_⟩
  · by_cases hpin' : pin' < 24 ∧ Attached es pin'
    · obtain ⟨-, -, hroute''⟩ := h.route hpin'.1 hpin'.2
      rw [hroute''] at hroute'
      have heq := (Prod.ext_iff.mp (Option.some.inj hroute')).2
      exact hne (h.injective pin' pin ((h.mapped pin' hpin'.1).mpr hpin'.2) heq)
    · rw [hrest pin' hpin'] at hroute'
      split_ifs at hroute' <;> simp only [Option.some.injEq, Prod.mk.injEq] at hroute' <;> omega
  · obtain ⟨-, -, heois, hcalls⟩ := dispatch_spec env s 0 (s.ioapic.pinToVector pin) tf
    rw [h.routines_eq hpin hatt] at hcalls
    refine ⟨_, ?_, hcalls, heois⟩
    rw [irqStep, hroute]
    dsimp only
    rw [env.coreOf_zero]

/-- Handlers that do nothing, on two cores. -/
def quietEnv : IrqEnv ℕ Unit where
  present c := c < 2
  coreOf := id
  run _ tf k := (tf, k)
  coreOf_zero := rfl

/-- Two devices on one pin, with the interrupts between cores on the same vector. -/
theorem irq_routing_shared : ∃ s s', irqRun quietEnv (irqBoot [] ())
    [.attach 11 1, .attach 10 2, .install 0 40 3, .attach 11 4] = some s ∧
    irqStep quietEnv s (.raise 11 0x9000) = some s' ∧
    s'.calls = [(1, 0x9000), (3, 0x9000), (4, 0x9000)] := by
  obtain ⟨s, hs⟩ := Option.isSome_iff_exists.mp (show (irqRun quietEnv (irqBoot [] ())
    [.attach 11 1, .attach 10 2, .install 0 40 3, .attach 11 4]).isSome = true from rfl)
  obtain ⟨hvec, hcalls⟩ : s.ioapic.route 11 = some (0, 40) ∧ s.calls = [] := by
    cases hs
    exact ⟨rfl, rfl⟩
  obtain ⟨hatt, -⟩ := irq_routing quietEnv [] () _ s hs
  obtain ⟨vector, -, -, hroute, -, hraise⟩ := hatt 11 (by decide) ⟨1, by simp⟩
  have hv : vector = 40 := by
    rw [hvec] at hroute
    exact (Prod.ext_iff.mp (Option.some.inj hroute)).2.symm
  obtain ⟨s', hs', hcalls', -⟩ := hraise 0x9000
  rw [hcalls, hv] at hcalls'
  exact ⟨s, s', hs, hs', hcalls'⟩

end Cuore
