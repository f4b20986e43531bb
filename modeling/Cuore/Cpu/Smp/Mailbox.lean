import Mathlib.Data.List.Count
import Mathlib.Data.List.Nodup
import Mathlib.Logic.Function.Basic

/-!
# Mailboxes between the cores (`cpu/smp/mailbox.c`, `cpu/smp/init.c`)

Every core has a mailbox with room for one function.  `mailbox_send` waits until `pending` is
false, stores the function and its data, and sets `pending`; the receiving core, in the loop of
`AP_kstartc`, calls the function and clears `pending`.  `mailbox_send_fc` looks for an idle core
first, and `mailman_send` sends to every other core.

Each load and each store of a mailbox is one step, and the steps of any number of sending threads
and of the receiving cores interleave in any order.  A function that is stored carries the number of
the `mailbox_send` that stores it; `sent` and `executed` are the record of the completed sends and
of the calls that the receiving cores made.

Between the load of `pending` that ends the wait and the stores behind it another sender can find
the same slot free.  `SlotFree` says that this did not happen: when a sender stores its function,
the slot is still free and no other sender is filling it.  As long as every store finds the slot so,
no function is lost and none is called twice; otherwise both can happen.
-/

namespace Cuore

/-! ## The machine -/

/-- A function, with the number of the `mailbox_send` that stores it. -/
structure Message (F : Type*) where
  func : F
  call : ℕ
  deriving DecidableEq, Repr

/-- `mailbox_t`.  A null function is `none`. -/
structure Mailbox (F : Type*) where
  func : Option (Message F)
  data : ℕ
  pending : Bool

/-- `cpu_status_t`. -/
inductive CpuStatus
  | idle
  | busy
  | halted
  | panic
  deriving DecidableEq, Repr

/-- Where a receiving core stands in the loop of `AP_kstartc`. -/
inductive ReceiverPc
  | setIdle
  | halt
  | setBusy
  | testFunc
  | callFunc
  | clearPending
  deriving DecidableEq, Repr

/-- A core: the fields of `coreinfo_t` that the mailboxes use. -/
structure Core (F : Type*) where
  mailbox : Mailbox F
  status : CpuStatus
  pc : ReceiverPc

/-- The arguments of a `mailbox_send`; `next` is where `mailman_send` goes on, if it called. -/
structure Send (F : Type*) where
  target : ℕ
  func : Option F
  data : ℕ
  call : ℕ
  next : Option ℕ
  deriving DecidableEq, Repr

/-- Where a sending thread stands. -/
inductive SenderPc (F : Type*)
  | idle
  | scan (i : ℕ) (func : Option F) (data : ℕ)
  | scanPending (i : ℕ) (func : Option F) (data : ℕ)
  | broadcast (i : ℕ) (func : Option F) (data : ℕ)
  | wait (x : Send F)
  | storeFunc (x : Send F)
  | storeData (x : Send F)
  | storePending (x : Send F)
  | callSelf
  deriving DecidableEq, Repr

/-- The cores and the threads, with the record of what was sent and what was called. -/
structure Smp (F : Type*) where
  core : ℕ → Core F
  thread : ℕ → SenderPc F
  calls : ℕ
  sent : List (ℕ × Message F)
  executed : List (ℕ × Message F)

/-- The number of cores, and the core that each thread runs on. -/
structure Machine where
  count : ℕ
  coreOf : ℕ → ℕ

/-- The calls that a thread can make. -/
inductive MailCall (F : Type*)
  | send (target : ℕ) (func : Option F) (data : ℕ)
  | sendFc (func : Option F) (data : ℕ)
  | mailman (func : Option F) (data : ℕ)

/-- What can happen next: a thread makes a call, or a thread or a core does its next step. -/
inductive SmpEvent (F : Type*)
  | call (s : ℕ) (c : MailCall F)
  | sender (s : ℕ)
  | receiver (c : ℕ)

/-- What a send stores in the mailbox. -/
def Send.message {F : Type*} (x : Send F) : Option (Message F) := x.func.map (⟨·, x.call⟩)

namespace Smp

variable {F : Type*} (M : Machine) (σ : Smp F)

/-- All cores idle, all mailboxes empty, no thread sending. -/
def init : Smp F := ⟨fun _ => ⟨⟨none, 0, false⟩, .idle, .setIdle⟩, fun _ => .idle, 0, [], []⟩

/-- The thread `s` goes on at `pc`. -/
def goto (s : ℕ) (pc : SenderPc F) : Smp F := { σ with thread := Function.update σ.thread s pc }

/-- A change of one core. -/
def setCore (c : ℕ) (k : Core F) : Smp F := { σ with core := Function.update σ.core c k }

/-- A change of one mailbox. -/
def setMailbox (c : ℕ) (b : Mailbox F) : Smp F := σ.setCore c { σ.core c with mailbox := b }

/-- `mailbox_send` is entered. -/
def startSend (s target : ℕ) (func : Option F) (data : ℕ) (next : Option ℕ) : Smp F :=
  { σ.goto s (.wait ⟨target, func, data, σ.calls, next⟩) with calls := σ.calls + 1 }

/-- The next step of a sending thread. -/
def senderStep (s : ℕ) : Option (Smp F) :=
  match σ.thread s with
  | .idle => none
  -- `get_idle_core`
  | .scan i func data =>
    if i ≥ M.count then some (σ.goto s .idle)
    else if i = M.coreOf s then some (σ.goto s (.scan (i + 1) func data))
    else if (σ.core i).status = .idle then some (σ.goto s (.scanPending i func data))
    else some (σ.goto s (.scan (i + 1) func data))
  | .scanPending i func data =>
    if (σ.core i).mailbox.pending then some (σ.goto s (.scan (i + 1) func data))
    else some (σ.startSend s i func data none)
  -- the loop of `mailman_send`
  | .broadcast i func data =>
    if i ≥ M.count then some (σ.goto s .callSelf)
    else if i = M.coreOf s then some (σ.goto s (.broadcast (i + 1) func data))
    else some (σ.startSend s i func data (some (i + 1)))
  -- `mailbox_send`
  | .wait x =>
    if (σ.core x.target).mailbox.pending then some σ else some (σ.goto s (.storeFunc x))
  | .storeFunc x =>
    some ((σ.setMailbox x.target { (σ.core x.target).mailbox with func := x.message }).goto s
      (.storeData x))
  | .storeData x =>
    some ((σ.setMailbox x.target { (σ.core x.target).mailbox with data := x.data }).goto s
      (.storePending x))
  | .storePending x =>
    let σ' := σ.setMailbox x.target { (σ.core x.target).mailbox with pending := true }
    let σ' := { σ' with sent := σ.sent ++ x.message.toList.map fun m => (x.target, m) }
    some (σ'.goto s (match x.next with
      | none => .idle
      | some i => .broadcast i x.func x.data))
  | .callSelf => some (σ.goto s .idle)

/-- The next step of a receiving core. -/
def receiverStep (c : ℕ) : Option (Smp F) :=
  let k := σ.core c
  match k.pc with
  | .setIdle => some (σ.setCore c { k with status := .idle, pc := .halt })
  | .halt => some (σ.setCore c { k with pc := if k.mailbox.pending then .setBusy else .setIdle })
  | .setBusy => some (σ.setCore c { k with status := .busy, pc := .testFunc })
  | .testFunc =>
    some (σ.setCore c { k with pc := if k.mailbox.func.isSome then .callFunc else .clearPending })
  | .callFunc =>
    k.mailbox.func.map fun m =>
      { σ.setCore c { k with pc := .clearPending } with executed := σ.executed ++ [(c, m)] }
  | .clearPending =>
    some (σ.setCore c ⟨{ k.mailbox with pending := false }, k.status, .setIdle⟩)

/-- A thread makes a call.  A send to a core that is not there panics. -/
def callStep (s : ℕ) (call : MailCall F) : Option (Smp F) :=
  match σ.thread s with
  | .idle =>
    match call with
    | .send target func data =>
      if target < M.count then some (σ.startSend s target func data none) else none
    | .sendFc func data => some (σ.goto s (.scan 0 func data))
    | .mailman func data => some (σ.goto s (.broadcast 0 func data))
  | _ => none

/-- One step of the machine. -/
def step : SmpEvent F → Option (Smp F)
  | .call s c => σ.callStep M s c
  | .sender s => σ.senderStep M s
  | .receiver c => σ.receiverStep c

/-- A sequence of steps. -/
def run : Smp F → List (SmpEvent F) → Option (Smp F)
  | σ, [] => some σ
  | σ, e :: es => (σ.step M e).bind fun σ' => run σ' es

end Smp

/-! ## The condition and the invariant -/

namespace SenderPc

variable {F : Type*}

/-- The send that a thread is in. -/
def send? : SenderPc F → Option (Send F)
  | wait x | storeFunc x | storeData x | storePending x => some x
  | _ => none

/-- The send whose function a thread has stored and not yet released. -/
def filling? : SenderPc F → Option (Send F)
  | storeData x | storePending x => some x
  | _ => none

lemma send?_of_filling? {pc : SenderPc F} {x : Send F} (h : pc.filling? = some x) :
    pc.send? = some x := by
  cases pc <;> first | exact h | exact absurd h (by simp [filling?])

end SenderPc

/-- The receiving core has seen `pending` and not yet cleared it. -/
def ReceiverPc.inCall : ReceiverPc → Bool
  | setBusy | testFunc | callFunc | clearPending => true
  | setIdle | halt => false

namespace Smp

variable {F : Type*} {M : Machine} {σ σ' : Smp F}

/-- If the next event is the store of a function, then the slot is free and nobody else is filling
it. -/
def SlotFree (σ : Smp F) (e : SmpEvent F) : Prop :=
  ∀ s x, e = .sender s → σ.thread s = .storeFunc x →
    (σ.core x.target).mailbox.pending = false ∧
      ∀ s' x', (σ.thread s').filling? = some x' → x'.target ≠ x.target

/-- A sequence of steps in which every store of a function finds the slot free. -/
inductive FreeRun (M : Machine) : Smp F → List (SmpEvent F) → Smp F → Prop
  | nil (σ : Smp F) : FreeRun M σ [] σ
  | cons {σ σ' σ'' : Smp F} {e : SmpEvent F} {es : List (SmpEvent F)} (hfree : σ.SlotFree e)
      (hstep : σ.step M e = some σ') (hrest : FreeRun M σ' es σ'') : FreeRun M σ (e :: es) σ''

/-- `m` is in the mailbox, released, and still to be called. -/
def Waiting (k : Core F) (m : Message F) : Prop :=
  k.mailbox.pending = true ∧ k.mailbox.func = some m ∧ k.pc ≠ .clearPending

instance [DecidableEq F] (k : Core F) (m : Message F) : Decidable (Waiting k m) :=
  inferInstanceAs (Decidable (_ ∧ _ ∧ _))

/-- What holds as long as every store of a function finds the slot free. -/
structure Inv [DecidableEq F] (σ : Smp F) : Prop where
  sent_lt : ∀ p ∈ σ.sent, p.2.call < σ.calls
  sent_nodup : (σ.sent.map fun p => p.2.call).Nodup
  send_lt : ∀ s x, (σ.thread s).send? = some x → x.call < σ.calls
  send_fresh : ∀ s x, (σ.thread s).send? = some x → ∀ p ∈ σ.sent, p.2.call ≠ x.call
  send_inj : ∀ s s' x x', (σ.thread s).send? = some x → (σ.thread s').send? = some x' →
    x.call = x'.call → s = s'
  fill_inj : ∀ s s' x x', (σ.thread s).filling? = some x → (σ.thread s').filling? = some x' →
    x.target = x'.target → s = s'
  fill_slot : ∀ s x, (σ.thread s).filling? = some x →
    (σ.core x.target).mailbox.pending = false ∧ (σ.core x.target).mailbox.func = x.message
  inCall_pending : ∀ c, (σ.core c).pc.inCall = true → (σ.core c).mailbox.pending = true
  pending_sent : ∀ c m, (σ.core c).mailbox.pending = true → (σ.core c).mailbox.func = some m →
    (c, m) ∈ σ.sent
  count : ∀ c m, σ.executed.count (c, m) = if (c, m) ∈ σ.sent ∧ ¬Waiting (σ.core c) m then 1 else 0

section Updates

variable {s s' c c' : ℕ} {pc : SenderPc F} {b : Mailbox F} {x : Send F} {p : ℕ × Message F}

lemma thread_goto_self : (σ.goto s pc).thread s = pc := Function.update_self ..

lemma thread_goto_of_ne (h : s' ≠ s) : (σ.goto s pc).thread s' = σ.thread s' :=
  Function.update_of_ne h ..

lemma core_setMailbox_self : (σ.setMailbox c b).core c = { σ.core c with mailbox := b } :=
  Function.update_self ..

lemma core_setMailbox_of_ne (h : c' ≠ c) : (σ.setMailbox c b).core c' = σ.core c' :=
  Function.update_of_ne h ..

/-- A send is the one its thread moved into, or it was there before. -/
lemma send?_goto (h : ((σ.goto s pc).thread s').send? = some x) :
    s' = s ∧ pc.send? = some x ∨ s' ≠ s ∧ (σ.thread s').send? = some x := by
  by_cases hs : s' = s
  · subst hs
    rw [thread_goto_self] at h
    exact .inl ⟨rfl, h⟩
  · rw [thread_goto_of_ne hs] at h
    exact .inr ⟨hs, h⟩

lemma filling?_goto (h : ((σ.goto s pc).thread s').filling? = some x) :
    s' = s ∧ pc.filling? = some x ∨ s' ≠ s ∧ (σ.thread s').filling? = some x := by
  by_cases hs : s' = s
  · subst hs
    rw [thread_goto_self] at h
    exact .inl ⟨rfl, h⟩
  · rw [thread_goto_of_ne hs] at h
    exact .inr ⟨hs, h⟩

lemma mem_released : p ∈ x.message.toList.map (fun m => (x.target, m)) ↔
    p.1 = x.target ∧ x.message = some p.2 := by
  simp only [List.mem_map, Option.mem_toList]
  constructor
  · rintro ⟨m, hm, rfl⟩
    exact ⟨rfl, hm⟩
  · rintro ⟨htarget, hm⟩
    exact ⟨p.2, hm, Prod.ext htarget.symm rfl⟩

lemma call_of_message {m : Message F} (h : x.message = some m) : m.call = x.call := by
  obtain ⟨f, -, rfl⟩ := Option.map_eq_some_iff.mp h
  rfl

end Updates

variable [DecidableEq F]

lemma inv_init : (init : Smp F).Inv := by
  constructor <;> simp [init, SenderPc.send?, SenderPc.filling?, ReceiverPc.inCall]

/-! ## Steps that leave the slots alone -/

/-- A thread moves without entering a send or storing anything. -/
lemma Inv.goto (h : σ.Inv) {s : ℕ} {pc : SenderPc F}
    (hsend : ∀ x, pc.send? = some x → (σ.thread s).send? = some x)
    (hfill : ∀ x, pc.filling? = some x → (σ.thread s).filling? = some x) :
    (σ.goto s pc).Inv := by
  -- whatever a thread has in flight afterwards, it had before
  have hsend' : ∀ s' x, ((σ.goto s pc).thread s').send? = some x →
    (σ.thread s').send? = some x := by
    intro s' x hx
    rcases send?_goto hx with ⟨rfl, hpc⟩ | ⟨-, hold⟩
    · exact hsend x hpc
    · exact hold
  have hfill' : ∀ s' x, ((σ.goto s pc).thread s').filling? = some x →
      (σ.thread s').filling? = some x := by
    intro s' x hx
    rcases filling?_goto hx with ⟨rfl, hpc⟩ | ⟨-, hold⟩
    · exact hfill x hpc
    · exact hold
  exact {
    sent_lt := h.sent_lt
    sent_nodup := h.sent_nodup
    send_lt := fun s x hx => h.send_lt s x (hsend' s x hx)
    send_fresh := fun s x hx => h.send_fresh s x (hsend' s x hx)
    send_inj := fun s s' x x' hx hx' => h.send_inj s s' x x' (hsend' s x hx) (hsend' s' x' hx')
    fill_inj := fun s s' x x' hx hx' => h.fill_inj s s' x x' (hfill' s x hx) (hfill' s' x' hx')
    fill_slot := fun s x hx => h.fill_slot s x (hfill' s x hx)
    inCall_pending := h.inCall_pending
    pending_sent := h.pending_sent
    count := h.count }

/-- A core changes neither its slot nor what it still has to call. -/
lemma Inv.setCore (h : σ.Inv) {c : ℕ} {k : Core F}
    (hpending : k.mailbox.pending = (σ.core c).mailbox.pending)
    (hfunc : k.mailbox.func = (σ.core c).mailbox.func)
    (hcall : k.pc.inCall = true → k.mailbox.pending = true)
    (hwait : ∀ m, Waiting k m ↔ Waiting (σ.core c) m) : (σ.setCore c k).Inv := by
  have hslot : ∀ c', ((σ.setCore c k).core c').mailbox.pending = (σ.core c').mailbox.pending ∧
      ((σ.setCore c k).core c').mailbox.func = (σ.core c').mailbox.func ∧
      (((σ.setCore c k).core c').pc.inCall = true → (σ.core c').mailbox.pending = true) ∧
      ∀ m, Waiting ((σ.setCore c k).core c') m ↔ Waiting (σ.core c') m := by
    intro c'
    by_cases hc : c' = c
    · subst hc
      simp only [Smp.setCore, Function.update_self]
      exact ⟨hpending, hfunc, fun hb => hpending ▸ hcall hb, hwait⟩
    · have hcore : (σ.setCore c k).core c' = σ.core c' := Function.update_of_ne hc _ _
      rw [hcore]
      exact ⟨rfl, rfl, h.inCall_pending c', fun _ => Iff.rfl⟩
  exact {
    sent_lt := h.sent_lt
    sent_nodup := h.sent_nodup
    send_lt := h.send_lt
    send_fresh := h.send_fresh
    send_inj := h.send_inj
    fill_inj := h.fill_inj
    fill_slot := fun s x hx => by
      rw [(hslot x.target).1, (hslot x.target).2.1]
      exact h.fill_slot s x hx
    inCall_pending := fun c' hb => by
      rw [(hslot c').1]
      exact (hslot c').2.2.1 hb
    pending_sent := fun c' m hp hf => by
      rw [(hslot c').1] at hp
      rw [(hslot c').2.1] at hf
      exact h.pending_sent c' m hp hf
    count := fun c' m => (h.count c' m).trans
      (if_congr (and_congr_right fun _ => not_congr ((hslot c').2.2.2 m).symm) rfl rfl) }

/-- A thread enters `mailbox_send`, with a number that no other call has. -/
lemma Inv.startSend (h : σ.Inv) (s target : ℕ) (func : Option F) (data : ℕ) (next : Option ℕ) :
    (σ.startSend s target func data next).Inv := by
  have hthread : ∀ s' x, ((σ.startSend s target func data next).thread s').send? = some x →
      s' = s ∧ x.call = σ.calls ∨ s' ≠ s ∧ (σ.thread s').send? = some x := by
    intro s' x hx
    rcases send?_goto hx with ⟨rfl, hpc⟩ | hold
    · cases hpc
      exact .inl ⟨rfl, rfl⟩
    · exact .inr hold
  have hfill : ∀ s' x, ((σ.startSend s target func data next).thread s').filling? = some x →
      (σ.thread s').filling? = some x := by
    intro s' x hx
    rcases filling?_goto hx with ⟨-, hpc⟩ | ⟨-, hold⟩
    · cases hpc
    · exact hold
  exact {
    sent_lt := fun p hp => Nat.lt_succ_of_lt (h.sent_lt p hp)
    sent_nodup := h.sent_nodup
    send_lt := fun s' x hx => by
      rcases hthread s' x hx with ⟨-, hcall⟩ | ⟨-, hx⟩
      · exact hcall ▸ Nat.lt_succ_self _
      · exact Nat.lt_succ_of_lt (h.send_lt s' x hx)
    send_fresh := fun s' x hx p hp => by
      rcases hthread s' x hx with ⟨-, hcall⟩ | ⟨-, hx⟩
      · exact hcall ▸ Nat.ne_of_lt (h.sent_lt p hp)
      · exact h.send_fresh s' x hx p hp
    send_inj := fun s₁ s₂ x₁ x₂ hx₁ hx₂ hcall => by
      rcases hthread s₁ x₁ hx₁ with ⟨hs₁, hc₁⟩ | ⟨-, hy₁⟩ <;>
        rcases hthread s₂ x₂ hx₂ with ⟨hs₂, hc₂⟩ | ⟨-, hy₂⟩
      · exact hs₁.trans hs₂.symm
      · exact absurd (hcall.symm.trans hc₁) (Nat.ne_of_lt (h.send_lt s₂ x₂ hy₂))
      · exact absurd (hcall.trans hc₂) (Nat.ne_of_lt (h.send_lt s₁ x₁ hy₁))
      · exact h.send_inj s₁ s₂ x₁ x₂ hy₁ hy₂ hcall
    fill_inj := fun s₁ s₂ x₁ x₂ hx₁ hx₂ =>
      h.fill_inj s₁ s₂ x₁ x₂ (hfill s₁ x₁ hx₁) (hfill s₂ x₂ hx₂)
    fill_slot := fun s' x hx => h.fill_slot s' x (hfill s' x hx)
    inCall_pending := h.inCall_pending
    pending_sent := h.pending_sent
    count := h.count }

/-- The data is stored next to the function. -/
lemma Inv.setData (h : σ.Inv) (c data : ℕ) :
    (σ.setMailbox c { (σ.core c).mailbox with data := data }).Inv :=
  h.setCore rfl rfl (h.inCall_pending c) fun _ => Iff.rfl

/-! ## Filling, releasing, calling, clearing -/

/-- A function is stored in a free slot. -/
lemma Inv.storeFunc (h : σ.Inv) {s : ℕ} {x : Send F} (hs : σ.thread s = .storeFunc x)
    (hfree : σ.SlotFree (.sender s)) :
    ((σ.setMailbox x.target { (σ.core x.target).mailbox with func := x.message }).goto s
      (.storeData x)).Inv := by
  obtain ⟨hpending, hothers⟩ := hfree s x rfl hs
  set σ' := (σ.setMailbox x.target { (σ.core x.target).mailbox with func := x.message }).goto s
    (.storeData x) with hσ'
  have hsend : ∀ s' x', (σ'.thread s').send? = some x' → (σ.thread s').send? = some x' := by
    intro s' x' hx
    rcases send?_goto hx with ⟨rfl, hpc⟩ | ⟨-, hold⟩
    · rw [hs]
      exact hpc
    · exact hold
  have hfill : ∀ s' x', (σ'.thread s').filling? = some x' →
      s' = s ∧ x' = x ∨ s' ≠ s ∧ (σ.thread s').filling? = some x' := by
    intro s' x' hx
    rcases filling?_goto hx with ⟨hself, hpc⟩ | hold
    · exact .inl ⟨hself, (Option.some.inj hpc).symm⟩
    · exact .inr hold
  have hcore : ∀ c, c ≠ x.target → σ'.core c = σ.core c := fun _ hc => core_setMailbox_of_ne hc
  have hself : σ'.core x.target =
      { σ.core x.target with mailbox := { (σ.core x.target).mailbox with func := x.message } } :=
    core_setMailbox_self
  exact {
    sent_lt := h.sent_lt
    sent_nodup := h.sent_nodup
    send_lt := fun s' x' hx => h.send_lt s' x' (hsend s' x' hx)
    send_fresh := fun s' x' hx => h.send_fresh s' x' (hsend s' x' hx)
    send_inj := fun s₁ s₂ x₁ x₂ hx₁ hx₂ =>
      h.send_inj s₁ s₂ x₁ x₂ (hsend s₁ x₁ hx₁) (hsend s₂ x₂ hx₂)
    fill_inj := fun s₁ s₂ x₁ x₂ hx₁ hx₂ ht => by
      rcases hfill s₁ x₁ hx₁ with ⟨hs₁, he₁⟩ | ⟨-, hy₁⟩ <;>
        rcases hfill s₂ x₂ hx₂ with ⟨hs₂, he₂⟩ | ⟨-, hy₂⟩
      · exact hs₁.trans hs₂.symm
      · exact absurd (he₁ ▸ ht).symm (hothers s₂ x₂ hy₂)
      · exact absurd (he₂ ▸ ht) (hothers s₁ x₁ hy₁)
      · exact h.fill_inj s₁ s₂ x₁ x₂ hy₁ hy₂ ht
    fill_slot := fun s' x' hx => by
      rcases hfill s' x' hx with ⟨rfl, rfl⟩ | ⟨-, hx⟩
      · rw [hself]
        exact ⟨hpending, rfl⟩
      · rw [hcore _ (hothers s' x' hx)]
        exact h.fill_slot s' x' hx
    inCall_pending := fun c hb => by
      by_cases hc : c = x.target
      · subst hc
        rw [hself] at hb ⊢
        exact h.inCall_pending _ hb
      · rw [hcore c hc] at hb ⊢
        exact h.inCall_pending c hb
    pending_sent := fun c m hp hf => by
      by_cases hc : c = x.target
      · subst hc
        rw [hself] at hp
        exact absurd (hpending.symm.trans hp) Bool.false_ne_true
      · rw [hcore c hc] at hp hf
        exact h.pending_sent c m hp hf
    count := fun c m => by
      refine (h.count c m).trans (if_congr (and_congr_right fun _ => not_congr ?_) rfl rfl)
      by_cases hc : c = x.target
      · subst hc
        rw [hself]
        simp [Waiting, hpending]
      · rw [hcore c hc] }

/-- The slot is released: the send is complete, and its function is the one to be called. -/
lemma Inv.storePending (h : σ.Inv) {s : ℕ} {x : Send F} (hs : σ.thread s = .storePending x)
    {pc : SenderPc F} (hpc : pc.send? = none) :
    ({ σ.setMailbox x.target { (σ.core x.target).mailbox with pending := true } with
      sent := σ.sent ++ x.message.toList.map fun m => (x.target, m) }.goto s pc).Inv := by
  have hxsend : (σ.thread s).send? = some x := by rw [hs]; rfl
  have hxfill : (σ.thread s).filling? = some x := by rw [hs]; rfl
  obtain ⟨hpending, hfunc⟩ := h.fill_slot s x hxfill
  have hidle : (σ.core x.target).pc.inCall ≠ true := fun hb =>
    Bool.false_ne_true (hpending.symm.trans (h.inCall_pending _ hb))
  have hnotclear : (σ.core x.target).pc ≠ .clearPending := fun hb => hidle (by rw [hb]; rfl)
  set σ' := { σ.setMailbox x.target { (σ.core x.target).mailbox with pending := true } with
    sent := σ.sent ++ x.message.toList.map fun m => (x.target, m) }.goto s pc with hσ'
  have hsend : ∀ s' x', (σ'.thread s').send? = some x' →
      s' ≠ s ∧ (σ.thread s').send? = some x' := by
    intro s' x' hx
    rcases send?_goto hx with ⟨-, hmove⟩ | hold
    · rw [hpc] at hmove
      cases hmove
    · exact hold
  have hfill : ∀ s' x', (σ'.thread s').filling? = some x' →
      s' ≠ s ∧ (σ.thread s').filling? = some x' := by
    intro s' x' hx
    rcases filling?_goto hx with ⟨-, hmove⟩ | hold
    · rw [SenderPc.send?_of_filling? hmove] at hpc
      cases hpc
    · exact hold
  have hcore : ∀ c, c ≠ x.target → σ'.core c = σ.core c := fun _ hc => core_setMailbox_of_ne hc
  have hself : σ'.core x.target =
      { σ.core x.target with mailbox := { (σ.core x.target).mailbox with pending := true } } :=
    core_setMailbox_self
  have hsent : ∀ p, p ∈ σ'.sent ↔ p ∈ σ.sent ∨ p.1 = x.target ∧ x.message = some p.2 := fun p =>
    List.mem_append.trans (or_congr_right mem_released)
  exact {
    sent_lt := fun p hp => by
      rcases (hsent p).mp hp with hp | ⟨-, hm⟩
      · exact h.sent_lt p hp
      · rw [call_of_message hm]
        exact h.send_lt s x hxsend
    sent_nodup := by
      have hmap : σ'.sent.map (fun p => p.2.call) = σ.sent.map (fun p => p.2.call) ++
          (x.message.toList.map fun m => (x.target, m)).map fun p => p.2.call := List.map_append
      rw [hmap, List.nodup_append']
      refine ⟨h.sent_nodup, ?_, fun n hn hn' => ?_⟩
      · cases x.message <;> simp
      · obtain ⟨p, hp, rfl⟩ := List.mem_map.mp hn
        obtain ⟨p', hp', heq⟩ := List.mem_map.mp hn'
        exact h.send_fresh s x hxsend p hp
          (heq.symm.trans (call_of_message (mem_released.mp hp').2))
    send_lt := fun s' x' hx => h.send_lt s' x' (hsend s' x' hx).2
    send_fresh := fun s' x' hx p hp => by
      obtain ⟨hne, hx'⟩ := hsend s' x' hx
      rcases (hsent p).mp hp with hp | ⟨-, hm⟩
      · exact h.send_fresh s' x' hx' p hp
      · rw [call_of_message hm]
        exact fun heq => hne (h.send_inj s' s x' x hx' hxsend heq.symm)
    send_inj := fun s₁ s₂ x₁ x₂ hx₁ hx₂ =>
      h.send_inj s₁ s₂ x₁ x₂ (hsend s₁ x₁ hx₁).2 (hsend s₂ x₂ hx₂).2
    fill_inj := fun s₁ s₂ x₁ x₂ hx₁ hx₂ =>
      h.fill_inj s₁ s₂ x₁ x₂ (hfill s₁ x₁ hx₁).2 (hfill s₂ x₂ hx₂).2
    fill_slot := fun s' x' hx => by
      obtain ⟨hne, hx'⟩ := hfill s' x' hx
      have ht : x'.target ≠ x.target := fun ht => hne (h.fill_inj s' s x' x hx' hxfill ht)
      rw [hcore _ ht]
      exact h.fill_slot s' x' hx'
    inCall_pending := fun c hb => by
      by_cases hc : c = x.target
      · rw [hc, hself]
      · rw [hcore c hc] at hb ⊢
        exact h.inCall_pending c hb
    pending_sent := fun c m hp hf => by
      by_cases hc : c = x.target
      · subst hc
        rw [hself] at hf
        exact (hsent _).mpr (.inr ⟨rfl, hfunc.symm.trans hf⟩)
      · rw [hcore c hc] at hp hf
        exact (hsent _).mpr (.inl (h.pending_sent c m hp hf))
    count := fun c m => by
      refine (h.count c m).trans (if_congr ?_ rfl rfl)
      by_cases hc : c = x.target
      · subst hc
        have hbefore : ¬Waiting (σ.core x.target) m := fun hw =>
          Bool.false_ne_true (hpending.symm.trans hw.1)
        have hafter : Waiting (σ'.core x.target) m ↔ x.message = some m := by
          rw [hself, ← hfunc]
          exact ⟨fun hw => hw.2.1, fun hf => ⟨rfl, hf, hnotclear⟩⟩
        rw [hafter, hsent]
        constructor
        · rintro ⟨hmem, -⟩
          exact ⟨.inl hmem, fun hm => h.send_fresh s x hxsend _ hmem (call_of_message hm)⟩
        · rintro ⟨hmem | ⟨-, hm⟩, hne⟩
          · exact ⟨hmem, hbefore⟩
          · exact absurd hm hne
      · rw [hcore c hc, hsent]
        exact and_congr_left fun _ => ⟨.inl, fun hmem => hmem.resolve_right fun hn => hc hn.1⟩ }

/-- The function in the slot is called. -/
lemma Inv.callFunc (h : σ.Inv) {c : ℕ} {m : Message F} (hpc : (σ.core c).pc = .callFunc)
    (hm : (σ.core c).mailbox.func = some m) :
    ({ σ.setCore c { σ.core c with pc := .clearPending } with
      executed := σ.executed ++ [(c, m)] } : Smp F).Inv := by
  have hpending : (σ.core c).mailbox.pending = true := h.inCall_pending c (by rw [hpc]; rfl)
  have hwaiting : Waiting (σ.core c) m := ⟨hpending, hm, by rw [hpc]; decide⟩
  set σ' : Smp F := { σ.setCore c { σ.core c with pc := .clearPending } with
    executed := σ.executed ++ [(c, m)] } with hσ'
  have hcore : ∀ c', c' ≠ c → σ'.core c' = σ.core c' := fun c' hc => Function.update_of_ne hc _ _
  have hself : σ'.core c = { σ.core c with pc := .clearPending } := Function.update_self ..
  have hslot : ∀ c', (σ'.core c').mailbox = (σ.core c').mailbox := by
    intro c'
    by_cases hc : c' = c
    · rw [hc, hself]
    · rw [hcore c' hc]
  exact {
    sent_lt := h.sent_lt
    sent_nodup := h.sent_nodup
    send_lt := h.send_lt
    send_fresh := h.send_fresh
    send_inj := h.send_inj
    fill_inj := h.fill_inj
    fill_slot := fun s x hx => by
      rw [hslot]
      exact h.fill_slot s x hx
    inCall_pending := fun c' hb => by
      rw [hslot]
      by_cases hc : c' = c
      · rw [hc]
        exact hpending
      · rw [hcore c' hc] at hb
        exact h.inCall_pending c' hb
    pending_sent := fun c' m' hp hf => by
      rw [hslot] at hp hf
      exact h.pending_sent c' m' hp hf
    count := fun c' m' => by
      have hcount : σ'.executed.count (c', m') =
          σ.executed.count (c', m') + if (c, m) = (c', m') then 1 else 0 := by
        rw [hσ', List.count_append, List.count_singleton]
        simp only [beq_iff_eq]
      rw [hcount, h.count]
      by_cases hc : c' = c
      · subst hc
        have hafter : ¬Waiting (σ'.core c') m' := by
          rw [hself]
          exact fun hw => hw.2.2 rfl
        by_cases hm' : m' = m
        · subst hm'
          rw [if_neg (fun hw => hw.2 hwaiting), if_pos rfl,
            if_pos ⟨h.pending_sent _ _ hpending hm, hafter⟩]
        · have hbefore : ¬Waiting (σ.core c') m' := fun hw =>
            hm' (Option.some.inj (hw.2.1.symm.trans hm))
          rw [if_neg (fun heq => hm' (Prod.mk.inj heq).2.symm), Nat.add_zero]
          exact if_congr (and_congr_right fun _ => iff_of_true hbefore hafter) rfl rfl
      · rw [if_neg (fun heq => hc (Prod.mk.inj heq).1.symm), Nat.add_zero, hcore c' hc]
        rfl }

/-- The slot is cleared, once its function has been called. -/
lemma Inv.clearPending (h : σ.Inv) {c : ℕ} (hpc : (σ.core c).pc = .clearPending) :
    (σ.setCore c ⟨{ (σ.core c).mailbox with pending := false },
    (σ.core c).status, .setIdle⟩).Inv := by
  have hpending : (σ.core c).mailbox.pending = true := h.inCall_pending c (by rw [hpc]; rfl)
  set σ' := σ.setCore c ⟨{ (σ.core c).mailbox with pending := false }, (σ.core c).status, .setIdle⟩
    with hσ'
  have hcore : ∀ c', c' ≠ c → σ'.core c' = σ.core c' := fun c' hc => Function.update_of_ne hc _ _
  have hself : σ'.core c =
      ⟨{ (σ.core c).mailbox with pending := false }, (σ.core c).status, .setIdle⟩ :=
    Function.update_self ..
  exact {
    sent_lt := h.sent_lt
    sent_nodup := h.sent_nodup
    send_lt := h.send_lt
    send_fresh := h.send_fresh
    send_inj := h.send_inj
    fill_inj := h.fill_inj
    fill_slot := fun s x hx => by
      have ht : x.target ≠ c := fun ht =>
        Bool.false_ne_true ((h.fill_slot s x hx).1.symm.trans (ht ▸ hpending))
      rw [hcore _ ht]
      exact h.fill_slot s x hx
    inCall_pending := fun c' hb => by
      by_cases hc : c' = c
      · rw [hc, hself] at hb
        exact absurd hb Bool.false_ne_true
      · rw [hcore c' hc] at hb ⊢
        exact h.inCall_pending c' hb
    pending_sent := fun c' m hp hf => by
      by_cases hc : c' = c
      · rw [hc, hself] at hp
        exact absurd hp Bool.false_ne_true
      · rw [hcore c' hc] at hp hf
        exact h.pending_sent c' m hp hf
    count := fun c' m => by
      refine (h.count c' m).trans (if_congr (and_congr_right fun _ => not_congr ?_) rfl rfl)
      by_cases hc : c' = c
      · subst hc
        rw [hself]
        exact iff_of_false (fun hw => hw.2.2 hpc) (fun hw => Bool.false_ne_true hw.1)
      · rw [hcore c' hc] }

/-! ## Steps and runs -/

lemma Inv.callStep (h : σ.Inv) {s : ℕ} {call : MailCall F} (hstep : σ.callStep M s call = some σ') :
    σ'.Inv := by
  unfold Smp.callStep at hstep
  split at hstep
  case h_2 => cases hstep
  cases call with
  | send target func data =>
    simp only [Option.ite_none_right_eq_some, Option.some.injEq] at hstep
    exact hstep.2 ▸ h.startSend s target func data none
  | sendFc func data =>
    cases hstep
    exact h.goto (by simp [SenderPc.send?]) (by simp [SenderPc.filling?])
  | mailman func data =>
    cases hstep
    exact h.goto (by simp [SenderPc.send?]) (by simp [SenderPc.filling?])

lemma Inv.senderStep (h : σ.Inv) {s : ℕ} (hfree : σ.SlotFree (.sender s))
    (hstep : σ.senderStep M s = some σ') : σ'.Inv := by
  unfold Smp.senderStep at hstep
  -- a thread that is not in a send moves to a place that is not in one either
  have hmove : ∀ pc : SenderPc F, pc.send? = none → (σ.goto s pc).Inv := fun pc hpc =>
    h.goto (fun x hx => by rw [hpc] at hx; cases hx)
      (fun x hx => by rw [SenderPc.send?_of_filling? hx] at hpc; cases hpc)
  split at hstep
  · cases hstep
  · split_ifs at hstep <;> cases hstep <;> exact hmove _ rfl
  · split_ifs at hstep <;> cases hstep
    · exact hmove _ rfl
    · exact h.startSend ..
  · split_ifs at hstep <;> cases hstep
    · exact hmove _ rfl
    · exact hmove _ rfl
    · exact h.startSend ..
  case h_5 x hs =>
    split_ifs at hstep <;> cases hstep
    · exact h
    · exact h.goto (fun y hy => by rw [hs]; exact hy) (fun y hy => by cases hy)
  case h_6 x hs =>
    cases hstep
    exact h.storeFunc hs hfree
  case h_7 x hs =>
    cases hstep
    refine (h.setData x.target x.data).goto (fun y hy => ?_) (fun y hy => ?_)
    · exact (congrArg SenderPc.send? hs).trans hy
    · exact (congrArg SenderPc.filling? hs).trans hy
  case h_8 x hs =>
    cases hstep
    apply h.storePending hs
    cases x.next <;> rfl
  · cases hstep
    exact hmove _ rfl

lemma Inv.receiverStep (h : σ.Inv) {c : ℕ} (hstep : σ.receiverStep c = some σ') : σ'.Inv := by
  simp only [Smp.receiverStep] at hstep
  split at hstep
  case h_1 hpc =>
    cases hstep
    exact h.setCore rfl rfl (fun hb => by cases hb) fun m => by simp [Waiting, hpc]
  case h_2 hpc =>
    cases hstep
    refine h.setCore rfl rfl (fun hb => ?_) fun m => ?_
    · dsimp only at hb ⊢
      split_ifs at hb with hp
      · exact hp
      · cases hb
    · simp only [Waiting, hpc]
      split_ifs <;> simp
  case h_3 hpc =>
    cases hstep
    exact h.setCore rfl rfl (fun _ => h.inCall_pending c (by rw [hpc]; rfl)) fun m => by
      simp [Waiting, hpc]
  case h_4 hpc =>
    cases hstep
    refine h.setCore rfl rfl (fun _ => h.inCall_pending c (by rw [hpc]; rfl)) fun m => ?_
    simp only [Waiting, hpc]
    split_ifs with hsome
    · simp
    · rw [Bool.not_eq_true, Option.isSome_eq_false_iff, Option.isNone_iff_eq_none] at hsome
      simp [hsome]
  case h_5 hpc =>
    obtain ⟨m, hm, rfl⟩ := Option.map_eq_some_iff.mp hstep
    exact h.callFunc hpc hm
  case h_6 hpc =>
    cases hstep
    exact h.clearPending hpc

lemma Inv.step (h : σ.Inv) {e : SmpEvent F} (hfree : σ.SlotFree e) (hstep : σ.step M e = some σ') :
    σ'.Inv := by
  cases e with
  | call s c => exact h.callStep hstep
  | sender s => exact h.senderStep hfree hstep
  | receiver c => exact h.receiverStep hstep

lemma Inv.run (h : σ.Inv) {es : List (SmpEvent F)} (hrun : FreeRun M σ es σ') : σ'.Inv := by
  induction hrun with
  | nil σ => exact h
  | cons hfree hstep _ ih => exact ih (h.step hfree hstep)

/-- **No message is lost or duplicated** in a run in which every store of a function finds the slot
free.  Every function that a completed `mailbox_send` delivered to a core is called by that core at
most once, and once if nothing is pending in its mailbox; and a core calls nothing else. -/
theorem mailbox_exactly_once {es : List (SmpEvent F)} {σ : Smp F}
    (hrun : FreeRun M Smp.init es σ) :
    (σ.sent.map fun p => p.2.call).Nodup ∧
    (∀ c m, (c, m) ∈ σ.sent → σ.executed.count (c, m) ≤ 1) ∧
    (∀ c m, (c, m) ∈ σ.sent → (σ.core c).mailbox.pending = false →
      σ.executed.count (c, m) = 1) ∧
    (∀ c m, (c, m) ∈ σ.executed → (c, m) ∈ σ.sent) := by
  have hinv := inv_init.run hrun
  refine ⟨hinv.sent_nodup, fun c m _ => ?_, fun c m hsent hpending => ?_, fun c m hexec => ?_⟩
  · rw [hinv.count]
    split_ifs <;> omega
  · rw [hinv.count, if_pos ⟨hsent, fun hw => Bool.false_ne_true (hpending.symm.trans hw.1)⟩]
  · by_contra hnot
    have hpos := List.count_pos_iff.mpr hexec
    rw [hinv.count, if_neg fun hw => hnot hw.1] at hpos
    exact Nat.lt_irrefl 0 hpos

omit [DecidableEq F] in
/-- Only the store of a function has to find the slot free. -/
lemma slotFree_of_ne {e : SmpEvent F} (h : ∀ s x, e = .sender s → σ.thread s ≠ .storeFunc x) :
    σ.SlotFree e := fun s x he hs => absurd hs (h s x he)

/-- Three cores, with one thread on each. -/
def threeCores : Machine := ⟨3, id⟩

/-- One thread sends to core 1, and core 1 calls the function. -/
theorem mailbox_exactly_once_single : ∃ (es : List (SmpEvent ℕ)) (σ : Smp ℕ),
    FreeRun threeCores Smp.init es σ ∧ (1, ⟨7, 0⟩) ∈ σ.sent ∧
      (σ.sent.map fun p => p.2.call).Nodup ∧
      (∀ c m, (c, m) ∈ σ.sent → σ.executed.count (c, m) ≤ 1) ∧
      σ.executed.count (1, ⟨7, 0⟩) = 1 ∧ ∀ c m, (c, m) ∈ σ.executed → (c, m) ∈ σ.sent := by
  have hrun : ∃ σ : Smp ℕ, FreeRun threeCores Smp.init
      [.call 0 (.send 1 (some 7) 0), .sender 0, .sender 0, .sender 0, .sender 0, .receiver 1,
        .receiver 1, .receiver 1, .receiver 1, .receiver 1, .receiver 1] σ ∧
      (1, ⟨7, 0⟩) ∈ σ.sent ∧ (σ.core 1).mailbox.pending = false := by
    refine ⟨_, .cons (slotFree_of_ne ?_) rfl <| .cons (slotFree_of_ne ?_) rfl <| .cons ?_ rfl <|
      .cons (slotFree_of_ne ?_) rfl <| .cons (slotFree_of_ne ?_) rfl <|
      .cons (slotFree_of_ne ?_) rfl <| .cons (slotFree_of_ne ?_) rfl <|
      .cons (slotFree_of_ne ?_) rfl <| .cons (slotFree_of_ne ?_) rfl <|
      .cons (slotFree_of_ne ?_) rfl <| .cons (slotFree_of_ne ?_) rfl <| .nil _, ?_, ?_⟩
    case refine_3 =>
      rintro s x ⟨⟩ hs
      cases hs
      refine ⟨rfl, fun s' x' hx => ?_⟩
      match s' with
      | 0 => cases hx
      | s' + 1 => cases hx
    case refine_12 => exact List.mem_cons_self
    case refine_13 => rfl
    all_goals rintro s x ⟨⟩ hs
    all_goals cases hs
  obtain ⟨σ, hrun, hsent, hpending⟩ := hrun
  obtain ⟨hnodup, hmost, honce, honly⟩ := mailbox_exactly_once hrun
  exact ⟨_, σ, hrun, hsent, hnodup, hmost, honce 1 ⟨7, 0⟩ hsent hpending, honly⟩

/-- Two threads find the slot of core 1 free.  In the first run the second function replaces the
first, which is never called; in the second run the first thread releases the function of the
second, which is then called again when the second thread releases it. -/
theorem mailbox_lost_and_duplicated :
    (∃ σ : Smp ℕ, Smp.init.run threeCores
        [.call 0 (.send 1 (some 7) 0), .call 2 (.send 1 (some 8) 0), .sender 0, .sender 2,
          .sender 0, .sender 0, .sender 0, .sender 2, .sender 2, .sender 2,
          .receiver 1, .receiver 1, .receiver 1, .receiver 1, .receiver 1, .receiver 1] = some σ ∧
      (∀ s, σ.thread s = .idle) ∧ (σ.core 1).pc = .setIdle ∧ (σ.core 1).mailbox.pending = false ∧
      (1, ⟨7, 0⟩) ∈ σ.sent ∧ σ.executed.count (1, ⟨7, 0⟩) = 0) ∧
    ∃ σ : Smp ℕ, Smp.init.run threeCores
        [.call 0 (.send 1 (some 7) 0), .call 2 (.send 1 (some 8) 0), .sender 0, .sender 2,
          .sender 0, .sender 2, .sender 0, .sender 0,
          .receiver 1, .receiver 1, .receiver 1, .receiver 1, .receiver 1, .receiver 1,
          .sender 2, .sender 2,
          .receiver 1, .receiver 1, .receiver 1, .receiver 1, .receiver 1, .receiver 1] = some σ ∧
      (1, ⟨8, 1⟩) ∈ σ.sent ∧ σ.executed.count (1, ⟨8, 1⟩) = 2 := by
  refine ⟨⟨_, rfl, fun s => ?_, rfl, rfl, List.mem_cons_self, rfl⟩,
    _, rfl, List.mem_cons_of_mem _ List.mem_cons_self, rfl⟩
  match s with
  | 0 => rfl
  | 1 => rfl
  | 2 => rfl
  | s + 3 => rfl

end Smp

end Cuore
