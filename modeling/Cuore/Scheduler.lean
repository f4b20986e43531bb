import Cuore.Framework.Links
import Cuore.Framework.Word
import Mathlib.Data.List.Nodup
import Mathlib.Logic.Function.Basic

/-!
# The scheduler (`scheduler.c`)

The tasks of a CPU are a ring, linked both ways, and `current_task` (one for each CPU, behind its
`gs`) is where the ring is held.  A timer interrupt saves the frame of the current task, moves on to
the next one and takes the old one out of the ring if its `upid` is 0, which marks a task that has
exited and also the bootstrap task.  A new task goes in behind the current one, at the end of the
queue that the ring is.  Task numbers are handed out by one counter for all CPUs.

Interrupts are off while a CPU is in one of these functions, so a step of the system is one of them
on one CPU: `scheduler_init`, `scheduler_enroll_task` with a fresh task, a timer interrupt, or
`scheduler_exit_task` together with the interrupt that it raises.  `Ring` says that a list of tasks
is linked to a ring, and there is one lemma for each way in which a step changes it.
-/

namespace Cuore

variable {Cpu : Type*}

/-- A `task_t`. -/
structure Task where
  upid : ℕ
  rsp : ℕ
  cr3 : ℕ
  next : ℕ
  prev : ℕ
  stackBase : ℕ

/-- The state of the scheduler: the memory of the tasks, which of it is allocated, the counter, and
for each CPU its current task, its page table and the tasks that it has freed so far. -/
structure Sched (Cpu : Type*) where
  tasks : ℕ → Task
  allocated : List ℕ
  currentPid : ℕ
  currentTask : Cpu → ℕ
  pml4 : Cpu → ℕ
  freed : Cpu → List ℕ
  freedStacks : List ℕ

namespace Sched

/-! ## The functions -/

/-- Change a task in memory. -/
def modify (s : Sched Cpu) (a : ℕ) (f : Task → Task) : Sched Cpu :=
  { s with tasks := Function.update s.tasks a (f (s.tasks a)) }

/-- `task->next = v`. -/
def setNext (s : Sched Cpu) (a v : ℕ) : Sched Cpu := s.modify a fun t => { t with next := v }

/-- `task->prev = v`. -/
def setPrev (s : Sched Cpu) (a v : ℕ) : Sched Cpu := s.modify a fun t => { t with prev := v }

/-- `current_task->rsp = (uint64_t)tf`. -/
def saveFrame (s : Sched Cpu) (c : Cpu) (tf : ℕ) : Sched Cpu :=
  s.modify (s.currentTask c) fun t => { t with rsp := tf }

variable [DecidableEq Cpu]

/-- `SET_CURRENT_TASK(a)`. -/
def setCurrent (s : Sched Cpu) (c : Cpu) (a : ℕ) : Sched Cpu :=
  { s with currentTask := Function.update s.currentTask c a }

/-- `free(task)`.  The heap may write anything into the task's memory. -/
def freeTask (garbage : (ℕ → Task) → ℕ → Task) (s : Sched Cpu) (c : Cpu) (a : ℕ) : Sched Cpu :=
  { s with
    tasks := Function.update s.tasks a (garbage s.tasks a)
    allocated := s.allocated.erase a
    freed := Function.update s.freed c (s.freed c ++ [a]) }

/-- The branch of `scheduler_timer_handler` that takes the old task out of the ring. -/
def reap (garbage : (ℕ → Task) → ℕ → Task) (s : Sched Cpu) (c : Cpu) (old : ℕ) : Sched Cpu :=
  let s := s.setNext (s.tasks old).prev (s.tasks old).next
  let s := s.setPrev (s.tasks old).next (s.tasks old).prev
  let freedStacks := if (s.tasks old).stackBase ≠ 0 then s.freedStacks ++ [(s.tasks old).stackBase]
    else s.freedStacks
  freeTask garbage { s with freedStacks := freedStacks } c old

/-- The end of `scheduler_timer_handler`: the page table of the next task, unless it is already
there, and its frame. -/
def switchTo (s : Sched Cpu) (c : Cpu) (next : ℕ) : ℕ × Sched Cpu :=
  let pml4 := if (s.tasks next).cr3 ≠ s.pml4 c ∧ (s.tasks next).cr3 ≠ 0 then
    Function.update s.pml4 c (s.tasks next).cr3 else s.pml4
  ((s.tasks next).rsp, setCurrent { s with pml4 := pml4 } c next)

/-- `scheduler_timer_handler`: the frame that it returns, and the state afterwards. -/
def timerHandler (garbage : (ℕ → Task) → ℕ → Task) (s : Sched Cpu) (c : Cpu) (tf : ℕ) :
    ℕ × Sched Cpu :=
  let s := s.saveFrame c tf
  let old := s.currentTask c
  let next := (s.tasks old).next
  if (s.tasks old).upid = 0 ∧ old ≠ next ∧ (s.tasks old).next ≠ 0 ∧ (s.tasks old).prev ≠ 0 then
    (s.reap garbage c old).switchTo c next
  else s.switchTo c next

/-- The loop of `get_task_by_upid`, from `curr` on. -/
def findTask (s : Sched Cpu) (start targetUpid : ℕ) : ℕ → ℕ → Option (Option ℕ)
  | 0, _ => none
  | fuel + 1, curr =>
    if (s.tasks curr).upid = targetUpid then some (some curr)
    else if (s.tasks curr).next = start then some none
    else findTask s start targetUpid fuel (s.tasks curr).next

/-- `get_task_by_upid`; the outer `none` is a search that has not ended. -/
def getTaskByUpid (s : Sched Cpu) (c : Cpu) (targetUpid fuel : ℕ) : Option (Option ℕ) :=
  if s.currentTask c = 0 then some none
  else s.findTask (s.currentTask c) targetUpid fuel (s.currentTask c)

/-- `scheduler_enroll_task` of the task at `a`. -/
def enrollTask (s : Sched Cpu) (c : Cpu) (a : ℕ) : Sched Cpu :=
  let s := s.modify a fun t => { t with upid := s.currentPid }
  let s := { s with currentPid := wadd s.currentPid 1 }
  if s.currentTask c = 0 then
    let s := s.setCurrent c a
    let s := s.setNext a a
    s.setPrev a a
  else
    let last := (s.tasks (s.currentTask c)).prev
    let s := s.setNext last a
    let s := s.setPrev a last
    let s := s.setNext a (s.currentTask c)
    s.setPrev (s.currentTask c) a

/-- `scheduler_exit_task` with the interrupt that it raises; `none` is the panic of the last
task. -/
def exitTask (garbage : (ℕ → Task) → ℕ → Task) (s : Sched Cpu) (c : Cpu) (tf : ℕ) :
    Option (ℕ × Sched Cpu) :=
  if (s.tasks (s.currentTask c)).next = s.currentTask c then none
  else some ((s.modify (s.currentTask c) fun t => { t with upid := 0 }).timerHandler garbage c tf)

/-- `zalloc(sizeof(task_t))` and what the caller puts there. -/
def allocTask (s : Sched Cpu) (a : ℕ) (t : Task) : Sched Cpu :=
  { s with tasks := Function.update s.tasks a t, allocated := a :: s.allocated }

/-- `scheduler_init`, with `a` for the bootstrap task. -/
def schedulerInit (s : Sched Cpu) (c : Cpu) (a : ℕ) : Sched Cpu :=
  let s := s.allocTask a ⟨0, 0, s.pml4 c, 0, 0, 0⟩
  let s := s.setCurrent c a
  let s := s.setNext a a
  s.setPrev a a

end Sched

/-! ## Steps -/

/-- What can happen on a CPU. -/
inductive SchedEvent (Cpu : Type*)
  | init (c : Cpu) (a : ℕ)
  | enroll (c : Cpu) (a : ℕ) (t : Task)
  | tick (c : Cpu) (tf : ℕ)
  | exit (c : Cpu) (tf : ℕ)

/-- A step.  A CPU runs `scheduler_init` once and before all else, and a new task is one that
`zalloc` returns; the other events do not happen, and neither does the exit of a task that is
alone. -/
def schedStep [DecidableEq Cpu] (garbage : (ℕ → Task) → ℕ → Task) (s : Sched Cpu) :
    SchedEvent Cpu → Option (Sched Cpu)
  | .init c a =>
    if s.currentTask c = 0 ∧ a ≠ 0 ∧ a ∉ s.allocated then some (s.schedulerInit c a) else none
  | .enroll c a t =>
    if s.currentTask c ≠ 0 ∧ a ≠ 0 ∧ a ∉ s.allocated then some ((s.allocTask a t).enrollTask c a)
    else none
  | .tick c tf => if s.currentTask c ≠ 0 then some (s.timerHandler garbage c tf).2 else none
  | .exit c tf => if s.currentTask c ≠ 0 then (s.exitTask garbage c tf).map Prod.snd else none

/-! ## Rings -/

/-- The task at `a` stands between `p` and `q`. -/
def TaskNode (tasks : ℕ → Task) (p a q : ℕ) : Prop := (tasks a).prev = p ∧ (tasks a).next = q

/-- The tasks `l` are linked to a ring. -/
def Ring (tasks : ℕ → Task) (l : List ℕ) : Prop :=
  Linked id (TaskNode tasks) (lastAddr id 0 l) l (firstAddr id l 0)

section Ring

variable {tasks tasks' : ℕ → Task} {x a : ℕ} {l : List ℕ}

/-- A task that is linked to itself is a ring. -/
lemma ring_singleton (hnext : (tasks x).next = x) (hprev : (tasks x).prev = x) : Ring tasks [x] :=
  ⟨⟨hprev, hnext⟩, trivial⟩

/-- A ring depends on the links of its own tasks. -/
lemma Ring.congr (h : Ring tasks l)
    (hsame : ∀ y ∈ l, (tasks' y).next = (tasks y).next ∧ (tasks' y).prev = (tasks y).prev) :
    Ring tasks' l :=
  h.mono fun y hy _ _ hnode => ⟨(hsame y hy).2.trans hnode.1, (hsame y hy).1.trans hnode.2⟩

lemma Ring.next_head (h : Ring tasks (x :: l)) : (tasks x).next = firstAddr id l x := h.1.2

lemma Ring.prev_head (h : Ring tasks (x :: l)) : (tasks x).prev = lastAddr id x l := h.1.1

lemma firstAddr_mem_cons (x : ℕ) (l : List ℕ) : firstAddr id l x ∈ x :: l := by
  cases l with
  | nil => exact List.mem_cons_self
  | cons y l => exact List.mem_cons_of_mem _ List.mem_cons_self

lemma lastAddr_mem_cons (x : ℕ) (l : List ℕ) : lastAddr id x l ∈ x :: l := by
  induction l generalizing x with
  | nil => exact List.mem_cons_self
  | cons y l ih => exact List.mem_cons_of_mem _ (ih y)

/-- A ring can be held at the next task. -/
lemma Ring.rotate (h : Ring tasks (x :: l)) : Ring tasks (l ++ [x]) := by
  cases l with
  | nil => exact h
  | cons y l =>
    rw [Ring, lastAddr_append_singleton, linked_append]
    exact ⟨h.2, h.1, trivial⟩

/-- A task is alone exactly if it is its own successor. -/
lemma Ring.next_head_eq_iff (h : Ring tasks (x :: l)) (hx : x ∉ l) :
    (tasks x).next = x ↔ l = [] := by
  rw [h.next_head]
  cases l with
  | nil => exact ⟨fun _ => rfl, fun _ => rfl⟩
  | cons y l =>
    refine ⟨fun hyx => absurd ?_ hx, fun hnil => nomatch hnil⟩
    exact hyx ▸ List.mem_cons_self

/-- Two pointers change when the head of a ring is taken out: that of the last task to the head, and
back. -/
lemma Ring.unlink (h : Ring tasks (x :: l)) (hne : l ≠ []) (hnodup : (x :: l).Nodup)
    (hlast : ∀ z ∈ l, (tasks' z).next =
      if z = lastAddr id x l then firstAddr id l x else (tasks z).next)
    (hfirst : ∀ y ∈ l, (tasks' y).prev = if y = firstAddr id l x then lastAddr id x l
      else (tasks y).prev) : Ring tasks' l := by
  obtain ⟨y, l', rfl⟩ := List.exists_cons_of_ne_nil hne
  obtain ⟨l₁, z, hz⟩ := (List.eq_nil_or_concat' (y :: l')).resolve_left hne
  have hlastz : lastAddr id x (y :: l') = z := by rw [hz, lastAddr_append_singleton]; rfl
  have hlink : Linked id (TaskNode tasks) x (y :: l') x := h.2
  have hnodup' : (y :: l').Nodup := (List.nodup_cons.mp hnodup).2
  -- the pointer of the last task, in a memory that has only this changed
  have hlink₁ : Linked id (TaskNode (Function.update tasks z { tasks z with next := y })) x
      (y :: l') y := by
    rw [hz] at hlink hnodup' ⊢
    refine hlink.relinkLast (fun p hp => ?_) (fun b hb p q hbq => ?_)
    · rw [TaskNode, Function.update_self]
      exact ⟨hp.1, rfl⟩
    · have hbz : b ≠ z := fun h => (List.nodup_append.mp hnodup').2.2 b hb z (by simp) h
      rw [TaskNode, Function.update_of_ne hbz]
      exact hbq
  have hlink₂ : Linked id (TaskNode tasks') z (y :: l') y := by
    refine hlink₁.relinkFirst (fun q hq => ?_) (fun b hb p q hbq => ?_)
    · refine ⟨?_, ?_⟩
      · rw [hfirst y List.mem_cons_self, firstAddr, id_eq, if_pos rfl, hlastz]
      · rw [← hq.2, hlast y List.mem_cons_self, hlastz, firstAddr]
        by_cases hyz : y = z
        · rw [if_pos hyz, ← hyz, Function.update_self]
          rfl
        · rw [if_neg hyz, Function.update_of_ne hyz]
    · have hby : b ≠ y := fun h => (List.nodup_cons.mp hnodup').1 (h ▸ hb)
      have hmem : b ∈ y :: l' := List.mem_cons_of_mem _ hb
      refine ⟨?_, ?_⟩
      · rw [hfirst b hmem, firstAddr, if_neg (by simpa using hby), ← hbq.1]
        by_cases hbz : b = z
        · rw [hbz, Function.update_self]
        · rw [Function.update_of_ne hbz]
      · rw [hlast b hmem, hlastz, firstAddr, ← hbq.2]
        by_cases hbz : b = z
        · rw [if_pos hbz, hbz, Function.update_self]
          rfl
        · rw [if_neg hbz, Function.update_of_ne hbz]
  have hring : lastAddr id 0 (y :: l') = z := hlastz
  rw [Ring, hring]
  exact hlink₂

/-- Three pointers and the new task's own change when a task goes in behind the head of a ring. -/
lemma Ring.insert (h : Ring tasks (x :: l)) (hnodup : (x :: l).Nodup)
    (hnext : ∀ z ∈ x :: l, (tasks' z).next = if z = lastAddr id x l then a else (tasks z).next)
    (hprev : ∀ y ∈ x :: l, (tasks' y).prev = if y = x then a else (tasks y).prev)
    (hnew : (tasks' a).next = x ∧ (tasks' a).prev = lastAddr id x l) :
      Ring tasks' (x :: l ++ [a]) := by
  obtain ⟨l₁, z, hz⟩ := (List.eq_nil_or_concat' (x :: l)).resolve_left (List.cons_ne_nil x l)
  have hlastz : lastAddr id x l = z := by
    have : lastAddr id 0 (x :: l) = z := by rw [hz, lastAddr_append_singleton]; rfl
    exact this
  have hlink : Linked id (TaskNode tasks) z (x :: l) x := by
    rw [← hlastz]
    exact h
  -- the pointer of the last task, in a memory that has only this changed
  have hlink₁ : Linked id (TaskNode (Function.update tasks z { tasks z with next := a })) z
      (x :: l) a := by
    rw [hz] at hlink hnodup ⊢
    refine hlink.relinkLast (fun p hp => ?_) (fun b hb p q hbq => ?_)
    · rw [TaskNode, Function.update_self]
      exact ⟨hp.1, rfl⟩
    · have hbz : b ≠ z := fun h => (List.nodup_append.mp hnodup).2.2 b hb z (by simp) h
      rw [TaskNode, Function.update_of_ne hbz]
      exact hbq
  -- and then all the others
  have hsame : ∀ b ∈ x :: l, ∀ p q,
    TaskNode (Function.update tasks z { tasks z with next := a }) p b q →
      (tasks' b).next = q ∧ (b ≠ x → (tasks' b).prev = p) := by
    intro b hb p q hbq
    rw [← hbq.2, ← hbq.1, hnext b hb, hprev b hb, hlastz]
    by_cases hbz : b = z
    · rw [hbz, if_pos rfl, Function.update_self]
      exact ⟨rfl, fun hbx => by rw [if_neg hbx]⟩
    · rw [if_neg hbz, Function.update_of_ne hbz]
      exact ⟨rfl, fun hbx => by rw [if_neg hbx]⟩
  have hlink₂ : Linked id (TaskNode tasks') a (x :: l) a := by
    refine hlink₁.relinkFirst (fun q hq => ?_) (fun b hb p q hbq => ?_)
    · refine ⟨?_, (hsame x List.mem_cons_self _ _ hq).1⟩
      rw [hprev x List.mem_cons_self, if_pos rfl]
    · have hbx : b ≠ x := fun h => (List.nodup_cons.mp hnodup).1 (h ▸ hb)
      obtain ⟨hn, hp⟩ := hsame b (List.mem_cons_of_mem _ hb) p q hbq
      exact ⟨hp hbx, hn⟩
  rw [Ring, lastAddr_append_singleton, linked_append]
  refine ⟨hlink₂, ⟨?_, hnew.1⟩, trivial⟩
  rw [hnew.2, hlastz, ← hlastz]
  rfl

end Ring

/-! ## What the functions do -/

namespace Sched

section Fields

variable (s : Sched Cpu) (a v w : ℕ)

lemma tasks_modify (f : Task → Task) :
    (s.modify a f).tasks w = if w = a then f (s.tasks a) else s.tasks w :=
  Function.update_apply _ _ _ _

/-- A field that is left alone. -/
lemma field_modify {f : Task → Task} (g : Task → ℕ) (hf : ∀ t, g (f t) = g t) :
    g ((s.modify a f).tasks w) = g (s.tasks w) := by
  rw [tasks_modify]
  split_ifs with hw
  · rw [hf, hw]
  · rfl

@[simp] lemma next_setNext :
    ((s.setNext a v).tasks w).next = if w = a then v else (s.tasks w).next := by
  rw [setNext, tasks_modify]
  split_ifs <;> rfl

@[simp] lemma prev_setNext : ((s.setNext a v).tasks w).prev = (s.tasks w).prev :=
  field_modify s a w Task.prev fun _ => rfl

@[simp] lemma upid_setNext : ((s.setNext a v).tasks w).upid = (s.tasks w).upid :=
  field_modify s a w Task.upid fun _ => rfl

@[simp] lemma rsp_setNext : ((s.setNext a v).tasks w).rsp = (s.tasks w).rsp :=
  field_modify s a w Task.rsp fun _ => rfl

@[simp] lemma prev_setPrev :
    ((s.setPrev a v).tasks w).prev = if w = a then v else (s.tasks w).prev := by
  rw [setPrev, tasks_modify]
  split_ifs <;> rfl

@[simp] lemma next_setPrev : ((s.setPrev a v).tasks w).next = (s.tasks w).next :=
  field_modify s a w Task.next fun _ => rfl

@[simp] lemma upid_setPrev : ((s.setPrev a v).tasks w).upid = (s.tasks w).upid :=
  field_modify s a w Task.upid fun _ => rfl

@[simp] lemma rsp_setPrev : ((s.setPrev a v).tasks w).rsp = (s.tasks w).rsp :=
  field_modify s a w Task.rsp fun _ => rfl

end Fields

/-- The links of all tasks but those in `l` are the same, and `upid` and `rsp` of all tasks but
`x`. -/
structure SameTasks (s s' : Sched Cpu) (l : List ℕ) (x : ℕ) : Prop where
  links : ∀ w ∉ l, (s'.tasks w).next = (s.tasks w).next ∧ (s'.tasks w).prev = (s.tasks w).prev
  fields : ∀ w ≠ x, (s'.tasks w).upid = (s.tasks w).upid ∧ (s'.tasks w).rsp = (s.tasks w).rsp

lemma upid_saveFrame (s : Sched Cpu) (c : Cpu) (tf w : ℕ) :
    ((s.saveFrame c tf).tasks w).upid = (s.tasks w).upid :=
  field_modify s _ w Task.upid fun _ => rfl

lemma saveFrame_sameTasks (s : Sched Cpu) (c : Cpu) (tf : ℕ) :
    SameTasks s (s.saveFrame c tf) [] (s.currentTask c) where
  links w _ := ⟨field_modify s _ w Task.next fun _ => rfl,
    field_modify s _ w Task.prev fun _ => rfl⟩
  fields w hw := by
    rw [saveFrame, tasks_modify, if_neg hw]
    exact ⟨rfl, rfl⟩

/-- The new task with its number. -/
def numberTask (s : Sched Cpu) (a : ℕ) (t : Task) : Sched Cpu :=
  { (s.allocTask a t).modify a (fun t => { t with upid := s.currentPid }) with
    currentPid := wadd s.currentPid 1 }

lemma tasks_numberTask (s : Sched Cpu) (a : ℕ) (t : Task) (w : ℕ) :
    (s.numberTask a t).tasks w = if w = a then { t with upid := s.currentPid } else s.tasks w := by
  have hmodify : (s.numberTask a t).tasks w = _ :=
    tasks_modify (s.allocTask a t) a w fun t => { t with upid := s.currentPid }
  rw [hmodify]
  split_ifs with hw
  · simp [allocTask]
  · exact Function.update_of_ne hw _ _

variable [DecidableEq Cpu] {garbage : (ℕ → Task) → ℕ → Task} {s : Sched Cpu} {c : Cpu} {x : ℕ}

/-- What is left of the others when a task is taken out. -/
lemma tasks_reap (garbage : (ℕ → Task) → ℕ → Task) (c : Cpu) (hprev : (s.tasks x).prev ≠ x) {w : ℕ}
    (hw : w ≠ x) :
    ((s.reap garbage c x).tasks w).next =
      (if w = (s.tasks x).prev then (s.tasks x).next else (s.tasks w).next) ∧
    ((s.reap garbage c x).tasks w).prev =
      (if w = (s.tasks x).next then (s.tasks x).prev else (s.tasks w).prev) ∧
    ((s.reap garbage c x).tasks w).upid = (s.tasks w).upid ∧
    ((s.reap garbage c x).tasks w).rsp = (s.tasks w).rsp := by
  have hfree : ∀ s' : Sched Cpu, (s'.freeTask garbage c x).tasks w = s'.tasks w := fun s' =>
    Function.update_of_ne hw _ _
  rw [reap, hfree]
  simp [hprev.symm]

section Handler

variable {l : List ℕ} {tf : ℕ}

/-- Which way a timer interrupt goes, on a ring. -/
lemma timerHandler_eq (hcur : s.currentTask c = x) (hring : Ring s.tasks (x :: l))
    (hnodup : (x :: l).Nodup) (h0 : ∀ y ∈ x :: l, y ≠ 0) : s.timerHandler garbage c tf =
      if (s.tasks x).upid = 0 ∧ l ≠ [] then
        ((s.saveFrame c tf).reap garbage c x).switchTo c (firstAddr id l x)
      else (s.saveFrame c tf).switchTo c (firstAddr id l x) := by
  have hlinks := (saveFrame_sameTasks s c tf).links x List.not_mem_nil
  have hupid := upid_saveFrame s c tf x
  have hnext : ((s.saveFrame c tf).tasks x).next = firstAddr id l x :=
    hlinks.1.trans hring.next_head
  have hprev : ((s.saveFrame c tf).tasks x).prev = lastAddr id x l := hlinks.2.trans hring.prev_head
  -- the tests for null pointers never fail
  have hcond : (((s.saveFrame c tf).tasks x).upid = 0 ∧ x ≠ ((s.saveFrame c tf).tasks x).next ∧
      ((s.saveFrame c tf).tasks x).next ≠ 0 ∧ ((s.saveFrame c tf).tasks x).prev ≠ 0) ↔
      (s.tasks x).upid = 0 ∧ l ≠ [] := by
    obtain ⟨hx, -⟩ := List.nodup_cons.mp hnodup
    rw [hupid, hnext, hprev, ← hring.next_head, ← hring.prev_head, ne_comm]
    have halone := hring.next_head_eq_iff hx
    have hne : ∀ y, y ∈ x :: l → y ≠ 0 := h0
    constructor
    · rintro ⟨hu, hn, -⟩
      exact ⟨hu, fun hl => hn (halone.mpr hl)⟩
    · rintro ⟨hu, hl⟩
      refine ⟨hu, fun hn => hl (halone.mp hn), h0 _ ?_, h0 _ ?_⟩
      · rw [hring.next_head]
        exact firstAddr_mem_cons x l
      · rw [hring.prev_head]
        exact lastAddr_mem_cons x l
  have hcur' : (s.saveFrame c tf).currentTask c = x := hcur
  rw [hnext] at hcond
  rw [timerHandler]
  simp only [hcur', hnext, hcond]

/-- **A timer interrupt that keeps the old task.**  The ring is held at the next one. -/
lemma timerHandler_keep (garbage : (ℕ → Task) → ℕ → Task) (tf : ℕ) (hcur : s.currentTask c = x)
    (hring : Ring s.tasks (x :: l)) (hnodup : (x :: l).Nodup) (h0 : ∀ y ∈ x :: l, y ≠ 0)
    (hkeep : ¬ ((s.tasks x).upid = 0 ∧ l ≠ [])) :
    ∃ s', s.timerHandler garbage c tf = ((s'.tasks (firstAddr id l x)).rsp, s') ∧
      Ring s'.tasks (l ++ [x]) ∧ SameTasks s s' [] x ∧ (s'.tasks x).upid = (s.tasks x).upid ∧
      (s'.tasks x).rsp = tf ∧
      s'.currentTask = Function.update s.currentTask c (firstAddr id l x) ∧
      s'.currentPid = s.currentPid ∧ s'.freed = s.freed ∧ s'.allocated = s.allocated := by
  have hsame : SameTasks s (s.saveFrame c tf) [] x := hcur ▸ saveFrame_sameTasks s c tf
  rw [timerHandler_eq hcur hring hnodup h0, if_neg hkeep]
  refine ⟨((s.saveFrame c tf).switchTo c (firstAddr id l x)).2, rfl, ?_,
    ⟨hsame.links, hsame.fields⟩,
    ?_, ?_, rfl, rfl, rfl, rfl⟩
  · exact hring.rotate.congr fun y _ => hsame.links y List.not_mem_nil
  · exact upid_saveFrame s c tf x
  · show ((s.saveFrame c tf).tasks x).rsp = tf
    rw [saveFrame, tasks_modify, if_pos hcur.symm]

/-- **A timer interrupt that takes the old task out.** -/
lemma timerHandler_reap (garbage : (ℕ → Task) → ℕ → Task) (tf : ℕ) (hcur : s.currentTask c = x)
    (hring : Ring s.tasks (x :: l)) (hnodup : (x :: l).Nodup) (h0 : ∀ y ∈ x :: l, y ≠ 0)
    (hupid : (s.tasks x).upid = 0) (hl : l ≠ []) :
    ∃ s', s.timerHandler garbage c tf = ((s'.tasks (firstAddr id l x)).rsp, s') ∧
      Ring s'.tasks l ∧ SameTasks s s' (x :: l) x ∧
      s'.currentTask = Function.update s.currentTask c (firstAddr id l x) ∧
      s'.currentPid = s.currentPid ∧ s'.freed = Function.update s.freed c (s.freed c ++ [x]) ∧
      s'.allocated = s.allocated.erase x := by
  have hsame : SameTasks s (s.saveFrame c tf) [] x := hcur ▸ saveFrame_sameTasks s c tf
  obtain ⟨hx, -⟩ := List.nodup_cons.mp hnodup
  have hring₁ : Ring (s.saveFrame c tf).tasks (x :: l) :=
    hring.congr fun y _ => hsame.links y List.not_mem_nil
  have hprev : ((s.saveFrame c tf).tasks x).prev ≠ x := by
    rw [hring₁.prev_head]
    obtain ⟨y, l', rfl⟩ := List.exists_cons_of_ne_nil hl
    exact fun h => hx (h ▸ lastAddr_mem_cons y l')
  have hreap := fun w (hw : w ≠ x) => tasks_reap garbage c hprev hw
  rw [timerHandler_eq hcur hring hnodup h0, if_pos ⟨hupid, hl⟩]
  refine ⟨(((s.saveFrame c tf).reap garbage c x).switchTo c (firstAddr id l x)).2, rfl, ?_,
    ⟨fun w hw => ?_, fun w hw => ?_⟩, rfl, rfl, rfl, rfl⟩
  · refine hring₁.unlink hl hnodup (fun z hz => ?_) (fun y hy => ?_)
    · have hzx : z ≠ x := fun h => hx (h ▸ hz)
      rw [← hring₁.next_head, ← hring₁.prev_head]
      exact (hreap z hzx).1
    · have hyx : y ≠ x := fun h => hx (h ▸ hy)
      rw [← hring₁.next_head, ← hring₁.prev_head]
      exact (hreap y hyx).2.1
  · have hwx : w ≠ x := fun h => hw (h ▸ List.mem_cons_self)
    obtain ⟨hn, hp, -, -⟩ := hreap w hwx
    have hlinks := hsame.links w List.not_mem_nil
    have hwn : w ≠ ((s.saveFrame c tf).tasks x).next := fun h => hw (by
      rw [h, hring₁.next_head]
      exact firstAddr_mem_cons x l)
    have hwp : w ≠ ((s.saveFrame c tf).tasks x).prev := fun h => hw (by
      rw [h, hring₁.prev_head]
      exact lastAddr_mem_cons x l)
    rw [if_neg hwp] at hn
    rw [if_neg hwn] at hp
    exact ⟨hn.trans hlinks.1, hp.trans hlinks.2⟩
  · obtain ⟨-, -, hu, hr⟩ := hreap w hw
    have hfields := hsame.fields w hw
    exact ⟨hu.trans hfields.1, hr.trans hfields.2⟩

/-- **A new task** goes in behind the current one. -/
lemma enrollTask_spec {a : ℕ} {t : Task} (hcur : s.currentTask c = x)
    (hring : Ring s.tasks (x :: l))
    (hnodup : (x :: l).Nodup) (hx0 : x ≠ 0) (ha : a ∉ x :: l) :
    ∃ s', (s.allocTask a t).enrollTask c a = s' ∧ Ring s'.tasks (x :: l ++ [a]) ∧
      SameTasks s s' (a :: x :: l) a ∧ (s'.tasks a).upid = s.currentPid ∧ (s'.tasks a).rsp = t.rsp ∧
      s'.currentTask = s.currentTask ∧ s'.currentPid = wadd s.currentPid 1 ∧ s'.freed = s.freed ∧
      s'.allocated = a :: s.allocated := by
  have hxa : x ≠ a := fun h => ha (h ▸ List.mem_cons_self)
  have hother : ∀ w ≠ a, (s.numberTask a t).tasks w = s.tasks w := fun w hw => by
    rw [tasks_numberTask, if_neg hw]
  have hlast : ((s.numberTask a t).tasks x).prev = lastAddr id x l := by
    rw [hother x hxa, hring.prev_head]
  have hlasta : lastAddr id x l ≠ a := fun h => ha (h ▸ lastAddr_mem_cons x l)
  have heq : (s.allocTask a t).enrollTask c a =
      ((((s.numberTask a t).setNext (lastAddr id x l) a).setPrev a (lastAddr id x l)).setNext a
        x).setPrev x a := by
    rw [← hlast, ← hcur, enrollTask]
    exact if_neg (by rw [← hcur] at hx0; exact hx0)
  refine ⟨_, heq, ?_, ⟨fun w hw => ?_, fun w hw => ?_⟩, ?_, ?_, rfl, rfl, rfl, rfl⟩
  · refine hring.insert hnodup (fun z hz => ?_) (fun y hy => ?_) ?_
    · have hza : z ≠ a := fun h => ha (h ▸ hz)
      simp [hza, hother z hza]
    · have hya : y ≠ a := fun h => ha (h ▸ hy)
      simp [hya, hother y hya]
    · simp [hxa.symm]
  · have hwa : w ≠ a := fun h => hw (h ▸ List.mem_cons_self)
    have hwx : w ≠ x := fun h => hw (h ▸ List.mem_cons_of_mem _ List.mem_cons_self)
    have hwl : w ≠ lastAddr id x l := fun h =>
      hw (h ▸ List.mem_cons_of_mem _ (lastAddr_mem_cons x l))
    simp [hwa, hwx, hwl, hother w hwa]
  · simp [hother w hw]
  · simp [tasks_numberTask]
  · simp [tasks_numberTask]

/-- **The exit of a task** that is not alone takes it out. -/
lemma exitTask_spec (garbage : (ℕ → Task) → ℕ → Task) (tf : ℕ) (hcur : s.currentTask c = x)
    (hring : Ring s.tasks (x :: l)) (hnodup : (x :: l).Nodup) (h0 : ∀ y ∈ x :: l, y ≠ 0)
    (hl : l ≠ []) :
    ∃ s', s.exitTask garbage c tf = some ((s'.tasks (firstAddr id l x)).rsp, s') ∧
      Ring s'.tasks l ∧ SameTasks s s' (x :: l) x ∧
      s'.currentTask = Function.update s.currentTask c (firstAddr id l x) ∧
      s'.currentPid = s.currentPid ∧ s'.freed = Function.update s.freed c (s.freed c ++ [x]) ∧
      s'.allocated = s.allocated.erase x := by
  obtain ⟨hx, -⟩ := List.nodup_cons.mp hnodup
  have hnext : (s.tasks x).next ≠ x := fun h => hl ((hring.next_head_eq_iff hx).mp h)
  set s₁ := s.modify x fun t => { t with upid := 0 } with hs₁
  have hlinks : ∀ w, (s₁.tasks w).next = (s.tasks w).next ∧ (s₁.tasks w).prev = (s.tasks w).prev :=
    fun w => by
      rw [hs₁, tasks_modify]
      split_ifs with hw
      · rw [hw]
        exact ⟨rfl, rfl⟩
      · exact ⟨rfl, rfl⟩
  have hother : ∀ w ≠ x, s₁.tasks w = s.tasks w := fun w hw => by rw [hs₁, tasks_modify, if_neg hw]
  have hupid : (s₁.tasks x).upid = 0 := by rw [hs₁, tasks_modify, if_pos rfl]
  obtain ⟨s', hs', hring', hsame, hcur', hpid, hfreed, halloc⟩ :=
    timerHandler_reap (s := s₁) garbage tf
    hcur (hring.congr fun y _ => hlinks y) hnodup h0 hupid hl
  refine ⟨s', ?_, hring', ⟨fun w hw => ?_, fun w hw => ?_⟩, hcur', hpid, hfreed, halloc⟩
  · rw [exitTask, hcur, if_neg hnext, ← hs₁, hs']
  · obtain ⟨hn, hp⟩ := hsame.links w hw
    exact ⟨hn.trans (hlinks w).1, hp.trans (hlinks w).2⟩
  · rw [← hother w hw]
    exact hsame.fields w hw

/-- The last task cannot exit. -/
lemma exitTask_alone (hcur : s.currentTask c = x) (hring : Ring s.tasks [x]) :
    s.exitTask garbage c tf = none := by
  have hnext : (s.tasks x).next = x := hring.next_head
  rw [exitTask, hcur, if_pos hnext]

/-- The ring of a CPU that has just started. -/
lemma schedulerInit_spec (s : Sched Cpu) (c : Cpu) (a : ℕ) :
    Ring (s.schedulerInit c a).tasks [a] ∧ (∀ w ≠ a, (s.schedulerInit c a).tasks w = s.tasks w) ∧
    ((s.schedulerInit c a).tasks a).upid = 0 ∧ ((s.schedulerInit c a).tasks a).rsp = 0 := by
  have hother : ∀ w ≠ a, (s.schedulerInit c a).tasks w = s.tasks w := fun w hw => by
    simp [schedulerInit, setPrev, setNext, modify, setCurrent, allocTask, hw]
  refine ⟨ring_singleton ?_ ?_, hother, ?_, ?_⟩
  all_goals simp [schedulerInit, setCurrent, allocTask]

end Handler

end Sched

end Cuore
