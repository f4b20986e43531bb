import Cuore.Scheduler

/-!
# Runs of the scheduler

What the rings of all CPUs look like after any sequence of steps.  The abstract picture is a queue
for each CPU, with the current task at its head: a timer interrupt moves the head to the end or
drops it, a new task is appended, an exit drops the head (`ringAfter`).  `SchedInv` says that the
memory is linked as these queues, which share no task, and `SchedInv.step` that every step keeps it
so.

Task numbers come from a 64-bit counter that starts at 1.  Everything about the rings holds in every
run; that the numbers are distinct and not zero holds as long as fewer than `2 ^ 64` tasks have been
enrolled, and a run with as many as that gives the number 0 (`upid_after_cycles`).
-/

namespace Cuore

variable {Cpu : Type*}

/-! ## The queues -/

/-- The queue after a timer interrupt. -/
def tickRing (s : Sched Cpu) : List ℕ → List ℕ
  | [] => []
  | x :: l => if (s.tasks x).upid = 0 ∧ l ≠ [] then l else l ++ [x]

/-- The queues after a step. -/
def ringAfter [DecidableEq Cpu] (s : Sched Cpu) (ring : Cpu → List ℕ) :
    SchedEvent Cpu → Cpu → List ℕ
  | .init c a => Function.update ring c [a]
  | .enroll c a _ => Function.update ring c (ring c ++ [a])
  | .tick c _ => Function.update ring c (tickRing s (ring c))
  | .exit c _ => Function.update ring c (ring c).tail

/-- The memory is linked as the queues say. -/
structure SchedInv (s : Sched Cpu) (ring : Cpu → List ℕ) : Prop where
  linked : ∀ c, Ring s.tasks (ring c)
  current : ∀ c, s.currentTask c = firstAddr id (ring c) 0
  nodup : ∀ c, (ring c).Nodup
  ne_zero : ∀ c, ∀ a ∈ ring c, a ≠ 0
  disjoint : ∀ c c', c ≠ c' → ∀ a ∈ ring c, a ∉ ring c'
  allocated : ∀ a, a ∈ s.allocated ↔ ∃ c, a ∈ ring c
  allocated_nodup : s.allocated.Nodup

namespace SchedInv

variable {garbage : (ℕ → Task) → ℕ → Task} {s s' : Sched Cpu} {ring : Cpu → List ℕ} {c : Cpu}
  {a x tf : ℕ} {t : Task} {l l' : List ℕ}

/-- The queue of a CPU that has a current task. -/
lemma exists_cons (h : SchedInv s ring) (hc : s.currentTask c ≠ 0) :
    ∃ l, ring c = s.currentTask c :: l := by
  have hcur := h.current c
  cases hring : ring c with
  | nil =>
    rw [hring] at hcur
    exact absurd hcur hc
  | cons x l =>
    rw [hring] at hcur
    exact ⟨l, by rw [hcur]; rfl⟩

variable [DecidableEq Cpu]

/-- One queue changes, and links and memory in use only as it does. -/
lemma update (h : SchedInv s ring) (hring : Ring s'.tasks l') (hnodup : l'.Nodup)
    (h0 : ∀ a ∈ l', a ≠ 0) (hnew : ∀ a ∈ l', a ∈ ring c ∨ a ∉ s.allocated)
    (hcur : s'.currentTask = Function.update s.currentTask c (firstAddr id l' 0))
    (hlinks : ∀ w ∉ ring c, w ∈ s.allocated →
      (s'.tasks w).next = (s.tasks w).next ∧ (s'.tasks w).prev = (s.tasks w).prev)
    (halloc : ∀ a, a ∈ s'.allocated ↔ (a ∈ s.allocated ∧ a ∉ ring c) ∨ a ∈ l')
    (hallocnodup : s'.allocated.Nodup) : SchedInv s' (Function.update ring c l') := by
  have hself : Function.update ring c l' c = l' := Function.update_self _ _ _
  have hother : ∀ d, d ≠ c → Function.update ring c l' d = ring d := fun d hd =>
    Function.update_of_ne hd _ _
  -- a task of another queue is in none of the lists
  have hfar : ∀ d, d ≠ c → ∀ a ∈ ring d, a ∉ l' := by
    intro d hd a ha hal
    rcases hnew a hal with hac | hfresh
    · exact h.disjoint d c hd a ha hac
    · exact hfresh ((h.allocated a).mpr ⟨d, ha⟩)
  refine ⟨fun d => ?_, fun d => ?_, fun d => ?_, fun d => ?_, fun d d' hdd a => ?_, fun a => ?_,
    hallocnodup⟩
  · by_cases hd : d = c
    · subst hd
      rwa [hself]
    · rw [hother d hd]
      exact (h.linked d).congr fun w hw =>
        hlinks w (h.disjoint d c hd w hw) ((h.allocated w).mpr ⟨d, hw⟩)
  · by_cases hd : d = c
    · subst hd
      rw [hself, hcur, Function.update_self]
    · rw [hother d hd, hcur, Function.update_of_ne hd, h.current d]
  · by_cases hd : d = c
    · subst hd
      rwa [hself]
    · rw [hother d hd]
      exact h.nodup d
  · by_cases hd : d = c
    · subst hd
      rwa [hself]
    · rw [hother d hd]
      exact h.ne_zero d
  · by_cases hd : d = c
    · subst hd
      rw [hself, hother d' hdd.symm]
      exact fun ha ha' => hfar d' hdd.symm a ha' ha
    · rw [hother d hd]
      by_cases hd' : d' = c
      · subst hd'
        rw [hself]
        exact hfar d hd a
      · rw [hother d' hd']
        exact h.disjoint d d' hdd a
  · rw [halloc]
    constructor
    · rintro (⟨ha, hac⟩ | ha)
      · obtain ⟨d, hd⟩ := (h.allocated a).mp ha
        have hdc : d ≠ c := fun hdc => hac (hdc ▸ hd)
        exact ⟨d, by rwa [hother d hdc]⟩
      · exact ⟨c, by rwa [hself]⟩
    · rintro ⟨d, hd⟩
      by_cases hdc : d = c
      · subst hdc
        rw [hself] at hd
        exact .inr hd
      · rw [hother d hdc] at hd
        exact .inl ⟨(h.allocated a).mpr ⟨d, hd⟩, h.disjoint d c hdc a hd⟩

/-- What a step does to the memory: the queue `l` of the CPU becomes `l'`, the task `a` is the one
that the step is about, and the tasks `freed` are freed. -/
structure Stepped (s s' : Sched Cpu) (c : Cpu) (l l' : List ℕ) (a : ℕ) (freed : List ℕ) : Prop where
  linked : Ring s'.tasks l'
  current : s'.currentTask = Function.update s.currentTask c (firstAddr id l' 0)
  freed : s'.freed = Function.update s.freed c (s.freed c ++ freed)
  same : Sched.SameTasks s s' (a :: l) a

/-- Links elsewhere are as they were. -/
lemma Stepped.links {freed : List ℕ} (h : Stepped s s' c l l' a freed) {w : ℕ} (hwa : w ≠ a)
    (hw : w ∉ l) :
    (s'.tasks w).next = (s.tasks w).next ∧ (s'.tasks w).prev = (s.tasks w).prev :=
  h.same.links w fun hmem => (List.mem_cons.mp hmem).elim hwa hw

/-- The current task leaves its ring. -/
lemma Stepped.reaped (hl : l ≠ []) (hlink : Ring s'.tasks l)
    (hsame : Sched.SameTasks s s' (x :: l) x)
    (hcur : s'.currentTask = Function.update s.currentTask c (firstAddr id l x))
    (hfreed : s'.freed = Function.update s.freed c (s.freed c ++ [x])) :
    Stepped s s' c (x :: l) l x [x] := by
  refine ⟨hlink, ?_, hfreed,
    ⟨fun w hw => hsame.links w fun hw' => hw (List.mem_cons_of_mem _ hw'), hsame.fields⟩⟩
  rw [hcur]
  obtain ⟨y, l', rfl⟩ := List.exists_cons_of_ne_nil hl
  rfl

lemma update_freed_nil (s : Sched Cpu) (c : Cpu) :
    s.freed = Function.update s.freed c (s.freed c ++ []) := by
  rw [List.append_nil, Function.update_eq_self]

/-- A CPU that has no current task gets its first one. -/
lemma step_init (h : SchedInv s ring) (hs : schedStep garbage s (.init c a) = some s') :
    ring c = [] ∧ a ≠ 0 ∧ a ∉ s.allocated ∧ Stepped s s' c [] [a] a [] ∧
      s'.allocated = a :: s.allocated ∧ s'.currentPid = s.currentPid ∧ (s'.tasks a).upid = 0 ∧
      (s'.tasks a).rsp = 0 := by
  simp only [schedStep] at hs
  split_ifs at hs with hpre
  cases hs
  obtain ⟨hcur, ha0, hfresh⟩ := hpre
  have hnil : ring c = [] := by
    cases hring : ring c with
    | nil => rfl
    | cons x l =>
      have hx := h.current c
      rw [hring, hcur] at hx
      exact absurd hx.symm (h.ne_zero c x (hring ▸ List.mem_cons_self))
  obtain ⟨hlink, hother, hupid, hrsp⟩ := s.schedulerInit_spec c a
  refine ⟨hnil, ha0, hfresh, ⟨hlink, rfl, update_freed_nil s c, ⟨fun w hw => ?_, fun w hw => ?_⟩⟩,
    rfl, rfl, hupid, hrsp⟩
  · rw [hother w (by simpa using hw)]
    exact ⟨rfl, rfl⟩
  · rw [hother w hw]
    exact ⟨rfl, rfl⟩

/-- A new task goes to the end of the queue. -/
lemma step_enroll (h : SchedInv s ring) (hs : schedStep garbage s (.enroll c a t) = some s') :
    ∃ x l, ring c = x :: l ∧ a ≠ 0 ∧ a ∉ s.allocated ∧
      Stepped s s' c (x :: l) (x :: l ++ [a]) a [] ∧ s'.allocated = a :: s.allocated ∧
      s'.currentPid = wadd s.currentPid 1 ∧ (s'.tasks a).upid = s.currentPid ∧
      (s'.tasks a).rsp = t.rsp := by
  simp only [schedStep] at hs
  split_ifs at hs with hpre
  obtain ⟨hcur, ha0, hfresh⟩ := hpre
  obtain ⟨l, hring⟩ := h.exists_cons hcur
  have ha : a ∉ s.currentTask c :: l := fun ha => hfresh ((h.allocated a).mpr ⟨c, hring ▸ ha⟩)
  obtain ⟨s₁, hs₁, hlink, hsame, hupid, hrsp, hcur₁, hpid, hfreed, halloc⟩ :=
    Sched.enrollTask_spec (t := t) rfl (hring ▸ h.linked c) (hring ▸ h.nodup c) hcur ha
  rw [hs₁] at hs
  cases hs
  refine ⟨_, l, hring, ha0, hfresh, ⟨hlink, ?_, ?_, hsame⟩, halloc, hpid, hupid, hrsp⟩
  · rw [hcur₁]
    exact (Function.update_eq_self c _).symm
  · rw [hfreed]
    exact update_freed_nil s c

/-- A timer interrupt sends the current task to the end of the queue, or frees it. -/
lemma step_tick (h : SchedInv s ring) (hs : schedStep garbage s (.tick c tf) = some s') :
    ∃ x l, ring c = x :: l ∧
      (¬ ((s.tasks x).upid = 0 ∧ l ≠ []) ∧
        Stepped s s' c (x :: l) (l ++ [x]) x [] ∧ s'.allocated = s.allocated ∧
        s'.currentPid = s.currentPid ∧ (s'.tasks x).upid = (s.tasks x).upid ∧
        (s'.tasks x).rsp = tf ∨
      (s.tasks x).upid = 0 ∧ l ≠ [] ∧ Stepped s s' c (x :: l) l x [x] ∧
        s'.allocated = s.allocated.erase x ∧ s'.currentPid = s.currentPid) := by
  simp only [schedStep] at hs
  split_ifs at hs with hcur
  cases hs
  obtain ⟨l, hring⟩ := h.exists_cons hcur
  have hlink := h.linked c
  have hnodup := h.nodup c
  have h0 := h.ne_zero c
  rw [hring] at hlink hnodup h0
  refine ⟨_, l, hring, ?_⟩
  by_cases hreap : (s.tasks (s.currentTask c)).upid = 0 ∧ l ≠ []
  · obtain ⟨s₁, hs₁, hlink₁, hsame, hcur₁, hpid, hfreed, halloc⟩ :=
      Sched.timerHandler_reap garbage tf rfl hlink hnodup h0 hreap.1 hreap.2
    rw [hs₁]
    exact .inr ⟨hreap.1, hreap.2, .reaped hreap.2 hlink₁ hsame hcur₁ hfreed, halloc, hpid⟩
  · obtain ⟨s₁, hs₁, hlink₁, hsame, hupid, hrsp, hcur₁, hpid, hfreed, halloc⟩ :=
      Sched.timerHandler_keep garbage tf rfl hlink hnodup h0 hreap
    rw [hs₁]
    refine .inl ⟨hreap, ⟨hlink₁, ?_, ?_,
      ⟨fun w _ => hsame.links w List.not_mem_nil, hsame.fields⟩⟩, halloc, hpid, hupid, hrsp⟩
    · rw [hcur₁, firstAddr_append]
      rfl
    · rw [hfreed]
      exact update_freed_nil s c

/-- An exit frees the current task; it is not the last one. -/
lemma step_exit (h : SchedInv s ring) (hs : schedStep garbage s (.exit c tf) = some s') :
    ∃ x l, ring c = x :: l ∧ l ≠ [] ∧ Stepped s s' c (x :: l) l x [x] ∧
      s'.allocated = s.allocated.erase x ∧ s'.currentPid = s.currentPid := by
  simp only [schedStep] at hs
  split_ifs at hs with hcur
  obtain ⟨l, hring⟩ := h.exists_cons hcur
  have hlink := h.linked c
  have hnodup := h.nodup c
  have h0 := h.ne_zero c
  rw [hring] at hlink hnodup h0
  by_cases hl : l = []
  · subst hl
    rw [Sched.exitTask_alone rfl hlink] at hs
    exact absurd hs (by simp)
  · obtain ⟨s₁, hs₁, hlink₁, hsame, hcur₁, hpid, hfreed, halloc⟩ :=
      Sched.exitTask_spec garbage tf rfl hlink hnodup h0 hl
    rw [hs₁, Option.map_some] at hs
    cases hs
    exact ⟨_, l, hring, hl, .reaped hl hlink₁ hsame hcur₁ hfreed, halloc, hpid⟩

/-- **What a step can do.** -/
lemma step_cases (h : SchedInv s ring) {e : SchedEvent Cpu} (hs : schedStep garbage s e = some s') :
    (∃ c a, e = .init c a ∧ ring c = [] ∧ a ≠ 0 ∧ a ∉ s.allocated ∧ Stepped s s' c [] [a] a [] ∧
      s'.allocated = a :: s.allocated ∧ s'.currentPid = s.currentPid ∧ (s'.tasks a).upid = 0 ∧
      (s'.tasks a).rsp = 0) ∨
    (∃ c a t x l, e = .enroll c a t ∧ ring c = x :: l ∧ a ≠ 0 ∧ a ∉ s.allocated ∧
      Stepped s s' c (x :: l) (x :: l ++ [a]) a [] ∧ s'.allocated = a :: s.allocated ∧
      s'.currentPid = wadd s.currentPid 1 ∧ (s'.tasks a).upid = s.currentPid ∧
      (s'.tasks a).rsp = t.rsp) ∨
    (∃ c tf x l, e = .tick c tf ∧ ring c = x :: l ∧ ¬ ((s.tasks x).upid = 0 ∧ l ≠ []) ∧
      Stepped s s' c (x :: l) (l ++ [x]) x [] ∧ s'.allocated = s.allocated ∧
      s'.currentPid = s.currentPid ∧ (s'.tasks x).upid = (s.tasks x).upid ∧ (s'.tasks x).rsp = tf) ∨
    (∃ c tf x l, ((e = .tick c tf ∧ (s.tasks x).upid = 0) ∨ e = .exit c tf) ∧ ring c = x :: l ∧
      l ≠ [] ∧ Stepped s s' c (x :: l) l x [x] ∧ s'.allocated = s.allocated.erase x ∧
      s'.currentPid = s.currentPid) := by
  cases e with
  | init c a => exact .inl ⟨c, a, rfl, h.step_init hs⟩
  | enroll c a t =>
    obtain ⟨x, l, hstep⟩ := h.step_enroll hs
    exact .inr (.inl ⟨c, a, t, x, l, rfl, hstep⟩)
  | tick c tf =>
    obtain ⟨x, l, hring, hkeep | ⟨hupid, hreap⟩⟩ := h.step_tick hs
    · exact .inr (.inr (.inl ⟨c, tf, x, l, rfl, hring, hkeep⟩))
    · exact .inr (.inr (.inr ⟨c, tf, x, l, .inl ⟨rfl, hupid⟩, hring, hreap⟩))
  | exit c tf =>
    obtain ⟨x, l, hring, hexit⟩ := h.step_exit hs
    exact .inr (.inr (.inr ⟨c, tf, x, l, .inr rfl, hring, hexit⟩))

/-- **Every step keeps the rings linked as the queues.** -/
lemma step (h : SchedInv s ring) {e : SchedEvent Cpu} (hs : schedStep garbage s e = some s') :
    SchedInv s' (ringAfter s ring e) := by
  rcases h.step_cases hs with ⟨c, a, rfl, hring, ha0, hfresh, hstep, halloc, -⟩ |
    ⟨c, a, t, x, l, rfl, hring, ha0, hfresh, hstep, halloc, -⟩ |
    ⟨c, tf, x, l, rfl, hring, hkeep, hstep, halloc, -⟩ |
    ⟨c, tf, x, l, hevent, hring, hl, hstep, halloc, -⟩
  · refine h.update hstep.linked (List.nodup_singleton a) (by simpa using ha0)
      (by simpa using .inr hfresh) hstep.current (fun w _ hw => ?_) (fun b => ?_) ?_
    · exact hstep.links (fun hwa => hfresh (hwa ▸ hw)) List.not_mem_nil
    · rw [halloc, hring, List.mem_cons, List.mem_singleton]
      simp [or_comm]
    · rw [halloc]
      exact List.nodup_cons.mpr ⟨hfresh, h.allocated_nodup⟩
  · have hna : a ∉ x :: l := fun ha => hfresh ((h.allocated a).mpr ⟨c, hring ▸ ha⟩)
    have hafter : ringAfter s ring (.enroll c a t) = Function.update ring c (x :: l ++ [a]) := by
      rw [ringAfter, hring]
    rw [hafter]
    refine h.update hstep.linked ?_ (fun b hb => ?_) (fun b hb => ?_) hstep.current
      (fun w hw hw' => ?_) (fun b => ?_) ?_
    · rw [List.nodup_append_comm, List.singleton_append]
      exact List.nodup_cons.mpr ⟨hna, hring ▸ h.nodup c⟩
    · rcases List.mem_append.mp hb with hb | hb
      · exact h.ne_zero c b (hring ▸ hb)
      · rwa [List.mem_singleton.mp hb]
    · rcases List.mem_append.mp hb with hb | hb
      · exact .inl (hring ▸ hb)
      · exact .inr (by rwa [List.mem_singleton.mp hb])
    · exact hstep.links (fun hwa => hfresh (hwa ▸ hw')) (hring ▸ hw)
    · rw [halloc, hring, List.mem_append, List.mem_singleton, List.mem_cons]
      have hsub : b ∈ x :: l → b ∈ s.allocated := fun hb => (h.allocated b).mpr ⟨c, hring ▸ hb⟩
      tauto
    · rw [halloc]
      exact List.nodup_cons.mpr ⟨hfresh, h.allocated_nodup⟩
  · have hafter : ringAfter s ring (.tick c tf) = Function.update ring c (l ++ [x]) := by
      rw [ringAfter, hring, tickRing, if_neg hkeep]
    have hmem : ∀ b, b ∈ l ++ [x] ↔ b ∈ ring c := fun b => by
      rw [hring]
      simp [or_comm]
    rw [hafter]
    refine h.update hstep.linked ?_ (fun b hb => h.ne_zero c b ((hmem b).mp hb))
      (fun b hb => .inl ((hmem b).mp hb)) hstep.current (fun w hw _ => ?_) (fun b => ?_) ?_
    · rw [List.nodup_append_comm, List.singleton_append, ← hring]
      exact h.nodup c
    · rw [hring] at hw
      exact hstep.links (fun hwx => hw (hwx ▸ List.mem_cons_self)) hw
    · rw [halloc, hmem]
      have hsub : b ∈ ring c → b ∈ s.allocated := fun hb => (h.allocated b).mpr ⟨c, hb⟩
      tauto
    · rw [halloc]
      exact h.allocated_nodup
  · have hafter : ringAfter s ring e = Function.update ring c l := by
      rcases hevent with ⟨rfl, hupid⟩ | rfl
      · rw [ringAfter, hring, tickRing, if_pos ⟨hupid, hl⟩]
      · rw [ringAfter, hring, List.tail_cons]
    have hnodup := h.nodup c
    rw [hring] at hnodup
    obtain ⟨hx, hnodup'⟩ := List.nodup_cons.mp hnodup
    rw [hafter]
    refine h.update hstep.linked hnodup' (fun b hb => ?_) (fun b hb => ?_) hstep.current
      (fun w hw _ => ?_) (fun b => ?_) ?_
    · exact h.ne_zero c b (hring ▸ List.mem_cons_of_mem _ hb)
    · exact .inl (hring ▸ List.mem_cons_of_mem _ hb)
    · rw [hring] at hw
      exact hstep.links (fun hwx => hw (hwx ▸ List.mem_cons_self)) hw
    · rw [halloc, h.allocated_nodup.mem_erase_iff, hring, List.mem_cons]
      have hsub : b ∈ x :: l → b ∈ s.allocated := fun hb => (h.allocated b).mpr ⟨c, hring ▸ hb⟩
      have hsub' : b ∈ l → b ∈ s.allocated := fun hb => hsub (List.mem_cons_of_mem _ hb)
      have hbx : b ∈ l → b ≠ x := fun hb hbx => hx (hbx ▸ hb)
      tauto
    · rw [halloc]
      exact h.allocated_nodup.erase x

end SchedInv

/-! ## Runs and their history -/

/-- What has happened so far: the tasks that went into each ring, in order, the frame that each task
last left (or began with), whether it is a bootstrap task, and the number of tasks enrolled. -/
structure History (Cpu : Type*) where
  entered : Cpu → List ℕ
  saved : ℕ → ℕ
  boot : ℕ → Bool
  enrolled : ℕ

variable [DecidableEq Cpu]

/-- A step goes down in history. -/
def History.record (h : History Cpu) (s : Sched Cpu) : SchedEvent Cpu → History Cpu
  | .init c a => { h with
      entered := Function.update h.entered c (h.entered c ++ [a])
      saved := Function.update h.saved a 0
      boot := Function.update h.boot a true }
  | .enroll c a t => { h with
      entered := Function.update h.entered c (h.entered c ++ [a])
      saved := Function.update h.saved a t.rsp
      boot := Function.update h.boot a false
      enrolled := h.enrolled + 1 }
  | .tick c tf => { h with saved := Function.update h.saved (s.currentTask c) tf }
  | .exit c tf => { h with saved := Function.update h.saved (s.currentTask c) tf }

/-- A run of events, with its history. -/
def schedRun (garbage : (ℕ → Task) → ℕ → Task) :
    Sched Cpu × History Cpu → List (SchedEvent Cpu) → Option (Sched Cpu × History Cpu)
  | r, [] => some r
  | (s, h), e :: es => (schedStep garbage s e).bind fun s' => schedRun garbage (s', h.record s e) es

/-- The state before anything has happened. -/
def schedStart (tasks : ℕ → Task) (pml4 : Cpu → ℕ) : Sched Cpu × History Cpu :=
  (⟨tasks, [], 1, fun _ => 0, pml4, fun _ => [], []⟩, ⟨fun _ => [], fun _ => 0, fun _ => false, 0⟩)

/-- The event is one that switches tasks on `c`. -/
def SchedEvent.switches (c : Cpu) : SchedEvent Cpu → Bool
  | .tick d _ => d = c
  | .exit d _ => d = c
  | _ => false

/-- The tasks that become current on `c` in a run, one for each switch. -/
def turns (garbage : (ℕ → Task) → ℕ → Task) (c : Cpu) : Sched Cpu → List (SchedEvent Cpu) → List ℕ
  | _, [] => []
  | s, e :: es =>
    match schedStep garbage s e with
    | none => []
    | some s' =>
      if e.switches c then s'.currentTask c :: turns garbage c s' es else turns garbage c s' es

/-- The history agrees with the queues. -/
structure HistInv (s : Sched Cpu) (ring : Cpu → List ℕ) (h : History Cpu) : Prop where
  entered : ∀ c, (h.entered c).Perm (s.freed c ++ ring c)
  saved : ∀ c, ∀ a ∈ ring c, (s.tasks a).rsp = h.saved a
  pid : s.currentPid = (h.enrolled + 1) % word
  upid : h.enrolled < word → ∀ c, ∀ a ∈ ring c,
    (h.boot a = true ↔ (s.tasks a).upid = 0) ∧ (s.tasks a).upid ≤ h.enrolled
  distinct : h.enrolled < word → ∀ c c', ∀ a ∈ ring c, ∀ b ∈ ring c', (s.tasks a).upid ≠ 0 →
    (s.tasks a).upid = (s.tasks b).upid → a = b
  tail : h.enrolled < word → ∀ c, ∀ a ∈ (ring c).tail, (s.tasks a).upid ≠ 0

namespace HistInv

variable {garbage : (ℕ → Task) → ℕ → Task} {s s' : Sched Cpu} {ring : Cpu → List ℕ}
  {h : History Cpu} {c : Cpu} {x a : ℕ} {l l' : List ℕ}

lemma mem_update {d : Cpu} {w : ℕ} (hw : w ∈ Function.update ring c l' d) :
    (d = c ∧ w ∈ l') ∨ (d ≠ c ∧ w ∈ ring d) := by
  by_cases hd : d = c
  · subst hd
    rw [Function.update_self] at hw
    exact .inl ⟨rfl, hw⟩
  · rw [Function.update_of_ne hd] at hw
    exact .inr ⟨hd, hw⟩

/-- With a new task in a ring, every task is the new one or an old one, whose fields are kept. -/
lemma mem_enrolled (hinv : SchedInv s ring) (hfresh : a ∉ s.allocated)
    (hstep : SchedInv.Stepped s s' c (ring c) (ring c ++ [a]) a []) {d : Cpu} {w : ℕ}
    (hw : w ∈ Function.update ring c (ring c ++ [a]) d) :
    w = a ∨ (w ≠ a ∧ w ∈ ring d ∧ (s'.tasks w).upid = (s.tasks w).upid ∧
      (s'.tasks w).rsp = (s.tasks w).rsp) := by
  have hkept : w ∈ ring d → (w ≠ a ∧ w ∈ ring d ∧ (s'.tasks w).upid = (s.tasks w).upid ∧
      (s'.tasks w).rsp = (s.tasks w).rsp) := by
    intro hwd
    have hwa : w ≠ a := by
      rintro rfl
      exact hfresh ((hinv.allocated w).mpr ⟨d, hwd⟩)
    exact ⟨hwa, hwd, hstep.same.fields w hwa⟩
  rcases mem_update hw with ⟨rfl, hw⟩ | ⟨-, hw⟩
  · rcases List.mem_append.mp hw with hw | hw
    · exact .inr (hkept hw)
    · exact .inl (List.mem_singleton.mp hw)
  · exact .inr (hkept hw)

/-- The new task is behind another one, or alone in its ring. -/
lemma mem_tail_enrolled {d : Cpu} {w : ℕ}
    (hw : w ∈ (Function.update ring c (ring c ++ [a]) d).tail) :
    w ∈ (ring d).tail ∨ (w = a ∧ ring c ≠ []) := by
  by_cases hd : d = c
  · subst hd
    rw [Function.update_self] at hw
    cases hring : ring d with
    | nil =>
      rw [hring] at hw
      exact absurd hw List.not_mem_nil
    | cons y l =>
      rw [hring, List.cons_append, List.tail_cons, List.mem_append, List.mem_singleton] at hw
      exact hw.imp_right fun hwa => ⟨hwa, List.cons_ne_nil y l⟩
  · rw [Function.update_of_ne hd] at hw
    exact .inl hw

/-- A task that goes into a ring is different from those in the rings. -/
lemma step_new (enrolled : ℕ) (boot : Bool) (hinv : SchedInv s ring) (hh : HistInv s ring h)
    (hfresh : a ∉ s.allocated) (hstep : SchedInv.Stepped s s' c (ring c) (ring c ++ [a]) a [])
    {rsp upid pid : ℕ}
    (hupid : (s'.tasks a).upid = upid) (hrsp : (s'.tasks a).rsp = rsp) (hpid : s'.currentPid = pid)
    (hpid' : pid = (enrolled + 1) % word) (henrolled : h.enrolled ≤ enrolled)
    (hboot : enrolled < word → (boot = true ↔ upid = 0) ∧ upid ≤ enrolled)
    (hnew : enrolled < word → upid ≠ 0 → h.enrolled < upid)
    (htail : enrolled < word → ring c ≠ [] → upid ≠ 0) :
    HistInv s' (Function.update ring c (ring c ++ [a]))
      ⟨Function.update h.entered c (h.entered c ++ [a]), Function.update h.saved a rsp,
        Function.update h.boot a boot, enrolled⟩ := by
  have hmem {d : Cpu} {w : ℕ} (hw : w ∈ Function.update ring c (ring c ++ [a]) d) :=
    mem_enrolled hinv hfresh hstep hw
  refine ⟨fun d => ?_, fun d w hw => ?_, hpid.trans hpid', fun hlt d w hw => ?_,
    fun hlt d d' w hw v hv hw0 heq => ?_, fun hlt d w hw => ?_⟩
  · dsimp only
    rw [hstep.freed]
    by_cases hd : d = c
    · subst hd
      rw [Function.update_self, Function.update_self, Function.update_self, List.append_nil,
        ← List.append_assoc]
      exact (hh.entered d).append_right [a]
    · rw [Function.update_of_ne hd, Function.update_of_ne hd, Function.update_of_ne hd]
      exact hh.entered d
  · rcases hmem hw with rfl | ⟨hwa, hwd, -, hr⟩
    · dsimp only
      rw [Function.update_self, hrsp]
    · dsimp only
      rw [Function.update_of_ne hwa, hr]
      exact hh.saved d w hwd
  · rcases hmem hw with rfl | ⟨hwa, hwd, hu, -⟩
    · dsimp only
      rw [Function.update_self, hupid]
      exact hboot hlt
    · dsimp only
      rw [Function.update_of_ne hwa, hu]
      obtain ⟨hb, hle⟩ := hh.upid (henrolled.trans_lt hlt) d w hwd
      exact ⟨hb, hle.trans henrolled⟩
  · have hlt' : h.enrolled < word := henrolled.trans_lt hlt
    rcases hmem hw with rfl | ⟨hwa, hwd, hu, -⟩
    · rcases hmem hv with rfl | ⟨hva, hvd, hu', -⟩
      · rfl
      · rw [hupid] at hw0 heq
        have h1 := hnew hlt hw0
        have h2 := (hh.upid hlt' d' v hvd).2
        omega
    · rcases hmem hv with rfl | ⟨hva, hvd, hu', -⟩
      · rw [hu] at hw0 heq
        rw [hupid] at heq
        have h1 := hnew hlt (heq ▸ hw0)
        have h2 := (hh.upid hlt' d w hwd).2
        omega
      · rw [hu] at hw0 heq
        rw [hu'] at heq
        exact hh.distinct hlt' d d' w hwd v hvd hw0 heq
  · rcases mem_tail_enrolled hw with hold | ⟨rfl, hring⟩
    · have hwa : w ≠ a := by
        rintro rfl
        exact hfresh ((hinv.allocated w).mpr ⟨d, List.mem_of_mem_tail hold⟩)
      rw [(hstep.same.fields w hwa).1]
      exact hh.tail (henrolled.trans_lt hlt) d w hold
    · rw [hupid]
      exact htail hlt hring

/-- The head of a queue goes to the end of it or out of it. -/
lemma step_head (hinv : SchedInv s ring) (hh : HistInv s ring h) {freed : List ℕ} {tf : ℕ}
    (hring : ring c = x :: l) (hstep : SchedInv.Stepped s s' c (x :: l) l' x freed)
    (hperm : (x :: l).Perm (freed ++ l')) (hpid : s'.currentPid = s.currentPid)
    (hx : x ∈ l' → (s'.tasks x).upid = (s.tasks x).upid ∧ (s'.tasks x).rsp = tf)
    (htail : ∀ a ∈ l'.tail, a ∈ l ∨ (s.tasks a).upid ≠ 0) :
    HistInv s' (Function.update ring c l') { h with saved := Function.update h.saved x tf } := by
  -- all tasks were in the same ring before, with the same numbers
  have hmem : ∀ {d w}, w ∈ Function.update ring c l' d →
      w ∈ ring d ∧ (s'.tasks w).upid = (s.tasks w).upid ∧ (w = x → (s'.tasks w).rsp = tf) := by
    intro d w hw
    rcases mem_update hw with ⟨rfl, hwl⟩ | ⟨hd, hw⟩
    · have hwd : w ∈ ring d := by
        rw [hring]
        exact hperm.mem_iff.mpr (List.mem_append_right _ hwl)
      by_cases hwx : w = x
      · subst hwx
        exact ⟨hwd, (hx hwl).1, fun _ => (hx hwl).2⟩
      · exact ⟨hwd, (hstep.same.fields w hwx).1, fun h => absurd h hwx⟩
    · have hwx : w ≠ x := fun hwx =>
        hinv.disjoint d c hd w hw (hring ▸ hwx ▸ List.mem_cons_self)
      exact ⟨hw, (hstep.same.fields w hwx).1, fun h => absurd h hwx⟩
  refine ⟨fun d => ?_, fun d w hw => ?_, hpid.trans hh.pid, fun hlt d w hw => ?_,
    fun hlt d d' w hw v hv hw0 heq => ?_, fun hlt d w hw => ?_⟩
  · rw [hstep.freed]
    by_cases hd : d = c
    · subst hd
      rw [Function.update_self, Function.update_self, List.append_assoc]
      exact (hh.entered d).trans (hring ▸ hperm.append_left _)
    · rw [Function.update_of_ne hd, Function.update_of_ne hd]
      exact hh.entered d
  · obtain ⟨hwd, -, hr⟩ := hmem hw
    by_cases hwx : w = x
    · subst hwx
      dsimp only
      rw [Function.update_self, hr rfl]
    · dsimp only
      rw [Function.update_of_ne hwx, (hstep.same.fields w hwx).2]
      exact hh.saved d w hwd
  · obtain ⟨hwd, hu, -⟩ := hmem hw
    rw [hu]
    exact hh.upid hlt d w hwd
  · obtain ⟨hwd, hu, -⟩ := hmem hw
    obtain ⟨hvd, hu', -⟩ := hmem hv
    rw [hu] at hw0 heq
    rw [hu'] at heq
    exact hh.distinct hlt d d' w hwd v hvd hw0 heq
  · have hw' : w ∈ Function.update ring c l' d := List.mem_of_mem_tail hw
    rw [(hmem hw').2.1]
    by_cases hd : d = c
    · subst hd
      rw [Function.update_self] at hw
      rcases htail w hw with hwl | hne
      · exact hh.tail hlt d w (by rw [hring]; exact hwl)
      · exact hne
    · rw [Function.update_of_ne hd] at hw
      exact hh.tail hlt d w hw

/-- **Every step keeps the history true.** -/
lemma step (hinv : SchedInv s ring) (hh : HistInv s ring h) {e : SchedEvent Cpu}
    (hs : schedStep garbage s e = some s') : HistInv s' (ringAfter s ring e) (h.record s e) := by
  rcases hinv.step_cases hs with
    ⟨c, a, rfl, hring, -, hfresh, hstep, -, hpid, hupid, hrsp⟩ |
    ⟨c, a, t, x, l, rfl, hring, -, hfresh, hstep, -, hpid, hupid, hrsp⟩ |
    ⟨c, tf, x, l, rfl, hring, hkeep, hstep, -, hpid, hupid, hrsp⟩ |
    ⟨c, tf, x, l, hevent, hring, hl, hstep, -, hpid⟩
  · have hstep' : SchedInv.Stepped s s' c (ring c) (ring c ++ [a]) a [] := by
      rw [hring]
      exact hstep
    have hnew := step_new h.enrolled true hinv hh hfresh hstep' hupid hrsp hpid hh.pid le_rfl
      (fun _ => ⟨by simp, Nat.zero_le _⟩) (fun _ h => absurd rfl h)
      (fun _ h => absurd hring h)
    rw [hring] at hnew
    exact hnew
  · have hstep' : SchedInv.Stepped s s' c (ring c) (ring c ++ [a]) a [] := by
      rw [hring]
      exact hstep
    have hpos : h.enrolled + 1 < word → s.currentPid = h.enrolled + 1 := fun hlt => by
      rw [hh.pid, Nat.mod_eq_of_lt hlt]
    refine step_new _ _ hinv hh hfresh hstep' hupid hrsp hpid ?_ (Nat.le_succ _) (fun hlt => ?_)
      (fun hlt _ => ?_) (fun hlt _ => ?_)
    · rw [wadd, hh.pid, Nat.mod_add_mod]
    · rw [hpos hlt]
      exact ⟨by simp, le_rfl⟩
    · rw [hpos hlt]
      exact Nat.lt_succ_self _
    · rw [hpos hlt]
      exact Nat.succ_ne_zero _
  · have hcur : s.currentTask c = x := by
      rw [hinv.current c, hring]
      rfl
    rw [History.record, hcur, ringAfter, hring, tickRing, if_neg hkeep]
    refine step_head hinv hh hring hstep ?_ hpid (fun _ => ⟨hupid, hrsp⟩) (fun a ha => ?_)
    · exact (List.perm_append_singleton x l).symm
    · cases l with
      | nil => exact absurd ha List.not_mem_nil
      | cons y l =>
        rw [List.cons_append, List.tail_cons, List.mem_append, List.mem_singleton] at ha
        rcases ha with ha | rfl
        · exact .inl (List.mem_cons_of_mem _ ha)
        · exact .inr fun hu => hkeep ⟨hu, List.cons_ne_nil y l⟩
  · have hcur : s.currentTask c = x := by
      rw [hinv.current c, hring]
      rfl
    have hnodup := hinv.nodup c
    rw [hring] at hnodup
    obtain ⟨hxl, -⟩ := List.nodup_cons.mp hnodup
    have hhead : HistInv s' (Function.update ring c l)
      { h with saved := Function.update h.saved x tf } :=
      step_head hinv hh hring hstep (List.Perm.refl _) hpid (fun hx => absurd hx hxl)
        fun a ha => .inl (List.mem_of_mem_tail ha)
    rcases hevent with ⟨rfl, hupid⟩ | rfl
    · rw [History.record, hcur, ringAfter, hring, tickRing, if_pos ⟨hupid, hl⟩]
      exact hhead
    · rw [History.record, hcur, ringAfter, hring, List.tail_cons]
      exact hhead

end HistInv

/-- **Every run** has rings, linked as queues that its history explains. -/
lemma exists_inv_of_schedRun {garbage : (ℕ → Task) → ℕ → Task} {r r' : Sched Cpu × History Cpu}
    {ring : Cpu → List ℕ} {es : List (SchedEvent Cpu)} (hinv : SchedInv r.1 ring)
    (hh : HistInv r.1 ring r.2) (hrun : schedRun garbage r es = some r') :
    ∃ ring', SchedInv r'.1 ring' ∧ HistInv r'.1 ring' r'.2 := by
  induction es generalizing r ring with
  | nil =>
    cases hrun
    exact ⟨ring, hinv, hh⟩
  | cons e es ih =>
    obtain ⟨s, h⟩ := r
    obtain ⟨s', hs, hrest⟩ := Option.bind_eq_some_iff.mp hrun
    exact ih (hinv.step hs) (hh.step hinv hs) hrest

end Cuore
