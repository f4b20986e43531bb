import Cuore.Scheduler.Run
import Mathlib.Data.List.Rotate
import Mathlib.Data.List.Count

/-!
# Round robin

What the rings mean for the tasks: following `next` from the current task goes once around the ring,
`prev` goes back, a search for a task ends and finds it, and between two turns of a task all the
others have had theirs (`turns_eq`).  `scheduler_round_robin` puts it together for every run.
-/

namespace Cuore

/-! ## Going around -/

section Ring

variable {tasks : ℕ → Task} {x a : ℕ} {l l₁ l₂ : List ℕ}

/-- A ring can be held at any of its tasks. -/
lemma Ring.rotateTo (h : Ring tasks (l₁ ++ a :: l₂)) : Ring tasks (a :: l₂ ++ l₁) := by
  induction l₁ generalizing a l₂ with
  | nil => simpa using h
  | cons y l₁ ih =>
    have hrot : Ring tasks (l₁ ++ a :: (l₂ ++ [y])) := by
      have := Ring.rotate (x := y) (l := l₁ ++ a :: l₂) h
      simpa using this
    simpa using ih hrot

/-- Following `next` goes around the ring. -/
lemma Ring.iterate_next (h : Ring tasks (x :: l)) (i : ℕ) :
    (fun a => (tasks a).next)^[i] x = firstAddr id ((x :: l).rotate i) 0 := by
  induction i generalizing x l with
  | zero => simp [firstAddr]
  | succ i ih =>
    rw [Function.iterate_succ_apply, List.rotate_cons_succ, h.next_head]
    cases l with
    | nil => exact ih h
    | cons y l => exact ih h.rotate

/-- `next` and `prev` undo each other. -/
lemma Ring.inverse (h : Ring tasks l) (ha : a ∈ l) :
    (tasks a).next ∈ l ∧ (tasks a).prev ∈ l ∧ (tasks (tasks a).next).prev = a ∧
      (tasks (tasks a).prev).next = a := by
  obtain ⟨l₁, l₂, rfl⟩ := List.append_of_mem ha
  have hrot : Ring tasks (a :: (l₂ ++ l₁)) := h.rotateTo
  have hmem : ∀ b ∈ a :: (l₂ ++ l₁), b ∈ l₁ ++ a :: l₂ := fun b hb => by
    simp only [List.mem_cons, List.mem_append] at hb ⊢
    tauto
  refine ⟨?_, ?_, ?_, ?_⟩
  · rw [hrot.next_head]
    exact hmem _ (firstAddr_mem_cons _ _)
  · rw [hrot.prev_head]
    exact hmem _ (lastAddr_mem_cons _ _)
  · rw [hrot.next_head]
    cases hl : l₂ ++ l₁ with
    | nil =>
      rw [hl] at hrot
      exact hrot.prev_head
    | cons y l =>
      rw [hl] at hrot
      have hrot' : Ring tasks (y :: (l ++ [a])) := hrot.rotate
      exact hrot'.prev_head.trans lastAddr_append_singleton
  · rw [hrot.prev_head]
    rcases List.eq_nil_or_concat' (l₂ ++ l₁) with hl | ⟨l, z, hl⟩
    · rw [hl] at hrot ⊢
      exact hrot.next_head
    · rw [hl] at hrot ⊢
      rw [lastAddr_append_singleton]
      have hrot' : Ring tasks (z :: ([] ++ (a :: l))) :=
        (show Ring tasks ((a :: l) ++ z :: []) from hrot).rotateTo
      exact hrot'.next_head

/-- The search of `get_task_by_upid` looks at the tasks in the order of the ring. -/
lemma findTask_of_linked {Cpu : Type*} {s : Sched Cpu} {p start : ℕ} (u : ℕ) {fuel : ℕ}
    (h : Linked id (TaskNode s.tasks) p (x :: l) start) (hstart : start ∉ l)
    (hfuel : l.length < fuel) :
    s.findTask start u fuel x = some ((x :: l).find? fun a => (s.tasks a).upid = u) := by
  induction l generalizing p x fuel with
  | nil =>
    obtain ⟨fuel, rfl⟩ := Nat.exists_eq_add_of_lt hfuel
    have hnext : (s.tasks x).next = start := h.1.2
    rw [Sched.findTask, hnext, if_pos rfl]
    split_ifs with hu
    · simp [hu]
    · simp [hu]
  | cons y l ih =>
    obtain ⟨fuel, rfl⟩ := Nat.exists_eq_add_of_lt hfuel
    have hnext : (s.tasks x).next = y := h.1.2
    have hys : y ≠ start := fun hys => hstart (hys ▸ List.mem_cons_self)
    rw [Sched.findTask, hnext, if_neg hys]
    split_ifs with hu
    · simp [hu]
    · rw [ih h.2 (fun hs => hstart (List.mem_cons_of_mem _ hs)) (by rw [List.length_cons]; omega)]
      simp [hu]

end Ring

/-! ## Turns -/

variable {Cpu : Type*} [DecidableEq Cpu] {garbage : (ℕ → Task) → ℕ → Task} {s s' : Sched Cpu}
  {ring : Cpu → List ℕ} {c : Cpu} {a y : ℕ} {l R E T : List ℕ} {e : SchedEvent Cpu}

/-- The queue of a CPU under a step: a switch on it moves or drops its head, and all else
appends. -/
lemma SchedInv.queue_step (h : SchedInv s ring) (hring : ring c = y :: l)
    (hs : schedStep garbage s e = some s') :
    (e.switches c = true ∧ (ringAfter s ring e c = l ++ [y] ∧ s'.freed c = s.freed c ∨
      ringAfter s ring e c = l ∧ l ≠ [] ∧ s'.freed c = s.freed c ++ [y])) ∨
    (e.switches c = false ∧ s'.freed c = s.freed c ∧ ∃ N, ringAfter s ring e c = y :: l ++ N) := by
  rcases h.step_cases hs with ⟨d, b, rfl, hnil, -, -, hstep, -⟩ |
    ⟨d, b, t, x, l', rfl, hring', -, -, hstep, -⟩ | ⟨d, tf, x, l', rfl, hring', hkeep, hstep, -⟩ |
    ⟨d, tf, x, l', hevent, hring', hl, hstep, -⟩
  · have hdc : c ≠ d := fun hdc => by
      subst hdc
      rw [hring] at hnil
      exact List.cons_ne_nil _ _ hnil
    refine .inr ⟨rfl, ?_, [], ?_⟩
    · rw [hstep.freed, Function.update_of_ne hdc]
    · rw [ringAfter, Function.update_of_ne hdc, hring, List.append_nil]
  · refine .inr ⟨rfl, ?_, ?_⟩
    · rw [hstep.freed, List.append_nil, Function.update_eq_self]
    · by_cases hdc : c = d
      · subst hdc
        exact ⟨[b], by rw [ringAfter, Function.update_self, hring]⟩
      · exact ⟨[], by rw [ringAfter, Function.update_of_ne hdc, hring, List.append_nil]⟩
  · by_cases hdc : c = d
    · subst hdc
      obtain ⟨rfl, rfl⟩ := List.cons.inj (hring.symm.trans hring')
      refine .inl ⟨by simp [SchedEvent.switches], .inl ⟨?_, ?_⟩⟩
      · rw [ringAfter, Function.update_self, hring, tickRing, if_neg hkeep]
      · rw [hstep.freed, List.append_nil, Function.update_eq_self]
    · refine .inr ⟨by simpa [SchedEvent.switches] using Ne.symm hdc, ?_, [], ?_⟩
      · rw [hstep.freed, List.append_nil, Function.update_eq_self]
      · rw [ringAfter, Function.update_of_ne hdc, hring, List.append_nil]
  · by_cases hdc : c = d
    · subst hdc
      obtain ⟨rfl, rfl⟩ := List.cons.inj (hring.symm.trans hring')
      refine .inl ⟨?_, .inr ⟨?_, hl, ?_⟩⟩
      · rcases hevent with ⟨rfl, -⟩ | rfl <;> simp [SchedEvent.switches]
      · rcases hevent with ⟨rfl, hupid⟩ | rfl
        · rw [ringAfter, Function.update_self, hring, tickRing, if_pos ⟨hupid, hl⟩]
        · rw [ringAfter, Function.update_self, hring, List.tail_cons]
      · rw [hstep.freed, Function.update_self]
    · refine .inr ⟨?_, ?_, [], ?_⟩
      · rcases hevent with ⟨rfl, -⟩ | rfl <;> simpa [SchedEvent.switches] using Ne.symm hdc
      · rw [hstep.freed, Function.update_of_ne hdc]
      · rcases hevent with ⟨rfl, -⟩ | rfl
        · rw [ringAfter, Function.update_of_ne hdc, hring, List.append_nil]
        · rw [ringAfter, Function.update_of_ne hdc, hring, List.append_nil]

/-- The turns in a run that begins with a step. -/
lemma turns_cons (es : List (SchedEvent Cpu)) (hs : schedStep garbage s e = some s') :
    turns garbage c s (e :: es) =
      if e.switches c then s'.currentTask c :: turns garbage c s' es
      else turns garbage c s' es := by
  rw [turns, hs]

/-- A step frees tasks and takes none back. -/
lemma SchedInv.freed_step (h : SchedInv s ring) (hs : schedStep garbage s e = some s') (c : Cpu) :
    ∃ N, s'.freed c = s.freed c ++ N := by
  have hstepped : ∀ {d l l' b N}, SchedInv.Stepped s s' d l l' b N → ∃ N,
    s'.freed c = s.freed c ++ N := by
    intro d l l' b N hstep
    by_cases hdc : c = d
    · exact ⟨N, by rw [hstep.freed, hdc, Function.update_self]⟩
    · exact ⟨[], by rw [hstep.freed, Function.update_of_ne hdc, List.append_nil]⟩
  rcases h.step_cases hs with ⟨d, b, -, -, -, -, hstep, -⟩ | ⟨d, b, t, x, l', -, -, -, -,
    hstep, -⟩ |
    ⟨d, tf, x, l', -, -, -, hstep, -⟩ | ⟨d, tf, x, l', -, -, -, hstep, -⟩
  all_goals exact hstepped hstep

/-- What has been freed stays freed. -/
lemma freed_count_le {r r' : Sched Cpu × History Cpu} {es : List (SchedEvent Cpu)}
    (hinv : SchedInv r.1 ring) (hrun : schedRun garbage r es = some r') (c : Cpu) (a : ℕ) :
    (r.1.freed c).count a ≤ (r'.1.freed c).count a := by
  induction es generalizing r ring with
  | nil =>
    cases hrun
    exact le_rfl
  | cons e es ih =>
    obtain ⟨s, h⟩ := r
    obtain ⟨s', hs, hrest⟩ := Option.bind_eq_some_iff.mp hrun
    refine le_trans ?_ (ih (hinv.step hs) hrest)
    obtain ⟨N, hN⟩ := hinv.freed_step hs c
    dsimp only
    rw [hN, List.count_append]
    exact Nat.le_add_right _ _

/-- While a task waits, the turns are those of the tasks in front of it, in their order. -/
lemma turns_of_waiting {r r' : Sched Cpu × History Cpu} {es : List (SchedEvent Cpu)}
    (hinv : SchedInv r.1 ring) (hring : ring c = y :: R ++ a :: E)
    (hrun : schedRun garbage r es = some r') (hturns : turns garbage c r.1 es = T ++ [a])
    (hT : a ∉ T) : T = R := by
  induction es generalizing r ring y R E T with
  | nil => simp [turns] at hturns
  | cons e es ih =>
    obtain ⟨s, h⟩ := r
    obtain ⟨s', hs, hrest⟩ := Option.bind_eq_some_iff.mp hrun
    have hinv' := hinv.step hs
    rw [turns_cons es hs] at hturns
    rcases hinv.queue_step hring hs with ⟨hsw, hswitch⟩ | ⟨hsw, -, N, hN⟩
    · -- the head leaves, and the queue goes on with `R`
      obtain ⟨E', hE'⟩ : ∃ E', ringAfter s ring e c = R ++ a :: E' := by
        rcases hswitch with ⟨hr, -⟩ | ⟨hr, -⟩
        · exact ⟨E ++ [y], hr.trans (by simp)⟩
        · exact ⟨E, hr⟩
      have hcur : s'.currentTask c = firstAddr id (R ++ a :: E') 0 := by rw [hinv'.current c, hE']
      rw [if_pos hsw, hcur] at hturns
      cases R with
      | nil =>
        cases T with
        | nil => rfl
        | cons z T =>
          have hz : a = z := (List.cons.inj hturns).1
          exact absurd (hz ▸ List.mem_cons_self) hT
      | cons y' R =>
        have hnodup := hinv'.nodup c
        rw [hE'] at hnodup
        have hya : y' ≠ a := fun h => by
          have := (List.nodup_append.mp hnodup).2.2 y' List.mem_cons_self a List.mem_cons_self
          exact this h
        cases T with
        | nil => exact absurd (List.cons.inj hturns).1 hya
        | cons z T =>
          obtain ⟨hz, hturns'⟩ := List.cons.inj hturns
          have hz' : y' = z := hz
          rw [hz', ih hinv' hE' hrest hturns' fun ha => hT (List.mem_cons_of_mem _ ha)]
    · rw [hsw, if_neg (by simp)] at hturns
      have hN' : ringAfter s ring e c = y :: R ++ a :: (E ++ N) := hN.trans (by simp)
      exact ih hinv' hN' hrest hturns hT

/-- **Between two turns of a task** all others that were in its ring have had exactly one. -/
lemma turns_of_current {r r' : Sched Cpu × History Cpu} {es : List (SchedEvent Cpu)}
    (hinv : SchedInv r.1 ring) (hring : ring c = a :: l) (hrun : schedRun garbage r es = some r')
    (hturns : turns garbage c r.1 es = T ++ [a]) (hT : a ∉ T)
    (hfreed : (r'.1.freed c).count a = (r.1.freed c).count a) : T.Nodup ∧ l <+: T := by
  induction es generalizing r ring l with
  | nil => simp [turns] at hturns
  | cons e es ih =>
    obtain ⟨s, h⟩ := r
    obtain ⟨s', hs, hrest⟩ := Option.bind_eq_some_iff.mp hrun
    have hinv' := hinv.step hs
    rw [turns_cons es hs] at hturns
    have hle := freed_count_le hinv' hrest c a
    rcases hinv.queue_step hring hs with ⟨hsw, ⟨hr, -⟩ | ⟨-, -, hf⟩⟩ | ⟨hsw, hf, N, hN⟩
    · have hcur : s'.currentTask c = firstAddr id (l ++ [a]) 0 := by rw [hinv'.current c, hr]
      rw [if_pos hsw, hcur] at hturns
      cases l with
      | nil =>
        cases T with
        | nil => exact ⟨List.nodup_nil, List.prefix_refl _⟩
        | cons z T =>
          have hz : a = z := (List.cons.inj hturns).1
          exact absurd (hz ▸ List.mem_cons_self) hT
      | cons y R =>
        have hnodup := hinv'.nodup c
        rw [hr] at hnodup
        have hya : y ≠ a := fun h => by
          have := (List.nodup_append.mp hnodup).2.2 y List.mem_cons_self a List.mem_cons_self
          exact this h
        cases T with
        | nil => exact absurd (List.cons.inj hturns).1 hya
        | cons z T =>
          obtain ⟨hz, hturns'⟩ := List.cons.inj hturns
          have hz' : y = z := hz
          have hTR := turns_of_waiting hinv' hr hrest hturns' fun ha =>
            hT (List.mem_cons_of_mem _ ha)
          rw [hTR, ← hz']
          exact ⟨(List.nodup_append.mp hnodup).1, List.prefix_refl _⟩
    · -- the task itself would have been freed
      have hmore : (s'.freed c).count a = (s.freed c).count a + 1 := by
        rw [show s'.freed c = s.freed c ++ [a] from hf, List.count_append,
          List.count_singleton_self]
      have hsame : (r'.1.freed c).count a = (s.freed c).count a := hfreed
      have hle' : (s'.freed c).count a ≤ (r'.1.freed c).count a := hle
      omega
    · rw [hsw, if_neg (by simp)] at hturns
      have hN' : ringAfter s ring e c = a :: (l ++ N) := hN
      obtain ⟨hnodup, hpre⟩ := ih hinv' hN' hrest hturns (by rw [hfreed]; exact congrArg _ hf.symm)
      exact ⟨hnodup, (List.prefix_append l N).trans hpre⟩

/-! ## The scheduler -/

/-- What the scheduler guarantees on CPU `c`, whose queue behind the current task is `l`. -/
structure RoundRobin (garbage : (ℕ → Task) → ℕ → Task) (s : Sched Cpu) (h : History Cpu) (c : Cpu)
    (l : List ℕ) : Prop where
  /-- following `next` from the current task goes once around the ring -/
  nodup : (s.currentTask c :: l).Nodup
  cycle : ∀ i, (fun a => (s.tasks a).next)^[i] (s.currentTask c) =
    firstAddr id ((s.currentTask c :: l).rotate i) 0
  inverse : ∀ a ∈ s.currentTask c :: l, (s.tasks (s.tasks a).next).prev = a ∧
    (s.tasks (s.tasks a).prev).next = a
  /-- the ring is what has gone into it, less what has been reaped -/
  content : (h.entered c).Perm (s.freed c ++ s.currentTask c :: l)
  reaped : ∀ a, (h.entered c).count a ≤ (s.freed c).count a → a ∉ s.currentTask c :: l
  /-- a timer interrupt moves on, reaps, and resumes the frame that was saved -/
  tick : ∀ tf, ∃ s', s.timerHandler garbage c tf =
      (if l = [] then tf else h.saved (s.tasks (s.currentTask c)).next, s') ∧
    s'.currentTask c = (s.tasks (s.currentTask c)).next ∧
    s'.freed c = s.freed c ++
      (if (s.tasks (s.currentTask c)).upid = 0 ∧ l ≠ [] then [s.currentTask c]
      else [])
  /-- so does the exit of the current task, unless it is alone -/
  exit : ∀ tf, (l = [] → s.exitTask garbage c tf = none) ∧ (l ≠ [] → ∃ s',
    s.exitTask garbage c tf = some (h.saved (s.tasks (s.currentTask c)).next, s') ∧
    s'.currentTask c = (s.tasks (s.currentTask c)).next ∧
      s'.freed c = s.freed c ++ [s.currentTask c])
  /-- a search ends -/
  search : ∀ u, ∃ n, ∀ fuel, n ≤ fuel → s.getTaskByUpid c u fuel =
    some ((s.currentTask c :: l).find? fun a => (s.tasks a).upid = u)
  /-- between two turns of the current task all others in the ring have had exactly one -/
  fair : ∀ es r T, schedRun garbage (s, h) es = some r →
    turns garbage c s es = T ++ [s.currentTask c] → s.currentTask c ∉ T →
    (r.1.freed c).count (s.currentTask c) = (s.freed c).count (s.currentTask c) →
    ∀ b ∈ l, T.count b = 1

/-- The numbers of the tasks: not zero but for a bootstrap task, and all different. -/
structure Numbered (s : Sched Cpu) (h : History Cpu) (queue : Cpu → List ℕ) : Prop where
  ne_zero : ∀ c, s.currentTask c ≠ 0 → ∀ a ∈ s.currentTask c :: queue c, h.boot a = false →
    (s.tasks a).upid ≠ 0
  distinct : ∀ c c', s.currentTask c ≠ 0 → s.currentTask c' ≠ 0 →
    ∀ a ∈ s.currentTask c :: queue c, ∀ b ∈ s.currentTask c' :: queue c',
      h.boot a = false → h.boot b = false → (s.tasks a).upid = (s.tasks b).upid → a = b
  found : ∀ c, s.currentTask c ≠ 0 → ∀ a ∈ s.currentTask c :: queue c,
    ∃ n, ∀ fuel, n ≤ fuel → s.getTaskByUpid c (s.tasks a).upid fuel = some (some a)

section Guarantees

variable {h : History Cpu}

omit [DecidableEq Cpu] in
/-- The search for any number ends. -/
lemma getTaskByUpid_eq (hinv : SchedInv s ring) (hring : ring c = s.currentTask c :: l) (u : ℕ)
    {fuel : ℕ} (hfuel : l.length < fuel) : s.getTaskByUpid c u fuel =
      some ((s.currentTask c :: l).find? fun a => (s.tasks a).upid = u) := by
  have hnodup := hinv.nodup c
  have hlink := hinv.linked c
  have h0 := hinv.ne_zero c
  rw [hring] at hnodup hlink h0
  rw [Sched.getTaskByUpid, if_neg (h0 _ List.mem_cons_self)]
  exact findTask_of_linked u hlink (List.nodup_cons.mp hnodup).1 hfuel

/-- Linked rings that the history explains are what is wanted. -/
lemma roundRobin_of_inv (hinv : SchedInv s ring) (hh : HistInv s ring h)
    (hring : ring c = s.currentTask c :: l) : RoundRobin garbage s h c l := by
  have hnodup := hinv.nodup c
  have hlink := hinv.linked c
  have h0 := hinv.ne_zero c
  have hentered := hh.entered c
  have hsaved := hh.saved c
  rw [hring] at hnodup hlink h0 hentered hsaved
  obtain ⟨hx, -⟩ := List.nodup_cons.mp hnodup
  have hnext : (s.tasks (s.currentTask c)).next = firstAddr id l (s.currentTask c) :=
    hlink.next_head
  -- the next task, unless it is the same, still has its frame
  have hframe : ∀ {s'}, l ≠ [] → Sched.SameTasks s s' (s.currentTask c :: l) (s.currentTask c) →
      (s'.tasks (firstAddr id l (s.currentTask c))).rsp =
        h.saved (firstAddr id l (s.currentTask c)) := by
    intro s' hl hsame
    obtain ⟨y, l', rfl⟩ := List.exists_cons_of_ne_nil hl
    have hyx : y ≠ s.currentTask c := fun hyx => hx (hyx ▸ List.mem_cons_self)
    exact (hsame.fields y hyx).2.trans (hsaved y (List.mem_cons_of_mem _ List.mem_cons_self))
  refine ⟨hnodup, hlink.iterate_next, fun a ha =>
    (hlink.inverse ha).2.2, hentered, fun a hle ha => ?_,
    fun tf => ?_, fun tf => ⟨fun hl => ?_, fun hl => ?_⟩, fun u =>
      ⟨l.length + 1, fun fuel hfuel => ?_⟩,
    fun es r T hrun hturns hT hfreed b hb => ?_⟩
  · have hcount := hentered.count_eq a
    rw [List.count_append] at hcount
    have hpos := List.count_pos_iff.mpr ha
    omega
  · rw [hnext]
    by_cases hreap : (s.tasks (s.currentTask c)).upid = 0 ∧ l ≠ []
    · obtain ⟨s', hs', -, hsame, hcur, -, hfreed, -⟩ :=
        Sched.timerHandler_reap garbage tf rfl hlink hnodup h0 hreap.1 hreap.2
      refine ⟨s', ?_, by rw [hcur, Function.update_self], ?_⟩
      · rw [hs', if_neg hreap.2, hframe hreap.2 hsame]
      · rw [hfreed, Function.update_self, if_pos hreap]
    · obtain ⟨s', hs', -, hsame, -, hrsp, hcur, -, hfreed, -⟩ :=
        Sched.timerHandler_keep garbage tf rfl hlink hnodup h0 hreap
      refine ⟨s', ?_, by rw [hcur, Function.update_self], ?_⟩
      · rw [hs']
        by_cases hl : l = []
        · subst hl
          rw [if_pos rfl, firstAddr, hrsp]
        · rw [if_neg hl, hframe hl ⟨fun w _ => hsame.links w List.not_mem_nil, hsame.fields⟩]
      · rw [hfreed, if_neg hreap, List.append_nil]
  · subst hl
    exact Sched.exitTask_alone rfl hlink
  · obtain ⟨s', hs', -, hsame, hcur, -, hfreed, -⟩ :=
      Sched.exitTask_spec garbage tf rfl hlink hnodup h0 hl
    rw [hnext]
    refine ⟨s', ?_, by rw [hcur, Function.update_self], ?_⟩
    · rw [hs', hframe hl hsame]
    · rw [hfreed, Function.update_self]
  · exact getTaskByUpid_eq hinv hring u hfuel
  · obtain ⟨hTnodup, hpre⟩ :=
      turns_of_current (r := (s, h)) hinv hring hrun hturns hT hfreed
    exact List.count_eq_one_of_mem hTnodup (hpre.subset hb)

omit [DecidableEq Cpu] in
/-- As long as the counter has not wrapped, the numbers are good. -/
lemma numbered_of_inv (hinv : SchedInv s ring) (hh : HistInv s ring h) {queue : Cpu → List ℕ}
    (hqueue : ∀ c, s.currentTask c ≠ 0 → ring c = s.currentTask c :: queue c)
    (hlt : h.enrolled < word) : Numbered s h queue := by
  have hmem : ∀ {c a}, s.currentTask c ≠ 0 → a ∈ s.currentTask c :: queue c → a ∈ ring c :=
    fun hc ha => by rwa [hqueue _ hc]
  have hnumber : ∀ {c a}, s.currentTask c ≠ 0 → a ∈ s.currentTask c :: queue c → h.boot a = false →
      (s.tasks a).upid ≠ 0 := fun hc ha hboot hu => by
    have := ((hh.upid hlt _ _ (hmem hc ha)).1.mpr hu).symm.trans hboot
    exact absurd this (by decide)
  refine ⟨fun c hc a ha hboot => hnumber hc ha hboot, fun c c' hc hc' a ha b hb hboot _ heq => ?_,
    fun c hc a ha => ⟨(queue c).length + 1, fun fuel hfuel => ?_⟩⟩
  · exact hh.distinct hlt c c' a (hmem hc ha) b (hmem hc' hb) (hnumber hc ha hboot) heq
  · -- the first task with the number is the only one
    rw [getTaskByUpid_eq hinv (hqueue c hc) _ hfuel]
    obtain ⟨b, hb⟩ : ∃ b, (s.currentTask c :: queue c).find? (fun b =>
        (s.tasks b).upid = (s.tasks a).upid) = some b :=
      Option.isSome_iff_exists.mp (List.find?_isSome.mpr ⟨a, ha, by simp⟩)
    have hbmem := List.mem_of_find?_eq_some hb
    have hbu : (s.tasks b).upid = (s.tasks a).upid := by simpa using List.find?_some hb
    have hba : b = a := by
      by_cases hu : (s.tasks b).upid = 0
      · -- only the head can have the number zero
        have hhead : ∀ w ∈ s.currentTask c :: queue c,
          (s.tasks w).upid = 0 → w = s.currentTask c := by
          intro w hw hw0
          rcases List.mem_cons.mp hw with rfl | hw
          · rfl
          · exact absurd hw0 (hh.tail hlt c w (by rw [hqueue c hc]; exact hw))
        rw [hhead b hbmem hu, hhead a ha (hbu.symm.trans hu)]
      · exact hh.distinct hlt c c b (hmem hc hbmem) a (hmem hc ha) hu hbu
    rw [hb, hba]

end Guarantees

omit [DecidableEq Cpu] in
/-- Before anything has happened there are no rings. -/
lemma inv_schedStart (tasks : ℕ → Task) (pml4 : Cpu → ℕ) :
    SchedInv (schedStart tasks pml4).1 (fun _ => []) ∧
      HistInv (schedStart tasks pml4).1 (fun _ => []) (schedStart tasks pml4).2 := by
  constructor
  · exact ⟨fun _ => trivial, fun _ => rfl, fun _ => List.nodup_nil,
      fun _ a ha => absurd ha List.not_mem_nil, fun _ _ _ a ha => absurd ha List.not_mem_nil,
      fun a => by simp [schedStart], List.nodup_nil⟩
  · exact ⟨fun _ => List.Perm.refl _, fun _ a ha => absurd ha List.not_mem_nil, rfl,
      fun _ _ a ha => absurd ha List.not_mem_nil, fun _ _ _ a ha => absurd ha List.not_mem_nil,
      fun _ _ a ha => absurd ha List.not_mem_nil⟩

/-- **The run ring is a round-robin queue.**  After every run of the system, on every CPU that has
run `scheduler_init`, the tasks are a ring around the current one with all the guarantees of
`RoundRobin`; no task is in two rings; and if fewer than `2 ^ 64` tasks have been enrolled, their
numbers are distinct and not zero, and a search finds the task. -/
theorem scheduler_round_robin (garbage : (ℕ → Task) → ℕ → Task) (tasks : ℕ → Task) (pml4 : Cpu → ℕ)
    (es : List (SchedEvent Cpu)) (s : Sched Cpu) (h : History Cpu)
    (hrun : schedRun garbage (schedStart tasks pml4) es = some (s, h)) :
    ∃ queue : Cpu → List ℕ,
      (∀ c, s.currentTask c ≠ 0 → RoundRobin garbage s h c (queue c)) ∧
      (∀ c c', c ≠ c' → s.currentTask c ≠ 0 → s.currentTask c' ≠ 0 →
        ∀ a ∈ s.currentTask c :: queue c, a ∉ s.currentTask c' :: queue c') ∧
      (h.enrolled < 2 ^ 64 → Numbered s h queue) := by
  obtain ⟨hinv₀, hh₀⟩ := inv_schedStart tasks pml4
  obtain ⟨ring, hinv, hh⟩ := exists_inv_of_schedRun hinv₀ hh₀ hrun
  have hqueue : ∀ c, s.currentTask c ≠ 0 → ring c = s.currentTask c :: (ring c).tail := by
    intro c hc
    obtain ⟨l, hl⟩ := hinv.exists_cons hc
    have hl' : ring c = s.currentTask c :: l := hl
    rw [hl', List.tail_cons]
  refine ⟨fun c => (ring c).tail, fun c hc => roundRobin_of_inv hinv hh (hqueue c hc),
    fun c c' hcc hc hc' a ha => ?_, fun hlt => numbered_of_inv hinv hh hqueue hlt⟩
  rw [← hqueue c hc] at ha
  rw [← hqueue c' hc']
  exact hinv.disjoint c c' hcc a ha

/-- A task with nothing in it. -/
def blankTask : Task := ⟨0, 0, 0, 0, 0, 0⟩

/-- One CPU with its bootstrap task at 8. -/
def oneCpuStart : Sched Unit × History Unit := schedStart (fun _ => blankTask) fun _ => 0

/-- The bootstrap task enrolls a task, which gets its turn. -/
theorem scheduler_round_robin_tick : ∃ s h queue, schedRun (fun _ _ => blankTask) oneCpuStart
    [.init () 8, .enroll () 16 blankTask, .tick () 100] = some (s, h) ∧ s.currentTask () = 16 ∧
    RoundRobin (fun _ _ => blankTask) s h () (queue ()) ∧ Numbered s h queue := by
  obtain ⟨⟨s, h⟩, hrun⟩ :=
    Option.isSome_iff_exists.mp (show (schedRun (fun _ _ => blankTask) oneCpuStart
    [.init () 8, .enroll () 16 blankTask, .tick () 100]).isSome = true from rfl)
  obtain ⟨hcur, hcount⟩ : s.currentTask () = 16 ∧ h.enrolled = 1 := by
    cases hrun
    exact ⟨rfl, rfl⟩
  obtain ⟨queue, hrr, -, hnum⟩ := scheduler_round_robin (fun _ _ => blankTask) (fun _ => blankTask)
    (fun _ => 0) [.init () 8, .enroll () 16 blankTask, .tick () 100] s h hrun
  exact ⟨s, h, queue, hrun, hcur, hrr () (by rw [hcur]; decide), hnum (by rw [hcount]; decide)⟩

/-! ## The counter wraps -/

lemma schedRun_append {r : Sched Cpu × History Cpu} {es fs : List (SchedEvent Cpu)} :
    schedRun garbage r (es ++ fs) =
      (schedRun garbage r es).bind fun r' => schedRun garbage r' fs := by
  induction es generalizing r with
  | nil => rfl
  | cons e es ih =>
    obtain ⟨s, h⟩ := r
    rw [List.cons_append, schedRun, schedRun, Option.bind_assoc]
    exact Option.bind_congr fun s' _ => ih

/-- The current task after `n` tasks have come and gone. -/
def cycleTask : ℕ → ℕ
  | 0 => 8
  | n + 1 => 16 + 8 * (n % 2)

/-- Tasks are enrolled one after the other, and each time the one before exits. -/
def cycleEvents : ℕ → List (SchedEvent Unit)
  | 0 => [.init () 8]
  | n + 1 => cycleEvents n ++ [.enroll () (cycleTask (n + 1)) blankTask, .exit () 0]

/-- The `n`-th of them has the number `n`, on 64 bits. -/
lemma upid_after_cycles (garbage : (ℕ → Task) → ℕ → Task) (n : ℕ) : ∃ s h,
    schedRun garbage oneCpuStart (cycleEvents n) = some (s, h) ∧
    SchedInv s (fun _ => [cycleTask n]) ∧ s.currentPid = (n + 1) % word ∧
    (s.tasks (cycleTask n)).upid = n % word ∧ (0 < n → h.boot (cycleTask n) = false) := by
  induction n with
  | zero =>
    have hstart : SchedInv oneCpuStart.1 fun _ => [] := (inv_schedStart _ _).1
    have hinit := hstart.step (show schedStep garbage oneCpuStart.1 (.init () 8) = some _ from rfl)
    rw [show ringAfter oneCpuStart.1 (fun _ => []) (.init () 8) = fun _ => [8] from
      funext fun _ => rfl] at hinit
    exact ⟨_, _, rfl, hinit, rfl, rfl, fun h => absurd h (lt_irrefl 0)⟩
  | succ n ih =>
    obtain ⟨s, h, hrun, hinv, hpid, -, -⟩ := ih
    set x := cycleTask n with hx
    set a := cycleTask (n + 1) with ha
    have ha0 : a ≠ 0 := by simp [ha, cycleTask]
    have hxa : a ≠ x := by
      rw [ha, hx]
      cases n with
      | zero => decide
      | succ m =>
        simp only [cycleTask]
        omega
    have hcur : s.currentTask () = x := hinv.current ()
    have hx0 : x ≠ 0 := hinv.ne_zero () x List.mem_cons_self
    -- the next task comes
    obtain ⟨s₁, hs₁⟩ : ∃ s₁, schedStep garbage s (.enroll () a blankTask) = some s₁ :=
      ⟨_, if_pos ⟨by rwa [hcur], ha0, fun hmem => by
        obtain ⟨_, hmem⟩ := (hinv.allocated a).mp hmem
        exact hxa (List.mem_singleton.mp hmem)⟩⟩
    have hinv₁ : SchedInv s₁ fun _ => [x, a] := by
      convert hinv.step hs₁ using 1
      exact funext fun _ => rfl
    obtain ⟨hpid₁, hupid₁⟩ :
      s₁.currentPid = wadd s.currentPid 1 ∧ (s₁.tasks a).upid = s.currentPid := by
      rcases hinv.step_cases hs₁ with ⟨_, _, he, -⟩ | ⟨c, b, t, y, l, he, -, -, -, -, -, hp,
        hu, -⟩ |
        ⟨_, _, _, _, he, -⟩ | ⟨_, _, _, _, ⟨he, -⟩ | he, -⟩
      · cases he
      · cases he
        exact ⟨hp, hu⟩
      · cases he
      · cases he
      · cases he
    -- and the one before goes
    have hcur₁ : s₁.currentTask () = x := hinv₁.current ()
    obtain ⟨s₂, hs₂, -⟩ := Sched.exitTask_spec garbage 0 hcur₁ (hinv₁.linked ()) (hinv₁.nodup ())
      (hinv₁.ne_zero ()) (List.cons_ne_nil a [])
    have hstep₂ : schedStep garbage s₁ (.exit () 0) = some s₂ := by
      rw [schedStep, if_pos (by rwa [hcur₁]), hs₂, Option.map_some]
    have hinv₂ : SchedInv s₂ fun _ => [a] := by
      convert hinv₁.step hstep₂ using 1
      exact funext fun _ => rfl
    obtain ⟨hpid₂, hupid₂⟩ :
      s₂.currentPid = s₁.currentPid ∧ (s₂.tasks a).upid = (s₁.tasks a).upid := by
      rcases hinv₁.step_cases hstep₂ with ⟨_, _, he, -⟩ | ⟨_, _, _, _, _, he, -⟩ | ⟨_, _, _, _,
        he, -⟩ |
        ⟨c, tf, y, l, -, hring, -, hstep, -, hp⟩
      · cases he
      · cases he
      · cases he
      · obtain ⟨rfl, -⟩ := List.cons.inj hring
        exact ⟨hp, (hstep.same.fields a hxa).1⟩
    refine ⟨s₂, (h.record s (.enroll () a blankTask)).record s₁ (.exit () 0), ?_, hinv₂, ?_, ?_,
      fun _ => ?_⟩
    · rw [cycleEvents, schedRun_append, hrun, Option.bind_some, schedRun, ← ha, hs₁,
        Option.bind_some,
        schedRun, hstep₂]
      rfl
    · rw [hpid₂, hpid₁, hpid, wadd, Nat.mod_add_mod]
    · rw [hupid₂, hupid₁, hpid]
    · exact Function.update_self _ _ _

/-- The task that comes after `2 ^ 64 - 1` others has the number 0. -/
theorem upid_zero_after_wrap : ∃ s h,
    schedRun (fun _ _ => blankTask) oneCpuStart (cycleEvents (2 ^ 64)) = some (s, h) ∧
    h.boot (s.currentTask ()) = false ∧ (s.tasks (s.currentTask ())).upid = 0 := by
  obtain ⟨s, h, hrun, hinv, -, hupid, hboot⟩ := upid_after_cycles (fun _ _ => blankTask) (2 ^ 64)
  have hcur : s.currentTask () = cycleTask (2 ^ 64) := hinv.current ()
  refine ⟨s, h, hrun, ?_, ?_⟩
  · rw [hcur]
    exact hboot (by norm_num)
  · rw [hcur, hupid]
    exact Nat.mod_self _

end Cuore
