import Cuore.Mem.Heap.Init

/-!
# Runs of the heap

A run starts with `heap_init` and calls the functions of the heap in any order.  Between the calls
the clients write into the allocations that they hold, and anybody into memory that is not the
heap's.  Clients free and reallocate only what they hold.  The ranges by which the heap grows are
fresh.

`HeapRun ok h held` is such a run in which `ok` holds at every step.  What a step does to a heap in
order is its `HeapOp.Effect`, and all that is shown of steps is read off that.  `HeapRun.inOrder`
says that a run without a short split of `realloc` keeps `HeapInv`, and that the pointers held are
those of the allocations.
-/

namespace Cuore

open Memory

/-! ## Steps -/

/-- A call of the heap with the answers of `heap_grow`, or writes between two calls. -/
inductive HeapOp
  | malloc (size : ℕ) (grants : List ℕ)
  | zalloc (size : ℕ) (grants : List ℕ)
  | free (ptr : ℕ)
  | zfree (ptr : ℕ)
  | realloc (ptr newSize : ℕ) (grants : List ℕ)
  | write (m : Memory)

namespace HeapOp

/-- What is returned, and the heap afterwards. -/
def run (h : Heap) : HeapOp → Option (ℕ × Heap)
  | malloc size grants => Cuore.malloc grants h size
  | zalloc size grants => Cuore.zalloc grants h size
  | free ptr => (Cuore.free h ptr).map fun h => (0, h)
  | zfree ptr => (Cuore.zfree h ptr).map fun h => (0, h)
  | realloc ptr newSize grants => Cuore.realloc grants h ptr newSize
  | write m => some (0, { h with mem := m })

/-- A request of `size` bytes, and fresh ranges for it. -/
def Request (h : Heap) (size : ℕ) (grants : List ℕ) : Prop :=
  size < word ∧ FreshGrants (growPages (alignHeap size)) h.owned grants

/-- The step is one that clients take, who hold the pointers `held`. -/
def Allowed (h : Heap) (held : List ℕ) : HeapOp → Prop
  | malloc size grants => Request h size grants
  | zalloc size grants => Request h size grants
  | free ptr => ptr = 0 ∨ ptr ∈ held
  | zfree ptr => ptr = 0 ∨ ptr ∈ held
  | realloc ptr newSize grants => (ptr = 0 ∨ ptr ∈ held) ∧ Request h newSize grants
  | write m => SameOutside {x | (∃ p ∈ held, p ≤ x ∧ x < p + capacity h p) ∨
      ∀ o ∈ h.owned, x < o.1 ∨ o.1 + o.2 ≤ x} h.mem m

/-- The pointers that clients hold after the step, which returned `q`. -/
def heldAfter (held : List ℕ) (q : ℕ) : HeapOp → List ℕ
  | malloc _ _ => if q = 0 then held else q :: held
  | zalloc _ _ => if q = 0 then held else q :: held
  | free ptr => held.filter (· ≠ ptr)
  | zfree ptr => held.filter (· ≠ ptr)
  | realloc ptr newSize _ =>
    if newSize = 0 then held.filter (· ≠ ptr)
    else if q = 0 then held else q :: held.filter (· ≠ ptr)
  | write _ => held

/-- The allocation that is the argument of the call, or zero. -/
def arg : HeapOp → ℕ
  | free ptr => ptr
  | zfree ptr => ptr
  | realloc ptr _ _ => ptr
  | _ => 0

/-- The step is no short split. -/
def Safe (h : Heap) : HeapOp → Prop
  | realloc ptr newSize _ => ptr = 0 ∨ ¬ ShortSplit h ptr newSize
  | _ => True

end HeapOp

/-- **A run**: the heap it has come to, and the pointers that clients hold. -/
inductive HeapRun (ok : Heap → HeapOp → Prop) : Heap → List ℕ → Prop
  | init {mem : Memory} {size virt pool0 pool1 pool2 : ℕ} {h : Heap}
      (hg : InitGrants size virt pool0 pool1 pool2)
      (heq : heapInit mem size virt pool0 pool1 pool2 = some h) : HeapRun ok h []
  | step {h h' : Heap} {held : List ℕ} {op : HeapOp} {q : ℕ} (hr : HeapRun ok h held)
      (ha : op.Allowed h held) (hok : ok h op) (heq : op.run h = some (q, h')) :
      HeapRun ok h' (op.heldAfter held q)

/-! ## The invariant of a run -/

/-- The heap is in order, and its allocations are the pointers held. -/
def InOrder (h : Heap) (held : List ℕ) (rs : List Region) (F : ℕ → List ℕ) : Prop :=
  HeapInv h rs F ∧ ∀ p, p ∈ held ↔ ∃ n, Live (heapBlocks rs) F p n

section

variable {h h' : Heap} {rs : List Region} {F : ℕ → List ℕ} {held grants : List ℕ} {p q n size : ℕ}
  {op : HeapOp} {m : Memory}

lemma InOrder.ne_zero (hh : InOrder h held rs F) (hp : p ∈ held) : p ≠ 0 := by
  obtain ⟨n, hn⟩ := (hh.2 p).mp hp
  exact (hn.pos hh.1.regions).ne'

lemma InOrder.allocates (hh : InOrder h held rs F) (ha : Allocates h rs F size q h') :
    ∃ rs' F', InOrder h' (if q = 0 then held else q :: held) rs' F' := by
  obtain ⟨rs', F', hi', -, ⟨rfl, hlive⟩ | ⟨hpos, -, n, -, hlive⟩⟩ := ha
  · refine ⟨rs', F', hi', fun p => ?_⟩
    simp only [if_true, hlive]
    exact hh.2 p
  · refine ⟨rs', F', hi', fun p => ?_⟩
    rw [if_neg hpos.ne', List.mem_cons, hh.2 p]
    simp only [hlive, exists_or, exists_and_left, exists_eq, and_true]
    exact or_comm

lemma InOrder.frees (hh : InOrder h held rs F) (hf : Frees h rs F p h') :
    ∃ rs' F', InOrder h' (held.filter (· ≠ p)) rs' F' := by
  obtain ⟨rs', F', hi', hlive, -⟩ := hf
  refine ⟨rs', F', hi', fun q => ?_⟩
  simp only [List.mem_filter, hh.2 q, hlive, exists_and_right, decide_eq_true_eq]

lemma InOrder.reallocates (hh : InOrder h held rs F) (hr : Reallocates h rs F p n size q h') :
    ∃ rs' F', InOrder h' (if q = 0 then held else q :: held.filter (· ≠ p)) rs' F' := by
  obtain ⟨rs', F', hi', ⟨rfl, -, hlive⟩ | ⟨hpos, -, -, -, k, -, -, hlive⟩⟩ := hr
  · refine ⟨rs', F', hi', fun r => ?_⟩
    simp only [if_true, hlive]
    exact hh.2 r
  · refine ⟨rs', F', hi', fun r => ?_⟩
    rw [if_neg hpos.ne', List.mem_cons, List.mem_filter, hh.2 r]
    simp only [hlive, exists_or, exists_and_left, exists_and_right, exists_eq, and_true,
      decide_eq_true_eq]
    exact or_comm

lemma InOrder.filter_zero (hh : InOrder h held rs F) : held.filter (· ≠ 0) = held :=
  List.filter_eq_self.mpr fun _ hp => decide_eq_true (hh.ne_zero hp)

/-- Writes to what is held, and to what is not the heap's, are the clients'. -/
lemma InOrder.write (hh : InOrder h held rs F) (ha : (HeapOp.write m).Allowed h held) :
    SameOutside (clientBytes rs F) h.mem m := by
  apply SameOutside.mono ha
  rintro x (⟨p, hp, hx⟩ | hout)
  · obtain ⟨n, hn⟩ := (hh.2 p).mp hp
    rw [hh.1.capacity_eq hn] at hx
    exact .inl ⟨p, n, hn, hx⟩
  · refine .inr fun r hr => ?_
    have hlt := (hh.1.regions.ok r hr).lt
    have := hout (r.base, r.stop - r.base) (hh.1.owned ▸ List.mem_map_of_mem hr)
    dsimp only at this
    omega

/-- What a step does to a heap in order. -/
inductive HeapOp.Effect (h : Heap) (held : List ℕ) (rs : List Region) (F : ℕ → List ℕ) :
    HeapOp → ℕ → Heap → Prop
  | nothing {op : HeapOp} (harg : op.arg = 0) (hheld : op.heldAfter held 0 = held) :
      Effect h held rs F op 0 h
  | allocates {op : HeapOp} {size q : ℕ} {h' : Heap} (harg : op.arg = 0)
      (hheld : op.heldAfter held q = if q = 0 then held else q :: held)
      (ha : Allocates h rs F size q h') : Effect h held rs F op q h'
  | frees {op : HeapOp} {h' : Heap} (hmem : op.arg ∈ held)
      (hheld : op.heldAfter held 0 = held.filter (· ≠ op.arg))
      (hcall : ∀ ptr newSize grants, op = realloc ptr newSize grants → newSize = 0)
      (hf : Frees h rs F op.arg h') : Effect h held rs F op 0 h'
  | reallocates {ptr newSize n q : ℕ} {grants : List ℕ} {h' : Heap} (hnew : newSize ≠ 0)
      (hmem : ptr ∈ held) (hn : Live (heapBlocks rs) F ptr n)
      (hr : Reallocates h rs F ptr n (alignHeap newSize) q h') :
      Effect h held rs F (realloc ptr newSize grants) q h'
  | writes {m : Memory} (hsame : SameOutside (clientBytes rs F) h.mem m) :
      Effect h held rs F (write m) 0 { h with mem := m }

/-- The pointer that is freed is null, or held. -/
lemma InOrder.effect_free {f : Option Heap} (hh : InOrder h held rs F)
    (hp : op.arg = 0 ∨ op.arg ∈ held)
    (hheld : op.heldAfter held 0 = held.filter (· ≠ op.arg))
    (hcall : ∀ ptr newSize grants, op = .realloc ptr newSize grants → newSize = 0)
    (hnull : op.arg = 0 → f = some h)
    (hfrees : ∀ n h', Live (heapBlocks rs) F op.arg n → f = some h' → Frees h rs F op.arg h')
    (heq : f.map (fun h => (0, h)) = some (q, h')) : op.Effect h held rs F q h' := by
  obtain ⟨h₁, hf, hq⟩ := Option.map_eq_some_iff.mp heq
  obtain ⟨rfl, rfl⟩ := Prod.mk.inj hq
  rcases hp with hz | hmem
  · obtain rfl := Option.some.inj ((hnull hz).symm.trans hf)
    exact .nothing hz (by rw [hheld, hz, hh.filter_zero])
  · obtain ⟨n, hn⟩ := (hh.2 op.arg).mp hmem
    exact .frees hmem hheld hcall (hfrees n h₁ hn hf)

/-- **The effect of a step** that is no short split. -/
lemma InOrder.effect (hh : InOrder h held rs F) (ha : op.Allowed h held) (hs : op.Safe h)
    (heq : op.run h = some (q, h')) : op.Effect h held rs F q h' := by
  cases op with
  | malloc size grants => exact .allocates rfl rfl (hh.1.malloc_some ha.2 heq)
  | zalloc size grants => exact .allocates rfl rfl (hh.1.zalloc ha.1 ha.2 heq)
  | free ptr =>
    exact hh.effect_free ha rfl (fun _ _ _ h => nomatch h) (fun hz => if_pos hz)
      (fun _ _ hn => hh.1.free_some hn) heq
  | zfree ptr =>
    exact hh.effect_free ha rfl (fun _ _ _ h => nomatch h) (fun hz => if_pos hz)
      (fun _ _ hn => hh.1.zfree hn) heq
  | realloc ptr newSize grants =>
    obtain ⟨hptr, hsize, hg⟩ := ha
    by_cases hz : ptr = 0
    · -- as `malloc`
      subst hz
      have hm : Cuore.malloc grants h newSize = some (q, h') := heq
      refine .allocates rfl ?_ (hh.1.malloc_some hg hm)
      simp only [HeapOp.heldAfter, hh.filter_zero]
      split_ifs with hn hq
      · rfl
      · subst hn
        exact absurd (Prod.mk.inj (Option.some.inj hm)).1.symm hq
      · rfl
      · rfl
    obtain ⟨n, hn⟩ := (hh.2 ptr).mp (hptr.resolve_left hz)
    by_cases hns : newSize = 0
    · -- as `free`
      subst hns
      have hf : (freeTyped h ptr (getPtrType h ptr)).map (fun h => (0, h)) = some (q, h') := by
        rw [← heq]
        exact (if_neg hz).symm
      refine hh.effect_free hptr rfl (fun _ _ _ heq => (HeapOp.realloc.inj heq).2.1.symm)
        (fun h0 => absurd h0 hz) (fun n h₁ hn hf => ?_) hf
      obtain ⟨h₂, hf', hfrees⟩ := hh.1.free_live hn
      obtain rfl := Option.some.inj (hf'.symm.trans hf)
      exact hfrees
    · exact .reallocates hns (hptr.resolve_left hz) hn
        (hh.1.realloc hn (Nat.pos_of_ne_zero hns) (hs.resolve_left hz) hg heq)
  | write m =>
    obtain ⟨rfl, rfl⟩ := Prod.mk.inj (Option.some.inj heq)
    exact .writes (hh.write ha)

/-- **One step keeps the heap in order.** -/
lemma InOrder.step (hh : InOrder h held rs F) (he : op.Effect h held rs F q h') :
    ∃ rs' F', InOrder h' (op.heldAfter held q) rs' F' := by
  cases he with
  | nothing _ hheld => exact ⟨rs, F, by rwa [hheld]⟩
  | allocates _ hheld ha => exact hheld ▸ hh.allocates ha
  | frees _ hheld _ hf => exact hheld ▸ hh.frees hf
  | reallocates hnew _ _ hr =>
    simp only [HeapOp.heldAfter, if_neg hnew]
    exact hh.reallocates hr
  | writes hsame => exact ⟨rs, F, hh.1.client hsame, hh.2⟩

/-- **Every run without a short split keeps the heap in order.** -/
lemma HeapRun.inOrder (hr : HeapRun HeapOp.Safe h held) : ∃ rs F, InOrder h held rs F := by
  induction hr with
  | init hg heq =>
    obtain ⟨rs, F, hi, hlive⟩ := heapInit_inv hg heq
    exact ⟨rs, F, hi, fun p => ⟨fun hp => absurd hp List.not_mem_nil,
      fun ⟨n, hn⟩ => absurd hn (hlive p n)⟩⟩
  | step _ ha hs heq ih =>
    obtain ⟨rs, F, hh⟩ := ih
    exact hh.step (hh.effect ha hs heq)

/-! ## Replaying a run -/

/-- The step can be replayed: it is a call that clients make, and the heap need not grow for it. -/
def HeapOp.replayable (held : List ℕ) : HeapOp → Bool
  | malloc size grants => decide (size < word) && grants.isEmpty
  | zalloc size grants => decide (size < word) && grants.isEmpty
  | free ptr => held.contains ptr
  | zfree ptr => held.contains ptr
  | realloc ptr newSize grants =>
    held.contains ptr && decide (newSize < word) && grants.isEmpty
  | write _ => false

instance HeapOp.decidableSafe (h : Heap) : (op : HeapOp) → Decidable (op.Safe h)
  | realloc ptr newSize _ => inferInstanceAs (Decidable (ptr = 0 ∨ ¬ ShortSplit h ptr newSize))
  | malloc _ _ | zalloc _ _ | free _ | zfree _ | write _ => .isTrue trivial

/-- The heap and the pointers held after some calls, if `ok` holds at all of them. -/
def replay (ok : Heap → HeapOp → Prop) [∀ h op, Decidable (ok h op)] :
    List HeapOp → Heap × List ℕ → Option (Heap × List ℕ)
  | [], s => some s
  | op :: ops, (h, held) =>
    if op.replayable held ∧ ok h op then
      (op.run h).bind fun r => replay ok ops (r.2, op.heldAfter held r.1)
    else none

lemma HeapOp.allowed_of_replayable (hr : op.replayable held = true) : op.Allowed h held := by
  cases op with
  | malloc size grants | zalloc size grants =>
    simp only [HeapOp.replayable, Bool.and_eq_true, decide_eq_true_eq, List.isEmpty_iff] at hr
    obtain ⟨hsize, rfl⟩ := hr
    exact ⟨hsize, trivial⟩
  | free ptr | zfree ptr => exact .inr (by simpa [HeapOp.replayable] using hr)
  | realloc ptr newSize grants =>
    simp only [HeapOp.replayable, Bool.and_eq_true, decide_eq_true_eq, List.isEmpty_iff,
      List.contains_iff_mem] at hr
    obtain ⟨⟨hptr, hsize⟩, rfl⟩ := hr
    exact ⟨.inr hptr, hsize, trivial⟩
  | write m => exact absurd hr (by simp [HeapOp.replayable])

/-- What can be replayed is a run. -/
lemma HeapRun.replay {ok : Heap → HeapOp → Prop} [∀ h op, Decidable (ok h op)] {ops : List HeapOp}
    {held' : List ℕ} (hr : HeapRun ok h held)
    (heq : Cuore.replay ok ops (h, held) = some (h', held')) : HeapRun ok h' held' := by
  induction ops generalizing h held with
  | nil =>
    obtain ⟨rfl, rfl⟩ := Prod.mk.inj (Option.some.inj heq)
    exact hr
  | cons op ops ih =>
    rw [Cuore.replay] at heq
    split_ifs at heq with hop
    obtain ⟨r, hrun, heq⟩ := Option.bind_eq_some_iff.mp heq
    exact ih (hr.step (HeapOp.allowed_of_replayable hop.1) hop.2 hrun) heq

end

/-- A heap of two pages, with the ranges that `vmm_alloc_pages` hands out one behind the other. -/
def bootHeap : Option Heap :=
  heapInit (fun _ => 0) 0x2000 0xFFFF800100000000 0xFFFF800100002000 0xFFFF800100003000
    0xFFFF800100004000

lemma bootHeap_grants : InitGrants 0x2000 0xFFFF800100000000 0xFFFF800100002000 0xFFFF800100003000
    0xFFFF800100004000 := by
  refine ⟨by decide, ⟨by decide, by decide, by decide, by decide⟩,
    ⟨by decide, by decide, by decide, by decide⟩, ⟨by decide, by decide, by decide, by decide⟩,
    ⟨by decide, by decide, by decide, by decide⟩⟩

/-- Some calls on the heap of two pages. -/
def bootReplay (ok : Heap → HeapOp → Prop) [∀ h op, Decidable (ok h op)] (ops : List HeapOp) :
    Option (Heap × List ℕ) := bootHeap.bind fun h => replay ok ops (h, [])

lemma bootReplay_run {ok : Heap → HeapOp → Prop} [∀ h op, Decidable (ok h op)] {ops : List HeapOp}
    {s : Heap × List ℕ} (heq : bootReplay ok ops = some s) : HeapRun ok s.1 s.2 := by
  obtain ⟨h₀, hboot, hreplay⟩ := Option.bind_eq_some_iff.mp heq
  exact (HeapRun.init bootHeap_grants hboot).replay hreplay

/-- The value of something on the heap that the calls come to. -/
lemma bootReplay_value {ok : Heap → HeapOp → Prop} [∀ h op, Decidable (ok h op)]
    {ops : List HeapOp} {α : Type} {f : Heap × List ℕ → α} {v : α}
    (heq : (bootReplay ok ops).map f = some v) : ∃ s, HeapRun ok s.1 s.2 ∧ f s = v := by
  obtain ⟨s, hs, hv⟩ := Option.map_eq_some_iff.mp heq
  exact ⟨s, bootReplay_run hs, hv⟩

end Cuore
