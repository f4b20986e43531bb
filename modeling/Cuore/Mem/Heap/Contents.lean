import Cuore.Mem.Heap.Run

/-!
# The clients' data

A call of the heap writes headers, links of free slots, and the bytes that it copies or zeroes.
`Preserves` says that none of this is in another client's allocation, that `realloc` carries the
old bytes over, and that a `realloc` that fails has changed nothing of its argument.

Every call of a run without a short split preserves the data (`heapRun_preserves`).  After a short
split it may not (`heapRun_shortSplit_clobbers`): the block that was grown by 16 lies over the
header of the free block it was grown into, and the block behind that one still points back there.
When that block is freed, it coalesces with what it finds, and writes into the payload.
-/

namespace Cuore

open Memory

/-- The `n` bytes at `p` in one memory are those at `q` in another. -/
def SameBytes (m : Memory) (p : ℕ) (m' : Memory) (q n : ℕ) : Prop := ∀ i < n, m' (q + i) = m (p + i)

/-- **The call preserves the clients' data.**  `held` are the pointers held before it, and `q` is
what it returns. -/
structure Preserves (h : Heap) (held : List ℕ) (op : HeapOp) (q : ℕ) (h' : Heap) : Prop where
  others : ∀ p ∈ held, p ≠ op.arg → SameBytes h.mem p h'.mem p (capacity h p)
  moved : ∀ ptr newSize grants, op = .realloc ptr newSize grants → ptr ≠ 0 → 0 < newSize → q ≠ 0 →
    SameBytes h.mem ptr h'.mem q (min (capacity h ptr) newSize)
  refused : ∀ ptr newSize grants, op = .realloc ptr newSize grants → ptr ≠ 0 → 0 < newSize →
    q = 0 → ptr ∈ op.heldAfter held q ∧ capacity h' ptr = capacity h ptr ∧
      SameBytes h.mem ptr h'.mem ptr (capacity h ptr)

section

variable {h h' : Heap} {rs : List Region} {F : ℕ → List ℕ} {held : List ℕ} {p q n : ℕ}
  {op : HeapOp} {A : ℕ → ℕ → Prop}

/-- The contents of allocations are the bytes that clients hold. -/
lemma InOrder.sameBytes (hh : InOrder h held rs F) (hkeep : Undisturbed A h.mem h'.mem)
    (hA : ∀ n, Live (heapBlocks rs) F p n → A p n) (hp : p ∈ held) :
    SameBytes h.mem p h'.mem p (capacity h p) := by
  obtain ⟨n, hn⟩ := (hh.2 p).mp hp
  rw [hh.1.capacity_eq hn]
  intro i hi
  exact hkeep p n (hA n hn) _ (Nat.le_add_right _ _) (by omega)

/-- **Calls preserve the clients' data.** -/
lemma InOrder.preserves (hh : InOrder h held rs F) (he : op.Effect h held rs F q h')
    (hcall : ∀ m, op ≠ .write m) : Preserves h held op q h' := by
  have hnull : ∀ {ptr newSize grants}, op = .realloc ptr newSize grants → op.arg = 0 → ptr = 0 :=
    fun heq hz => by rwa [heq] at hz
  cases he with
  | nothing harg =>
    exact ⟨fun _ _ _ _ _ => rfl, fun _ _ _ heq hp => absurd (hnull heq harg) hp,
      fun _ _ _ heq hp => absurd (hnull heq harg) hp⟩
  | allocates harg _ ha =>
    obtain ⟨rs', F', -, hkeep, -⟩ := ha
    exact ⟨fun p hp _ => hh.sameBytes hkeep (fun _ hn => hn) hp,
      fun _ _ _ heq hp => absurd (hnull heq harg) hp,
      fun _ _ _ heq hp => absurd (hnull heq harg) hp⟩
  | frees _ _ hnew hf =>
    obtain ⟨rs', F', -, -, hkeep⟩ := hf
    exact ⟨fun p hp hne => hh.sameBytes hkeep (fun _ hn => ⟨hn, hne⟩) hp,
      fun _ _ _ heq _ hn => absurd (hnew _ _ _ heq) hn.ne',
      fun _ _ _ heq _ hn => absurd (hnew _ _ _ heq) hn.ne'⟩
  | @reallocates ptr newSize n _ grants _ hnew hmem hn hr =>
    obtain ⟨rs', F', hi', ⟨rfl, hkeep, hlive⟩ | ⟨hpos, -, hkeep, hold, -⟩⟩ := hr
    · refine ⟨fun p hp _ => hh.sameBytes hkeep (fun _ hn => hn) hp,
        fun _ _ _ _ _ _ hq => absurd rfl hq, fun _ _ _ heq _ _ _ => ?_⟩
      obtain ⟨rfl, -, -⟩ := HeapOp.realloc.inj heq
      refine ⟨?_, ?_, hh.sameBytes hkeep (fun _ hn => hn) hmem⟩
      · simpa only [HeapOp.heldAfter, if_neg hnew, if_true] using hmem
      · rw [hi'.capacity_eq ((hlive _ n).mpr hn), hh.1.capacity_eq hn]
    · refine ⟨fun p hp hne => hh.sameBytes hkeep (fun _ hn => ⟨hn, hne⟩) hp,
        fun _ _ _ heq _ _ _ => ?_, fun _ _ _ _ _ _ hq => absurd hq hpos.ne'⟩
      obtain ⟨rfl, -, -⟩ := HeapOp.realloc.inj heq
      intro i hi
      rw [hh.1.capacity_eq hn] at hi
      exact hold i (hi.trans_le (min_le_left _ _))
  | writes => exact absurd rfl (hcall _)

/-- **Every call of a run without a short split preserves the clients' data.** -/
theorem heapRun_preserves (hr : HeapRun HeapOp.Safe h held) (ha : op.Allowed h held)
    (hs : op.Safe h) (hcall : ∀ m, op ≠ .write m) (heq : op.run h = some (q, h')) :
    Preserves h held op q h' := by
  obtain ⟨rs, F, hh⟩ := hr.inOrder
  exact hh.preserves (hh.effect ha hs heq) hcall

end

/-- A block of 208 bytes that is moved to a bigger one, since the next block is taken. -/
theorem heapRun_preserves_boot : ∃ h h' held, HeapRun HeapOp.Safe h held ∧
    held = [0xFFFF800100000130, 0xFFFF800100000030] ∧
    Preserves h held (.realloc 0xFFFF800100000030 300 []) 0xFFFF800100000230 h' := by
  obtain ⟨s, hrun, hs⟩ := @bootReplay_value HeapOp.Safe _ [.malloc 208 [], .malloc 208 []] _
    (fun s => (s.2, (HeapOp.replayable s.2 (.realloc 0xFFFF800100000030 300 [])),
      decide (ShortSplit s.1 0xFFFF800100000030 300),
      ((HeapOp.realloc 0xFFFF800100000030 300 []).run s.1).map Prod.fst))
    ([0xFFFF800100000130, 0xFFFF800100000030], true, false, some 0xFFFF800100000230)
    (by decide +kernel)
  simp only [Prod.mk.injEq, decide_eq_false_iff_not] at hs
  obtain ⟨hheld, hallowed, hshort, hrealloc⟩ := hs
  obtain ⟨⟨q, h'⟩, hstep, rfl⟩ := Option.map_eq_some_iff.mp hrealloc
  exact ⟨s.1, h', s.2, hrun, hheld, heapRun_preserves hrun
    (HeapOp.allowed_of_replayable hallowed) (.inr hshort) (fun _ h => nomatch h) hstep⟩

/-- **A short split clobbers a client's data later.**  Of three blocks of 208 bytes the second is
freed, and the first is grown by 16.  When the third is freed, byte 217 of the first changes. -/
theorem heapRun_shortSplit_clobbers : ¬ ∀ h h' held op q, HeapRun (fun _ _ => True) h held →
    op.Allowed h held → (∀ m, op ≠ .write m) → op.run h = some (q, h') →
    Preserves h held op q h' := by
  intro hall
  obtain ⟨s, hrun, hs⟩ := @bootReplay_value (fun _ _ => True) _ [.malloc 208 [], .malloc 208 [],
    .malloc 208 [], .free 0xFFFF800100000130, .realloc 0xFFFF800100000030 224 []] _
    (fun s => (s.2, capacity s.1 0xFFFF800100000030, s.1.mem (0xFFFF800100000030 + 217),
      ((HeapOp.free 0xFFFF800100000230).run s.1).map fun r =>
        r.2.mem (0xFFFF800100000030 + 217)))
    ([0xFFFF800100000030, 0xFFFF800100000230], 224, 0, some 30) (by decide +kernel)
  simp only [Prod.mk.injEq] at hs
  obtain ⟨hheld, hcap, hbefore, hafter⟩ := hs
  obtain ⟨⟨q, h'⟩, hstep, hbyte⟩ := Option.map_eq_some_iff.mp hafter
  have hkeep := (hall s.1 h' s.2 (.free 0xFFFF800100000230) q hrun (Or.inr (by simp [hheld]))
    (fun _ h => nomatch h) hstep).others 0xFFFF800100000030 (by simp [hheld]) (by decide)
  have hsame := hkeep 217 (by rw [hcap]; decide)
  rw [hbefore, hbyte] at hsame
  exact absurd hsame (by decide)

end Cuore
