import Cuore.Mem.Vmm.Gap

/-!
# What the nodes of the ranges tree cache

Every node of the tree caches the least start, the greatest end and the largest gap of its subtree.
`vmm_node_update` computes them from the cached fields of the two children, so that they are right
only where the callback ran on the children first, and again after every change below.

`VmmTreeRun` is the tree under insertions and deletions, without the allocator around it.
`vmm_aggregates_exact` says that after each of them the cached fields of every node are exact.  It
rests on `AvlTree.Current`, which the tree operations keep for any callback, and on what the fields
of a current tree say about its sequence of ranges (`vmmSubtreeStart_eq`, `vmmSubtreeEnd_eq`,
`vmmMaxGap_eq`).
-/

namespace Cuore

/-! ## Runs -/

/-- The trees that insertions and deletions reach.  An inserted range lies apart from those in the
tree, and its end is an address; the other fields of its node hold anything.  A key that is deleted
need not be that of a range. -/
inductive VmmTreeRun : AvlTree VmmNode → Prop
  | empty : VmmTreeRun .nil
  | insert {t : AvlTree VmmNode} {n : VmmNode} : VmmTreeRun t → 0 < n.pageCount →
      n.range.limit < word → (∀ x ∈ vmmRanges t, x.limit ≤ n.start ∨ n.range.limit ≤ x.start) →
      VmmTreeRun (t.avlInsert vmmAvlCb n)
  | delete {t : AvlTree VmmNode} (key : VmmNode) : VmmTreeRun t →
      VmmTreeRun (t.avlDelete vmmAvlCb key).1

/-- A range apart from all others goes between those in front of it and those behind it. -/
lemma Apart.fitsAt {hi a count : ℕ} {L : List VmmRange} (h : Apart hi L)
    (hfree : ∀ x ∈ L, x.limit ≤ a ∨ a + count * pageSize ≤ x.start) : FitsAt L a count := by
  induction L with
  | nil => exact ⟨[], [], rfl, by simp, by simp⟩
  | cons x L ih =>
    obtain ⟨hxL, -⟩ := List.pairwise_cons.mp h.sorted
    rcases hfree x (by simp) with hle | hge
    · obtain ⟨A, B, rfl, hA, hB⟩ :=
        ih (h.sublist (List.sublist_cons_self x L)) fun y hy => hfree y (by simp [hy])
      exact ⟨x :: A, B, rfl, List.forall_mem_cons.mpr ⟨hle, hA⟩, hB⟩
    · refine ⟨[], x :: L, rfl, by simp, List.forall_mem_cons.mpr ⟨hge, fun y hy => ?_⟩⟩
      have hlim : x.start ≤ x.limit := Nat.le_add_right _ _
      exact hge.trans (hlim.trans (hxL y hy))

/-- The ranges stay apart, and every node stays as the callback leaves it. -/
lemma VmmTreeRun.current_apart {t : AvlTree VmmNode} (h : VmmTreeRun t) :
    t.Current vmmAvlCb ∧ Apart (word - 1) (vmmRanges t) := by
  induction h with
  | empty => exact ⟨trivial, by simp [vmmRanges, AvlTree.inorder],
      by simp [vmmRanges, AvlTree.inorder], List.Pairwise.nil⟩
  | @insert t n _ hcount hend hfree ih =>
    obtain ⟨hcur, ha⟩ := ih
    obtain ⟨A, B, hAB, hA, hB⟩ := ha.fitsAt hfree
    obtain ⟨hinsert, hapart⟩ :=
      (hAB ▸ ha).insertByKey hcount (Nat.le_sub_one_of_lt hend) hA hB
    refine ⟨AvlTree.current_avlInsert vmmNodeUpdate_idem hcur n, ?_⟩
    have hranges : vmmRanges (t.avlInsert vmmAvlCb n) =
        insertByKey VmmRange.start n.range (vmmRanges t) :=
      AvlTree.inorder_avlInsert vmmAvlCb_lawful ha.sorted_start n
    rw [hranges, hAB]
    exact hinsert ▸ hapart
  | @delete t key _ ih =>
    obtain ⟨hcur, ha⟩ := ih
    refine ⟨AvlTree.current_avlDelete vmmNodeUpdate_idem hcur key, ha.sublist ?_⟩
    rw [vmmRanges, AvlTree.inorder_avlDelete vmmAvlCb_lawful ha.sorted_start]
    exact List.filter_sublist

/-! ## The cached fields -/

/-- The node `n` caches the truth about its subtree `t`, whose ranges are in address order. -/
structure VmmExact (t : AvlTree VmmNode) (n : VmmNode) : Prop where
  sorted : (vmmRanges t).Pairwise fun x y => x.limit ≤ y.start
  start : IsLeast {a | ∃ x ∈ vmmRanges t, x.start = a} n.subtreeStart
  stop : IsGreatest {a | ∃ x ∈ vmmRanges t, x.limit = a} n.subtreeEnd
  gap : 2 ≤ (vmmRanges t).length →
    IsGreatest {g | ∃ l₁ x y l₂, vmmRanges t = l₁ ++ x :: y :: l₂ ∧ pagesBetween x y = g} n.maxGap
  noGap : (vmmRanges t).length < 2 → n.maxGap = 0

/-- The fields at the root of a current tree. -/
lemma vmmExact_of_current {hi : ℕ} (hhi : hi < word) {l r : AvlTree VmmNode} {n : VmmNode} {h : ℤ}
    (ht : (AvlTree.node l n h r).Current vmmAvlCb) (ha : Apart hi (vmmRanges (.node l n h r))) :
    VmmExact (.node l n h r) n := by
  have hmem : n.range ∈ vmmRanges (.node l n h r) := by simp [vmmRanges, AvlTree.inorder]
  obtain ⟨hbounds, -⟩ := cached_bounds hhi ht ha
  refine ⟨ha.sorted, ⟨?_, ?_⟩, ⟨?_, ?_⟩, fun hlen => ?_, fun hlen => ?_⟩
  · obtain ⟨x, T, hxT⟩ := List.exists_cons_of_ne_nil (List.ne_nil_of_mem hmem)
    have hx : x ∈ (vmmRanges (.node l n h r)).head? := by simp [hxT]
    exact ⟨x, List.mem_of_mem_head? hx, (vmmSubtreeStart_eq hhi ht ha x hx).symm⟩
  · rintro a ⟨x, hx, rfl⟩
    exact (hbounds x hx).1
  · -- the greatest end is that of the last range
    have hend := vmmSubtreeEnd_eq hhi ht ha (by simp) n.range.limit
    rcases @lastLimit_mem _ VmmRange.limit n.range.limit (vmmRanges (.node l n h r)) with
      heq | ⟨x, hx, heq⟩
    · exact ⟨n.range, hmem, (hend.trans heq).symm⟩
    · exact ⟨x, hx, (hend.trans heq).symm⟩
  · rintro a ⟨x, hx, rfl⟩
    exact (hbounds x hx).2
  · rw [show n.maxGap = vmmMaxGap (.node l n h r) from rfl, vmmMaxGap_eq hhi ht ha]
    exact isGreatest_largestGap hlen
  · rw [show n.maxGap = vmmMaxGap (.node l n h r) from rfl, vmmMaxGap_eq hhi ht ha]
    exact largestGap_of_length_lt hlen

/-- **The aggregates are exact.**  In every tree that insertions and deletions of ranges reach, at
every node, `subtree_start` is the least start and `subtree_end` the greatest end of the ranges in
its subtree, and `max_gap` is the largest number of whole pages between two consecutive ones. -/
theorem vmm_aggregates_exact {t : AvlTree VmmNode} (hrun : VmmTreeRun t) {l r : AvlTree VmmNode}
    {n : VmmNode} {h : ℤ} (hmem : AvlTree.node l n h r ∈ t.subtrees) :
    VmmExact (.node l n h r) n := by
  obtain ⟨hcur, ha⟩ := hrun.current_apart
  exact vmmExact_of_current (by decide : word - 1 < word) (hcur.of_mem_subtrees hmem)
    (ha.sublist (AvlTree.inorder_infix hmem).sublist)

/-- Four ranges are inserted, and the root is deleted, which the third of them replaces. -/
theorem vmm_aggregates_exact_successor :
    let n := fun start pageCount => { VmmNode.zero with start := start, pageCount := pageCount }
    let t := ((((AvlTree.nil.avlInsert vmmAvlCb (n 0x5000 1)).avlInsert vmmAvlCb (n 0x1000 2)
      ).avlInsert vmmAvlCb (n 0x9000 1)).avlInsert vmmAvlCb (n 0x10000 1)).avlDelete vmmAvlCb
        (n 0x5000 0)
    ∃ l m h r, t.1 = .node l m h r ∧ VmmExact t.1 m ∧ m.maxGap = 6 ∧
      m.subtreeStart = 0x1000 ∧ m.subtreeEnd = 0x11000 := by
  intro n t
  have hrun : VmmTreeRun t.1 := by
    refine .delete (n 0x5000 0) (.insert (.insert (.insert (.insert .empty ?_ ?_ ?_) ?_ ?_ ?_)
      ?_ ?_ ?_) ?_ ?_ ?_)
    all_goals decide +kernel
  obtain ⟨l, m, h, r, ht, hfields⟩ : ∃ l m h r, t.1 = .node l m h r ∧ m.maxGap = 6 ∧
      m.subtreeStart = 0x1000 ∧ m.subtreeEnd = 0x11000 := ⟨_, _, _, _, rfl, by decide +kernel⟩
  have hmem : AvlTree.node l m h r ∈ t.1.subtrees := by simp [ht, AvlTree.subtrees]
  exact ⟨l, m, h, r, ht, ht ▸ vmm_aggregates_exact hrun hmem, hfields⟩

end Cuore
