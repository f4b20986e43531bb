import Cuore.Mem.Vmm.Oversize
import Cuore.Datatype.Avl.Balance

/-!
# Giving ranges back (`vmm_free_pages`, `pool_free_node`)

`vmm_free_pages` deletes the range at an address from the tree, and looks at its page count
afterwards. Where the count differs, the call returns null like a refused one, but the range is gone
(`vmmFreePages_exact_iff`).

`pool_alloc_node` marks a node that comes from the heap, and then clears it, the mark included.  So
no node in the tree is marked, and `pool_free_node` gives none back.  `VmmCalls` are the runs of the
allocator with any frees at all; next to the state they carry the ranges whose nodes were allocated
after the switch to the heap, and the number of those that were deleted since
(`vmmCalls_heapNodes_iff`).
-/

namespace Cuore

/-! ## What a free does to the tree -/

section FreePages

variable {s : Vmm} {virt count : ℕ}

/-- The tree without the range at an address. -/
def Vmm.deleteAt (s : Vmm) (virt : ℕ) : Vmm :=
  { s with root := (s.root.avlDelete vmmAvlCb { VmmNode.zero with start := virt }).1 }

/-- The node at an address. -/
def Vmm.nodeAt (s : Vmm) (virt : ℕ) : Option VmmNode :=
  (s.root.avlDelete vmmAvlCb { VmmNode.zero with start := virt }).2

/-- Whatever the tree holds, the range at the address is deleted first. -/
lemma vmmFreePages_eq (hvirt : virt ≠ 0) : vmmFreePages virt count s =
    match s.nodeAt virt with
    | none => (0, s.deleteAt virt)
    | some node =>
      (if node.pageCount ≠ count then 0 else node.start, poolFreeNode node (s.deleteAt virt)) := by
  rw [vmmFreePages, if_neg hvirt, Vmm.nodeAt, Vmm.deleteAt]
  by_cases hroot : s.root = .nil
  · rw [if_pos hroot, hroot]
    simp only [AvlTree.avlDelete]
    rw [← hroot]
  · rw [if_neg hroot]
    rcases hdel : s.root.avlDelete vmmAvlCb { VmmNode.zero with start := virt } with ⟨root, out⟩
    cases out with
    | none => rfl
    | some node =>
      dsimp only
      split_ifs <;> rfl

variable (hsorted : (vmmRanges s.root).Pairwise fun r t => r.start < t.start)
include hsorted

lemma vmmRanges_deleteAt : vmmRanges (s.deleteAt virt).root =
    (vmmRanges s.root).filter (fun r => r.start ≠ virt) :=
  AvlTree.inorder_avlDelete vmmAvlCb_lawful hsorted _

lemma range_nodeAt : (s.nodeAt virt).map VmmNode.range =
    (vmmRanges s.root).find? (fun r => r.start = virt) :=
  AvlTree.core_avlDelete_out vmmAvlCb_lawful hsorted _

/-- No two ranges start at one address. -/
lemma eq_of_start_eq {r t : VmmRange} (hr : r ∈ vmmRanges s.root) (ht : t ∈ vmmRanges s.root)
    (h : r.start = t.start) : r = t := by
  have hnodup : ((vmmRanges s.root).map VmmRange.start).Nodup :=
    List.pairwise_map.mpr (hsorted.imp ne_of_lt)
  exact List.inj_on_of_nodup_map hnodup hr ht h

/-- The tree afterwards has the ranges at other addresses. -/
lemma vmmRanges_vmmFreePages (hvirt : virt ≠ 0) :
    vmmRanges (vmmFreePages virt count s).2.root =
      (vmmRanges s.root).filter (fun r => r.start ≠ virt) := by
  rw [← vmmRanges_deleteAt hsorted, vmmFreePages_eq hvirt]
  cases s.nodeAt virt with
  | none => rfl
  | some node =>
    simp only [poolFreeNode]
    split_ifs <;> rfl

/-- The call returns null unless the range at the address has as many pages. -/
lemma vmmFreePages_ret (hvirt : virt ≠ 0) :
    (vmmFreePages virt count s).1 = if ⟨virt, count⟩ ∈ vmmRanges s.root then virt else 0 := by
  have hout : (s.nodeAt virt).map VmmNode.range =
      (vmmRanges s.root).find? (fun r => r.start = virt) := range_nodeAt hsorted
  rw [vmmFreePages_eq hvirt]
  cases hnode : s.nodeAt virt with
  | none =>
    rw [hnode, Option.map_none, eq_comm, List.find?_eq_none] at hout
    rw [if_neg fun hmem => hout _ hmem (by simp)]
  | some node =>
    rw [hnode, Option.map_some, eq_comm] at hout
    have hmem := List.mem_of_find?_eq_some hout
    have hstart : node.range.start = virt := by simpa using List.find?_some hout
    change (if node.pageCount ≠ count then 0 else node.start) = _
    by_cases hcount : node.pageCount = count
    · have hrange : node.range = ⟨virt, count⟩ := by rw [← hstart, ← hcount]; rfl
      rw [if_neg (not_not.mpr hcount), if_pos (hrange ▸ hmem)]
      exact hstart
    · rw [if_pos hcount, if_neg]
      intro hother
      have heq := eq_of_start_eq hsorted hmem hother hstart
      exact hcount (congrArg VmmRange.count heq)

end FreePages

/-- What a free should do: one that returns null leaves the ranges as they are, and one that returns
an address has deleted exactly the range that it was asked for. -/
def FreesExactly (s : Vmm) (virt count : ℕ) : Prop :=
  ((vmmFreePages virt count s).1 = 0 →
      vmmRanges (vmmFreePages virt count s).2.root = vmmRanges s.root) ∧
    ((vmmFreePages virt count s).1 ≠ 0 → (vmmFreePages virt count s).1 = virt ∧
      ⟨virt, count⟩ ∈ vmmRanges s.root ∧ vmmRanges (vmmFreePages virt count s).2.root =
        (vmmRanges s.root).filter (· ≠ ⟨virt, count⟩))

/-- **When a free is exact.**  A free of null is refused.  Any other is exact if, and only if, no
range with another page count starts at the address. -/
theorem vmmFreePages_exact_iff {s : Vmm}
    (hsorted : (vmmRanges s.root).Pairwise fun r t => r.start < t.start) (virt count : ℕ) :
    FreesExactly s virt count ↔
      virt = 0 ∨ ∀ r ∈ vmmRanges s.root, r.start = virt → r.count = count := by
  rcases eq_or_ne virt 0 with rfl | hvirt
  · exact ⟨fun _ => .inl rfl, fun _ => ⟨fun _ => rfl, fun hne => absurd rfl hne⟩⟩
  rw [FreesExactly, vmmFreePages_ret hsorted hvirt, vmmRanges_vmmFreePages hsorted hvirt,
    or_iff_right hvirt]
  by_cases hmem : ⟨virt, count⟩ ∈ vmmRanges s.root
  · rw [if_pos hmem]
    have honly : ∀ r ∈ vmmRanges s.root, r.start = virt → r = ⟨virt, count⟩ :=
      fun r hr hstart => eq_of_start_eq hsorted hr hmem hstart
    refine ⟨fun _ r hr hstart => congrArg VmmRange.count (honly r hr hstart), fun _ =>
      ⟨fun h0 => absurd h0 hvirt, fun _ => ⟨rfl, hmem, List.filter_congr fun r hr => ?_⟩⟩⟩
    have hiff : r.start = virt ↔ r = ⟨virt, count⟩ :=
      ⟨honly r hr, fun h => congrArg VmmRange.start h⟩
    simp [hiff]
  · rw [if_neg hmem]
    constructor
    · rintro ⟨hsame, -⟩ r hr hstart
      have hkept := hsame rfl ▸ hr
      exact absurd hstart (by simpa using (List.mem_filter.mp hkept).2)
    · intro hcount
      refine ⟨fun _ => List.filter_eq_self.mpr fun r hr => ?_, fun h0 => absurd rfl h0⟩
      have hne : r.start ≠ virt := fun hstart => hmem (by
        rw [← hstart, ← hcount r hr hstart]
        exact hr)
      simpa using hne

/-- The range of `holePool`, with its 512 pages. -/
theorem vmmFreePages_exact_holePool : FreesExactly holePool 0xFFFF800080200000 512 :=
  (vmmFreePages_exact_iff vmmPool_holePool.apart.sorted_start _ _).mpr (.inr (by decide))

/-- The same range, with another page count: the call returns null, and the range is gone. -/
theorem vmmFreePages_mismatch : ¬ FreesExactly holePool 0xFFFF800080200000 511 := by
  rintro ⟨hsame, -⟩
  exact absurd (hsame (by decide +kernel)) (by decide +kernel)

/-! ## What the tree stores -/

/-- The ranges of a tree with the mark of their nodes, in order. -/
def vmmStored (t : AvlTree VmmNode) : List (VmmRange × Bool) :=
  t.inorder fun n => (n.range, n.heapAllocated)

/-- No node is marked as one of the heap. -/
def Unmarked (t : AvlTree VmmNode) : Prop := ∀ p ∈ vmmStored t, p.2 = false

lemma map_vmmStored (t : AvlTree VmmNode) : (vmmStored t).map Prod.fst = vmmRanges t := by
  induction t with
  | nil => rfl
  | node l n h r ihl ihr =>
    change (vmmStored l ++ (n.range, n.heapAllocated) :: vmmStored r).map Prod.fst =
      vmmRanges l ++ n.range :: vmmRanges r
    rw [List.map_append, List.map_cons, ihl, ihr]

lemma vmmAvlCb_lawful_stored :
    vmmAvlCb.Lawful (fun n => (n.range, n.heapAllocated)) (fun p => p.1.start) where
  core_update _ _ _ := rfl
  compare_lt := vmmAvlCb_lawful.compare_lt
  compare_gt := vmmAvlCb_lawful.compare_gt

section Stored

variable {s : Vmm} {t : AvlTree VmmNode} {n : VmmNode} {virt count a : ℕ}
  (hsorted : (vmmRanges t).Pairwise fun r u => r.start < u.start)
include hsorted

lemma vmmStored_sorted : (vmmStored t).Pairwise fun p q => p.1.start < q.1.start := by
  rw [← map_vmmStored, List.pairwise_map] at hsorted
  exact hsorted

lemma Unmarked.avlInsert (h : Unmarked t) (hn : n.heapAllocated = false) :
    Unmarked (t.avlInsert vmmAvlCb n) := by
  intro p hp
  rw [vmmStored, AvlTree.inorder_avlInsert vmmAvlCb_lawful_stored (vmmStored_sorted hsorted)] at hp
  rcases (mem_insertByKey (vmmStored_sorted hsorted)).mp hp with hp | ⟨rfl, -⟩
  · exact h p hp
  · exact hn

lemma Unmarked.avlDelete (h : Unmarked t) :
    Unmarked (t.avlDelete vmmAvlCb n).1 ∧
      ∀ m ∈ (t.avlDelete vmmAvlCb n).2, m.heapAllocated = false := by
  constructor
  · intro p hp
    rw [vmmStored, AvlTree.inorder_avlDelete vmmAvlCb_lawful_stored
      (vmmStored_sorted hsorted)] at hp
    exact h p (List.mem_filter.mp hp).1
  · intro m hm
    have hout := AvlTree.core_avlDelete_out vmmAvlCb_lawful_stored (vmmStored_sorted hsorted) n
    rw [hm, Option.map_some, eq_comm] at hout
    exact h _ (List.mem_of_find?_eq_some hout)

end Stored

/-! ## Addresses -/

/-- The search does not return an address in front of its base. -/
lemma le_vmmFindGap {poolEnd pages align base : ℕ} {t : AvlTree VmmNode}
    (hne : vmmFindGap poolEnd pages align t base ≠ 0) :
    base ≤ vmmFindGap poolEnd pages align t base := by
  induction t generalizing base with
  | nil => exact absurd rfl hne
  | node l n h r ihl ihr =>
    have hbehind : base ≤ behindLeft l base := by
      rw [behindLeft]
      split_ifs with hgt
      · exact hgt.2.le
      · exact le_rfl
    rw [vmmFindGap_node] at hne ⊢
    split_ifs at hne ⊢ with hfirst hin hprune hleft hnode hin hlast
    · exact le_vmmAlignUp base align
    · exact absurd rfl hne
    · exact absurd rfl hne
    · exact ihl hleft
    · exact hbehind.trans (le_vmmAlignUp _ align)
    · exact absurd rfl hne
    · exact hbehind.trans (hlast.le.trans (ihr hne))
    · exact hbehind.trans (ihr hne)

/-- Nor does the allocator return one in front of the pool, and it stores the range in a node that
it has taken for it. -/
lemma vmmAllocAligned_stores {s s' : Vmm} {malloc : Bool} {count align addr : ℕ}
    (hcount : count ≠ 0)
    (hrun : vmmAllocAligned malloc count align s = some (addr, s')) :
    s.poolBase ≤ addr ∧ ∃ r, poolAllocNode malloc s = some r ∧
      s' = r.2.addRange r.1 addr count := by
  rw [vmmAllocAligned, if_neg hcount] at hrun
  dsimp only at hrun
  generalize vmmAlignUp (if s.root ≠ .nil then vmmSubtreeEnd s.root else s.poolBase) align = tail
    at hrun
  have hle : s.poolBase ≤ if vmmFindGap s.poolEnd count align s.root s.poolBase = 0 then
      if tail < s.poolBase then s.poolBase else tail
      else vmmFindGap s.poolEnd count align s.root s.poolBase := by
    split_ifs with hfound hbefore
    · exact le_rfl
    · exact not_lt.mp hbefore
    · exact le_vmmFindGap hfound
  generalize (if vmmFindGap s.poolEnd count align s.root s.poolBase = 0 then
    if tail < s.poolBase then s.poolBase else tail
    else vmmFindGap s.poolEnd count align s.root s.poolBase) = found at *
  split_ifs at hrun
  obtain ⟨r, halloc, hr⟩ := Option.bind_eq_some_iff.mp hrun
  obtain ⟨rfl, rfl⟩ := Prod.mk.inj (Option.some.inj hr)
  exact ⟨hle, r, halloc, rfl⟩

/-- What taking a node does: the node is zeroed, and counted if it comes from the heap. -/
lemma poolAllocNode_some {s : Vmm} {malloc : Bool} {r : VmmNode × Vmm}
    (h : poolAllocNode malloc s = some r) :
    r.1 = VmmNode.zero ∧ r.2.root = s.root ∧ r.2.poolBase = s.poolBase ∧
      r.2.heapNodes = s.heapNodes + if s.heapAvailable then 1 else 0 := by
  rw [poolAllocNode] at h
  split_ifs at h with hheap <;> cases h <;> simp [hheap]

/-! ## Runs -/

/-- Some range of the tree starts at the address. -/
def Vmm.StartsAt (s : Vmm) (a : ℕ) : Prop := a ∈ (vmmRanges s.root).map VmmRange.start

instance (s : Vmm) (a : ℕ) : Decidable (s.StartsAt a) :=
  inferInstanceAs (Decidable (a ∈ (vmmRanges s.root).map VmmRange.start))

/-- **Runs of the allocator, with any requests and any frees.**  `late` are the addresses of the
ranges in the tree whose nodes were allocated after the switch to the heap, and `lost` is the number
of nodes of the heap that have left the tree, or were never in it: an insertion at an address at
which a range starts leaves the tree as it is. -/
inductive VmmCalls (hhdmOffset maxRam level : ℕ) : Vmm → List ℕ → ℕ → Prop
  | init : VmmCalls hhdmOffset maxRam level (vmmInit hhdmOffset maxRam level) [] 0
  | switchToHeap {s : Vmm} {late : List ℕ} {lost : ℕ} :
      VmmCalls hhdmOffset maxRam level s late lost →
      VmmCalls hhdmOffset maxRam level (vmmSwitchToHeap s) late lost
  | allocEarly {s s' : Vmm} {late : List ℕ} {lost : ℕ} {malloc : Bool} {count align addr : ℕ} :
      VmmCalls hhdmOffset maxRam level s late lost → count = 0 ∨ s.heapAvailable = false →
      vmmAllocAligned malloc count align s = some (addr, s') →
      VmmCalls hhdmOffset maxRam level s' late lost
  | allocLate {s s' : Vmm} {late : List ℕ} {lost : ℕ} {malloc : Bool} {count align addr : ℕ} :
      VmmCalls hhdmOffset maxRam level s late lost → count ≠ 0 → s.heapAvailable = true →
      vmmAllocAligned malloc count align s = some (addr, s') → ¬ s.StartsAt addr →
      VmmCalls hhdmOffset maxRam level s' (addr :: late) lost
  | allocTwice {s s' : Vmm} {late : List ℕ} {lost : ℕ} {malloc : Bool} {count align addr : ℕ} :
      VmmCalls hhdmOffset maxRam level s late lost → count ≠ 0 → s.heapAvailable = true →
      vmmAllocAligned malloc count align s = some (addr, s') → s.StartsAt addr →
      VmmCalls hhdmOffset maxRam level s' late (lost + 1)
  | freeEarly {s : Vmm} {late : List ℕ} {lost : ℕ} {virt count : ℕ} :
      VmmCalls hhdmOffset maxRam level s late lost → virt ∉ late →
      VmmCalls hhdmOffset maxRam level (vmmFreePages virt count s).2 late lost
  | freeLate {s : Vmm} {late : List ℕ} {lost : ℕ} {virt count : ℕ} :
      VmmCalls hhdmOffset maxRam level s late lost → virt ∈ late →
      VmmCalls hhdmOffset maxRam level (vmmFreePages virt count s).2 (late.erase virt) (lost + 1)

/-- What every call keeps of the tree. -/
structure VmmTreeInv (s : Vmm) : Prop where
  base_pos : 0 < s.poolBase
  sorted : (vmmRanges s.root).Pairwise fun r t => r.start < t.start
  unmarked : Unmarked s.root

namespace VmmTreeInv

variable {s s' : Vmm} {count align addr virt : ℕ} {malloc : Bool} (h : VmmTreeInv s)
include h

/-- The step at an allocation: the tree has the new range too, and the heap has given a node if it
was asked for one. -/
lemma alloc (hcount : count ≠ 0) (hrun : vmmAllocAligned malloc count align s = some (addr, s')) :
    VmmTreeInv s' ∧ (∀ a, s.StartsAt a → s'.StartsAt a) ∧ s'.StartsAt addr ∧
      s'.heapNodes = s.heapNodes + if s.heapAvailable then 1 else 0 := by
  obtain ⟨-, r, halloc, rfl⟩ := vmmAllocAligned_stores hcount hrun
  obtain ⟨hnode, hroot, hbase, hnodes⟩ := poolAllocNode_some halloc
  have hranges : vmmRanges (r.2.addRange r.1 addr count).root =
      insertByKey VmmRange.start ⟨addr, count⟩ (vmmRanges s.root) := by
    rw [Vmm.addRange, hroot]
    exact AvlTree.inorder_avlInsert vmmAvlCb_lawful h.sorted _
  have hmem : ∀ u, u ∈ vmmRanges (r.2.addRange r.1 addr count).root ↔ u ∈ vmmRanges s.root ∨
      u = ⟨addr, count⟩ ∧ ∀ y ∈ vmmRanges s.root, y.start ≠ addr := fun u => by
    rw [hranges]
    exact mem_insertByKey h.sorted
  refine ⟨⟨hbase ▸ h.base_pos, hranges ▸ pairwise_insertByKey h.sorted, ?_⟩, fun a ha => ?_, ?_,
    hnodes⟩
  · rw [Vmm.addRange, hroot, hnode]
    exact h.unmarked.avlInsert h.sorted rfl
  · obtain ⟨u, hu, rfl⟩ := List.mem_map.mp ha
    exact List.mem_map_of_mem ((hmem u).mpr (.inl hu))
  · by_cases hstart : s.StartsAt addr
    · obtain ⟨y, hy, rfl⟩ := List.mem_map.mp hstart
      exact List.mem_map_of_mem ((hmem y).mpr (.inl hy))
    · refine List.mem_map.mpr ⟨⟨addr, count⟩, (hmem _).mpr (.inr ⟨rfl, fun y hy heq => ?_⟩), rfl⟩
      exact hstart (heq ▸ List.mem_map_of_mem hy)

/-- The step at a free: the range at the address is gone, and no node goes back to the heap. -/
lemma free (hvirt : virt ≠ 0) (count : ℕ) :
    VmmTreeInv (vmmFreePages virt count s).2 ∧
      (∀ a, s.StartsAt a → a ≠ virt → (vmmFreePages virt count s).2.StartsAt a) ∧
      (vmmFreePages virt count s).2.heapNodes = s.heapNodes := by
  obtain ⟨hunmarked, hout⟩ :=
    h.unmarked.avlDelete h.sorted (n := { VmmNode.zero with start := virt })
  have hranges : vmmRanges (vmmFreePages virt count s).2.root =
      (vmmRanges s.root).filter (fun r => r.start ≠ virt) := vmmRanges_vmmFreePages h.sorted hvirt
  have hsame : (vmmFreePages virt count s).2 = s.deleteAt virt := by
    rw [vmmFreePages_eq hvirt]
    cases hnode : s.nodeAt virt with
    | none => rfl
    | some node =>
      change poolFreeNode node (s.deleteAt virt) = _
      rw [poolFreeNode, if_neg (by simp [hout node hnode])]
  refine ⟨⟨?_, hranges ▸ h.sorted.filter _, ?_⟩, fun a ha hne => ?_, ?_⟩
  · rw [hsame]
    exact h.base_pos
  · rw [hsame]
    exact hunmarked
  · obtain ⟨u, hu, rfl⟩ := List.mem_map.mp ha
    rw [Vmm.StartsAt, hranges]
    exact List.mem_map_of_mem (List.mem_filter.mpr ⟨hu, by simpa using hne⟩)
  · rw [hsame]
    rfl

end VmmTreeInv

/-- What a run keeps: next to the tree, that the ghost state is about its ranges. -/
structure VmmCallsInv (s : Vmm) (late : List ℕ) (lost : ℕ) : Prop where
  tree : VmmTreeInv s
  nodup : late.Nodup
  startsAt : ∀ a ∈ late, s.StartsAt a
  starts_pos : ∀ a ∈ late, a ≠ 0
  heapNodes : s.heapNodes = late.length + lost

/-- **The invariant holds along every run.** -/
lemma VmmCalls.inv {hhdmOffset maxRam level : ℕ} (hpool : wadd hhdmOffset maxRam ≠ 0) {s : Vmm}
    {late : List ℕ} {lost : ℕ} (h : VmmCalls hhdmOffset maxRam level s late lost) :
    VmmCallsInv s late lost := by
  induction h with
  | init =>
    have hempty : Unmarked (vmmInit hhdmOffset maxRam level).root := fun p hp =>
      absurd hp List.not_mem_nil
    exact ⟨⟨Nat.pos_of_ne_zero hpool, List.Pairwise.nil, hempty⟩,
      List.nodup_nil, by simp, by simp, rfl⟩
  | switchToHeap _ ih =>
    exact ⟨⟨ih.tree.base_pos, ih.tree.sorted, ih.tree.unmarked⟩, ih.nodup, ih.startsAt,
      ih.starts_pos, ih.heapNodes⟩
  | @allocEarly s s' late lost malloc count align addr _ hearly hrun ih =>
    by_cases hcount : count = 0
    · rw [vmmAllocAligned, if_pos hcount] at hrun
      obtain ⟨-, rfl⟩ := Prod.mk.inj (Option.some.inj hrun)
      exact ih
    · obtain ⟨htree, hkept, -, hnodes⟩ := ih.tree.alloc hcount hrun
      rw [hearly.resolve_left hcount] at hnodes
      exact ⟨htree, ih.nodup, fun a ha => hkept a (ih.startsAt a ha), ih.starts_pos,
        hnodes.trans ih.heapNodes⟩
  | allocLate _ hcount hheap hrun hfresh ih =>
    obtain ⟨hbase, -⟩ := vmmAllocAligned_stores hcount hrun
    obtain ⟨htree, hkept, hnew, hnodes⟩ := ih.tree.alloc hcount hrun
    have hnode := ih.heapNodes
    rw [hheap, if_pos rfl] at hnodes
    refine ⟨htree, List.nodup_cons.mpr ⟨fun hmem => hfresh (ih.startsAt _ hmem), ih.nodup⟩,
      List.forall_mem_cons.mpr ⟨hnew, fun a ha => hkept a (ih.startsAt a ha)⟩,
      List.forall_mem_cons.mpr ⟨(ih.tree.base_pos.trans_le hbase).ne', ih.starts_pos⟩, ?_⟩
    rw [List.length_cons]
    omega
  | allocTwice _ hcount hheap hrun _ ih =>
    obtain ⟨htree, hkept, -, hnodes⟩ := ih.tree.alloc hcount hrun
    have hnode := ih.heapNodes
    rw [hheap, if_pos rfl] at hnodes
    exact ⟨htree, ih.nodup, fun a ha => hkept a (ih.startsAt a ha), ih.starts_pos, by omega⟩
  | @freeEarly s late lost virt count _ hvirt ih =>
    rcases eq_or_ne virt 0 with rfl | hne
    · exact ih
    · obtain ⟨htree, hkept, hnodes⟩ := ih.tree.free hne count
      refine ⟨htree, ih.nodup, fun a ha => hkept a (ih.startsAt a ha) ?_, ih.starts_pos,
        hnodes.trans ih.heapNodes⟩
      rintro rfl
      exact hvirt ha
  | @freeLate s late lost virt count _ hvirt ih =>
    obtain ⟨htree, hkept, hnodes⟩ := ih.tree.free (ih.starts_pos virt hvirt) count
    have hnode := ih.heapNodes
    have hlen := List.length_erase_add_one hvirt
    refine ⟨htree, ih.nodup.erase virt, fun a ha => ?_, fun a ha =>
      ih.starts_pos a (List.mem_of_mem_erase ha), by omega⟩
    obtain ⟨hne, ha⟩ := (ih.nodup.mem_erase_iff).mp ha
    exact hkept a (ih.startsAt a ha) hne

/-- **Which runs keep no storage of deleted ranges.**  The heap's live nodes are those of the ranges
in the tree that were allocated after the switch, and those that are lost: there are as many as such
ranges if, and only if, none has been lost. -/
theorem vmmCalls_heapNodes_iff {hhdmOffset maxRam level : ℕ} (hpool : wadd hhdmOffset maxRam ≠ 0)
    {s : Vmm} {late : List ℕ} {lost : ℕ} (h : VmmCalls hhdmOffset maxRam level s late lost) :
    (late.Nodup ∧ ∀ a ∈ late, s.StartsAt a) ∧ (s.heapNodes = late.length ↔ lost = 0) := by
  have hinv := h.inv hpool
  have hnodes := hinv.heapNodes
  exact ⟨⟨hinv.nodup, hinv.startsAt⟩, by omega⟩

/-- The pool of a machine with 2 GiB of RAM, after the switch to the heap, with three pages
allocated. -/
def latePool : Vmm :=
  ((vmmAllocPages true 3 (vmmSwitchToHeap (vmmInit 0xFFFF800000000000 0x80000000 4))).getD
    (0, vmmInit 0xFFFF800000000000 0x80000000 4)).2

lemma vmmCalls_latePool :
    VmmCalls 0xFFFF800000000000 0x80000000 4 latePool [0xFFFF800080000000] 0 := by
  have hrun : vmmAllocAligned true 3 pageSize
      (vmmSwitchToHeap (vmmInit 0xFFFF800000000000 0x80000000 4)) =
      some (0xFFFF800080000000, latePool) := by decide +kernel
  exact VmmCalls.init.switchToHeap.allocLate (by decide) rfl hrun (by decide)

/-- One range, and one node of the heap. -/
theorem vmmCalls_heapNodes_latePool :
    VmmCalls 0xFFFF800000000000 0x80000000 4 latePool [0xFFFF800080000000] 0 ∧
      latePool.StartsAt 0xFFFF800080000000 ∧ latePool.heapNodes = 1 := by
  obtain ⟨⟨-, hstarts⟩, hnodes⟩ := vmmCalls_heapNodes_iff (by decide) vmmCalls_latePool
  exact ⟨vmmCalls_latePool, hstarts _ (by simp), hnodes.mpr rfl⟩

/-- The range is freed, and the tree is empty, but the node is still allocated. -/
theorem vmmCalls_heapNodes_lost :
    VmmCalls 0xFFFF800000000000 0x80000000 4 (vmmFreePages 0xFFFF800080000000 3 latePool).2 [] 1 ∧
    (vmmFreePages 0xFFFF800080000000 3 latePool).1 = 0xFFFF800080000000 ∧
    (vmmFreePages 0xFFFF800080000000 3 latePool).2.heapNodes ≠ ([] : List ℕ).length :=
  ⟨vmmCalls_latePool.freeLate (by decide), by decide +kernel, by decide +kernel⟩

end Cuore
