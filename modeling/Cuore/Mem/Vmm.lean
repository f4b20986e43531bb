import Cuore.Mem.Common
import Cuore.Datatype.Avl
import Mathlib.Data.List.Perm.Basic
import Mathlib.Data.List.Nodup

/-!
# The virtual address allocator (`mem/vmm.c`)

Allocated virtual ranges are the nodes of an AVL tree keyed by start address.  Every node
caches where the ranges of its subtree start and end and how many pages the largest gap
between two of them has; `vmm_find_gap` descends by these caches, and `vmm_alloc_aligned`
appends behind the last range when it finds no gap.

The model is the file's own: the node with its cached fields, the two callbacks, the gap
search and the entry points, with wrapping arithmetic.  Node storage is the early pool (a
count) or, after `vmm_switch_to_heap`, the heap, whose answer is a parameter.

A run of allocations and frees is `VmmRun`.  `VmmInv` says that the in-order sequence
of the tree is the list of live ranges in address order, pairwise apart and inside the pool,
and that every node is current; `vmmFindGap_spec` is the one place where the descent is
analysed.  `vmm_ranges_disjoint` reads the result off the invariant.
-/

namespace Cuore

/-! ## Nodes -/

/-- `VMMNode`, without the embedded `avl_node_t`. -/
structure VmmNode where
  start : ℕ
  pageCount : ℕ
  maxGap : ℕ
  subtreeStart : ℕ
  subtreeEnd : ℕ
  heapAllocated : Bool
  deriving DecidableEq, Repr

/-- `(VMMNode){0}`. -/
def VmmNode.zero : VmmNode := ⟨0, 0, 0, 0, 0, false⟩

/-- `VMM_MAX_GAP`. -/
def vmmMaxGap : AvlTree VmmNode → ℕ
  | .nil => 0
  | .node _ n _ _ => n.maxGap

/-- `vmm_subtree_end`. -/
def vmmSubtreeEnd : AvlTree VmmNode → ℕ
  | .nil => 0
  | .node _ n _ _ => n.subtreeEnd

/-- `vmm_subtree_start`. -/
def vmmSubtreeStart : AvlTree VmmNode → ℕ
  | .nil => word - 1
  | .node _ n _ _ => n.subtreeStart

/-- `vmm_node_cmp`. -/
def vmmNodeCmp (a b : VmmNode) : ℤ :=
  if a.start < b.start then -1 else if a.start > b.start then 1 else 0

/-- `vmm_node_update`. -/
def vmmNodeUpdate (left : AvlTree VmmNode) (n : VmmNode) (right : AvlTree VmmNode) : VmmNode :=
  let nend := wadd n.start (wmul n.pageCount pageSize)
  let subtreeStart := match left with
    | .nil => n.start
    | .node _ l _ _ => l.subtreeStart
  let subtreeEnd := match right with
    | .nil => nend
    | .node _ r _ _ => if r.subtreeEnd > nend then r.subtreeEnd else nend
  let gapIl := match left with
    | .nil => 0
    | .node _ l _ _ =>
      if n.start ≥ l.subtreeEnd then wsub n.start l.subtreeEnd / pageSize else 0
  let gapIr := match right with
    | .nil => 0
    | .node _ r _ _ => if r.subtreeStart ≥ nend then wsub r.subtreeStart nend / pageSize else 0
  { n with
    subtreeStart := subtreeStart
    subtreeEnd := subtreeEnd
    maxGap := max (max (vmmMaxGap left) (vmmMaxGap right)) (max gapIl gapIr) }

/-- `vmm_avl_cb`. -/
def vmmAvlCb : AvlCallbacks VmmNode := ⟨vmmNodeCmp, vmmNodeUpdate⟩

/-! ## The allocator -/

/-- The file-level state of `vmm.c`.  `heapNodes` counts the nodes taken from the heap and not
given back. -/
structure Vmm where
  poolBase : ℕ
  poolEnd : ℕ
  root : AvlTree VmmNode
  earlyPoolCount : ℕ
  heapAvailable : Bool
  heapNodes : ℕ
  deriving DecidableEq, Repr

/-- `align_up`. -/
def vmmAlignUp (addr align : ℕ) : ℕ :=
  let aligned := wsub (wadd addr align) 1 &&& wnot (align - 1)
  if aligned < addr then addr else aligned

/-- `VMM_EARLY_POOL`. -/
def vmmEarlyPool : ℕ := 64

/-- `pool_alloc_node`; `malloc` says whether the heap has room for a node.  Zeroing the node
also clears the `heap_allocated` flag set just before. -/
def poolAllocNode (malloc : Bool) (s : Vmm) : Option (VmmNode × Vmm) :=
  if s.heapAvailable then
    if malloc then some (VmmNode.zero, { s with heapNodes := s.heapNodes + 1 }) else none
  else if s.earlyPoolCount ≥ vmmEarlyPool then none
  else some (VmmNode.zero, { s with earlyPoolCount := s.earlyPoolCount + 1 })

/-- `pool_free_node`. -/
def poolFreeNode (node : VmmNode) (s : Vmm) : Vmm :=
  if node.heapAllocated then { s with heapNodes := s.heapNodes - 1 } else s

/-- `vmm_switch_to_heap`. -/
def vmmSwitchToHeap (s : Vmm) : Vmm := { s with heapAvailable := true }

/-- `vmm_find_gap`: an address at which `pages` pages fit before some range of the subtree,
searching from `base` on; `0` if there is none. -/
def vmmFindGap (poolEnd pages align : ℕ) : AvlTree VmmNode → ℕ → ℕ
  | .nil, _ => 0
  | .node l n _ r, base =>
    let span := wmul pages pageSize
    let alignedBase := vmmAlignUp base align
    if n.subtreeStart ≥ wadd alignedBase span then
      if wadd alignedBase span ≤ poolEnd then alignedBase else 0
    else if n.maxGap < pages then 0
    else
      let addr := vmmFindGap poolEnd pages align l base
      if addr ≠ 0 then addr
      else
        let base := if l ≠ .nil ∧ vmmSubtreeEnd l > base then vmmSubtreeEnd l else base
        let alignedBase := vmmAlignUp base align
        if n.start ≥ wadd alignedBase span then
          if wadd alignedBase span ≤ poolEnd then alignedBase else 0
        else
          let nend := wadd n.start (wmul n.pageCount pageSize)
          vmmFindGap poolEnd pages align r (if nend > base then nend else base)

/-- `vmm_init`, for the direct map offset, the end of RAM rounded up to 2 MiB and the paging
depth. -/
def vmmInit (hhdmOffset maxRam level : ℕ) : Vmm where
  poolBase := wadd hhdmOffset maxRam
  poolEnd := if level = 5 then 0xFFFFFFFFFFE00000 else 0xFFFFF00000000000
  root := .nil
  earlyPoolCount := 0
  heapAvailable := false
  heapNodes := 0

/-- `vmm_alloc_aligned`; `none` is a panic. -/
def vmmAllocAligned (malloc : Bool) (count align : ℕ) (s : Vmm) : Option (ℕ × Vmm) :=
  if count = 0 then some (0, s)
  else
    let found := vmmFindGap s.poolEnd count align s.root s.poolBase
    let addr :=
      if found = 0 then
        let tail := if s.root ≠ .nil then vmmSubtreeEnd s.root else s.poolBase
        let tail := vmmAlignUp tail align
        if tail < s.poolBase then s.poolBase else tail
      else found
    if wadd addr (wmul count pageSize) > s.poolEnd then none
    else do
      let (n, s) ← poolAllocNode malloc s
      let n := { n with start := addr, pageCount := count }
      some (addr, { s with root := s.root.avlInsert vmmAvlCb n })

/-- `vmm_alloc_pages`. -/
def vmmAllocPages (malloc : Bool) (count : ℕ) (s : Vmm) : Option (ℕ × Vmm) :=
  vmmAllocAligned malloc count pageSize s

/-- `vmm_alloc_pages_2mb`. -/
def vmmAllocPages2mb (malloc : Bool) (count : ℕ) (s : Vmm) : Option (ℕ × Vmm) :=
  vmmAllocAligned malloc count pageSize2mb s

/-- `vmm_free_pages`. -/
def vmmFreePages (virt count : ℕ) (s : Vmm) : ℕ × Vmm :=
  if virt = 0 then (0, s)
  else if s.root = .nil then (0, s)
  else
    let (root, out) := s.root.avlDelete vmmAvlCb { VmmNode.zero with start := virt }
    let s := { s with root := root }
    match out with
    | none => (0, s)
    | some node =>
      if node.pageCount ≠ count then (0, poolFreeNode node s)
      else (node.start, poolFreeNode node s)

/-! ## Ranges -/

/-- What the tree stores about an allocation. -/
structure VmmRange where
  start : ℕ
  count : ℕ
  deriving DecidableEq, Repr

/-- The address behind the range. -/
def VmmRange.limit (r : VmmRange) : ℕ := r.start + r.count * pageSize

/-- The range a node stands for. -/
def VmmNode.range (n : VmmNode) : VmmRange := ⟨n.start, n.pageCount⟩

/-- The ranges of a tree, in order. -/
def vmmRanges (t : AvlTree VmmNode) : List VmmRange := t.inorder VmmNode.range

lemma vmmAvlCb_lawful : vmmAvlCb.Lawful VmmNode.range VmmRange.start where
  core_update _ _ _ := rfl
  compare_lt a b := by
    simp only [vmmAvlCb, vmmNodeCmp, VmmNode.range]
    split_ifs <;> simp_all
  compare_gt a b := by
    simp only [vmmAvlCb, vmmNodeCmp, VmmNode.range]
    split_ifs <;> simp_all [le_of_lt]

lemma vmmNodeUpdate_idem (l : AvlTree VmmNode) (n : VmmNode) (r : AvlTree VmmNode) :
    vmmNodeUpdate l (vmmNodeUpdate l n r) r = vmmNodeUpdate l n r := rfl

/-- Non-empty ranges in address order, pairwise apart, ending at `hi` or before. -/
structure Apart (hi : ℕ) (L : List VmmRange) : Prop where
  pos : ∀ r ∈ L, 0 < r.count
  le : ∀ r ∈ L, r.limit ≤ hi
  sorted : L.Pairwise fun r s => r.limit ≤ s.start

lemma Apart.sorted_start {hi : ℕ} {L : List VmmRange} (h : Apart hi L) :
    L.Pairwise fun r s => r.start < s.start := by
  refine h.sorted.imp_of_mem fun {r s} hr _ hrs => ?_
  have := h.pos r hr
  simp only [VmmRange.limit, pageSize] at hrs
  omega

lemma Apart.of_append {hi : ℕ} {A B : List VmmRange} (h : Apart hi (A ++ B)) :
    Apart hi A ∧ Apart hi B :=
  have hs := List.pairwise_append.mp h.sorted
  ⟨⟨fun r hr => h.pos r (List.mem_append_left _ hr), fun r hr => h.le r (List.mem_append_left _ hr),
    hs.1⟩, ⟨fun r hr => h.pos r (List.mem_append_right _ hr),
    fun r hr => h.le r (List.mem_append_right _ hr), hs.2.1⟩⟩

lemma Apart.sublist {hi : ℕ} {L M : List VmmRange} (h : Apart hi L) (hM : M.Sublist L) :
    Apart hi M :=
  ⟨fun r hr => h.pos r (hM.subset hr), fun r hr => h.le r (hM.subset hr), h.sorted.sublist hM⟩

/-- Everything in a node's subtree lies on its side of the node. -/
lemma Apart.of_node {hi : ℕ} {l r : AvlTree VmmNode} {n : VmmNode} {h : ℤ}
    (ha : Apart hi (vmmRanges (.node l n h r))) :
    Apart hi (vmmRanges l) ∧ Apart hi (vmmRanges r) ∧
      (∀ x ∈ vmmRanges l, x.limit ≤ n.start) ∧ (∀ x ∈ vmmRanges r, n.range.limit ≤ x.start) := by
  change Apart hi (vmmRanges l ++ n.range :: vmmRanges r) at ha
  have hs := List.pairwise_append.mp ha.sorted
  exact ⟨ha.of_append.1, (ha.of_append.2.of_append (A := [n.range])).2,
    fun x hx => hs.2.2 x hx n.range (by simp), fun x hx => List.rel_of_pairwise_cons hs.2.1 hx⟩

/-! ## What the cached fields say -/

section Cached

variable {hi : ℕ} (hhi : hi < word)
include hhi

lemma nend_eq {n : VmmNode} (h : n.range.limit ≤ hi) :
    wadd n.start (wmul n.pageCount pageSize) = n.range.limit := by
  simp only [VmmRange.limit, VmmNode.range] at h ⊢
  rw [wmul_of_lt (by omega), wadd_of_lt (by omega)]

/-- What a current node caches about its subtree's bounds. -/
lemma cached_node {l r : AvlTree VmmNode} {n : VmmNode} {h : ℤ}
    (ht : (AvlTree.node l n h r).Current vmmAvlCb) (hn : n.range.limit ≤ hi) :
    n.subtreeStart = (if l = .nil then n.start else vmmSubtreeStart l) ∧
      n.subtreeEnd = max n.range.limit (vmmSubtreeEnd r) := by
  have hupd : vmmNodeUpdate l n r = n := by
    have := ht.1
    simp only [AvlTree.updateNode, AvlTree.node.injEq] at this
    exact this.2.1
  have hnend := nend_eq hhi hn
  constructor
  · rw [← hupd]
    cases l with
    | nil => rfl
    | node ll ln lh lr => rfl
  · have hsub : n.subtreeEnd = (vmmNodeUpdate l n r).subtreeEnd := by rw [hupd]
    rw [hsub]
    cases r with
    | nil => simpa [vmmNodeUpdate, vmmSubtreeEnd] using hnend
    | node rl rn rh rr =>
      simp only [vmmNodeUpdate, hnend, vmmSubtreeEnd]
      split_ifs with hgt
      · exact (max_eq_right hgt.le).symm
      · exact (max_eq_left (not_lt.mp hgt)).symm

/-- A current subtree caches bounds of its ranges, and its end bound is attained within any
bound of theirs. -/
lemma cached_bounds {t : AvlTree VmmNode} (ht : t.Current vmmAvlCb)
    (ha : Apart hi (vmmRanges t)) :
    (∀ x ∈ vmmRanges t, vmmSubtreeStart t ≤ x.start ∧ x.limit ≤ vmmSubtreeEnd t) ∧
      vmmSubtreeEnd t ≤ hi := by
  induction t with
  | nil => simp [vmmRanges, AvlTree.inorder, vmmSubtreeEnd]
  | node l n h r ihl ihr =>
    obtain ⟨hal, har, hln, hnr⟩ := ha.of_node
    obtain ⟨hl, -⟩ := ihl ht.2.1 hal
    obtain ⟨hr, hrhi⟩ := ihr ht.2.2 har
    have hn : n.range.limit ≤ hi := ha.le _ (by simp [vmmRanges, AvlTree.inorder])
    obtain ⟨hstart, hend⟩ := cached_node hhi ht hn
    have hlim : n.start ≤ n.range.limit := Nat.le_add_right _ _
    have hsl : n.subtreeStart ≤ n.start ∧ ∀ x ∈ vmmRanges l, n.subtreeStart ≤ x.start := by
      rw [hstart]
      cases l with
      | nil => simp [vmmRanges, AvlTree.inorder]
      | node ll ln lh lr =>
        rw [if_neg (by simp)]
        refine ⟨?_, fun x hx => (hl x hx).1⟩
        have hmem : ln.range ∈ vmmRanges (.node ll ln lh lr) := by simp [vmmRanges, AvlTree.inorder]
        have hle : ln.range.start ≤ ln.range.limit := Nat.le_add_right _ _
        exact ((hl _ hmem).1.trans hle).trans (hln _ hmem)
    refine ⟨fun x hx => ?_, hend.le.trans (max_le hn hrhi)⟩
    have hnend : n.range.limit ≤ n.subtreeEnd := hend ▸ le_max_left _ _
    simp only [vmmRanges, AvlTree.inorder, List.mem_append, List.mem_cons] at hx
    simp only [vmmSubtreeStart, vmmSubtreeEnd]
    rcases hx with hx | rfl | hx
    · exact ⟨hsl.2 x hx, (hln x hx).trans (hlim.trans hnend)⟩
    · exact ⟨hsl.1, hnend⟩
    · exact ⟨hsl.1.trans (hlim.trans (hnr x hx)),
        (hr x hx).2.trans (hend ▸ le_max_right _ _)⟩

end Cached

/-! ## The gap search -/

lemma vmmAlignUp_eq {k a : ℕ} (hk : k ≤ 64) (h : alignUp (2 ^ k) a < word) :
    vmmAlignUp a (2 ^ k) = alignUp (2 ^ k) a := by
  have hpos : 0 < 2 ^ k := Nat.two_pow_pos k
  have hlt := add_pred_lt_of_alignUp_lt hk h
  have hmask : wsub (wadd a (2 ^ k)) 1 &&& wnot (2 ^ k - 1) = alignUp (2 ^ k) a := by
    rw [wsub_wadd_one (by omega), Nat.mod_eq_of_lt hlt, and_wnot_pred hk hlt]
    rfl
  rw [vmmAlignUp, hmask, if_neg (not_lt.mpr (le_alignUp hpos a))]

/-- `addr` is a place for `pages` pages among the ranges `L`: they fall apart into those that
end at `addr` or before, and those that start behind the new range. -/
def FitsAt (L : List VmmRange) (addr pages : ℕ) : Prop :=
  ∃ A B, L = A ++ B ∧ (∀ x ∈ A, x.limit ≤ addr) ∧ ∀ x ∈ B, addr + pages * pageSize ≤ x.start

/-- What the gap search promises of the address it returns.  `before` says that it does not
append: some range lies behind the gap. -/
structure GapAt (hi base pages align : ℕ) (L : List VmmRange) (addr : ℕ) : Prop where
  base_le : base ≤ addr
  dvd : align ∣ addr
  le : addr + pages * pageSize ≤ hi
  fits : FitsAt L addr pages
  before : ∃ x ∈ L, addr + pages * pageSize ≤ x.start

section Search

variable {hi base pages align addr : ℕ} {L R : List VmmRange} {x : VmmRange}

/-- A gap before some range on the left of `x` is a gap of the whole sequence. -/
lemma GapAt.append_right (hg : GapAt hi base pages align L addr)
    (hL : ∀ y ∈ L, y.limit ≤ x.start) (hR : ∀ y ∈ R, x.limit ≤ y.start) :
    GapAt hi base pages align (L ++ x :: R) addr := by
  obtain ⟨y, hy, hay⟩ := hg.before
  obtain ⟨A, B, rfl, hA, hB⟩ := hg.fits
  have hyx : addr + pages * pageSize ≤ x.start := by
    have : y.start ≤ y.limit := Nat.le_add_right _ _
    exact hay.trans (this.trans (hL y hy))
  refine ⟨hg.base_le, hg.dvd, hg.le, ⟨A, B ++ x :: R, by simp, hA, ?_⟩, y,
    List.mem_append_left _ hy, hay⟩
  intro z hz
  rcases List.mem_append.mp hz with hz | hz
  · exact hB z hz
  · rcases List.mem_cons.mp hz with rfl | hz
    · exact hyx
    · have : x.start ≤ x.limit := Nat.le_add_right _ _
      exact hyx.trans (this.trans (hR z hz))

/-- So is a gap on the right of `x` that was searched from a base behind `x`. -/
lemma GapAt.append_left {base' : ℕ} (hg : GapAt hi base' pages align R addr)
    (hbase : base ≤ base') (hL : ∀ y ∈ L, y.limit ≤ base') (hx : x.limit ≤ base') :
    GapAt hi base pages align (L ++ x :: R) addr := by
  obtain ⟨y, hy, hay⟩ := hg.before
  obtain ⟨A, B, rfl, hA, hB⟩ := hg.fits
  refine ⟨hbase.trans hg.base_le, hg.dvd, hg.le, ⟨L ++ x :: A, B, by simp, ?_, hB⟩, y,
    by simp at hy ⊢; tauto, hay⟩
  intro z hz
  rcases List.mem_append.mp hz with hz | hz
  · exact (hL z hz).trans hg.base_le
  · rcases List.mem_cons.mp hz with rfl | hz
    · exact hx.trans hg.base_le
    · exact hA z hz

end Search

section Descent

variable {hi top pages k : ℕ} (hhi : hi < word) (hk : k ≤ 64)
  (htop : alignUp (2 ^ k) top + pages * pageSize < word)
include hk htop

lemma vmmAlignUp_of_le {base : ℕ} (hb : base ≤ top) :
    vmmAlignUp base (2 ^ k) = alignUp (2 ^ k) base := by
  have hmono : alignUp (2 ^ k) base ≤ alignUp (2 ^ k) top := alignUp_mono hb
  exact vmmAlignUp_eq hk (by omega)

lemma search_end {base : ℕ} (hb : base ≤ top) :
    wadd (vmmAlignUp base (2 ^ k)) (wmul pages pageSize) =
      alignUp (2 ^ k) base + pages * pageSize := by
  have hmono : alignUp (2 ^ k) base ≤ alignUp (2 ^ k) top := alignUp_mono hb
  rw [vmmAlignUp_of_le hk htop hb, wmul_of_lt (by omega), wadd_of_lt (by omega)]

include hhi

/-- What the descent finds is a place for the pages, at `base` or later, aligned and inside
the pool. -/
lemma vmmFindGap_spec {t : AvlTree VmmNode} {base : ℕ} (ht : t.Current vmmAvlCb)
    (ha : Apart hi (vmmRanges t)) (hle : ∀ x ∈ vmmRanges t, x.limit ≤ top) (hb : base ≤ top)
    (hne : vmmFindGap hi pages (2 ^ k) t base ≠ 0) :
    GapAt hi base pages (2 ^ k) (vmmRanges t) (vmmFindGap hi pages (2 ^ k) t base) := by
  have hpos : 0 < 2 ^ k := Nat.two_pow_pos k
  have htopw : top < word := by
    have := le_alignUp hpos top
    omega
  induction t generalizing base with
  | nil => exact absurd rfl hne
  | node l n h r ihl ihr =>
    obtain ⟨hal, har, hln, hnr⟩ := ha.of_node
    have hranges : vmmRanges (.node l n h r) = vmmRanges l ++ n.range :: vmmRanges r := rfl
    have hmem : n.range ∈ vmmRanges (.node l n h r) := by simp [hranges]
    have hltop : ∀ x ∈ vmmRanges l, x.limit ≤ top := fun x hx => hle x (by simp [hranges, hx])
    have hrtop : ∀ x ∈ vmmRanges r, x.limit ≤ top := fun x hx => hle x (by simp [hranges, hx])
    obtain ⟨hbounds, -⟩ := cached_bounds hhi ht ha
    obtain ⟨hlend, hlendtop⟩ := cached_bounds htopw ht.2.1 ⟨hal.pos, hltop, hal.sorted⟩
    rw [vmmFindGap] at hne ⊢
    -- the base the node itself is searched from, behind the left subtree
    generalize hb' : (if l ≠ .nil ∧ vmmSubtreeEnd l > base then vmmSubtreeEnd l else base) = b
      at hne ⊢
    have hbb : base ≤ b ∧ b ≤ top ∧ ∀ x ∈ vmmRanges l, x.limit ≤ b := by
      rw [← hb']
      split_ifs with hl
      · exact ⟨hl.2.le, hlendtop, fun x hx => (hlend x hx).2⟩
      · refine ⟨le_rfl, hb, fun x hx => ?_⟩
        have hlne : l ≠ .nil := by
          rintro rfl
          exact absurd hx (by simp [vmmRanges, AvlTree.inorder])
        exact (hlend x hx).2.trans (not_lt.mp fun hgt => hl ⟨hlne, hgt⟩)
    simp only [search_end hk htop hb, search_end hk htop hbb.2.1,
      nend_eq htopw (hle _ hmem)] at hne ⊢
    split_ifs at hne ⊢ with hbefore hfit hprune hleft hfitn hfit hnb
    · -- before the whole subtree
      rw [vmmAlignUp_of_le hk htop hb]
      exact ⟨le_alignUp hpos base, dvd_alignUp _ _, hfit,
        ⟨[], _, rfl, by simp, fun x hx => hbefore.trans (hbounds x hx).1⟩,
        n.range, hmem, hbefore.trans (hbounds _ hmem).1⟩
    · exact absurd rfl hne
    · exact absurd rfl hne
    · exact (ihl ht.2.1 hal hltop hb hleft).append_right hln hnr
    · -- between the left subtree and the node
      rw [vmmAlignUp_of_le hk htop hbb.2.1]
      refine ⟨hbb.1.trans (le_alignUp hpos b), dvd_alignUp _ _, hfit,
        ⟨_, _, hranges, fun x hx => (hbb.2.2 x hx).trans (le_alignUp hpos b), ?_⟩,
        n.range, hmem, hfitn⟩
      intro x hx
      rcases List.mem_cons.mp hx with rfl | hx
      · exact hfitn
      · have : n.start ≤ n.range.limit := Nat.le_add_right _ _
        exact hfitn.le.trans (this.trans (hnr x hx))
    · exact absurd rfl hne
    · -- behind the node
      exact (ihr ht.2.2 har hrtop (hle _ hmem) hne).append_left (hbb.1.trans hnb.le)
        (fun x hx => (hbb.2.2 x hx).trans hnb.le) le_rfl
    · exact (ihr ht.2.2 har hrtop hbb.2.1 hne).append_left hbb.1 hbb.2.2 (not_lt.mp hnb)

end Descent

/-! ## Runs -/

/-- A range allocated and not yet freed, with the alignment asked for. -/
structure VmmLive where
  range : VmmRange
  align : ℕ
  deriving DecidableEq, Repr

/-- No pool address that a search can round up, with the request behind it, wraps.  The
search rounds the base of the pool and the ends of live ranges. -/
def NoWrap (s : Vmm) (live : List VmmLive) (count align : ℕ) : Prop :=
  ∀ a, a = s.poolBase ∨ a ∈ live.map (fun x => x.range.limit) →
    alignUp align a + count * pageSize < word

/-- The states a sequence of calls reaches without a panic, with the live ranges there. -/
inductive VmmRun (hhdmOffset maxRam level : ℕ) : Vmm → List VmmLive → Prop
  | init : VmmRun hhdmOffset maxRam level (vmmInit hhdmOffset maxRam level) []
  | allocAligned {s s' : Vmm} {live : List VmmLive} {malloc : Bool} {count k addr : ℕ} :
      VmmRun hhdmOffset maxRam level s live → 1 ≤ count → 12 ≤ k → k < 64 →
      NoWrap s live count (2 ^ k) → vmmAllocAligned malloc count (2 ^ k) s = some (addr, s') →
      VmmRun hhdmOffset maxRam level s' (⟨⟨addr, count⟩, 2 ^ k⟩ :: live)
  | allocPages {s s' : Vmm} {live : List VmmLive} {malloc : Bool} {count addr : ℕ} :
      VmmRun hhdmOffset maxRam level s live → 1 ≤ count →
      NoWrap s live count pageSize → vmmAllocPages malloc count s = some (addr, s') →
      VmmRun hhdmOffset maxRam level s' (⟨⟨addr, count⟩, pageSize⟩ :: live)
  | allocPages2mb {s s' : Vmm} {live : List VmmLive} {malloc : Bool} {count addr : ℕ} :
      VmmRun hhdmOffset maxRam level s live → 1 ≤ count →
      NoWrap s live count pageSize2mb → vmmAllocPages2mb malloc count s = some (addr, s') →
      VmmRun hhdmOffset maxRam level s' (⟨⟨addr, count⟩, pageSize2mb⟩ :: live)
  | freePages {s : Vmm} {live : List VmmLive} {x : VmmLive} :
      VmmRun hhdmOffset maxRam level s live → x ∈ live →
      VmmRun hhdmOffset maxRam level (vmmFreePages x.range.start x.range.count s).2
        (live.erase x)

/-- **The invariant**: the tree holds the live ranges, in address order, apart and inside the
pool, and caches the truth about them. -/
structure VmmInv (s : Vmm) (live : List VmmLive) : Prop where
  base_pos : 0 < s.poolBase
  end_lt : s.poolEnd < word
  current : s.root.Current vmmAvlCb
  apart : Apart s.poolEnd (vmmRanges s.root)
  base_le : ∀ r ∈ vmmRanges s.root, s.poolBase ≤ r.start
  perm : (vmmRanges s.root).Perm (live.map VmmLive.range)
  aligned : ∀ x ∈ live, x.align ∣ x.range.start

lemma vmmInv_init {hhdmOffset maxRam level : ℕ} (h : wadd hhdmOffset maxRam ≠ 0) :
    VmmInv (vmmInit hhdmOffset maxRam level) [] where
  base_pos := Nat.pos_of_ne_zero h
  end_lt := by
    simp only [vmmInit, word]
    split_ifs <;> omega
  current := trivial
  apart := ⟨by simp [vmmInit, vmmRanges, AvlTree.inorder],
    by simp [vmmInit, vmmRanges, AvlTree.inorder], List.Pairwise.nil⟩
  base_le := by simp [vmmInit, vmmRanges, AvlTree.inorder]
  perm := List.Perm.nil
  aligned := by simp

/-- Among the base and the ends of finitely many ranges there is a last one. -/
lemma exists_top (base : ℕ) (L : List VmmRange) :
    ∃ top, (top = base ∨ top ∈ L.map VmmRange.limit) ∧ base ≤ top ∧ ∀ r ∈ L, r.limit ≤ top := by
  induction L with
  | nil => exact ⟨base, by simp⟩
  | cons x L ih =>
    obtain ⟨top, hmem, hbase, hle⟩ := ih
    by_cases hx : x.limit ≤ top
    · refine ⟨top, ?_, hbase, List.forall_mem_cons.mpr ⟨hx, hle⟩⟩
      rcases hmem with h | h
      · exact .inl h
      · exact .inr (List.mem_cons_of_mem _ h)
    · have hlt := not_le.mp hx
      exact ⟨x.limit, .inr (by simp), hbase.trans hlt.le,
        List.forall_mem_cons.mpr ⟨le_rfl, fun r hr => (hle r hr).trans hlt.le⟩⟩

/-- The end of the last range, from where the allocator appends. -/
lemma tail_bounds {s : Vmm} {live : List VmmLive} {top : ℕ} (hinv : VmmInv s live)
    (htop : top < word) (hbase : s.poolBase ≤ top) (hle : ∀ r ∈ vmmRanges s.root, r.limit ≤ top) :
    s.poolBase ≤ (if s.root ≠ .nil then vmmSubtreeEnd s.root else s.poolBase) ∧
      (if s.root ≠ .nil then vmmSubtreeEnd s.root else s.poolBase) ≤ top ∧
      ∀ r ∈ vmmRanges s.root,
        r.limit ≤ (if s.root ≠ .nil then vmmSubtreeEnd s.root else s.poolBase) := by
  obtain ⟨hbounds, hend⟩ :=
    cached_bounds htop hinv.current ⟨hinv.apart.pos, hle, hinv.apart.sorted⟩
  have hbase_le := hinv.base_le
  cases hroot : s.root with
  | nil => simpa [vmmRanges, AvlTree.inorder] using hbase
  | node l n h r =>
    rw [hroot] at hbounds hend hbase_le
    rw [if_pos (by simp)]
    have hmem : n.range ∈ vmmRanges (.node l n h r) := by simp [vmmRanges, AvlTree.inorder]
    have hlim : n.range.start ≤ n.range.limit := Nat.le_add_right _ _
    exact ⟨(hbase_le _ hmem).trans (hlim.trans (hbounds _ hmem).2), hend,
      fun x hx => (hbounds x hx).2⟩

/-- An allocation that does not panic takes a place that is free, and stores it. -/
lemma vmmAllocAligned_spec {s s' : Vmm} {live : List VmmLive} {malloc : Bool}
    {count k addr : ℕ} (hinv : VmmInv s live) (hcount : 1 ≤ count) (hk : k < 64)
    (hwrap : NoWrap s live count (2 ^ k))
    (h : vmmAllocAligned malloc count (2 ^ k) s = some (addr, s')) :
    s.poolBase ≤ addr ∧ 2 ^ k ∣ addr ∧ addr + count * pageSize ≤ s.poolEnd ∧
      FitsAt (vmmRanges s.root) addr count ∧ s'.poolBase = s.poolBase ∧ s'.poolEnd = s.poolEnd ∧
      s'.root = s.root.avlInsert vmmAvlCb
        { VmmNode.zero with start := addr, pageCount := count } := by
  have hpos : 0 < 2 ^ k := Nat.two_pow_pos k
  obtain ⟨top, htopmem, hbase, hle⟩ := exists_top s.poolBase (vmmRanges s.root)
  have htop : alignUp (2 ^ k) top + count * pageSize < word := by
    refine hwrap top (htopmem.imp id fun hmem => ?_)
    have := (hinv.perm.map VmmRange.limit).mem_iff.mp hmem
    simpa [List.map_map] using this
  have htopw : top < word := by
    have := le_alignUp hpos top
    omega
  obtain ⟨htail, htailtop, htaille⟩ := tail_bounds hinv htopw hbase hle
  have hgap := vmmFindGap_spec hinv.end_lt hk.le htop hinv.current hinv.apart hle hbase
  rw [vmmAllocAligned, if_neg (by omega)] at h
  simp only [vmmAlignUp_of_le hk.le htop htailtop] at h
  generalize (if s.root ≠ .nil then vmmSubtreeEnd s.root else s.poolBase) = tail at *
  have halign : alignUp (2 ^ k) tail ≤ alignUp (2 ^ k) top := alignUp_mono htailtop
  have htail' := le_alignUp hpos tail
  rw [if_neg (not_lt.mpr (htail.trans htail'))] at h
  -- the address chosen, before the pool's end is checked
  obtain ⟨a, ha, hle_a, hdvd, hfits, hlt⟩ : ∃ a, (if vmmFindGap s.poolEnd count (2 ^ k) s.root
      s.poolBase = 0 then alignUp (2 ^ k) tail else vmmFindGap s.poolEnd count (2 ^ k) s.root
      s.poolBase) = a ∧ s.poolBase ≤ a ∧ 2 ^ k ∣ a ∧ FitsAt (vmmRanges s.root) a count ∧
      a + count * pageSize < word := by
    refine ⟨_, rfl, ?_⟩
    split_ifs with hfound
    · exact ⟨htail.trans htail', dvd_alignUp _ _,
        ⟨_, [], (List.append_nil _).symm, fun r hr => (htaille r hr).trans htail', by simp⟩,
        by omega⟩
    · have hg := hgap hfound
      have := hg.le
      have := hinv.end_lt
      exact ⟨hg.base_le, hg.dvd, hg.fits, by omega⟩
  rw [ha, wmul_of_lt (by omega), wadd_of_lt hlt] at h
  split_ifs at h with hend
  simp only [poolAllocNode] at h
  split_ifs at h
  all_goals
    simp only [Option.bind_eq_bind, Option.bind_some, Option.bind_none, reduceCtorEq,
      Option.some.injEq, Prod.mk.injEq] at h
  all_goals
    obtain ⟨rfl, rfl⟩ := h
    exact ⟨hle_a, hdvd, not_lt.mp hend, hfits, rfl, rfl, rfl⟩

/-- A node for a range comes from the early pool, if the heap gives none. -/
lemma vmmAllocAligned_early {s s' : Vmm} {count align addr : ℕ} (hcount : 1 ≤ count)
    (h : vmmAllocAligned false count align s = some (addr, s')) :
    s'.earlyPoolCount = s.earlyPoolCount + 1 ∧ s.earlyPoolCount < vmmEarlyPool := by
  obtain ⟨n, t, hnode, heq⟩ : ∃ n t, poolAllocNode false s = some (n, t) ∧
      s'.earlyPoolCount = t.earlyPoolCount := by
    rw [vmmAllocAligned, if_neg (by omega)] at h
    dsimp only at h
    split_ifs at h
    all_goals
      obtain ⟨⟨n, t⟩, hnode, h⟩ := Option.bind_eq_some_iff.mp h
      obtain ⟨-, rfl⟩ := Prod.mk.inj (Option.some.inj h)
      exact ⟨n, t, hnode, rfl⟩
  rw [heq]
  rw [poolAllocNode, if_neg Bool.false_ne_true] at hnode
  split_ifs at hnode with hheap hearly
  obtain ⟨-, rfl⟩ := Prod.mk.inj (Option.some.inj hnode)
  exact ⟨rfl, not_le.mp hearly⟩

/-- A range that fits goes between the ranges in front of it and those behind it. -/
lemma Apart.insertByKey {hi addr count : ℕ} {A B : List VmmRange} (h : Apart hi (A ++ B))
    (hcount : 1 ≤ count) (hend : addr + count * pageSize ≤ hi)
    (hA : ∀ x ∈ A, x.limit ≤ addr) (hB : ∀ x ∈ B, addr + count * pageSize ≤ x.start) :
    insertByKey VmmRange.start ⟨addr, count⟩ (A ++ B) = A ++ ⟨addr, count⟩ :: B ∧
      Apart hi (A ++ ⟨addr, count⟩ :: B) := by
  have hsize : 0 < count * pageSize := by
    simp only [pageSize]
    omega
  have hlt : ∀ z ∈ A, z.start < addr := by
    intro z hz
    have hzpos := h.pos z (List.mem_append_left _ hz)
    have hzle := hA z hz
    simp only [VmmRange.limit, pageSize] at hzle
    omega
  refine ⟨?_, fun r hr => ?_, fun r hr => ?_, ?_⟩
  · rw [insertByKey_append_of_forall_lt hlt]
    congr 1
    cases B with
    | nil => rfl
    | cons y B =>
      have hy := hB y (by simp)
      rw [Cuore.insertByKey, if_pos (by change addr < y.start; omega)]
  · rcases List.mem_append.mp hr with hr | hr
    · exact h.pos r (List.mem_append_left _ hr)
    · rcases List.mem_cons.mp hr with rfl | hr
      · exact hcount
      · exact h.pos r (List.mem_append_right _ hr)
  · rcases List.mem_append.mp hr with hr | hr
    · exact h.le r (List.mem_append_left _ hr)
    · rcases List.mem_cons.mp hr with rfl | hr
      · exact hend
      · exact h.le r (List.mem_append_right _ hr)
  · obtain ⟨hsA, hsB, hsAB⟩ := List.pairwise_append.mp h.sorted
    refine List.pairwise_append.mpr ⟨hsA, List.pairwise_cons.mpr ⟨hB, hsB⟩, fun r hr t ht => ?_⟩
    rcases List.mem_cons.mp ht with rfl | ht
    · exact hA r hr
    · exact hsAB r hr t ht

/-- The step of the invariant at an allocation. -/
lemma VmmInv.allocAligned {s s' : Vmm} {live : List VmmLive} {malloc : Bool} {count k addr : ℕ}
    (hinv : VmmInv s live) (hcount : 1 ≤ count) (hk : k < 64)
    (hwrap : NoWrap s live count (2 ^ k))
    (h : vmmAllocAligned malloc count (2 ^ k) s = some (addr, s')) :
    VmmInv s' (⟨⟨addr, count⟩, 2 ^ k⟩ :: live) := by
  obtain ⟨hbase, hdvd, hend, ⟨A, B, hAB, hA, hB⟩, hb', he', hroot⟩ :=
    vmmAllocAligned_spec hinv hcount hk hwrap h
  obtain ⟨hinsert, hapart⟩ := (hAB ▸ hinv.apart).insertByKey hcount hend hA hB
  have hranges : vmmRanges s'.root = A ++ ⟨addr, count⟩ :: B := by
    rw [hroot, vmmRanges, AvlTree.inorder_avlInsert vmmAvlCb_lawful hinv.apart.sorted_start]
    change insertByKey VmmRange.start ⟨addr, count⟩ (vmmRanges s.root) = _
    rw [hAB]
    exact hinsert
  refine ⟨hb' ▸ hinv.base_pos, he' ▸ hinv.end_lt, ?_, hranges ▸ he' ▸ hapart, ?_, ?_, ?_⟩
  · rw [hroot]
    exact AvlTree.current_avlInsert vmmNodeUpdate_idem hinv.current _
  · intro r hr
    rw [hranges, List.mem_append, List.mem_cons] at hr
    rw [hb']
    rcases hr with hr | rfl | hr
    · exact hinv.base_le r (hAB ▸ List.mem_append_left _ hr)
    · exact hbase
    · exact hinv.base_le r (hAB ▸ List.mem_append_right _ hr)
  · rw [hranges]
    exact List.perm_middle.trans ((hAB ▸ hinv.perm).cons _)
  · exact List.forall_mem_cons.mpr ⟨hdvd, hinv.aligned⟩

/-- The step of the invariant at a free of a live range. -/
lemma VmmInv.freePages {s : Vmm} {live : List VmmLive} {x : VmmLive} (hinv : VmmInv s live)
    (hx : x ∈ live) :
    VmmInv (vmmFreePages x.range.start x.range.count s).2 (live.erase x) := by
  have hxmem : x.range ∈ vmmRanges s.root :=
    hinv.perm.mem_iff.mpr (List.mem_map_of_mem hx)
  have hstart : x.range.start ≠ 0 := by
    have := hinv.base_le _ hxmem
    have := hinv.base_pos
    omega
  have hroot : s.root ≠ .nil := by
    intro hnil
    rw [hnil] at hxmem
    exact absurd hxmem (by simp [vmmRanges, AvlTree.inorder])
  -- whatever the node stored, the state afterwards is the old one with the key deleted
  obtain ⟨hbase, hend, hdel⟩ :
      (vmmFreePages x.range.start x.range.count s).2.poolBase = s.poolBase ∧
      (vmmFreePages x.range.start x.range.count s).2.poolEnd = s.poolEnd ∧
      (vmmFreePages x.range.start x.range.count s).2.root =
        (s.root.avlDelete vmmAvlCb { VmmNode.zero with start := x.range.start }).1 := by
    simp only [vmmFreePages, if_neg hstart, if_neg hroot]
    split
    · exact ⟨rfl, rfl, rfl⟩
    · simp only [poolFreeNode]
      split_ifs <;> exact ⟨rfl, rfl, rfl⟩
  have hranges : vmmRanges (vmmFreePages x.range.start x.range.count s).2.root =
      (vmmRanges s.root).filter (fun r => r.start ≠ x.range.start) := by
    rw [hdel, vmmRanges, AvlTree.inorder_avlDelete vmmAvlCb_lawful hinv.apart.sorted_start]
    rfl
  have hsub : (vmmRanges (vmmFreePages x.range.start x.range.count s).2.root).Sublist
      (vmmRanges s.root) := by
    rw [hranges]
    exact List.filter_sublist
  -- the other live ranges start elsewhere
  have hsplit : (live.map VmmLive.range).Perm
      (x.range :: (live.erase x).map VmmLive.range) := (List.perm_cons_erase hx).map _
  have hother : ∀ r ∈ (live.erase x).map VmmLive.range, r.start ≠ x.range.start := by
    have hne : (vmmRanges s.root).Pairwise fun r t => r.start ≠ t.start :=
      hinv.apart.sorted_start.imp fun h => ne_of_lt h
    have hne' := ((hinv.perm.trans hsplit).pairwise_iff Ne.symm).mp hne
    exact fun r hr => ((List.pairwise_cons.mp hne').1 r hr).symm
  refine ⟨hbase ▸ hinv.base_pos, hend ▸ hinv.end_lt, ?_, hend ▸ hinv.apart.sublist hsub,
    fun r hr => hbase ▸ hinv.base_le r (hsub.subset hr), ?_,
    fun y hy => hinv.aligned y (List.mem_of_mem_erase hy)⟩
  · rw [hdel]
    exact AvlTree.current_avlDelete vmmNodeUpdate_idem hinv.current _
  · rw [hranges]
    refine ((hinv.perm.trans hsplit).filter _).trans ?_
    rw [List.filter_cons_of_neg (by simp), List.filter_eq_self.mpr]
    intro r hr
    simpa using hother r hr

/-- The invariant holds along every run. -/
lemma vmmInv_of_run {hhdmOffset maxRam level : ℕ} (h : wadd hhdmOffset maxRam ≠ 0) {s : Vmm}
    {live : List VmmLive} (hrun : VmmRun hhdmOffset maxRam level s live) : VmmInv s live := by
  induction hrun with
  | init => exact vmmInv_init h
  | allocAligned _ hcount _ hk hwrap hres ih => exact ih.allocAligned hcount hk hwrap hres
  | allocPages _ hcount hwrap hres ih =>
    exact ih.allocAligned (k := 12) hcount (by decide) hwrap hres
  | allocPages2mb _ hcount hwrap hres ih =>
    exact ih.allocAligned (k := 21) hcount (by decide) hwrap hres
  | freePages _ hx ih => exact ih.freePages hx

/-- **Virtual ranges never overlap.**  In every state a run reaches, the live ranges are
pairwise disjoint, aligned as requested and inside the pool, and the in-order sequence of the
tree is exactly the live ranges sorted by start.  The one assumption on the boot parameters is
that the pool does not start at the null address, which the entry points use for failure. -/
theorem vmm_ranges_disjoint {hhdmOffset maxRam level : ℕ} (hpool : wadd hhdmOffset maxRam ≠ 0)
    {s : Vmm} {live : List VmmLive} (hrun : VmmRun hhdmOffset maxRam level s live) :
    (live.Pairwise fun x y =>
        x.range.limit ≤ y.range.start ∨ y.range.limit ≤ x.range.start) ∧
      (∀ x ∈ live, x.align ∣ x.range.start ∧ s.poolBase ≤ x.range.start ∧
        x.range.limit ≤ s.poolEnd) ∧
      (vmmRanges s.root).Perm (live.map VmmLive.range) ∧
      (vmmRanges s.root).Pairwise fun r t => r.start < t.start := by
  have hinv := vmmInv_of_run hpool hrun
  have hmem : ∀ x ∈ live, x.range ∈ vmmRanges s.root := fun x hx =>
    hinv.perm.mem_iff.mpr (List.mem_map_of_mem hx)
  refine ⟨?_, fun x hx => ⟨hinv.aligned x hx, hinv.base_le _ (hmem x hx),
    hinv.apart.le _ (hmem x hx)⟩, hinv.perm, hinv.apart.sorted_start⟩
  have hdisj : (vmmRanges s.root).Pairwise fun r t => r.limit ≤ t.start ∨ t.limit ≤ r.start :=
    hinv.apart.sorted.imp Or.inl
  have := (hinv.perm.pairwise_iff Or.symm).mp hdisj
  exact List.pairwise_map.mp this

/-- Three pages at the base of the pool and a 2 MiB page, in the order of `VmmRun`. -/
def bootLive : List VmmLive :=
  [⟨⟨0xFFFF800080200000, 512⟩, pageSize2mb⟩, ⟨⟨0xFFFF800080000000, 3⟩, pageSize⟩]

/-- With 2 GiB of RAM, three pages at the base of the pool, a 2 MiB page at the next 2 MiB
boundary, and the three pages freed again. -/
theorem vmm_ranges_disjoint_boot :
    wadd 0xFFFF800000000000 0x80000000 ≠ 0 ∧
    (∃ s, VmmRun 0xFFFF800000000000 0x80000000 4 s bootLive ∧
      (bootLive.Pairwise fun x y =>
        x.range.limit ≤ y.range.start ∨ y.range.limit ≤ x.range.start) ∧
      (∀ x ∈ bootLive, x.align ∣ x.range.start ∧ s.poolBase ≤ x.range.start ∧
        x.range.limit ≤ s.poolEnd) ∧
      (vmmRanges s.root).Perm (bootLive.map VmmLive.range) ∧
      (vmmRanges s.root).Pairwise fun r t => r.start < t.start) ∧
    ∃ s, VmmRun 0xFFFF800000000000 0x80000000 4 s [⟨⟨0xFFFF800080200000, 512⟩, pageSize2mb⟩] ∧
      (vmmRanges s.root).Perm [⟨0xFFFF800080200000, 512⟩] := by
  let s₀ := vmmInit 0xFFFF800000000000 0x80000000 4
  let s₁ := ((vmmAllocPages false 3 s₀).getD (0, s₀)).2
  let s₂ := ((vmmAllocPages2mb false 512 s₁).getD (0, s₀)).2
  have halloc₁ : vmmAllocPages false 3 s₀ = some (0xFFFF800080000000, s₁) := by decide +kernel
  have halloc₂ : vmmAllocPages2mb false 512 s₁ = some (0xFFFF800080200000, s₂) := by
    decide +kernel
  have hwrap₁ : NoWrap s₀ [] 3 pageSize := by
    rintro a (ha | ha)
    · rw [ha]
      decide +kernel
    · simp at ha
  have hwrap₂ : NoWrap s₁ [⟨⟨0xFFFF800080000000, 3⟩, pageSize⟩] 512 pageSize2mb := by
    rintro a (ha | ha)
    · rw [ha]
      decide +kernel
    · rw [show a = 0xFFFF800080003000 by simpa [VmmRange.limit, pageSize] using ha]
      decide +kernel
  have htwo : VmmRun 0xFFFF800000000000 0x80000000 4 s₂ bootLive :=
    (VmmRun.init.allocPages (by decide) hwrap₁ halloc₁).allocPages2mb (by decide) hwrap₂ halloc₂
  have hone := htwo.freePages (x := ⟨⟨0xFFFF800080000000, 3⟩, pageSize⟩) (by simp [bootLive])
  have hpool : wadd 0xFFFF800000000000 0x80000000 ≠ 0 := by decide
  have hlive : bootLive.erase ⟨⟨0xFFFF800080000000, 3⟩, pageSize⟩ =
      [⟨⟨0xFFFF800080200000, 512⟩, pageSize2mb⟩] := by decide
  rw [hlive] at hone
  exact ⟨hpool, ⟨s₂, htwo, vmm_ranges_disjoint hpool htwo⟩, _, hone,
    (vmm_ranges_disjoint hpool hone).2.2.1⟩

end Cuore
