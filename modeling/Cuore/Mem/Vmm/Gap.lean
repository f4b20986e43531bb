import Cuore.Mem.Vmm
import Cuore.Framework.FirstFit
import Cuore.Framework.Gaps

/-!
# The gap search is a first fit

`vmm_find_gap` descends a tree, and leaves out the subtrees whose largest gap is too small.  The
cached fields are exact: a subtree starts where its first range does, ends where its last one does,
and its largest gap between two neighbours is `max_gap`.  So nothing is missed, and the search finds
what a scan of the ranges from the base of the pool finds (`vmmFindGap_eq`).

The ends that the search compares are computed on 64-bit words.  `SearchOk` says that they do not
mislead it: wherever the wrapped end of the request lies in front of the next range, the true end
does.
-/

namespace Cuore

/-! ## The cached fields are exact -/

/-- The whole pages between a range and the one behind it. -/
def pagesBetween (x y : VmmRange) : ℕ := (y.start - x.limit) / pageSize

/-- `gap_il` in `vmm_node_update`, for the left subtree of a node. -/
def vmmGapIl (n : VmmNode) : AvlTree VmmNode → ℕ
  | .nil => 0
  | .node _ l _ _ => if n.start ≥ l.subtreeEnd then wsub n.start l.subtreeEnd / pageSize else 0

/-- `gap_ir` in `vmm_node_update`, for the right subtree of a node that ends at `nend`. -/
def vmmGapIr (nend : ℕ) : AvlTree VmmNode → ℕ
  | .nil => 0
  | .node _ r _ _ => if r.subtreeStart ≥ nend then wsub r.subtreeStart nend / pageSize else 0

lemma maxGap_vmmNodeUpdate (l : AvlTree VmmNode) (n : VmmNode) (r : AvlTree VmmNode) :
    (vmmNodeUpdate l n r).maxGap = max (max (vmmMaxGap l) (vmmMaxGap r))
      (max (vmmGapIl n l) (vmmGapIr (wadd n.start (wmul n.pageCount pageSize)) r)) := rfl

section Cached

variable {hi : ℕ} (hhi : hi < word)
include hhi

lemma vmmSubtreeStart_eq {t : AvlTree VmmNode} (ht : t.Current vmmAvlCb)
    (ha : Apart hi (vmmRanges t)) : ∀ x ∈ (vmmRanges t).head?, vmmSubtreeStart t = x.start := by
  induction t with
  | nil => simp [vmmRanges, AvlTree.inorder]
  | node l n h r ihl =>
    have hn : n.range.limit ≤ hi := ha.le _ (by simp [vmmRanges, AvlTree.inorder])
    obtain ⟨hstart, -⟩ := cached_node hhi ht hn
    intro x hx
    rw [vmmSubtreeStart, hstart]
    cases l with
    | nil =>
      obtain rfl : n.range = x := by simpa [vmmRanges, AvlTree.inorder] using hx
      rw [if_pos rfl]
      rfl
    | node ll ln lh lr =>
      rw [if_neg (by simp)]
      apply ihl ht.2.1 ha.of_node.1 x
      change x ∈ (vmmRanges (.node ll ln lh lr) ++ n.range :: vmmRanges r).head? at hx
      rwa [List.head?_append_of_ne_nil _ (by simp [vmmRanges, AvlTree.inorder])] at hx

lemma vmmSubtreeEnd_eq {t : AvlTree VmmNode} (ht : t.Current vmmAvlCb)
    (ha : Apart hi (vmmRanges t)) (hne : t ≠ .nil) (base : ℕ) :
    vmmSubtreeEnd t = lastLimit VmmRange.limit base (vmmRanges t) := by
  induction t generalizing base with
  | nil => exact absurd rfl hne
  | node l n h r _ ihr =>
    have hn : n.range.limit ≤ hi := ha.le _ (by simp [vmmRanges, AvlTree.inorder])
    obtain ⟨-, hend⟩ := cached_node hhi ht hn
    change n.subtreeEnd = lastLimit VmmRange.limit base (vmmRanges l ++ n.range :: vmmRanges r)
    rw [lastLimit_append, lastLimit, hend]
    cases r with
    | nil => simp [vmmSubtreeEnd, vmmRanges, AvlTree.inorder, lastLimit]
    | node rl rn rh rr =>
      obtain ⟨-, har, -, hnr⟩ := ha.of_node
      have hr := ihr ht.2.2 har (by simp) n.range.limit
      have hmem : rn.range ∈ vmmRanges (.node rl rn rh rr) := by simp [vmmRanges, AvlTree.inorder]
      have hlim : rn.range.start ≤ rn.range.limit := Nat.le_add_right _ _
      rw [← hr]
      refine max_eq_right ((hnr _ hmem).trans (hlim.trans ?_))
      exact ((cached_bounds hhi ht.2.2 har).1 _ hmem).2

lemma vmmGapIl_eq {t : AvlTree VmmNode} {n : VmmNode} (ht : t.Current vmmAvlCb)
    (ha : Apart hi (vmmRanges t)) (hle : ∀ x ∈ vmmRanges t, x.limit ≤ n.start)
    (hn : n.start < word) : vmmGapIl n t = gapBefore pagesBetween (vmmRanges t) n.range := by
  cases t with
  | nil => rfl
  | node l m h r =>
    obtain ⟨x, hx⟩ : ∃ x, x ∈ (vmmRanges (.node l m h r)).getLast? :=
      ⟨_, List.getLast?_eq_some_getLast (by simp [vmmRanges, AvlTree.inorder])⟩
    have hend := vmmSubtreeEnd_eq hhi ht ha (by simp) 0
    rw [lastLimit_of_getLast hx] at hend
    change m.subtreeEnd = x.limit at hend
    have hxn := hle x (List.mem_of_mem_getLast? hx)
    rw [gapBefore, Option.mem_def.mp hx, vmmGapIl, hend, if_pos hxn, wsub_of_le hxn hn]
    rfl

lemma vmmGapIr_eq {t : AvlTree VmmNode} {n : VmmNode} (ht : t.Current vmmAvlCb)
    (ha : Apart hi (vmmRanges t)) (hle : ∀ x ∈ vmmRanges t, n.range.limit ≤ x.start) :
    vmmGapIr n.range.limit t = gapBehind pagesBetween n.range (vmmRanges t) := by
  cases t with
  | nil => rfl
  | node l m h r =>
    obtain ⟨x, hx⟩ : ∃ x, x ∈ (vmmRanges (.node l m h r)).head? :=
      ⟨_, List.head?_eq_some_head (by simp [vmmRanges, AvlTree.inorder])⟩
    have hstart := vmmSubtreeStart_eq hhi ht ha x hx
    change m.subtreeStart = x.start at hstart
    have hnx := hle x (List.mem_of_mem_head? hx)
    have hxlt : x.start < word := by
      have hlim : x.start ≤ x.limit := Nat.le_add_right _ _
      exact lt_of_le_of_lt (hlim.trans (ha.le x (List.mem_of_mem_head? hx))) hhi
    rw [gapBehind, Option.mem_def.mp hx, vmmGapIr, hstart, if_pos hnx, wsub_of_le hnx hxlt]
    rfl

/-- **`max_gap` is the largest gap** of a subtree. -/
lemma vmmMaxGap_eq {t : AvlTree VmmNode} (ht : t.Current vmmAvlCb)
    (ha : Apart hi (vmmRanges t)) : vmmMaxGap t = largestGap pagesBetween (vmmRanges t) := by
  induction t with
  | nil => rfl
  | node l n h r ihl ihr =>
    obtain ⟨hal, har, hln, hnr⟩ := ha.of_node
    have hn : n.range.limit ≤ hi := ha.le _ (by simp [vmmRanges, AvlTree.inorder])
    have hupd : vmmNodeUpdate l n r = n := by
      have := ht.1
      simp only [AvlTree.updateNode, AvlTree.node.injEq] at this
      exact this.2.1
    have hnw : n.start < word := by
      have hlim : n.start ≤ n.range.limit := Nat.le_add_right _ _
      exact lt_of_le_of_lt (hlim.trans hn) hhi
    have hgap : (vmmNodeUpdate l n r).maxGap = n.maxGap := by rw [hupd]
    rw [maxGap_vmmNodeUpdate, nend_eq hhi hn, vmmGapIl_eq hhi ht.2.1 hal hln hnw,
      vmmGapIr_eq hhi ht.2.2 har hnr, ihl ht.2.1 hal, ihr ht.2.2 har] at hgap
    change n.maxGap = largestGap pagesBetween (vmmRanges l ++ n.range :: vmmRanges r)
    rw [largestGap_append_cons, hgap]

/-- The gap between two ranges is no larger than `g` pages. -/
def GapLe (g : ℕ) (x y : VmmRange) : Prop := (y.start - x.limit) / pageSize ≤ g

/-- No gap in a subtree is larger than its `max_gap`. -/
lemma vmmMaxGap_bounds {t : AvlTree VmmNode} (ht : t.Current vmmAvlCb)
    (ha : Apart hi (vmmRanges t)) : (vmmRanges t).IsChain (GapLe (vmmMaxGap t)) := by
  rw [vmmMaxGap_eq hhi ht ha]
  exact isChain_largestGap _

end Cached

/-! ## The search -/

/-- The scan of the ranges that the search amounts to. -/
def vmmScan (pages align : ℕ) : ℕ → List VmmRange → Option ℕ :=
  scanFit VmmRange.start VmmRange.limit (fun base => vmmAlignUp base align) (pages * pageSize)

/-- The end of a request, as the allocator computes it. -/
def searchEnd (pages align base : ℕ) : ℕ := wadd (vmmAlignUp base align) (wmul pages pageSize)

/-- Up to the first gap that is large enough, the computed ends do not mislead the search. -/
def SearchOk (pages align : ℕ) : ℕ → List VmmRange → Prop
  | _, [] => True
  | base, x :: l =>
    (searchEnd pages align base ≤ x.start → vmmAlignUp base align + pages * pageSize ≤ x.start) ∧
      (vmmAlignUp base align + pages * pageSize ≤ x.start ∨ SearchOk pages align x.limit l)

section Search

variable {pages align base a : ℕ} {x : VmmRange} {l l₁ l₂ : List VmmRange}

lemma le_vmmAlignUp (a align : ℕ) : a ≤ vmmAlignUp a align := by
  simp only [vmmAlignUp]
  split_ifs
  · exact le_rfl
  · omega

lemma vmmScan_cons_of_fits (h : vmmAlignUp base align + pages * pageSize ≤ x.start) :
    vmmScan pages align base (x :: l) = some (vmmAlignUp base align) := if_pos h

lemma vmmScan_cons_of_not (h : ¬ vmmAlignUp base align + pages * pageSize ≤ x.start) :
    vmmScan pages align base (x :: l) = vmmScan pages align x.limit l := if_neg h

lemma vmmScan_append : vmmScan pages align base (l₁ ++ l₂) = (vmmScan pages align base l₁).or
    (vmmScan pages align (lastLimit VmmRange.limit base l₁) l₂) := scanFit_append

lemma SearchOk.searchEnd_le_iff (h : SearchOk pages align base (x :: l)) (hx : x.start < word) :
    searchEnd pages align base ≤ x.start ↔
      vmmAlignUp base align + pages * pageSize ≤ x.start := by
  refine ⟨h.1, fun hle => ?_⟩
  rw [searchEnd, wmul_of_lt (by omega), wadd_of_lt (by omega)]
  exact hle

lemma SearchOk.of_append (h : SearchOk pages align base (l₁ ++ l₂)) :
    SearchOk pages align base l₁ ∧ (vmmScan pages align base l₁ = none →
      SearchOk pages align (lastLimit VmmRange.limit base l₁) l₂) := by
  induction l₁ generalizing base with
  | nil => exact ⟨trivial, fun _ => h⟩
  | cons x l ih =>
    obtain ⟨htrue, hfit | hrest⟩ := h
    · refine ⟨⟨htrue, .inl hfit⟩, fun hnone => ?_⟩
      rw [vmmScan_cons_of_fits hfit] at hnone
      exact absurd hnone (by simp)
    · obtain ⟨hl, hbehind⟩ := ih hrest
      refine ⟨⟨htrue, .inr hl⟩, fun hnone => hbehind ?_⟩
      by_cases hfit : vmmAlignUp base align + pages * pageSize ≤ x.start
      · rw [vmmScan_cons_of_fits hfit] at hnone
        exact absurd hnone (by simp)
      · rwa [vmmScan_cons_of_not hfit] at hnone

/-- Null is not a place. -/
lemma vmmScan_pos (hpos : 0 < base) (hsorted : l.Pairwise fun x y => x.limit ≤ y.start)
    (hbase : ∀ x ∈ l, base ≤ x.start)
    (h : vmmScan pages align base l = some a) : 0 < a := by
  induction l generalizing base with
  | nil => exact absurd h (by simp [vmmScan, scanFit])
  | cons x l ih =>
    by_cases hfit : vmmAlignUp base align + pages * pageSize ≤ x.start
    · rw [vmmScan_cons_of_fits hfit] at h
      obtain rfl := Option.some.inj h
      exact hpos.trans_le (le_vmmAlignUp base align)
    · rw [vmmScan_cons_of_not hfit] at h
      have hx := hbase x (by simp)
      obtain ⟨hxl, hl⟩ := List.pairwise_cons.mp hsorted
      exact ih (hpos.trans_le (hx.trans (Nat.le_add_right _ _))) hl hxl h

/-- Where all gaps are too small, nothing is found. -/
lemma vmmScan_none_of_gaps {g : ℕ} (hgaps : (x :: l).IsChain (GapLe g)) (hg : g < pages) :
    vmmScan pages align x.limit l = none := by
  induction l generalizing x with
  | nil => rfl
  | cons y l ih =>
    obtain ⟨hxy, hl⟩ := List.isChain_cons_cons.mp hgaps
    have hfit : ¬ vmmAlignUp x.limit align + pages * pageSize ≤ y.start := fun hfit => by
      have hle := le_vmmAlignUp x.limit align
      have hpages : pages ≤ (y.start - x.limit) / pageSize :=
        (Nat.le_div_iff_mul_le (by decide)).mpr (by omega)
      exact absurd (hpages.trans hxy) (by omega)
    rw [vmmScan_cons_of_not hfit]
    exact ih hl

/-- The base from which a node is searched, behind its left subtree. -/
def behindLeft (l : AvlTree VmmNode) (base : ℕ) : ℕ :=
  if l ≠ .nil ∧ vmmSubtreeEnd l > base then vmmSubtreeEnd l else base

lemma behindLeft_eq {hi : ℕ} (hhi : hi < word) {t : AvlTree VmmNode} (ht : t.Current vmmAvlCb)
    (ha : Apart hi (vmmRanges t)) (hbase : ∀ x ∈ vmmRanges t, base ≤ x.start) :
    behindLeft t base = lastLimit VmmRange.limit base (vmmRanges t) := by
  by_cases hnil : t = .nil
  · simp [behindLeft, hnil, vmmRanges, AvlTree.inorder, lastLimit]
  have hne : vmmRanges t ≠ [] := by
    cases t with
    | nil => exact absurd rfl hnil
    | node l n h r => simp [vmmRanges, AvlTree.inorder]
  obtain ⟨y, hy⟩ := List.exists_mem_of_ne_nil _ hne
  have hlim : y.start ≤ y.limit := Nat.le_add_right _ _
  have hle : base ≤ vmmSubtreeEnd t :=
    (hbase y hy).trans (hlim.trans ((cached_bounds hhi ht ha).1 y hy).2)
  rw [← vmmSubtreeEnd_eq hhi ht ha hnil base, behindLeft]
  split_ifs with hgt
  · rfl
  · exact hle.antisymm (not_lt.mp (not_and.mp hgt hnil))

/-- One node of the search: in front of the subtree, in the left subtree, in front of the node,
in the right subtree. -/
lemma vmmFindGap_node {poolEnd : ℕ} {h : ℤ} {l r : AvlTree VmmNode} {n : VmmNode} :
    vmmFindGap poolEnd pages align (.node l n h r) base =
      if searchEnd pages align base ≤ n.subtreeStart then
        if searchEnd pages align base ≤ poolEnd then vmmAlignUp base align else 0
      else if n.maxGap < pages then 0
      else if vmmFindGap poolEnd pages align l base ≠ 0 then
        vmmFindGap poolEnd pages align l base
      else if searchEnd pages align (behindLeft l base) ≤ n.start then
        if searchEnd pages align (behindLeft l base) ≤ poolEnd then
          vmmAlignUp (behindLeft l base) align
        else 0
      else vmmFindGap poolEnd pages align r
        (if wadd n.start (wmul n.pageCount pageSize) > behindLeft l base then
          wadd n.start (wmul n.pageCount pageSize)
        else behindLeft l base) := by
  rw [vmmFindGap]
  rfl

/-- **The gap search finds what a scan of the ranges finds.** -/
lemma vmmFindGap_eq {poolEnd : ℕ} (hend : poolEnd < word) {t : AvlTree VmmNode}
    (ht : t.Current vmmAvlCb) (ha : Apart poolEnd (vmmRanges t)) (hpos : 0 < base)
    (hbase : ∀ x ∈ vmmRanges t, base ≤ x.start) (hok : SearchOk pages align base (vmmRanges t)) :
    vmmFindGap poolEnd pages align t base = (vmmScan pages align base (vmmRanges t)).getD 0 := by
  induction t generalizing base with
  | nil => rfl
  | node l n h r ihl ihr =>
    obtain ⟨hal, har, hln, hnr⟩ := ha.of_node
    have hranges : vmmRanges (.node l n h r) = vmmRanges l ++ n.range :: vmmRanges r := rfl
    have hn : n.range.limit ≤ poolEnd := ha.le _ (by simp [hranges])
    have hnpos : n.range.start < n.range.limit := by
      have := ha.pos n.range (by simp [hranges])
      simp only [VmmRange.limit, pageSize]
      omega
    -- a place in front of a range is inside the pool
    have hinside : ∀ {b : ℕ} {x : VmmRange}, x ∈ vmmRanges (.node l n h r) →
        searchEnd pages align b ≤ x.start → searchEnd pages align b ≤ poolEnd := fun hx hle =>
      hle.trans ((Nat.le_add_right _ _).trans (ha.le _ hx))
    obtain ⟨x, T, hxT⟩ : ∃ x T, vmmRanges (.node l n h r) = x :: T :=
      List.exists_cons_of_ne_nil (by simp [hranges])
    have hx : x ∈ vmmRanges (.node l n h r) := by simp [hxT]
    have hxw : x.start < word := by
      have := ha.le x hx
      simp only [VmmRange.limit] at this
      omega
    have hfirst : n.subtreeStart = x.start := vmmSubtreeStart_eq hend ht ha x (by simp [hxT])
    have hcmp := SearchOk.searchEnd_le_iff (hxT ▸ hok) hxw
    rw [vmmFindGap_node, hfirst]
    by_cases hbefore : searchEnd pages align base ≤ x.start
    · rw [if_pos hbefore, if_pos (hinside hx hbefore), hxT,
        vmmScan_cons_of_fits (hcmp.mp hbefore), Option.getD_some]
    rw [if_neg hbefore]
    by_cases hprune : n.maxGap < pages
    · have hgaps := vmmMaxGap_bounds hend ht ha
      rw [hxT] at hgaps
      rw [if_pos hprune, hxT, vmmScan_cons_of_not (mt hcmp.mpr hbefore),
        vmmScan_none_of_gaps hgaps hprune]
      rfl
    rw [if_neg hprune]
    rw [hranges] at hok hbase ⊢
    obtain ⟨hokl, hokr⟩ := hok.of_append
    have hl := ihl ht.2.1 hal hpos (fun y hy => hbase y (by simp [hy])) hokl
    rw [hl, vmmScan_append]
    cases hleft : vmmScan pages align base (vmmRanges l) with
    | some a =>
      have := vmmScan_pos hpos hal.sorted (fun y hy => hbase y (by simp [hy])) hleft
      rw [Option.getD_some, if_pos this.ne', Option.some_or, Option.getD_some]
    | none =>
      rw [Option.getD_none, if_neg (not_not.mpr rfl), Option.none_or]
      -- the node itself is searched from behind the left subtree
      rw [behindLeft_eq hend ht.2.1 hal fun y hy => hbase y (by simp [hy])]
      set b := lastLimit VmmRange.limit base (vmmRanges l) with hbdef
      have hbn : b ≤ n.start := by
        rcases @lastLimit_mem _ VmmRange.limit base (vmmRanges l) with heq | ⟨y, hy, heq⟩
        · rw [hbdef, heq]
          exact hbase n.range (by simp)
        · rw [hbdef, heq]
          exact hln y hy
      have hbpos : 0 < b := by
        rcases @lastLimit_mem _ VmmRange.limit base (vmmRanges l) with heq | ⟨y, hy, heq⟩
        · rw [hbdef, heq]
          exact hpos
        · rw [hbdef, heq]
          exact hpos.trans_le ((hbase y (by simp [hy])).trans (Nat.le_add_right _ _))
      have hokn := hokr hleft
      have hnw : n.start < word := lt_trans (lt_of_lt_of_le hnpos hn) hend
      have hcmp := hokn.searchEnd_le_iff hnw
      by_cases hfit : searchEnd pages align b ≤ n.start
      · rw [if_pos hfit, if_pos (hinside (x := n.range) (by simp [hranges]) hfit),
          vmmScan_cons_of_fits (hcmp.mp hfit), Option.getD_some]
      · rw [if_neg hfit, vmmScan_cons_of_not (mt hcmp.mpr hfit), nend_eq hend hn,
          if_pos (hbn.trans_lt hnpos)]
        refine ihr ht.2.2 har (hpos.trans_le ?_) hnr (hokn.2.resolve_left (mt hcmp.mpr hfit))
        exact (hbase n.range (by simp)).trans hnpos.le

end Search

end Cuore
