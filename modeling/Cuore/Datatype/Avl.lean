import Mathlib.Data.List.Pairwise
import Mathlib.Order.Defs.LinearOrder
import Mathlib.Data.Int.Order.Basic
import Mathlib.Tactic.SplitIfs
import Mathlib.Order.Lattice

/-!
# The intrusive AVL tree (`datatype/avl.c`)

The tree links nodes that are embedded in the caller's own structures; the caller passes a
comparison and an `update` callback that recomputes whatever the structure caches about its
subtree.  A subtree reached through a pointer is owned by that pointer alone, so it is
modelled by an inductive tree whose nodes carry the caller's structure `α` and the height
field.

Rotations, `rebalance`, insertion and deletion follow the source, `update_node` calls
included.  `update_node` overwrites height and cached data, so `rebalance` and
`unlink_leftmost` take a node by its children and data.

Two facts about the operations are proved for an arbitrary comparison and callback.  They do
to the in-order sequence what they should: `inorder_avlInsert`, `inorder_avlDelete`.  And they
leave the cached data of every node up to date: `Current` is preserved throughout, which is
what users of the cache rely on.
-/

namespace Cuore

/-! ## Sequences sorted by key -/

section InsertByKey

variable {β κ : Type*} [LinearOrder κ] {key : β → κ}

/-- Insertion into a sequence sorted by key; an equal key leaves it as it is. -/
def insertByKey (key : β → κ) (x : β) : List β → List β
  | [] => [x]
  | y :: ys =>
    if key x < key y then x :: y :: ys
    else if key y < key x then y :: insertByKey key x ys
    else y :: ys

lemma insertByKey_append_of_lt {x y : β} {L R : List β} (hxy : key x < key y) :
    insertByKey key x (L ++ y :: R) = insertByKey key x L ++ y :: R := by
  induction L with
  | nil => simp [insertByKey, hxy]
  | cons z L ih =>
    simp only [List.cons_append, insertByKey]
    split_ifs
    · rfl
    · rw [ih, List.cons_append]
    · rfl

lemma insertByKey_append_of_forall_lt {x : β} {L R : List β}
    (hL : ∀ z ∈ L, key z < key x) :
    insertByKey key x (L ++ R) = L ++ insertByKey key x R := by
  induction L with
  | nil => rfl
  | cons z L ih =>
    have hz := hL z (by simp)
    rw [List.cons_append, insertByKey, if_neg (not_lt.mpr (le_of_lt hz)), if_pos hz,
      ih (fun w hw => hL w (List.mem_cons_of_mem _ hw)), List.cons_append]

end InsertByKey

/-! ## The tree and its operations -/

/-- A subtree of `avl_node_t`s embedded in structures of type `α`. -/
inductive AvlTree (α : Type*)
  | nil
  | node (left : AvlTree α) (data : α) (height : ℤ) (right : AvlTree α)
  deriving DecidableEq, Repr

/-- `avl_callbacks_t`.  `update l d r` is what the callback leaves in a node holding `d`
between the subtrees `l` and `r`. -/
structure AvlCallbacks (α : Type*) where
  compare : α → α → ℤ
  update : AvlTree α → α → AvlTree α → α

/-- `core` reads only what the callback does not touch, and the comparison is that of the
keys it determines. -/
structure AvlCallbacks.Lawful {α β κ : Type*} [LinearOrder κ] (cb : AvlCallbacks α)
    (core : α → β) (key : β → κ) : Prop where
  core_update : ∀ l d r, core (cb.update l d r) = core d
  compare_lt : ∀ a b, cb.compare a b < 0 ↔ key (core a) < key (core b)
  compare_gt : ∀ a b, cb.compare a b > 0 ↔ key (core b) < key (core a)

namespace AvlTree

variable {α β κ : Type*} (cb : AvlCallbacks α)

/-- `AVL_GET_HEIGHT`. -/
def height : AvlTree α → ℤ
  | nil => 0
  | node _ _ h _ => h

/-- `AVL_GET_BALANCE`. -/
def balance : AvlTree α → ℤ
  | nil => 0
  | node l _ _ r => l.height - r.height

/-- `update_node`. -/
def updateNode (l : AvlTree α) (d : α) (r : AvlTree α) : AvlTree α :=
  node l (cb.update l d r) (1 + if l.height > r.height then l.height else r.height) r

/-- `rotate_right`.  The source dereferences the left child; a node without one is returned
as it is, which `rebalance` never asks for: a balance above one needs a left child. -/
def rotateRight : AvlTree α → AvlTree α
  | node (node xl x _ t) y _ r => updateNode cb xl x (updateNode cb t y r)
  | n => n

/-- `rotate_left`, the mirror image. -/
def rotateLeft : AvlTree α → AvlTree α
  | node l x _ (node t y _ yr) => updateNode cb (updateNode cb l x t) y yr
  | n => n

/-- `n->left = l`. -/
def setLeft : AvlTree α → AvlTree α → AvlTree α
  | nil, _ => nil
  | node _ d h r, l => node l d h r

/-- `n->right = r`. -/
def setRight : AvlTree α → AvlTree α → AvlTree α
  | nil, _ => nil
  | node l d h _, r => node l d h r

/-- `rebalance` of the node with children `l`, `r` and data `d`. -/
def rebalance (l : AvlTree α) (d : α) (r : AvlTree α) : AvlTree α :=
  let n := updateNode cb l d r
  let bal := n.balance
  if bal > 1 then
    rotateRight cb (if l.balance < 0 then n.setLeft (rotateLeft cb l) else n)
  else if bal < -1 then
    rotateLeft cb (if r.balance > 0 then n.setRight (rotateRight cb r) else n)
  else n

/-- `unlink_leftmost` of the node with children `l`, `r` and data `d`: the data of the node
taken out, and the tree without it. -/
def unlinkLeftmost : AvlTree α → α → AvlTree α → α × AvlTree α
  | nil, d, r => (d, r)
  | node ll ld _ lr, d, r =>
    let (out, l) := unlinkLeftmost ll ld lr
    (out, rebalance cb l d r)

/-- `avl_insert`. -/
def avlInsert : AvlTree α → α → AvlTree α
  | nil, n => updateNode cb nil n nil
  | node l d h r, n =>
    let cmp := cb.compare n d
    if cmp < 0 then rebalance cb (avlInsert l n) d r
    else if cmp > 0 then rebalance cb l d (avlInsert r n)
    else node l d h r

/-- The branch of `avl_delete` that takes out the root: its children, joined. -/
def deleteRoot (l r : AvlTree α) : AvlTree α :=
  match l, r with
  | nil, r => r
  | l, nil => l
  | l, node rl rd _ rr =>
    let (succ, newRight) := unlinkLeftmost cb rl rd rr
    rebalance cb l succ newRight

/-- `avl_delete`: the tree afterwards, and the node it stores through `out`, if any. -/
def avlDelete : AvlTree α → α → AvlTree α × Option α
  | nil, _ => (nil, none)
  | node l d _ r, key =>
    let cmp := cb.compare key d
    if cmp < 0 then
      let (l', out) := avlDelete l key
      (rebalance cb l' d r, out)
    else if cmp > 0 then
      let (r', out) := avlDelete r key
      (rebalance cb l d r', out)
    else (deleteRoot cb l r, some d)

/-- `avl_find`. -/
def avlFind : AvlTree α → α → Option α
  | nil, _ => none
  | node l d _ r, key =>
    let cmp := cb.compare key d
    if cmp < 0 then avlFind l key else if cmp > 0 then avlFind r key else some d

/-! ## The in-order sequence -/

/-- The in-order sequence of what `core` reads off the nodes. -/
def inorder (core : α → β) : AvlTree α → List β
  | nil => []
  | node l d _ r => inorder core l ++ core d :: inorder core r

section Inorder

variable {cb} {core : α → β}

lemma inorder_updateNode (hcore : ∀ l d r, core (cb.update l d r) = core d)
    (l : AvlTree α) (d : α) (r : AvlTree α) :
    inorder core (updateNode cb l d r) = inorder core l ++ core d :: inorder core r := by
  rw [updateNode, inorder, hcore]

lemma inorder_rotateRight (hcore : ∀ l d r, core (cb.update l d r) = core d) (t : AvlTree α) :
    inorder core (rotateRight cb t) = inorder core t := by
  match t with
  | nil => rfl
  | node nil _ _ _ => rfl
  | node (node xl x _ t) y _ r =>
    simp [rotateRight, inorder_updateNode hcore, inorder]

lemma inorder_rotateLeft (hcore : ∀ l d r, core (cb.update l d r) = core d) (t : AvlTree α) :
    inorder core (rotateLeft cb t) = inorder core t := by
  match t with
  | nil => rfl
  | node _ _ _ nil => rfl
  | node l x _ (node t y _ yr) =>
    simp [rotateLeft, inorder_updateNode hcore, inorder]

/-- Rebalancing changes the shape only. -/
lemma inorder_rebalance (hcore : ∀ l d r, core (cb.update l d r) = core d)
    (l : AvlTree α) (d : α) (r : AvlTree α) :
    inorder core (rebalance cb l d r) = inorder core l ++ core d :: inorder core r := by
  have hn := inorder_updateNode hcore l d r
  have hleft : inorder core ((updateNode cb l d r).setLeft (rotateLeft cb l)) =
      inorder core l ++ core d :: inorder core r := by
    simp [updateNode, setLeft, inorder, inorder_rotateLeft hcore, hcore]
  have hright : inorder core ((updateNode cb l d r).setRight (rotateRight cb r)) =
      inorder core l ++ core d :: inorder core r := by
    simp [updateNode, setRight, inorder, inorder_rotateRight hcore, hcore]
  rw [rebalance]
  split_ifs <;>
    simp only [inorder_rotateRight hcore, inorder_rotateLeft hcore, hn, hleft, hright]

/-- The node taken out is the first one. -/
lemma inorder_unlinkLeftmost (hcore : ∀ l d r, core (cb.update l d r) = core d)
    (l : AvlTree α) (d : α) (r : AvlTree α) :
    core (unlinkLeftmost cb l d r).1 :: inorder core (unlinkLeftmost cb l d r).2 =
      inorder core l ++ core d :: inorder core r := by
  induction l generalizing d r with
  | nil => rfl
  | node ll ld lh lr ihl _ =>
    simp only [unlinkLeftmost, inorder_rebalance hcore, inorder]
    rw [← ihl]
    simp

lemma inorder_deleteRoot (hcore : ∀ l d r, core (cb.update l d r) = core d) (l r : AvlTree α) :
    inorder core (deleteRoot cb l r) = inorder core l ++ inorder core r := by
  match l, r with
  | nil, r => rfl
  | node ll ld lh lr, nil => simp [deleteRoot, inorder]
  | node ll ld lh lr, node rl rd rh rr =>
    simp only [deleteRoot, inorder_rebalance hcore]
    rw [inorder_unlinkLeftmost hcore]
    rfl

end Inorder

/-! ## Insertion and deletion on the sorted sequence -/

section Sorted

variable [LinearOrder κ] {cb} {core : α → β} {key : β → κ}

/-- `avl_insert` inserts into the in-order sequence. -/
lemma inorder_avlInsert (hcb : cb.Lawful core key) {t : AvlTree α}
    (ht : (inorder core t).Pairwise fun x y => key x < key y) (n : α) :
    inorder core (avlInsert cb t n) = insertByKey key (core n) (inorder core t) := by
  induction t with
  | nil => simp [avlInsert, inorder_updateNode hcb.core_update, inorder, insertByKey]
  | node l d h r ihl ihr =>
    obtain ⟨hl, hr', hlr⟩ := List.pairwise_append.mp ht
    obtain ⟨hdr, hr⟩ := List.pairwise_cons.mp hr'
    have hld : ∀ z ∈ inorder core l, key z < key (core d) := fun z hz => hlr z hz _ (by simp)
    rw [avlInsert]
    simp only [hcb.compare_lt, hcb.compare_gt]
    split_ifs with hlt hgt
    · rw [inorder_rebalance hcb.core_update, ihl hl, inorder, insertByKey_append_of_lt hlt]
    · rw [inorder_rebalance hcb.core_update, ihr hr, inorder,
        insertByKey_append_of_forall_lt (fun z hz => lt_trans (hld z hz) hgt), insertByKey,
        if_neg hlt, if_pos hgt]
    · have heq : key (core n) = key (core d) := le_antisymm (not_lt.mp hgt) (not_lt.mp hlt)
      rw [inorder, insertByKey_append_of_forall_lt (fun z hz => heq ▸ hld z hz), insertByKey,
        if_neg hlt, if_neg hgt]

/-- `avl_delete` removes the key from the in-order sequence. -/
lemma inorder_avlDelete (hcb : cb.Lawful core key) {t : AvlTree α}
    (ht : (inorder core t).Pairwise fun x y => key x < key y) (k : α) :
    inorder core (avlDelete cb t k).1 =
      (inorder core t).filter (fun x => key x ≠ key (core k)) := by
  induction t with
  | nil => rfl
  | node l d h r ihl ihr =>
    obtain ⟨hl, hr', hlr⟩ := List.pairwise_append.mp ht
    obtain ⟨hdr, hr⟩ := List.pairwise_cons.mp hr'
    have hld : ∀ z ∈ inorder core l, key z < key (core d) := fun z hz => hlr z hz _ (by simp)
    -- on the side that the key is not on, the filter keeps everything
    have hkeepr : key (core k) ≤ key (core d) →
        (inorder core r).filter (fun x => key x ≠ key (core k)) = inorder core r := by
      intro hle
      rw [List.filter_eq_self]
      intro z hz
      simpa using ne_of_gt (lt_of_le_of_lt hle (hdr z hz))
    have hkeepl : key (core d) ≤ key (core k) →
        (inorder core l).filter (fun x => key x ≠ key (core k)) = inorder core l := by
      intro hle
      rw [List.filter_eq_self]
      intro z hz
      simpa using ne_of_lt (lt_of_lt_of_le (hld z hz) hle)
    rw [avlDelete, inorder, List.filter_append, List.filter_cons]
    simp only [hcb.compare_lt, hcb.compare_gt]
    split_ifs with hlt hd hgt hd hd
    · rw [inorder_rebalance hcb.core_update, ihl hl, hkeepr (le_of_lt hlt)]
    · simp [ne_of_gt hlt] at hd
    · rw [inorder_rebalance hcb.core_update, ihr hr, hkeepl (le_of_lt hgt)]
    · simp [ne_of_lt hgt] at hd
    · have heq : key (core d) = key (core k) := le_antisymm (not_lt.mp hlt) (not_lt.mp hgt)
      simp [heq] at hd
    · rw [hkeepl (not_lt.mp hlt), hkeepr (not_lt.mp hgt), inorder_deleteRoot hcb.core_update]

/-- `avl_delete` stores the node with the key through `out`, or nothing. -/
lemma core_avlDelete_out (hcb : cb.Lawful core key) {t : AvlTree α}
    (ht : (inorder core t).Pairwise fun x y => key x < key y) (k : α) :
    (avlDelete cb t k).2.map core = (inorder core t).find? (fun x => key x = key (core k)) := by
  induction t with
  | nil => rfl
  | node l d h r ihl ihr =>
    obtain ⟨hl, hr', hlr⟩ := List.pairwise_append.mp ht
    obtain ⟨hdr, hr⟩ := List.pairwise_cons.mp hr'
    have hld : ∀ z ∈ inorder core l, key z < key (core d) := fun z hz => hlr z hz _ (by simp)
    have hnonel : key (core d) ≤ key (core k) →
        (inorder core l).find? (fun x => key x = key (core k)) = none := by
      intro hle
      rw [List.find?_eq_none]
      intro z hz
      simpa using ne_of_lt (lt_of_lt_of_le (hld z hz) hle)
    rw [avlDelete, inorder, List.find?_append, List.find?_cons]
    simp only [hcb.compare_lt, hcb.compare_gt]
    split_ifs with hlt hgt
    · have hnoner : (inorder core r).find? (fun x => key x = key (core k)) = none := by
        rw [List.find?_eq_none]
        intro z hz
        simpa using ne_of_gt (lt_trans hlt (hdr z hz))
      simp [ihl hl, ne_of_gt hlt, hnoner]
    · simp [ihr hr, ne_of_lt hgt, hnonel (le_of_lt hgt)]
    · have heq : key (core d) = key (core k) := le_antisymm (not_lt.mp hlt) (not_lt.mp hgt)
      simp [hnonel (le_of_eq heq), heq]

end Sorted

/-! ## Cached data and height fields -/

/-- Every node is as `update_node` leaves it: its height field is that of its children plus
one, and its cached data is up to date. -/
def Current : AvlTree α → Prop
  | nil => True
  | node l d h r => updateNode cb l d r = node l d h r ∧ Current l ∧ Current r

section Current

variable {cb} (hidem : ∀ l d r, cb.update l (cb.update l d r) r = cb.update l d r)

lemma Current.height_nonneg {t : AvlTree α} (h : t.Current cb) : 0 ≤ t.height := by
  induction t with
  | nil => exact le_rfl
  | node l d k r ihl _ =>
    have hk : k = 1 + if l.height > r.height then l.height else r.height := by
      have := h.1
      simp only [updateNode, node.injEq] at this
      exact this.2.2.1.symm
    have := ihl h.2.1
    rw [height, hk]
    split_ifs <;> omega

include hidem

lemma current_updateNode {l r : AvlTree α} (d : α) (hl : l.Current cb) (hr : r.Current cb) :
    (updateNode cb l d r).Current cb :=
  ⟨by simp only [updateNode, hidem], hl, hr⟩

lemma current_rotateRight_updateNode {xl t r : AvlTree α} (x y : α) (h h' : ℤ)
    (hxl : xl.Current cb) (ht : t.Current cb) (hr : r.Current cb) :
    (rotateRight cb (node (node xl x h t) y h' r)).Current cb :=
  current_updateNode hidem x hxl (current_updateNode hidem y ht hr)

lemma current_rotateLeft_updateNode {l t yr : AvlTree α} (x y : α) (h h' : ℤ)
    (hl : l.Current cb) (ht : t.Current cb) (hyr : yr.Current cb) :
    (rotateLeft cb (node l x h (node t y h' yr))).Current cb :=
  current_updateNode hidem y (current_updateNode hidem x hl ht) hyr

/-- Rebalancing leaves every node current.  A balance above one needs a left child and a
negative balance of that one a right grandchild, so no rotation meets a missing child. -/
lemma current_rebalance {l r : AvlTree α} (d : α) (hl : l.Current cb) (hr : r.Current cb) :
    (rebalance cb l d r).Current cb := by
  have hn := current_updateNode hidem d hl hr
  have hl0 := hl.height_nonneg
  have hr0 := hr.height_nonneg
  have hbal : (updateNode cb l d r).balance = l.height - r.height := rfl
  rw [rebalance]
  simp only [hbal]
  split_ifs with h1 h2 h3 h4
  · cases l with
    | nil => simp only [height] at h1 hr0; omega
    | node ll ld lh lr =>
      have := hl.2.1.height_nonneg
      cases lr with
      | nil => simp only [balance, height] at h2 this; omega
      | node t y k yr =>
        exact current_rotateRight_updateNode hidem _ _ _ _
          (current_updateNode hidem _ hl.2.1 hl.2.2.2.1) hl.2.2.2.2 hr
  · cases l with
    | nil => simp only [height] at h1 hr0; omega
    | node ll ld lh lr => exact current_rotateRight_updateNode hidem _ _ _ _ hl.2.1 hl.2.2 hr
  · cases r with
    | nil => simp only [height] at h3 hl0; omega
    | node rl rd rh rr =>
      have := hr.2.2.height_nonneg
      cases rl with
      | nil => simp only [balance, height] at h4 this; omega
      | node xl x k t =>
        exact current_rotateLeft_updateNode hidem _ _ _ _ hl hr.2.1.2.1
          (current_updateNode hidem _ hr.2.1.2.2 hr.2.2)
  · cases r with
    | nil => simp only [height] at h3 hl0; omega
    | node rl rd rh rr => exact current_rotateLeft_updateNode hidem _ _ _ _ hl hr.2.1 hr.2.2
  · exact hn

lemma current_unlinkLeftmost {l r : AvlTree α} (d : α) (hl : l.Current cb) (hr : r.Current cb) :
    (unlinkLeftmost cb l d r).2.Current cb := by
  induction l generalizing d r with
  | nil => exact hr
  | node ll ld lh lr ihl _ => exact current_rebalance hidem d (ihl ld hl.2.1 hl.2.2) hr

lemma current_deleteRoot {l r : AvlTree α} (hl : l.Current cb) (hr : r.Current cb) :
    (deleteRoot cb l r).Current cb := by
  match l, r with
  | nil, r => exact hr
  | node ll ld lh lr, nil => exact hl
  | node ll ld lh lr, node rl rd rh rr =>
    exact current_rebalance hidem _ hl (current_unlinkLeftmost hidem _ hr.2.1 hr.2.2)

lemma current_avlInsert {t : AvlTree α} (ht : t.Current cb) (n : α) :
    (avlInsert cb t n).Current cb := by
  induction t with
  | nil => exact current_updateNode hidem n trivial trivial
  | node l d h r ihl ihr =>
    rw [avlInsert]
    split_ifs
    · exact current_rebalance hidem d (ihl ht.2.1) ht.2.2
    · exact current_rebalance hidem d ht.2.1 (ihr ht.2.2)
    · exact ht

lemma current_avlDelete {t : AvlTree α} (ht : t.Current cb) (k : α) :
    (avlDelete cb t k).1.Current cb := by
  induction t with
  | nil => trivial
  | node l d h r ihl ihr =>
    rw [avlDelete]
    split_ifs
    · exact current_rebalance hidem d (ihl ht.2.1) ht.2.2
    · exact current_rebalance hidem d ht.2.1 (ihr ht.2.2)
    · exact current_deleteRoot hidem ht.2.1 ht.2.2

end Current

/-! ## Subtrees -/

/-- The subtrees of a tree, those without a node left out. -/
def subtrees : AvlTree α → List (AvlTree α)
  | nil => []
  | node l d h r => node l d h r :: (subtrees l ++ subtrees r)

section Subtrees

variable {cb} {s t : AvlTree α}

lemma Current.of_mem_subtrees (ht : t.Current cb) (hs : s ∈ t.subtrees) : s.Current cb := by
  induction t with
  | nil => cases hs
  | node l d h r ihl ihr =>
    rcases List.mem_cons.mp hs with rfl | hs
    · exact ht
    · rcases List.mem_append.mp hs with hs | hs
      · exact ihl ht.2.1 hs
      · exact ihr ht.2.2 hs

/-- The nodes of a subtree are next to each other in the sequence. -/
lemma inorder_infix {core : α → β} (hs : s ∈ t.subtrees) :
    s.inorder core <:+: t.inorder core := by
  induction t with
  | nil => cases hs
  | node l d h r ihl ihr =>
    rcases List.mem_cons.mp hs with rfl | hs
    · exact List.infix_rfl
    · rcases List.mem_append.mp hs with hs | hs
      · exact (ihl hs).trans (List.prefix_append _ _).isInfix
      · exact (ihr hs).trans ((List.suffix_cons _ _).trans (List.suffix_append _ _)).isInfix

end Subtrees

end AvlTree

end Cuore
