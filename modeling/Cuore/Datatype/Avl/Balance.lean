import Cuore.Datatype.Avl
import Mathlib.Data.Set.Insert
import Mathlib.Data.Nat.Cast.Order.Ring
import Mathlib.Algebra.Order.Ring.Int

/-!
# Balance and whole runs of the AVL tree

`Balanced` says that every height field is the true height of its subtree and every balance factor
is at most one in absolute value.  `balanced_rebalance` is the heart: two balanced subtrees whose
heights differ by at most two become a balanced tree, whose height is that of the higher one or one
more.  Insertion then lets the height grow by at most one, and deletion lets it shrink by at most
one, so every ancestor on the way back can be rebalanced again.

A run is a list of insertions and deletions.  What it should compute is a set of nodes:
`keySetRun` is the run on sets, where a node whose key is already there is ignored.
-/

namespace Cuore

namespace AvlTree

variable {α β κ : Type*} (cb : AvlCallbacks α)

/-! ## Heights and balance -/

/-- The true height of a tree. -/
def depth : AvlTree α → ℕ
  | nil => 0
  | node l _ _ r => 1 + max l.depth r.depth

/-- Every height field is the true height, and every balance factor is -1, 0 or 1. -/
def Balanced : AvlTree α → Prop
  | nil => True
  | node l d h r =>
    h = (node l d h r).depth ∧ -1 ≤ (node l d h r).balance ∧ (node l d h r).balance ≤ 1 ∧
      Balanced l ∧ Balanced r

@[simp] lemma height_nil : (nil : AvlTree α).height = 0 := rfl

@[simp] lemma height_node (l : AvlTree α) (d : α) (h : ℤ) (r : AvlTree α) :
    (node l d h r).height = h := rfl

@[simp] lemma balance_node (l : AvlTree α) (d : α) (h : ℤ) (r : AvlTree α) :
    (node l d h r).balance = l.height - r.height := rfl

lemma Balanced.height_eq {t : AvlTree α} (h : t.Balanced) : t.height = t.depth := by
  cases t with
  | nil => rfl
  | node l d k r => exact h.1

lemma Balanced.node_height {l r : AvlTree α} {d : α} {h : ℤ} (hn : (node l d h r).Balanced) :
    h = 1 + max l.height r.height ∧ -1 ≤ l.height - r.height ∧ l.height - r.height ≤ 1 := by
  obtain ⟨hh, hlo, hhi, hl, hr⟩ := hn
  refine ⟨?_, hlo, hhi⟩
  rw [hh, depth, hl.height_eq, hr.height_eq, Nat.cast_add, Nat.cast_max]
  rfl

lemma Balanced.height_nonneg {t : AvlTree α} (h : t.Balanced) : 0 ≤ t.height := by
  rw [h.height_eq]
  exact Int.natCast_nonneg _

lemma height_updateNode (l : AvlTree α) (d : α) (r : AvlTree α) :
    (updateNode cb l d r).height = 1 + max l.height r.height := by
  rw [updateNode, height_node]
  split_ifs <;> omega

lemma balance_updateNode (l : AvlTree α) (d : α) (r : AvlTree α) :
    (updateNode cb l d r).balance = l.height - r.height := rfl

lemma balanced_updateNode {l r : AvlTree α} (d : α) (hl : l.Balanced) (hr : r.Balanced)
    (hlo : -1 ≤ l.height - r.height) (hhi : l.height - r.height ≤ 1) :
    (updateNode cb l d r).Balanced := by
  refine ⟨?_, hlo, hhi, hl, hr⟩
  rw [depth, hl.height_eq, hr.height_eq]
  push_cast
  split_ifs <;> omega

/-! ## Rotations -/

/-- A left-heavy node after its rotations: the left child is rotated first if it leans right. -/
lemma balanced_rebalance_left {l r : AvlTree α} (d : α) (hl : l.Balanced) (hr : r.Balanced)
    (hdiff : l.height - r.height = 2) :
    (rebalance cb l d r).Balanced ∧ l.height ≤ (rebalance cb l d r).height ∧
      (rebalance cb l d r).height ≤ 1 + l.height := by
  have hr0 := hr.height_nonneg
  cases l with
  | nil => rw [height_nil] at hdiff; omega
  | node ll ld lh lr =>
    rw [height_node] at hdiff ⊢
    obtain ⟨hlh, hlo, hhi⟩ := hl.node_height
    obtain ⟨-, -, -, hll, hlr⟩ := hl
    have hll0 := hll.height_nonneg
    by_cases hlean : ll.height - lr.height < 0
    · cases lr with
      | nil => rw [height_nil] at hlean; omega
      | node t y k yr =>
        rw [height_node] at hlh hlo hhi hlean
        obtain ⟨hk, hklo, hkhi⟩ := hlr.node_height
        obtain ⟨y', d', hshape⟩ : ∃ y' d', rebalance cb (node ll ld lh (node t y k yr)) d r =
            updateNode cb (updateNode cb ll ld t) y' (updateNode cb yr d' r) := by
          simp only [rebalance, balance_updateNode, height_node, hdiff]
          rw [if_pos (by omega), if_pos (by rw [balance_node, height_node]; exact hlean)]
          exact ⟨_, _, rfl⟩
        have h1 := height_updateNode cb ll ld t
        have h2 := height_updateNode cb yr d' r
        rw [hshape, height_updateNode]
        refine ⟨balanced_updateNode cb y' (balanced_updateNode cb ld hll hlr.2.2.2.1 ?_ ?_)
          (balanced_updateNode cb d' hlr.2.2.2.2 hr ?_ ?_) ?_ ?_, ?_, ?_⟩ <;> omega
    · obtain ⟨d', hshape⟩ : ∃ d', rebalance cb (node ll ld lh lr) d r =
          updateNode cb ll ld (updateNode cb lr d' r) := by
        simp only [rebalance, balance_updateNode, height_node, hdiff]
        rw [if_pos (by omega), if_neg (by rw [balance_node]; exact hlean)]
        exact ⟨_, rfl⟩
      have h1 := height_updateNode cb lr d' r
      rw [hshape, height_updateNode]
      refine ⟨balanced_updateNode cb ld hll (balanced_updateNode cb d' hlr hr ?_ ?_) ?_ ?_, ?_, ?_⟩
        <;>
        omega

/-- The mirror image, for a right-heavy node. -/
lemma balanced_rebalance_right {l r : AvlTree α} (d : α) (hl : l.Balanced) (hr : r.Balanced)
    (hdiff : r.height - l.height = 2) :
    (rebalance cb l d r).Balanced ∧ r.height ≤ (rebalance cb l d r).height ∧
      (rebalance cb l d r).height ≤ 1 + r.height := by
  have hl0 := hl.height_nonneg
  cases r with
  | nil => rw [height_nil] at hdiff; omega
  | node rl rd rh rr =>
    rw [height_node] at hdiff ⊢
    obtain ⟨hrh, hlo, hhi⟩ := hr.node_height
    obtain ⟨-, -, -, hrl, hrr⟩ := hr
    have hrr0 := hrr.height_nonneg
    have hbal : l.height - rh = -2 := by omega
    by_cases hlean : rl.height - rr.height > 0
    · cases rl with
      | nil => rw [height_nil] at hlean; omega
      | node xl x k t =>
        rw [height_node] at hrh hlo hhi hlean
        obtain ⟨hk, hklo, hkhi⟩ := hrl.node_height
        obtain ⟨x', d', hshape⟩ : ∃ x' d', rebalance cb l d (node (node xl x k t) rd rh rr) =
            updateNode cb (updateNode cb l d' xl) x' (updateNode cb t rd rr) := by
          simp only [rebalance, balance_updateNode, height_node, hbal]
          rw [if_neg (by omega), if_pos (by omega),
            if_pos (by rw [balance_node, height_node]; exact hlean)]
          exact ⟨_, _, rfl⟩
        have h1 := height_updateNode cb l d' xl
        have h2 := height_updateNode cb t rd rr
        rw [hshape, height_updateNode]
        refine ⟨balanced_updateNode cb x' (balanced_updateNode cb d' hl hrl.2.2.2.1 ?_ ?_)
          (balanced_updateNode cb rd hrl.2.2.2.2 hrr ?_ ?_) ?_ ?_, ?_, ?_⟩ <;> omega
    · obtain ⟨d', hshape⟩ : ∃ d', rebalance cb l d (node rl rd rh rr) =
          updateNode cb (updateNode cb l d' rl) rd rr := by
        simp only [rebalance, balance_updateNode, height_node, hbal]
        rw [if_neg (by omega), if_pos (by omega), if_neg (by rw [balance_node]; exact hlean)]
        exact ⟨_, rfl⟩
      have h1 := height_updateNode cb l d' rl
      rw [hshape, height_updateNode]
      refine ⟨balanced_updateNode cb rd (balanced_updateNode cb d' hl hrl ?_ ?_) hrr ?_ ?_, ?_, ?_⟩
        <;>
        omega

/-- **Rebalancing.**  Two balanced subtrees whose heights differ by at most two make a balanced
tree, as high as the higher one or one more. -/
lemma balanced_rebalance {l r : AvlTree α} (d : α) (hl : l.Balanced) (hr : r.Balanced)
    (hlo : -2 ≤ l.height - r.height) (hhi : l.height - r.height ≤ 2) :
    (rebalance cb l d r).Balanced ∧
      max l.height r.height ≤ (rebalance cb l d r).height ∧
      (rebalance cb l d r).height ≤ 1 + max l.height r.height ∧
      (-1 ≤ l.height - r.height → l.height - r.height ≤ 1 →
        (rebalance cb l d r).height = 1 + max l.height r.height) := by
  rcases lt_or_ge 1 (l.height - r.height) with hleft | hleft
  · obtain ⟨hb, h1, h2⟩ := balanced_rebalance_left cb d hl hr (by omega)
    exact ⟨hb, by omega, by omega, fun _ _ => by omega⟩
  · rcases lt_or_ge (l.height - r.height) (-1) with hright | hright
    · obtain ⟨hb, h1, h2⟩ := balanced_rebalance_right cb d hl hr (by omega)
      exact ⟨hb, by omega, by omega, fun _ _ => by omega⟩
    · have hsame : rebalance cb l d r = updateNode cb l d r := by
        simp only [rebalance]
        rw [if_neg (show ¬(updateNode cb l d r).balance > 1 from not_lt.mpr hleft),
          if_neg (show ¬(updateNode cb l d r).balance < -1 from not_lt.mpr hright)]
      have hh := height_updateNode cb l d r
      rw [hsame]
      exact ⟨balanced_updateNode cb d hl hr hright hleft, by omega, by omega, fun _ _ => hh⟩

/-! ## Insertion and deletion keep the balance -/

lemma balanced_avlInsert {t : AvlTree α} (ht : t.Balanced) (n : α) :
    (avlInsert cb t n).Balanced ∧ t.height ≤ (avlInsert cb t n).height ∧
      (avlInsert cb t n).height ≤ t.height + 1 := by
  induction t with
  | nil =>
    have hh := height_updateNode cb nil n nil
    rw [height_nil, max_self] at hh
    rw [avlInsert, height_nil]
    exact ⟨balanced_updateNode cb n trivial trivial (by simp) (by simp), by omega, by omega⟩
  | node l d h r ihl ihr =>
    obtain ⟨hh, hlo, hhi⟩ := ht.node_height
    obtain ⟨hl', hl1, hl2⟩ := ihl ht.2.2.2.1
    obtain ⟨hr', hr1, hr2⟩ := ihr ht.2.2.2.2
    rw [avlInsert, height_node]
    split_ifs
    · obtain ⟨hb, h1, h2, h3⟩ := balanced_rebalance cb d hl' ht.2.2.2.2 (by omega) (by omega)
      exact ⟨hb, by omega, by omega⟩
    · obtain ⟨hb, h1, h2, h3⟩ := balanced_rebalance cb d ht.2.2.2.1 hr' (by omega) (by omega)
      exact ⟨hb, by omega, by omega⟩
    · exact ⟨ht, by rw [height_node], by rw [height_node]; omega⟩

/-- Taking out the leftmost node rebalances the whole left spine. -/
lemma balanced_unlinkLeftmost {l r : AvlTree α} (d : α) (hl : l.Balanced) (hr : r.Balanced)
    (hlo : -1 ≤ l.height - r.height) (hhi : l.height - r.height ≤ 1) :
    (unlinkLeftmost cb l d r).2.Balanced ∧
      max l.height r.height ≤ (unlinkLeftmost cb l d r).2.height ∧
      (unlinkLeftmost cb l d r).2.height ≤ 1 + max l.height r.height := by
  induction l generalizing d r with
  | nil =>
    rw [height_nil, max_eq_right hr.height_nonneg]
    exact ⟨hr, le_rfl, Int.le_add_of_nonneg_left (by decide)⟩
  | node ll ld lh lr ihl _ =>
    obtain ⟨hh, hllo, hlhi⟩ := hl.node_height
    obtain ⟨hb, h1, h2⟩ := ihl ld hl.2.2.2.1 hl.2.2.2.2 hllo hlhi
    rw [height_node] at hlo hhi ⊢
    obtain ⟨hb', h1', h2', h3'⟩ := balanced_rebalance cb d hb hr (by omega) (by omega)
    exact ⟨hb', by simp only [unlinkLeftmost]; omega, by simp only [unlinkLeftmost]; omega⟩

lemma balanced_deleteRoot {l r : AvlTree α} (hl : l.Balanced) (hr : r.Balanced)
    (hlo : -1 ≤ l.height - r.height) (hhi : l.height - r.height ≤ 1) :
    (deleteRoot cb l r).Balanced ∧ max l.height r.height ≤ (deleteRoot cb l r).height ∧
      (deleteRoot cb l r).height ≤ 1 + max l.height r.height := by
  have hl0 := hl.height_nonneg
  have hr0 := hr.height_nonneg
  match l, r with
  | nil, r =>
    rw [deleteRoot, height_nil]
    exact ⟨hr, by omega, by omega⟩
  | node ll ld lh lr, nil =>
    rw [deleteRoot, height_nil]
    · exact ⟨hl, by rw [height_nil] at *; omega, by rw [height_nil] at *; omega⟩
    · simp
  | node ll ld lh lr, node rl rd rh rr =>
    obtain ⟨hrh, hrlo, hrhi⟩ := hr.node_height
    obtain ⟨hb, h1, h2⟩ := balanced_unlinkLeftmost cb rd hr.2.2.2.1 hr.2.2.2.2 hrlo hrhi
    simp only [height_node] at hlo hhi ⊢
    obtain ⟨hb', h1', h2', h3'⟩ := balanced_rebalance cb (unlinkLeftmost cb rl rd rr).1 hl hb
      (by rw [height_node]; omega) (by rw [height_node]; omega)
    rw [height_node] at h1' h2' h3'
    exact ⟨hb', by simp only [deleteRoot]; omega, by simp only [deleteRoot]; omega⟩

lemma balanced_avlDelete {t : AvlTree α} (ht : t.Balanced) (k : α) :
    (avlDelete cb t k).1.Balanced ∧ t.height ≤ (avlDelete cb t k).1.height + 1 ∧
      (avlDelete cb t k).1.height ≤ t.height := by
  induction t with
  | nil => exact ⟨trivial, by simp [avlDelete], by simp [avlDelete]⟩
  | node l d h r ihl ihr =>
    obtain ⟨hh, hlo, hhi⟩ := ht.node_height
    obtain ⟨hl', hl1, hl2⟩ := ihl ht.2.2.2.1
    obtain ⟨hr', hr1, hr2⟩ := ihr ht.2.2.2.2
    simp only [avlDelete, height_node]
    split_ifs
    · obtain ⟨hb, h1, h2, h3⟩ := balanced_rebalance cb d hl' ht.2.2.2.2 (by omega) (by omega)
      exact ⟨hb, by dsimp only; omega, by dsimp only; omega⟩
    · obtain ⟨hb, h1, h2, h3⟩ := balanced_rebalance cb d ht.2.2.2.1 hr' (by omega) (by omega)
      exact ⟨hb, by dsimp only; omega, by dsimp only; omega⟩
    · obtain ⟨hb, h1, h2⟩ := balanced_deleteRoot cb ht.2.2.2.1 ht.2.2.2.2 hlo hhi
      exact ⟨hb, by dsimp only; omega, by dsimp only; omega⟩

/-! ## Searching -/

/-- `avl_get_min`. -/
def avlGetMin : AvlTree α → Option α
  | nil => none
  | node nil d _ _ => some d
  | node (node ll ld lh lr) _ _ _ => avlGetMin (node ll ld lh lr)

/-- `avl_get_max`. -/
def avlGetMax : AvlTree α → Option α
  | nil => none
  | node _ d _ nil => some d
  | node _ _ _ (node rl rd rh rr) => avlGetMax (node rl rd rh rr)

section Search

variable {cb} {core : α → β}

lemma inorder_node_ne_nil {l r : AvlTree α} {d : α} (h : ℤ) : inorder core (node l d h r) ≠ [] := by
  simp [inorder]

lemma core_avlGetMin (t : AvlTree α) :
    (avlGetMin t).map core = (inorder core t).head? := by
  fun_induction avlGetMin t with
  | case1 => rfl
  | case2 => rfl
  | case3 ll ld lh lr d h r ih =>
    rw [ih, inorder.eq_2 core (node ll ld lh lr), List.head?_append,
      List.head?_eq_some_head (inorder_node_ne_nil _), Option.some_or]

lemma core_avlGetMax (t : AvlTree α) :
    (avlGetMax t).map core = (inorder core t).getLast? := by
  fun_induction avlGetMax t with
  | case1 => rfl
  | case2 => simp [inorder]
  | case3 l d h rl rd rh rr ih =>
    rw [ih, inorder.eq_2 core l, List.append_cons, List.getLast?_append,
      List.getLast?_eq_some_getLast (inorder_node_ne_nil _), Option.some_or]

variable [LinearOrder κ] {key : β → κ}

lemma core_avlFind (hcb : cb.Lawful core key) {t : AvlTree α}
    (ht : (inorder core t).Pairwise fun x y => key x < key y) (k : α) :
    (avlFind cb t k).map core = (inorder core t).find? (fun x => key x = key (core k)) := by
  -- `avl_find` and `avl_delete` walk down the same way
  have hsame : avlFind cb t k = (avlDelete cb t k).2 := by
    clear ht
    induction t with
    | nil => rfl
    | node l d h r ihl ihr =>
      simp only [avlFind, avlDelete]
      split_ifs
      · exact ihl
      · exact ihr
      · rfl
  rw [hsame]
  exact core_avlDelete_out hcb ht k

/-- In a sequence sorted by key, a key finds its only bearer. -/
lemma find?_key_eq_some {L : List β} (hL : L.Pairwise fun x y => key x < key y) (k : κ) (x : β) :
    L.find? (fun y => key y = k) = some x ↔ x ∈ L ∧ key x = k := by
  constructor
  · intro h
    exact ⟨List.mem_of_find?_eq_some h, by simpa using List.find?_some h⟩
  · rintro ⟨hmem, rfl⟩
    induction L with
    | nil => exact absurd hmem List.not_mem_nil
    | cons y L ih =>
      obtain ⟨hy, hL⟩ := List.pairwise_cons.mp hL
      rcases List.mem_cons.mp hmem with rfl | hmem
      · simp
      · rw [List.find?_cons_of_neg (by simpa using ne_of_lt (hy x hmem))]
        exact ih hL hmem

end Search

/-! ## Binary search trees -/

/-- Every node has smaller keys on its left and greater ones on its right. -/
def IsBst [LT κ] (core : α → β) (key : β → κ) : AvlTree α → Prop
  | nil => True
  | node l d _ r =>
    (∀ x ∈ inorder core l, key x < key (core d)) ∧ (∀ x ∈ inorder core r, key (core d) < key x) ∧
      IsBst core key l ∧ IsBst core key r

lemma isBst_of_pairwise [LinearOrder κ] {core : α → β} {key : β → κ} {t : AvlTree α}
    (ht : (inorder core t).Pairwise fun x y => key x < key y) : t.IsBst core key := by
  induction t with
  | nil => trivial
  | node l d h r ihl ihr =>
    obtain ⟨hl, hr', hlr⟩ := List.pairwise_append.mp ht
    obtain ⟨hdr, hr⟩ := List.pairwise_cons.mp hr'
    exact ⟨fun x hx => hlr x hx _ List.mem_cons_self, hdr, ihl hl, ihr hr⟩

end AvlTree

/-! ## Runs -/

/-- A call of `avl_insert` or `avl_delete`. -/
inductive AvlOp (α : Type*)
  | insert (n : α)
  | delete (k : α)

section Run

variable {α β κ : Type*} [LinearOrder κ] (cb : AvlCallbacks α) (core : α → β) (key : β → κ)

/-- One call on the tree. -/
def AvlOp.onTree (t : AvlTree α) : AvlOp α → AvlTree α
  | .insert n => t.avlInsert cb n
  | .delete k => (t.avlDelete cb k).1

/-- What the call should do to the set of nodes: a node whose key is there already is ignored. -/
def AvlOp.onSet (S : Set β) : AvlOp α → Set β
  | .insert n => {x | x ∈ S ∨ x = core n ∧ ∀ y ∈ S, key y ≠ key (core n)}
  | .delete k => {x | x ∈ S ∧ key x ≠ key (core k)}

/-- The tree after a sequence of calls, from the empty tree. -/
def avlRun (ops : List (AvlOp α)) : AvlTree α := ops.foldl (AvlOp.onTree cb) .nil

/-- The set of nodes after a sequence of calls, from the empty set. -/
def keySetRun (ops : List (AvlOp α)) : Set β := ops.foldl (AvlOp.onSet core key) ∅

variable {core key}

lemma mem_insertByKey {x z : β} {L : List β} (hL : L.Pairwise fun x y => key x < key y) :
    z ∈ insertByKey key x L ↔ z ∈ L ∨ z = x ∧ ∀ y ∈ L, key y ≠ key x := by
  induction L with
  | nil => simp [insertByKey]
  | cons y L ih =>
    obtain ⟨hy, hL⟩ := List.pairwise_cons.mp hL
    rw [insertByKey]
    split_ifs with hlt hgt
    · have hne : ∀ w ∈ y :: L, key w ≠ key x := by
        intro w hw
        rcases List.mem_cons.mp hw with rfl | hw
        · exact ne_of_gt hlt
        · exact ne_of_gt (lt_trans hlt (hy w hw))
      rw [List.mem_cons, or_comm, and_iff_left hne]
    · have hne : (∀ w ∈ y :: L, key w ≠ key x) ↔ ∀ w ∈ L, key w ≠ key x := by
        rw [List.forall_mem_cons, and_iff_right (ne_of_lt hgt)]
      rw [List.mem_cons, ih hL, hne, List.mem_cons, or_assoc]
    · have heq : key y = key x := le_antisymm (not_lt.mp hlt) (not_lt.mp hgt)
      simp [heq]

lemma pairwise_insertByKey {x : β} {L : List β} (hL : L.Pairwise fun x y => key x < key y) :
    (insertByKey key x L).Pairwise fun x y => key x < key y := by
  induction L with
  | nil => simp [insertByKey]
  | cons y L ih =>
    obtain ⟨hy, hL'⟩ := List.pairwise_cons.mp hL
    rw [insertByKey]
    split_ifs with hlt hgt
    · refine List.pairwise_cons.mpr ⟨fun w hw => ?_, hL⟩
      rcases List.mem_cons.mp hw with rfl | hw
      · exact hlt
      · exact lt_trans hlt (hy w hw)
    · refine List.pairwise_cons.mpr ⟨fun w hw => ?_, ih hL'⟩
      rcases (mem_insertByKey hL').mp hw with hw | ⟨rfl, -⟩
      · exact hy w hw
      · exact hgt
    · exact hL

variable {cb}

/-- What a run keeps: the nodes are sorted, they are those of the set, and the tree is balanced. -/
structure AvlInv (core : α → β) (key : β → κ) (t : AvlTree α) (S : Set β) : Prop where
  sorted : (t.inorder core).Pairwise fun x y => key x < key y
  mem_iff : ∀ x, x ∈ t.inorder core ↔ x ∈ S
  balanced : t.Balanced

lemma AvlInv.step (hcb : cb.Lawful core key) {t : AvlTree α} {S : Set β}
    (h : AvlInv core key t S) (op : AvlOp α) :
    AvlInv core key (op.onTree cb t) (op.onSet core key S) := by
  cases op with
  | insert n =>
    refine ⟨?_, fun x => ?_, (AvlTree.balanced_avlInsert cb h.balanced n).1⟩
    · rw [AvlOp.onTree, AvlTree.inorder_avlInsert hcb h.sorted]
      exact pairwise_insertByKey h.sorted
    · rw [AvlOp.onTree, AvlTree.inorder_avlInsert hcb h.sorted, mem_insertByKey h.sorted]
      simp only [h.mem_iff, AvlOp.onSet, Set.mem_ofPred_eq]
  | delete k =>
    refine ⟨?_, fun x => ?_, (AvlTree.balanced_avlDelete cb h.balanced k).1⟩
    · rw [AvlOp.onTree, AvlTree.inorder_avlDelete hcb h.sorted]
      exact h.sorted.filter _
    · rw [AvlOp.onTree, AvlTree.inorder_avlDelete hcb h.sorted, List.mem_filter]
      simp only [h.mem_iff, AvlOp.onSet, Set.mem_ofPred_eq, decide_eq_true_eq]

lemma avlInv_run (hcb : cb.Lawful core key) (ops : List (AvlOp α)) :
    AvlInv core key (avlRun cb ops) (keySetRun core key ops) := by
  suffices h : ∀ t S, AvlInv core key t S →
      AvlInv core key (ops.foldl (AvlOp.onTree cb) t) (ops.foldl (AvlOp.onSet core key) S) from
    h _ _ ⟨List.Pairwise.nil, fun x => by simp [AvlTree.inorder], trivial⟩
  induction ops with
  | nil => exact fun _ _ h => h
  | cons op ops ih => exact fun t S h => ih _ _ (h.step hcb op)

lemma head?_eq_some_iff_least {L : List β} (hL : L.Pairwise fun x y => key x < key y) (x : β) :
    L.head? = some x ↔ x ∈ L ∧ ∀ y ∈ L, key x ≤ key y := by
  cases L with
  | nil => simp
  | cons z L =>
    obtain ⟨hz, -⟩ := List.pairwise_cons.mp hL
    simp only [List.head?_cons, Option.some.injEq, List.mem_cons, forall_eq_or_imp]
    constructor
    · rintro rfl
      exact ⟨.inl rfl, le_rfl, fun y hy => le_of_lt (hz y hy)⟩
    · rintro ⟨rfl | hx, hle, -⟩
      · rfl
      · exact absurd hle (not_le.mpr (hz x hx))

lemma getLast?_eq_some_iff_greatest {L : List β} (hL : L.Pairwise fun x y => key x < key y)
    (x : β) : L.getLast? = some x ↔ x ∈ L ∧ ∀ y ∈ L, key y ≤ key x := by
  have hrev : L.reverse.Pairwise fun x y => OrderDual.toDual (key x) < OrderDual.toDual (key y) :=
    List.pairwise_reverse.mpr (hL.imp fun h => h)
  rw [← List.head?_reverse, head?_eq_some_iff_least hrev]
  simp only [List.mem_reverse, OrderDual.toDual_le_toDual]

/-- **The AVL tree over whole runs.**  After any sequence of insertions and deletions the tree is a
balanced search tree with true height fields, its in-order sequence is the sorted set that the same
calls make of sets, and searching, the two ends and the next deletion answer for that set. -/
theorem avlRun_correct (hcb : cb.Lawful core key) (ops : List (AvlOp α)) :
    let t := avlRun cb ops
    let S := keySetRun core key ops
    t.IsBst core key ∧ t.Balanced ∧
      (t.inorder core).Pairwise (fun x y => key x < key y) ∧ (∀ x, x ∈ t.inorder core ↔ x ∈ S) ∧
      (∀ k x, (t.avlFind cb k).map core = some x ↔ x ∈ S ∧ key x = key (core k)) ∧
      (∀ x, t.avlGetMin.map core = some x ↔ x ∈ S ∧ ∀ y ∈ S, key x ≤ key y) ∧
      (∀ x, t.avlGetMax.map core = some x ↔ x ∈ S ∧ ∀ y ∈ S, key y ≤ key x) ∧
      (∀ k x, (t.avlDelete cb k).2.map core = some x ↔ x ∈ S ∧ key x = key (core k)) := by
  intro t S
  obtain ⟨hsorted, hmem, hbal⟩ : AvlInv core key t S := avlInv_run hcb ops
  refine ⟨AvlTree.isBst_of_pairwise hsorted, hbal, hsorted, hmem, fun k x => ?_, fun x => ?_,
    fun x => ?_, fun k x => ?_⟩
  · rw [AvlTree.core_avlFind hcb hsorted, AvlTree.find?_key_eq_some hsorted, hmem]
  · rw [AvlTree.core_avlGetMin, head?_eq_some_iff_least hsorted]
    simp only [hmem]
  · rw [AvlTree.core_avlGetMax, getLast?_eq_some_iff_greatest hsorted]
    simp only [hmem]
  · rw [AvlTree.core_avlDelete_out hcb hsorted, AvlTree.find?_key_eq_some hsorted, hmem]

end Run

/-- Integers compared by their difference, with nothing cached. -/
def intCallbacks : AvlCallbacks ℤ := ⟨fun a b => a - b, fun _ d _ => d⟩

lemma intCallbacks_lawful : intCallbacks.Lawful id id :=
  ⟨fun _ _ _ => rfl, fun _ _ => sub_neg, fun _ _ => sub_pos⟩

/-- Three integers, of which the one at the root is deleted. -/
theorem avlRun_correct_int :
    let t := avlRun intCallbacks [.insert 2, .insert 1, .insert 3, .delete 2]
    let S : Set ℤ := keySetRun id id [.insert 2, .insert 1, .insert 3, .delete 2]
    t.IsBst id id ∧ t.Balanced ∧
      (t.inorder id).Pairwise (fun x y => x < y) ∧ (∀ x, x ∈ t.inorder id ↔ x ∈ S) ∧
      (∀ k x, (t.avlFind intCallbacks k).map id = some x ↔ x ∈ S ∧ x = k) ∧
      (∀ x, t.avlGetMin.map id = some x ↔ x ∈ S ∧ ∀ y ∈ S, x ≤ y) ∧
      (∀ x, t.avlGetMax.map id = some x ↔ x ∈ S ∧ ∀ y ∈ S, y ≤ x) ∧
      (∀ k x, (t.avlDelete intCallbacks k).2.map id = some x ↔ x ∈ S ∧ x = k) :=
  avlRun_correct intCallbacks_lawful [.insert 2, .insert 1, .insert 3, .delete 2]

end Cuore
