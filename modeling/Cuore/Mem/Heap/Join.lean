import Cuore.Mem.Heap.Regions

/-!
# Joining free blocks

What coalescing is for: no two free blocks of a region stay side by side.  `joinFree` joins all of
a list, from the back.  A list in which nothing joins is left alone, joining does nothing to the
blocks that are not free, and the joined blocks lie where the blocks did.

`_free` does this by two local tests, at the block that is freed.  Here are the facts on lists that
make the two the same: joining in front of joined blocks is local (`joinFree_append`), and blocks
that are joined early can as well be joined late (`joinFree_markAll`), so that the order in which
blocks are freed does not matter.
-/

namespace Cuore

/-- The two blocks become one: both are free, and the second one starts no region. -/
def Joins (b c : Block) : Prop := b.kind = .free ∧ c.kind = .free ∧ c.start = false

instance (b c : Block) : Decidable (Joins b c) := inferInstanceAs (Decidable (_ ∧ _ ∧ _))

/-- The first block absorbs the second one, if the two join. -/
def joinHead : List Block → List Block
  | b :: c :: l => if Joins b c then b.merge c :: l else b :: c :: l
  | l => l

/-- Free blocks side by side are joined. -/
def joinFree : List Block → List Block
  | [] => []
  | b :: l => joinHead (b :: joinFree l)

/-- No two blocks side by side join. -/
def Joined (L : List Block) : Prop := L.IsChain fun b c => ¬ Joins b c

section

variable {b c d : Block} {l L P S : List Block}

lemma Joins.merge_left : Joins (b.merge c) d ↔ Joins b d := Iff.rfl

/-- What counts for a join with the block before it. -/
def Block.front (b : Block) : ℕ × Bool × BlockKind := (b.addr, b.start, b.kind)

lemma joins_congr (h : c.front = d.front) : Joins b c ↔ Joins b d := by
  simp only [Block.front, Prod.mk.injEq] at h
  rw [Joins, Joins, h.2.1, h.2.2]

/-- The head of the list absorbs, but stays the head. -/
lemma joinHead_cons (b : Block) (l : List Block) :
    ∃ d l', joinHead (b :: l) = d :: l' ∧ d.front = b.front ∧ l' ⊆ l := by
  cases l with
  | nil => exact ⟨b, [], rfl, rfl, List.Subset.refl _⟩
  | cons c l =>
    rw [joinHead]
    split_ifs
    · exact ⟨b.merge c, l, rfl, rfl, List.subset_cons_self c l⟩
    · exact ⟨b, c :: l, rfl, rfl, List.Subset.refl _⟩

lemma joinFree_cons (b : Block) (l : List Block) :
    ∃ d l', joinFree (b :: l) = d :: l' ∧ d.front = b.front := by
  obtain ⟨d, l', hd, hfront, -⟩ := joinHead_cons b (joinFree l)
  exact ⟨d, l', hd, hfront⟩

lemma joinHead_of_joined (h : Joined l) : joinHead l = l := by
  match l, h with
  | [], _ => rfl
  | [_], _ => rfl
  | b :: c :: l, h => exact if_neg (List.isChain_cons_cons.mp h).1

/-- Joined blocks stay as they are. -/
lemma joinFree_of_joined (h : Joined l) : joinFree l = l := by
  induction l with
  | nil => rfl
  | cons b l ih =>
    rw [joinFree, ih h.tail]
    exact joinHead_of_joined h

lemma joined_joinHead (h : Joined l) : Joined (joinHead (b :: l)) := by
  match l, h with
  | [], _ => exact List.isChain_singleton b
  | c :: l, h =>
    rw [joinHead]
    split_ifs with hbc
    · match l, h with
      | [], _ => exact List.isChain_singleton _
      | d :: l, h =>
        obtain ⟨hcd, htail⟩ := List.isChain_cons_cons.mp h
        refine List.isChain_cons_cons.mpr ⟨fun hjoin => hcd ?_, htail⟩
        exact ⟨hbc.2.1, hjoin.2⟩
    · exact List.isChain_cons_cons.mpr ⟨hbc, h⟩

/-- **After joining, no two free blocks are side by side.** -/
lemma joined_joinFree (l : List Block) : Joined (joinFree l) := by
  induction l with
  | nil => exact List.isChain_nil
  | cons b l ih => exact joined_joinHead ih

lemma joinFree_joinFree (l : List Block) : joinFree (joinFree l) = joinFree l :=
  joinFree_of_joined (joined_joinFree l)

/-- What is in front of a list is joined with what that list is joined to. -/
lemma joinFree_append_congr (h : joinFree L = joinFree S) :
    joinFree (P ++ L) = joinFree (P ++ S) := by
  induction P with
  | nil => exact h
  | cons b P ih =>
    change joinHead (b :: joinFree (P ++ L)) = joinHead (b :: joinFree (P ++ S))
    rw [ih]

/-- Where nothing joins, the parts of a list are joined each for itself. -/
lemma joinFree_append (h : ∀ b ∈ P.getLast?, ∀ c ∈ L.head?, ¬ Joins b c) :
    joinFree (P ++ L) = joinFree P ++ joinFree L := by
  induction P with
  | nil => rfl
  | cons b P ih =>
    cases P with
    | nil =>
      cases L with
      | nil => rfl
      | cons c L =>
        obtain ⟨d, l, hd, hdc⟩ := joinFree_cons c L
        have hbd : ¬ Joins b d := fun hjoin => h b rfl c rfl ((joins_congr hdc).mp hjoin)
        change joinHead (b :: joinFree (c :: L)) = b :: joinFree (c :: L)
        rw [hd]
        exact if_neg hbd
    | cons p P =>
      change joinHead (b :: joinFree (p :: P ++ L)) =
        joinHead (b :: joinFree (p :: P)) ++ joinFree L
      rw [ih (by simpa [List.getLast?_cons_cons] using h)]
      obtain ⟨d, l, hd, -⟩ := joinFree_cons p P
      rw [hd]
      simp only [List.cons_append, joinHead]
      split_ifs <;> rfl

/-- A joined block lies where its first part did. -/
lemma mem_joinFree (hb : b ∈ joinFree l) : ∃ c ∈ l, b.front = c.front := by
  induction l generalizing b with
  | nil => exact absurd hb List.not_mem_nil
  | cons c l ih =>
    rw [joinFree] at hb
    cases hl : joinFree l with
    | nil =>
      rw [hl] at hb
      exact ⟨c, by simp, by rw [List.mem_singleton.mp hb]⟩
    | cons d X =>
      rw [hl] at hb ih
      rw [joinHead] at hb
      split_ifs at hb
      · rcases List.mem_cons.mp hb with rfl | hb
        · exact ⟨c, by simp, rfl⟩
        · obtain ⟨e, he, hbe⟩ := ih (List.mem_cons_of_mem _ hb)
          exact ⟨e, by simp [he], hbe⟩
      · rcases List.mem_cons.mp hb with rfl | hb
        · exact ⟨b, by simp, rfl⟩
        · obtain ⟨e, he, hbe⟩ := ih hb
          exact ⟨e, by simp [he], hbe⟩

/-- The blocks that are not free are not touched. -/
lemma filter_joinFree (l : List Block) : ((joinFree l).filter fun b => b.kind ≠ .free) =
    l.filter fun b => b.kind ≠ .free := by
  induction l with
  | nil => rfl
  | cons b l ih =>
    have hhead : ((joinHead (b :: joinFree l)).filter fun b => b.kind ≠ .free) =
        (b :: joinFree l).filter fun b => b.kind ≠ .free := by
      cases joinFree l with
      | nil => rfl
      | cons c X =>
        rw [joinHead]
        split_ifs with hbc
        · simp [hbc.1, hbc.2.1, Block.merge]
        · rfl
    rw [joinFree, hhead, List.filter_cons, List.filter_cons, ih]

lemma filter_isPool_joinFree (l : List Block) : ((joinFree l).filter fun b => b.kind.isPool) =
    l.filter fun b => b.kind.isPool := by
  have hfilter : ∀ l : List Block, (l.filter fun b => b.kind.isPool) =
      (l.filter fun b => b.kind ≠ .free).filter fun b => b.kind.isPool := fun l => by
    rw [List.filter_filter]
    refine List.filter_congr fun b _ => ?_
    cases b.kind <;> simp [BlockKind.isPool]
  rw [hfilter, filter_joinFree, ← hfilter]

/-- The joined blocks tile what the blocks did. -/
lemma tiles_joinFree {a z : ℕ} (h : Tiles Block.addr Block.stop a l z) :
    Tiles Block.addr Block.stop a (joinFree l) z := by
  induction l generalizing a with
  | nil => exact h
  | cons b l ih =>
    obtain ⟨rfl, htail⟩ := h
    have := ih htail
    rw [joinFree]
    cases hl : joinFree l with
    | nil =>
      rw [hl] at this
      exact ⟨rfl, this⟩
    | cons c X =>
      rw [hl] at this
      obtain ⟨hc, hX⟩ := this
      rw [joinHead]
      split_ifs
      · refine ⟨rfl, ?_⟩
        have hstop : (b.merge c).stop = c.stop := by
          simp only [Block.stop, Block.merge] at hc ⊢
          omega
        rwa [hstop]
      · exact ⟨rfl, hc, hX⟩

lemma dvd_size_joinFree (h : ∀ b ∈ l, heapAlignment ∣ b.size) :
    ∀ b ∈ joinFree l, heapAlignment ∣ b.size := by
  induction l with
  | nil => exact h
  | cons b l ih =>
    have hb := h b (by simp)
    have hl := ih fun c hc => h c (by simp [hc])
    rw [joinFree]
    cases hX : joinFree l with
    | nil => simpa [joinHead] using hb
    | cons c X =>
      rw [hX] at hl
      have hc := hl c (by simp)
      rw [joinHead]
      split_ifs
      · intro d hd
        rcases List.mem_cons.mp hd with rfl | hd
        · exact Nat.dvd_add hb (Nat.dvd_add (by decide) hc)
        · exact hl d (by simp [hd])
      · intro d hd
        rcases List.mem_cons.mp hd with rfl | hd
        · exact hb
        · exact hl d hd

/-- In a region, joined means coalesced. -/
lemma Joined.coalesced (h : Joined (b :: l)) (hl : ∀ c ∈ l, c.start = false) :
    Coalesced (b :: l) := by
  induction l generalizing b with
  | nil => exact List.isChain_singleton b
  | cons c l ih =>
    obtain ⟨hbc, htail⟩ := List.isChain_cons_cons.mp h
    refine List.isChain_cons_cons.mpr ⟨fun hfree => hbc ?_, ih htail fun d hd =>
      hl d (by simp [hd])⟩
    exact ⟨hfree.1, hfree.2, hl c (by simp)⟩

lemma Coalesced.joined (h : Coalesced l) : Joined l :=
  h.imp fun _ _ hbc hjoin => hbc ⟨hjoin.1, hjoin.2.1⟩

/-! ## Marking blocks free -/

/-- The block with the payload `p` is marked free. -/
def markFree (p : ℕ) (L : List Block) : List Block :=
  L.map fun b => if b.payload = p then { b with kind := .free } else b

lemma markFree_append (p : ℕ) (P S : List Block) :
    markFree p (P ++ S) = markFree p P ++ markFree p S := List.map_append

lemma markFree_of_forall {p : ℕ} (h : ∀ b ∈ l, b.payload ≠ p) : markFree p l = l := by
  conv_rhs => rw [← List.map_id l]
  exact List.map_congr_left fun b hb => if_neg (h b hb)

/-- In a list of blocks apart, one block is marked. -/
lemma markFree_payload (hs : Spread (P ++ [b] ++ S)) :
    markFree b.payload (P ++ [b] ++ S) = P ++ [{ b with kind := .free }] ++ S := by
  have hne : ∀ c ∈ P ++ S, c.payload ≠ b.payload := fun c hc heq =>
    hs.addr_ne (b := b) (by simp) hc (by
    simp only [Block.payload] at heq
    omega)
  have hP : markFree b.payload P = P := markFree_of_forall fun c hc => hne c (by simp [hc])
  have hS : markFree b.payload S = S := markFree_of_forall fun c hc => hne c (by simp [hc])
  rw [markFree_append, markFree_append, hP, hS]
  simp [markFree]

lemma markFree_cons (p : ℕ) (b : Block) (l : List Block) :
    markFree p (b :: l) = (if b.payload = p then { b with kind := .free } else b) :: markFree p
    l := rfl

/-- The blocks with the payloads `ptrs` are marked free, one after the other. -/
def markAll (ptrs : List ℕ) (L : List Block) : List Block := ptrs.foldl (fun L p => markFree p L) L

lemma markAll_cons (p : ℕ) (ptrs : List ℕ) (L : List Block) :
    markAll (p :: ptrs) L = markAll ptrs (markFree p L) := rfl

/-- The order of the marks does not matter. -/
lemma markAll_perm {ps qs : List ℕ} (h : ps.Perm qs) (L : List Block) :
    markAll ps L = markAll qs L := by
  refine h.foldl_eq' (fun p _ q _ L => ?_) L
  simp only [markFree, List.map_map]
  refine List.map_congr_left fun b _ => ?_
  by_cases hp : b.payload = p <;> by_cases hq : b.payload = q <;>
    simp_all [Function.comp, Block.payload]

/-- A block with one of the payloads `ptrs` is not free. -/
def UsedAt (ptrs : List ℕ) (L : List Block) : Prop := ∀ b ∈ L, b.payload ∈ ptrs → b.kind ≠ .free

/-- Blocks that join may join early. -/
lemma joinFree_merge (h : Joins b c) : joinFree (b.merge c :: l) = joinFree (b :: c :: l) := by
  simp only [joinFree]
  cases joinFree l with
  | nil => exact (if_pos h).symm
  | cons d X =>
    have hcd : Joins c d ↔ Joins b d := by simp only [Joins, h.1, h.2.1]
    have hassoc : (b.merge c).merge d = b.merge (c.merge d) := by
      simp only [Block.merge, Block.mk.injEq, true_and, and_true]
      omega
    simp only [joinHead, hcd, Joins.merge_left]
    split_ifs with hbd
    · rw [hassoc]
      exact (if_pos (show Joins b (c.merge d) from ⟨h.1, h.2⟩)).symm
    · exact (if_pos h).symm

lemma UsedAt.joinFree {ptrs : List ℕ} (h : UsedAt ptrs l) : UsedAt ptrs (joinFree l) := by
  intro b hb hp hk
  obtain ⟨c, hc, hbc⟩ := mem_joinFree hb
  simp only [Block.front, Prod.mk.injEq] at hbc
  refine h c hc ?_ (hbc.2.2 ▸ hk)
  rwa [Block.payload, ← hbc.1]

lemma UsedAt.markFree {p : ℕ} {ptrs : List ℕ} (h : UsedAt (p :: ptrs) l) (hp : p ∉ ptrs) :
    UsedAt ptrs (markFree p l) := by
  intro b hb hmem
  obtain ⟨c, hc, rfl⟩ := List.mem_map.mp hb
  split_ifs at hmem ⊢ with hcp
  · have hcp' : c.payload ∈ ptrs := hmem
    exact absurd (hcp ▸ hcp') hp
  · exact h c hc (List.mem_cons_of_mem _ hmem)

/-- **What is joined before a block is freed can as well be joined after.** -/
lemma joinFree_markFree {p : ℕ} (h : UsedAt [p] l) :
    Cuore.joinFree (markFree p (joinFree l)) = joinFree (markFree p l) := by
  induction l with
  | nil => rfl
  | cons b l ih =>
    have hl : UsedAt [p] l := fun c hc => h c (by simp [hc])
    have hnot : ∀ c ∈ b :: Cuore.joinFree l, c.kind = .free → c.payload ≠ p := by
      intro c hc hk hcp
      rcases List.mem_cons.mp hc with rfl | hc
      · exact h c (by simp) (by simp [hcp]) hk
      · exact hl.joinFree c hc (by simp [hcp]) hk
    have hind : ∀ d : Block, Cuore.joinFree (d :: markFree p (Cuore.joinFree l)) =
        Cuore.joinFree (d :: markFree p l) := fun d =>
      joinFree_append_congr (P := [d]) (ih hl)
    rw [joinFree, markFree_cons, ← hind]
    cases hX : Cuore.joinFree l with
    | nil => rfl
    | cons c X =>
      rw [hX] at hnot
      rw [joinHead]
      split_ifs with hbc hbp hbp
      · exact absurd hbp (hnot b (by simp) hbc.1)
      · have hc := hnot c (by simp) hbc.2.1
        rw [markFree_cons, if_neg (show (b.merge c).payload ≠ p from hbp), markFree_cons, if_neg hc]
        exact joinFree_merge hbc
      · rw [markFree_cons, if_pos hbp]
      · rw [markFree_cons, if_neg hbp]

/-- **The joins may wait until all blocks are freed.** -/
lemma joinFree_markAll {ptrs : List ℕ} (hnd : ptrs.Nodup) (h : UsedAt ptrs l) :
    Cuore.joinFree (markAll ptrs (joinFree l)) = joinFree (markAll ptrs l) := by
  induction ptrs generalizing l with
  | nil => exact joinFree_joinFree l
  | cons p ptrs ih =>
    obtain ⟨hp, hnd⟩ := List.nodup_cons.mp hnd
    have hmark : Cuore.joinFree (markFree p (Cuore.joinFree l)) = Cuore.joinFree (markFree p l) :=
      joinFree_markFree fun b hb hbp => h b hb (by rw [List.mem_singleton] at hbp; simp [hbp])
    calc Cuore.joinFree (markAll ptrs (markFree p (Cuore.joinFree l)))
        = Cuore.joinFree (markAll ptrs (Cuore.joinFree (markFree p (Cuore.joinFree l)))) :=
          (ih hnd (h.joinFree.markFree hp)).symm
      _ = Cuore.joinFree (markAll ptrs (Cuore.joinFree (markFree p l))) := by rw [hmark]
      _ = Cuore.joinFree (markAll ptrs (markFree p l)) := ih hnd (h.markFree hp)

/-! ## Joining in regions -/

/-- **The blocks of a region are joined.** -/
lemma BlockRegion.join {base stop : ℕ} (htiles : Tiles Block.addr Block.stop base l stop)
    (hkinds : ∀ b ∈ l, b.kind = .free ∨ b.kind = .used)
    (hstarts : ∀ b ∈ l, b.start = decide (b.addr = base))
    (hsizes : ∀ b ∈ l, heapAlignment ∣ b.size) (hinside : ∀ b ∈ l, b.payload < stop) :
    BlockRegion ⟨base, stop, joinFree l⟩ := by
  have htiles' := tiles_joinFree htiles
  have hfront : ∀ b ∈ joinFree l, (b.kind = .free ∨ b.kind = .used) ∧
      b.start = decide (b.addr = base) ∧ b.payload < stop := by
    intro b hb
    obtain ⟨c, hc, hbc⟩ := mem_joinFree hb
    simp only [Block.front, Prod.mk.injEq] at hbc
    rw [Block.payload, hbc.1, hbc.2.1, hbc.2.2]
    exact ⟨hkinds c hc, hstarts c hc, hinside c hc⟩
  refine ⟨htiles', fun b hb => (hfront b hb).1, fun b hb => (hfront b hb).2.1,
    dvd_size_joinFree hsizes, fun b hb => (hfront b hb).2.2, ?_⟩
  have hjoined := joined_joinFree l
  change Coalesced (joinFree l)
  cases hl : joinFree l with
  | nil => exact List.isChain_nil
  | cons d X =>
    rw [hl] at htiles' hjoined hfront
    refine hjoined.coalesced fun c hc => ?_
    have hle := (htiles'.2.bounds Block.addr_le_stop hc).1
    have hd : d.addr = base := htiles'.1
    rw [(hfront c (by simp [hc])).2.1, decide_eq_false]
    simp only [Block.stop, bhSize] at hle
    omega

section Regions

variable {rs : List Region}

/-- The first block of the heap is a boundary or a pool page. -/
lemma RegionsOk.head_first (h : RegionsOk rs) (hc : c ∈ (heapBlocks rs).head?) :
    c.start = true ∨ c.kind.isPool = true := by
  cases rs with
  | nil => exact absurd hc (by simp [heapBlocks])
  | cons r rs =>
    obtain ⟨d, B, hblocks, -, hfirst⟩ := (h.ok r (by simp)).first
    have hcd : d = c := by
      rw [heapBlocks, List.flatMap_cons, hblocks] at hc
      simpa using hc
    exact hcd ▸ hfirst

/-- Nothing joins the first block of a region. -/
lemma RegionsOk.not_joins_head (h : RegionsOk rs) (hc : c ∈ (heapBlocks rs).head?) (b : Block) :
    ¬ Joins b c := by
  rintro ⟨-, hfree, hstart⟩
  rcases h.head_first hc with hfirst | hfirst
  · rw [hfirst] at hstart
    exact absurd hstart (by simp)
  · rw [hfree] at hfirst
    exact absurd hfirst (by simp [BlockKind.isPool])

lemma RegionsOk.tail {r : Region} (h : RegionsOk (r :: rs)) : RegionsOk rs :=
  h.sublist (List.sublist_cons_self r rs)

/-- **The blocks of the heap are joined.** -/
lemma RegionsOk.joined (h : RegionsOk rs) : Joined (heapBlocks rs) := by
  induction rs with
  | nil => exact List.isChain_nil
  | cons r rs ih =>
    have hr : Joined r.blocks := by
      rcases (h.ok r (by simp)).body with hbody | ⟨-, bin, used, -, hblocks⟩
      · exact hbody.coalesced.joined
      · rw [hblocks]
        exact List.isChain_singleton _
    exact List.isChain_append.mpr ⟨hr, ih h.tail, fun b _ c hc => h.tail.not_joins_head hc b⟩

/-- A block that starts no region, and is no pool page, is behind the one before it. -/
def Adjoins (b c : Block) : Prop := c.start = false → c.kind.isPool = false → c.addr = b.stop

lemma RegionsOk.adjoins_chain (h : RegionsOk rs) : (heapBlocks rs).IsChain Adjoins := by
  induction rs with
  | nil => exact List.isChain_nil
  | cons r rs ih =>
    have htiles : ∀ {l : List Block} {a z : ℕ}, Tiles Block.addr Block.stop a l z →
        l.IsChain Adjoins := by
      intro l
      induction l with
      | nil => exact fun _ => List.isChain_nil
      | cons b l ihl =>
        intro a z hbl
        cases l with
        | nil => exact List.isChain_singleton b
        | cons c l => exact List.isChain_cons_cons.mpr ⟨fun _ _ => hbl.2.1, ihl hbl.2⟩
    refine List.isChain_append.mpr ⟨htiles (h.ok r (by simp)).tiles, ih h.tail,
      fun b _ c hc hstart hpool => ?_⟩
    rcases h.tail.head_first hc with hfirst | hfirst
    · exact absurd (hfirst.symm.trans hstart) (by simp)
    · exact absurd (hfirst.symm.trans hpool) (by simp)

end Regions

end

end Cuore
