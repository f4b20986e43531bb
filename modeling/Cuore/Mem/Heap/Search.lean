import Cuore.Mem.Heap.Edit
import Mathlib.Data.Finset.Card
import Mathlib.Data.List.Nodup

/-!
# The next-fit search of `malloc`

The search starts at `last_fit`, or at `head` if there is none, follows the list to its end, wraps
around to `head` once, and stops where it started.  `searchTrace` is the same loop with the blocks
that it visits written down.

`searchTrace_segment` says what the loop does on a stretch of the list, and the search is two
stretches: from the start to the end, and from the head to the start.
-/

namespace Cuore

/-- The search loop of `malloc`, with the blocks that it visits. -/
def searchTrace (m : Memory) (head start size : ℕ) : ℕ → ℕ → Bool → Option (ℕ × List ℕ)
  | 0, _, _ => none
  | fuel + 1, curr, wrapped =>
    if curr = 0 then some (0, [])
    else if (readHeader m curr).magic ≠ heapMagic then none
    else if bhIsFree m curr && !bhIsPool m curr && decide ((readHeader m curr).size ≥ size) then
      some (curr, [curr])
    else
      let next := (readHeader m curr).next
      let rest :=
        if next = 0 ∧ wrapped = false then
          if start ≠ head then searchTrace m head start size fuel head true else some (0, [])
        else if next = start then some (0, [])
        else searchTrace m head start size fuel next wrapped
      rest.map fun r => (r.1, curr :: r.2)

/-- The trace is one of the search. -/
lemma searchTrace_fst (m : Memory) (head start size fuel curr : ℕ) (wrapped : Bool) :
    (searchTrace m head start size fuel curr wrapped).map Prod.fst =
      searchFit m head start size fuel curr wrapped := by
  induction fuel generalizing curr wrapped with
  | zero => rfl
  | succ fuel ih =>
    simp only [searchTrace, searchFit]
    split_ifs <;> simp [← ih, Function.comp_def]

/-- `malloc` takes the block for a request of `size` bytes. -/
def Block.Fits (b : Block) (size : ℕ) : Prop := b.kind = .free ∧ size ≤ b.size

instance (b : Block) (size : ℕ) : Decidable (b.Fits size) := inferInstanceAs (Decidable (_ ∧ _))

/-- What the loop does behind a block that does not fit. -/
def searchBehind (m : Memory) (head start size fuel next : ℕ) (wrapped : Bool) :
    Option (ℕ × List ℕ) :=
  if next = 0 ∧ wrapped = false then
    if start ≠ head then searchTrace m head start size fuel head true else some (0, [])
  else if next = start then some (0, [])
  else searchTrace m head start size fuel next wrapped

section Step

variable {m : Memory} {head start size fuel p q : ℕ} {wrapped : Bool} {b : Block}

/-- One round of the loop. -/
lemma searchTrace_step (hb : BlockAt m p b q) (hpos : 0 < b.addr) :
    searchTrace m head start size (fuel + 1) b.addr wrapped =
      if b.Fits size then some (b.addr, [b.addr])
      else (searchBehind m head start size fuel q wrapped).map fun r => (r.1, b.addr :: r.2) := by
  have hfit : (bhIsFree m b.addr && !bhIsPool m b.addr &&
      decide ((readHeader m b.addr).size ≥ size)) = decide (b.Fits size) := by
    rw [hb.isFree, hb.isPool, hb]
    cases hk : b.kind <;> simp [Block.Fits, Block.header, hk]
  rw [searchTrace, if_neg hpos.ne', if_neg (by rw [hb]; simp [Block.header]), hfit, hb]
  simp only [decide_eq_true_eq]
  rfl

/-- A stretch of the list: the first block that fits is taken, or the loop arrives behind it. -/
lemma searchTrace_segment {C : List Block} (hne : C ≠ []) (hC : BlockList m p C q)
    (hpos : ∀ b ∈ C, 0 < b.addr) (hstart : ∀ b ∈ C.tail, b.addr ≠ start) :
    (∃ A b B, C = A ++ b :: B ∧ b.Fits size ∧
      searchTrace m head start size (fuel + C.length) (firstAddr Block.addr C q) wrapped =
        some (b.addr, (A ++ [b]).map Block.addr)) ∨
    ((∀ b ∈ C, ¬ b.Fits size) ∧
      searchTrace m head start size (fuel + C.length) (firstAddr Block.addr C q) wrapped =
        (searchBehind m head start size fuel q wrapped).map
          fun r => (r.1, C.map Block.addr ++ r.2)) := by
  induction C generalizing p with
  | nil => exact absurd rfl hne
  | cons b C ih =>
    have hstep := @searchTrace_step m head start size (fuel + C.length) p
      (firstAddr Block.addr C q) wrapped b hC.1 (hpos b (by simp))
    by_cases hfit : b.Fits size
    · rw [if_pos hfit] at hstep
      exact .inl ⟨[], b, C, rfl, hfit, hstep⟩
    rw [if_neg hfit] at hstep
    cases C with
    | nil => exact .inr ⟨by simpa using hfit, hstep⟩
    | cons c C =>
      -- the next block is neither null nor the start
      have hc : 0 < c.addr := hpos c (by simp)
      have hbehind : searchBehind m head start size (fuel + (c :: C).length) c.addr wrapped =
          searchTrace m head start size (fuel + (c :: C).length) c.addr wrapped := by
        rw [searchBehind, if_neg (fun h => hc.ne' h.1), if_neg (hstart c (by simp))]
      rcases ih (by simp) hC.2 (fun d hd => hpos d (by simp [hd]))
        (fun d hd => hstart d (List.mem_of_mem_tail hd)) with ⟨A, d, B, heq, hd, htrace⟩ |
          ⟨hnone, htrace⟩
      · refine .inl ⟨b :: A, d, B, by rw [heq]; rfl, hd, ?_⟩
        rw [show firstAddr Block.addr (c :: C) q = c.addr from rfl] at htrace hstep
        exact hstep.trans (by rw [hbehind, htrace]; rfl)
      · refine .inr ⟨?_, ?_⟩
        · intro d hd
          rcases List.mem_cons.mp hd with rfl | hd
          · exact hfit
          · exact hnone d hd
        · rw [show firstAddr Block.addr (c :: C) q = c.addr from rfl] at htrace hstep
          apply hstep.trans
          rw [hbehind, htrace, Option.map_map]
          rfl

end Step

/-! ## The whole search -/

variable {h : Heap} {L : List Block}

lemma Spread.nodup (hs : Spread L) : (L.map Block.addr).Nodup := by
  refine List.pairwise_map.mpr (hs.apart.imp fun {b c} hbc heq => ?_)
  rcases hbc.header with hbc | hbc <;> simp only [bhSize] at hbc <;> omega

/-- There are fewer distinct addresses than words. -/
lemma length_lt_word {l : List ℕ} (hnd : l.Nodup) (h : ∀ a ∈ l, a ≠ 0 ∧ a < word) :
    l.length < word := by
  have hsub : l.toFinset ⊆ (Finset.range word).erase 0 := fun a ha => by
    obtain ⟨h0, hlt⟩ := h a (List.mem_toFinset.mp ha)
    exact Finset.mem_erase.mpr ⟨h0, Finset.mem_range.mpr hlt⟩
  have hcard := Finset.card_le_card hsub
  rw [List.toFinset_card_of_nodup hnd,
    Finset.card_erase_of_mem (Finset.mem_range.mpr (by decide)), Finset.card_range] at hcard
  exact hcard.trans_lt (by decide)

lemma Spread.length_lt (hs : Spread L) : L.length < word := by
  rw [← List.length_map (f := Block.addr)]
  refine length_lt_word hs.nodup fun a ha => ?_
  obtain ⟨b, hb, rfl⟩ := List.mem_map.mp ha
  exact ⟨(hs.pos hb).ne', hs.addr_lt hb⟩

/-- Where `malloc` starts to search. -/
def searchStart (h : Heap) : ℕ := if h.lastFit ≠ 0 then h.lastFit else h.head

lemma searchStart_mem (hr : BlockRep h L) (hne : L ≠ []) :
    ∃ A s B, L = A ++ s :: B ∧ s.addr = searchStart h := by
  have hmem : ∃ s ∈ L, s.addr = searchStart h := by
    rw [searchStart]
    split_ifs with hfit
    · exact hr.lastFit.resolve_left hfit
    · obtain ⟨s, B, rfl⟩ := List.exists_cons_of_ne_nil hne
      exact ⟨s, by simp, hr.head.symm⟩
  obtain ⟨s, hs, heq⟩ := hmem
  obtain ⟨A, B, rfl⟩ := List.append_of_mem hs
  exact ⟨A, s, B, rfl, heq⟩

/-- What one pass of the search has found, and the blocks that it has visited: each at most once. -/
structure Searched (L : List Block) (size : ℕ) (r : ℕ × List ℕ) : Prop where
  visited : ∃ V : List Block, V.Subperm L ∧ r.2 = V.map Block.addr
  found : r.1 = 0 ∧ (∀ b ∈ L, ¬ b.Fits size) ∨ ∃ b ∈ L, b.Fits size ∧ r.1 = b.addr

lemma Searched.nodup {size : ℕ} {r : ℕ × List ℕ} (h : Searched L size r) (hs : Spread L) :
    r.2.Nodup := by
  obtain ⟨V, hV, heq⟩ := h.visited
  obtain ⟨V', hperm, hsub⟩ := hV
  rw [heq]
  exact (hperm.map Block.addr).nodup_iff.mp (hs.nodup.sublist (hsub.map _))

/-- **One pass of the search is exhaustive.** -/
lemma searchTrace_spec (hr : BlockRep h L) (hs : Spread L) (size : ℕ) :
    ∃ r, searchTrace h.mem h.head (searchStart h) size word (searchStart h) false = some r ∧
      Searched L size r := by
  obtain ⟨f, hf⟩ := Nat.exists_eq_add_of_le' hs.length_lt.le
  rcases eq_or_ne L [] with rfl | hne
  · have hstart : searchStart h = 0 := by
      have hfit : h.lastFit = 0 := hr.lastFit.resolve_right (by simp)
      rw [searchStart, hfit, if_neg (not_not.mpr rfl)]
      exact hr.head
    refine ⟨(0, []), ?_, ⟨[], List.Subperm.refl _, rfl⟩, .inl ⟨rfl, by simp⟩⟩
    rw [hstart, show word = (word - 1) + 1 from rfl]
    rfl
  obtain ⟨A, s, B, rfl, hstart⟩ := searchStart_mem hr hne
  have hother : ∀ b ∈ A ++ B, b.addr ≠ s.addr := by
    have hnd := (List.perm_middle.map Block.addr).nodup_iff.mp hs.nodup
    intro b hb heq
    exact (List.nodup_cons.mp hnd).1 (heq ▸ List.mem_map_of_mem hb)
  have hlist := linked_append.mp hr.linked
  rw [hf, ← hstart, List.length_append, ← Nat.add_assoc]
  -- from the start to the end of the list
  rcases @searchTrace_segment h.mem h.head s.addr size (f + A.length) (lastAddr Block.addr 0 A) 0
      false (s :: B) (by simp) hlist.2 (fun b hb => hs.pos (List.mem_append_right _ hb))
      (fun b hb => hother b (by simp [show b ∈ B from hb])) with
    ⟨C, b, D, heq, hfit, htrace⟩ | ⟨hnone, htrace⟩
  · have hsub : (C ++ [b]).Subperm (A ++ s :: B) := by
      rw [heq]
      exact List.Sublist.subperm (by simp)
    exact ⟨_, htrace, ⟨_, hsub, rfl⟩, .inr ⟨b, hsub.subset (by simp), hfit, rfl⟩⟩
  have hhead : h.head = firstAddr Block.addr A s.addr := hr.head.trans (by cases A <;> rfl)
  rw [show firstAddr Block.addr (s :: B) 0 = s.addr from rfl] at htrace
  rw [htrace]
  cases A with
  | nil =>
    -- the search has started at `head`
    have hbehind : searchBehind h.mem h.head s.addr size f 0 false = some (0, []) := by
      rw [searchBehind, if_pos ⟨rfl, rfl⟩,
        if_neg (not_not.mpr (show s.addr = h.head from hhead.symm))]
    refine ⟨(0, (s :: B).map Block.addr), ?_, ⟨_, List.Subperm.refl _, rfl⟩, .inl ⟨rfl, hnone⟩⟩
    rw [List.length_nil, Nat.add_zero, hbehind, Option.map_some, List.append_nil]
  | cons a A =>
    -- it wraps around, and stops at the start
    have ha : s.addr ≠ h.head := by
      rw [hhead]
      exact (hother a (by simp)).symm
    have hbehind : searchBehind h.mem h.head s.addr size (f + (a :: A).length) 0 false =
        searchTrace h.mem h.head s.addr size (f + (a :: A).length) h.head true := by
      rw [searchBehind, if_pos ⟨rfl, rfl⟩, if_pos ha]
    rw [hbehind, hhead]
    have hsecond := @searchTrace_segment h.mem h.head s.addr size f 0 s.addr true (a :: A)
      (by simp) hlist.1 (fun b hb => hs.pos (List.mem_append_left _ hb))
      (fun b hb => hother b (by simp [show b ∈ A from hb]))
    rw [← hhead] at hsecond ⊢
    rcases hsecond with ⟨C, b, D, heq, hfit, htrace⟩ | ⟨hnone', htrace⟩
    · have hsub : (s :: B ++ (C ++ [b])).Subperm (a :: A ++ s :: B) := by
        rw [heq]
        refine List.perm_append_comm.subperm.trans (List.Sublist.subperm ?_)
        exact List.Sublist.append (by simp) (List.Sublist.refl _)
      refine ⟨(b.addr, (s :: B).map Block.addr ++ (C ++ [b]).map Block.addr), by rw [htrace]; rfl,
        ⟨_, hsub, List.map_append.symm⟩, .inr ⟨b, hsub.subset (by simp), hfit, rfl⟩⟩
    · have hend : searchBehind h.mem h.head s.addr size f s.addr true = some (0, []) := by
        rw [searchBehind, if_neg (by simp), if_pos rfl]
      refine ⟨(0, (s :: B).map Block.addr ++ (a :: A).map Block.addr), ?_,
        ⟨s :: B ++ a :: A, List.perm_append_comm.subperm, List.map_append.symm⟩,
        .inl ⟨rfl, fun b hb => ?_⟩⟩
      · rw [htrace, hend]
        simp
      · rcases List.mem_append.mp hb with hb | hb
        · exact hnone' b hb
        · exact hnone b hb

/-- What the search of `malloc` finds. -/
lemma BlockRep.search (hr : BlockRep h L) (hs : Spread L) (size : ℕ) :
    (∃ b ∈ L, b.Fits size ∧
      searchFit h.mem h.head (searchStart h) size word (searchStart h) false = some b.addr) ∨
    (∀ b ∈ L, ¬ b.Fits size) ∧
      searchFit h.mem h.head (searchStart h) size word (searchStart h) false = some 0 := by
  obtain ⟨r, htrace, hr⟩ := searchTrace_spec hr hs size
  have hfit := searchTrace_fst h.mem h.head (searchStart h) size word (searchStart h) false
  rw [htrace, Option.map_some] at hfit
  rw [← hfit]
  rcases hr.found with ⟨hzero, hnone⟩ | ⟨b, hb, hbfit, hba⟩
  · exact .inr ⟨hnone, by rw [hzero]⟩
  · exact .inl ⟨b, hb, hbfit, by rw [hba]⟩

end Cuore
