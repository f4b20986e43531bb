import Cuore.Mem.Pma.Pieces

/-!
# Allocation of physical pages

`pma_alloc_from_zone` takes a piece from the lists, cuts off the gap before the first aligned page,
cuts off the pages behind those that were asked for, and hands the rest out.  It can fail after it
has cut off the gap: then both parts go back on the lists, as two pieces that touch.

`AllocResult` says what comes of it, in terms of the piece that `firstFit` names, and
`PmaInv.allocFromZone` that this is what the function does.  The piece is at least as long as the
alignment, so that the gap never reaches its end.
-/

namespace Cuore

open Function Pma Piece

variable {A : PmaArea} {F : ℕ → Prop} {s s' : Pma} {free rest : List (PmaZoneId × Piece)}
  {hand live : List Piece} {z : PmaZoneId} {b : Piece} {m n k w j : ℕ}

/-! ## Splitting a block -/

lemma blockSize_setSize_of_ne {a a' v : ℕ} (h : a' ≠ a) :
    ((s.setSize a v).hdr a').blockSize = (s.hdr a').blockSize := by
  rw [PmaFreeBlock.blockSize, sizes_raw, sizes_setSize, update_of_ne h]
  rfl

lemma blockSize_setSize {a f : ℕ} (hn : 2 ∣ n) (hw : n < word) (hf : f < 2) :
    ((s.setSize a (n ||| f)).hdr a).blockSize = n := by
  rw [PmaFreeBlock.blockSize, sizes_raw, sizes_setSize, update_self]
  exact or_and_wnot_one hn hw hf

/-- What `block_split` writes. -/
lemma blockSplit_sizes {a : ℕ} (hn : 2 ∣ n) (hlt : n < word)
    (hrest : 2 ∣ wsub (s.hdr a).blockSize n) (hne : wadd a n ≠ a) :
    ((Cuore.blockSplit a n s).2.hdr a).blockSize = n ∧
      ((Cuore.blockSplit a n s).2.hdr (wadd a n)).blockSize = wsub (s.hdr a).blockSize n ∧
      ∀ x, x ≠ a → x ≠ wadd a n → (Cuore.blockSplit a n s).2.hdr x = s.hdr x := by
  refine ⟨?_, ?_, fun x hx hx' => ?_⟩
  · exact blockSize_setSize hn hlt (Nat.and_lt_two_pow _ (n := 1) (by norm_num))
  · exact (blockSize_setSize_of_ne hne).trans
      (blockSize_setSize hrest (Nat.mod_lt _ (by norm_num)) (by norm_num))
  · exact (update_of_ne hx _ _).trans (update_of_ne hx' _ _)

/-- `block_split` cuts a piece in the hand in two. -/
lemma PmaInv.blockSplit (h : PmaInv A F s free (⟨b.start, m + n⟩ :: hand) live)
    (hz : InZone A z ⟨b.start, m + n⟩) (hm : 0 < m) (hn : 0 < n)
    (hb : (s.hdr (b.start * pageSize)).blockSize = (m + n) * pageSize) :
    ∃ s', Cuore.blockSplit (b.start * pageSize) (m * pageSize) s = ((b.start + m) * pageSize, s') ∧
      PmaInv A F s' free (⟨b.start, m⟩ :: ⟨b.start + m, n⟩ :: hand) live ∧
      (s'.hdr (b.start * pageSize)).blockSize = m * pageSize ∧
      (s'.hdr ((b.start + m) * pageSize)).blockSize = n * pageSize := by
  have hword := h.stop_lt_word hz
  simp only [Piece.stop, Nat.add_mul] at hword
  have hne : (b.start + m) * pageSize ≠ b.start * pageSize := by
    rw [Ne, mul_pageSize_inj]
    omega
  have heven : ∀ k, 2 ∣ k * pageSize := fun k => Dvd.dvd.mul_left (by norm_num [pageSize]) k
  have hstart : wadd (b.start * pageSize) (m * pageSize) = (b.start + m) * pageSize := by
    rw [wadd_of_lt (by omega), Nat.add_mul]
  have hrest : wsub ((m + n) * pageSize) (m * pageSize) = n * pageSize := by
    rw [Nat.add_mul, wsub_of_le (by omega) (by omega), Nat.add_sub_cancel_left]
  have hcut := h.cut hm hn
  have hwrite := hcut.writeAt (b := ⟨b.start + m, n⟩) (by simp) (start_mem hn)
    { s.hdr ((b.start + m) * pageSize) with size := n * pageSize ||| 1 }
  have hwrite' := hwrite.writeAt (b := ⟨b.start, m⟩) (by simp) (start_mem hm)
    { (s.setSize ((b.start + m) * pageSize) (n * pageSize ||| 1)).hdr (b.start * pageSize) with
      size := m * pageSize ||| (((s.setSize ((b.start + m) * pageSize) (n * pageSize ||| 1)).hdr
        (b.start * pageSize)).size &&& 1) }
  refine ⟨_, ?_, hwrite', ?_, ?_⟩
  · rw [Cuore.blockSplit, hb, hrest, hstart]
    rfl
  · exact blockSize_setSize (heven m) (by omega) (Nat.and_lt_two_pow _ (n := 1) (by norm_num))
  · refine (blockSize_setSize_of_ne hne).trans ?_
    exact blockSize_setSize (heven n) (by omega) (by norm_num)

/-! ## Taking pages of a piece -/

/-- The pages from `p` on, `n` of them, as a piece, or none. -/
def pagesFrom (p n : ℕ) : List Piece := if 0 < n then [⟨p, n⟩] else []

@[simp] lemma pagesFrom_zero (p : ℕ) : pagesFrom p 0 = [] := rfl

lemma pagesFrom_of_pos {p n : ℕ} (hn : 0 < n) : pagesFrom p n = [⟨p, n⟩] := if_pos hn

lemma mem_pagesFrom {p n : ℕ} : b ∈ pagesFrom p n ↔ 0 < n ∧ b = ⟨p, n⟩ := by
  unfold pagesFrom
  split_ifs with hn <;> simp [hn]

lemma InZone.left (h : InZone A z ⟨b.start, m + n⟩) : InZone A z ⟨b.start, m⟩ := by
  obtain ⟨hview, hlo, hhi⟩ := h
  simp only [Piece.stop] at hhi
  exact ⟨hview, hlo, by simp only [Piece.stop]; omega⟩

lemma InZone.right (h : InZone A z ⟨b.start, m + n⟩) : InZone A z ⟨b.start + m, n⟩ := by
  obtain ⟨hview, hlo, hhi⟩ := h
  simp only [Piece.stop] at hlo hhi
  exact ⟨hview, by dsimp only; omega, by simp only [Piece.stop]; omega⟩

/-- The end of `pma_alloc_from_zone`: the piece in the hand is handed out. -/
lemma PmaInv.finish (h : PmaInv A F s free [b] live) (hz : InZone A z b) :
    PmaInv A F (pmaForPages (pmaPageSetUsed z) (b.start * pageSize / pageSize)
      (b.size * pageSize / pageSize)
        (blockMarkUsed s (b.start * pageSize))) free [] (b :: live) := by
  rw [Nat.mul_div_cancel _ pageSize_pos, Nat.mul_div_cancel _ pageSize_pos]
  have hpos := h.packed.pos b (by simp)
  exact (h.writeAt (by simp) (start_mem hpos) _).give hz

/-- The pages below the end of the address space end there. -/
lemma mul_pageSize_add_lt {i : ℕ} (hk : k * pageSize < word) (hi : i < pageSize) :
    k * pageSize + i < word := by
  have hpages : word = 2 ^ 52 * pageSize := rfl
  rw [hpages] at hk ⊢
  have hlt : k + 1 ≤ 2 ^ 52 := Nat.lt_of_mul_lt_mul_right hk
  calc k * pageSize + i < (k + 1) * pageSize := by rw [Nat.succ_mul]; omega
    _ ≤ 2 ^ 52 * pageSize := Nat.mul_le_mul_right _ hlt

lemma wadd_header (hk : k * pageSize < word) :
    wadd (k * pageSize) pmaBlockHeaderSize = k * pageSize + pmaBlockHeaderSize :=
  wadd_of_lt (mul_pageSize_add_lt hk (by decide))

/-- `pmaTakeBlock` puts a piece back that has too few pages. -/
lemma PmaInv.takeBlock_short (h : PmaInv A F s free [b] live) (hz : InZone A z b)
    (hk : k * pageSize < word) (hb : (s.hdr (b.start * pageSize)).blockSize = b.size * pageSize)
    (hshort : b.size < k) :
    ∃ s', pmaTakeBlock z (k * pageSize) (b.start * pageSize) s = some (0, s') ∧
      PmaInv A F s' ((z, b) :: free) [] live := by
  have hlt : b.size * pageSize < k * pageSize := Nat.mul_lt_mul_of_pos_right hshort pageSize_pos
  have hheader := wadd_header hk
  obtain ⟨s₁, hput, -, h₁⟩ := h.put hz hb
  refine ⟨s₁, ?_, h₁⟩
  unfold pmaTakeBlock
  rw [hb, hheader, if_neg (by omega), if_pos hlt, hput]
  rfl

/-- `pmaTakeBlock` hands out the first pages of a piece that has enough, and puts the others
back. -/
lemma PmaInv.takeBlock (h : PmaInv A F s free [b] live) (hz : InZone A z b) (hk : 0 < k)
    (hb : (s.hdr (b.start * pageSize)).blockSize = b.size * pageSize) (hlong : k ≤ b.size) :
    ∃ s', pmaTakeBlock z (k * pageSize) (b.start * pageSize) s = some (b.start * pageSize, s') ∧
      PmaInv A F s' ((pagesFrom (b.start + k) (b.size - k)).map (Prod.mk z) ++ free) []
        (⟨b.start, k⟩ :: live) := by
  have hword := h.stop_lt_word hz
  obtain ⟨p, size⟩ := b
  dsimp only at hb hlong ⊢
  obtain ⟨r, rfl⟩ := Nat.exists_eq_add_of_le hlong
  simp only [Piece.stop, Nat.add_mul] at hword
  have hheader : wadd (k * pageSize) pmaBlockHeaderSize = k * pageSize + pmaBlockHeaderSize :=
    wadd_header (by omega)
  unfold pmaTakeBlock
  rw [hb, hheader, Nat.add_sub_cancel_left]
  rcases Nat.eq_zero_or_pos r with rfl | hr
  · rw [Nat.add_zero] at h hz ⊢
    refine ⟨_, ?_, h.finish hz⟩
    rw [if_neg (by omega), if_neg (Nat.lt_irrefl _)]
  · obtain ⟨s₁, hsplit, h₁, hb₁, hr₁⟩ := PmaInv.blockSplit (b := ⟨p, k + r⟩) h hz hk hr hb
    have hswap : PmaInv A F s₁ free (⟨p + k, r⟩ :: [⟨p, k⟩]) live :=
      h₁.regroup (SameBlocks.refl s₁) h₁.holds (List.Perm.swap _ _ _) h₁.zoned
    obtain ⟨s₂, hput, -, h₂⟩ := hswap.put (InZone.right (b := ⟨p, k + r⟩) hz) hr₁
    have hgt : (k + r) * pageSize > k * pageSize + pmaBlockHeaderSize := by
      simp only [pageSize, pmaBlockHeaderSize]
      omega
    rw [pagesFrom_of_pos hr]
    refine ⟨_, ?_, h₂.finish (InZone.left (b := ⟨p, k + r⟩) hz)⟩
    rw [if_pos hgt]
    dsimp only at hsplit hput ⊢
    rw [hsplit]
    dsimp only
    rw [hput]
    rfl

/-! ## Allocation from a zone -/

/-- Rounding up to a power of two, on words. -/
lemma wadd_and_wnot {x : ℕ} (hj : j ≤ 64) (hx : x + (2 ^ j - 1) < word) :
    wadd x (2 ^ j - 1) &&& wnot (2 ^ j - 1) = alignUp (2 ^ j) x := by
  have hpos := Nat.two_pow_pos j
  rw [wadd_of_lt hx, and_wnot_pred hj hx, alignDown, alignUp, Nat.add_sub_assoc hpos]

/-- Sizes of whole pages are not rounded. -/
lemma pageRound (hk : k * pageSize < word) :
    wadd (k * pageSize) (pageSize - 1) &&& wnot (pageSize - 1) = k * pageSize := by
  have hlast : k * pageSize + (2 ^ 12 - 1) < word := mul_pageSize_add_lt hk (by decide)
  exact (wadd_and_wnot (j := 12) (by decide) hlast).trans
    (alignUp_of_dvd pageSize_pos (Nat.dvd_mul_left _ _))

/-- The pages of the gap before the first page of a piece that is aligned to `w` pages. -/
def headGap (w : ℕ) (b : Piece) : ℕ := alignUp w b.start - b.start

/-- What is left of a piece when `k` pages behind the first `g` have been taken. -/
def leftover (b : Piece) (g k : ℕ) : List Piece :=
  pagesFrom (b.start + (g + k)) (b.size - (g + k)) ++ pagesFrom b.start g

/-- **What comes of an allocation** of `k` pages, aligned to `w`: the address that is returned and
the state afterwards. -/
inductive AllocResult (A : PmaArea) (F : ℕ → Prop) (s : Pma) (free : List (PmaZoneId × Piece))
    (live : List Piece) (z : PmaZoneId) (k w : ℕ) : ℕ → Pma → Prop
  /-- There is no block. -/
  | none (hfit : firstFit z ((k + (w - 1)) * pageSize) s = .none) :
      AllocResult A F s free live z k w 0 s
  /-- The block is too short: it goes back on the lists, cut in two if it starts with a gap. -/
  | short {b : Piece} {rest : List (PmaZoneId × Piece)} {s' : Pma}
      (hfit : firstFit z ((k + (w - 1)) * pageSize) s = some (b.start * pageSize))
      (hperm : free.Perm ((z, b) :: rest)) (hgap : headGap w b < b.size)
      (hshort : b.size < headGap w b + k)
      (hinv : PmaInv A F s' ((leftover b (headGap w b) 0).map (Prod.mk z) ++ rest) [] live) :
      AllocResult A F s free live z k w 0 s'
  /-- The pages behind the gap are handed out. -/
  | ok {b : Piece} {rest : List (PmaZoneId × Piece)} {s' : Pma}
      (hfit : firstFit z ((k + (w - 1)) * pageSize) s = some (b.start * pageSize))
      (hperm : free.Perm ((z, b) :: rest)) (hlong : headGap w b + k ≤ b.size)
      (hinv : PmaInv A F s' ((leftover b (headGap w b) k).map (Prod.mk z) ++ rest) []
        (⟨b.start + headGap w b, k⟩ :: live)) :
      AllocResult A F s free live z k w ((b.start + headGap w b) * pageSize) s'

/-- The sizes and alignments, in pages, that do not wrap. -/
structure PageRequest (k w : ℕ) : Prop where
  pos : 0 < k
  pow : ∃ j ≤ 51, w = 2 ^ j
  no_wrap : (k + (w - 1)) * pageSize < word

/-- The gap is shorter than the alignment, and behind it comes an aligned page. -/
lemma headGap_spec (hw : 0 < w) (b : Piece) :
    headGap w b < w ∧ w ∣ b.start + headGap w b ∧ alignUp w b.start = b.start + headGap w b := by
  have hle := le_alignUp hw b.start
  have hlt := alignUp_lt hw b.start
  have heq : b.start + headGap w b = alignUp w b.start := Nat.add_sub_cancel' hle
  exact ⟨by rw [headGap]; omega, heq ▸ dvd_alignUp w b.start, heq.symm⟩

lemma InZone.part {g : ℕ} (h : InZone A z b) (hle : g + k ≤ b.size) :
    InZone A z ⟨b.start + g, k⟩ := by
  obtain ⟨hview, hlo, hhi⟩ := h
  simp only [Piece.stop] at hhi
  exact ⟨hview, by dsimp only; omega, by simp only [Piece.stop]; omega⟩

/-- The gap in bytes: nothing wraps, since physical addresses have 52 bits. -/
lemma headGap_bytes (hj : j ≤ 51) (hb : b.start ≤ 2 ^ 40) :
    wadd (b.start * pageSize) (2 ^ j * pageSize - 1) &&& wnot (2 ^ j * pageSize - 1) =
        (b.start + headGap (2 ^ j) b) * pageSize ∧
      wsub ((b.start + headGap (2 ^ j) b) * pageSize) (b.start * pageSize) =
        headGap (2 ^ j) b * pageSize := by
  have hw := Nat.two_pow_pos j
  obtain ⟨hlt, -, halign⟩ := headGap_spec hw b
  have hbits : 2 ^ j * pageSize = 2 ^ (j + 12) := (pow_add 2 j 12).symm
  have hwmax : 2 ^ j ≤ 2 ^ 51 := Nat.pow_le_pow_right (by norm_num) hj
  have hpages : word = 2 ^ 52 * pageSize := rfl
  have hend : (b.start + 2 ^ j) * pageSize < word := by
    rw [hpages, Nat.mul_lt_mul_right pageSize_pos]
    exact lt_of_le_of_lt (Nat.add_le_add hb hwmax) (by decide)
  constructor
  · have hlast : b.start * pageSize + (2 ^ (j + 12) - 1) < word := by
      rw [Nat.add_mul, hbits] at hend
      omega
    rw [hbits, wadd_and_wnot (by omega) hlast, ← hbits, alignUp_mul hw pageSize_pos, halign]
  · have hle : (b.start + headGap (2 ^ j) b) * pageSize < word :=
      lt_of_le_of_lt (Nat.mul_le_mul_right _ (by omega)) hend
    rw [Nat.add_mul] at hle ⊢
    rw [wsub_of_le (Nat.le_add_right _ _) hle, Nat.add_sub_cancel_left]

/-- A block with a gap at its start is split, and the gap goes back on the lists. -/
lemma pmaAllocFromBlock_of_gap {size : ℕ} (hj : j ≤ 51) (hb : b.start ≤ 2 ^ 40)
    (hgap : 0 < headGap (2 ^ j) b) :
    pmaAllocFromBlock z size (2 ^ j * pageSize) (b.start * pageSize) s =
      (tlsfBlockInsert z (b.start * pageSize)
        (Cuore.blockSplit (b.start * pageSize) (headGap (2 ^ j) b * pageSize) s).2).bind
          (pmaTakeBlock z size ((b.start + headGap (2 ^ j) b) * pageSize)) := by
  obtain ⟨hphys, hbytes⟩ := headGap_bytes hj hb
  have hlt := (headGap_spec (Nat.two_pow_pos j) b).1
  have hpow : 2 ^ j ≤ 2 ^ 51 := Nat.pow_le_pow_right (by omega) hj
  have hend : (b.start + headGap (2 ^ j) b) * pageSize < 2 ^ 52 * pageSize :=
    Nat.mul_lt_mul_of_pos_right (by omega) pageSize_pos
  have hrest : wadd (b.start * pageSize) (headGap (2 ^ j) b * pageSize) =
      (b.start + headGap (2 ^ j) b) * pageSize := by
    rw [Nat.add_mul] at hend ⊢
    exact wadd_of_lt hend
  have hheader : headGap (2 ^ j) b * pageSize ≥ pmaBlockHeaderSize :=
    le_trans (by decide) (Nat.le_mul_of_pos_left pageSize hgap)
  unfold pmaAllocFromBlock
  dsimp only
  rw [hphys, hbytes, if_pos hheader, ← hrest]
  rfl

/-- The gap goes back on the lists, and the rest of the piece stays in the hand. -/
lemma PmaInv.cutGap (h : PmaInv A F s free [b] live) (hz : InZone A z b) (hj : j ≤ 51)
    (hb : (s.hdr (b.start * pageSize)).blockSize = b.size * pageSize)
    (hgap : headGap (2 ^ j) b < b.size) (size : ℕ) :
    ∃ s', pmaAllocFromBlock z size (2 ^ j * pageSize) (b.start * pageSize) s =
        (pmaTakeBlock z size ((b.start + headGap (2 ^ j) b) * pageSize) s') ∧
      PmaInv A F s' ((pagesFrom b.start (headGap (2 ^ j) b)).map (Prod.mk z) ++ free)
        [⟨b.start + headGap (2 ^ j) b, b.size - headGap (2 ^ j) b⟩] live ∧
      (s'.hdr ((b.start + headGap (2 ^ j) b) * pageSize)).blockSize =
        (b.size - headGap (2 ^ j) b) * pageSize := by
  have hstart : b.start ≤ 2 ^ 40 :=
    (Nat.le_add_right _ _).trans (hz.2.2.trans (h.addressable z hz.1))
  rcases Nat.eq_zero_or_pos (headGap (2 ^ j) b) with hzero | hg
  · obtain ⟨hphys, hbytes⟩ := headGap_bytes hj hstart
    rw [hzero] at hphys hbytes
    refine ⟨s, ?_, by rw [hzero]; exact h, by rw [hzero]; exact hb⟩
    unfold pmaAllocFromBlock
    dsimp only
    rw [hphys, hbytes, Nat.zero_mul, if_neg (by decide), if_neg (by decide), hzero, Nat.add_zero]
  · rw [pmaAllocFromBlock_of_gap hj hstart hg]
    obtain ⟨p, n⟩ := b
    dsimp only at *
    generalize headGap (2 ^ j) ⟨p, n⟩ = g at hgap hg ⊢
    obtain ⟨r, rfl⟩ := Nat.exists_eq_add_of_le hgap.le
    obtain ⟨s₁, hsplit, h₁, hb₁, hr₁⟩ :=
      PmaInv.blockSplit (b := ⟨p, g + r⟩) h hz hg (by omega) hb
    obtain ⟨s₂, hput, hsame₂, h₂⟩ := h₁.put (InZone.left (b := ⟨p, g + r⟩) hz) hb₁
    rw [Nat.add_sub_cancel_left, pagesFrom_of_pos hg]
    dsimp only at hsplit hput
    exact ⟨s₂, by rw [hsplit, hput]; rfl, h₂, by rw [hsame₂.blockSize, hr₁]⟩

/-- Sizes of whole pages are not rounded. -/
lemma pmaRequestSize_pages (hk : 0 < k) (hword : k * pageSize < word) :
    pmaRequestSize (k * pageSize) = k * pageSize := by
  have hheader : ¬k * pageSize < pmaBlockHeaderSize := by
    simp only [pageSize, pmaBlockHeaderSize]
    omega
  unfold pmaRequestSize
  rw [pageRound hword]
  exact if_neg hheader

/-- The pages to look for. -/
lemma pmaSearchSize_pages (hwrap : (k + (2 ^ j - 1)) * pageSize < word) :
    pmaSearchSize (k * pageSize) (2 ^ j * pageSize) = (k + (2 ^ j - 1)) * pageSize := by
  have hmul : 2 ^ j * pageSize - pageSize = (2 ^ j - 1) * pageSize := by
    rw [Nat.sub_mul, Nat.one_mul]
  unfold pmaSearchSize
  rw [Nat.add_mul] at hwrap ⊢
  rw [hmul, wadd_of_lt hwrap]
  split_ifs with hlarge
  · rfl
  · have hone : 2 ^ j = 1 := by
      have hle : ¬1 < 2 ^ j := fun hlt =>
        hlarge (lt_of_eq_of_lt (Nat.one_mul pageSize).symm
          (Nat.mul_lt_mul_of_pos_right hlt pageSize_pos))
      have := Nat.two_pow_pos j
      omega
    rw [hone, Nat.sub_self, Nat.zero_mul, Nat.add_zero]

/-- **`pma_alloc_from_zone`.** -/
lemma PmaInv.allocFromZone (h : PmaInv A F s free [] live) (hz : A.view z)
    (hreq : PageRequest k w) :
    ∃ ret s', pmaAllocFromZone z (k * pageSize) (w * pageSize) s = some (ret, s') ∧
      AllocResult A F s free live z k w ret s' := by
  obtain ⟨hk, ⟨j, hj, rfl⟩, hwrap⟩ := hreq
  have hkword : k * pageSize < word :=
    lt_of_le_of_lt (Nat.mul_le_mul_right _ (Nat.le_add_right k _)) hwrap
  unfold pmaAllocFromZone
  simp only [pmaRequestSize_pages hk hkword, pmaSearchSize_pages hwrap]
  rcases h.holds.locate hz ((k + (2 ^ j - 1)) * pageSize) with
    ⟨hfit, hlocate⟩ | ⟨b, rest, s₁, hfit, hlocate, hsame, hperm, hholds, hb, hpow⟩
  · exact ⟨0, s, by rw [hlocate]; rfl, .none hfit⟩
  have hzone : InZone A z b := h.zoned (z, b) (hperm.mem_iff.mpr List.mem_cons_self)
  have hb₁ := (hsame.blockSize (b.start * pageSize)).trans hb
  have h₁ := h.taken hsame hperm hholds
  rw [hlocate]
  dsimp only [Option.bind_eq_bind, Option.bind_some]
  -- the piece is not shorter than the alignment
  have hpage : pageSize = 2 ^ 12 := rfl
  have hlong : 2 ^ j ≤ b.size := by
    have := hpow (12 + j) (by omega) (by
      rw [pow_add, ← hpage, Nat.mul_comm]
      exact Nat.mul_le_mul_right _ (by omega))
    rw [pow_add, ← hpage, Nat.mul_comm] at this
    exact Nat.le_of_mul_le_mul_right this pageSize_pos
  have hgap : headGap (2 ^ j) b < b.size :=
    lt_of_lt_of_le (headGap_spec (Nat.two_pow_pos j) b).1 hlong
  obtain ⟨s₂, heq₂, h₂, hb₂⟩ := h₁.cutGap hzone hj hb₁ hgap (k * pageSize)
  have hzone₂ : InZone A z ⟨b.start + headGap (2 ^ j) b, b.size - headGap (2 ^ j) b⟩ :=
    hzone.part (by omega)
  rw [heq₂]
  rcases Nat.lt_or_ge (b.size - headGap (2 ^ j) b) k with hshort | henough
  · obtain ⟨s₃, heq₃, h₃⟩ := h₂.takeBlock_short hzone₂ hkword hb₂ hshort
    refine ⟨0, s₃, heq₃, .short hfit hperm hgap (by omega) ?_⟩
    rw [leftover, Nat.add_zero, pagesFrom_of_pos (by omega), List.map_append, List.append_assoc]
    exact h₃
  · obtain ⟨s₃, heq₃, h₃⟩ := h₂.takeBlock hzone₂ hk hb₂ henough
    refine ⟨_, s₃, heq₃, .ok hfit hperm (by omega) ?_⟩
    rw [leftover, ← Nat.sub_sub, ← Nat.add_assoc, List.map_append, List.append_assoc]
    exact h₃

/-! ## Allocation from both zones -/

/-- **What an allocation does**: it fails, or hands out `k` pages of the zone, aligned to `w`
pages. -/
def Allocated (A : PmaArea) (F : ℕ → Prop) (live : List Piece) (z : PmaZoneId) (k w ret : ℕ)
    (s : Pma) : Prop :=
  (ret = 0 ∧ ∃ free, PmaInv A F s free [] live) ∨
    ∃ p, ret = p * pageSize ∧ w ∣ p ∧ InZone A z ⟨p, k⟩ ∧
      ∃ free, PmaInv A F s free [] (⟨p, k⟩ :: live)

lemma AllocResult.allocated {ret : ℕ} (h : PmaInv A F s free [] live) (hw : 0 < w)
    (hr : AllocResult A F s free live z k w ret s') : Allocated A F live z k w ret s' := by
  cases hr with
  | none => exact .inl ⟨rfl, free, h⟩
  | short _ _ _ _ hinv => exact .inl ⟨rfl, _, hinv⟩
  | @ok b rest _ _ hperm hlong hinv =>
    have hz := h.zoned _ (hperm.mem_iff.mpr List.mem_cons_self)
    exact .inr ⟨_, rfl, (headGap_spec hw b).2.1, hz.part hlong, _, hinv⟩

/-- Page 0 is not handed out. -/
lemma PmaInv.ret_ne_zero {p : ℕ} (h : PmaInv A F s free hand (⟨p, k⟩ :: live)) (hF : ¬F 0) :
    p * pageSize ≠ 0 := by
  have hk := h.packed.pos ⟨p, k⟩ (by simp)
  have hp := (h.within ⟨p, k⟩ (by simp)).2 p (start_mem hk)
  refine (Nat.mul_pos (Nat.pos_of_ne_zero ?_) pageSize_pos).ne'
  rintro rfl
  exact hF hp

lemma PageRequest.align_pos (h : PageRequest k w) : 0 < w := by
  obtain ⟨j, -, rfl⟩ := h.pow
  exact Nat.two_pow_pos j

/-- The zones in turn fail, or one of them hands out pages. -/
lemma PmaInv.allocFromZones {total : ℕ} (h : PmaInv (pmaZones total) F s free [] live)
    (hF : ¬F 0) (hreq : PageRequest k w) :
    ∃ ret s', pmaAllocFromZones (k * pageSize) (w * pageSize) s = some (ret, s') ∧
      ∃ z, Allocated (pmaZones total) F live z k w ret s' := by
  have hw := hreq.align_pos
  obtain ⟨ret, s₁, heq, hr⟩ := h.allocFromZone (z := .normal) rfl hreq
  unfold pmaAllocFromZones
  rw [heq]
  dsimp only [Option.bind_eq_bind, Option.bind_some]
  rcases hr.allocated h hw with ⟨rfl, free₁, h₁⟩ | ⟨p, hret, hdvd, hz, free₁, h₁⟩
  · obtain ⟨ret, s₂, heq₂, hr₂⟩ := h₁.allocFromZone (z := .low) rfl hreq
    exact ⟨ret, s₂, by rw [if_pos rfl, heq₂], .low, hr₂.allocated h₁ hw⟩
  · have hne : ret ≠ 0 := hret ▸ h₁.ret_ne_zero hF
    exact ⟨ret, s₁, if_neg hne, .normal, .inr ⟨p, hret, hdvd, hz, free₁, h₁⟩⟩

end Cuore
