import Cuore.Mem.Pma.Zone

/-!
# Failed allocations

`pma_alloc_from_zone` looks at one block only, the first of the first list that is not empty, from
the class of the size on.  A class above 256 KiB has blocks of several sizes, and the search rounds
down, so that this block can be too short although another one is not.

* The allocation succeeds whenever a block has the pages exactly if then the block it looks at has
  them (`pmaAllocFromZone_finds_iff`).
* A failure leaves the zone as it is exactly if the block it looks at does not have a gap at the
  start that has been cut off by then (`pmaAllocFromZone_failure_iff`).
-/

namespace Cuore

open Function Pma Piece

variable {F : ℕ → Prop} {s s' : Pma} {free rest : List (PmaZoneId × Piece)} {live : List Piece}
  {z : PmaZoneId} {b : Piece} {a m n k p j total : ℕ}

/-! ## A block that has the pages -/

/-- **The lists of a zone**: aligned pieces that do not touch, each on the list of its size. -/
structure ZoneListState (z : PmaZoneId) (s : Pma) (free : List (PmaZoneId × Piece)) : Prop where
  inv : PmaInv (zoneLists z) (fun _ => True) s free [] []
  separate : free.Pairwise fun x y => Piece.Separate x.2 y.2

/-- The block at `a` has `k` pages from an aligned address on. -/
def FitsIn (s : Pma) (k align a : ℕ) : Prop :=
  ∃ q, align ∣ q ∧ a ≤ q ∧ q + k * pageSize ≤ a + (s.hdr a).blockSize

lemma view_zoneLists : (zoneLists z).view z = true := decide_eq_true rfl

/-- A piece has the pages exactly if they fit behind the gap. -/
lemma fitsIn_iff (hb : (s.hdr (b.start * pageSize)).blockSize = b.size * pageSize) :
    FitsIn s k (2 ^ j * pageSize) (b.start * pageSize) ↔ headGap (2 ^ j) b + k ≤ b.size := by
  have hw := Nat.two_pow_pos j
  obtain ⟨-, hdvd, halign⟩ := headGap_spec hw b
  rw [FitsIn, hb]
  constructor
  · rintro ⟨q, ⟨c, rfl⟩, hle, hfits⟩
    rw [Nat.mul_right_comm, Nat.mul_le_mul_right_iff pageSize_pos] at hle
    rw [Nat.mul_right_comm, ← Nat.add_mul, ← Nat.add_mul,
      Nat.mul_le_mul_right_iff pageSize_pos] at hfits
    -- the first aligned page is the end of the gap
    have hmono := alignUp_mono (n := 2 ^ j) hle
    rw [alignUp_of_dvd hw (Nat.dvd_mul_right _ c), halign] at hmono
    omega
  · intro hle
    refine ⟨(b.start + headGap (2 ^ j) b) * pageSize, Nat.mul_dvd_mul_right hdvd _,
      Nat.mul_le_mul_right _ (Nat.le_add_right _ _), ?_⟩
    rw [← Nat.add_mul, ← Nat.add_mul]
    exact Nat.mul_le_mul_right _ (by omega)

/-- Page 0 is aligned. -/
lemma headGap_of_start_eq_zero (hw : 0 < m) (hb : b.start = 0) : headGap m b = 0 := by
  obtain ⟨hlt, hdvd, -⟩ := headGap_spec hw b
  rw [hb, Nat.zero_add] at hdvd
  exact Nat.eq_zero_of_dvd_of_lt hdvd hlt

lemma start_add_headGap_eq_zero (hw : 0 < m) :
    (b.start + headGap m b) * pageSize = 0 ↔ b.start * pageSize = 0 := by
  rw [Nat.mul_eq_zero, Nat.mul_eq_zero, or_iff_left pageSize_pos.ne', or_iff_left pageSize_pos.ne']
  constructor
  · intro h
    omega
  · intro h
    rw [headGap_of_start_eq_zero hw h, h]

lemma ZoneState.lists (h : ZoneState z total s free) : ZoneListState z s free where
  inv :=
    { h.inv with
      total_eq := fun hbits => absurd hbits Bool.false_ne_true
      addressable := fun _ _ => Nat.le_refl _
      zoned := fun x hx => by
        obtain ⟨hview, -, hhi⟩ := h.inv.zoned x hx
        exact ⟨hview, Nat.zero_le _, hhi.trans (h.inv.addressable x.1 hview)⟩
      liveZoned := by simp
      clear := fun hbits => absurd hbits Bool.false_ne_true }
  separate := h.separate

/-- A zone in which the blocks with 64 and with 65 pages are on one list, the shorter one first. -/
def mixedZone : Option Pma := zoneWith .low 1024 [⟨16, 65⟩, ⟨256, 64⟩]

/-- **When an allocation finds the pages.**  It succeeds whenever a block of the zone has the pages
exactly if, whenever one does, the block that it looks at is one that does (and is not at address
0, which stands for a failure). -/
theorem pmaAllocFromZone_finds_iff (h : ZoneListState z s free) (hk : 0 < k) (hj : j ≤ 51) :
    ((∃ a, OnFreeList s z a ∧ FitsIn s k (2 ^ j * pageSize) a) →
      ∃ ret s', pmaAllocFromZone z (wmul k pageSize) (2 ^ j * pageSize) s = some (ret, s') ∧
        ret ≠ 0) ↔
    ((∃ a, OnFreeList s z a ∧ FitsIn s k (2 ^ j * pageSize) a) →
      ∃ a, firstFit z (pmaSearchSize (k * pageSize) (2 ^ j * pageSize)) s = some a ∧ a ≠ 0 ∧
        FitsIn s k (2 ^ j * pageSize) a) := by
  refine imp_congr_right fun ⟨a, ha, hfits⟩ => ?_
  obtain ⟨b, hb, rfl, hsize⟩ := (h.inv.holds.onFreeList_iff view_zoneLists).mp ha
  rw [fitsIn_iff hsize] at hfits
  -- nothing wraps
  have hsmall : b.size < 2 ^ 36 := (h.inv.within b (by simpa using ⟨z, hb⟩)).1
  have hpages : word = 2 ^ 52 * pageSize := rfl
  have hpow : 2 ^ j ≤ 2 ^ 51 := Nat.pow_le_pow_right (by omega) hj
  have hwrap : (k + (2 ^ j - 1)) * pageSize < word := by
    rw [hpages, Nat.mul_lt_mul_right pageSize_pos]
    exact lt_of_le_of_lt (Nat.add_le_add (show k ≤ 2 ^ 36 by omega)
      ((Nat.sub_le _ _).trans hpow)) (by decide)
  have hbytes : wmul k pageSize = k * pageSize :=
    wmul_of_lt (lt_of_le_of_lt (Nat.mul_le_mul_right _ (Nat.le_add_right _ _)) hwrap)
  obtain ⟨ret, s', heq, hr⟩ := h.inv.allocFromZone view_zoneLists ⟨hk, ⟨j, hj, rfl⟩, hwrap⟩
  rw [hbytes, heq, pmaSearchSize_pages hwrap]
  simp only [Option.some.injEq, Prod.mk.injEq]
  cases hr with
  | none hfit =>
    rw [hfit]
    simp
  | @short c rest _ hfit hperm hgap hshort hinv =>
    have hc := h.inv.holds.blockSize_eq (hperm.mem_iff.mpr List.mem_cons_self)
    rw [hfit]
    simp only [Option.some.injEq, exists_eq_left', fitsIn_iff hc]
    refine ⟨?_, fun h => absurd h.2 (Nat.not_le.mpr hshort)⟩
    rintro ⟨ret, s'', ⟨rfl, -⟩, hne⟩
    exact absurd rfl hne
  | @ok c rest _ hfit hperm hlong hinv =>
    have hc := h.inv.holds.blockSize_eq (hperm.mem_iff.mpr List.mem_cons_self)
    rw [hfit]
    simp only [Option.some.injEq, exists_eq_left', fitsIn_iff hc]
    have hzero := start_add_headGap_eq_zero (b := c) (Nat.two_pow_pos j)
    constructor
    · rintro ⟨ret, s'', ⟨rfl, -⟩, hne⟩
      exact ⟨fun h0 => hne (hzero.mpr h0), hlong⟩
    · rintro ⟨hne, -⟩
      exact ⟨_, s', ⟨rfl, rfl⟩, fun h0 => hne (hzero.mp h0)⟩

/-- In the mixed zone, 64 pages are found. -/
theorem mixedZone_finds_block : ∃ s, mixedZone = some s ∧
    (∃ a, OnFreeList s .low a ∧ FitsIn s 64 (2 ^ 0 * pageSize) a) ∧
      ∃ ret s', pmaAllocFromZone .low (wmul 64 pageSize) (2 ^ 0 * pageSize) s = some (ret, s') ∧
        ret ≠ 0 := by
  obtain ⟨s, hs⟩ : ∃ s, mixedZone = some s := Option.isSome_iff_exists.mp (by decide +kernel)
  have h := (zoneWith_state (by decide) (by decide) (by decide) hs).lists
  have hfit : mixedZone.bind (fun s =>
      firstFit .low (pmaSearchSize (64 * pageSize) (2 ^ 0 * pageSize)) s) =
        some (256 * pageSize) := by
    decide +kernel
  rw [hs, Option.bind_some] at hfit
  have hblock := (h.inv.holds.block_iff view_zoneLists).mpr ⟨⟨256, 64⟩, by decide, rfl, rfl⟩
  have hfits : FitsIn s 64 (2 ^ 0 * pageSize) (256 * pageSize) := by
    refine ⟨256 * pageSize, by decide, Nat.le_refl _, ?_⟩
    rw [hblock.2]
  have hexists : ∃ a, OnFreeList s .low a ∧ FitsIn s 64 (2 ^ 0 * pageSize) a :=
    ⟨_, hblock.1, hfits⟩
  exact ⟨s, hs, hexists, (pmaAllocFromZone_finds_iff h (by decide) (by decide)).mpr
    (fun _ => ⟨_, hfit, by decide, hfits⟩) hexists⟩

/-- In the same zone, 65 pages are not found. -/
theorem mixedZone_misses_block : ∃ s s' free, mixedZone = some s ∧ ZoneListState .low s free ∧
    (∃ a, OnFreeList s .low a ∧ FitsIn s 65 pageSize a) ∧
      pmaAllocFromZone .low (65 * pageSize) pageSize s = some (0, s') := by
  obtain ⟨s, hs⟩ : ∃ s, mixedZone = some s := Option.isSome_iff_exists.mp (by decide +kernel)
  have h := (zoneWith_state (by decide) (by decide) (by decide) hs).lists
  have hrun : mixedZone.bind (fun s =>
      (pmaAllocFromZone .low (65 * pageSize) pageSize s).map Prod.fst) = some 0 := by
    decide +kernel
  rw [hs, Option.bind_some, Option.map_eq_some_iff] at hrun
  obtain ⟨⟨a, s'⟩, heq, rfl⟩ := hrun
  have hblock := (h.inv.holds.block_iff view_zoneLists).mpr
    ⟨⟨16, 65⟩, by decide, rfl, rfl⟩
  refine ⟨s, s', _, hs, h, ⟨16 * pageSize, hblock.1, 16 * pageSize, by decide, Nat.le_refl _, ?_⟩,
    heq⟩
  rw [hblock.2]

/-! ## What a failure leaves behind -/

/-- The sizes that are asked for are whole pages, or wrap and become the size of a header. -/
lemma pmaRequestSize_cases (hpage : pageSize ≤ n) (hword : n < word) :
    pmaRequestSize n = pmaBlockHeaderSize ∨
      ∃ k, 0 < k ∧ k * pageSize < word ∧ pmaRequestSize n = k * pageSize := by
  have hbits : pageSize - 1 = 2 ^ 12 - 1 := rfl
  unfold pmaRequestSize
  dsimp only
  rcases Nat.lt_or_ge (n + (2 ^ 12 - 1)) word with hlt | hge
  · right
    have hround : wadd n (pageSize - 1) &&& wnot (pageSize - 1) = alignUp pageSize n := by
      rw [hbits, wadd_and_wnot (by decide) hlt]
      rfl
    obtain ⟨k, hk⟩ := dvd_alignUp pageSize n
    rw [Nat.mul_comm] at hk
    have hle := le_alignUp pageSize_pos n
    have hlast := alignUp_lt pageSize_pos n
    rw [hround, hk]
    rw [hk] at hle hlast
    have hpos : 0 < k := Nat.pos_of_mul_pos_right (lt_of_lt_of_le pageSize_pos (hpage.trans hle))
    have hheader : ¬k * pageSize < pmaBlockHeaderSize := by
      simp only [pageSize, pmaBlockHeaderSize] at hpage hle ⊢
      omega
    exact ⟨k, hpos, lt_of_lt_of_le hlast hlt, if_neg hheader⟩
  · left
    have hwrapped : wadd n (pageSize - 1) < 2 ^ 12 := by
      rw [wadd, hbits, Nat.mod_eq_sub_mod hge]
      exact lt_of_le_of_lt (Nat.mod_le _ _) (by omega)
    have hround : wadd n (pageSize - 1) &&& wnot (pageSize - 1) = 0 := by
      rw [hbits, and_wnot_pred (by decide) (wadd_lt _ _), ← hbits, alignDown,
        Nat.div_eq_of_lt hwrapped, Nat.zero_mul]
    rw [hround]
    exact if_pos (by decide)

/-- What `pmaTakeBlock` returns. -/
lemma pmaTakeBlock_ret (h : pmaTakeBlock z m n s = some (a, s')) :
    a = n ∨ a = 0 ∧ (s.hdr n).blockSize < m ∧ ∃ t, tlsfBlockInsert z n s = some t := by
  unfold pmaTakeBlock at h
  dsimp only at h
  split_ifs at h with hlong hshort
  · obtain ⟨t, -, heq⟩ := Option.bind_eq_some_iff.mp h
    exact .inl (Prod.mk.inj (Option.some.inj heq)).1.symm
  · obtain ⟨t, hput, heq⟩ := Option.bind_eq_some_iff.mp h
    exact .inr ⟨(Prod.mk.inj (Option.some.inj heq)).1.symm, hshort, t, hput⟩
  · exact .inl (Prod.mk.inj (Option.some.inj h)).1.symm

/-- A block is put on a list exactly if it is shorter than `2 ^ 48`. -/
lemma TlsfHolds.insert_some {Z : PmaZoneId → Bool} (h : TlsfHolds Z s free) (hz : Z z)
    (hsize : (s.hdr a).blockSize < 2 ^ 48) : ∃ s', tlsfBlockInsert z a s = some s' := by
  obtain ⟨-, L, hL, -⟩ := h
  rcases hmap : tlsfMappingInsert (s.hdr a).blockSize with ⟨fl, sl⟩
  have hlt := tlsfMappingInsert_fst_lt_iff.mpr hsize
  rw [hmap] at hlt
  obtain ⟨s', heq, -⟩ := tlsfInsertFreeBlock_spec (b := a) (hL.head_ne_null (k := (z, fl, sl)) hz)
  refine ⟨s', ?_⟩
  rw [tlsfBlockInsert, hmap]
  exact (if_pos hlt).trans heq

lemma blockSize_lt_of_insert (h : tlsfBlockInsert z a s = some s') :
    (s.hdr a).blockSize < 2 ^ 48 := by
  unfold tlsfBlockInsert at h
  rw [← tlsfMappingInsert_fst_lt_iff]
  generalize tlsfMappingInsert (s.hdr a).blockSize = k at h ⊢
  dsimp only at h
  split_ifs at h with hlt
  exact hlt

/-- A size that is rounded to that of a header is taken from every piece, whose first page is then
handed out although no page is marked as used. -/
lemma PmaInv.takeBlock_header {A : PmaArea} (h : PmaInv A F s free [b] live) (hz : InZone A z b)
    (hb : (s.hdr (b.start * pageSize)).blockSize = b.size * pageSize) :
    ∃ s', pmaTakeBlock z pmaBlockHeaderSize (b.start * pageSize) s =
        some (b.start * pageSize, s') ∧
      (s'.hdr (b.start * pageSize)).blockSize = pmaBlockHeaderSize ∧
      ∃ k, heads s'.zone (z, k) = b.start * pageSize + pmaBlockHeaderSize := by
  have hpos := h.packed.pos b (by simp)
  obtain ⟨hsmall, -⟩ := h.within b (by simp)
  have hword := h.stop_lt_word hz
  have hpage : pageSize ≤ b.size * pageSize := Nat.le_mul_of_pos_left pageSize hpos
  have hheader : 2 * pmaBlockHeaderSize < pageSize := by decide
  simp only [Piece.stop, Nat.add_mul] at hword
  -- the rest starts in the middle of the page
  have hrest : wadd (b.start * pageSize) pmaBlockHeaderSize =
      b.start * pageSize + pmaBlockHeaderSize := wadd_of_lt (by omega)
  have hsize : wsub (b.size * pageSize) pmaBlockHeaderSize =
    b.size * pageSize - pmaBlockHeaderSize :=
    wsub_of_le (by omega) (by omega)
  have heven : 2 ∣ b.size * pageSize - pmaBlockHeaderSize :=
    Nat.dvd_sub (Dvd.dvd.mul_left (by decide) _) (by decide)
  have hmid : ∀ p, p * pageSize ≠ b.start * pageSize + pmaBlockHeaderSize := by
    intro p
    simp only [pageSize, pmaBlockHeaderSize]
    omega
  obtain ⟨hfirst, hsecond, hother⟩ := blockSplit_sizes (s := s) (a := b.start * pageSize)
    (n := pmaBlockHeaderSize) (by decide) (by decide) (by rwa [hb, hsize])
    (by rw [hrest]; exact (hmid b.start).symm)
  rw [hb, hsize] at hsecond
  have hholds : TlsfHolds A.view
    (Cuore.blockSplit (b.start * pageSize) pmaBlockHeaderSize s).2 free := by
    refine h.holds.of_hdr (fun x hx => hother _ ?_ (by rw [hrest]; exact hmid _)) rfl
    rw [Ne, mul_pageSize_inj]
    intro heq
    have hmem := start_mem (h.pos_of_free hx)
    rw [heq] at hmem
    exact (h.apart_free hx (b := b) (by simp)).not_mem (start_mem hpos) hmem
  obtain ⟨t, hput⟩ := hholds.insert_some hz.1 (a := wadd (b.start * pageSize) pmaBlockHeaderSize)
    (by rw [hsecond]; simp only [pageSize] at *; omega)
  have hlong : b.size * pageSize > wadd pmaBlockHeaderSize pmaBlockHeaderSize :=
    lt_of_lt_of_le (by decide) hpage
  refine ⟨pmaForPages (pmaPageSetUsed z) (b.start * pageSize / pageSize)
    (pmaBlockHeaderSize / pageSize) (blockMarkUsed t (b.start * pageSize)), ?_, ?_, ?_⟩
  · unfold pmaTakeBlock
    rw [hb, if_pos hlong]
    exact Option.bind_eq_some_iff.mpr ⟨t, hput, rfl⟩
  · have hmark : ((blockMarkUsed t (b.start * pageSize)).hdr (b.start * pageSize)).blockSize =
        (t.hdr (b.start * pageSize)).blockSize &&& wnot 1 := by
      rw [PmaFreeBlock.blockSize, blockMarkUsed, sizes_raw, sizes_setSize, update_self]
      rfl
    rw [pmaForPages_setUsed]
    dsimp only
    rw [hmark, (tlsfBlockInsert_same hput).blockSize, hfirst]
    decide
  · have hhead := tlsfBlockInsert_head hput
    rw [pmaForPages_setUsed, ← hrest]
    exact ⟨_, hhead⟩

/-- Where the gap is longer than the block, the size of the rest wraps. -/
lemma allocFromBlock_of_long_gap (hj : j ≤ 51) (hstart : b.start ≤ 2 ^ 40)
    (hb : (s.hdr (b.start * pageSize)).blockSize = b.size * pageSize)
    (hgap : b.size < headGap (2 ^ j) b)
    (heq : pmaAllocFromBlock z m (2 ^ j * pageSize) (b.start * pageSize) s = some (a, s')) :
    ∃ t p i, pmaTakeBlock z m (p * pageSize) t = some (a, s') ∧ 0 < p ∧ p < 2 ^ 52 ∧
      0 < i ∧ i ≤ 2 ^ 51 ∧ (t.hdr (p * pageSize)).blockSize = (2 ^ 52 - i) * pageSize := by
  have hlt := (headGap_spec (Nat.two_pow_pos j) b).1
  have hpow : 2 ^ j ≤ 2 ^ 51 := Nat.pow_le_pow_right (by omega) hj
  rw [pmaAllocFromBlock_of_gap hj hstart (by omega)] at heq
  obtain ⟨t, hput, htake⟩ := Option.bind_eq_some_iff.mp heq
  generalize headGap (2 ^ j) b = g at *
  refine ⟨t, b.start + g, g - b.size, htake, by omega, by omega, by omega, by omega, ?_⟩
  -- the rest behind the gap
  have hrest : wadd (b.start * pageSize) (g * pageSize) = (b.start + g) * pageSize := by
    have hend : (b.start + g) * pageSize < 2 ^ 52 * pageSize :=
      Nat.mul_lt_mul_of_pos_right (by omega) pageSize_pos
    rw [Nat.add_mul] at hend ⊢
    exact wadd_of_lt hend
  have hsize : wsub (b.size * pageSize) (g * pageSize) = (2 ^ 52 - (g - b.size)) * pageSize := by
    have hwide : g * pageSize ≤ 2 ^ 51 * pageSize := Nat.mul_le_mul_right pageSize (by omega)
    have hlong : b.size * pageSize < g * pageSize := Nat.mul_lt_mul_of_pos_right hgap pageSize_pos
    rw [wsub_of_lt hlong (lt_of_le_of_lt hwide (by decide)), Nat.sub_mul, Nat.sub_mul]
    rfl
  have hdvd : ∀ k, 2 ∣ k * pageSize := fun k => Dvd.dvd.mul_left (by decide) k
  have hgword : g * pageSize < 2 ^ 52 * pageSize :=
    Nat.mul_lt_mul_of_pos_right (by omega) pageSize_pos
  obtain ⟨-, hsecond, -⟩ := blockSplit_sizes (s := s) (a := b.start * pageSize) (hdvd g) hgword
    (by rw [hb, hsize]; exact hdvd _) (by rw [hrest, Ne, mul_pageSize_inj]; omega)
  rw [hrest, hb, hsize] at hsecond
  rw [(tlsfBlockInsert_same hput).blockSize, hsecond]

/-- No list takes the rest. -/
lemma allocFromBlock_of_long_gap_ne_zero (hj : j ≤ 51) (hstart : b.start ≤ 2 ^ 40)
    (hb : (s.hdr (b.start * pageSize)).blockSize = b.size * pageSize)
    (hgap : b.size < headGap (2 ^ j) b)
    (heq : pmaAllocFromBlock z m (2 ^ j * pageSize) (b.start * pageSize) s = some (a, s')) :
    a ≠ 0 := by
  obtain ⟨t, p, i, htake, hp, -, hi, hi', hsize⟩ := allocFromBlock_of_long_gap hj hstart hb hgap heq
  rcases pmaTakeBlock_ret htake with rfl | ⟨-, -, t', hput⟩
  · exact (Nat.mul_pos hp pageSize_pos).ne'
  · have hlt := blockSize_lt_of_insert hput
    have hle : 2 ^ 51 * pageSize ≤ (2 ^ 52 - i) * pageSize :=
      Nat.mul_le_mul_right pageSize (by omega)
    rw [hsize] at hlt
    exact absurd (lt_of_le_of_lt hle hlt) (by decide)

/-- Where the gap is the whole block, a block of size zero is split off. -/
lemma blockSplit_whole_sizes (hpos : 0 < b.size) (hword : b.stop * pageSize < word)
    (hb : (s.hdr (b.start * pageSize)).blockSize = b.size * pageSize) :
    ((Cuore.blockSplit (b.start * pageSize) (b.size * pageSize) s).2.hdr
        (b.start * pageSize)).blockSize = b.size * pageSize ∧
      ((Cuore.blockSplit (b.start * pageSize) (b.size * pageSize) s).2.hdr
        (b.stop * pageSize)).blockSize = 0 ∧
      ∀ x, x ≠ b.start * pageSize → x ≠ b.stop * pageSize →
        (Cuore.blockSplit (b.start * pageSize) (b.size * pageSize) s).2.hdr x = s.hdr x := by
  simp only [Piece.stop, Nat.add_mul] at hword ⊢
  have hrest : wadd (b.start * pageSize) (b.size * pageSize) =
      b.start * pageSize + b.size * pageSize := wadd_of_lt hword
  have hzero : wsub (b.size * pageSize) (b.size * pageSize) = 0 := by
    rw [wsub_of_le (Nat.le_refl _) (by omega), Nat.sub_self]
  have hsplit := blockSplit_sizes (s := s) (a := b.start * pageSize) (n := b.size * pageSize)
    (Dvd.dvd.mul_left (by decide) _) (by omega) (by rw [hb, hzero]; decide)
    (by rw [hrest]; have := Nat.mul_pos hpos pageSize_pos; omega)
  rwa [hb, hzero, hrest] at hsplit

/-- Where the gap is the whole block, the block of size zero goes on a list behind it. -/
lemma PmaInv.allocFromBlock_whole_gap {A : PmaArea} (h : PmaInv A F s rest [b] live)
    (hz : InZone A z b) (hj : j ≤ 51)
    (hb : (s.hdr (b.start * pageSize)).blockSize = b.size * pageSize)
    (hgap : headGap (2 ^ j) b = b.size) (hm : 0 < m) (hsep : ∀ x ∈ rest, x.2.start ≠ b.stop) :
    ∃ s', pmaAllocFromBlock z m (2 ^ j * pageSize) (b.start * pageSize) s = some (0, s') ∧
      TlsfHolds A.view s' ((z, ⟨b.stop, 0⟩) :: (z, b) :: rest) := by
  have hpos := h.packed.pos b (by simp)
  obtain ⟨hsmall, -⟩ := h.within b (by simp)
  have hstart : b.start ≤ 2 ^ 40 :=
    (Nat.le_add_right _ _).trans (hz.2.2.trans (h.addressable z hz.1))
  obtain ⟨hfirst, hsecond, hother⟩ := blockSplit_whole_sizes hpos (h.stop_lt_word hz) hb
  have hstarts : ∀ x ∈ rest, x.2.start ≠ b.start := by
    intro x hx heq
    have hmem := start_mem (h.pos_of_free hx)
    rw [heq] at hmem
    exact (h.apart_free hx (b := b) (by simp)).not_mem (start_mem hpos) hmem
  have hholds : TlsfHolds A.view (Cuore.blockSplit (b.start * pageSize) (b.size * pageSize) s).2
      rest := by
    refine h.holds.of_hdr (fun x hx => hother _ ?_ ?_) rfl
    · rw [Ne, mul_pageSize_inj]
      exact hstarts x hx
    · rw [Ne, mul_pageSize_inj]
      exact hsep x hx
  have hbytes : b.size * pageSize < 2 ^ 48 := by
    simp only [pageSize]
    omega
  have hne : b.start ≠ b.stop := by
    simp only [Piece.stop]
    omega
  obtain ⟨t, hput, hsame, ht⟩ := hholds.insert hz.1 hstarts hbytes hfirst
  rw [← hsame.blockSize] at hsecond
  obtain ⟨t', hput', -, ht'⟩ := ht.insert (b := ⟨b.stop, 0⟩) hz.1 (fun x hx => by
    rcases List.mem_cons.mp hx with rfl | hx
    · exact hne
    · exact hsep x hx) (by dsimp only; omega) (hsecond.trans (Nat.zero_mul _).symm)
  refine ⟨t', ?_, ht'⟩
  rw [pmaAllocFromBlock_of_gap hj hstart (by omega), hgap]
  refine Option.bind_eq_some_iff.mpr ⟨t, hput, ?_⟩
  show pmaTakeBlock z m (b.stop * pageSize) t = _
  unfold pmaTakeBlock
  dsimp only
  rw [hsecond, if_neg (Nat.not_lt_zero _), if_pos hm]
  exact Option.bind_eq_some_iff.mpr ⟨t', hput', rfl⟩

/-- The block that `pma_alloc_from_zone` looks at, if it finds one, does not have a gap at its start
that is cut off before the rest turns out to be too short, and is not taken at address 0. -/
def FailsCleanly (z : PmaZoneId) (size align : ℕ) (s : Pma) : Prop :=
  ∀ a, firstFit z (pmaSearchSize (pmaRequestSize size) align) s = some a →
    ¬(0 < alignUp align a - a ∧ alignUp align a - a ≤ (s.hdr a).blockSize ∧
        (s.hdr a).blockSize < alignUp align a - a + pmaRequestSize size) ∧
      ¬(a = 0 ∧ pmaRequestSize size ≤ (s.hdr a).blockSize)

/-- The condition, in terms of the piece. -/
lemma failsCleanly_iff
    (hfit : firstFit z (pmaSearchSize (pmaRequestSize n) (2 ^ j * pageSize)) s =
      some (b.start * pageSize))
    (hb : (s.hdr (b.start * pageSize)).blockSize = b.size * pageSize) :
    FailsCleanly z n (2 ^ j * pageSize) s ↔
      ¬(0 < headGap (2 ^ j) b ∧ headGap (2 ^ j) b ≤ b.size ∧
          (b.size - headGap (2 ^ j) b) * pageSize < pmaRequestSize n) ∧
        ¬(b.start = 0 ∧ pmaRequestSize n ≤ b.size * pageSize) := by
  have hw := Nat.two_pow_pos j
  have hgap : alignUp (2 ^ j * pageSize) (b.start * pageSize) - b.start * pageSize =
      headGap (2 ^ j) b * pageSize := by
    rw [alignUp_mul hw pageSize_pos, (headGap_spec hw b).2.2, Nat.add_mul, Nat.add_sub_cancel_left]
  have hpos : 0 < headGap (2 ^ j) b * pageSize ↔ 0 < headGap (2 ^ j) b :=
    Nat.mul_pos_iff_of_pos_right pageSize_pos
  have hzero : b.start * pageSize = 0 ↔ b.start = 0 := by
    rw [Nat.mul_eq_zero, or_iff_left pageSize_pos.ne']
  unfold FailsCleanly
  simp only [hfit, Option.some.injEq, forall_eq', hb, hgap, hpos, hzero,
    Nat.mul_le_mul_right_iff pageSize_pos, Nat.sub_mul]
  refine and_congr_left fun _ => not_congr (and_congr_right fun _ => and_congr_right fun hle => ?_)
  have := Nat.mul_le_mul_right pageSize hle
  omega

/-- A piece with enough bytes is handed out; if it is at address 0, this looks like a failure and
changes the zone. -/
lemma ZoneState.takeBlock_enough (h : ZoneState z total s free) (hperm : free.Perm ((z, b) :: rest))
    {s₁ : Pma} (h₁ : PmaInv (oneZone z total) (fun _ => True) s₁ rest [b] [])
    (hb : (s₁.hdr (b.start * pageSize)).blockSize = b.size * pageSize)
    (hn : pmaRequestSize n = pmaBlockHeaderSize ∨
      ∃ k, 0 < k ∧ k * pageSize < word ∧ pmaRequestSize n = k * pageSize)
    (hlong : pmaRequestSize n ≤ b.size * pageSize) :
    ∃ s', pmaTakeBlock z (pmaRequestSize n) (b.start * pageSize) s₁ =
        some (b.start * pageSize, s') ∧ ¬SameZone z s s' := by
  have hmem : (z, b) ∈ free := hperm.mem_iff.mpr List.mem_cons_self
  have hzone := h.inv.zoned _ hmem
  have hpos := h.inv.pos_of_free hmem
  rcases hn with hn | ⟨k, hk, -, hn⟩
  · rw [hn]
    obtain ⟨s', heq, hsize, -⟩ := h₁.takeBlock_header hzone hb
    refine ⟨s', heq, fun hsame => ?_⟩
    -- the block has become shorter
    have hblock := (hsame.blocks _ _).mpr
      ((h.inv.holds.block_iff view_oneZone).mpr ⟨b, hmem, rfl, rfl⟩)
    rw [hsize] at hblock
    have hpage : pageSize ≤ b.size * pageSize := Nat.le_mul_of_pos_left pageSize hpos
    have hlt : pmaBlockHeaderSize < pageSize := by decide
    omega
  · rw [hn] at hlong ⊢
    obtain ⟨s', heq, h'⟩ := h₁.takeBlock hzone hk hb (Nat.le_of_mul_le_mul_right hlong pageSize_pos)
    refine ⟨s', heq, fun hsame => ?_⟩
    -- the first page has been marked as used
    have hlt := hzone.lt_hi (start_mem hpos)
    have hb' : b ∈ [] ++ free.map Prod.snd := List.mem_map_of_mem hmem
    have hclear : s.bitmap b.start = false := by
      rw [h.inv.clear rfl z view_oneZone b.start hlt]
      exact ⟨b, hb', start_mem hpos⟩
    rw [← hsame.bitmap, h'.clear rfl z view_oneZone b.start hlt] at hclear
    obtain ⟨c, hc, hin⟩ := hclear
    exact (h'.packed.perm List.perm_append_comm).not_mem (start_mem (b := ⟨b.start, k⟩) hk) hc hin

/-- The condition, for the block `b`. -/
def KeepsWhole (n j : ℕ) (b : Piece) : Prop :=
  ¬(0 < headGap (2 ^ j) b ∧ headGap (2 ^ j) b ≤ b.size ∧
      (b.size - headGap (2 ^ j) b) * pageSize < pmaRequestSize n) ∧
    ¬(b.start = 0 ∧ pmaRequestSize n ≤ b.size * pageSize)

/-- The block `b` has been taken off its list, in a step to `s₁`. -/
structure Located (z : PmaZoneId) (total : ℕ) (s : Pma) (free rest : List (PmaZoneId × Piece))
    (b : Piece) (s₁ : Pma) : Prop where
  state : ZoneState z total s free
  perm : free.Perm ((z, b) :: rest)
  same : SameBlocks s s₁
  taken : PmaInv (oneZone z total) (fun _ => True) s₁ rest [b] []
  size_eq : (s₁.hdr (b.start * pageSize)).blockSize = b.size * pageSize

namespace Located

variable {s₁ : Pma}

lemma mem (h : Located z total s free rest b s₁) : (z, b) ∈ free :=
  h.perm.mem_iff.mpr List.mem_cons_self

lemma inZone (h : Located z total s free rest b s₁) : InZone (oneZone z total) z b :=
  h.state.inv.zoned (z, b) h.mem

/-- No other block starts where a part of this one does. -/
lemma not_block (h : Located z total s free rest b s₁) {p n : ℕ} (hp : p ∈ b) (hne : p ≠ b.start) :
    ¬(OnFreeList s z (p * pageSize) ∧ (s.hdr (p * pageSize)).blockSize = n) := by
  intro hblock
  obtain ⟨c, hc, hstart, -⟩ := (h.state.inv.holds.block_iff view_oneZone).mp hblock
  rw [mul_pageSize_inj] at hstart
  have hsnd : ∀ {c}, (z, c) ∈ free → c ∈ [] ++ free.map Prod.snd ++ [] := fun hc => by
    rw [List.nil_append, List.append_nil]
    exact List.mem_map_of_mem hc
  have hpc : p ∈ c := hstart ▸ start_mem (h.state.inv.pos_of_free hc)
  obtain rfl := h.state.inv.packed.eq_of_mem (hsnd h.mem) (hsnd hc) hp hpc
  exact hne hstart

/-- The gap is cut off, and the rest has room. -/
lemma keeps_iff_enough (h : Located z total s free rest b s₁) (hj : j ≤ 51)
    (hn : pmaRequestSize n = pmaBlockHeaderSize ∨
      ∃ k, 0 < k ∧ k * pageSize < word ∧ pmaRequestSize n = k * pageSize)
    (hlt : headGap (2 ^ j) b < b.size)
    (henough : pmaRequestSize n ≤ (b.size - headGap (2 ^ j) b) * pageSize) :
    (∀ s', pmaAllocFromBlock z (pmaRequestSize n) (2 ^ j * pageSize) (b.start * pageSize) s₁ =
      some (0, s') → SameZone z s s') ↔ KeepsWhole n j b := by
  have hw := Nat.two_pow_pos j
  obtain ⟨s₂, heq₂, h₂, hb₂⟩ := h.taken.cutGap h.inZone hj h.size_eq hlt (pmaRequestSize n)
  by_cases hstart : b.start = 0
  · -- the first page of memory looks like a failure
    have hgap := headGap_of_start_eq_zero hw hstart
    rw [hgap, Nat.sub_zero] at henough
    simp only [hgap, Nat.add_zero, Nat.sub_zero, pagesFrom_zero, List.map_nil,
      List.nil_append] at heq₂ h₂ hb₂
    obtain ⟨s₃, heq₃, hne⟩ := h.state.takeBlock_enough h.perm h₂ hb₂ hn henough
    refine iff_of_false (fun hall => hne (hall s₃ ?_)) fun hcond => hcond.2 ⟨hstart, henough⟩
    rw [heq₂, heq₃, hstart, Nat.zero_mul]
  · refine iff_of_true (fun s' heq => ?_) ⟨fun hcut => absurd hcut.2.2 (Nat.not_lt.mpr henough),
      fun hcut => hstart hcut.1⟩
    rw [heq₂] at heq
    rcases pmaTakeBlock_ret heq with hret | ⟨-, hshort, -⟩
    · have hpage0 := (start_add_headGap_eq_zero (b := b) hw).mp hret.symm
      rw [Nat.mul_eq_zero, or_iff_left pageSize_pos.ne'] at hpage0
      exact absurd hpage0 hstart
    · rw [hb₂] at hshort
      exact absurd hshort (Nat.not_lt.mpr henough)

/-- The gap is cut off, and the rest is too short: the two parts stay behind, if there was a
gap. -/
lemma keeps_iff_short (h : Located z total s free rest b s₁) (hj : j ≤ 51)
    (hn : pmaRequestSize n = pmaBlockHeaderSize ∨
      ∃ k, 0 < k ∧ k * pageSize < word ∧ pmaRequestSize n = k * pageSize)
    (hlt : headGap (2 ^ j) b < b.size)
    (henough : ¬pmaRequestSize n ≤ (b.size - headGap (2 ^ j) b) * pageSize) :
    (∀ s', pmaAllocFromBlock z (pmaRequestSize n) (2 ^ j * pageSize) (b.start * pageSize) s₁ =
      some (0, s') → SameZone z s s') ↔ KeepsWhole n j b := by
  obtain ⟨s₂, heq₂, h₂, hb₂⟩ := h.taken.cutGap h.inZone hj h.size_eq hlt (pmaRequestSize n)
  have hzone₂ : InZone (oneZone z total) z
      ⟨b.start + headGap (2 ^ j) b, b.size - headGap (2 ^ j) b⟩ := h.inZone.part (by omega)
  have hpage : pageSize ≤ (b.size - headGap (2 ^ j) b) * pageSize :=
    Nat.le_mul_of_pos_left pageSize (by omega)
  rcases hn with hn | ⟨k, hk, hkword, hn⟩
  · rw [hn] at henough
    exact absurd (le_trans (by decide) hpage) henough
  rw [KeepsWhole]
  rw [hn] at henough heq₂ ⊢
  have hshort : b.size - headGap (2 ^ j) b < k := by
    rwa [Nat.mul_le_mul_right_iff pageSize_pos, Nat.not_le] at henough
  obtain ⟨s₃, heq₃, h₃⟩ := h₂.takeBlock_short hzone₂ hkword hb₂ hshort
  rw [heq₃] at heq₂
  rcases Nat.eq_zero_or_pos (headGap (2 ^ j) b) with hgap | hgap
  · refine iff_of_true (fun s' heq => ?_) ⟨fun hcut => absurd hgap hcut.1.ne', fun hcut => ?_⟩
    · rw [heq₂] at heq
      obtain ⟨-, rfl⟩ := Prod.mk.inj (Option.some.inj heq)
      simp only [hgap, Nat.add_zero, Nat.sub_zero, pagesFrom_zero, List.map_nil,
        List.nil_append] at h₃
      have hbeyond := h.same.keepsBeyond.trans (pmaAllocFromBlock_keepsBeyond heq₂)
      exact SameZone.of_perm h.state.inv.holds h₃.holds h.perm.symm
        (hbeyond.bitmap_eq h.state.inv h₃ h.perm.symm)
    · rw [hgap, Nat.sub_zero] at henough
      exact absurd hcut.2 henough
  · -- the gap and the rest are now two blocks
    refine iff_of_false (fun hall => ?_) fun hcond => hcond.1 ⟨hgap, hlt.le, ?_⟩
    · have hblock := (h₃.holds.block_iff view_oneZone).mpr ⟨_, List.mem_cons_self, rfl, rfl⟩
      have hbefore := ((hall s₃ heq₂).blocks _ _).mp hblock
      have hin : b.start + headGap (2 ^ j) b ∈ b :=
        ⟨Nat.le_add_right _ _, Nat.add_lt_add_left hlt _⟩
      exact h.not_block hin (by omega) hbefore
    · exact Nat.mul_lt_mul_of_pos_right hshort pageSize_pos

/-- The gap is the whole block: a block of size zero stays behind. -/
lemma keeps_iff_whole (h : Located z total s free rest b s₁) (hj : j ≤ 51)
    (hn : 0 < pmaRequestSize n) (hgap : headGap (2 ^ j) b = b.size) :
    (∀ s', pmaAllocFromBlock z (pmaRequestSize n) (2 ^ j * pageSize) (b.start * pageSize) s₁ =
      some (0, s') → SameZone z s s') ↔ KeepsWhole n j b := by
  have hsep :=
    (List.pairwise_cons.mp ((h.perm.pairwise_iff fun h => h.symm).mp h.state.separate)).1
  have hpos := h.state.inv.pos_of_free h.mem
  dsimp only at hpos
  obtain ⟨s', heq, h'⟩ := h.taken.allocFromBlock_whole_gap h.inZone hj h.size_eq hgap hn
    fun x hx hstart => by
      have hx' := hsep x hx
      rw [separate_iff] at hx'
      dsimp only at hx'
      simp only [Piece.stop] at hstart hx'
      omega
  refine iff_of_false (fun hsame' => ?_) fun hcond => hcond.1 ⟨by omega, by omega, ?_⟩
  · have hblock := (h'.block_iff view_oneZone).mpr ⟨_, List.mem_cons_self, rfl, rfl⟩
    have hblock' := ((hsame' s' heq).blocks _ _).mp hblock
    obtain ⟨c, hc, -, hsize⟩ := (h.state.inv.holds.block_iff view_oneZone).mp hblock'
    rw [mul_pageSize_inj] at hsize
    exact absurd (h.state.inv.pos_of_free hc) (by dsimp only at hsize ⊢; omega)
  · rw [hgap, Nat.sub_self, Nat.zero_mul]
    exact hn

/-- The gap is longer than the block: the rest has a size that has wrapped, and is never too
short. -/
lemma keeps_iff_wrapped (h : Located z total s free rest b s₁) (hj : j ≤ 51)
    (hgt : b.size < headGap (2 ^ j) b) :
    (∀ s', pmaAllocFromBlock z (pmaRequestSize n) (2 ^ j * pageSize) (b.start * pageSize) s₁ =
      some (0, s') → SameZone z s s') ↔ KeepsWhole n j b := by
  refine iff_of_true (fun s' heq => ?_) ⟨fun hcut => absurd hcut.2.1 (Nat.not_le.mpr hgt),
    fun hcut => ?_⟩
  · have hstart : b.start ≤ 2 ^ 40 :=
      (Nat.le_add_right _ _).trans (h.inZone.2.2.trans (h.state.inv.addressable z view_oneZone))
    exact absurd rfl (allocFromBlock_of_long_gap_ne_zero hj hstart h.size_eq hgt heq)
  · rw [headGap_of_start_eq_zero (Nat.two_pow_pos j) hcut.1] at hgt
    exact absurd hgt (Nat.not_lt_zero _)

end Located

/-- **When a failed allocation changes nothing.**  Of one zone by itself, every allocation of at
least one page that returns 0 leaves the blocks, the page bitmap and the list bitmaps as they were,
exactly if `FailsCleanly` holds before. -/
theorem pmaAllocFromZone_failure_iff (h : ZoneState z total s free) (hpage : pageSize ≤ n)
    (hword : n < word) (hj : j ≤ 51) :
    (∀ s', pmaAllocFromZone z n (2 ^ j * pageSize) s = some (0, s') → SameZone z s s') ↔
      FailsCleanly z n (2 ^ j * pageSize) s := by
  have hn := pmaRequestSize_cases hpage hword
  unfold pmaAllocFromZone
  dsimp only
  rcases h.inv.holds.locate view_oneZone (pmaSearchSize (pmaRequestSize n) (2 ^ j * pageSize)) with
    ⟨hfit, hlocate⟩ | ⟨b, rest, s₁, hfit, hlocate, hsame, hperm, hholds, hb, -⟩
  · -- there is no block to look at
    rw [hlocate]
    refine iff_of_true (fun s' heq => ?_) fun a ha => ?_
    · obtain ⟨-, rfl⟩ := Prod.mk.inj (Option.some.inj heq)
      exact SameZone.of_perm h.inv.holds h.inv.holds (List.Perm.refl free) rfl
    · rw [hfit] at ha
      cases ha
  rw [failsCleanly_iff hfit hb, hlocate]
  dsimp only [Option.bind_eq_bind, Option.bind_some]
  have hlocated : Located z total s free rest b s₁ :=
    ⟨h, hperm, hsame, h.inv.taken hsame hperm hholds,
      (hsame.blockSize (b.start * pageSize)).trans hb⟩
  rcases Nat.lt_trichotomy (headGap (2 ^ j) b) b.size with hlt | hgap | hgt
  · by_cases henough : pmaRequestSize n ≤ (b.size - headGap (2 ^ j) b) * pageSize
    · exact hlocated.keeps_iff_enough hj hn hlt henough
    · exact hlocated.keeps_iff_short hj hn hlt henough
  · refine hlocated.keeps_iff_whole hj ?_ hgap
    rcases hn with hn | ⟨k, hk, -, hn⟩
    · rw [hn]
      decide
    · rw [hn]
      exact Nat.mul_pos hk pageSize_pos
  · exact hlocated.keeps_iff_wrapped hj hgt

/-- One page is cut off the block of 100 pages, the rest is too short, and both parts stay. -/
theorem oddZone_failure_splits_block : ∃ s s' free, zoneWith .low 1024 [⟨17, 100⟩] = some s ∧
    ZoneState .low 1024 s free ∧
      pmaAllocFromZone .low (100 * pageSize) (2 * pageSize) s = some (0, s') ∧
        ¬SameZone .low s s' := by
  obtain ⟨s, hs⟩ : ∃ s, zoneWith .low 1024 [⟨17, 100⟩] = some s :=
    Option.isSome_iff_exists.mp (by decide +kernel)
  have h := zoneWith_state (by decide) (by decide) (by decide) hs
  have hrun : (zoneWith .low 1024 [⟨17, 100⟩]).bind (fun s =>
      (pmaAllocFromZone .low (100 * pageSize) (2 * pageSize) s).map fun r =>
        (r.1, (r.2.hdr (17 * pageSize)).blockSize)) = some (0, pageSize) := by
    decide +kernel
  rw [hs, Option.bind_some, Option.map_eq_some_iff] at hrun
  obtain ⟨⟨a, s'⟩, heq, hpair⟩ := hrun
  obtain ⟨rfl, hsize⟩ := Prod.mk.inj hpair
  refine ⟨s, s', _, hs, h, heq, fun hsame => ?_⟩
  have hblock := (h.inv.holds.block_iff view_oneZone).mpr ⟨⟨17, 100⟩, by decide, rfl, rfl⟩
  have hafter := ((hsame.blocks _ _).mpr hblock).2
  rw [hsize] at hafter
  exact absurd hafter (by decide)

/-- Of a block of 64 pages, which is on the list of 65, nothing is cut off. -/
theorem oddZone_failure_keeps_block : ∃ s s', zoneWith .low 1024 [⟨17, 64⟩] = some s ∧
    pmaAllocFromZone .low (65 * pageSize) (2 ^ 0 * pageSize) s = some (0, s') ∧
      SameZone .low s s' := by
  obtain ⟨s, hs⟩ : ∃ s, zoneWith .low 1024 [⟨17, 64⟩] = some s :=
    Option.isSome_iff_exists.mp (by decide +kernel)
  have h := zoneWith_state (by decide) (by decide) (by decide) hs
  have hrun : (zoneWith .low 1024 [⟨17, 64⟩]).bind (fun s =>
      (pmaAllocFromZone .low (65 * pageSize) (2 ^ 0 * pageSize) s).map Prod.fst) = some 0 := by
    decide +kernel
  have hfit : (zoneWith .low 1024 [⟨17, 64⟩]).bind (fun s =>
      firstFit .low (pmaSearchSize (pmaRequestSize (65 * pageSize)) (2 ^ 0 * pageSize)) s) =
        some (17 * pageSize) := by
    decide +kernel
  rw [hs, Option.bind_some, Option.map_eq_some_iff] at hrun
  rw [hs, Option.bind_some] at hfit
  obtain ⟨⟨a, s'⟩, heq, rfl⟩ := hrun
  have hblock := (h.inv.holds.block_iff view_oneZone).mpr ⟨⟨17, 64⟩, by decide, rfl, rfl⟩
  refine ⟨s, s', hs, heq,
    (pmaAllocFromZone_failure_iff h (by decide) (by decide) (by decide)).mpr ?_ s' heq⟩
  rw [failsCleanly_iff (b := ⟨17, 64⟩) hfit hblock.2]
  decide

end Cuore
