import Cuore.Mem.Pma.Free
import Cuore.Mem.Pma.Init

/-!
# One zone by itself

The state of a zone whose blocks are exactly the runs of free pages, as freeing leaves them.
`ZoneState` is this state, and `SameZone` says that two states have the same blocks, page bitmap and
list bitmaps; the order of the blocks on a list may differ.

* Freeing what has been allocated brings the state back (`pmaZoneFreeRange_undoes_alloc`).
-/

namespace Cuore

open Function Pma Piece

variable {F : ℕ → Prop} {s s' s'' : Pma} {free free' rest : List (PmaZoneId × Piece)}
  {live live' : List Piece} {z : PmaZoneId} {b : Piece} {a m n k p j total : ℕ}

/-! ## States of a zone -/

/-- **One zone by itself**, of `total` pages: the pieces on its lists are the runs of free pages. -/
structure ZoneState (z : PmaZoneId) (total : ℕ) (s : Pma) (free : List (PmaZoneId × Piece)) :
    Prop where
  inv : PmaInv (oneZone z total) (fun _ => True) s free [] []
  separate : free.Pairwise fun x y => Piece.Separate x.2 y.2

/-- The zone has the same blocks and bitmaps. -/
structure SameZone (z : PmaZoneId) (s s' : Pma) : Prop where
  blocks : ∀ a n, OnFreeList s' z a ∧ (s'.hdr a).blockSize = n ↔
    OnFreeList s z a ∧ (s.hdr a).blockSize = n
  bitmap : s'.bitmap = s.bitmap
  slBitmap : ∀ fl, (s'.zone z).slBitmap fl = (s.zone z).slBitmap fl
  flBitmap : (s'.zone z).flBitmap = (s.zone z).flBitmap

lemma view_oneZone : (oneZone z total).view z = true := decide_eq_true rfl

lemma inZone_oneZone {z' : PmaZoneId} :
    InZone (oneZone z total) z' b ↔ z' = z ∧ b.stop ≤ total := by
  simp only [InZone, oneZone, decide_eq_true_iff, Nat.zero_le, true_and]

/-- The blocks on the lists, with their sizes, are the pieces. -/
lemma TlsfHolds.block_iff {Z : PmaZoneId → Bool} (h : TlsfHolds Z s free) (hz : Z z) :
    OnFreeList s z a ∧ (s.hdr a).blockSize = n ↔
      ∃ b, (z, b) ∈ free ∧ a = b.start * pageSize ∧ n = b.size * pageSize := by
  rw [h.onFreeList_iff hz]
  constructor
  · rintro ⟨⟨b, hb, ha, hsize⟩, hn⟩
    exact ⟨b, hb, ha, hn.symm.trans hsize⟩
  · rintro ⟨b, hb, rfl, rfl⟩
    have hsize := h.blockSize_eq hb
    exact ⟨⟨b, hb, rfl, hsize⟩, hsize⟩

/-- The same pieces on the lists, and the same page bitmap. -/
lemma SameZone.of_perm (h : TlsfHolds (oneZone z total).view s free)
    (h' : TlsfHolds (oneZone z total).view s' free') (hperm : free'.Perm free)
    (hbitmap : s'.bitmap = s.bitmap) : SameZone z s s' := by
  obtain ⟨hsl, hfl⟩ := h.maps_eq h' (fun _ => hperm.mem_iff) view_oneZone
  refine ⟨fun a n => ?_, hbitmap, hsl, hfl⟩
  rw [h.block_iff view_oneZone, h'.block_iff view_oneZone]
  simp only [hperm.mem_iff]

/-! ## Adding a region -/

/-- A zone without free pages. -/
def emptyZone (total : ℕ) : Pma :=
  ⟨fun _ => ⟨0, 0, 0⟩, fun _ => true, fun z => pmaZoneInit z total⟩

lemma zoneState_empty (htotal : total ≤ 2 ^ 40) : ZoneState z total (emptyZone total) [] :=
  ⟨⟨tlsfHolds_init _, fun _ _ _ => rfl, fun _ _ => htotal, packed_nil, by simp, by simp, by simp,
    by simp [emptyZone]⟩, List.Pairwise.nil⟩

/-- `pma_zone_add_region` adds a piece that touches no other. -/
lemma ZoneState.addRegion (h : ZoneState z total s free) (hstart : 0 < b.start) (hpos : 0 < b.size)
    (hsmall : b.size < 2 ^ 36) (hstop : b.stop ≤ total) (hsep : ∀ x ∈ free, Piece.Separate b x.2) :
    ∃ s', pmaZoneAddRegion z (b.start * pageSize) (b.size * pageSize) s = some s' ∧
      ZoneState z total s' ((z, b) :: free) := by
  have hzone : InZone (oneZone z total) z b := inZone_oneZone.mpr ⟨rfl, hstop⟩
  have hpacked : Packed (b :: ([] ++ free.map Prod.snd ++ [])) := by
    refine packed_cons.mpr ⟨hpos, fun c hc => ?_, h.inv.packed⟩
    rw [List.nil_append, List.append_nil] at hc
    obtain ⟨x, hx, rfl⟩ := List.mem_map.mp hc
    exact (hsep x hx).imp Nat.le_of_lt Nat.le_of_lt
  obtain ⟨s', heq, -, h'⟩ :=
    (h.inv.receive hzone hpacked ⟨hsmall, fun _ _ => trivial⟩).putNew hzone
  refine ⟨s', ?_, h', List.pairwise_cons.mpr ⟨hsep, h.separate⟩⟩
  have hpage : pageSize ≤ b.size * pageSize := Nat.le_mul_of_pos_left pageSize hpos
  have hlength : ¬b.size * pageSize < pmaBlockHeaderSize := by
    simp only [pageSize, pmaBlockHeaderSize] at hpage ⊢
    omega
  have hbegin : alignUp pageSize (b.start * pageSize) = b.start * pageSize :=
    alignUp_of_dvd pageSize_pos (Nat.dvd_mul_left _ _)
  have hend : alignDown pageSize (b.start * pageSize + b.size * pageSize) =
      b.start * pageSize + b.size * pageSize := by
    rw [← Nat.add_mul, alignDown, Nat.mul_div_cancel _ pageSize_pos]
  have hne : b.start * pageSize ≠ 0 := (Nat.mul_pos hstart pageSize_pos).ne'
  have hlt : ¬b.start * pageSize + b.size * pageSize ≤ b.start * pageSize := by
    have hbytes := Nat.mul_pos hpos pageSize_pos
    omega
  unfold pmaZoneAddRegion
  rw [if_neg hlength, hbegin, hend]
  simp only [if_neg hlt, if_neg hne, Nat.add_sub_cancel_left, Nat.mul_div_cancel _ pageSize_pos]
  exact heq

/-- A zone with the given free pieces, added one after the other. -/
def zoneWith (z : PmaZoneId) (total : ℕ) (l : List Piece) : Option Pma :=
  l.foldlM (fun s b => pmaZoneAddRegion z (b.start * pageSize) (b.size * pageSize) s)
    (emptyZone total)

/-- The pieces are then on the lists. -/
lemma zoneWith_state {l : List Piece} (htotal : total ≤ 2 ^ 40)
    (hl : ∀ b ∈ l, 0 < b.start ∧ 0 < b.size ∧ b.size < 2 ^ 36 ∧ b.stop ≤ total)
    (hsep : l.Pairwise Piece.Separate) (heq : zoneWith z total l = some s) :
    ZoneState z total s (l.reverse.map (Prod.mk z)) := by
  have hfold : ∀ (l : List Piece) (t : Pma) (free : List (PmaZoneId × Piece)),
      ZoneState z total t free →
      (∀ b ∈ l, 0 < b.start ∧ 0 < b.size ∧ b.size < 2 ^ 36 ∧ b.stop ≤ total) →
      l.Pairwise Piece.Separate → (∀ b ∈ l, ∀ x ∈ free, Piece.Separate b x.2) →
      ∃ s', l.foldlM
        (fun s b => pmaZoneAddRegion z (b.start * pageSize) (b.size * pageSize) s) t = some s' ∧
          ZoneState z total s' (l.reverse.map (Prod.mk z) ++ free) := by
    intro l
    induction l with
    | nil => exact fun t free ht _ _ _ => ⟨t, rfl, ht⟩
    | cons b l ih =>
      intro t free ht hl hsep hfree
      rw [List.forall_mem_cons] at hl hfree
      rw [List.pairwise_cons] at hsep
      obtain ⟨hstart, hpos, hsmall, hstop⟩ := hl.1
      obtain ⟨t', ht', h'⟩ := ht.addRegion hstart hpos hsmall hstop hfree.1
      obtain ⟨s', heq, hs'⟩ := ih t' _ h' hl.2 hsep.2 fun c hc x hx => by
        rcases List.mem_cons.mp hx with rfl | hx
        · exact (hsep.1 c hc).symm
        · exact hfree.2 c hc x hx
      refine ⟨s', by rw [List.foldlM_cons, ht']; exact heq, ?_⟩
      rw [List.reverse_cons, List.map_append, List.append_assoc]
      exact hs'
  obtain ⟨s', heq', h⟩ := hfold l _ [] (zoneState_empty htotal) hl hsep (by simp)
  obtain rfl := Option.some.inj (heq.symm.trans heq')
  rwa [List.append_nil] at h

/-! ## The other zone's pages -/

/-- No bit beyond the end of the zone is written. -/
structure KeepsBeyond (z : PmaZoneId) (s s' : Pma) : Prop where
  totals : totals s'.zone = totals s.zone
  bitmap : ∀ p, (s.zone z).totalPages ≤ p → s'.bitmap p = s.bitmap p

lemma SameBlocks.keepsBeyond (h : SameBlocks s s') : KeepsBeyond z s s' :=
  ⟨h.totals, fun p _ => congrFun h.bitmap p⟩

lemma KeepsBeyond.trans (h : KeepsBeyond z s s') (h' : KeepsBeyond z s' s'') :
    KeepsBeyond z s s'' := by
  have htotal : (s'.zone z).totalPages = (s.zone z).totalPages := congrFun h.totals z
  exact ⟨h'.totals.trans h.totals, fun p hp =>
    (h'.bitmap p (htotal ▸ hp)).trans (h.bitmap p hp)⟩

lemma keepsBeyond_setUsed : KeepsBeyond z s (pmaForPages (pmaPageSetUsed z) m n s) := by
  rw [pmaForPages_setUsed]
  exact ⟨rfl, fun p hp => if_neg (by omega)⟩

lemma keepsBeyond_setFree : KeepsBeyond z s (pmaForPages (pmaPageSetFree z) m n s) := by
  rw [pmaForPages_setFree]
  exact ⟨rfl, fun p hp => if_neg (by omega)⟩

lemma keepsBeyond_hdr {hdr : ℕ → PmaFreeBlock} : KeepsBeyond z s { s with hdr } :=
  ⟨rfl, fun _ _ => rfl⟩

lemma keepsBeyond_blockSplit : KeepsBeyond z s (blockSplit m n s).2 := ⟨rfl, fun _ _ => rfl⟩

lemma pmaTakeBlock_keepsBeyond (h : pmaTakeBlock z m n s = some (a, s')) : KeepsBeyond z s s' := by
  have hfinish : ∀ {t : Pma}, KeepsBeyond z t
      (pmaForPages (pmaPageSetUsed z) (n / pageSize) (m / pageSize) (blockMarkUsed t n)) :=
    keepsBeyond_hdr.trans keepsBeyond_setUsed
  unfold pmaTakeBlock at h
  dsimp only at h
  split_ifs at h
  · obtain ⟨t, hput, heq⟩ := Option.bind_eq_some_iff.mp h
    obtain ⟨-, rfl⟩ := Prod.mk.inj (Option.some.inj heq)
    exact (keepsBeyond_blockSplit.trans (tlsfBlockInsert_same hput).keepsBeyond).trans hfinish
  · obtain ⟨t, hput, heq⟩ := Option.bind_eq_some_iff.mp h
    obtain ⟨-, rfl⟩ := Prod.mk.inj (Option.some.inj heq)
    exact (tlsfBlockInsert_same hput).keepsBeyond
  · obtain ⟨-, rfl⟩ := Prod.mk.inj (Option.some.inj h)
    exact hfinish

lemma pmaAllocFromBlock_keepsBeyond {align : ℕ}
    (h : pmaAllocFromBlock z m align n s = some (a, s')) :
    KeepsBeyond z s s' := by
  unfold pmaAllocFromBlock at h
  dsimp only at h
  split_ifs at h
  · obtain ⟨t, hput, htake⟩ := Option.bind_eq_some_iff.mp h
    exact (keepsBeyond_blockSplit.trans (tlsfBlockInsert_same hput).keepsBeyond).trans
      (pmaTakeBlock_keepsBeyond htake)
  · obtain ⟨t, hput, heq⟩ := Option.bind_eq_some_iff.mp h
    obtain ⟨-, rfl⟩ := Prod.mk.inj (Option.some.inj heq)
    exact (tlsfBlockInsert_same hput).keepsBeyond
  · exact pmaTakeBlock_keepsBeyond h

lemma PmaInv.allocFromZone_keepsBeyond {A : PmaArea} {hand : List Piece} {align : ℕ}
    (h : PmaInv A F s free hand live) (hz : A.view z)
    (heq : pmaAllocFromZone z n align s = some (a, s')) : KeepsBeyond z s s' := by
  unfold pmaAllocFromZone at heq
  dsimp only at heq
  rcases h.holds.locate hz (pmaSearchSize (pmaRequestSize n) align) with
    ⟨-, hlocate⟩ | ⟨b, rest, s₁, -, hlocate, hsame, -⟩
  · rw [hlocate] at heq
    obtain ⟨-, rfl⟩ := Prod.mk.inj (Option.some.inj heq)
    exact (SameBlocks.refl s).keepsBeyond
  · rw [hlocate] at heq
    exact hsame.keepsBeyond.trans (pmaAllocFromBlock_keepsBeyond heq)

lemma pmaCoalesceBackward_keepsBeyond (h : pmaCoalesceBackward z n s = some (m, s')) :
    KeepsBeyond z s s' := by
  unfold pmaCoalesceBackward at h
  split_ifs at h
  · obtain ⟨t, hremove, heq⟩ := Option.bind_eq_some_iff.mp h
    obtain ⟨-, rfl⟩ := Prod.mk.inj (Option.some.inj heq)
    exact (tlsfBlockRemove_same hremove).keepsBeyond
  · obtain ⟨-, rfl⟩ := Prod.mk.inj (Option.some.inj h)
    exact (SameBlocks.refl s).keepsBeyond

lemma pmaCoalesceForward_keepsBeyond (h : pmaCoalesceForward z n s = some (m, s')) :
    KeepsBeyond z s s' := by
  unfold pmaCoalesceForward at h
  split_ifs at h
  · obtain ⟨t, hremove, heq⟩ := Option.bind_eq_some_iff.mp h
    obtain ⟨-, rfl⟩ := Prod.mk.inj (Option.some.inj heq)
    exact (tlsfBlockRemove_same hremove).keepsBeyond
  · obtain ⟨-, rfl⟩ := Prod.mk.inj (Option.some.inj h)
    exact (SameBlocks.refl s).keepsBeyond

lemma pmaZoneFreeRange_keepsBeyond (h : pmaZoneFreeRange z a n s = some s') :
    KeepsBeyond z s s' := by
  unfold pmaZoneFreeRange at h
  dsimp only at h
  split_ifs at h
  · obtain rfl := Option.some.inj h
    exact (SameBlocks.refl s).keepsBeyond
  · obtain rfl := Option.some.inj h
    exact (SameBlocks.refl s).keepsBeyond
  · obtain ⟨⟨start, t⟩, hback, h⟩ := Option.bind_eq_some_iff.mp h
    obtain ⟨⟨stop, t'⟩, hforw, h⟩ := Option.bind_eq_some_iff.mp h
    have ht' : KeepsBeyond z s t' :=
      (keepsBeyond_setFree.trans (pmaCoalesceBackward_keepsBeyond hback)).trans
        (pmaCoalesceForward_keepsBeyond hforw)
    dsimp only at h
    split_ifs at h
    · exact (ht'.trans keepsBeyond_hdr).trans (tlsfBlockInsert_same h).keepsBeyond
    · obtain rfl := Option.some.inj h
      exact ht'

/-- The page bitmap is determined by the pieces and by what lies beyond the zone. -/
lemma KeepsBeyond.bitmap_eq (h : KeepsBeyond z s s')
    (hinv : PmaInv (oneZone z total) F s free [] live)
    (hinv' : PmaInv (oneZone z total) F s' free' [] live') (hperm : free'.Perm free) :
    s'.bitmap = s.bitmap := by
  funext p
  rcases Nat.lt_or_ge p total with hlt | hge
  · have hiff : s'.bitmap p = false ↔ s.bitmap p = false := by
      rw [hinv'.clear rfl z view_oneZone p hlt, hinv.clear rfl z view_oneZone p hlt]
      exact exists_congr fun b => and_congr_left fun _ => (hperm.map Prod.snd).mem_iff
    cases hp : s.bitmap p <;> cases hp' : s'.bitmap p <;> simp_all
  · apply h.bitmap p
    have htotal : (s.zone z).totalPages = total := hinv.total_eq rfl z view_oneZone
    omega

/-! ## Freeing what has been allocated -/

lemma mem_leftover {c : Piece} : c ∈ leftover b m k ↔
    m + k < b.size ∧ c = ⟨b.start + (m + k), b.size - (m + k)⟩ ∨ 0 < m ∧ c = ⟨b.start, m⟩ := by
  rw [leftover, List.mem_append, mem_pagesFrom, mem_pagesFrom, Nat.sub_pos_iff_lt]

/-- The pages in the middle of a piece keep what is left of it apart, also from the others. -/
lemma separate_leftover (hk : 0 < k) (hlong : m + k ≤ b.size)
    (hsep : ((z, b) :: rest).Pairwise fun x y => Piece.Separate x.2 y.2) :
    ((leftover b m k).map (Prod.mk z) ++ rest).Pairwise fun x y => Piece.Separate x.2 y.2 := by
  obtain ⟨hb, hrest⟩ := List.pairwise_cons.mp hsep
  refine List.pairwise_append.mpr ⟨?_, hrest, fun x hx y hy => ?_⟩
  · rw [List.pairwise_map, leftover, pagesFrom, pagesFrom]
    split_ifs <;> simp [separate_iff]
    omega
  · obtain ⟨c, hc, rfl⟩ := List.mem_map.mp hx
    have hy' := hb y hy
    rw [separate_iff] at hy' ⊢
    rcases mem_leftover.mp hc with ⟨-, rfl⟩ | ⟨-, rfl⟩
    · dsimp only at hy' ⊢
      omega
    · dsimp only at hy' ⊢
      omega

/-- The run of free pages before the pages that have been taken starts with the piece, and the run
behind them ends with it. -/
lemma PmaInv.runs_leftover
    (h : PmaInv (oneZone z total) F s ((leftover b m k).map (Prod.mk z) ++ rest) [] live)
    (hstop : b.stop ≤ total) (hk : 0 < k) (hlong : m + k ≤ b.size)
    (hsep : ∀ y ∈ rest, Piece.Separate b y.2) :
    mergeStart z s (b.start + m) = b.start ∧ mergeEnd z s (b.start + m + k) = b.stop := by
  simp only [Piece.stop] at hstop ⊢
  have hfree : ∀ c ∈ leftover b m k, ∀ q ∈ c, pmaPageIsFree z q s = true := by
    intro c hc q hq
    refine (h.isFree_iff rfl view_oneZone).mpr ⟨?_, c, by simp [hc], hq⟩
    have hin := mem_leftover.mp hc
    rw [mem_iff] at hq
    show q < total
    rcases hin with ⟨-, rfl⟩ | ⟨-, rfl⟩
    · dsimp only at hq
      omega
    · dsimp only at hq
      omega
  have hused : ∀ q, (q + 1 = b.start ∨ q = b.start + b.size) → pmaPageIsFree z q s = false := by
    intro q hq
    by_contra hfree
    obtain ⟨-, c, hc, hqc⟩ := (h.isFree_iff rfl view_oneZone).mp (Bool.not_eq_false _ ▸ hfree)
    rw [List.nil_append, List.map_append, List.mem_append] at hc
    rw [mem_iff] at hqc
    rcases hc with hc | hc
    · simp only [List.map_map, List.mem_map, Function.comp_apply, exists_eq_right] at hc
      rcases mem_leftover.mp hc with ⟨-, rfl⟩ | ⟨-, rfl⟩
      · dsimp only at hqc
        omega
      · dsimp only at hqc
        omega
    · obtain ⟨y, hy, rfl⟩ := List.mem_map.mp hc
      have hy' := hsep y hy
      rw [separate_iff] at hy'
      omega
  constructor
  · refine mergeStart_eq (by omega) (fun q hq hlt => ?_) fun q hq => hused q (.inl hq)
    exact hfree _ (mem_leftover.mpr (.inr ⟨by omega, rfl⟩)) q (by simp only [mem_iff]; omega)
  · refine mergeEnd_eq (by omega) (fun q hq hlt => ?_) (hused _ (.inr rfl))
    exact hfree _ (mem_leftover.mpr (.inl ⟨by omega, rfl⟩)) q (by simp only [mem_iff]; omega)

/-- **Freeing undoes allocating.**  Of one zone by itself, an allocation that succeeds returns an
aligned part of a block and leaves a zone of the same kind, and freeing the pages brings back the
blocks and the bitmaps. -/
theorem pmaZoneFreeRange_undoes_alloc (h : ZoneState z total s free) (hk : 0 < k)
    (hwrap : k * pageSize + 2 ^ j * pageSize < word)
    (heq : pmaAllocFromZone z (k * pageSize) (2 ^ j * pageSize) s = some (a, s')) (ha : a ≠ 0) :
    2 ^ j * pageSize ∣ a ∧
      (∃ c, OnFreeList s z c ∧ c ≤ a ∧ a + k * pageSize ≤ c + (s.hdr c).blockSize) ∧
      (∃ free', ZoneState z total s' free') ∧
      ∃ s'', pmaZoneFreeRange z a k s' = some s'' ∧ SameZone z s s'' := by
  have hbeyond := h.inv.allocFromZone_keepsBeyond view_oneZone heq
  have hreq : PageRequest k (2 ^ j) := by
    have hpages : word = 2 ^ 52 * pageSize := rfl
    rw [hpages, ← Nat.add_mul, Nat.mul_lt_mul_right pageSize_pos] at hwrap
    have hpos := Nat.two_pow_pos j
    refine ⟨hk, ⟨j, ?_, rfl⟩, ?_⟩
    · have hlt : 2 ^ j < 2 ^ 52 := by omega
      have := (Nat.pow_lt_pow_iff_right (by omega)).mp hlt
      omega
    · rw [hpages, Nat.mul_lt_mul_right pageSize_pos]
      omega
  obtain ⟨ret, t, heq', hr⟩ := h.inv.allocFromZone view_oneZone hreq
  obtain ⟨rfl, rfl⟩ := Prod.mk.inj (Option.some.inj (heq.symm.trans heq'))
  cases hr with
  | none => exact absurd rfl ha
  | short => exact absurd rfl ha
  | @ok b rest _ _ hperm hlong hinv =>
    have hsep := (hperm.pairwise_iff fun h => h.symm).mp h.separate
    have hb : (z, b) ∈ free := hperm.mem_iff.mpr List.mem_cons_self
    have hsize := h.inv.holds.blockSize_eq hb
    have hzone := inZone_oneZone.mp (h.inv.zoned _ hb)
    obtain ⟨-, hdvd, -⟩ := headGap_spec (Nat.two_pow_pos j) b
    generalize headGap (2 ^ j) b = g at hdvd hlong hinv hbeyond
    obtain ⟨hstart, hend⟩ := hinv.runs_leftover hzone.2 hk hlong (List.pairwise_cons.mp hsep).1
    refine ⟨Nat.mul_dvd_mul_right hdvd _, ⟨_, (h.inv.holds.block_iff view_oneZone).mpr
      ⟨b, hb, rfl, rfl⟩ |>.1, ?_, ?_⟩, ⟨_, hinv.drop_live, separate_leftover hk hlong hsep⟩, ?_⟩
    · exact Nat.mul_le_mul_right _ (Nat.le_add_right _ _)
    · rw [hsize, ← Nat.add_mul, ← Nat.add_mul]
      exact Nat.mul_le_mul_right _ (by omega)
    · -- the pages, the gap and the rest are the block again
      have hwhole : g + k + (b.size - (g + k)) = b.size := Nat.add_sub_cancel' hlong
      have hstop : (⟨b.start + g, k⟩ : Piece).stop = b.start + (g + k) := Nat.add_assoc _ _ _
      have hpieces : ((leftover b g k).map (Prod.mk z) ++ rest).Perm
          ((pagesFrom (mergeStart z s' (b.start + g)) g).map (Prod.mk z) ++
            ((pagesFrom (⟨b.start + g, k⟩ : Piece).stop (b.size - (g + k))).map (Prod.mk z) ++
              rest)) := by
        rw [hstart, hstop, leftover, List.map_append, ← List.append_assoc]
        exact List.perm_append_comm.append_right rest
      have hpart : InZone (oneZone z total) z ⟨b.start + g, k⟩ := (h.inv.zoned _ hb).part hlong
      have hlimit : b.size < 2 ^ 36 :=
        (h.inv.within b (by simpa using ⟨z, hb⟩)).1
      obtain ⟨s'', hfree, h''⟩ := hinv.freeRange rfl hpart (by rw [hstart])
        (by rw [hstop, ← Nat.add_assoc, hend, Piece.stop]; omega) hpieces
          (by rw [hwhole]; exact hlimit)
        (by rw [hstart, hwhole]; exact h.inv.zoned _ hb)
      rw [hstart, hwhole] at h''
      have hbitmap := (hbeyond.trans (pmaZoneFreeRange_keepsBeyond hfree)).bitmap_eq h.inv h''
        hperm.symm
      exact ⟨s'', hfree, SameZone.of_perm h.inv.holds h''.holds hperm.symm hbitmap⟩

/-- Three pages at a multiple of 2 MiB, from the middle of a block of 600. -/
theorem pmaZoneFreeRange_undoes_alloc_example : ∃ s s' s'' a,
    zoneWith .low 1024 [⟨16, 65⟩, ⟨256, 600⟩] = some s ∧
      pmaAllocFromZone .low (3 * pageSize) (2 ^ 9 * pageSize) s = some (a, s') ∧ a ≠ 0 ∧
      2 ^ 9 * pageSize ∣ a ∧
      (∃ c, OnFreeList s .low c ∧ c ≤ a ∧ a + 3 * pageSize ≤ c + (s.hdr c).blockSize) ∧
      (∃ free, ZoneState .low 1024 s' free) ∧
      pmaZoneFreeRange .low a 3 s' = some s'' ∧ SameZone .low s s'' := by
  obtain ⟨s, hs⟩ : ∃ s, zoneWith .low 1024 [⟨16, 65⟩, ⟨256, 600⟩] = some s :=
    Option.isSome_iff_exists.mp (by decide +kernel)
  have h := zoneWith_state (by decide) (by decide) (by decide) hs
  have hrun : (zoneWith .low 1024 [⟨16, 65⟩, ⟨256, 600⟩]).bind (fun s =>
      (pmaAllocFromZone .low (3 * pageSize) (2 ^ 9 * pageSize) s).map Prod.fst) =
        some (512 * pageSize) := by decide +kernel
  rw [hs, Option.bind_some, Option.map_eq_some_iff] at hrun
  obtain ⟨⟨a, s'⟩, heq, rfl⟩ := hrun
  obtain ⟨hdvd, hin, hzone, s'', hfree, hsame⟩ := pmaZoneFreeRange_undoes_alloc h (k := 3)
    (j := 9) (by decide) (by decide) heq (by decide)
  exact ⟨s, s', s'', _, hs, heq, by decide, hdvd, hin, hzone, hfree, hsame⟩

end Cuore
