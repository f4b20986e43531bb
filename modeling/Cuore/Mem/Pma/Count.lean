import Cuore.Mem.Pma.Failure
import Cuore.Mem.Pma.Run

/-!
# Page counts (`mem/pma.c`, `mem/dmalloc.c`)

The allocation functions take any 64-bit count, and compute the size in bytes from it.  A count of
zero, also one that the size has wrapped to, is raised to the size of a header; the pages of a size
that has wrapped are fewer than the count.

* A call is safe exactly if its count is at least one and its size does not wrap, or if the lists
  have nothing for it (`pmaAlloc_safe_iff`).
* Otherwise the calls that ask for less than a page break a list: the block that they split off
  starts in the middle of a page (`BrokenList`).
-/

namespace Cuore

open Function Pma Piece

/-! ## `dmalloc` -/

/-- The number of pages that `dmalloc` and `dmalloc32` ask for. -/
def dmallocPages (size : ℕ) : ℕ := wadd size 4095 / 4096

/-- The allocation of `dmalloc`, without the entry in the registry. -/
def dmalloc (size : ℕ) : Pma → Option (ℕ × Pma) := pmaAllocPages (dmallocPages size)

/-- The allocation of `dmalloc32`, without the entry in the registry. -/
def dmalloc32 (size : ℕ) : Pma → Option (ℕ × Pma) := pmaAllocPagesLow (dmallocPages size)

/-! ## What a call may do -/

/-- **A well-formed state**: the lists hold pieces of whole pages of their zones that do not
overlap, and the bitmap shows exactly these as free.  Page 0 is none of them. -/
def PmaWellFormed (total : ℕ) (s : Pma) : Prop :=
  ∃ free, PmaInv (pmaZones total) (· ≠ 0) s free [] []

/-- The pages from `ret` on, `count` of them, have been free, and are the ones that are now used. -/
def HandsOut (total count ret : ℕ) (s s' : Pma) : Prop :=
  ∃ p, ret = p * pageSize ∧ p + count ≤ total ∧ (∀ q, p ≤ q → q < p + count → s.bitmap q = false) ∧
    ∀ q < total, s'.bitmap q = false ↔ s.bitmap q = false ∧ ¬(p ≤ q ∧ q < p + count)

/-- **A safe call**: it returns 0 or hands out `count` pages, and the state is well formed
afterwards. -/
def CallSafe (total count : ℕ) (call : Pma → Option (ℕ × Pma)) (s : Pma) : Prop :=
  ∃ ret s', call s = some (ret, s') ∧ PmaWellFormed total s' ∧
    (ret = 0 ∨ HandsOut total count ret s s')

namespace PmaAlloc

/-- The zones that the call looks at. -/
def zones : PmaAlloc → List PmaZoneId
  | pages _ => [.normal, .low]
  | pages2mb _ => [.normal, .low]
  | pagesLow _ => [.low]

/-- The pages of the size in bytes, which may have wrapped. -/
def pagesAsked (c : PmaAlloc) : ℕ := c.count % 2 ^ 52

/-- The size that the call looks for. -/
def searchSize (c : PmaAlloc) : ℕ :=
  pmaSearchSize (pmaRequestSize (c.pagesAsked * pageSize)) (c.align * pageSize)

/-- The lists have nothing for the call: in each of its zones, there is no block to look at, or it
does not have the pages. -/
def FindsNothing (c : PmaAlloc) (s : Pma) : Prop :=
  ∀ z ∈ c.zones, ∀ a, firstFit z c.searchSize s = some a →
    0 < c.pagesAsked ∧ ¬FitsIn s c.pagesAsked (c.align * pageSize) a

end PmaAlloc

variable {F : ℕ → Prop} {s s' : Pma} {free free' rest : List (PmaZoneId × Piece)}
    {live : List Piece}
  {z z' : PmaZoneId} {zs : List PmaZoneId} {b : Piece} {a m n g k j w ret total align : ℕ}

/-! ## The other zones -/

lemma tlsfBlockInsert_zone (h : tlsfBlockInsert z a s = some s') (hz : z' ≠ z) :
    s'.zone z' = s.zone z' := by
  unfold tlsfBlockInsert at h
  generalize tlsfMappingInsert (s.hdr a).blockSize = i at h
  dsimp only at h
  split_ifs at h
  unfold tlsfInsertFreeBlock at h
  dsimp only at h
  split_ifs at h
  obtain rfl := Option.some.inj h
  simp [setSlBitmap, setFlBitmap, setHead, hz]

lemma tlsfLocateFree_zone {found : Option ℕ} (h : tlsfLocateFree z n s = some (found, s'))
    (hz : z' ≠ z) : s'.zone z' = s.zone z' := by
  unfold tlsfLocateFree at h
  split_ifs at h
  · obtain ⟨-, rfl⟩ := Prod.mk.inj (Option.some.inj h)
    rfl
  generalize tlsfMappingInsert n = i at h
  dsimp only at h
  split_ifs at h
  · obtain ⟨r, -, h⟩ := Option.bind_eq_some_iff.mp h
    rcases r with _ | ⟨b, fl, sl⟩
    · obtain ⟨-, rfl⟩ := Prod.mk.inj (Option.some.inj h)
      rfl
    · obtain ⟨t, hremove, h⟩ := Option.bind_eq_some_iff.mp h
      obtain ⟨-, rfl⟩ := Prod.mk.inj (Option.some.inj h)
      unfold tlsfRemoveFreeBlock at hremove
      dsimp only at hremove
      split_ifs at hremove <;>
        (obtain rfl := Option.some.inj hremove
         simp [setSlBitmap, setFlBitmap, setHead, hz])
  · obtain ⟨-, rfl⟩ := Prod.mk.inj (Option.some.inj h)
    rfl

lemma pmaTakeBlock_zone (h : pmaTakeBlock z m n s = some (a, s')) (hz : z' ≠ z) :
    s'.zone z' = s.zone z' := by
  have hfinish : ∀ {t : Pma}, (pmaForPages (pmaPageSetUsed z) (n / pageSize) (m / pageSize)
      (blockMarkUsed t n)).zone z' = t.zone z' := fun {t} => by
    rw [pmaForPages_setUsed]
    rfl
  unfold pmaTakeBlock at h
  dsimp only at h
  split_ifs at h
  · obtain ⟨t, hput, heq⟩ := Option.bind_eq_some_iff.mp h
    obtain ⟨-, rfl⟩ := Prod.mk.inj (Option.some.inj heq)
    exact hfinish.trans ((tlsfBlockInsert_zone hput hz).trans rfl)
  · obtain ⟨t, hput, heq⟩ := Option.bind_eq_some_iff.mp h
    obtain ⟨-, rfl⟩ := Prod.mk.inj (Option.some.inj heq)
    exact tlsfBlockInsert_zone hput hz
  · obtain ⟨-, rfl⟩ := Prod.mk.inj (Option.some.inj h)
    exact hfinish

/-- An allocation from a zone does not change the lists of another one. -/
lemma pmaAllocFromZone_zone (h : pmaAllocFromZone z n align s = some (ret, s')) (hz : z' ≠ z) :
    s'.zone z' = s.zone z' := by
  obtain ⟨⟨found, t⟩, hlocate, h⟩ := Option.bind_eq_some_iff.mp h
  have hfound := tlsfLocateFree_zone hlocate hz
  rcases found with _ | block
  · obtain ⟨-, rfl⟩ := Prod.mk.inj (Option.some.inj h)
    exact hfound
  · dsimp only [pmaAllocFromBlock] at h
    split_ifs at h
    · obtain ⟨u, hput, htake⟩ := Option.bind_eq_some_iff.mp h
      exact ((pmaTakeBlock_zone htake hz).trans ((tlsfBlockInsert_zone hput hz).trans rfl)).trans
        hfound
    · obtain ⟨u, hput, h⟩ := Option.bind_eq_some_iff.mp h
      obtain ⟨-, rfl⟩ := Prod.mk.inj (Option.some.inj h)
      exact (tlsfBlockInsert_zone hput hz).trans hfound
    · exact (pmaTakeBlock_zone h hz).trans hfound

/-- What is looked at first depends on the lists of the zone only. -/
lemma firstFit_congr (h : s'.zone z = s.zone z) : firstFit z n s' = firstFit z n s := by
  unfold firstFit tlsfSearchSuitable
  rw [h]

/-! ## Sizes of at least one page -/

/-- In the zone, the block that is looked at first, if there is one, does not have the pages. -/
def NoneFits (z : PmaZoneId) (k w : ℕ) (s : Pma) : Prop :=
  ∀ a, firstFit z ((k + (w - 1)) * pageSize) s = some a → ¬FitsIn s k (w * pageSize) a

lemma noneFits_congr {Z : PmaZoneId → Bool} (h : TlsfHolds Z s free) (h' : TlsfHolds Z s' free')
    (hz : Z z) (hzone : s'.zone z = s.zone z) (hfree : ∀ b, (z, b) ∈ free → (z, b) ∈ free') :
    NoneFits z k w s' ↔ NoneFits z k w s := by
  unfold NoneFits FitsIn
  rw [firstFit_congr hzone]
  refine forall_congr' fun a => imp_congr_right fun hfit => ?_
  rcases h.locate hz ((k + (w - 1)) * pageSize) with ⟨hnone, -⟩ | ⟨b, rest, -, hsome, -, -,
    hperm, -⟩
  · cases hfit.symm.trans hnone
  · obtain rfl := Option.some.inj (hfit.symm.trans hsome)
    have hb : (z, b) ∈ free := hperm.mem_iff.mpr List.mem_cons_self
    rw [h.blockSize_eq hb, h'.blockSize_eq (hfree b hb)]

/-- What is left of a piece has the pages that have not been taken. -/
lemma exists_mem_leftover {q : ℕ} (hlong : g + k ≤ b.size) :
    (∃ c ∈ leftover b g k, q ∈ c) ↔ q ∈ b ∧ ¬(b.start + g ≤ q ∧ q < b.start + g + k) := by
  simp only [mem_leftover, or_and_right, exists_or, and_assoc, exists_and_left, exists_eq_left,
    mem_iff]
  omega

/-- The bitmap after the pages have been taken. -/
lemma PmaInv.bitmap_leftover {live' : List Piece} (h : PmaInv (pmaZones total) F s free [] live)
    (h' : PmaInv (pmaZones total) F s' ((leftover b g k).map (Prod.mk z) ++ rest) [] live')
    (hperm : free.Perm ((z, b) :: rest)) (hlong : g + k ≤ b.size) {q : ℕ} (hq : q < total) :
    s'.bitmap q = false ↔ s.bitmap q = false ∧ ¬(b.start + g ≤ q ∧ q < b.start + g + k) := by
  have hview : ∀ z, (pmaZones total).view z = true := fun _ => rfl
  rw [h.clear rfl .normal (hview _) q hq, h'.clear rfl .normal (hview _) q hq]
  simp only [List.nil_append, List.map_append, List.map_map, Function.comp_def, List.map_id',
    (hperm.map Prod.snd).mem_iff, List.map_cons, List.mem_append, List.mem_cons, or_and_right,
    exists_or, exists_eq_left, exists_mem_leftover hlong]
  refine or_congr_right (iff_self_and.mpr ?_)
  -- the pages that have been taken are not those of other pieces
  rintro ⟨c, hc, hqc⟩ hin
  have hqb : q ∈ b := by
    rw [mem_iff]
    omega
  refine (h.packed.perm (((hperm.map Prod.snd).append_left []).append_right live)).not_mem hqb ?_
    hqc
  exact List.mem_append_left live hc

lemma PmaInv.forget {A : PmaArea} (h : PmaInv A F s free [] live) : PmaInv A F s free [] [] := by
  have hsub : ([] ++ free.map Prod.snd ++ []).Sublist ([] ++ free.map Prod.snd ++ live) :=
    (List.Sublist.refl _).append (List.nil_sublist live)
  exact
    { h with
      packed := ⟨fun c hc => h.packed.pos c (hsub.subset hc), h.packed.apart.sublist hsub⟩
      within := fun c hc => h.within c (hsub.subset hc)
      liveZoned := by simp }

/-- **One zone.**  The allocation fails, because the block does not have the pages, and the bitmap
and the other zones stay; or it hands out the pages. -/
lemma PmaInv.tryZone (h : PmaInv (pmaZones total) (· ≠ 0) s free [] []) (hreq : PageRequest k w) :
    ∃ ret s' free', pmaAllocFromZone z (k * pageSize) (w * pageSize) s = some (ret, s') ∧
      PmaInv (pmaZones total) (· ≠ 0) s' free' [] [] ∧
      (ret = 0 ∧ NoneFits z k w s ∧ (∀ q < total, s'.bitmap q = false ↔ s.bitmap q = false) ∧
          (∀ z' ≠ z, ∀ b, (z', b) ∈ free → (z', b) ∈ free') ∨
        ret ≠ 0 ∧ HandsOut total k ret s s' ∧ ¬NoneFits z k w s) := by
  obtain ⟨ret, s', heq, hr⟩ := h.allocFromZone (z := z) rfl hreq
  obtain ⟨hk, ⟨j, hj, rfl⟩, -⟩ := hreq
  have hfits : ∀ {b rest}, free.Perm ((z, b) :: rest) →
      (FitsIn s k (2 ^ j * pageSize) (b.start * pageSize) ↔ headGap (2 ^ j) b + k ≤ b.size) :=
    fun hperm => fitsIn_iff (h.holds.blockSize_eq (hperm.mem_iff.mpr List.mem_cons_self))
  cases hr with
  | none hfit =>
    refine ⟨0, s, free, heq, h, .inl ⟨rfl, fun a ha => ?_, fun q _ => Iff.rfl, fun _ _ _ hb => hb⟩⟩
    cases ha.symm.trans hfit
  | @short b rest _ hfit hperm hgap hshort hinv =>
    refine ⟨0, s', _, heq, hinv, .inl ⟨rfl, fun a ha => ?_, fun q hq => ?_, fun z' hz' c hc => ?_⟩⟩
    · obtain rfl := Option.some.inj (ha.symm.trans hfit)
      rw [hfits hperm]
      omega
    · rw [h.bitmap_leftover hinv hperm (by omega) hq]
      exact and_iff_left (by omega)
    · rcases List.mem_cons.mp (hperm.mem_iff.mp hc) with heq | hrest
      · exact absurd (Prod.mk.inj heq).1 hz'
      · exact List.mem_append_right _ hrest
  | @ok b rest _ hfit hperm hlong hinv =>
    have hb : (z, b) ∈ free := hperm.mem_iff.mpr List.mem_cons_self
    have hzone : InZone (pmaZones total) z b := h.zoned (z, b) hb
    have htotal : (pmaZones total).hi z ≤ total := by
      cases z
      · exact Nat.le_refl total
      · exact Nat.min_le_left _ _
    refine ⟨_, s', _, heq, hinv.forget, .inr ⟨hinv.ret_ne_zero (fun h0 => h0 rfl),
      ⟨_, rfl, ?_, fun q hle hlt => ?_, fun q hq => h.bitmap_leftover hinv hperm hlong hq⟩,
      fun hnone => hnone _ hfit ((hfits hperm).mpr hlong)⟩⟩
    · exact ((hzone.part hlong).2.2).trans htotal
    · have hqb : q ∈ b := by
        rw [mem_iff]
        omega
      rw [h.clear rfl z rfl q (hzone.lt_hi hqb)]
      exact ⟨b, List.mem_map_of_mem hb, hqb⟩

/-- The zones `zs` in turn, until one has the pages. -/
def pmaTryZones (size align : ℕ) : List PmaZoneId → Pma → Option (ℕ × Pma)
  | [], s => some (0, s)
  | z :: zs, s => do
    let (ret, s) ← pmaAllocFromZone z size align s
    if ret = 0 then pmaTryZones size align zs s else some (ret, s)

lemma pmaTryZones_singleton : pmaTryZones n align [z] s = pmaAllocFromZone z n align s := by
  unfold pmaTryZones pmaTryZones
  cases pmaAllocFromZone z n align s with
  | none => rfl
  | some r =>
    show (if r.1 = 0 then some (0, r.2) else some (r.1, r.2)) = some r
    split_ifs with hret
    · rw [← hret]
    · rfl

lemma pmaAllocFromZones_eq :
    pmaAllocFromZones n align s = pmaTryZones n align [.normal, .low] s := by
  unfold pmaAllocFromZones pmaTryZones
  simp only [pmaTryZones_singleton]

/-- The calls look at their zones in turn. -/
lemma PmaAlloc.run_eq (c : PmaAlloc) : c.run s =
    pmaTryZones (c.pagesAsked * pageSize) (c.align * pageSize) c.zones s := by
  have hpages : ∀ n, wmul n pageSize = n % 2 ^ 52 * pageSize :=
    fun n => Nat.mul_mod_mul_right pageSize n (2 ^ 52)
  have hlarge : ∀ n, wmul n pageSize2mb = wmul (n * 512) pageSize := fun n =>
    congrArg (· % word) (Nat.mul_assoc n 512 pageSize).symm
  cases c with
  | pages n =>
    rw [PmaAlloc.run, pmaAllocPages, pmaAllocFromZones_eq, hpages, align, Nat.one_mul]
    rfl
  | pages2mb n =>
    have halign : pageSize2mb = 512 * pageSize := rfl
    rw [PmaAlloc.run, pmaAllocPages2mb, pmaAllocFromZones_eq, hlarge, hpages, halign]
    rfl
  | pagesLow n =>
    rw [PmaAlloc.run, pmaAllocPagesLow, hpages, align, Nat.one_mul, zones, pmaTryZones_singleton]
    rfl

lemma PmaAlloc.zones_nodup (c : PmaAlloc) : c.zones.Nodup := by
  cases c <;> simp [zones]

/-- The pages asked for, with the slack for the alignment, do not wrap. -/
lemma PmaAlloc.request {c : PmaAlloc} (hpos : 0 < c.pagesAsked) :
    PageRequest c.pagesAsked c.align := by
  have hpages : word = 2 ^ 52 * pageSize := rfl
  have hlt : c.pagesAsked < 2 ^ 52 := Nat.mod_lt _ (Nat.two_pow_pos 52)
  cases c with
  | pages n =>
    refine ⟨hpos, ⟨0, by omega, rfl⟩, ?_⟩
    rw [hpages]
    exact Nat.mul_lt_mul_of_pos_right hlt pageSize_pos
  | pages2mb n =>
    have hslack : ∀ n, n * 512 % 2 ^ 52 + 511 < 2 ^ 52 := by omega
    refine ⟨hpos, ⟨9, by omega, rfl⟩, ?_⟩
    rw [hpages]
    exact Nat.mul_lt_mul_of_pos_right (hslack n) pageSize_pos
  | pagesLow n =>
    refine ⟨hpos, ⟨0, by omega, rfl⟩, ?_⟩
    rw [hpages]
    exact Nat.mul_lt_mul_of_pos_right hlt pageSize_pos

/-- **The zones in turn.** -/
lemma PmaInv.tryZones (h : PmaInv (pmaZones total) (· ≠ 0) s free [] []) (hreq : PageRequest k w)
    (hnd : zs.Nodup) :
    ∃ ret s', pmaTryZones (k * pageSize) (w * pageSize) zs s = some (ret, s') ∧
      PmaWellFormed total s' ∧
      (ret = 0 ∧ (∀ z ∈ zs, NoneFits z k w s) ∨
        ret ≠ 0 ∧ HandsOut total k ret s s' ∧ ¬∀ z ∈ zs, NoneFits z k w s) := by
  induction zs generalizing s free with
  | nil => exact ⟨0, s, rfl, ⟨free, h⟩, .inl ⟨rfl, by simp⟩⟩
  | cons z zs ih =>
    obtain ⟨hz, hnd⟩ := List.nodup_cons.mp hnd
    obtain ⟨ret, s₁, free₁, heq, h₁, hcases⟩ := h.tryZone (z := z) hreq
    unfold pmaTryZones
    rw [heq]
    dsimp only [Option.bind_eq_bind, Option.bind_some]
    rcases hcases with ⟨rfl, hnone, hbits, hothers⟩ | ⟨hret, hout, hfits⟩
    · -- the other zones are as they were
      have hsame : (∀ z' ∈ zs, NoneFits z' k w s₁) ↔ ∀ z' ∈ zs, NoneFits z' k w s := by
        refine forall₂_congr fun z' hz' => ?_
        have hne : z' ≠ z := fun heq => hz (heq ▸ hz')
        exact noneFits_congr h.holds h₁.holds rfl (pmaAllocFromZone_zone heq hne) (hothers z' hne)
      obtain ⟨ret, s₂, heq₂, hwell, hcases₂⟩ := ih h₁ hnd
      rw [if_pos rfl]
      refine ⟨ret, s₂, heq₂, hwell, hcases₂.imp (And.imp_right fun hall => ?_)
        (And.imp_right fun ⟨hout, hfits⟩ => ⟨?_, fun hall => hfits (hsame.mpr fun z' hz' => ?_)⟩)⟩
      · exact List.forall_mem_cons.mpr ⟨hnone, hsame.mp hall⟩
      · obtain ⟨p, hp, hle, hfree, hbits₂⟩ := hout
        refine ⟨p, hp, hle, fun q hq hlt => ?_, fun q hq => ?_⟩
        · exact (hbits q (by omega)).mp (hfree q hq hlt)
        · rw [hbits₂ q hq, hbits q hq]
      · exact hall z' (List.mem_cons_of_mem z hz')
    · rw [if_neg hret]
      exact ⟨ret, s₁, rfl, ⟨free₁, h₁⟩, .inr ⟨hret, hout, fun hall =>
        hfits (hall z List.mem_cons_self)⟩⟩

/-! ## Sizes of less than a page -/

/-- A list of the zone starts with a block that is not at the start of a page, or is shorter than a
page. -/
def BrokenList (z : PmaZoneId) (s : Pma) : Prop :=
  ∃ k, heads s.zone (z, k) ≠ pmaBlockNull z ∧ (pageSize ∣ heads s.zone (z, k) → k = (0, 0))

lemma lt_pageSize_of_class (h : tlsfMappingInsert n = (0, 0)) : n < pageSize := by
  rcases Nat.lt_or_ge n pmaSmallBlockSize with hsmall | hlarge
  · rw [tlsfMappingInsert_of_small hsmall, Prod.mk.injEq, Nat.shiftRight_eq_div_pow] at h
    simp only [pageSize]
    omega
  · have hlog := log2_of_large hlarge
    rw [tlsfMappingInsert_of_large hlarge, Prod.mk.injEq] at h
    omega

/-- The lists of pieces are not broken. -/
lemma PmaInv.not_brokenList {A : PmaArea} {hand : List Piece} (h : PmaInv A F s free hand live)
    (hz : A.view z) : ¬BrokenList z s := by
  rintro ⟨⟨fl, sl⟩, hne, hbroken⟩
  obtain ⟨-, L, hL, hfree⟩ := h.holds
  have hhead := hL.chains.head_eq (z, fl, sl)
  rw [headsOn_of_on hz] at hhead
  rcases firstAddr_mem_or (l := L (z, fl, sl)) (q := pmaBlockNull z) with hmem | heq
  · have hon : heads s.zone (z, fl, sl) ∈ L (z, fl, sl) := by
      rw [hhead]
      exact hmem
    obtain ⟨⟨p, hp⟩, n, hn⟩ := hL.aligned _ _ hon
    obtain ⟨rfl, rfl⟩ := Prod.mk.inj (hbroken ⟨p, hp⟩)
    have hshort := lt_pageSize_of_class (hL.mapped z 0 0 _ hon)
    -- the block is a piece with at least one page
    rw [hp, Nat.mul_comm] at hon hn hshort
    rw [Nat.mul_comm pageSize n] at hn
    have hpos := h.pos_of_free ((hfree z ⟨p, n⟩).mpr ⟨⟨0, 0, hon⟩, hn⟩)
    have hlong := Nat.le_mul_of_pos_left pageSize hpos
    dsimp only at hlong
    omega
  · exact hne (hhead.trans heq)

lemma BrokenList.of_zone (h : BrokenList z s) (hzone : s'.zone z = s.zone z) : BrokenList z s' := by
  obtain ⟨k, hne, hk⟩ := h
  have hhead : heads s'.zone (z, k) = heads s.zone (z, k) := by
    rw [heads, heads, hzone]
  exact ⟨k, by rwa [hhead], by rwa [hhead]⟩

/-- **A size of less than a page** breaks a list of the zone, if there is a block. -/
lemma PmaInv.allocNothing (h : PmaInv (pmaZones total) F s free [] []) (hj : j ≤ 51)
    (hfit : firstFit z (pmaSearchSize pmaBlockHeaderSize (2 ^ j * pageSize)) s = some a)
    (heq : pmaAllocFromZone z (0 * pageSize) (2 ^ j * pageSize) s = some (ret, s')) :
    BrokenList z s' := by
  have hheader : pmaRequestSize (0 * pageSize) = pmaBlockHeaderSize := by decide
  have hnull : ∀ p, p * pageSize ≠ pmaBlockNull z := by
    cases z <;> simp only [pageSize, pmaBlockNull] <;> omega
  unfold pmaAllocFromZone at heq
  rw [hheader] at heq
  dsimp only at heq
  rcases h.holds.locate (z := z) rfl (pmaSearchSize pmaBlockHeaderSize (2 ^ j * pageSize)) with
    ⟨hnone, -⟩ | ⟨b, rest, s₁, hsome, hlocate, hsame, hperm, hholds, hb, -⟩
  · cases hfit.symm.trans hnone
  rw [hlocate] at heq
  dsimp only [Option.bind_eq_bind, Option.bind_some] at heq
  have hzone : InZone (pmaZones total) z b := h.zoned (z, b) (hperm.mem_iff.mpr List.mem_cons_self)
  have hpos : 0 < b.size := h.pos_of_free (hperm.mem_iff.mpr List.mem_cons_self)
  have h₁ := h.taken hsame hperm hholds
  have hb₁ := (hsame.blockSize (b.start * pageSize)).trans hb
  have hstart : b.start ≤ 2 ^ 40 :=
    (Nat.le_add_right _ _).trans (hzone.2.2.trans (h.addressable z rfl))
  rcases Nat.lt_trichotomy (headGap (2 ^ j) b) b.size with hlt | hgap | hgt
  · -- the rest starts in the middle of a page
    obtain ⟨s₂, heq₂, h₂, hb₂⟩ := h₁.cutGap hzone hj hb₁ hlt pmaBlockHeaderSize
    have hzone₂ : InZone (pmaZones total) z
        ⟨b.start + headGap (2 ^ j) b, b.size - headGap (2 ^ j) b⟩ := hzone.part (by omega)
    obtain ⟨s₃, heq₃, -, k, hhead⟩ := h₂.takeBlock_header hzone₂ hb₂
    rw [heq₂, heq₃] at heq
    obtain ⟨-, rfl⟩ := Prod.mk.inj (Option.some.inj heq)
    refine ⟨k, ?_, ?_⟩
    · rw [hhead]
      cases z <;> simp only [pageSize, pmaBlockNull, pmaBlockHeaderSize] <;> omega
    · intro hdvd
      rw [hhead] at hdvd
      exact absurd ((Nat.dvd_add_right (Nat.dvd_mul_left pageSize _)).mp hdvd) (by decide)
  · -- the block of size zero is the head of the first list
    rw [pmaAllocFromBlock_of_gap hj hstart (by omega), hgap] at heq
    obtain ⟨t, hput, htake⟩ := Option.bind_eq_some_iff.mp heq
    have hzero := (blockSplit_whole_sizes hpos (h₁.stop_lt_word hzone) hb₁).2.1
    rw [← (tlsfBlockInsert_same hput).blockSize] at hzero
    change pmaTakeBlock z pmaBlockHeaderSize (b.stop * pageSize) t = some (ret, s') at htake
    unfold pmaTakeBlock at htake
    dsimp only at htake
    rw [hzero, if_neg (Nat.not_lt_zero _), if_pos (by decide)] at htake
    obtain ⟨u, hput', htake⟩ := Option.bind_eq_some_iff.mp htake
    obtain ⟨-, rfl⟩ := Prod.mk.inj (Option.some.inj htake)
    have hhead := tlsfBlockInsert_head hput'
    rw [hzero] at hhead
    refine ⟨(0, 0), ?_, fun _ => rfl⟩
    exact fun hnil => hnull b.stop (hhead.symm.trans hnil)
  · -- no list takes the rest
    obtain ⟨t, p, i, htake, -, hp, hi, hi', hsize⟩ :=
      allocFromBlock_of_long_gap hj hstart hb₁ hgt heq
    have hwide : 2 ^ 51 * pageSize ≤ (2 ^ 52 - i) * pageSize :=
      Nat.mul_le_mul_right pageSize (by omega)
    have hword : (2 ^ 52 - i) * pageSize < word :=
      Nat.mul_lt_mul_of_pos_right (show 2 ^ 52 - i < 2 ^ 52 by omega) pageSize_pos
    have hpword : p * pageSize < word := Nat.mul_lt_mul_of_pos_right hp pageSize_pos
    have heven : 2 ∣ (2 ^ 52 - i) * pageSize := Dvd.dvd.mul_left (by decide) _
    generalize (2 ^ 52 - i) * pageSize = n at hsize hwide hword heven
    unfold pmaTakeBlock at htake
    dsimp only at htake
    rw [hsize, if_pos (lt_of_lt_of_le (by decide) hwide)] at htake
    obtain ⟨u, hput, -⟩ := Option.bind_eq_some_iff.mp htake
    have hrest : wsub n pmaBlockHeaderSize = n - pmaBlockHeaderSize :=
      wsub_of_le (le_trans (by decide) hwide) hword
    obtain ⟨-, hsecond, -⟩ := blockSplit_sizes (s := t) (a := p * pageSize)
      (n := pmaBlockHeaderSize) (by decide) (by decide)
      (by rw [hsize, hrest]; exact Nat.dvd_sub heven (by decide))
      (by rw [wadd_header hpword]; simp only [pmaBlockHeaderSize]; omega)
    have hlt := blockSize_lt_of_insert hput
    change ((Cuore.blockSplit (p * pageSize) pmaBlockHeaderSize t).2.hdr
      (wadd (p * pageSize) pmaBlockHeaderSize)).blockSize < 2 ^ 48 at hlt
    rw [hsecond, hsize, hrest] at hlt
    simp only [pageSize, pmaBlockHeaderSize] at hlt hwide
    omega

/-- Nothing mends a broken list of a zone that is not looked at any more. -/
lemma pmaTryZones_broken (h : BrokenList z s) (hz : z ∉ zs)
    (heq : pmaTryZones n align zs s = some (ret, s')) : BrokenList z s' := by
  induction zs generalizing s with
  | nil =>
    obtain ⟨-, rfl⟩ := Prod.mk.inj (Option.some.inj heq)
    exact h
  | cons z' zs ih =>
    rw [List.mem_cons, not_or] at hz
    obtain ⟨⟨ret', t⟩, halloc, heq⟩ := Option.bind_eq_some_iff.mp heq
    have ht := h.of_zone (pmaAllocFromZone_zone halloc hz.1)
    dsimp only at heq
    split_ifs at heq
    · exact ih ht hz.2 heq
    · obtain ⟨-, rfl⟩ := Prod.mk.inj (Option.some.inj heq)
      exact ht

/-- The zones in turn, for a size of less than a page. -/
lemma PmaInv.tryNothing (h : PmaInv (pmaZones total) F s free [] []) (hj : j ≤ 51)
    (hnd : zs.Nodup) :
    (∀ z ∈ zs, firstFit z (pmaSearchSize pmaBlockHeaderSize (2 ^ j * pageSize)) s = none) ∧
        pmaTryZones (0 * pageSize) (2 ^ j * pageSize) zs s = some (0, s) ∨
      (∃ z ∈ zs, ∃ a, firstFit z (pmaSearchSize pmaBlockHeaderSize (2 ^ j * pageSize)) s = some a) ∧
        ∀ ret s', pmaTryZones (0 * pageSize) (2 ^ j * pageSize) zs s = some (ret, s') →
          ∃ z, BrokenList z s' := by
  have hheader : pmaRequestSize (0 * pageSize) = pmaBlockHeaderSize := by decide
  induction zs with
  | nil => exact .inl ⟨by simp, rfl⟩
  | cons z zs ih =>
    obtain ⟨hz, hnd⟩ := List.nodup_cons.mp hnd
    rcases hfit : firstFit z (pmaSearchSize pmaBlockHeaderSize (2 ^ j * pageSize)) s with _ | a
    · have halloc : pmaAllocFromZone z (0 * pageSize) (2 ^ j * pageSize) s = some (0, s) := by
        rcases h.holds.locate (z := z) rfl
          (pmaSearchSize pmaBlockHeaderSize (2 ^ j * pageSize)) with
          ⟨-, hlocate⟩ | ⟨b, rest, s₁, hsome, -⟩
        · unfold pmaAllocFromZone
          rw [hheader]
          dsimp only
          rw [hlocate]
          rfl
        · cases hfit.symm.trans hsome
      have hskip : pmaTryZones (0 * pageSize) (2 ^ j * pageSize) (z :: zs) s =
          pmaTryZones (0 * pageSize) (2 ^ j * pageSize) zs s := by
        rw [pmaTryZones, halloc]
        rfl
      rw [hskip]
      refine (ih hnd).imp (And.imp_left fun hnone => ?_) (And.imp_left fun ⟨z', hz', ha⟩ => ?_)
      · exact List.forall_mem_cons.mpr ⟨hfit, hnone⟩
      · exact ⟨z', List.mem_cons_of_mem z hz', ha⟩
    · refine .inr ⟨⟨z, List.mem_cons_self, a, hfit⟩, fun ret s' heq => ⟨z, ?_⟩⟩
      obtain ⟨⟨ret', t⟩, halloc, heq⟩ := Option.bind_eq_some_iff.mp heq
      have hbroken := h.allocNothing hj hfit halloc
      dsimp only at heq
      split_ifs at heq
      · exact pmaTryZones_broken hbroken hz heq
      · obtain ⟨-, rfl⟩ := Prod.mk.inj (Option.some.inj heq)
        exact hbroken

/-! ## Safety -/

/-- The count is valid exactly if it is that of the size in bytes, and this is not zero. -/
lemma PmaAlloc.valid_iff {c : PmaAlloc} : c.Valid ↔ 0 < c.pagesAsked ∧ c.count = c.pagesAsked := by
  have hpages : word = 2 ^ 52 * pageSize := rfl
  rw [Valid, hpages, Nat.mul_lt_mul_right pageSize_pos, pagesAsked]
  omega

lemma PmaAlloc.align_eq (c : PmaAlloc) : ∃ j ≤ 51, c.align = 2 ^ j := by
  cases c
  · exact ⟨0, by omega, rfl⟩
  · exact ⟨9, by omega, rfl⟩
  · exact ⟨0, by omega, rfl⟩

/-- Nothing is found exactly if the block that is looked at first does not have the pages. -/
lemma PmaAlloc.findsNothing_iff {c : PmaAlloc} (hpos : 0 < c.pagesAsked) :
    c.FindsNothing s ↔ ∀ z ∈ c.zones, NoneFits z c.pagesAsked c.align s := by
  obtain ⟨hk, ⟨j, -, hw⟩, hwrap⟩ := PmaAlloc.request hpos
  have hword : c.pagesAsked * pageSize < word :=
    lt_of_le_of_lt (Nat.mul_le_mul_right _ (Nat.le_add_right _ _)) hwrap
  unfold FindsNothing NoneFits searchSize
  rw [pmaRequestSize_pages hk hword]
  rw [hw] at hwrap ⊢
  rw [pmaSearchSize_pages hwrap]
  exact forall₂_congr fun z _ => forall₂_congr fun a _ => and_iff_right hpos

lemma PmaWellFormed.total_le (h : PmaWellFormed total s) : total ≤ 2 ^ 40 := by
  obtain ⟨free, h⟩ := h
  exact h.addressable .normal rfl

/-- A call is safe exactly if its count is valid or nothing is found. -/
lemma PmaWellFormed.callSafe_iff (h : PmaWellFormed total s) (c : PmaAlloc) :
    CallSafe total c.count c.run s ↔ c.Valid ∨ c.FindsNothing s := by
  have htotal := h.total_le
  obtain ⟨free, hinv⟩ := id h
  rcases Nat.eq_zero_or_pos c.pagesAsked with hzero | hpos
  · have hvalid : ¬c.Valid := fun hvalid => absurd (PmaAlloc.valid_iff.mp hvalid).1 (by omega)
    have hheader : pmaRequestSize (0 * pageSize) = pmaBlockHeaderSize := by decide
    obtain ⟨j, hj, hw⟩ := c.align_eq
    rw [or_iff_right hvalid, CallSafe, PmaAlloc.FindsNothing, PmaAlloc.searchSize, PmaAlloc.run_eq,
      hzero, hw, hheader]
    rcases hinv.tryNothing hj c.zones_nodup with ⟨hnone, heq⟩ | ⟨⟨z, hz, a, hfit⟩, hbroken⟩
    · refine iff_of_true ⟨0, s, heq, h, .inl rfl⟩ fun z hz a ha => ?_
      cases ha.symm.trans (hnone z hz)
    · refine iff_of_false ?_ fun hfinds => absurd (hfinds z hz a hfit).1 (Nat.lt_irrefl 0)
      rintro ⟨ret, s', heq, ⟨free', h'⟩, -⟩
      obtain ⟨z', hz'⟩ := hbroken ret s' heq
      exact h'.not_brokenList rfl hz'
  · rw [PmaAlloc.findsNothing_iff hpos, PmaAlloc.valid_iff, and_iff_right hpos]
    obtain ⟨ret, s', heq, hwell, hcases⟩ := hinv.tryZones (PmaAlloc.request hpos) c.zones_nodup
    rw [← PmaAlloc.run_eq] at heq
    rcases hcases with ⟨rfl, hnone⟩ | ⟨hret, hout, hfits⟩
    · exact iff_of_true ⟨0, s', heq, hwell, .inl rfl⟩ (.inr hnone)
    · rw [or_iff_left hfits]
      constructor
      · rintro ⟨ret', s'', heq', -, hcases'⟩
        obtain ⟨rfl, rfl⟩ := Prod.mk.inj (Option.some.inj (heq.symm.trans heq'))
        obtain ⟨p, -, hle, -⟩ := hcases'.resolve_left hret
        -- the count is that of pages that exist
        rw [PmaAlloc.pagesAsked, Nat.mod_eq_of_lt (by omega)]
      · intro hcount
        rw [← hcount] at hout
        exact ⟨ret, s', heq, hwell, .inr hout⟩

lemma dmallocPages_valid {size : ℕ} {c : PmaAlloc} (hc : c.count = dmallocPages size) :
    c.Valid ↔ 0 < dmallocPages size := by
  have hlt : wadd size 4095 < word := wadd_lt _ _
  have hle : dmallocPages size * pageSize ≤ wadd size 4095 := Nat.div_mul_le_self _ _
  rw [PmaAlloc.Valid, hc, and_iff_left (by omega)]

/-- The states of runs in which every range merges cleanly are well formed. -/
lemma PmaRun.wellFormed {regions : List CmmRegion} {hdr : ℕ → PmaFreeBlock} {s₀ : Pma}
    {ranges : List (ℕ × ℕ)} (hmap : UsableMap regions) (hinit : pmaInit regions hdr = some s₀)
    (h : PmaRun MergesCleanly s₀ s ranges) : PmaWellFormed (cmmGetRamTop regions / pageSize) s := by
  obtain ⟨free, lv, -, hinv⟩ := h.inv hmap hinit
  obtain ⟨-, hF, -⟩ := PmaInv.init hmap hinit
  have hforget := hinv.forget
  refine ⟨free, { hforget with within := fun b hb => ?_ }⟩
  obtain ⟨hsmall, hin⟩ := hforget.within b hb
  refine ⟨hsmall, fun p hp => ?_⟩
  rintro rfl
  exact hF (hin 0 hp)

/-- **Which counts are safe.**  In a well-formed state, a call of an allocation function returns 0
or hands out pages in the number of its count, and leaves a well-formed state, exactly if the count
is not zero and its size in bytes does not wrap, or the lists have nothing for the call.  The calls
that `dmalloc` and `dmalloc32` make are safe exactly if their count is not zero, or the lists have
nothing. -/
theorem pmaAlloc_safe_iff (h : PmaWellFormed total s) :
    (∀ c : PmaAlloc, CallSafe total c.count c.run s ↔ c.Valid ∨ c.FindsNothing s) ∧
      ∀ size,
        (CallSafe total (dmallocPages size) (dmalloc size) s ↔
          0 < dmallocPages size ∨ (PmaAlloc.pages (dmallocPages size)).FindsNothing s) ∧
        (CallSafe total (dmallocPages size) (dmalloc32 size) s ↔
          0 < dmallocPages size ∨ (PmaAlloc.pagesLow (dmallocPages size)).FindsNothing s) := by
  refine ⟨h.callSafe_iff, fun size => ⟨?_, ?_⟩⟩
  · rw [← dmallocPages_valid (c := .pages (dmallocPages size)) rfl]
    exact h.callSafe_iff (.pages (dmallocPages size))
  · rw [← dmallocPages_valid (c := .pagesLow (dmallocPages size)) rfl]
    exact h.callSafe_iff (.pagesLow (dmallocPages size))

/-- At boot, a call for no pages, one for `2 ^ 52 + 1` pages and `dmalloc32(0)` are not safe. -/
theorem pmaAlloc_unsafe_straddlingMap : ∃ total s, PmaWellFormed total s ∧
    ¬CallSafe total 0 (pmaAllocPages 0) s ∧
      ¬CallSafe total (2 ^ 52 + 1) (pmaAllocPages (2 ^ 52 + 1)) s ∧
        ¬CallSafe total (dmallocPages 0) (dmalloc32 0) s := by
  obtain ⟨s, hinit⟩ : ∃ s, pmaInit straddlingMap zeroHdr = some s :=
    Option.isSome_iff_exists.mp (by decide +kernel)
  have h := PmaRun.wellFormed usableMap_straddlingMap hinit PmaRun.init
  -- there is a block to look at, and one with a page
  have hfits : (pmaInit straddlingMap zeroHdr).bind (fun s =>
      (firstFit .normal (PmaAlloc.pages (2 ^ 52 + 1)).searchSize s).map fun a =>
        (a, (s.hdr a).blockSize)) = some (0x100000000, 2 * pageSize) := by
    decide +kernel
  have hlow : (pmaInit straddlingMap zeroHdr).bind
      (firstFit .low (PmaAlloc.pagesLow 0).searchSize) = some (0x100000000 - 2 * pageSize) := by
    decide +kernel
  have hnormal : (pmaInit straddlingMap zeroHdr).bind
      (firstFit .normal (PmaAlloc.pages 0).searchSize) = some 0x100000000 := by
    decide +kernel
  rw [hinit, Option.bind_some] at hfits hlow hnormal
  obtain ⟨a, hfit, ha⟩ := Option.map_eq_some_iff.mp hfits
  obtain ⟨rfl, hsize⟩ := Prod.mk.inj ha
  refine ⟨_, s, h, fun hsafe => ?_, fun hsafe => ?_, fun hsafe => ?_⟩
  · rcases (h.callSafe_iff (.pages 0)).mp hsafe with hvalid | hfinds
    · exact absurd hvalid (by decide)
    · exact absurd (hfinds .normal (by decide) _ hnormal).1 (by decide)
  · rcases (h.callSafe_iff (.pages (2 ^ 52 + 1))).mp hsafe with hvalid | hfinds
    · exact absurd hvalid (by decide)
    · refine (hfinds .normal (by decide) _ hfit).2 ⟨0x100000000, by decide, Nat.le_refl _, ?_⟩
      rw [hsize]
      decide
  · rcases (h.callSafe_iff (.pagesLow 0)).mp hsafe with hvalid | hfinds
    · exact absurd hvalid (by decide)
    · exact absurd (hfinds .low (by decide) _ hlow).1 (by decide)

/-- At boot, a call for one page is safe. -/
theorem pmaAlloc_safe_straddlingMap : ∃ s, pmaInit straddlingMap zeroHdr = some s ∧
    CallSafe (cmmGetRamTop straddlingMap / pageSize) 1 (pmaAllocPages 1) s := by
  obtain ⟨s, hinit⟩ : ∃ s, pmaInit straddlingMap zeroHdr = some s :=
    Option.isSome_iff_exists.mp (by decide +kernel)
  have h := PmaRun.wellFormed usableMap_straddlingMap hinit PmaRun.init
  exact ⟨s, hinit, ((pmaAlloc_safe_iff h).1 (.pages 1)).mpr (.inl (by decide))⟩

end Cuore
