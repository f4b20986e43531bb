import Cuore.Mem.Pma.Lists

/-!
# Physical memory as pieces

The state of the allocator as pieces of memory: those on the free lists, those that have been
handed out, and those that an operation has in its hand, which the bitmap shows as free but which
are on no list.  `PmaInv` says that the pieces do not overlap and that the bitmap shows what is
free; it does not say that free pieces which touch have been joined.

An area says which zones are looked at and which pages they manage: the two zones with their sides
of 4 GiB in the running system, or one zone by itself.

Every operation of the allocator is a sequence of steps on pieces: taking a piece from the lists
(`PmaInv.take`), putting one back (`PmaInv.put`), cutting a piece in the hand and joining two
(`PmaInv.cut`, `PmaInv.join`), writing headers of pieces that are on no list (`PmaInv.write`),
handing a piece out (`PmaInv.give`) and getting one, back or for the first time
(`PmaInv.receive`).
-/

namespace Cuore

open Function Pma Piece

/-! ## The invariant -/

/-- The zones `view` that are looked at, and the first page and the end of the pages they manage.
With `bits`, the page bitmap is looked at too; the end is then the `total_pages` of the zone. -/
structure PmaArea where
  view : PmaZoneId → Bool
  bits : Bool
  lo : PmaZoneId → ℕ
  hi : PmaZoneId → ℕ

/-- The two zones of a machine with `total` pages, on their sides of 4 GiB. -/
def pmaZones (total : ℕ) : PmaArea where
  view _ := true
  bits := true
  lo
    | .low => 0
    | .normal => pmaZone32bit
  hi := pmaZoneTotal total

/-- The zone of an address. -/
def pmaZoneOf (phys : ℕ) : PmaZoneId := if phys < pmaZone32bit * pageSize then .low else .normal

/-- One zone by itself, of `total` pages. -/
def oneZone (z : PmaZoneId) (total : ℕ) : PmaArea where
  view z' := decide (z' = z)
  bits := true
  lo _ := 0
  hi _ := total

/-- The lists of one zone. -/
def zoneLists (z : PmaZoneId) : PmaArea where
  view z' := decide (z' = z)
  bits := false
  lo _ := 0
  hi _ := 2 ^ 40

/-- The piece lies among the pages that the zone manages. -/
def InZone (A : PmaArea) (z : PmaZoneId) (b : Piece) : Prop :=
  A.view z ∧ A.lo z ≤ b.start ∧ b.stop ≤ A.hi z

/-- **The state of the allocator as pieces**: on the lists `free`, in the hand of the running
operation `hand`, handed out `live`.  All are of the pages `F`.  Physical addresses have 52 bits. -/
structure PmaInv (A : PmaArea) (F : ℕ → Prop) (s : Pma) (free : List (PmaZoneId × Piece))
    (hand live : List Piece) : Prop where
  holds : TlsfHolds A.view s free
  total_eq : A.bits → ∀ z, A.view z → totals s.zone z = A.hi z
  addressable : ∀ z, A.view z → A.hi z ≤ 2 ^ 40
  packed : Packed (hand ++ free.map Prod.snd ++ live)
  within : ∀ b ∈ hand ++ free.map Prod.snd ++ live, b.size < 2 ^ 36 ∧ ∀ p ∈ b, F p
  zoned : ∀ x ∈ free, InZone A x.1 x.2
  liveZoned : ∀ b ∈ live, ∃ z, InZone A z b
  clear : A.bits → ∀ z, A.view z → ∀ p < A.hi z,
    s.bitmap p = false ↔ ∃ b ∈ hand ++ free.map Prod.snd, p ∈ b

variable {A : PmaArea} {F : ℕ → Prop} {s s' : Pma} {free free' rest : List (PmaZoneId × Piece)}
  {hand hand' live live' : List Piece} {z : PmaZoneId} {b : Piece} {a m n total : ℕ}

lemma inZone_low : InZone (pmaZones total) .low b ↔ b.stop ≤ total ∧ b.stop ≤ pmaZone32bit := by
  simp only [InZone, pmaZones, pmaZoneTotal, Nat.le_min, Nat.zero_le, true_and]

lemma inZone_normal :
    InZone (pmaZones total) .normal b ↔ pmaZone32bit ≤ b.start ∧ b.stop ≤ total := by
  simp only [InZone, pmaZones, pmaZoneTotal, true_and]

/-- The zone of a piece is that of its pages. -/
lemma pmaZoneOf_eq {p : ℕ} (hz : InZone (pmaZones total) z b) (hp : p ∈ b) :
    pmaZoneOf (p * pageSize) = z := by
  rw [mem_iff] at hp
  cases z with
  | low =>
    refine if_pos (Nat.mul_lt_mul_of_pos_right ?_ pageSize_pos)
    have hstop := (inZone_low.mp hz).2
    simp only [Piece.stop] at hstop
    omega
  | normal =>
    refine if_neg (Nat.not_lt.mpr (Nat.mul_le_mul_right _ ?_))
    exact (inZone_normal.mp hz).1.trans hp.1

lemma InZone.lt_hi {p : ℕ} (hz : InZone A z b) (hp : p ∈ b) : p < A.hi z :=
  lt_of_lt_of_le hp.2 hz.2.2

/-- The addresses of a piece are addresses. -/
lemma PmaInv.stop_lt_word (h : PmaInv A F s free hand live) (hz : InZone A z b) :
    b.stop * pageSize < word :=
  lt_of_le_of_lt (Nat.mul_le_mul_right _ (hz.2.2.trans (h.addressable z hz.1))) (by decide)

/-- The pieces that are not handed out, on the lists or not. -/
lemma PmaInv.regroup (h : PmaInv A F s free hand live) (hsame : SameBlocks s s')
    (hholds : TlsfHolds A.view s' free')
    (hperm : (hand ++ free.map Prod.snd).Perm (hand' ++ free'.map Prod.snd))
    (hzoned : ∀ x ∈ free', InZone A x.1 x.2) : PmaInv A F s' free' hand' live where
  holds := hholds
  total_eq hbits z hz := by rw [hsame.totals, h.total_eq hbits z hz]
  addressable := h.addressable
  packed := h.packed.perm (hperm.append_right live)
  within b hb := h.within b ((hperm.append_right live).mem_iff.mpr hb)
  zoned := hzoned
  liveZoned := h.liveZoned
  clear hbits z hz p hp := by
    rw [hsame.bitmap, h.clear hbits z hz p hp]
    exact exists_congr fun b => and_congr_left fun _ => hperm.mem_iff

/-- **Putting** a piece of the hand on a list. -/
lemma PmaInv.put (h : PmaInv A F s free (b :: hand) live) (hz : InZone A z b)
    (hb : (s.hdr (b.start * pageSize)).blockSize = b.size * pageSize) :
    ∃ s', tlsfBlockInsert z (b.start * pageSize) s = some s' ∧ SameBlocks s s' ∧
      PmaInv A F s' ((z, b) :: free) hand live := by
  obtain ⟨hsmall, -⟩ := h.within b (by simp)
  have hpacked := packed_cons.mp h.packed
  have hnew : ∀ x ∈ free, x.2.start ≠ b.start := by
    intro x hx heq
    have hmem : x.2 ∈ hand ++ free.map Prod.snd ++ live := by
      simp only [List.mem_append, List.mem_map]
      exact .inl (.inr ⟨x, hx, rfl⟩)
    have hapart := hpacked.2.1 x.2 hmem
    have hpos := hpacked.2.2.pos x.2 hmem
    have hpos' := hpacked.1
    rw [apart_iff] at hapart
    omega
  have hsize : b.size * pageSize < 2 ^ 48 := by
    simp only [pageSize]
    omega
  obtain ⟨s', heq, hsame, hholds⟩ := h.holds.insert hz.1 hnew hsize hb
  refine ⟨s', heq, hsame, h.regroup hsame hholds ?_ ?_⟩
  · rw [List.map_cons]
    exact List.perm_middle.symm
  · intro x hx
    rcases List.mem_cons.mp hx with rfl | hx
    · exact hz
    · exact h.zoned x hx

/-- A piece that has been taken from its list is in the hand. -/
lemma PmaInv.taken (h : PmaInv A F s free hand live) (hsame : SameBlocks s s')
    (hperm : free.Perm ((z, b) :: rest)) (hholds : TlsfHolds A.view s' rest) :
    PmaInv A F s' rest (b :: hand) live := by
  refine h.regroup hsame hholds ?_ fun x hx => h.zoned x (hperm.mem_iff.mpr (by simp [hx]))
  exact ((hperm.map Prod.snd).append_left hand).trans List.perm_middle

/-- **Taking** a piece from its list. -/
lemma PmaInv.take (h : PmaInv A F s free hand live) (hperm : free.Perm ((z, b) :: rest)) :
    ∃ s', tlsfBlockRemove z (b.start * pageSize) s = some s' ∧ SameBlocks s s' ∧
      PmaInv A F s' rest (b :: hand) live := by
  obtain ⟨s', heq, hsame, hholds⟩ := h.holds.remove hperm
  exact ⟨s', heq, hsame, h.taken hsame hperm hholds⟩

/-- A piece on a list overlaps no piece in the hand or handed out. -/
lemma PmaInv.apart_free (h : PmaInv A F s free hand live) {x : PmaZoneId × Piece} (hx : x ∈ free)
    (hb : b ∈ hand ++ live) : Apart b x.2 := by
  have hx' : x.2 ∈ free.map Prod.snd := List.mem_map_of_mem hx
  obtain ⟨hfree, -, hlive⟩ := List.pairwise_append.mp h.packed.apart
  rcases List.mem_append.mp hb with hb | hb
  · exact (List.pairwise_append.mp hfree).2.2 b hb x.2 hx'
  · exact (hlive x.2 (List.mem_append_right hand hx') b hb).symm

lemma PmaInv.pos_of_free (h : PmaInv A F s free hand live) {x : PmaZoneId × Piece} (hx : x ∈ free) :
    0 < x.2.size := by
  apply h.packed.pos x.2
  simp only [List.mem_append, List.mem_map]
  exact .inl (.inr ⟨x, hx, rfl⟩)

/-- **Writing headers** of pages that are in the hand or handed out. -/
lemma PmaInv.write (h : PmaInv A F s free hand live) {hdr : ℕ → PmaFreeBlock}
    (hhdr : ∀ p, (∀ b ∈ hand ++ live, p ∉ b) → hdr (p * pageSize) = s.hdr (p * pageSize)) :
    PmaInv A F { s with hdr } free hand live :=
  { h with holds := h.holds.of_hdr (fun _ hx => hhdr _ fun _ hb =>
      (h.apart_free hx hb).symm.not_mem (start_mem (h.pos_of_free hx))) rfl }

/-- Writing the header at one page. -/
lemma PmaInv.writeAt (h : PmaInv A F s free hand live) (hb : b ∈ hand ++ live) {p : ℕ}
    (hp : p ∈ b) (v : PmaFreeBlock) :
    PmaInv A F { s with hdr := update s.hdr (p * pageSize) v } free hand live := by
  refine h.write fun q hq => update_of_ne (fun heq => ?_) _ _
  rw [mul_pageSize_inj] at heq
  exact hq b hb (heq ▸ hp)

/-- **Putting** a piece on a list after its header has been written. -/
lemma PmaInv.putNew (h : PmaInv A F s free (b :: hand) live) (hz : InZone A z b) :
    ∃ s', tlsfBlockInsert z (b.start * pageSize) { s with
        hdr := update s.hdr (b.start * pageSize) ⟨pmaNull, pmaNull, b.size * pageSize ||| 1⟩ } =
          some s' ∧ s'.bitmap = s.bitmap ∧
      PmaInv A F s' ((z, b) :: free) hand live := by
  obtain ⟨hsmall, -⟩ := h.within b (by simp)
  have hpos := h.packed.pos b (by simp)
  have hwrite := h.writeAt (by simp) (start_mem hpos) ⟨pmaNull, pmaNull, b.size * pageSize ||| 1⟩
  have hsize : b.size * pageSize < word := by
    simp only [pageSize, word]
    omega
  obtain ⟨s', heq, hsame, h'⟩ := hwrite.put hz (by
    dsimp only
    rw [update_self]
    exact or_and_wnot_one (Dvd.dvd.mul_left (by norm_num [pageSize]) _) hsize (by norm_num))
  exact ⟨s', heq, hsame.bitmap, h'⟩

/-- **Cutting** a piece in the hand in two. -/
lemma PmaInv.cut (h : PmaInv A F s free (⟨a, m + n⟩ :: hand) live) (hm : 0 < m) (hn : 0 < n) :
    PmaInv A F s free (⟨a, m⟩ :: ⟨a + m, n⟩ :: hand) live := by
  obtain ⟨⟨hsmall, hF⟩, hrest⟩ := List.forall_mem_cons.mp h.within
  dsimp only at hsmall
  refine { h with
    packed := (packed_cut hm hn).mp h.packed
    within := List.forall_mem_cons.mpr
      ⟨⟨by dsimp only; omega, fun p hp => hF p (mem_cut.mpr (.inl hp))⟩,
      List.forall_mem_cons.mpr ⟨⟨by dsimp only; omega, fun p hp => hF p (mem_cut.mpr (.inr hp))⟩,
        hrest⟩⟩
    clear := fun hbits z hz p hp => (h.clear hbits z hz p hp).trans ?_ }
  simp only [List.cons_append, List.exists_mem_cons_iff, mem_cut, or_assoc]

/-- **Joining** two pieces in the hand that touch. -/
lemma PmaInv.join (h : PmaInv A F s free (⟨a, m⟩ :: ⟨a + m, n⟩ :: hand) live)
    (hsize : m + n < 2 ^ 36) : PmaInv A F s free (⟨a, m + n⟩ :: hand) live := by
  obtain ⟨⟨-, hF⟩, hrest⟩ := List.forall_mem_cons.mp h.within
  obtain ⟨⟨-, hF'⟩, hrest⟩ := List.forall_mem_cons.mp hrest
  refine { h with
    packed := (packed_cut (h.packed.pos ⟨a, m⟩ (by simp)) (h.packed.pos ⟨a + m, n⟩ (by simp))).mpr
      h.packed
    within := List.forall_mem_cons.mpr ⟨⟨hsize, fun p hp => (mem_cut.mp hp).elim (hF p) (hF' p)⟩,
      hrest⟩
    clear := fun hbits z hz p hp => (h.clear hbits z hz p hp).trans ?_ }
  simp only [List.cons_append, List.exists_mem_cons_iff, mem_cut, or_assoc]

/-! ## The bitmap -/

/-- A loop that writes the bits of a piece. -/
lemma pmaForPages_eq {f : ℕ → Pma → Pma} {v : Bool} {N : ℕ}
    (hf : ∀ p t, t.zone = s.zone →
      f p t = if p < N then { t with bitmap := update t.bitmap p v } else t) :
    pmaForPages f a n s =
      { s with bitmap := fun p => if a ≤ p ∧ p < a + n ∧ p < N then v else s.bitmap p } := by
  induction n with
  | zero =>
    have hnone : (fun p => if a ≤ p ∧ p < a + 0 ∧ p < N then v else s.bitmap p) = s.bitmap :=
      funext fun p => if_neg (by omega)
    rw [hnone]
    rfl
  | succ n ih =>
    have hstep : pmaForPages f a (n + 1) s = f (a + n) (pmaForPages f a n s) := by
      simp [pmaForPages, List.range_succ]
    have hzone : (pmaForPages f a n s).zone = s.zone := by rw [ih]
    rw [hstep, hf _ _ hzone, ih]
    by_cases hN : a + n < N
    · rw [if_pos hN]
      congr 1
      funext p
      by_cases hp : p = a + n
      · subst hp
        simp [hN]
      · rw [update_of_ne hp]
        have hiff : (a ≤ p ∧ p < a + (n + 1) ∧ p < N) ↔ (a ≤ p ∧ p < a + n ∧ p < N) := by omega
        simp only [hiff]
    · rw [if_neg hN]
      congr 1
      funext p
      have hiff : (a ≤ p ∧ p < a + (n + 1) ∧ p < N) ↔ (a ≤ p ∧ p < a + n ∧ p < N) := by omega
      simp only [hiff]

lemma pmaForPages_setFree : pmaForPages (pmaPageSetFree z) a n s =
    { s with bitmap := fun p =>
        if a ≤ p ∧ p < a + n ∧ p < (s.zone z).totalPages then false else s.bitmap p } := by
  refine pmaForPages_eq fun p t ht => ?_
  rw [pmaPageSetFree, ht]
  split_ifs <;> first | rfl | omega

lemma pmaForPages_setUsed : pmaForPages (pmaPageSetUsed z) a n s =
    { s with bitmap := fun p =>
        if a ≤ p ∧ p < a + n ∧ p < (s.zone z).totalPages then true else s.bitmap p } := by
  refine pmaForPages_eq fun p t ht => ?_
  rw [pmaPageSetUsed, ht]
  split_ifs <;> first | rfl | omega

/-- **Handing out** a piece: its pages are marked as used. -/
lemma PmaInv.give (h : PmaInv A F s free (b :: hand) live) (hz : InZone A z b) :
    PmaInv A F (pmaForPages (pmaPageSetUsed z) b.start b.size s) free hand (b :: live) := by
  have hperm : (b :: hand ++ free.map Prod.snd ++ live).Perm
      (hand ++ free.map Prod.snd ++ b :: live) := List.perm_middle.symm
  rw [pmaForPages_setUsed]
  refine ⟨h.holds.of_hdr (fun _ _ => rfl) rfl, h.total_eq, h.addressable, h.packed.perm hperm,
    fun c hc => h.within c (hperm.mem_iff.mpr hc), h.zoned, ?_, fun hbits z' hz' p hp => ?_⟩
  · intro c hc
    rcases List.mem_cons.mp hc with rfl | hc
    · exact ⟨z, hz⟩
    · exact h.liveZoned c hc
  · have htotal : (s.zone z).totalPages = A.hi z := h.total_eq hbits z hz.1
    rw [htotal]
    by_cases hb : p ∈ b
    · have hif : b.start ≤ p ∧ p < b.start + b.size ∧ p < A.hi z := ⟨hb.1, hb.2, hz.lt_hi hb⟩
      simp only [if_pos hif, Bool.true_eq_false, false_iff, not_exists, not_and]
      exact fun c hc => h.packed.not_mem hb (List.mem_append_left live hc)
    · have hif : ¬(b.start ≤ p ∧ p < b.start + b.size ∧ p < A.hi z) := fun hp' =>
        hb ⟨hp'.1, hp'.2.1⟩
      simp only [if_neg hif]
      rw [h.clear hbits z' hz' p hp, List.cons_append, List.exists_mem_cons_iff]
      exact or_iff_right hb

/-- **Getting** a piece, whose pages are marked as free. -/
lemma PmaInv.receive (h : PmaInv A F s free hand live) (hz : InZone A z b)
    (hpacked : Packed (b :: (hand ++ free.map Prod.snd ++ live)))
    (hb : b.size < 2 ^ 36 ∧ ∀ p ∈ b, F p) :
    PmaInv A F (pmaForPages (pmaPageSetFree z) b.start b.size s) free (b :: hand) live := by
  rw [pmaForPages_setFree]
  refine ⟨h.holds.of_hdr (fun _ _ => rfl) rfl, h.total_eq, h.addressable, hpacked,
    List.forall_mem_cons.mpr ⟨hb, h.within⟩, h.zoned, h.liveZoned, fun hbits z' hz' p hp => ?_⟩
  have htotal : (s.zone z).totalPages = A.hi z := h.total_eq hbits z hz.1
  rw [htotal, List.cons_append, List.exists_mem_cons_iff, ← h.clear hbits z' hz' p hp]
  by_cases hp' : p ∈ b
  · have hif : b.start ≤ p ∧ p < b.start + b.size ∧ p < A.hi z := ⟨hp'.1, hp'.2, hz.lt_hi hp'⟩
    simp only [hp', true_or, iff_true]
    exact if_pos hif
  · have hif : ¬(b.start ≤ p ∧ p < b.start + b.size ∧ p < A.hi z) := fun h' =>
      hp' ⟨h'.1, h'.2.1⟩
    simp only [if_neg hif, hp', false_or]

/-- The order in which pieces have been handed out does not matter. -/
lemma PmaInv.perm_live (h : PmaInv A F s free hand live) (hperm : live.Perm live') :
    PmaInv A F s free hand live' :=
  { h with
    packed := h.packed.perm (hperm.append_left _)
    within := fun c hc => h.within c ((hperm.append_left _).mem_iff.mpr hc)
    liveZoned := fun c hc => h.liveZoned c (hperm.mem_iff.mpr hc) }

/-- A piece that has been handed out is no longer of interest. -/
lemma PmaInv.drop_live (h : PmaInv A F s free hand (b :: live)) : PmaInv A F s free hand live := by
  have hperm : (hand ++ free.map Prod.snd ++ b :: live).Perm
      (b :: (hand ++ free.map Prod.snd ++ live)) := List.perm_middle
  exact { h with
    packed := (packed_cons.mp (h.packed.perm hperm)).2.2
    within := fun c hc => h.within c (hperm.mem_iff.mpr (List.mem_cons_of_mem b hc))
    liveZoned := fun c hc => h.liveZoned c (List.mem_cons_of_mem b hc) }

/-- **Freeing** a piece: it comes back into the hand. -/
lemma PmaInv.release (h : PmaInv A F s free hand (b :: live)) (hz : InZone A z b) :
    PmaInv A F (pmaForPages (pmaPageSetFree z) b.start b.size s) free (b :: hand) live := by
  have hperm : (hand ++ free.map Prod.snd ++ b :: live).Perm
      (b :: (hand ++ free.map Prod.snd ++ live)) := List.perm_middle
  have hpacked := h.packed.perm hperm
  have hwithin : ∀ c ∈ b :: (hand ++ free.map Prod.snd ++ live), c.size < 2 ^ 36 ∧ ∀ p ∈ c, F p :=
    fun c hc => h.within c (hperm.mem_iff.mpr hc)
  exact h.drop_live.receive hz hpacked (hwithin b (by simp))

end Cuore
