import Cuore.Mem.Pma.Classes
import Cuore.Framework.Piece
import Mathlib.Data.List.Induction

/-!
# The free lists of the physical allocator

`TlsfHolds Z s free` says what the lists of the zones `Z` hold: the pieces `free`, each with its
zone, in pages.  Behind it are the doubly linked lists of all sizes, with their heads and bitmaps
(`TlsfRep`).  The list operations are then operations on `free`: inserting adds a piece
(`TlsfHolds.insert`), removing takes it out (`TlsfHolds.remove`), and locating takes out the piece
that `firstFit` names (`TlsfHolds.locate`).  That piece may be shorter than the size that is looked
for, but not shorter than any power of two up to it.

`OnFreeList` is the same notion without pieces: what can be reached from the heads by the links.
`TlsfHolds.onFreeList_iff` connects the two.
-/

namespace Cuore

open Function Pma

/-- The size field without its flag. -/
lemma or_and_wnot_one {n f : ℕ} (hn : 2 ∣ n) (hw : n < word) (hf : f < 2) :
    (n ||| f) &&& wnot 1 = n := by
  have hlt : n ||| f < word := Nat.or_lt_two_pow hw (by omega)
  have hf' : f / 2 = 0 := by omega
  rw [show wnot 1 = wnot (2 ^ 1 - 1) from rfl, and_wnot_pred (by norm_num) hlt, alignDown, pow_one,
    Nat.or_div_two, hf', Nat.or_zero, Nat.div_mul_cancel hn]

/-! ## What the lists hold -/

/-- A list: its zone and its two indices. -/
abbrev PmaKey := PmaZoneId × ℕ × ℕ

/-- The sentinel of a list. -/
def PmaKey.null (k : PmaKey) : ℕ := pmaBlockNull k.1

/-- The heads of the lists of the zones `Z`; those of the others are not looked at. -/
def headsOn (Z : PmaZoneId → Bool) (zone : PmaZoneId → PmaZone) (k : PmaKey) : ℕ :=
  if Z k.1 then heads zone k else k.null

/-- The lists of the zones `Z` are `L`, with their heads and bitmaps. -/
structure TlsfRep (Z : PmaZoneId → Bool) (s : Pma) (L : PmaKey → List ℕ) : Prop where
  chains : Chains PmaKey.null (prevs s.hdr) (nexts s.hdr) (headsOn Z s.zone) L
  slBit : ∀ z, Z z → ∀ fl i, (slMaps s.zone (z, fl)).testBit i = decide (L (z, fl, i) ≠ [])
  flBit : ∀ z, Z z → ∀ i, (flMaps s.zone z).testBit i = decide (slMaps s.zone (z, i) ≠ 0)
  mapped : ∀ z fl sl, ∀ a ∈ L (z, fl, sl), tlsfMappingInsert (s.hdr a).blockSize = (fl, sl)
  small : ∀ k, ∀ a ∈ L k, (s.hdr a).blockSize < 2 ^ 48
  aligned : ∀ k, ∀ a ∈ L k, pageSize ∣ a ∧ pageSize ∣ (s.hdr a).blockSize

/-- **What the lists hold.**  The blocks on the lists of the zones `Z` are the pieces `free`, in
pages. -/
structure TlsfHolds (Z : PmaZoneId → Bool) (s : Pma) (free : List (PmaZoneId × Piece)) : Prop where
  nodup : free.Nodup
  rep : ∃ L, TlsfRep Z s L ∧ ∀ z b, (z, b) ∈ free ↔
    (∃ fl sl, b.start * pageSize ∈ L (z, fl, sl)) ∧
      (s.hdr (b.start * pageSize)).blockSize = b.size * pageSize

variable {Z : PmaZoneId → Bool} {s s' : Pma} {z : PmaZoneId} {L : PmaKey → List ℕ}
  {free rest : List (PmaZoneId × Piece)} {b : Piece}

lemma pageSize_not_dvd_null (k : PmaKey) : ¬pageSize ∣ k.null := by
  have hnull : ∀ z, ¬pageSize ∣ pmaBlockNull z := by rintro (_ | _) <;> decide
  exact hnull k.1

lemma null_ne_pmaNull (k : PmaKey) : k.null ≠ pmaNull := by
  have hnull : ∀ z, pmaBlockNull z ≠ pmaNull := by rintro (_ | _) <;> decide
  exact hnull k.1

lemma ne_pmaNull {a : ℕ} (ha : pageSize ∣ a) : a ≠ pmaNull := by
  rintro rfl
  exact absurd ha (by decide)

lemma headsOn_of_on {zone : PmaZoneId → PmaZone} {k : PmaKey} (hz : Z k.1) :
    headsOn Z zone k = heads zone k := if_pos hz

/-- A list of a zone that is looked at gets a new head. -/
lemma headsOn_update {zone zone' : PmaZoneId → PmaZone} {k : PmaKey} {a : ℕ} (hz : Z k.1)
    (h : heads zone' = update (heads zone) k a) :
    headsOn Z zone' = update (headsOn Z zone) k a := by
  funext k'
  by_cases hk : k' = k
  · subst hk
    rw [headsOn_of_on hz, h, update_self, update_self]
  · rw [headsOn, h, update_of_ne hk, update_of_ne hk, headsOn]

lemma headsOn_congr {zone zone' : PmaZoneId → PmaZone} (h : heads zone' = heads zone) :
    headsOn Z zone' = headsOn Z zone := by
  funext k
  rw [headsOn, headsOn, h]

/-- Only the zones that are looked at and the headers of the blocks on their lists matter. -/
lemma TlsfRep.of_hdr (h : TlsfRep Z s L) (hdr : ∀ k, ∀ a ∈ L k, s'.hdr a = s.hdr a)
    (hzone : ∀ z, Z z → s'.zone z = s.zone z) : TlsfRep Z s' L where
  chains := by
    have hheads : headsOn Z s'.zone = headsOn Z s.zone := by
      funext k
      rw [headsOn, headsOn]
      split_ifs with hk
      · rw [heads, heads, hzone k.1 hk]
      · rfl
    rw [hheads]
    refine h.chains.congr (fun k a ha => ?_) fun k a ha => ?_
    · rw [prevs, hdr k a ha]
      rfl
    · rw [nexts, hdr k a ha]
      rfl
  slBit z hz fl i := by
    have hmap : slMaps s'.zone (z, fl) = slMaps s.zone (z, fl) := by
      simp only [slMaps, hzone z hz]
    rw [hmap, h.slBit z hz]
  flBit z hz i := by
    have hmap : slMaps s'.zone (z, i) = slMaps s.zone (z, i) := by
      simp only [slMaps, hzone z hz]
    have hrows : flMaps s'.zone z = flMaps s.zone z := by simp only [flMaps, hzone z hz]
    rw [hmap, hrows, h.flBit z hz]
  mapped z fl sl a ha := by rw [hdr _ a ha, h.mapped z fl sl a ha]
  small k a ha := by rw [hdr k a ha]; exact h.small k a ha
  aligned k a ha := by rw [hdr k a ha]; exact h.aligned k a ha

lemma TlsfRep.index_lt (h : TlsfRep Z s L) {fl sl : ℕ} (hL : L (z, fl, sl) ≠ []) :
    fl < pmaIndexCount ∧ sl < pmaIndexCount := by
  obtain ⟨a, ha⟩ := List.exists_mem_of_ne_nil _ hL
  have hfst := tlsfMappingInsert_fst_lt_iff.mpr (h.small _ a ha)
  have hsnd := tlsfMappingInsert_snd_lt (s.hdr a).blockSize
  rw [h.mapped z fl sl a ha] at hfst hsnd
  exact ⟨hfst, hsnd⟩

/-- The zones that are not looked at have no lists. -/
lemma TlsfRep.on_of_mem (h : TlsfRep Z s L) {k : PmaKey} {a : ℕ} (ha : a ∈ L k) : Z k.1 = true := by
  by_contra hz
  have hhead : headsOn Z s.zone k = k.null := if_neg hz
  rw [h.chains.head_eq_null] at hhead
  simp [hhead] at ha

lemma TlsfRep.exists_of_slMap (h : TlsfRep Z s L) (hz : Z z) {fl : ℕ}
    (hne : slMaps s.zone (z, fl) ≠ 0) : ∃ sl, L (z, fl, sl) ≠ [] := by
  obtain ⟨i, hi⟩ := Nat.exists_testBit_of_ne_zero hne
  rw [h.slBit z hz, decide_eq_true_iff] at hi
  exact ⟨i, hi⟩

/-- The first and the last node of a part of a list are not null. -/
lemma TlsfRep.neighbour_ne_null (h : TlsfRep Z s L) {k : PmaKey} {a : ℕ}
    (ha : a ∈ L k ∨ a = k.null) : a ≠ pmaNull := by
  rcases ha with ha | rfl
  · exact ne_pmaNull (h.aligned k a ha).1
  · exact null_ne_pmaNull k

lemma TlsfRep.head_ne_null (h : TlsfRep Z s L) {k : PmaKey} (hz : Z k.1) :
    heads s.zone k ≠ pmaNull := by
  rw [← headsOn_of_on hz, h.chains.head_eq]
  exact h.neighbour_ne_null firstAddr_mem_or

/-- `tlsf_block_insert` puts a block on the list of its size. -/
lemma TlsfRep.insert {a : ℕ} (h : TlsfRep Z s L) (hz : Z z) (hnew : ∀ k, a ∉ L k)
    (ha : pageSize ∣ a ∧ pageSize ∣ (s.hdr a).blockSize)
    (hsize : (s.hdr a).blockSize < 2 ^ 48) :
    ∃ s' k, tlsfBlockInsert z a s = some s' ∧ SameBlocks s s' ∧ k.1 = z ∧
      TlsfRep Z s' (update L k (a :: L k)) := by
  rcases hmap : tlsfMappingInsert (s.hdr a).blockSize with ⟨fl, sl⟩
  have hlt := tlsfMappingInsert_fst_lt_iff.mpr hsize
  rw [hmap] at hlt
  have hseen : headsOn Z s.zone (z, fl, sl) = heads s.zone (z, fl, sl) := headsOn_of_on hz
  obtain ⟨s', heq, hsame, hprev, hnext, hheads, hsl, hfl⟩ :=
    tlsfInsertFreeBlock_spec (b := a) (h.head_ne_null (k := (z, fl, sl)) hz)
  refine ⟨s', (z, fl, sl), ?_, hsame, rfl, ?_, ?_, ?_, ?_, ?_, ?_⟩
  · rw [tlsfBlockInsert, hmap]
    exact (if_pos hlt).trans heq
  · have hpush := h.chains.push (z, fl, sl) hnew fun k hk => pageSize_not_dvd_null k (hk ▸ ha.1)
    rw [hseen] at hpush
    rw [hprev, hnext, headsOn_update hz hheads]
    exact hpush
  · intro z' hz' fl' i
    rw [hsl]
    by_cases hrow : (z', fl') = (z, fl)
    · obtain ⟨rfl, rfl⟩ := Prod.mk.injEq .. ▸ hrow
      rw [update_self, Nat.testBit_or, h.slBit _ hz', Nat.testBit_two_pow]
      by_cases hi : i = sl
      · subst hi
        simp
      · simp [hi, Ne.symm hi]
    · have hkey : (z', fl', i) ≠ (z, fl, sl) := by
        rintro ⟨rfl, rfl, rfl⟩
        exact hrow rfl
      rw [update_of_ne hrow, update_of_ne hkey, h.slBit _ hz']
  · intro z' hz' i
    rw [hfl, hsl]
    by_cases hzz : z' = z
    · subst hzz
      rw [update_self, Nat.testBit_or, h.flBit _ hz', Nat.testBit_two_pow]
      by_cases hi : i = fl
      · subst hi
        have hset : slMaps s.zone (z', i) ||| 2 ^ sl ≠ 0 := fun h0 => by
          have := (Nat.or_eq_zero_iff.mp h0).2
          have := Nat.two_pow_pos sl
          omega
        simp [hset]
      · have hrow : (z', i) ≠ (z', fl) := by simp [hi]
        simp [Ne.symm hi, update_of_ne hrow]
    · have hrow : (z', i) ≠ (z, fl) := by simp [hzz]
      rw [update_of_ne hzz, update_of_ne hrow, h.flBit _ hz']
  · intro z' fl' sl' x hx
    rw [hsame.blockSize]
    rcases mem_update_cons.mp hx with hx | ⟨hk, rfl⟩
    · exact h.mapped z' fl' sl' x hx
    · rw [hmap]
      simp_all
  · intro k x hx
    rw [hsame.blockSize]
    rcases mem_update_cons.mp hx with hx | ⟨-, rfl⟩
    · exact h.small k x hx
    · exact hsize
  · intro k x hx
    rw [hsame.blockSize]
    rcases mem_update_cons.mp hx with hx | ⟨-, rfl⟩
    · exact h.aligned k x hx
    · exact ha

/-- A bit is cleared in a bitmap. -/
lemma testBit_and_wnot_two_pow {m i j : ℕ} (hj : j < 64) (hm : m.testBit i = true → i < 64) :
    (m &&& wnot (2 ^ j)).testBit i = (m.testBit i && decide (i ≠ j)) := by
  have hword : 2 ^ j < word := Nat.pow_lt_pow_right (by norm_num) hj
  rw [Nat.testBit_and, testBit_wnot hword, Nat.testBit_two_pow]
  cases hbit : m.testBit i with
  | false => rfl
  | true => simp [hm hbit, eq_comm]

lemma TlsfRep.slBit_lt (h : TlsfRep Z s L) (hz : Z z) {fl i : ℕ}
    (hbit : (slMaps s.zone (z, fl)).testBit i = true) : i < 64 := by
  rw [h.slBit z hz, decide_eq_true_iff] at hbit
  exact (h.index_lt hbit).2.trans (by decide)

lemma TlsfRep.flBit_lt (h : TlsfRep Z s L) (hz : Z z) {i : ℕ}
    (hbit : (flMaps s.zone z).testBit i = true) : i < 64 := by
  rw [h.flBit z hz, decide_eq_true_iff] at hbit
  obtain ⟨sl, hsl⟩ := h.exists_of_slMap hz hbit
  exact (h.index_lt hsl).1.trans (by decide)

/-- A list becomes empty exactly if the block is its head and the sentinel comes next: the
innermost branch. -/
lemma TlsfRep.last_iff {a fl sl : ℕ} {l₁ l₂ : List ℕ} (h : TlsfRep Z s L)
    (hk : L (z, fl, sl) = l₁ ++ a :: l₂) :
    heads s.zone (z, fl, sl) = a ∧ nexts s.hdr a = pmaBlockNull z ↔ l₁ ++ l₂ = [] := by
  have hz : Z z := h.on_of_mem (k := (z, fl, sl)) (a := a) (by simp [hk])
  have hfirst := h.chains.head_eq (z, fl, sl)
  have hnull := h.chains.null_not_mem (z, fl, sl) (z, fl, sl)
  have hnd := h.chains.nodup (z, fl, sl)
  rw [headsOn_of_on hz, hk] at hfirst
  rw [hk] at hnull
  rw [hk, List.nodup_middle, List.nodup_cons] at hnd
  rw [hfirst, (h.chains.links hk).2]
  simp only [PmaKey.null]
  cases l₁ with
  | cons b l =>
    have hne : b ≠ a := fun hb => hnd.1 (by simp [hb])
    simp [firstAddr, hne]
  | nil =>
    cases l₂ with
    | nil => simp [firstAddr]
    | cons b l =>
      have hne : b ≠ pmaBlockNull z := fun hb => hnull (by simp [PmaKey.null, hb])
      simp [firstAddr, hne]

/-- The rows after a list has lost a block: its bit goes with its last block. -/
lemma TlsfRep.slBit_remove {a fl sl : ℕ} {l₁ l₂ : List ℕ} (h : TlsfRep Z s L)
    (hk : L (z, fl, sl) = l₁ ++ a :: l₂) {z' : PmaZoneId} (hz' : Z z') (fl' i : ℕ) :
    ((if l₁ ++ l₂ = [] then update (slMaps s.zone) (z, fl) (slMaps s.zone (z, fl) &&& wnot (2 ^ sl))
        else slMaps s.zone) (z', fl')).testBit i =
      decide (update L (z, fl, sl) (l₁ ++ l₂) (z', fl', i) ≠ []) := by
  have hsl : sl < 64 := (h.index_lt (by simp [hk] : L (z, fl, sl) ≠ [])).2.trans (by decide)
  by_cases hkey : (z', fl', i) = (z, fl, sl)
  · obtain ⟨rfl, rfl, rfl⟩ : z' = z ∧ fl' = fl ∧ i = sl := by simpa using hkey
    rw [update_self]
    split_ifs with hemp
    · rw [update_self, testBit_and_wnot_two_pow hsl (h.slBit_lt hz')]
      simp [hemp]
    · rw [h.slBit _ hz', hk]
      simp only [hemp, ne_eq, not_false_eq_true, decide_true]
      simp
  · rw [update_of_ne hkey, ← h.slBit _ hz']
    split_ifs
    · by_cases hrow : (z', fl') = (z, fl)
      · have hi : i ≠ sl := by
          rintro rfl
          exact hkey (by simpa using hrow)
        rw [hrow, update_self, testBit_and_wnot_two_pow hsl (hrow ▸ h.slBit_lt hz')]
        simp [hi]
      · rw [update_of_ne hrow]
    · rfl

/-- The first level: the bit of a row goes with the last bit in the row. -/
lemma TlsfRep.flBit_remove {fl sl : ℕ} (h : TlsfRep Z s L) (hfl : fl < 64) (p : Prop)
    [Decidable p] {z' : PmaZoneId} (hz' : Z z') (i : ℕ) :
    ((if p ∧ slMaps s.zone (z, fl) &&& wnot (2 ^ sl) = 0 then
          update (flMaps s.zone) z (flMaps s.zone z &&& wnot (2 ^ fl))
        else flMaps s.zone) z').testBit i =
      decide ((if p then update (slMaps s.zone) (z, fl) (slMaps s.zone (z, fl) &&& wnot (2 ^ sl))
        else slMaps s.zone) (z', i) ≠ 0) := by
  by_cases hp : p
  swap
  · rw [if_neg (fun hc => hp hc.1), if_neg hp, h.flBit _ hz']
  rw [if_pos hp]
  by_cases hkey : (z', i) = (z, fl)
  · obtain ⟨rfl, rfl⟩ : z' = z ∧ i = fl := by simpa using hkey
    rw [update_self]
    split_ifs with hrow
    · rw [update_self, testBit_and_wnot_two_pow hfl (h.flBit_lt hz')]
      simp [hrow.2]
    · have hrow' : slMaps s.zone (z', i) &&& wnot (2 ^ sl) ≠ 0 := fun h0 => hrow ⟨hp, h0⟩
      have hm : slMaps s.zone (z', i) ≠ 0 := fun hm => hrow' (by rw [hm, Nat.zero_and])
      rw [h.flBit _ hz']
      simp [hm, hrow']
  · rw [update_of_ne hkey, ← h.flBit _ hz']
    split_ifs
    · by_cases hzz : z' = z
      · have hi : i ≠ fl := by
          rintro rfl
          exact hkey (by rw [hzz])
        rw [hzz, update_self, testBit_and_wnot_two_pow hfl (hzz ▸ h.flBit_lt hz')]
        simp [hi]
      · rw [update_of_ne hzz]
    · rfl

/-- `tlsf_remove_free_block` takes a block from its list. -/
lemma TlsfRep.remove {a fl sl : ℕ} {l₁ l₂ : List ℕ} (h : TlsfRep Z s L)
    (hk : L (z, fl, sl) = l₁ ++ a :: l₂) :
    ∃ s', tlsfRemoveFreeBlock z a fl sl s = some s' ∧ SameBlocks s s' ∧
      TlsfRep Z s' (update L (z, fl, sl) (l₁ ++ l₂)) := by
  have hfl64 : fl < 64 := (h.index_lt (by simp [hk] : L (z, fl, sl) ≠ [])).1.trans (by decide)
  have hz : Z z := h.on_of_mem (k := (z, fl, sl)) (a := a) (by simp [hk])
  have hseen : headsOn Z s.zone (z, fl, sl) = heads s.zone (z, fl, sl) := headsOn_of_on hz
  obtain ⟨hpa, hna⟩ := h.chains.links hk
  have hprev0 : prevs s.hdr a ≠ pmaNull := by
    rw [hpa]
    refine h.neighbour_ne_null (k := (z, fl, sl)) (lastAddr_mem_or.imp_left fun hmem => ?_)
    rw [hk]
    exact List.mem_append_left _ hmem
  have hnext0 : nexts s.hdr a ≠ pmaNull := by
    rw [hna]
    refine h.neighbour_ne_null (k := (z, fl, sl)) (firstAddr_mem_or.imp_left fun hmem => ?_)
    rw [hk]
    exact List.mem_append_right _ (List.mem_cons_of_mem a hmem)
  obtain ⟨s', heq, hsame, hprev, hnext, hheads, hsl, hfl⟩ :=
    tlsfRemoveFreeBlock_spec z fl sl hprev0 hnext0
  simp only [← and_assoc, h.last_iff hk] at hsl hfl
  have hold : ∀ k, ∀ x ∈ update L (z, fl, sl) (l₁ ++ l₂) k, x ∈ L k := fun k x hx =>
    ((mem_update_append hk (h.chains.nodup _)).mp hx).1
  refine ⟨s', heq, hsame, ?_, ?_, ?_, ?_, ?_, ?_⟩
  · have hremove := h.chains.remove hk
    rw [hseen] at hremove
    rw [hprev, hnext]
    split_ifs at hheads hremove with hhead
    · rw [headsOn_update hz hheads]
      exact hremove
    · rw [headsOn_congr hheads]
      exact hremove
  · intro z' hz' fl' i
    rw [hsl]
    exact h.slBit_remove hk hz' fl' i
  · intro z' hz' i
    rw [hfl, hsl]
    exact h.flBit_remove hfl64 _ hz' i
  · intro z' fl' sl' x hx
    rw [hsame.blockSize]
    exact h.mapped z' fl' sl' x (hold _ x hx)
  · intro k x hx
    rw [hsame.blockSize]
    exact h.small k x (hold k x hx)
  · intro k x hx
    rw [hsame.blockSize]
    exact h.aligned k x (hold k x hx)

/-! ## The list operations on the pieces -/

lemma pageSize_pos : 0 < pageSize := by norm_num [pageSize]

lemma mul_pageSize_inj {m n : ℕ} : m * pageSize = n * pageSize ↔ m = n :=
  Nat.mul_left_inj pageSize_pos.ne'

/-- Only the headers of the pieces matter. -/
lemma TlsfHolds.of_hdr (h : TlsfHolds Z s free)
    (hdr : ∀ x ∈ free, s'.hdr (x.2.start * pageSize) = s.hdr (x.2.start * pageSize))
    (hzone : s'.zone = s.zone) : TlsfHolds Z s' free := by
  obtain ⟨hnd, L, hL, hfree⟩ := h
  have hlisted : ∀ k, ∀ a ∈ L k, s'.hdr a = s.hdr a := by
    rintro ⟨z, fl, sl⟩ a ha
    obtain ⟨⟨p, rfl⟩, n, hn⟩ := hL.aligned _ a ha
    rw [Nat.mul_comm] at ha hn ⊢
    exact hdr (z, ⟨p, n⟩) ((hfree z ⟨p, n⟩).mpr ⟨⟨fl, sl, ha⟩, by rw [hn, Nat.mul_comm]⟩)
  refine ⟨hnd, L, hL.of_hdr hlisted fun z _ => congrFun hzone z, fun z b => ?_⟩
  rw [hfree]
  refine and_congr_right fun ⟨fl, sl, hb⟩ => ?_
  rw [hlisted _ _ hb]

/-- **Inserting** a piece. -/
lemma TlsfHolds.insert (h : TlsfHolds Z s free) (hz : Z z) (hnew : ∀ x ∈ free, x.2.start ≠ b.start)
    (hsize : b.size * pageSize < 2 ^ 48)
    (hb : (s.hdr (b.start * pageSize)).blockSize = b.size * pageSize) :
    ∃ s', tlsfBlockInsert z (b.start * pageSize) s = some s' ∧ SameBlocks s s' ∧
      TlsfHolds Z s' ((z, b) :: free) := by
  obtain ⟨hnd, L, hL, hfree⟩ := h
  have hlisted : ∀ k, b.start * pageSize ∉ L k := by
    rintro ⟨z', fl, sl⟩ hmem
    exact hnew (z', b) ((hfree z' b).mpr ⟨⟨fl, sl, hmem⟩, hb⟩) rfl
  obtain ⟨s', ⟨z', fl, sl⟩, heq, hsame, rfl, hL'⟩ := hL.insert hz hlisted
    ⟨Nat.dvd_mul_left _ _, by rw [hb]; exact Nat.dvd_mul_left _ _⟩ (by rwa [hb])
  refine ⟨s', heq, hsame, List.nodup_cons.mpr ⟨fun hmem => hnew _ hmem rfl, hnd⟩, _, hL',
    fun z c => ?_⟩
  rw [hsame.blockSize, List.mem_cons]
  simp only [mem_update_cons]
  constructor
  · rintro (hc | hc)
    · obtain ⟨rfl, rfl⟩ := Prod.mk.injEq .. ▸ hc
      exact ⟨⟨fl, sl, .inr ⟨rfl, rfl⟩⟩, hb⟩
    · obtain ⟨⟨fl', sl', hmem⟩, hc⟩ := (hfree z c).mp hc
      exact ⟨⟨fl', sl', .inl hmem⟩, hc⟩
  · rintro ⟨⟨fl', sl', hmem | ⟨hk, hstart'⟩⟩, hc⟩
    · exact .inr ((hfree z c).mpr ⟨⟨fl', sl', hmem⟩, hc⟩)
    · rw [hstart', hb] at hc
      left
      obtain ⟨p, n⟩ := c
      obtain ⟨p', n'⟩ := b
      simp only [mul_pageSize_inj, Prod.mk.injEq] at hstart' hc hk
      simp [hk, hstart', hc]

/-- A piece whose block has been taken from its list. -/
lemma TlsfHolds.erase {fl sl : ℕ} {l₁ l₂ : List ℕ} (hL : TlsfRep Z s L)
    (hfree : ∀ z b, (z, b) ∈ free ↔ (∃ fl sl, b.start * pageSize ∈ L (z, fl, sl)) ∧
      (s.hdr (b.start * pageSize)).blockSize = b.size * pageSize)
    (hk : L (z, fl, sl) = l₁ ++ b.start * pageSize :: l₂)
    (hb : (s.hdr (b.start * pageSize)).blockSize = b.size * pageSize)
    (hsame : SameBlocks s s') (hL' : TlsfRep Z s' (update L (z, fl, sl) (l₁ ++ l₂)))
    (hnd : free.Nodup) (hperm : free.Perm ((z, b) :: rest)) : TlsfHolds Z s' rest := by
  have hnd' := hperm.nodup_iff.mp hnd
  rw [List.nodup_cons] at hnd'
  have hin : b.start * pageSize ∈ L (z, fl, sl) := by simp [hk]
  refine ⟨hnd'.2, _, hL', fun z' c => ?_⟩
  rw [hsame.blockSize]
  simp only [mem_update_append hk (hL.chains.nodup _)]
  constructor
  · intro hc
    obtain ⟨⟨fl', sl', hmem⟩, hsize⟩ := (hfree z' c).mp (hperm.mem_iff.mpr (by simp [hc]))
    refine ⟨⟨fl', sl', hmem, ?_⟩, hsize⟩
    rintro ⟨hkey, hstart⟩
    apply hnd'.1
    rw [hstart, hb] at hsize
    obtain ⟨p, n⟩ := c
    obtain ⟨p', n'⟩ := b
    simp only [mul_pageSize_inj, Prod.mk.injEq] at hstart hsize hkey
    rw [← hkey.1, ← hstart, hsize]
    exact hc
  · rintro ⟨⟨fl', sl', hmem, hne⟩, hsize⟩
    have hc := hperm.mem_iff.mp ((hfree z' c).mpr ⟨⟨fl', sl', hmem⟩, hsize⟩)
    rcases List.mem_cons.mp hc with hc | hc
    · obtain ⟨rfl, rfl⟩ := Prod.mk.injEq .. ▸ hc
      exact absurd ⟨hL.chains.apart _ _ _ hmem hin, rfl⟩ hne
    · exact hc

/-- **Removing** a piece. -/
lemma TlsfHolds.remove (h : TlsfHolds Z s free) (hperm : free.Perm ((z, b) :: rest)) :
    ∃ s', tlsfBlockRemove z (b.start * pageSize) s = some s' ∧ SameBlocks s s' ∧
      TlsfHolds Z s' rest := by
  obtain ⟨hnd, L, hL, hfree⟩ := h
  obtain ⟨⟨fl, sl, hmem⟩, hb⟩ := (hfree z b).mp (hperm.mem_iff.mpr (by simp))
  obtain ⟨l₁, l₂, hk⟩ := List.append_of_mem hmem
  obtain ⟨s', heq, hsame, hL'⟩ := hL.remove hk
  have hlt := hL.index_lt (List.ne_nil_of_mem hmem)
  refine ⟨s', ?_, hsame, TlsfHolds.erase hL hfree hk hb hsame hL' hnd hperm⟩
  rw [tlsfBlockRemove, hL.mapped z fl sl _ hmem]
  exact (if_pos hlt.1).trans heq

/-- The lists that are not empty are those with a head. -/
lemma TlsfRep.nonEmpty_iff (h : TlsfRep Z s L) (hz : Z z) {k : ℕ × ℕ} :
    TlsfNonEmpty s z k ↔ L (z, k) ≠ [] := by
  have hhead : heads s.zone (z, k) = pmaBlockNull z ↔ L (z, k) = [] := by
    rw [← headsOn_of_on (Z := Z) (k := (z, k)) hz]
    exact h.chains.head_eq_null
  refine ⟨fun hk hnil => hk.head_ne (hhead.mpr hnil), fun hne => ?_⟩
  obtain ⟨hfst, hsnd⟩ := h.index_lt hne
  exact ⟨hfst, hsnd, fun hnull => hne (hhead.mp hnull)⟩

lemma TlsfRep.index (h : TlsfRep Z s L) (hz : Z z) : TlsfIndex s z where
  flBit fl := by
    rw [flMaps_raw, h.flBit z hz, decide_eq_true_iff]
    refine ⟨fun hne => ⟨?_, hne⟩, fun ⟨_, hne⟩ => hne⟩
    obtain ⟨sl, hsl⟩ := h.exists_of_slMap hz hne
    exact (h.index_lt hsl).1
  slBit fl _ sl := by
    rw [slMaps_raw, h.slBit z hz, decide_eq_true_iff, h.nonEmpty_iff hz]

/-- `tlsf_search_suitable` finds nothing, or the first block of a list in the row or a later one. -/
lemma TlsfRep.search (h : TlsfRep Z s L) (hz : Z z) {fl sl : ℕ} (hfl : fl < pmaIndexCount)
    (hsl : sl < pmaIndexCount) :
    tlsfSearchSuitable z fl sl s = some none ∨
      ∃ a l fl' sl', tlsfSearchSuitable z fl sl s = some (some (a, fl', sl')) ∧
        (fl < fl' ∨ fl = fl' ∧ sl ≤ sl') ∧ L (z, fl', sl') = a :: l := by
  rcases (h.index hz).search hfl hsl with ⟨hnone, -⟩ | ⟨k, hsome, ⟨hle, hk⟩, -⟩
  · exact .inl hnone
  · obtain ⟨a, l, hl⟩ := List.exists_cons_of_ne_nil ((h.nonEmpty_iff hz).mp hk)
    refine .inr ⟨_, l, k.1, k.2, hsome, Prod.Lex.toLex_le_toLex.mp hle, ?_⟩
    have hhead := h.chains.head_eq (z, k)
    rw [headsOn_of_on (Z := Z) (k := (z, k)) hz, show L (z, k) = a :: l from hl] at hhead
    rw [heads_raw, show heads s.zone (z, k.1, k.2) = a from hhead]
    exact hl

/-- Where `tlsf_search_suitable` finds nothing, the lists from there on are empty. -/
lemma TlsfRep.search_none (h : TlsfRep Z s L) (hz : Z z) {fl sl fl' sl' : ℕ}
    (hnone : tlsfSearchSuitable z fl sl s = some none) (hsl : sl < pmaIndexCount)
    (hfl : fl < pmaIndexCount) (hle : fl < fl' ∨ fl = fl' ∧ sl ≤ sl') : L (z, fl', sl') = [] := by
  rcases (h.index hz).search hfl hsl with ⟨-, hempty⟩ | ⟨k, hsome, -⟩
  · by_contra hne
    exact hempty (fl', sl') (Prod.Lex.toLex_le_toLex.mpr hle) ((h.nonEmpty_iff hz).mpr hne)
  · rw [hnone] at hsome
    cases hsome

/-- The block that `tlsf_locate_free` takes for a size: the first one of the first list that is not
empty, from that of the size on. -/
def firstFit (z : PmaZoneId) (size : ℕ) (s : Pma) : Option ℕ :=
  let (fl, sl) := tlsfMappingInsert size
  if size ≠ 0 ∧ fl < pmaIndexCount then
    match tlsfSearchSuitable z fl sl s with
    | some (some (b, _, _)) => some b
    | _ => none
  else none

/-- **Locating** a piece, which is taken from its list. -/
lemma TlsfHolds.locate (h : TlsfHolds Z s free) (hz : Z z) (size : ℕ) :
    (firstFit z size s = none ∧ tlsfLocateFree z size s = some (none, s)) ∨
      ∃ b rest s', firstFit z size s = some (b.start * pageSize) ∧
        tlsfLocateFree z size s = some (some (b.start * pageSize), s') ∧ SameBlocks s s' ∧
        free.Perm ((z, b) :: rest) ∧ TlsfHolds Z s' rest ∧
        (s.hdr (b.start * pageSize)).blockSize = b.size * pageSize ∧
        ∀ k, 12 ≤ k → 2 ^ k ≤ size → 2 ^ k ≤ b.size * pageSize := by
  obtain ⟨hnd, L, hL, hfree⟩ := h
  rcases hmap : tlsfMappingInsert size with ⟨fl, sl⟩
  unfold tlsfLocateFree firstFit
  rw [hmap]
  by_cases hsize : size = 0
  · exact .inl ⟨by simp [hsize], by simp [hsize]⟩
  by_cases hfl : fl < pmaIndexCount
  · have hsl : sl < pmaIndexCount := by
      have := tlsfMappingInsert_snd_lt size
      rwa [hmap] at this
    rcases hL.search hz hfl hsl with hnone | ⟨a, l, fl', sl', hsome, hle, hk⟩
    · exact .inl ⟨by simp [hsize, hfl, hnone], by simp [hsize, hfl, hnone]⟩
    · have hmem : a ∈ L (z, fl', sl') := by simp [hk]
      obtain ⟨⟨p, rfl⟩, n, hn⟩ := hL.aligned _ a hmem
      rw [Nat.mul_comm] at hk hmem hn hsome
      rw [Nat.mul_comm pageSize n] at hn
      have hk' : L (z, fl', sl') = [] ++ p * pageSize :: l := hk
      obtain ⟨s', hrem, hsame, hL'⟩ := hL.remove hk'
      have hb : (z, ⟨p, n⟩) ∈ free := (hfree z ⟨p, n⟩).mpr ⟨⟨fl', sl', hmem⟩, hn⟩
      have hperm := List.perm_cons_erase hb
      refine .inr ⟨⟨p, n⟩, _, s', by simp [hsize, hfl, hsome], by simp [hsize, hfl, hsome, hrem],
        hsame, hperm, TlsfHolds.erase (b := ⟨p, n⟩) hL hfree hk' hn hsame hL' hnd hperm, hn,
        fun k hk hsize => ?_⟩
      have hmapped := hL.mapped z fl' sl' _ hmem
      rw [hn] at hmapped
      refine two_pow_le_of_class (Nat.dvd_mul_left _ _) ?_ hk hsize
      rw [hmap, hmapped]
      exact hle
  · exact .inl ⟨by simp [hfl], by simp [hsize, hfl]⟩

/-- One page is found whenever the zone has a piece. -/
lemma TlsfHolds.firstFit_page_ne_none (h : TlsfHolds Z s free) (hz : Z z) (hb : (z, b) ∈ free)
    (hpos : 0 < b.size) : firstFit z pageSize s ≠ none := by
  obtain ⟨-, L, hL, hfree⟩ := h
  obtain ⟨⟨fl, sl, hmem⟩, hsize⟩ := (hfree z b).mp hb
  have hmapped := hL.mapped z fl sl _ hmem
  rw [hsize] at hmapped
  -- the list of one page is the second of the first row
  have hclass : 0 < fl ∨ 0 = fl ∧ 1 ≤ sl := by
    rcases Nat.lt_or_ge (b.size * pageSize) pmaSmallBlockSize with hsmall | hlarge
    · rw [tlsfMappingInsert_of_small hsmall, Prod.mk.injEq, Nat.shiftRight_eq_div_pow] at hmapped
      simp only [pageSize] at hmapped
      omega
    · have hlog := log2_of_large hlarge
      rw [tlsfMappingInsert_of_large hlarge, Prod.mk.injEq] at hmapped
      omega
  have hpage : tlsfMappingInsert pageSize = (0, 1) := by decide
  intro hnone
  unfold firstFit at hnone
  rw [hpage] at hnone
  have hrow : 0 < pmaIndexCount := by decide
  have hcol : 1 < pmaIndexCount := by decide
  rcases hL.search hz hrow hcol with hsearch | ⟨a, l, fl', sl', hsearch, -⟩
  · have hnil := hL.search_none hz hsearch hcol hrow hclass
    rw [hnil] at hmem
    cases hmem
  · dsimp only at hnone
    rw [hsearch] at hnone
    simp [pageSize, pmaIndexCount] at hnone

lemma TlsfHolds.blockSize_eq (h : TlsfHolds Z s free) (hb : (z, b) ∈ free) :
    (s.hdr (b.start * pageSize)).blockSize = b.size * pageSize := by
  obtain ⟨-, L, -, hfree⟩ := h
  exact ((hfree z b).mp hb).2

lemma TlsfHolds.list_ne_nil_iff {fl sl : ℕ} (hL : TlsfRep Z s L)
    (hfree : ∀ z b, (z, b) ∈ free ↔ (∃ fl sl, b.start * pageSize ∈ L (z, fl, sl)) ∧
      (s.hdr (b.start * pageSize)).blockSize = b.size * pageSize) :
    L (z, fl, sl) ≠ [] ↔ ∃ b, (z, b) ∈ free ∧ tlsfMappingInsert (b.size * pageSize) = (fl, sl) := by
  constructor
  · intro hne
    obtain ⟨a, ha⟩ := List.exists_mem_of_ne_nil _ hne
    have hmapped := hL.mapped z fl sl a ha
    obtain ⟨⟨p, rfl⟩, n, hn⟩ := hL.aligned _ a ha
    rw [Nat.mul_comm] at ha hn hmapped
    rw [Nat.mul_comm pageSize n] at hn
    rw [hn] at hmapped
    exact ⟨⟨p, n⟩, (hfree z ⟨p, n⟩).mpr ⟨⟨fl, sl, ha⟩, hn⟩, hmapped⟩
  · rintro ⟨b, hb, hmapped⟩
    obtain ⟨⟨fl', sl', hmem⟩, hsize⟩ := (hfree z b).mp hb
    have hmapped' := hL.mapped z fl' sl' _ hmem
    rw [hsize, hmapped, Prod.mk.injEq] at hmapped'
    rw [hmapped'.1, hmapped'.2]
    exact List.ne_nil_of_mem hmem

/-- The bitmaps of the lists say nothing that the pieces do not say. -/
lemma TlsfHolds.maps_eq {free' : List (PmaZoneId × Piece)} (h : TlsfHolds Z s free)
    (h' : TlsfHolds Z s' free')
    (hmem : ∀ x, x ∈ free' ↔ x ∈ free) (hz : Z z) :
    (∀ fl, slMaps s'.zone (z, fl) = slMaps s.zone (z, fl)) ∧
      flMaps s'.zone z = flMaps s.zone z := by
  obtain ⟨-, L, hL, hfree⟩ := h
  obtain ⟨-, L', hL', hfree'⟩ := h'
  have hsl : ∀ fl, slMaps s'.zone (z, fl) = slMaps s.zone (z, fl) := by
    intro fl
    refine Nat.eq_of_testBit_eq fun i => ?_
    rw [hL.slBit z hz, hL'.slBit z hz]
    apply decide_eq_decide.mpr
    rw [TlsfHolds.list_ne_nil_iff hL hfree, TlsfHolds.list_ne_nil_iff hL' hfree']
    exact exists_congr fun b => and_congr_left fun _ => hmem (z, b)
  refine ⟨hsl, Nat.eq_of_testBit_eq fun i => ?_⟩
  rw [hL.flBit z hz, hL'.flBit z hz, hsl]

/-! ## The blocks on the lists -/

/-- There is a block at `a` on a free list of `z`: it is the head of the list, or the next one of a
block that is on it. -/
inductive OnFreeList (s : Pma) (z : PmaZoneId) : ℕ → Prop
  | head {fl sl : ℕ} (hfl : fl < pmaIndexCount) (hsl : sl < pmaIndexCount)
      (hne : (s.zone z).blocks fl sl ≠ pmaBlockNull z) : OnFreeList s z ((s.zone z).blocks fl sl)
  | next {a : ℕ} (ha : OnFreeList s z a) (hne : (s.hdr a).next ≠ pmaBlockNull z) :
      OnFreeList s z (s.hdr a).next

lemma TlsfRep.onFreeList_iff (h : TlsfRep Z s L) (hz : Z z) {a : ℕ} :
    OnFreeList s z a ↔ ∃ fl sl, a ∈ L (z, fl, sl) := by
  constructor
  · intro ha
    induction ha with
    | @head fl sl hfl hsl hne =>
      refine ⟨fl, sl, ?_⟩
      have hhead := h.chains.head_eq (z, fl, sl)
      rw [headsOn_of_on hz] at hhead
      rcases firstAddr_mem_or (l := L (z, fl, sl)) (q := pmaBlockNull z) with hmem | heq
      · rw [heads_raw, hhead]
        exact hmem
      · exact absurd (hhead.trans heq) hne
    | @next a ha hne ih =>
      obtain ⟨fl, sl, hmem⟩ := ih
      obtain ⟨l₁, l₂, hk⟩ := List.append_of_mem hmem
      have hlink := (h.chains.links hk).2
      refine ⟨fl, sl, ?_⟩
      rcases firstAddr_mem_or (l := l₂) (q := pmaBlockNull z) with hmem | heq
      · rw [hk, List.mem_append, List.mem_cons]
        rw [nexts_raw, hlink]
        exact .inr (.inr hmem)
      · exact absurd (hlink.trans heq) hne
  · rintro ⟨fl, sl, hmem⟩
    have hlt := h.index_lt (List.ne_nil_of_mem hmem)
    -- the nodes of the list, from its head on
    obtain ⟨l₁, l₂, hk⟩ := List.append_of_mem hmem
    induction l₁ using List.reverseRecOn generalizing a l₂ with
    | nil =>
      have hhead : (s.zone z).blocks fl sl = a := by
        have := h.chains.head_eq (z, fl, sl)
        rwa [hk, headsOn_of_on hz] at this
      rw [← hhead]
      refine .head hlt.1 hlt.2 ?_
      rw [hhead]
      rintro rfl
      exact h.chains.null_not_mem (z, fl, sl) (z, fl, sl) hmem
    | append_singleton l b ih =>
      rw [List.append_assoc, List.singleton_append] at hk
      have hb : OnFreeList s z b := ih (by simp [hk]) (a :: l₂) hk
      have hnext : (s.hdr b).next = a := (h.chains.links hk).2
      rw [← hnext]
      refine .next hb ?_
      rw [hnext]
      rintro rfl
      exact h.chains.null_not_mem (z, fl, sl) (z, fl, sl) hmem

/-- The blocks on the lists are the pieces. -/
lemma TlsfHolds.onFreeList_iff (h : TlsfHolds Z s free) (hz : Z z) {a : ℕ} :
    OnFreeList s z a ↔ ∃ b, (z, b) ∈ free ∧ a = b.start * pageSize ∧
      (s.hdr a).blockSize = b.size * pageSize := by
  obtain ⟨-, L, hL, hfree⟩ := h
  rw [hL.onFreeList_iff hz]
  constructor
  · rintro ⟨fl, sl, hmem⟩
    obtain ⟨⟨p, rfl⟩, n, hn⟩ := hL.aligned _ a hmem
    rw [Nat.mul_comm] at hmem hn
    rw [Nat.mul_comm pageSize n] at hn
    refine ⟨⟨p, n⟩, (hfree z ⟨p, n⟩).mpr ⟨⟨fl, sl, hmem⟩, hn⟩, Nat.mul_comm .., ?_⟩
    rw [Nat.mul_comm]
    exact hn
  · rintro ⟨b, hb, rfl, -⟩
    exact ((hfree z b).mp hb).1

end Cuore
