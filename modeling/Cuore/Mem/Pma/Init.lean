import Cuore.Mem.Pma.Pieces

/-!
# Initialisation of the physical allocator

`pma_init` walks the memory map and adds its usable regions to the zones, split at 4 GiB, less the
pages of the bitmap.  The map is sorted, so that the pieces on the lists always lie below the
regions that are still to come, and nothing overlaps.  Regions that touch become pieces that touch.

`PmaSetup` is the state on the way, with the set of pages that are free so far.  `pmaInit_spec` says
that in the end these are the whole pages of the usable regions, but for page 0 and the bitmap.
-/

namespace Cuore

open Function Pma Piece

/-! ## The memory map -/

/-- What the bootloader promises of the usable regions of its map: they are sorted by address and
do not overlap, and end below `2 ^ 48`. -/
structure UsableMap (regions : List CmmRegion) : Prop where
  sorted : regions.Pairwise fun r r' => r.type = .usable → r'.type = .usable → r.limit ≤ r'.base
  below : ∀ r ∈ regions, r.type = .usable → r.limit ≤ 2 ^ 48

instance (regions : List CmmRegion) : Decidable (UsableMap regions) :=
  decidable_of_iff (_ ∧ _) ⟨fun ⟨h, h'⟩ => ⟨h, h'⟩, fun h => ⟨h.sorted, h.below⟩⟩

variable {regions : List CmmRegion} {N : ℕ}

/-- The top of memory is the least upper bound of the usable regions. -/
lemma cmmGetRamTop_le_iff :
    cmmGetRamTop regions ≤ N ↔ ∀ r ∈ regions, r.type = .usable → r.limit ≤ N := by
  have hfold : ∀ top, regions.foldl (fun top r =>
      if r.type = .usable ∧ r.limit > top then r.limit else top) top ≤ N ↔
        top ≤ N ∧ ∀ r ∈ regions, r.type = .usable → r.limit ≤ N := by
    induction regions with
    | nil => simp
    | cons r regions ih =>
      intro top
      rw [List.foldl_cons, ih, List.forall_mem_cons, ← and_assoc]
      refine and_congr_left fun _ => ?_
      by_cases hr : r.type = .usable
      · simp only [hr, true_and, forall_const]
        split_ifs <;> omega
      · simp [hr]
  rw [cmmGetRamTop, hfold, and_iff_right (Nat.zero_le N)]

/-! ## Adding memory -/

variable {total top : ℕ} {G : ℕ → Prop} {s : Pma} {free : List (PmaZoneId × Piece)} {z : PmaZoneId}

/-- The state while the zones are set up: the pages `G` are free, and all pieces on the lists lie
below the address `top`. -/
structure PmaSetup (total top : ℕ) (G : ℕ → Prop) (s : Pma) (free : List (PmaZoneId × Piece)) :
    Prop where
  inv : PmaInv (pmaZones total) (fun _ => True) s free [] []
  small : total ≤ 2 ^ 36
  exact : ∀ p, (∃ x ∈ free, p ∈ x.2) ↔ G p
  below : ∀ x ∈ free, x.2.stop * pageSize ≤ top
  beyond : ∀ p, total ≤ p → s.bitmap p = true

lemma PmaSetup.mono {top' : ℕ} (h : PmaSetup total top G s free) (hle : top ≤ top') :
    PmaSetup total top' G s free :=
  { h with below := fun x hx => (h.below x hx).trans hle }

/-- A page that lies in a range of addresses, and is not page 0. -/
def PageIn (start stop p : ℕ) : Prop := p ≠ 0 ∧ start ≤ p * pageSize ∧ (p + 1) * pageSize ≤ stop

/-- An address range on one side of 4 GiB. -/
def RangeInZone : PmaZoneId → ℕ → ℕ → Prop
  | .low, _, stop => stop ≤ pmaZone32bit * pageSize
  | .normal, start, _ => pmaZone32bit * pageSize ≤ start

lemma pageIn_iff {start stop p : ℕ} : PageIn start stop p ↔
    max (alignUp pageSize start / pageSize) 1 ≤ p ∧ p < stop / pageSize := by
  simp only [PageIn, alignUp, pageSize]
  omega

/-- A range that is cut in two at the start of a page. -/
lemma pageIn_cut {start mid stop p : ℕ} (hmid : pageSize ∣ mid) :
    PageIn start (min stop mid) p ∨ PageIn (max start mid) stop p ↔ PageIn start stop p := by
  obtain ⟨q, rfl⟩ := hmid
  simp only [PageIn, pageSize]
  omega

/-- Nothing is added if the range has no page. -/
lemma PmaSetup.of_empty {start stop : ℕ} (h : PmaSetup total start G s free) (hle : start ≤ stop)
    (hnone : ∀ p, ¬PageIn start stop p) :
    PmaSetup total stop (fun p => G p ∨ PageIn start stop p) s free :=
  { h.mono hle with exact := fun p => (h.exact p).trans (or_iff_left (hnone p)).symm }

/-- `pma_zone_add_region` adds the whole pages of a region above all pieces. -/
lemma PmaSetup.addRegion {base : ℕ} (h : PmaSetup total base G s free) (length : ℕ)
    (hz : RangeInZone z base (base + length)) (htop : (base + length) / pageSize ≤ total) :
    ∃ s' free', pmaZoneAddRegion z base length s = some s' ∧
      PmaSetup total (base + length) (fun p => G p ∨ PageIn base (base + length) p) s' free' := by
  have hpages : ∀ p, PageIn base (base + length) p ↔
      max (alignUp pageSize base / pageSize) 1 ≤ p ∧ p < (base + length) / pageSize :=
    fun p => pageIn_iff
  have hnone : (base + length) / pageSize ≤ max (alignUp pageSize base / pageSize) 1 →
      PmaSetup total (base + length) (fun p => G p ∨ PageIn base (base + length) p) s free :=
    fun hle => h.of_empty (Nat.le_add_right _ _) fun p hp => by
      have := (hpages p).mp hp
      omega
  unfold pmaZoneAddRegion
  by_cases hshort : length < pmaBlockHeaderSize
  · refine ⟨s, free, if_pos hshort, h.of_empty (Nat.le_add_right _ _) fun p hp => ?_⟩
    simp only [PageIn, pageSize, pmaBlockHeaderSize] at hp hshort
    omega
  rw [if_neg hshort]
  have hp := le_alignUp pageSize_pos base
  have hq := alignDown_le pageSize (base + length)
  obtain ⟨p, hp'⟩ : ∃ p, alignUp pageSize base = p * pageSize := ⟨_, rfl⟩
  obtain ⟨q, hq'⟩ : ∃ q, alignDown pageSize (base + length) = q * pageSize := ⟨_, rfl⟩
  have hqstop : (base + length) / pageSize = q := by
    rwa [alignDown, mul_pageSize_inj] at hq'
  -- page 0 is skipped
  have hstart : (if p * pageSize = 0 then pageSize else p * pageSize) = max p 1 * pageSize := by
    rcases Nat.eq_zero_or_pos p with rfl | hpos
    · simp
    · rw [if_neg (Nat.mul_pos hpos pageSize_pos).ne', Nat.max_eq_left hpos]
  rw [hp', Nat.mul_div_cancel _ pageSize_pos] at hnone hpages
  rw [hqstop] at hnone hpages htop
  rw [hp'] at hp ⊢
  rw [hq'] at hq ⊢
  simp only [hstart, ← Nat.sub_mul, Nat.mul_div_cancel _ pageSize_pos,
    Nat.mul_le_mul_right_iff pageSize_pos]
  by_cases hempty : q ≤ p
  · exact ⟨s, free, if_pos hempty, hnone (by omega)⟩
  rw [if_neg hempty]
  by_cases hempty' : q ≤ max p 1
  · exact ⟨s, free, if_pos hempty', hnone hempty'⟩
  rw [if_neg hempty']
  have hbase : base ≤ max p 1 * pageSize := hp.trans (Nat.mul_le_mul_right _ (Nat.le_max_left p 1))
  have hfirst : 1 ≤ max p 1 := Nat.le_max_right p 1
  generalize max p 1 = first at hempty' hbase hfirst hpages ⊢
  have hsmall := h.small
  have hstop : (⟨first, q - first⟩ : Piece).stop = q := by
    simp only [Piece.stop]
    omega
  have hzone : InZone (pmaZones total) z ⟨first, q - first⟩ := by
    cases z with
    | low =>
      have hle : q * pageSize ≤ pmaZone32bit * pageSize := hq.trans hz
      rw [inZone_low, hstop]
      exact ⟨htop, Nat.le_of_mul_le_mul_right hle pageSize_pos⟩
    | normal =>
      have hle : pmaZone32bit * pageSize ≤ first * pageSize := le_trans hz hbase
      rw [inZone_normal, hstop]
      exact ⟨Nat.le_of_mul_le_mul_right hle pageSize_pos, htop⟩
  have hpacked : Packed (⟨first, q - first⟩ :: ([] ++ free.map Prod.snd ++ [])) := by
    refine packed_cons.mpr ⟨by dsimp only; omega, fun c hc => .inr ?_, h.inv.packed⟩
    rw [List.nil_append, List.append_nil] at hc
    obtain ⟨x, hx, rfl⟩ := List.mem_map.mp hc
    exact Nat.le_of_mul_le_mul_right ((h.below x hx).trans hbase) pageSize_pos
  have hreceive := h.inv.receive hzone hpacked ⟨by dsimp only; omega, fun _ _ => trivial⟩
  obtain ⟨s', heq, hbitmap, h'⟩ := hreceive.putNew hzone
  refine ⟨s', _, heq, h', hsmall, fun p => ?_, fun x hx => ?_, fun p hp => ?_⟩
  · rw [List.exists_mem_cons_iff, h.exact, hpages, or_comm]
    apply or_congr_right
    simp only [mem_iff]
    omega
  · rcases List.mem_cons.mp hx with rfl | hx
    · rw [hstop]
      exact hq
    · exact (h.mono (Nat.le_add_right _ _)).below x hx
  · rw [hbitmap, pmaForPages_setFree]
    dsimp only
    rw [if_neg (by omega)]
    exact h.beyond p hp

/-- Adding the memory between two addresses of a zone, if there is any. -/
lemma PmaSetup.addRange {start : ℕ} (h : PmaSetup total start G s free) (stop : ℕ)
    (hz : RangeInZone z start stop) (htop : stop / pageSize ≤ total) :
    ∃ s' free', pmaWhen (stop > start) (pmaZoneAddRegion z start (stop - start)) s = some s' ∧
      PmaSetup total (max start stop) (fun p => G p ∨ PageIn start stop p) s' free' := by
  by_cases hcond : stop > start
  · have hadd : start + (stop - start) = stop := Nat.add_sub_cancel' hcond.le
    obtain ⟨s', free', heq, h'⟩ := h.addRegion (stop - start) (by rwa [hadd]) (by rwa [hadd])
    rw [hadd] at h'
    exact ⟨s', free', (pmaWhen_pos hcond).trans heq, h'.mono (Nat.le_max_right _ _)⟩
  · refine ⟨s, free, pmaWhen_neg hcond, { h.mono (Nat.le_max_left _ _) with exact := fun p => ?_ }⟩
    have hnone : ¬PageIn start stop p := by
      simp only [PageIn, pageSize]
      omega
    rw [h.exact, or_iff_left hnone]

/-- Adding the memory between two addresses, split at 4 GiB. -/
lemma PmaSetup.addSplit {start stop : ℕ} (h : PmaSetup total start G s free) (hle : start ≤ stop)
    (htop : stop / pageSize ≤ total) :
    ∃ s' free', pmaAddSplit start stop s = some s' ∧
      PmaSetup total stop (fun p => G p ∨ PageIn start stop p) s' free' := by
  have hdiv : ∀ {n}, n ≤ stop → n / pageSize ≤ total := fun hn =>
    (Nat.div_le_div_right hn).trans htop
  -- below 4 GiB
  obtain ⟨s₁, free₁, heq₁, h₁⟩ := h.addRange (z := .low) (min stop (pmaZone32bit * pageSize))
    (Nat.min_le_right _ _) (hdiv (Nat.min_le_left _ _))
  have hcut : ∀ p, PageIn start (min stop (pmaZone32bit * pageSize)) p ∨
      PageIn (max start (pmaZone32bit * pageSize)) stop p ↔ PageIn start stop p :=
    fun p => pageIn_cut (Dvd.intro_left _ rfl)
  unfold pmaAddSplit
  dsimp only
  rw [heq₁]
  dsimp only [Option.bind_eq_bind, Option.bind_some]
  generalize hlimit : pmaZone32bit * pageSize = limit at h₁ hcut ⊢
  by_cases hcond : stop > max start limit
  · -- from 4 GiB on
    have hbelow : max start (min stop limit) ≤ max start limit := by omega
    obtain ⟨s₂, free₂, heq₂, h₂⟩ := (h₁.mono hbelow).addRange (z := .normal) stop
      (show pmaZone32bit * pageSize ≤ max start limit by omega) htop
    rw [Nat.max_eq_right hcond.le] at h₂
    refine ⟨s₂, free₂, heq₂, { h₂ with exact := fun p => ?_ }⟩
    rw [h₂.exact, or_assoc, hcut]
  · refine ⟨s₁, free₁, pmaWhen_neg hcond, { h₁.mono (by omega) with exact := fun p => ?_ }⟩
    have hnone : ¬PageIn (max start limit) stop p := by
      simp only [PageIn, pageSize]
      omega
    rw [h₁.exact, ← hcut p, or_iff_left hnone]

/-- Marking pages above all pieces as used changes nothing. -/
lemma PmaSetup.markUsed {first n : ℕ} (h : PmaSetup total top G s free)
    (hfirst : top / pageSize ≤ first) :
    PmaSetup total top G (pmaForPages (fun p s =>
      if p < total then { s with bitmap := update s.bitmap p true } else s) first n s) free := by
  rw [pmaForPages_eq (v := true) (N := total) fun _ _ _ => rfl]
  refine { h with
    inv := { h.inv with
      holds := h.inv.holds.of_hdr (fun _ _ => rfl) rfl
      clear := fun hbits z hz p hp => ?_ }
    beyond := fun p hp => ?_ }
  · dsimp only
    split_ifs with hp'
    · refine ⟨fun hfalse => absurd hfalse (by decide), ?_⟩
      rintro ⟨b, hb, hpb⟩
      obtain ⟨x, hx, rfl⟩ := List.mem_map.mp hb
      have hstop : x.2.stop ≤ top / pageSize :=
        (Nat.le_div_iff_mul_le pageSize_pos).mpr (h.below x hx)
      rw [mem_iff] at hpb
      simp only [Piece.stop] at hstop
      omega
    · exact h.inv.clear hbits z hz p hp
  · dsimp only
    rw [if_neg (by omega)]
    exact h.beyond p hp

/-- The pages that a region of the map adds, with the bitmap from `bitmapPhys` on. -/
def RegionAdds (bitmapPhys reserved : ℕ) (r : CmmRegion) (p : ℕ) : Prop :=
  r.type = .usable ∧ if r.base ≤ bitmapPhys ∧ bitmapPhys < r.limit then
    PageIn r.base bitmapPhys p ∨ PageIn (bitmapPhys + reserved) r.limit p
  else PageIn r.base r.limit p

/-- A round of the loop over the regions. -/
lemma PmaSetup.initRegion {r : CmmRegion} (h : PmaSetup total top G s free)
    (bitmapPhys reserved : ℕ) (hbelow : r.type = .usable → top ≤ r.base)
    (htop : r.type = .usable → r.limit / pageSize ≤ total) :
    ∃ s' free', pmaInitRegion bitmapPhys reserved total r s = some s' ∧
      PmaSetup total (if r.type = .usable then r.limit else top)
        (fun p => G p ∨ RegionAdds bitmapPhys reserved r p) s' free' := by
  unfold pmaInitRegion RegionAdds
  by_cases hr : r.type = .usable
  · have h₀ := h.mono (hbelow hr)
    have htop' := htop hr
    simp only [hr, ne_eq, not_true_eq_false, if_false, if_true, true_and]
    by_cases hbitmap : r.base ≤ bitmapPhys ∧ bitmapPhys < r.limit
    · rw [if_pos (show r.base ≤ bitmapPhys ∧ r.base + r.length > bitmapPhys from hbitmap)]
      simp only [if_pos hbitmap, ← or_assoc]
      -- before the bitmap
      have hbefore : ∃ s' free', pmaWhen (bitmapPhys > r.base) (pmaAddSplit r.base bitmapPhys) s =
          some s' ∧
        PmaSetup total bitmapPhys (fun p => G p ∨ PageIn r.base bitmapPhys p) s' free' := by
        by_cases hcond : bitmapPhys > r.base
        · obtain ⟨s', free', heq, h'⟩ := h₀.addSplit hcond.le
            ((Nat.div_le_div_right hbitmap.2.le).trans htop')
          exact ⟨s', free', (pmaWhen_pos hcond).trans heq, h'⟩
        · refine ⟨s, free, pmaWhen_neg hcond, h₀.of_empty hbitmap.1 fun p hp => ?_⟩
          simp only [PageIn, pageSize] at hp
          omega
      obtain ⟨s₁, free₁, heq₁, h₁⟩ := hbefore
      rw [heq₁]
      dsimp only [Option.bind_eq_bind, Option.bind_some]
      have h₂ := h₁.markUsed (n := (bitmapPhys + reserved) / pageSize - bitmapPhys / pageSize)
        (Nat.le_refl _)
      by_cases hafter : bitmapPhys + reserved < r.base + r.length
      · rw [pmaWhen_pos hafter]
        exact (h₂.mono (Nat.le_add_right _ _)).addSplit hafter.le htop'
      · refine ⟨_, free₁, pmaWhen_neg hafter, { h₂.mono hbitmap.2.le with exact := fun p => ?_ }⟩
        have hnone : ¬PageIn (bitmapPhys + reserved) r.limit p := by
          simp only [PageIn, pageSize, CmmRegion.limit]
          omega
        rw [h₂.exact, or_iff_left hnone]
    · rw [if_neg (show ¬(r.base ≤ bitmapPhys ∧ r.base + r.length > bitmapPhys) from hbitmap)]
      simp only [if_neg hbitmap]
      exact h₀.addSplit (Nat.le_add_right _ _) htop'
  · rw [if_pos hr]
    simp only [hr, false_and, or_false]
    exact ⟨s, free, rfl, h⟩

/-- The loop over the regions. -/
lemma PmaSetup.initRegions {bitmapPhys reserved : ℕ} (h : PmaSetup total top G s free)
    (hsorted : regions.Pairwise fun r r' =>
      r.type = .usable → r'.type = .usable → r.limit ≤ r'.base)
    (hbelow : ∀ r ∈ regions, r.type = .usable → top ≤ r.base)
    (htop : ∀ r ∈ regions, r.type = .usable → r.limit / pageSize ≤ total) :
    ∃ s' free' top', regions.foldlM (fun s r => pmaInitRegion bitmapPhys reserved total r s) s =
      some s' ∧ PmaSetup total top'
        (fun p => G p ∨ ∃ r ∈ regions, RegionAdds bitmapPhys reserved r p) s' free' := by
  induction regions generalizing s free top G with
  | nil => exact ⟨s, free, top, rfl, by simpa using h⟩
  | cons r regions ih =>
    rw [List.pairwise_cons] at hsorted
    rw [List.forall_mem_cons] at hbelow htop
    obtain ⟨s₁, free₁, heq₁, h₁⟩ := h.initRegion bitmapPhys reserved hbelow.1 htop.1
    have hbelow₁ : ∀ r' ∈ regions, r'.type = .usable →
        (if r.type = .usable then r.limit else top) ≤ r'.base := by
      intro r' hr' husable
      split_ifs with hr
      · exact hsorted.1 r' hr' hr husable
      · exact hbelow.2 r' hr' husable
    obtain ⟨s₂, free₂, top₂, heq₂, h₂⟩ := ih h₁ hsorted.2 hbelow₁ htop.2
    refine ⟨s₂, free₂, top₂, ?_, ?_⟩
    · rw [List.foldlM_cons, heq₁]
      exact heq₂
    · simpa only [List.exists_mem_cons_iff, or_assoc] using h₂

/-! ## The result -/

/-- The lists of `pma_zone_init` are empty. -/
lemma tlsfHolds_init {Z : PmaZoneId → Bool} {hdr : ℕ → PmaFreeBlock} {bitmap : ℕ → Bool}
    (totalPages : PmaZoneId → ℕ) :
    TlsfHolds Z ⟨hdr, bitmap, fun z => pmaZoneInit z (totalPages z)⟩ [] := by
  refine ⟨List.nodup_nil, fun _ => [], ⟨⟨fun k => ?_, fun _ => trivial, fun _ => List.nodup_nil,
    by simp, by simp⟩, ?_, ?_, by simp, by simp, by simp⟩, by simp⟩
  · unfold headsOn
    split_ifs <;> rfl
  · intro z _ fl i
    simp [slMaps, pmaZoneInit]
  · intro z _ i
    simp [slMaps, flMaps, pmaZoneInit]

/-- The region that holds the bitmap. -/
def pmaBitmapRegion (regions : List CmmRegion) : Option CmmRegion :=
  regions.find? fun r => r.type == .usable &&
    decide (r.length ≥ pmaBitmapReserved (cmmGetRamTop regions / pageSize))

/-- **`pma_init`**, of a map with room for the bitmap: the zones hold the pages that the regions of
the map add. -/
lemma pmaInit_spec {r₀ : CmmRegion} (hmap : UsableMap regions) (hdr : ℕ → PmaFreeBlock)
    (hroom : pmaBitmapRegion regions = some r₀) :
    ∃ s free, pmaInit regions hdr = some s ∧
      PmaInv (pmaZones (cmmGetRamTop regions / pageSize)) (fun p => s.bitmap p = false) s free
        [] [] ∧
      (∀ p, (∃ x ∈ free, p ∈ x.2) ↔ ∃ r ∈ regions,
        RegionAdds r₀.base (pmaBitmapReserved (cmmGetRamTop regions / pageSize)) r p) ∧
      ∀ p, s.bitmap p = false ↔ ∃ x ∈ free, p ∈ x.2 := by
  have htop : ∀ r ∈ regions, r.type = .usable →
      r.limit / pageSize ≤ cmmGetRamTop regions / pageSize := fun r hr husable =>
    Nat.div_le_div_right (cmmGetRamTop_le_iff.mp (Nat.le_refl _) r hr husable)
  have htotal : cmmGetRamTop regions / pageSize ≤ 2 ^ 36 :=
    (Nat.div_le_div_right (cmmGetRamTop_le_iff.mpr hmap.below)).trans (by norm_num [pageSize])
  unfold pmaBitmapRegion at hroom
  unfold pmaInit
  dsimp only
  generalize cmmGetRamTop regions / pageSize = total at *
  rw [hroom]
  dsimp only [Option.bind_eq_bind, Option.bind_some]
  generalize update (update hdr _ _) _ _ = hdr'
  have hzone : ∀ z, pmaZoneTotal total z ≤ total := by
    rintro (_ | _)
    · exact Nat.le_refl _
    · exact Nat.min_le_left _ _
  -- nothing is free at first
  have hsetup : PmaSetup total 0 (fun _ => False)
      ⟨hdr', fun _ => true, fun z => pmaZoneInit z (pmaZoneTotal total z)⟩ [] := by
    refine ⟨⟨tlsfHolds_init _, fun _ _ _ => rfl, fun z _ => ?_, packed_nil, by simp, by simp,
      by simp,
      by simp⟩, htotal, by simp, by simp, fun _ _ => rfl⟩
    exact ((hzone z).trans htotal).trans (by decide)
  obtain ⟨s, free, top, heq, h⟩ := hsetup.initRegions hmap.sorted (fun _ _ _ => Nat.zero_le _) htop
  have hclear : ∀ p, s.bitmap p = false ↔ ∃ x ∈ free, p ∈ x.2 := fun p => by
    rcases Nat.lt_or_ge p total with hlt | hge
    · rw [h.inv.clear rfl .normal rfl p hlt]
      simp only [List.nil_append, List.mem_map, exists_exists_and_eq_and]
    · rw [h.beyond p hge]
      refine ⟨fun hfalse => absurd hfalse (by decide), ?_⟩
      rintro ⟨x, hx, hp⟩
      have hlt := (h.inv.zoned x hx).lt_hi hp
      have hle : (pmaZones total).hi x.1 ≤ total := hzone x.1
      omega
  refine ⟨s, free, heq, { h.inv with within := fun b hb => ?_ }, ?_, hclear⟩
  · refine ⟨(h.inv.within b hb).1, fun p hp => (hclear p).mpr ?_⟩
    rw [List.nil_append, List.append_nil] at hb
    obtain ⟨x, hx, rfl⟩ := List.mem_map.mp hb
    exact ⟨x, hx, hp⟩
  · simpa only [false_or] using h.exact

/-- The state that `pma_init` builds. -/
lemma PmaInv.init {hdr : ℕ → PmaFreeBlock} (hmap : UsableMap regions)
    (hinit : pmaInit regions hdr = some s) :
    cmmGetRamTop regions / pageSize ≤ 2 ^ 36 ∧ ¬s.bitmap 0 = false ∧
      ∃ free, PmaInv (pmaZones (cmmGetRamTop regions / pageSize)) (fun p => s.bitmap p = false) s
        free [] [] := by
  cases hroom : pmaBitmapRegion regions with
  | none =>
    -- without room for the bitmap there is a panic
    unfold pmaBitmapRegion at hroom
    unfold pmaInit at hinit
    dsimp only at hinit
    rw [hroom] at hinit
    exact absurd hinit (by simp)
  | some r₀ =>
    obtain ⟨s', free, heq, h, hexact, hclear⟩ := pmaInit_spec hmap hdr hroom
    obtain rfl := Option.some.inj (hinit.symm.trans heq)
    refine ⟨?_, ?_, free, h⟩
    · exact (Nat.div_le_div_right (cmmGetRamTop_le_iff.mpr hmap.below)).trans
        (by norm_num [pageSize])
    · rw [hclear, hexact]
      rintro ⟨r, -, -, hr⟩
      split_ifs at hr
      · exact hr.elim (fun h => h.1 rfl) fun h => h.1 rfl
      · exact hr.1 rfl

/-! ## Exactly the usable pages -/

/-- The pages that `pma_init` hands out, with the bitmap at the start of `r₀`: those of the usable
regions, except page 0 and the pages reserved for the bitmap. -/
def UsablePage (regions : List CmmRegion) (r₀ : CmmRegion) (p : ℕ) : Prop :=
  p ≠ 0 ∧
    (∃ r ∈ regions, r.type = .usable ∧ r.base ≤ p * pageSize ∧ p * pageSize < r.limit) ∧
    ¬(r₀.base ≤ p * pageSize ∧
      p * pageSize < r₀.base + pmaBitmapReserved (cmmGetRamTop regions / pageSize))

/-- The block at an address has the page. -/
def BlockHas (s : Pma) (a p : ℕ) : Prop :=
  a ≤ p * pageSize ∧ p * pageSize < a + (s.hdr a).blockSize

/-- Usable regions do not overlap. -/
lemma UsableMap.apart (hmap : UsableMap regions) {r r' : CmmRegion} (hr : r ∈ regions)
    (hr' : r' ∈ regions) (hu : r.type = .usable) (hu' : r'.type = .usable) :
    r = r' ∨ r.limit ≤ r'.base ∨ r'.limit ≤ r.base := by
  by_cases heq : r = r'
  · exact .inl heq
  · have hsymm : Std.Symm fun r r' : CmmRegion => r.type = .usable → r'.type = .usable →
        r.limit ≤ r'.base ∨ r'.limit ≤ r.base := ⟨fun _ _ h hu hu' => (h hu' hu).symm⟩
    have hsorted : regions.Pairwise fun r r' => r.type = .usable → r'.type = .usable →
        r.limit ≤ r'.base ∨ r'.limit ≤ r.base := hmap.sorted.imp fun h hu hu' => .inl (h hu hu')
    exact .inr (hsorted.forall hr hr' heq hu hu')

/-- What the regions add, if the ends of the usable ones are page aligned. -/
lemma exists_regionAdds_iff_of_usable {r₀ : CmmRegion} {p : ℕ} (hmap : UsableMap regions)
    (haligned : ∀ r ∈ regions, r.type = .usable → pageSize ∣ r.base ∧ pageSize ∣ r.length)
    (hroom : pmaBitmapRegion regions = some r₀) :
    (∃ r ∈ regions,
      RegionAdds r₀.base (pmaBitmapReserved (cmmGetRamTop regions / pageSize)) r p) ↔
        UsablePage regions r₀ p := by
  have hr₀ := List.mem_of_find?_eq_some hroom
  obtain ⟨hu₀, hlen⟩ : r₀.type = .usable ∧
      pmaBitmapReserved (cmmGetRamTop regions / pageSize) ≤ r₀.length := by
    simpa using List.find?_some hroom
  have hreserved : pageSize ∣ pmaBitmapReserved (cmmGetRamTop regions / pageSize) :=
    Dvd.intro_left _ rfl
  unfold UsablePage
  generalize pmaBitmapReserved (cmmGetRamTop regions / pageSize) = reserved at hlen hreserved ⊢
  -- a region adds its pages, but for those of the bitmap
  have hadds : ∀ r ∈ regions, RegionAdds r₀.base reserved r p ↔ r.type = .usable ∧ p ≠ 0 ∧
      (r.base ≤ p * pageSize ∧ p * pageSize < r.limit) ∧
        ¬(r₀.base ≤ p * pageSize ∧ p * pageSize < r₀.base + reserved) := by
    intro r hr
    unfold RegionAdds
    refine and_congr_right fun hu => ?_
    have hapart := hmap.apart hr hr₀ hu hu₀
    obtain ⟨⟨b, hb⟩, ⟨n, hn⟩⟩ := haligned r hr hu
    obtain ⟨⟨b₀, hb₀⟩, -⟩ := haligned r₀ hr₀ hu₀
    obtain ⟨m, rfl⟩ := hreserved
    by_cases hcontains : r.base ≤ r₀.base ∧ r₀.base < r.limit
    · rw [if_pos hcontains]
      simp only [PageIn, CmmRegion.limit, pageSize] at *
      rcases hapart with rfl | hbefore | hbehind <;> omega
    · rw [if_neg hcontains]
      simp only [PageIn, CmmRegion.limit, pageSize] at *
      rcases hapart with rfl | hbefore | hbehind <;> omega
  constructor
  · rintro ⟨r, hr, h⟩
    obtain ⟨hu, hp, hin, hout⟩ := (hadds r hr).mp h
    exact ⟨hp, ⟨r, hr, hu, hin⟩, hout⟩
  · rintro ⟨hp, ⟨r, hr, hu, hin⟩, hout⟩
    exact ⟨r, hr, (hadds r hr).mpr ⟨hu, hp, hin, hout⟩⟩

/-- What the regions add, if all ends are page aligned. -/
lemma exists_regionAdds_iff {r₀ : CmmRegion} {p : ℕ} (hmap : UsableMap regions)
    (haligned : ∀ r ∈ regions, pageSize ∣ r.base ∧ pageSize ∣ r.length)
    (hroom : pmaBitmapRegion regions = some r₀) :
    (∃ r ∈ regions,
      RegionAdds r₀.base (pmaBitmapReserved (cmmGetRamTop regions / pageSize)) r p) ↔
        UsablePage regions r₀ p :=
  exists_regionAdds_iff_of_usable hmap (fun r hr _ => haligned r hr) hroom

/-- **`pma_init` hands out exactly the usable pages.**  On a map of page aligned regions with room
for the bitmap, it marks these and no others as free, puts each on one block, of the zone of its
side of 4 GiB, and its blocks have no other pages. -/
theorem pmaInit_exact (regions : List CmmRegion) (hdr : ℕ → PmaFreeBlock)
    (hmap : UsableMap regions)
    (haligned : ∀ r ∈ regions, pageSize ∣ r.base ∧ pageSize ∣ r.length)
    (hroom : ∃ r ∈ regions, r.type = .usable ∧
      pmaBitmapReserved (cmmGetRamTop regions / pageSize) ≤ r.length) :
    ∃ s r₀, pmaInit regions hdr = some s ∧ pmaBitmapRegion regions = some r₀ ∧
      (∀ p, s.bitmap p = false ↔ UsablePage regions r₀ p) ∧
      (∀ p, UsablePage regions r₀ p →
        (∃! x : PmaZoneId × ℕ, OnFreeList s x.1 x.2 ∧ BlockHas s x.2 p) ∧
          ∀ z a, OnFreeList s z a → BlockHas s a p → z = pmaZoneOf (p * pageSize)) ∧
      ∀ z a, OnFreeList s z a → (pageSize ∣ a ∧ pageSize ∣ (s.hdr a).blockSize) ∧
        ∀ p, BlockHas s a p → UsablePage regions r₀ p := by
  obtain ⟨r₀, hr₀⟩ : ∃ r₀, pmaBitmapRegion regions = some r₀ := by
    obtain ⟨r, hr, husable, hlen⟩ := hroom
    refine Option.isSome_iff_exists.mp (List.find?_isSome.mpr ⟨r, hr, ?_⟩)
    simp [husable, hlen]
  obtain ⟨s, free, heq, h, hexact, hclear⟩ := pmaInit_spec hmap hdr hr₀
  have husable : ∀ p, (∃ x ∈ free, p ∈ x.2) ↔ UsablePage regions r₀ p := fun p =>
    (hexact p).trans (exists_regionAdds_iff hmap haligned hr₀)
  -- the blocks on the lists are the pieces
  have hpiece : ∀ z a, OnFreeList s z a → ∃ b, (z, b) ∈ free ∧ a = b.start * pageSize ∧
      (s.hdr a).blockSize = b.size * pageSize := fun z a ha =>
    (h.holds.onFreeList_iff rfl).mp ha
  have hhas : ∀ {b : Piece} {p : ℕ}, (s.hdr (b.start * pageSize)).blockSize = b.size * pageSize →
      (BlockHas s (b.start * pageSize) p ↔ p ∈ b) := by
    intro b p hb
    rw [BlockHas, hb, ← Nat.add_mul, Nat.mul_le_mul_right_iff pageSize_pos,
      Nat.mul_lt_mul_right pageSize_pos, mem_iff]
  refine ⟨s, r₀, heq, hr₀, fun p => (hclear p).trans (husable p), fun p hp => ⟨?_, ?_⟩, ?_⟩
  · obtain ⟨⟨z, b⟩, hb, hpb⟩ := (husable p).mpr hp
    have hsize := h.holds.blockSize_eq hb
    refine ⟨(z, b.start * pageSize), ⟨(h.holds.onFreeList_iff rfl).mpr ⟨b, hb, rfl, hsize⟩,
      (hhas hsize).mpr hpb⟩, ?_⟩
    rintro ⟨z', a⟩ ⟨ha, hpa⟩
    obtain ⟨b', hb', rfl, hsize'⟩ := hpiece z' a ha
    have hpb' := (hhas hsize').mp hpa
    -- two pieces with the same page
    obtain rfl : z' = z :=
      (pmaZoneOf_eq (h.zoned _ hb') hpb').symm.trans (pmaZoneOf_eq (h.zoned _ hb) hpb)
    have hmem : ∀ {b}, (z', b) ∈ free → b ∈ [] ++ free.map Prod.snd ++ [] := fun hb => by
      rw [List.nil_append, List.append_nil]
      exact List.mem_map_of_mem hb
    obtain rfl := h.packed.eq_of_mem (hmem hb') (hmem hb) hpb' hpb
    rfl
  · intro z a ha hpa
    obtain ⟨b, hb, rfl, hsize⟩ := hpiece z a ha
    exact (pmaZoneOf_eq (h.zoned _ hb) ((hhas hsize).mp hpa)).symm
  · intro z a ha
    obtain ⟨b, hb, rfl, hsize⟩ := hpiece z a ha
    have hpage : ∀ n, pageSize ∣ n * pageSize := fun n => Dvd.intro_left n rfl
    have hdvd : pageSize ∣ (s.hdr (b.start * pageSize)).blockSize := by
      rw [hsize]
      exact hpage b.size
    refine ⟨⟨hpage b.start, hdvd⟩, fun p hp => (husable p).mp ⟨(z, b), hb, ?_⟩⟩
    exact (hhas hsize).mp hp

/-- A map with usable memory on both sides of 4 GiB. -/
def straddlingMap : List CmmRegion :=
  [⟨1, 0x100000, 64 * 4096, .usable⟩, ⟨2, 0x100000000 - 2 * 4096, 4 * 4096, .usable⟩]

/-- Headers at boot. -/
def zeroHdr : ℕ → PmaFreeBlock := fun _ => ⟨0, 0, 0⟩

lemma usableMap_straddlingMap : UsableMap straddlingMap := by decide

/-- A map with usable pages on both sides of 4 GiB. -/
theorem pmaInit_exact_straddlingMap : ∃ s r₀, pmaInit straddlingMap zeroHdr = some s ∧
    pmaBitmapRegion straddlingMap = some r₀ ∧
      (∀ p, s.bitmap p = false ↔ UsablePage straddlingMap r₀ p) ∧
      (∀ p, UsablePage straddlingMap r₀ p →
        (∃! x : PmaZoneId × ℕ, OnFreeList s x.1 x.2 ∧ BlockHas s x.2 p) ∧
          ∀ z a, OnFreeList s z a → BlockHas s a p → z = pmaZoneOf (p * pageSize)) ∧
      ∀ z a, OnFreeList s z a → (pageSize ∣ a ∧ pageSize ∣ (s.hdr a).blockSize) ∧
        ∀ p, BlockHas s a p → UsablePage straddlingMap r₀ p :=
  pmaInit_exact straddlingMap zeroHdr usableMap_straddlingMap (by decide) (by decide +kernel)

end Cuore
