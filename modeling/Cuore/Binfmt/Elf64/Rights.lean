import Cuore.Binfmt.Elf64.Image

/-!
# The pages and rights of a loaded program

When `elf64_parse` accepts a file, a page of the lower half should be mapped exactly if a segment
has a byte in it, writable exactly if one of these segments asks for it, and not executable exactly
if none of them asks for it.

This holds for images on which the loops do what they were written for (`ExactImage`).  A segment
that is not empty lies in the lower half, and the loops visit no page that a segment has no byte in.
For that a segment has to begin on a 2 MiB boundary or to reach one: otherwise the tail loop, which
starts at the last 2 MiB boundary, maps pages in front of the segment and merges its rights into
those of its neighbours there (`exactSegment_of_reaches`).  And no 2 MiB page of one segment holds
pages of another, for which the merging of flags reads no entry.
-/

namespace Cuore

variable {pages pages2mb : ℕ → ℕ} {levels top : ℕ} {inUse : Set ℕ} {s₀ s s' : PhysState}
  {file : Memory} {fileData fileSize : ℕ} {user : Bool} {ph : Elf64Phdr} {phs done : List Elf64Phdr}

/-! ## The loops -/

/-- A 4 KiB loop over pages that are not part of a 2 MiB page. -/
lemma Loading.smallLoop_merges (hs : LoadSetting pages pages2mb levels top inUse s₀)
    (h : Loading pages pages2mb levels top s₀ s) {start stop flags : ℕ}
    (hflags : SegmentFlags flags) (hstart : pageSize ∣ start) (hstop : pageSize ∣ stop)
    (hle : stop ≤ lowerHalf levels)
    (hfree : ∀ v, start ≤ v → v < stop → HugeFree s.mem v (levels - 1) top)
    (hrun : Step.forAddr start stop pageSize (Cuore.mapSmall pages levels top flags) s =
      some (true, s')) :
    Loading pages pages2mb levels top s₀ s' ∧
      (∀ v < lowerHalf levels, v < start ∨ stop ≤ v →
        lookup levels top s'.mem v = lookup levels top s.mem v) ∧
      (∀ v, start ≤ v → v < stop →
        MergedWith flags (lookup levels top s.mem v) (lookup levels top s'.mem v)) ∧
      ∀ v < lowerHalf levels, HugeFree s.mem v (levels - 1) top →
        HugeFree s'.mem v (levels - 1) top := by
  -- the pages from `addr` on are still to be visited
  have hres := Step.forAddr_invariant (fun addr s' => Loading pages pages2mb levels top s₀ s' ∧
    (∀ v < lowerHalf levels, v < start ∨ addr ≤ v →
      lookup levels top s'.mem v = lookup levels top s.mem v) ∧
    (∀ v, start ≤ v → v < addr → v < stop →
      MergedWith flags (lookup levels top s.mem v) (lookup levels top s'.mem v)) ∧
    ∀ v < lowerHalf levels, HugeFree s.mem v (levels - 1) top →
      HugeFree s'.mem v (levels - 1) top) hstart hstop ?_
    ⟨h, fun _ _ _ => rfl, fun v h1 h2 _ => absurd h2 (not_lt.mpr h1), fun _ _ h => h⟩ hrun
  · obtain ⟨hload, hout, hin, hhuge⟩ := hres
    exact ⟨hload, fun v hv hv' => hout v hv (by omega), fun v h1 h2 => hin v h1 (by omega) h2,
      hhuge⟩
  rintro addr hal h1 h2 s₁ s₂ ⟨hload, hout, hin, hhuge⟩ hbody
  have hps : 0 < pageSize := by decide
  have haddr : addr < lowerHalf levels := by omega
  obtain ⟨hload', hsmall⟩ := hload.mapSmall hs haddr hal hflags hbody
  have hdiv : ∀ v, v / pageSize = addr / pageSize ↔ addr ≤ v ∧ v < addr + pageSize := fun v =>
    div_eq_div_iff_of_dvd hps hal
  have hoff : ∀ v < lowerHalf levels, ¬(addr ≤ v ∧ v < addr + pageSize) →
      lookup levels top s₂.mem v = lookup levels top s₁.mem v := fun v hv hne =>
    hsmall.off v hv fun heq => hne ((hdiv v).mp heq)
  refine ⟨hload', fun v hv hv' => ?_, fun v hv1 hv2 hv3 => ?_, fun v hv hf =>
    hsmall.hugeFree v hv (hhuge v hv hf)⟩
  · rw [hoff v hv (by omega), hout v hv (by omega)]
  · by_cases hpage : addr ≤ v
    · have hmerge := hsmall.on (hhuge addr haddr (hfree addr h1 (by omega))) v (by omega)
        ((hdiv v).mpr ⟨hpage, hv2⟩)
      rwa [hout v (by omega) (.inr hpage)] at hmerge
    · rw [hoff v (by omega) (by omega)]
      exact hin v hv1 (by omega) hv3

/-- The 2 MiB loop over a range where nothing is mapped. -/
lemma Loading.hugeLoop_merges (hs : LoadSetting pages pages2mb levels top inUse s₀)
    (h : Loading pages pages2mb levels top s₀ s) {start stop flags : ℕ}
    (hflags : SegmentFlags flags) (hstart : pageSize2mb ∣ start) (hstop : pageSize2mb ∣ stop)
    (hle : stop ≤ lowerHalf levels)
    (hnone : ∀ v, start ≤ v → v < stop → lookup levels top s.mem v = none)
    (hrun : Step.forAddr start stop pageSize2mb (Cuore.mapHuge pages pages2mb levels top flags) s =
      some (true, s')) :
    Loading pages pages2mb levels top s₀ s' ∧
      (∀ v < lowerHalf levels, v < start ∨ stop ≤ v →
        lookup levels top s'.mem v = lookup levels top s.mem v) ∧
      (∀ v, start ≤ v → v < stop →
        MergedWith flags (lookup levels top s.mem v) (lookup levels top s'.mem v)) ∧
      ∀ v < lowerHalf levels, v < start ∨ stop ≤ v → HugeFree s.mem v (levels - 1) top →
        HugeFree s'.mem v (levels - 1) top := by
  have hres := Step.forAddr_invariant (fun addr s' => Loading pages pages2mb levels top s₀ s' ∧
    (∀ v < lowerHalf levels, v < start ∨ addr ≤ v →
      lookup levels top s'.mem v = lookup levels top s.mem v) ∧
    (∀ v, start ≤ v → v < addr → v < stop →
      MergedWith flags (lookup levels top s.mem v) (lookup levels top s'.mem v)) ∧
    ∀ v < lowerHalf levels, v < start ∨ addr ≤ v → HugeFree s.mem v (levels - 1) top →
      HugeFree s'.mem v (levels - 1) top) hstart hstop ?_
    ⟨h, fun _ _ _ => rfl, fun v h1 h2 _ => absurd h2 (not_lt.mpr h1), fun _ _ _ h => h⟩ hrun
  · obtain ⟨hload, hout, hin, hhuge⟩ := hres
    exact ⟨hload, fun v hv hv' => hout v hv (by omega), fun v h1 h2 => hin v h1 (by omega) h2,
      fun v hv hv' => hhuge v hv (by omega)⟩
  rintro addr hal h1 h2 s₁ s₂ ⟨hload, hout, hin, hhuge⟩ hbody
  have hps : 0 < pageSize2mb := by decide
  have haddr : addr < lowerHalf levels := by omega
  have hnone₁ : lookup levels top s₁.mem addr = none := by
    rw [hout addr haddr (.inr le_rfl)]
    exact hnone addr h1 (by omega)
  obtain ⟨hload', hfresh, -⟩ := hload.mapHuge hs haddr hal hflags hnone₁ hbody
  have hdiv : ∀ v, v / PageKind.page2mb.size = addr / PageKind.page2mb.size ↔
      addr ≤ v ∧ v < addr + pageSize2mb := fun v => div_eq_div_iff_of_dvd hps hal
  have hoff : ∀ v < lowerHalf levels, ¬(addr ≤ v ∧ v < addr + pageSize2mb) →
      lookup levels top s₂.mem v = lookup levels top s₁.mem v := fun v hv hne =>
    hfresh.off v hv fun heq => hne ((hdiv v).mp heq)
  refine ⟨hload', fun v hv hv' => ?_, fun v hv1 hv2 hv3 => ?_, fun v hv hv' hf => ?_⟩
  · rw [hoff v hv (by omega), hout v hv (by omega)]
  · by_cases hpage : addr ≤ v
    · rw [hnone v hv1 hv3]
      rcases hfresh.on with hsame | hnew
      · rw [hsame v (by omega), hout v (by omega) (.inr hpage), hnone v hv1 hv3]
        exact .inl rfl
      · exact .inr (hnew v (by omega) ((hdiv v).mpr ⟨hpage, hv2⟩))
    · rw [hoff v (by omega) (by omega)]
      exact hin v hv1 (by omega) hv3
  · refine hfresh.hugeFree v hv (.inr fun heq => ?_) (hhuge v hv (by omega) hf)
    have := (hdiv v).mp heq
    omega

/-! ## One segment -/

/-- The loops visit the pages of the segment and no others. -/
structure ExactSegment (levels : ℕ) (ph : Elf64Phdr) : Prop where
  lower : 0 < max ph.pMemsz ph.pFilesz →
    ph.pVaddr + max ph.pMemsz ph.pFilesz ≤ lowerHalf levels
  visits : ∀ v, ph.SmallPart v ∨ ph.HugePart v → ph.Meets v

lemma Elf64Phdr.bounds_of_lower (hlev : levels = 4 ∨ levels = 5)
    (hlow : ph.pVaddr + max ph.pMemsz ph.pFilesz ≤ lowerHalf levels) : ph.Bounds levels :=
  Elf64Phdr.bounds hlev (by rw [Elf64Phdr.InLowerHalf]; omega)

/-- Such a segment begins on a 2 MiB boundary or reaches one. -/
lemma ExactSegment.reaches (h : ExactSegment levels ph) (hb : ph.Bounds levels) :
    ph.segStart ≤ ph.hugeEnd := by
  have ⟨d1, b1, b2, d2, b3, b4, _, _, _, _, d4, b7, b8⟩ := hb
  by_contra hfront
  -- the tail loop starts in front of the segment
  obtain ⟨j, -, heq⟩ := h.visits ph.hugeEnd (.inl (.inr ⟨le_rfl, by omega⟩))
  simp only [pageSize] at heq
  omega

/-- Such a segment is empty only at a page boundary. -/
lemma ExactSegment.dvd_of_empty (h : ExactSegment levels ph) (hb : ph.Bounds levels)
    (hempty : ph.pMemsz = 0) : pageSize ∣ ph.pVaddr := by
  have hreach := h.reaches hb
  have ⟨d1, b1, b2, d2, b3, b4, _, _, b5, _, _, _, _⟩ := hb
  have hno : ¬(ph.SmallPart ph.segStart ∨ ph.HugePart ph.segStart) := fun hv => by
    obtain ⟨j, hj, -⟩ := h.visits _ hv
    omega
  simp only [Elf64Phdr.SmallPart, Elf64Phdr.HugePart, lt_min_iff] at hno
  simp only [pageSize]
  omega

lemma ExactSegment.meets_iff (h : ExactSegment levels ph) (hb : ph.Bounds levels) {v : ℕ} :
    ph.Meets v ↔ ph.segStart ≤ v ∧ v < ph.segEnd := by
  have ⟨d1, b1, b2, d2, b3, b4, _, _, _, _, _, _, _⟩ := hb
  constructor
  · rintro ⟨j, hj, heq⟩
    simp only [pageSize] at heq
    omega
  · rintro ⟨h1, h2⟩
    refine hb.meets (Nat.pos_of_ne_zero fun h0 => ?_) h1 h2
    have := h.dvd_of_empty hb h0
    simp only [pageSize] at this
    omega

/-- A segment of the lower half that begins on a 2 MiB boundary or reaches one, and is empty only at
a page boundary. -/
lemma exactSegment_of_reaches (hlev : levels = 4 ∨ levels = 5)
    (hlow : ph.pVaddr + max ph.pMemsz ph.pFilesz ≤ lowerHalf levels)
    (hreach : ph.segStart ≤ ph.hugeEnd) (hempty : ph.pMemsz = 0 → pageSize ∣ ph.pVaddr) :
    ExactSegment levels ph := by
  have hb := Elf64Phdr.bounds_of_lower hlev hlow
  have ⟨d1, b1, b2, d2, b3, b4, _, d3, b5, b6, d4, b7, b8⟩ := hb
  refine ⟨fun _ => hlow, fun v hv => ?_⟩
  simp only [Elf64Phdr.SmallPart, Elf64Phdr.HugePart, lt_min_iff] at hv
  refine hb.meets (Nat.pos_of_ne_zero fun h0 => ?_) (by omega) (by omega)
  have := hempty h0
  simp only [pageSize] at this
  omega

lemma Step.forAddr_of_le {start stop step : ℕ} {body : ℕ → Step} (h : stop ≤ start) :
    Step.forAddr start stop step body = Step.skip := by
  rw [Step.forAddr, Nat.sub_eq_zero_of_le h, Nat.zero_div]
  rfl

/-- A segment without a byte leaves everything as it is, wherever it lies. -/
lemma ExactSegment.loadSegment_of_empty (h : ExactSegment levels ph)
    (hempty : max ph.pMemsz ph.pFilesz = 0)
    (hrun : loadSegment pages pages2mb levels top file fileData fileSize user ph s =
      some (true, s')) : s' = s := by
  have hmem : ph.pMemsz = 0 := by omega
  have hfile : ph.pFilesz = 0 := by omega
  have hno : ∀ v, ¬(ph.SmallPart v ∨ ph.HugePart v) := fun v hv => by
    obtain ⟨j, hj, -⟩ := h.visits v hv
    omega
  have hhead : min ph.hugeStart ph.segEnd ≤ ph.segStart :=
    not_lt.mp fun hlt => hno _ (.inl (.inl ⟨le_rfl, hlt⟩))
  have hmiddle : ph.hugeEnd ≤ ph.hugeStart := not_lt.mp fun hlt => hno _ (.inr ⟨le_rfl, hlt⟩)
  have htail : ph.segEnd ≤ ph.hugeEnd := not_lt.mp fun hlt => hno _ (.inl (.inr ⟨le_rfl, hlt⟩))
  rcases loadSegment_eq_some hrun with ⟨-, rfl⟩ | ⟨-, s₁, hmap, hfill⟩
  · rfl
  rw [Cuore.mapSegment, Step.forAddr_of_le hhead, Step.forAddr_of_le hmiddle,
    Step.forAddr_of_le htail] at hmap
  rw [Cuore.fillSegment, hmem, hfile, if_neg (lt_irrefl 0)] at hfill
  have hsame : ∀ {t t' : PhysState}, (Step.skip.seq (Step.skip.seq Step.skip)) t = some (true, t') →
      t' = t := fun ht => (Prod.mk.inj (Option.some.inj ht)).2.symm
  have hsame' : ∀ {t t' : PhysState}, (Step.skip.seq Step.skip) t = some (true, t') → t' = t :=
    fun ht => (Prod.mk.inj (Option.some.inj ht)).2.symm
  exact (hsame' hfill).trans (hsame hmap)

/-- What the mapping loops of such a segment do. -/
lemma Loading.mapSegment_merges (hs : LoadSetting pages pages2mb levels top inUse s₀)
    (h : Loading pages pages2mb levels top s₀ s) (hexact : ExactSegment levels ph)
    (hb : ph.Bounds levels)
    (hfree : ∀ v < lowerHalf levels, ph.Meets v → ¬ph.HugePart v →
      HugeFree s.mem v (levels - 1) top)
    (hnone : ∀ v, ph.HugePart v → lookup levels top s.mem v = none)
    (hrun : Cuore.mapSegment pages pages2mb levels top user ph s = some (true, s')) :
    Loading pages pages2mb levels top s₀ s' ∧
      (∀ v < lowerHalf levels, ¬ph.Meets v →
        lookup levels top s'.mem v = lookup levels top s.mem v) ∧
      (∀ v, ph.Meets v → MergedWith (ph.pteFlags user) (lookup levels top s.mem v)
        (lookup levels top s'.mem v)) ∧
      ∀ v < lowerHalf levels, ¬ph.HugePart v → HugeFree s.mem v (levels - 1) top →
        HugeFree s'.mem v (levels - 1) top := by
  obtain ⟨s₁, hhead, hrun⟩ := Step.seq_eq_some hrun
  obtain ⟨s₂, hhuge, htail⟩ := Step.seq_eq_some hrun
  have hflags := segmentFlags_pteFlags user ph
  -- the three ranges lie side by side
  have hord : ph.hugeStart ≤ ph.hugeEnd := by
    have h1 := hb.hugeStart_lt
    have h2 := hb.hugeStart_dvd
    have h3 := hb.hugeEnd_dvd
    have h4 := hexact.reaches hb
    omega
  have b5 := hb.le_hugeStart
  have b7 := hb.hugeEnd_le
  have e5 := hb.end_le
  rw [min_eq_left (hord.trans b7)] at hhead
  have hmeets : ∀ v, ph.Meets v ↔ ph.segStart ≤ v ∧ v < ph.segEnd := fun v => hexact.meets_iff hb
  simp only [hmeets, Elf64Phdr.HugePart] at hfree hnone ⊢
  have d3 := pageSize_dvd_pageSize2mb.trans hb.hugeStart_dvd
  have d4 := pageSize_dvd_pageSize2mb.trans hb.hugeEnd_dvd
  obtain ⟨h₁, hout₁, hin₁, hfree₁⟩ := h.smallLoop_merges hs hflags hb.start_dvd d3 (by omega)
    (fun v hv hv' => hfree v (by omega) (by omega) (by omega)) hhead
  obtain ⟨h₂, hout₂, hin₂, hfree₂⟩ := h₁.hugeLoop_merges hs hflags hb.hugeStart_dvd hb.hugeEnd_dvd
    (by omega) (fun v hv hv' => by rw [hout₁ v (by omega) (by omega), hnone v ⟨hv, hv'⟩]) hhuge
  obtain ⟨h₃, hout₃, hin₃, hfree₃⟩ := h₂.smallLoop_merges hs hflags d4 hb.end_dvd e5
    (fun v hv hv' => hfree₂ v (by omega) (by omega) (hfree₁ v (by omega)
      (hfree v (by omega) (by omega) (by omega)))) htail
  refine ⟨h₃, fun v hv hv' => ?_, fun v hv => ?_, fun v hv hv' hf => ?_⟩
  · rw [hout₃ v hv (by omega), hout₂ v hv (by omega), hout₁ v hv (by omega)]
  · by_cases c1 : v < ph.hugeStart
    · rw [hout₃ v (by omega) (by omega), hout₂ v (by omega) (by omega)]
      exact hin₁ v hv.1 c1
    by_cases c2 : v < ph.hugeEnd
    · rw [hout₃ v (by omega) (by omega), ← hout₁ v (by omega) (by omega)]
      exact hin₂ v (by omega) c2
    · rw [← hout₁ v (by omega) (by omega), ← hout₂ v (by omega) (by omega)]
      exact hin₃ v (by omega) hv.2
  · exact hfree₃ v hv (hfree₂ v hv (by omega) (hfree₁ v hv hf))

/-- Filling leaves the mappings alone, and goes on only if the whole segment is mapped. -/
lemma Loading.fillSegment_mapped (hs : LoadSetting pages pages2mb levels top inUse s₀)
    (h : Loading pages pages2mb levels top s₀ s)
    (hlow : ph.pVaddr + max ph.pMemsz ph.pFilesz ≤ lowerHalf levels)
    (hrun : Cuore.fillSegment levels top file fileData ph s = some (true, s')) :
    Loading pages pages2mb levels top s₀ s' ∧
      (∀ v < lowerHalf levels, lookup levels top s'.mem v = lookup levels top s.mem v) ∧
      (∀ v < lowerHalf levels, HugeFree s.mem v (levels - 1) top →
        HugeFree s'.mem v (levels - 1) top) ∧
      ∀ v, ph.Meets v → lookup levels top s.mem v ≠ none := by
  have hbytes : ∀ v, (∀ j < ph.pMemsz, ∃ a, lookup levels top s.mem (ph.pVaddr + j) = some a) →
      ph.Meets v → lookup levels top s.mem v ≠ none := by
    rintro v hall ⟨j, hj, heq⟩ hnone
    obtain ⟨a, ha⟩ := hall j hj
    have hw : pageSize ∣ alignDown pageSize v := dvd_alignDown _ _
    have hpage : v / pageSize = alignDown pageSize v / pageSize := by
      rw [alignDown, Nat.mul_div_cancel _ (by decide)]
    rw [lookup_same_page hw hpage, Option.map_eq_none_iff] at hnone
    rw [lookup_same_page hw (heq.trans hpage), hnone] at ha
    exact absurd ha (by simp)
  by_cases hsize : ph.pFilesz ≤ ph.pMemsz
  · obtain ⟨h₁, hfill⟩ := h.fillSegment hs (by rw [Elf64Phdr.InLowerHalf]; omega) hsize hrun
    refine ⟨h₁, hfill.lookup_eq, hfill.hugeFree, fun v => hbytes v fun j hj => ?_⟩
    obtain ⟨a, ha, -⟩ := hfill.bytes j hj
    exact ⟨a, ha⟩
  · obtain ⟨s₁, hcopy, hbss⟩ := Step.seq_eq_some hrun
    rw [if_neg (by omega)] at hbss
    simp only [Step.skip, Option.some.injEq, Prod.mk.injEq, true_and] at hbss
    subst hbss
    obtain ⟨h₁, hfill⟩ := h.copyLoop hs le_rfl (by omega) (wadd_lt _ _) hcopy
    refine ⟨h₁, hfill.lookup_eq, hfill.hugeFree, fun v => hbytes v fun j hj => ?_⟩
    obtain ⟨a, ha, -⟩ := hfill.bytes j (by omega)
    exact ⟨a, ha⟩

/-! ## Rights -/

/-- A segment has a byte in the page of `v`. -/
def Occupied (phs : List Elf64Phdr) (v : ℕ) : Prop := ∃ ph ∈ phs, ph.pType = ptLoad ∧ ph.Meets v

/-- The rights are those that the segments with a byte in the page of `v` ask for. -/
structure PageRights (phs : List Elf64Phdr) (v rights : ℕ) : Prop where
  writable : rights &&& pteWritable ≠ 0 ↔
    ∃ ph ∈ phs, ph.pType = ptLoad ∧ ph.Meets v ∧ ph.pFlags &&& pfW ≠ 0
  nx : rights &&& pteNx ≠ 0 ↔
    ∀ ph ∈ phs, ph.pType = ptLoad → ph.Meets v → ph.pFlags &&& pfX = 0

lemma testBit_pteFlags (user : Bool) (ph : Elf64Phdr) :
    ((ph.pteFlags user).testBit 1 = true ↔ ph.pFlags &&& pfW ≠ 0) ∧
      ((ph.pteFlags user).testBit 63 = true ↔ ph.pFlags &&& pfX = 0) := by
  have h0 : ∀ i, ptePresent.testBit i = decide (0 = i) := fun i => Nat.testBit_two_pow
  have h1 : ∀ i, pteWritable.testBit i = decide (1 = i) := fun i => Nat.testBit_two_pow
  have h2 : ∀ i, pteUser.testBit i = decide (2 = i) := fun i => Nat.testBit_two_pow
  have h63 : ∀ i, pteNx.testBit i = decide (63 = i) := fun i => Nat.testBit_two_pow
  rw [Elf64Phdr.pteFlags]
  split_ifs with hu hw hx hx hw hx hx
  all_goals simp only [Nat.testBit_or, h0, h1, h2, h63]
  all_goals grind

lemma hwWalk_rights_lt {m : Memory} {v l t : ℕ} {a : Mapping} (h : hwWalk m v l t = some a) :
    a.rights < word := by
  have hleaf : ∀ e k, (leafMapping e k v).rights < word := fun e k =>
    (attributeFlags_hwRights e).lt
  induction l generalizing t with
  | zero =>
    rw [hwWalk] at h
    split_ifs at h
    exact Option.some.inj h ▸ hleaf _ _
  | succ l ih =>
    rw [hwWalk] at h
    split_ifs at h
    · exact Option.some.inj h ▸ hleaf _ _
    · exact ih h

section Merge

variable {v : ℕ} {a b : Option Mapping}

/-- A page that no segment covered gets the rights of the segment, and one that was covered gets
them merged. -/
lemma PageRights.merge (hload : ph.pType = ptLoad) (hmeets : ph.Meets v)
    (hmerge : MergedWith (ph.pteFlags user) a b) (hcover : a = none → ¬Occupied done v)
    (hold : ∀ x, a = some x → x.rights < word ∧ PageRights done v x.rights) {y : Mapping}
    (hy : b = some y) : PageRights (done ++ [ph]) v y.rights := by
  obtain ⟨hw, hx⟩ := testBit_pteFlags user ph
  have hw' : ∀ e, hwRights e &&& pteWritable ≠ 0 ↔ e.testBit 1 = true := fun e => by
    rw [pteWritable, and_two_pow_ne_zero, testBit_hwRights]
    simp
  have hx' : ∀ e, hwRights e &&& pteNx ≠ 0 ↔ e.testBit 63 = true := fun e => by
    rw [pteNx, and_two_pow_ne_zero, testBit_hwRights]
    simp
  cases a with
  | none =>
    have hno : ∀ p ∈ done, p.pType = ptLoad → ¬p.Meets v := fun p hp hl hm =>
      hcover rfl ⟨p, hp, hl, hm⟩
    obtain ⟨p, hp⟩ := hmerge.resolve_left (by rw [hy]; simp)
    obtain rfl : ⟨p, hwRights (ph.pteFlags user)⟩ = y := Option.some.inj (hp.symm.trans hy)
    constructor
    · rw [hw', hw]
      refine ⟨fun h => ⟨ph, by simp, hload, hmeets, h⟩, ?_⟩
      rintro ⟨p, hp, hl, hm, h⟩
      rcases List.mem_append.mp hp with hp | hp
      · exact absurd hm (hno p hp hl)
      · exact List.mem_singleton.mp hp ▸ h
    · rw [hx', hx]
      refine ⟨fun h p hp hl hm => ?_, fun h => h ph (by simp) hload hmeets⟩
      rcases List.mem_append.mp hp with hp | hp
      · exact absurd hm (hno p hp hl)
      · exact List.mem_singleton.mp hp ▸ h
  | some x =>
    obtain ⟨hlt, hr⟩ := hold x rfl
    obtain rfl : ⟨x.phys, hwRights (combineFlags x.rights (ph.pteFlags user))⟩ = y :=
      Option.some.inj (hmerge.symm.trans hy)
    have hbits := fun i => testBit_combineFlags x.rights (ph.pteFlags user) i hlt
    constructor
    · rw [hw', hbits, if_neg (by decide), if_pos rfl, Bool.or_eq_true, hw, ← and_two_pow_ne_zero]
      rw [show x.rights &&& 2 ^ 1 ≠ 0 ↔ _ from hr.writable]
      constructor
      · rintro (⟨p, hp, h⟩ | h)
        · exact ⟨p, List.mem_append_left _ hp, h⟩
        · exact ⟨ph, by simp, hload, hmeets, h⟩
      · rintro ⟨p, hp, h⟩
        rcases List.mem_append.mp hp with hp | hp
        · exact .inl ⟨p, hp, h⟩
        · exact .inr (List.mem_singleton.mp hp ▸ h.2.2)
    · rw [hx', hbits, if_pos rfl, Bool.and_eq_true, hx, ← and_two_pow_ne_zero]
      rw [show x.rights &&& 2 ^ 63 ≠ 0 ↔ _ from hr.nx]
      constructor
      · rintro ⟨h1, h2⟩ p hp hl hm
        rcases List.mem_append.mp hp with hp | hp
        · exact h1 p hp hl hm
        · exact List.mem_singleton.mp hp ▸ h2
      · exact fun h => ⟨fun p hp => h p (List.mem_append_left _ hp), h ph (by simp) hload hmeets⟩

/-- A segment that is not in the page does not matter. -/
lemma PageRights.append {r : ℕ} (h : PageRights done v r)
    (hno : ph.pType = ptLoad → ¬ph.Meets v) : PageRights (done ++ [ph]) v r := by
  constructor
  · rw [h.writable]
    refine ⟨fun ⟨p, hp, hrest⟩ => ⟨p, List.mem_append_left _ hp, hrest⟩, ?_⟩
    rintro ⟨p, hp, hl, hm, hw⟩
    rcases List.mem_append.mp hp with hp | hp
    · exact ⟨p, hp, hl, hm, hw⟩
    · obtain rfl := List.mem_singleton.mp hp
      exact absurd hm (hno hl)
  · rw [h.nx]
    refine ⟨fun h p hp hl hm => ?_, fun h p hp => h p (List.mem_append_left _ hp)⟩
    rcases List.mem_append.mp hp with hp | hp
    · exact h p hp hl hm
    · obtain rfl := List.mem_singleton.mp hp
      exact absurd hm (hno hl)

end Merge

/-! ## Images -/

/-- The loops visit the pages of every segment and no others, and no 2 MiB page of one segment
holds a page of another. -/
structure ExactImage (levels : ℕ) (phs : List Elf64Phdr) : Prop where
  segment : ∀ ph ∈ phs, ph.pType = ptLoad → ExactSegment levels ph
  apart : phs.Pairwise fun p q => p.pType = ptLoad → q.pType = ptLoad →
    ∀ v, ¬(p.HugePart v ∧ q.Meets v) ∧ ¬(p.Meets v ∧ q.HugePart v)

/-- The invariant of the program header loop, after the headers `done`. -/
structure RightsInv (pages pages2mb : ℕ → ℕ) (levels top : ℕ) (s₀ : PhysState)
    (done : List Elf64Phdr) (s : PhysState) : Prop where
  loading : Loading pages pages2mb levels top s₀ s
  mapped : ∀ v < lowerHalf levels, lookup levels top s.mem v ≠ none ↔ Occupied done v
  rights : ∀ v < lowerHalf levels, ∀ a, lookup levels top s.mem v = some a →
    PageRights done v a.rights
  hugeFree : ∀ v < lowerHalf levels, (∀ p ∈ done, p.pType = ptLoad → ¬p.HugePart v) →
    HugeFree s.mem v (levels - 1) top

/-- **One round of the program header loop.** -/
lemma RightsInv.step (hs : LoadSetting pages pages2mb levels top inUse s₀)
    (h : RightsInv pages pages2mb levels top s₀ done s)
    (hexact : ph.pType = ptLoad → ExactSegment levels ph)
    (hapart : ∀ p ∈ done, p.pType = ptLoad → ph.pType = ptLoad →
      ∀ v, ¬(p.HugePart v ∧ ph.Meets v) ∧ ¬(p.Meets v ∧ ph.HugePart v))
    (hrun : loadSegment pages pages2mb levels top file fileData fileSize user ph s = some (true,
      s')) :
    RightsInv pages pages2mb levels top s₀ (done ++ [ph]) s' := by
  have hcovered : ∀ v, Occupied (done ++ [ph]) v ↔
      Occupied done v ∨ ph.pType = ptLoad ∧ ph.Meets v := by
    intro v
    simp [Occupied, or_and_right, exists_or]
  -- a header that is skipped, and a segment without a byte
  have hskip : (∀ v, ¬(ph.pType = ptLoad ∧ ph.Meets v)) → s' = s →
      RightsInv pages pages2mb levels top s₀ (done ++ [ph]) s' := by
    rintro hno rfl
    refine ⟨h.loading, fun v hv => ?_, fun v hv a ha => ?_, fun v hv hpart => ?_⟩
    · rw [h.mapped v hv, hcovered]
      exact ⟨.inl, fun hc => hc.resolve_right (hno v)⟩
    · exact (h.rights v hv a ha).append fun hl hm => hno v ⟨hl, hm⟩
    · exact h.hugeFree v hv fun p hp => hpart p (List.mem_append_left _ hp)
  rcases loadSegment_eq_some hrun with ⟨htype, rfl⟩ | ⟨htype, s₁, hmapRun, hfillRun⟩
  · exact hskip (fun v hm => htype hm.1) rfl
  have hex := hexact htype
  rcases Nat.eq_zero_or_pos (max ph.pMemsz ph.pFilesz) with hempty | hpos
  · refine hskip (fun v hm => ?_) (hex.loadSegment_of_empty hempty hrun)
    obtain ⟨j, hj, -⟩ := hm.2
    omega
  have hlow := hex.lower hpos
  have hb := Elf64Phdr.bounds_of_lower hs.depth hlow
  have hlower : ∀ v, ph.Meets v → v < lowerHalf levels := fun v hv =>
    lt_of_lt_of_le ((hex.meets_iff hb).mp hv).2 hb.end_le
  -- the segment's own pages are free of huge entries, its huge part is not mapped at all
  have hfree : ∀ v < lowerHalf levels, ph.Meets v → ¬ph.HugePart v →
      HugeFree s.mem v (levels - 1) top := fun v hv hm _ =>
    h.hugeFree v hv fun p hp hl hpart => (hapart p hp hl htype v).1 ⟨hpart, hm⟩
  have hnone : ∀ v, ph.HugePart v → lookup levels top s.mem v = none := by
    intro v hpart
    by_contra hne
    have hm := hb.meets_of_hugePart hpart
    obtain ⟨p, hp, hl, hpm⟩ := (h.mapped v (hlower v hm)).mp hne
    exact (hapart p hp hl htype v).2 ⟨hpm, hpart⟩
  obtain ⟨h₁, hout, hin, hfree₁⟩ := h.loading.mapSegment_merges hs hex hb hfree hnone hmapRun
  obtain ⟨h₂, hsame, hfree₂, hall⟩ := h₁.fillSegment_mapped hs hlow hfillRun
  refine ⟨h₂, fun v hv => ?_, fun v hv a ha => ?_, fun v hv hno => ?_⟩
  · rw [hsame v hv, hcovered]
    by_cases hm : ph.Meets v
    · exact ⟨fun _ => .inr ⟨htype, hm⟩, fun _ => hall v hm⟩
    · rw [hout v hv hm, h.mapped v hv]
      exact ⟨.inl, fun hc => hc.resolve_right fun hm' => hm hm'.2⟩
  · rw [hsame v hv] at ha
    by_cases hm : ph.Meets v
    · refine PageRights.merge htype hm (hin v hm) (fun hn hc => (h.mapped v hv).mpr hc hn)
        (fun x hx => ⟨hwWalk_rights_lt hx, h.rights v hv x hx⟩) ha
    · rw [hout v hv hm] at ha
      exact (h.rights v hv a ha).append fun _ => hm
  · refine hfree₂ v hv (hfree₁ v hv (hno ph (by simp) htype) (h.hugeFree v hv fun p hp => ?_))
    exact hno p (List.mem_append_left _ hp)

/-- The program header loop. -/
lemma RightsInv.run (hs : LoadSetting pages pages2mb levels top inUse s₀)
    (h : RightsInv pages pages2mb levels top s₀ done s) (himage : ExactImage levels (done ++ phs))
    (hrun : loadSegments pages pages2mb levels top file fileData fileSize user phs s =
      some (true, s')) :
    RightsInv pages pages2mb levels top s₀ (done ++ phs) s' := by
  induction phs generalizing done s with
  | nil =>
    simp only [loadSegments, Step.skip, Option.some.injEq, Prod.mk.injEq, true_and] at hrun
    subst hrun
    rwa [List.append_nil]
  | cons ph phs ih =>
    obtain ⟨s₁, hseg, hrest⟩ := Step.seq_eq_some hrun
    have h₁ := h.step hs (himage.segment ph (by simp)) (fun p hp hl hl' =>
      (List.pairwise_append.mp himage.apart).2.2 p hp ph (by simp) hl hl') hseg
    rw [show done ++ ph :: phs = (done ++ [ph]) ++ phs by simp] at himage ⊢
    exact ih h₁ himage hrest

/-- **Loading maps exactly the segments' pages, with exactly their rights.**  When `elf64_parse`
accepts a file whose segments the loops visit exactly, on a table whose lower half was empty, then
an address of the lower half is mapped if and only if a segment has a byte in its page, and its
leaf entry is writable if and only if one of these segments is, and not executable if and only if
none of them is executable. -/
theorem elf64Parse_rights (hs : LoadSetting pages pages2mb levels top inUse s)
    (hempty : ∀ i < 256, (readEntry s.mem top i).testBit 0 = false)
    (himage : ExactImage levels (programHeaders file fileData)) {ret : Elf64ParserRet}
    (hrun : elf64Parse pages pages2mb levels file fileData fileSize top user s = some (ret, s'))
    (hret : ret.status = 1) :
    ∀ v < lowerHalf levels,
      (lookup levels top s'.mem v ≠ none ↔ Occupied (programHeaders file fileData) v) ∧
      ∀ a, lookup levels top s'.mem v = some a →
        PageRights (programHeaders file fileData) v a.rights := by
  obtain ⟨hload, hstart⟩ := loading_start hs hempty
  have hsegs := elf64Parse_eq_some hrun hret
  have h0 : RightsInv pages pages2mb levels top s [] s := by
    refine ⟨hload, fun v hv => ⟨fun hne => absurd (hstart v hv).1 hne, ?_⟩, fun v hv a ha => ?_,
      fun v hv _ => (hstart v hv).2⟩
    · rintro ⟨p, hp, -⟩
      exact absurd hp (by simp)
    · rw [(hstart v hv).1] at ha
      exact absurd ha (by simp)
  have hinv := RightsInv.run hs h0 himage hsegs
  exact fun v hv => ⟨hinv.mapped v hv, hinv.rights v hv⟩

/-- Text and data that share the page at a 2 MiB boundary. -/
def sharedPage : List Elf64Phdr :=
  [⟨1, 5, 0, 0x400000, 0x80, 0x800⟩, ⟨1, 6, 0x40, 0x400800, 0x20, 0x100⟩]

lemma sharedPage_headers :
    programHeaders (elfFile 0x10000 sharedPage) 0x10000 = sharedPage := by decide +kernel

lemma sharedPage_exact : ExactImage 4 sharedPage := by
  have hhuge : ∀ ph ∈ sharedPage, ∀ v, ¬ph.HugePart v := by
    intro ph hph v
    have hbounds : ∀ ph ∈ sharedPage, ph.hugeStart = ph.hugeEnd := by decide
    rw [Elf64Phdr.HugePart, hbounds ph hph]
    omega
  refine ⟨fun ph hph _ => ?_, List.pairwise_of_forall_mem_list fun p hp q hq _ _ v =>
    ⟨fun h => hhuge p hp v h.1, fun h => hhuge q hq v h.2⟩⟩
  have h1 : ∀ ph ∈ sharedPage, ph.pVaddr + max ph.pMemsz ph.pFilesz ≤ lowerHalf 4 ∧
      ph.segStart ≤ ph.hugeEnd ∧ ph.pMemsz ≠ 0 := by decide
  obtain ⟨hlow, hreach, hne⟩ := h1 ph hph
  exact exactSegment_of_reaches (.inl rfl) hlow hreach fun h0 => absurd h0 hne

/-- The shared page is mapped, with the rights of both, and no other page is. -/
theorem sharedPage_rights :
    ∃ ret s', elf64Parse sixPages (fun _ => 0) 4 (elfFile 0x10000 sharedPage) 0x10000 0x1000 0x1000
        true zeroState = some (ret, s') ∧ ret.status = 1 ∧
      ∀ v < lowerHalf 4, (lookup 4 0x1000 s'.mem v ≠ none ↔ Occupied sharedPage v) ∧
        ∀ a, lookup 4 0x1000 s'.mem v = some a → PageRights sharedPage v a.rights := by
  have hstatus : (elf64Parse sixPages (fun _ => 0) 4 (elfFile 0x10000 sharedPage) 0x10000 0x1000
      0x1000 true zeroState).map (fun r => r.1.status) = some 1 := by decide +kernel
  obtain ⟨⟨ret, s'⟩, hrun, hret⟩ := Option.map_eq_some_iff.mp hstatus
  have hpages := elf64Parse_rights textAndData_setting
    (fun i _ => congrArg (fun e => Nat.testBit e 0) (readEntry_zero 0x1000 i))
    (sharedPage_headers.symm ▸ sharedPage_exact) hrun hret
  rw [sharedPage_headers] at hpages
  exact ⟨ret, s', hrun, hret, hpages⟩

/-- In the usual layout, with the data segment behind the text segment in one 2 MiB region, the
tail loop of the data segment makes the text writable. -/
theorem textAndData_writable_text :
    LoadSetting sixPages (fun _ => 0) 4 0x1000 {0x1000} zeroState ∧
      (∀ i < 256, (readEntry zeroState.mem 0x1000 i).testBit 0 = false) ∧
      ∃ ret s', elf64Parse sixPages (fun _ => 0) 4 (elfFile 0x10000 textAndData) 0x10000 0x1000
          0x1000 true zeroState = some (ret, s') ∧ ret.status = 1 ∧
        ¬∀ v < lowerHalf 4, (lookup 4 0x1000 s'.mem v ≠ none ↔
            Occupied (programHeaders (elfFile 0x10000 textAndData) 0x10000) v) ∧
          ∀ a, lookup 4 0x1000 s'.mem v = some a →
            PageRights (programHeaders (elfFile 0x10000 textAndData) 0x10000) v a.rights := by
  have hresult : (elf64Parse sixPages (fun _ => 0) 4 (elfFile 0x10000 textAndData) 0x10000 0x1000
      0x1000 true zeroState).map (fun r => (r.1.status, lookup 4 0x1000 r.2.mem 0x400000)) =
      some (1, some ⟨0x2000, 7⟩) := by decide +kernel
  obtain ⟨⟨ret, s'⟩, hrun, heq⟩ := Option.map_eq_some_iff.mp hresult
  simp only [Prod.mk.injEq] at heq
  refine ⟨textAndData_setting, fun i _ =>
    congrArg (fun e => Nat.testBit e 0) (readEntry_zero 0x1000 i),
    ret, s', hrun, heq.1, fun hall => ?_⟩
  have hrights := (hall 0x400000 (by decide)).2 _ heq.2
  rw [textAndData_headers] at hrights
  obtain ⟨ph, hph, -, ⟨j, hj, hpage⟩, hw⟩ := hrights.writable.mp (by decide)
  simp only [textAndData, List.mem_cons, List.not_mem_nil, or_false] at hph
  rcases hph with rfl | rfl
  · exact hw (by decide)
  · simp only [pageSize] at hpage
    omega

end Cuore
