import Cuore.Binfmt.Elf64.Segment

/-!
# The memory image of a loaded program

When `elf64_parse` accepts a file whose segments lie in the lower half and share no page, every
byte of every segment is where the page walk finds it, and nothing that was in use before is
written (`elf64Parse_image`).

The one way to break this is a `PT_LOAD` segment of size zero.  It occupies nothing, but the tail
loop maps the pages from the last 2 MiB boundary up to it.  If a later segment covers that 2 MiB
region, the 2 MiB loop finds its first page mapped, takes that page's frame rounded down to 2 MiB
for the frame of the region, and so maps memory that belongs to others (`Shadows`).
-/

namespace Cuore

variable {pages pages2mb : ℕ → ℕ} {levels top : ℕ} {inUse : Set ℕ} {s₀ s s' : PhysState}
  {file : Memory} {fileData fileSize : ℕ} {user : Bool} {ph : Elf64Phdr} {phs done : List Elf64Phdr}

/-! ## What a segment maps -/

/-- The addresses that the loops visit. -/
def Elf64Phdr.Painted (ph : Elf64Phdr) (v : ℕ) : Prop :=
  min ph.segStart ph.hugeEnd ≤ v ∧ v < ph.segEnd

/-- The addresses that the two 4 KiB loops visit. -/
def Elf64Phdr.SmallPart (ph : Elf64Phdr) (v : ℕ) : Prop :=
  ph.segStart ≤ v ∧ v < min ph.hugeStart ph.segEnd ∨ ph.hugeEnd ≤ v ∧ v < ph.segEnd

/-- The addresses that the 2 MiB loop visits. -/
def Elf64Phdr.HugePart (ph : Elf64Phdr) (v : ℕ) : Prop := ph.hugeStart ≤ v ∧ v < ph.hugeEnd

/-- A page that the loops of a non-empty segment visit from `seg_start` on meets the segment. -/
lemma Elf64Phdr.Bounds.meets (hb : ph.Bounds levels) (hpos : 0 < ph.pMemsz) {v : ℕ}
    (h1 : ph.segStart ≤ v) (h2 : v < ph.segEnd) : ph.Meets v := by
  have ⟨d1, b1, b2, d2, b3, b4, _, _, _, _, _, _, _⟩ := hb
  by_cases hv : v < ph.pVaddr
  · exact ⟨0, hpos, by simp only [pageSize]; omega⟩
  by_cases hv' : v - ph.pVaddr < ph.pMemsz
  · exact ⟨v - ph.pVaddr, hv', by congr 1; omega⟩
  · exact ⟨ph.pMemsz - 1, by omega, by simp only [pageSize]; omega⟩

/-- The addresses of the huge part meet the segment. -/
lemma Elf64Phdr.Bounds.meets_of_hugePart (hb : ph.Bounds levels) {v : ℕ} (h : ph.HugePart v) :
    ph.Meets v := by
  obtain ⟨h1, h2⟩ := h
  have ⟨_, b1, b2, _, b3, b4, _, d3, b5, b6, d4, b7, b8⟩ := hb
  exact hb.meets (by omega) (by omega) (by omega)

/-- What the mapping loops do: bytes outside the huge part stay where they are, and only visited
addresses get mapped. -/
structure SegmentMapped (levels top : ℕ) (ph : Elf64Phdr) (s s' : PhysState) : Prop where
  keeps : ∀ v < lowerHalf levels, ¬ph.HugePart v → KeepsBytes levels top s s' v
  mapped : ∀ v < lowerHalf levels, lookup levels top s'.mem v ≠ none →
    lookup levels top s.mem v ≠ none ∨ ph.Painted v

lemma pageSize_dvd_pageSize2mb : pageSize ∣ pageSize2mb := by decide

/-- A 4 KiB loop. -/
lemma Loading.smallLoop (hs : LoadSetting pages pages2mb levels top inUse s₀)
    (h : Loading pages pages2mb levels top s₀ s) {start stop flags : ℕ}
    (hflags : SegmentFlags flags) (hstart : pageSize ∣ start) (hstop : pageSize ∣ stop)
    (hle : stop ≤ lowerHalf levels)
    (hrun : Step.forAddr start stop pageSize (Cuore.mapSmall pages levels top flags) s =
      some (true, s')) :
    Loading pages pages2mb levels top s₀ s' ∧
      (∀ v < lowerHalf levels, KeepsBytes levels top s s' v) ∧
      ∀ v < lowerHalf levels, lookup levels top s'.mem v ≠ none →
        lookup levels top s.mem v ≠ none ∨ start ≤ v ∧ v < stop := by
  refine Step.forAddr_invariant (fun _ s' => Loading pages pages2mb levels top s₀ s' ∧
    (∀ v < lowerHalf levels, KeepsBytes levels top s s' v) ∧
      ∀ v < lowerHalf levels, lookup levels top s'.mem v ≠ none →
        lookup levels top s.mem v ≠ none ∨ start ≤ v ∧ v < stop) hstart hstop ?_
    ⟨h, fun v _ a ha => ⟨rfl, a, ha, rfl⟩, fun v _ hv => .inl hv⟩ hrun
  rintro addr hal h1 h2 s₁ s₂ ⟨hload, hkeep, hmap⟩ hbody
  obtain ⟨hload', hsmall⟩ :=
    hload.mapSmall hs (by simp only [pageSize] at h2; omega) hal hflags hbody
  refine ⟨hload', fun v hv => (hkeep v hv).trans (hsmall.keeps v hv), fun v hv hne => ?_⟩
  by_cases hpage : v / pageSize = addr / pageSize
  · rw [div_eq_div_iff_of_dvd (by decide) hal] at hpage
    exact .inr ⟨by omega, by omega⟩
  · rw [hsmall.off v hv hpage] at hne
    exact hmap v hv hne

/-- The 2 MiB loop, if nothing is mapped at the start of any of its ranges. -/
lemma Loading.hugeLoop (hs : LoadSetting pages pages2mb levels top inUse s₀)
    (h : Loading pages pages2mb levels top s₀ s) {start stop flags : ℕ}
    (hflags : SegmentFlags flags) (hstart : pageSize2mb ∣ start) (hstop : pageSize2mb ∣ stop)
    (hle : stop ≤ lowerHalf levels)
    (hnone : ∀ v, pageSize2mb ∣ v → start ≤ v → v < stop → lookup levels top s.mem v = none)
    (hrun : Step.forAddr start stop pageSize2mb (Cuore.mapHuge pages pages2mb levels top flags) s =
      some (true, s')) :
    Loading pages pages2mb levels top s₀ s' ∧
      (∀ v < lowerHalf levels, v < start ∨ stop ≤ v → KeepsBytes levels top s s' v) ∧
      ∀ v < lowerHalf levels, lookup levels top s'.mem v ≠ none →
        lookup levels top s.mem v ≠ none ∨ start ≤ v ∧ v < stop := by
  -- the part of the range that is still to come is as it was
  have hres := Step.forAddr_invariant (fun addr s' => Loading pages pages2mb levels top s₀ s' ∧
    (∀ v < lowerHalf levels, v < start ∨ stop ≤ v → KeepsBytes levels top s s' v) ∧
      (∀ v < lowerHalf levels, addr ≤ v → lookup levels top s'.mem v = lookup levels top s.mem v) ∧
      ∀ v < lowerHalf levels, lookup levels top s'.mem v ≠ none →
        lookup levels top s.mem v ≠ none ∨ start ≤ v ∧ v < stop) hstart hstop ?_
    ⟨h, fun v _ _ a ha => ⟨rfl, a, ha, rfl⟩, fun _ _ _ => rfl, fun v _ hv => .inl hv⟩ hrun
  · exact ⟨hres.1, hres.2.1, hres.2.2.2⟩
  rintro addr hal h1 h2 s₁ s₂ ⟨hload, hkeep, hsame, hmap⟩ hbody
  have haddr : addr < lowerHalf levels := by simp only [pageSize2mb] at h2; omega
  have hnone₁ : lookup levels top s₁.mem addr = none := by
    rw [hsame addr haddr le_rfl]
    exact hnone addr hal h1 (by simp only [pageSize2mb] at h2; omega)
  obtain ⟨hload', hfresh, -⟩ := hload.mapHuge hs haddr hal hflags hnone₁ hbody
  have hoff : ∀ v < lowerHalf levels, v < addr ∨ addr + pageSize2mb ≤ v →
      lookup levels top s₂.mem v = lookup levels top s₁.mem v := by
    intro v hv hv'
    refine hfresh.off v hv fun heq => ?_
    have := (div_eq_div_iff_of_dvd (by decide) hal).mp heq
    omega
  refine ⟨hload', fun v hv hv' => (hkeep v hv hv').trans fun a ha => ?_, fun v hv hv' => ?_,
    fun v hv hne => ?_⟩
  · exact ⟨hfresh.bytes v hv a ha, a, by rw [hoff v hv (by omega), ha], rfl⟩
  · rw [hoff v hv (.inr hv')]
    exact hsame v hv (by simp only [pageSize2mb] at hv'; omega)
  · by_cases hin : addr ≤ v ∧ v < addr + pageSize2mb
    · exact .inr ⟨by omega, by omega⟩
    · rw [hoff v hv (by omega)] at hne
      exact hmap v hv hne

/-- The mapping loops of a segment. -/
lemma Loading.mapSegment (hs : LoadSetting pages pages2mb levels top inUse s₀)
    (h : Loading pages pages2mb levels top s₀ s) (hb : ph.Bounds levels)
    (hnone : ∀ v, pageSize2mb ∣ v → ph.HugePart v → lookup levels top s.mem v = none)
    (hrun : Cuore.mapSegment pages pages2mb levels top user ph s = some (true, s')) :
    Loading pages pages2mb levels top s₀ s' ∧ SegmentMapped levels top ph s s' := by
  obtain ⟨s₁, hhead, hrun⟩ := Step.seq_eq_some hrun
  obtain ⟨s₂, hhuge, htail⟩ := Step.seq_eq_some hrun
  have hflags := segmentFlags_pteFlags user ph
  have b5 := hb.le_hugeStart
  have b7 := hb.hugeEnd_le
  have e5 := hb.end_le
  have dmin : pageSize ∣ min ph.hugeStart ph.segEnd := by
    rcases min_choice ph.hugeStart ph.segEnd with hm | hm <;> rw [hm]
    · exact pageSize_dvd_pageSize2mb.trans hb.hugeStart_dvd
    · exact hb.end_dvd
  obtain ⟨h₁, hkeep₁, hmap₁⟩ := h.smallLoop hs hflags hb.start_dvd dmin (by omega) hhead
  have hnone₁ : ∀ v, pageSize2mb ∣ v → ph.hugeStart ≤ v → v < ph.hugeEnd →
      lookup levels top s₁.mem v = none := by
    intro v hv hv1 hv2
    by_contra hne
    rcases hmap₁ v (by omega) hne with hne | ⟨-, hlt⟩
    · exact hne (hnone v hv ⟨hv1, hv2⟩)
    · omega
  obtain ⟨h₂, hkeep₂, hmap₂⟩ :=
    h₁.hugeLoop hs hflags hb.hugeStart_dvd hb.hugeEnd_dvd (by omega) hnone₁
    hhuge
  obtain ⟨h₃, hkeep₃, hmap₃⟩ := h₂.smallLoop hs hflags
    (pageSize_dvd_pageSize2mb.trans hb.hugeEnd_dvd) hb.end_dvd e5 htail
  refine ⟨h₃, fun v hv hout => ?_, fun v hv hne => ?_⟩
  · have hout' : v < ph.hugeStart ∨ ph.hugeEnd ≤ v := by
      rw [Elf64Phdr.HugePart] at hout
      omega
    exact ((hkeep₁ v hv).trans (hkeep₂ v hv hout')).trans (hkeep₃ v hv)
  · rw [Elf64Phdr.Painted]
    rcases hmap₃ v hv hne with hne | hin
    · rcases hmap₂ v hv hne with hne | hin
      · rcases hmap₁ v hv hne with hne | hin
        · exact .inl hne
        · exact .inr ⟨by omega, by omega⟩
      · exact .inr ⟨by omega, by omega⟩
    · exact .inr ⟨by omega, by omega⟩

/-! ## What a segment contains -/

/-- The byte `j` of a segment: from the file, or zero. -/
def segmentByte (file : Memory) (fileData : ℕ) (ph : Elf64Phdr) (j : ℕ) : UInt8 :=
  if j < ph.pFilesz then file ((fileData + ph.pOffset + j) % word) else 0

lemma Loading.fillSegment (hs : LoadSetting pages pages2mb levels top inUse s₀)
    (h : Loading pages pages2mb levels top s₀ s) (hlow : ph.InLowerHalf levels)
    (hsize : ph.pFilesz ≤ ph.pMemsz)
    (hrun : Cuore.fillSegment levels top file fileData ph s = some (true, s')) :
    Loading pages pages2mb levels top s₀ s' ∧
      Filled levels top ph.pVaddr ph.pMemsz (segmentByte file fileData ph) s s' := by
  obtain ⟨s₁, hcopy, hbss⟩ := Step.seq_eq_some hrun
  rw [Elf64Phdr.InLowerHalf] at hlow
  have hword := lowerHalf_lt_word hs.depth
  obtain ⟨h₁, hfill₁⟩ := h.copyLoop hs le_rfl (by omega) (wadd_lt _ _) hcopy
  have hbytes : ∀ j < ph.pFilesz, file ((wadd fileData ph.pOffset + j) % word) =
      segmentByte file fileData ph j := by
    intro j hj
    rw [segmentByte, if_pos hj, wadd, Nat.mod_add_mod]
  split_ifs at hbss with hlt
  · rw [wadd_of_lt (by omega)] at hbss
    obtain ⟨h₂, hfill₂⟩ := h₁.bssLoop hs le_rfl (by omega) hbss
    have hall := hfill₁.trans hfill₂ (by omega)
    rw [show ph.pFilesz + (ph.pMemsz - ph.pFilesz) = ph.pMemsz by omega] at hall
    refine ⟨h₂, hall.congr fun j hj => ?_⟩
    split_ifs with hjf
    · exact hbytes j hjf
    · rw [segmentByte, if_neg hjf]
  · simp only [Step.skip, Option.some.injEq, Prod.mk.injEq, true_and] at hbss
    subst hbss
    have heq : ph.pFilesz = ph.pMemsz := by omega
    rw [heq] at hfill₁ hbytes
    exact ⟨h₁, hfill₁.congr hbytes⟩

/-- The segment is in memory, where the page walk finds it. -/
def SegmentLoaded (levels top : ℕ) (file : Memory) (fileData : ℕ) (ph : Elf64Phdr) (m : Memory) :
    Prop :=
  ∀ j < ph.pMemsz, ∃ a, lookup levels top m (ph.pVaddr + j) = some a ∧
    m a.phys = segmentByte file fileData ph j

/-! ## Images -/

/-- The two segments share no page. -/
def Elf64Phdr.PageDisjoint (p q : Elf64Phdr) : Prop := ∀ v, ¬(p.Meets v ∧ q.Meets v)

/-- The segments of a program: in the lower half, not longer in the file than in memory, and
with no page in common. -/
structure WellFormedImage (levels : ℕ) (phs : List Elf64Phdr) : Prop where
  lower : ∀ ph ∈ phs, ph.pType = ptLoad → ph.InLowerHalf levels
  size : ∀ ph ∈ phs, ph.pType = ptLoad → ph.pFilesz ≤ ph.pMemsz
  disjoint : phs.Pairwise fun p q => p.pType = ptLoad → q.pType = ptLoad → p.PageDisjoint q

/-- The segment `p` is empty, and its tail loop maps the first page of a 2 MiB region that the
2 MiB loop of `q` visits. -/
def Shadows (p q : Elf64Phdr) : Prop :=
  p.pMemsz = 0 ∧ p.hugeEnd < p.segEnd ∧ q.HugePart p.hugeEnd

/-- No segment shadows a later one. -/
def NoShadow (phs : List Elf64Phdr) : Prop :=
  phs.Pairwise fun p q => p.pType = ptLoad → q.pType = ptLoad → ¬Shadows p q

/-- A segment without shadow finds nothing mapped in its huge part. -/
lemma not_painted_of_hugePart {p q : Elf64Phdr} (hp : p.Bounds levels) (hq : q.Bounds levels)
    (hdisj : p.PageDisjoint q) (hshadow : ¬Shadows p q) {v : ℕ} (hv : pageSize2mb ∣ v)
    (hpart : q.HugePart v) : ¬p.Painted v := by
  rintro ⟨h1, h2⟩
  obtain ⟨hlo, hhi⟩ := hpart
  have ⟨d1, b1, b2, d2, b3, b4, _, _, _, _, d4, b7, b8⟩ := hp
  have ⟨_, _, _, _, _, _, _, _, _, _, c4, _, _⟩ := hq
  obtain ⟨k, rfl⟩ := hv
  simp only [pageSize2mb] at h1 h2 hlo hhi
  by_cases hpos : 0 < p.pMemsz
  · -- the last page of `p` in the region belongs to both
    by_cases hin : p.segStart ≤ 0x200000 * k
    · exact hdisj _ ⟨hp.meets hpos hin h2, hq.meets_of_hugePart ⟨hlo, hhi⟩⟩
    · exact hdisj (p.segEnd - 1) ⟨hp.meets hpos (by omega) (by omega),
        hq.meets_of_hugePart ⟨by omega, by omega⟩⟩
  · have heq : p.hugeEnd = 0x200000 * k := by omega
    exact hshadow ⟨by omega, by omega, by rw [heq]; exact ⟨hlo, hhi⟩⟩

/-! ## Loading the segments -/

/-- An accepted file went through the program header loop. -/
lemma elf64Parse_eq_some {ret : Elf64ParserRet}
    (hrun : elf64Parse pages pages2mb levels file fileData fileSize top user s = some (ret, s'))
    (hret : ret.status = 1) :
    loadSegments pages pages2mb levels top file fileData fileSize user
      (programHeaders file fileData) s = some (true, s') := by
  rw [elf64Parse] at hrun
  have hzero : ∀ t : PhysState, some ((⟨0, 0, 0, 0⟩ : Elf64ParserRet), t) ≠ some (ret, s') := by
    intro t ht
    rw [Option.some.injEq, Prod.mk.injEq] at ht
    rw [← ht.1] at hret
    exact absurd hret (by decide)
  simp only at hrun
  split_ifs at hrun
  · exact absurd hrun (hzero _)
  · exact absurd hrun (hzero _)
  · exact absurd hrun (hzero _)
  · exact absurd hrun (hzero _)
  · split at hrun
    · exact absurd hrun (by simp)
    · exact absurd hrun (hzero _)
    · rename_i heq
      rw [Option.some.injEq, Prod.mk.injEq] at hrun
      rw [heq, hrun.2]

/-- The invariant of the program header loop, after the headers `done`. -/
structure ImageInv (pages pages2mb : ℕ → ℕ) (levels top : ℕ) (file : Memory) (fileData : ℕ)
    (s₀ : PhysState) (done : List Elf64Phdr) (s : PhysState) : Prop where
  loading : Loading pages pages2mb levels top s₀ s
  mapped : ∀ v < lowerHalf levels, lookup levels top s.mem v ≠ none →
    ∃ ph ∈ done, ph.pType = ptLoad ∧ ph.Painted v
  loaded : ∀ ph ∈ done, ph.pType = ptLoad → SegmentLoaded levels top file fileData ph s.mem

/-- A loaded segment stays loaded when another one is mapped and filled. -/
lemma SegmentLoaded.step {p q : Elf64Phdr} {s₁ : PhysState}
    (h : SegmentLoaded levels top file fileData p s.mem) (hp : p.InLowerHalf levels)
    (hq : q.Bounds levels) (hdisj : p.PageDisjoint q) (hmap : SegmentMapped levels top q s s₁)
    {content : ℕ → UInt8} (hfill : Filled levels top q.pVaddr q.pMemsz content s₁ s') :
    SegmentLoaded levels top file fileData p s'.mem := by
  intro j hj
  obtain ⟨a, ha, hbyte⟩ := h j hj
  rw [Elf64Phdr.InLowerHalf] at hp
  have hv : p.pVaddr + j < lowerHalf levels := by omega
  have hmeets : p.Meets (p.pVaddr + j) := ⟨j, hj, rfl⟩
  obtain ⟨hmem, a', ha', hphys⟩ :=
    hmap.keeps _ hv (fun hpart => hdisj _ ⟨hmeets, hq.meets_of_hugePart hpart⟩) a ha
  refine ⟨a', by rw [hfill.lookup_eq _ hv, ha'], ?_⟩
  rw [hfill.other _ hv ?_ a' ha', hphys, hmem, hbyte]
  by_contra hin
  exact hdisj _ ⟨hmeets, p.pVaddr + j - q.pVaddr, by omega, by congr 1; omega⟩

/-- **One round of the program header loop.** -/
lemma ImageInv.step (hs : LoadSetting pages pages2mb levels top inUse s₀)
    (h : ImageInv pages pages2mb levels top file fileData s₀ done s)
    (hlower : ∀ p ∈ done ++ [ph], p.pType = ptLoad → p.InLowerHalf levels)
    (hsize : ph.pType = ptLoad → ph.pFilesz ≤ ph.pMemsz)
    (hpair : ∀ p ∈ done, p.pType = ptLoad → ph.pType = ptLoad →
      p.PageDisjoint ph ∧ ¬Shadows p ph)
    (hrun : loadSegment pages pages2mb levels top file fileData fileSize user ph s = some (true,
      s')) :
    ImageInv pages pages2mb levels top file fileData s₀ (done ++ [ph]) s' := by
  rcases loadSegment_eq_some hrun with ⟨htype, rfl⟩ | ⟨htype, s₁, hmapRun, hfillRun⟩
  · refine ⟨h.loading, fun v hv hne => ?_, fun p hp hload => ?_⟩
    · obtain ⟨p, hp, hpaint⟩ := h.mapped v hv hne
      exact ⟨p, List.mem_append_left _ hp, hpaint⟩
    · rcases List.mem_append.mp hp with hp | hp
      · exact h.loaded p hp hload
      · exact absurd (List.mem_singleton.mp hp ▸ hload) htype
  have hlow := hlower ph (by simp) htype
  have hb := Elf64Phdr.bounds hs.depth hlow
  have hbounds : ∀ p ∈ done, p.pType = ptLoad → p.Bounds levels := fun p hp hload =>
    Elf64Phdr.bounds hs.depth (hlower p (List.mem_append_left _ hp) hload)
  have hnone : ∀ v, pageSize2mb ∣ v → ph.HugePart v → lookup levels top s.mem v = none := by
    intro v hv hpart
    by_contra hne
    have hlt : v < lowerHalf levels := lt_of_lt_of_le hpart.2 (hb.hugeEnd_le.trans hb.end_le)
    obtain ⟨p, hp, hload, hpaint⟩ := h.mapped v hlt hne
    obtain ⟨hdisj, hshadow⟩ := hpair p hp hload htype
    exact not_painted_of_hugePart (hbounds p hp hload) hb hdisj hshadow hv hpart hpaint
  obtain ⟨h₁, hmap⟩ := h.loading.mapSegment hs hb hnone hmapRun
  obtain ⟨h₂, hfill⟩ := h₁.fillSegment hs hlow (hsize htype) hfillRun
  refine ⟨h₂, fun v hv hne => ?_, fun p hp hload => ?_⟩
  · rw [hfill.lookup_eq v hv] at hne
    rcases hmap.mapped v hv hne with hne | hpaint
    · obtain ⟨p, hp, hpaint⟩ := h.mapped v hv hne
      exact ⟨p, List.mem_append_left _ hp, hpaint⟩
    · exact ⟨ph, by simp, htype, hpaint⟩
  · rcases List.mem_append.mp hp with hp | hp
    · exact (h.loaded p hp hload).step (hlower p (List.mem_append_left _ hp) hload) hb
        (hpair p hp hload htype).1 hmap hfill
    · obtain rfl := List.mem_singleton.mp hp
      intro j hj
      obtain ⟨a, ha, hbyte⟩ := hfill.bytes j hj
      refine ⟨a, ?_, hbyte⟩
      rw [hfill.lookup_eq _ (by rw [Elf64Phdr.InLowerHalf] at hlow; omega), ha]

/-- The program header loop. -/
lemma ImageInv.run (hs : LoadSetting pages pages2mb levels top inUse s₀)
    (h : ImageInv pages pages2mb levels top file fileData s₀ done s)
    (himage : WellFormedImage levels (done ++ phs)) (hshadow : NoShadow (done ++ phs))
    (hrun : loadSegments pages pages2mb levels top file fileData fileSize user phs s =
      some (true, s')) :
    ImageInv pages pages2mb levels top file fileData s₀ (done ++ phs) s' := by
  induction phs generalizing done s with
  | nil =>
    simp only [loadSegments, Step.skip, Option.some.injEq, Prod.mk.injEq, true_and] at hrun
    subst hrun
    rwa [List.append_nil]
  | cons ph phs ih =>
    obtain ⟨s₁, hseg, hrest⟩ := Step.seq_eq_some hrun
    have hsplit : done ++ ph :: phs = (done ++ [ph]) ++ phs := by simp
    have hmem : ∀ p ∈ done ++ [ph], p ∈ done ++ ph :: phs := fun p hp =>
      hsplit ▸ List.mem_append_left _ hp
    have h₁ := h.step hs (fun p hp => himage.lower p (hmem p hp))
      (himage.size ph (by simp)) (fun p hp hload hload' => ⟨?_, ?_⟩) hseg
    · rw [hsplit] at himage hshadow ⊢
      exact ih h₁ himage hshadow hrest
    · exact (List.pairwise_append.mp himage.disjoint).2.2 p hp ph (by simp) hload hload'
    · exact (List.pairwise_append.mp hshadow).2.2 p hp ph (by simp) hload hload'

/-- **Loading produces the memory image of the program.**  When `elf64_parse` accepts a file whose
segments lie in the lower half, share no page and do not shadow one another, on a table whose
lower half was empty, then for every segment the page walk finds at every address the byte of the
file, or zero beyond the part that is in the file; and no byte of a page that was in use before,
other than the top table, has changed. -/
theorem elf64Parse_image (hs : LoadSetting pages pages2mb levels top inUse s)
    (hempty : ∀ i < 256, (readEntry s.mem top i).testBit 0 = false)
    (himage : WellFormedImage levels (programHeaders file fileData))
    (hshadow : NoShadow (programHeaders file fileData)) {ret : Elf64ParserRet}
    (hrun : elf64Parse pages pages2mb levels file fileData fileSize top user s = some (ret, s'))
    (hret : ret.status = 1) :
    (∀ ph ∈ programHeaders file fileData, ph.pType = ptLoad →
      SegmentLoaded levels top file fileData ph s'.mem) ∧
      ∀ x, alignDown pageSize x ∈ inUse → alignDown pageSize x ≠ top → s'.mem x = s.mem x := by
  obtain ⟨hload, hstart⟩ := loading_start hs hempty
  have hsegs := elf64Parse_eq_some hrun hret
  have h0 : ImageInv pages pages2mb levels top file fileData s [] s :=
    ⟨hload, fun v hv hne => absurd (hstart v hv).1 hne, fun ph hp => absurd hp (by simp)⟩
  have hinv := ImageInv.run hs h0 himage hshadow hsegs
  refine ⟨hinv.loaded, fun x hx hne => hinv.loading.changed x ?_⟩
  rintro (htop | hgiven)
  · exact hne htop
  · exact (hs.fresh.given_unused hgiven).1 hx

/-- Two segments of one page each, text and data, in one 2 MiB region. -/
def textAndData : List Elf64Phdr :=
  [⟨1, 5, 0, 0x400000, 0x80, 0x1000⟩, ⟨1, 6, 0x40, 0x402000, 0x20, 0x100⟩]

/-- An allocator with six pages to give. -/
def sixPages (k : ℕ) : ℕ := [0x2000, 0x3000, 0x4000, 0x5000, 0x6000, 0x7000].getD k 0

/-- Empty physical memory. -/
def zeroState : PhysState := ⟨fun _ => 0, 0, 0⟩

lemma textAndData_setting : LoadSetting sixPages (fun _ => 0) 4 0x1000 {0x1000} zeroState :=
  ⟨.inl rfl, by decide, rfl, freshMemory_of_list (by decide) (by decide) _⟩

lemma textAndData_headers :
    programHeaders (elfFile 0x10000 textAndData) 0x10000 = textAndData := by decide +kernel

/-- Text and data are loaded as they should be. -/
theorem textAndData_image :
    ∃ ret s', elf64Parse sixPages (fun _ => 0) 4 (elfFile 0x10000 textAndData) 0x10000 0x1000 0x1000
        true zeroState = some (ret, s') ∧ ret.status = 1 ∧
      ∀ ph ∈ textAndData, SegmentLoaded 4 0x1000
        (elfFile 0x10000 textAndData) 0x10000 ph s'.mem := by
  have hstatus : (elf64Parse sixPages (fun _ => 0) 4 (elfFile 0x10000 textAndData) 0x10000 0x1000
      0x1000 true zeroState).map (fun r => r.1.status) = some 1 := by decide +kernel
  obtain ⟨⟨ret, s'⟩, hrun, hret⟩ := Option.map_eq_some_iff.mp hstatus
  refine ⟨ret, s', hrun, hret, fun ph hph => ?_⟩
  have himage : WellFormedImage 4 textAndData := by
    refine ⟨by decide, by decide, ?_⟩
    simp only [textAndData, List.pairwise_cons, List.mem_singleton, forall_eq, List.not_mem_nil,
      false_implies, implies_true, List.Pairwise.nil, and_true]
    rintro - - v ⟨⟨i, hi, h1⟩, j, hj, h2⟩
    simp only [pageSize] at *
    omega
  have hshadow : NoShadow textAndData := by
    simp only [NoShadow, textAndData, List.pairwise_cons, List.mem_singleton, forall_eq,
      List.not_mem_nil, false_implies, implies_true, List.Pairwise.nil, and_true]
    rintro - - ⟨h, -⟩
    exact absurd h (by decide)
  rw [← textAndData_headers] at himage hshadow
  refine (elf64Parse_image textAndData_setting (fun i _ => ?_) himage hshadow hrun hret).1 ph
    (textAndData_headers ▸ hph) ?_
  · exact congrArg (fun e => Nat.testBit e 0) (readEntry_zero 0x1000 i)
  · revert ph
    decide

/-! ## A segment in the shadow of an empty one -/

/-- Zeroing pages that are mapped side by side, whatever the bytes in them are. -/
lemma bssLoop_linear {m : Memory} (lo hi d n fuel : ℕ) (hlim : hi + d ≤ physLimit)
    (hhi : hi < word) (hlo : 0 < lo + d)
    (hphys : ∀ m' : Memory, (∀ x, x < lo + d ∨ hi + d ≤ x → m' x = m x) → ∀ page, pageSize ∣ page →
      lo ≤ page → page < hi → pagingGetPhys m' levels top page = some (page + d))
    {start : ℕ} (hdvd : pageSize ∣ start) (hstart : lo ≤ start)
    (hend : start + n * pageSize = hi) (hfuel : n * pageSize ≤ fuel)
    (hsame : ∀ x, x < lo + d ∨ hi + d ≤ x → s.mem x = m x) :
    ∃ s', bssLoop levels top fuel start (n * pageSize) s = some (true, s') ∧
      (∀ x < start + d, s'.mem x = s.mem x) ∧
      ∀ x, start + d ≤ x → x < hi + d → s'.mem x = 0 := by
  induction n generalizing s start fuel with
  | zero =>
    have hrun : bssLoop levels top fuel start 0 s = some (true, s) := by
      cases fuel <;> simp [bssLoop, Step.skip]
    exact ⟨s, by rwa [Nat.zero_mul], fun _ _ => rfl, fun x hx hx' => by omega⟩
  | succ n ih =>
    rw [Nat.succ_mul] at hend hfuel
    have hps : 0 < pageSize := by decide
    obtain ⟨fuel, rfl⟩ : ∃ f, fuel = f + 1 := ⟨fuel - 1, by omega⟩
    have hpos : (n + 1) * pageSize ≠ 0 := by simp [pageSize]
    have hpage : start &&& wnot (pageSize - 1) = start := by
      rw [show pageSize - 1 = 2 ^ 12 - 1 from rfl, and_wnot_pred (by decide) (by omega), alignDown]
      exact Nat.div_mul_cancel hdvd
    have hoff : start &&& (pageSize - 1) = 0 := by
      rw [show pageSize - 1 = 2 ^ 12 - 1 from rfl, Nat.and_two_pow_sub_one_eq_mod]
      exact Nat.mod_eq_zero_of_dvd hdvd
    have hchunk : ¬pageSize > (n + 1) * pageSize := by
      rw [Nat.succ_mul]
      omega
    have hg := hphys s.mem hsame start hdvd hstart (by omega)
    let s₁ : PhysState := { s with mem := s.mem.fill (start + d) pageSize 0 }
    have hsame₁ : ∀ x, x < lo + d ∨ hi + d ≤ x → s₁.mem x = m x := fun x hx => by
      rw [← hsame x hx]
      exact Memory.fill_of_outside (by omega)
    obtain ⟨s', hrun, hbelow, hzero⟩ := ih fuel
      (show pageSize ∣ start + pageSize from Nat.dvd_add hdvd dvd_rfl) (by omega) (by omega)
        (by omega) hsame₁
    refine ⟨s', ?_, fun x hx => ?_, fun x hx hx' => ?_⟩
    · rw [bssLoop]
      simp only [if_neg hpos, hpage, hoff, hg, Option.bind_eq_bind, Option.bind_some, Nat.add_zero,
        Nat.sub_zero, if_neg hchunk]
      rw [if_neg (by omega), zeroPhys, if_neg (by omega), Option.bind_some, wadd_of_lt (by omega),
        show (n + 1) * pageSize - pageSize = n * pageSize by rw [Nat.succ_mul]; omega]
      exact hrun
    · rw [hbelow x (by omega)]
      exact Memory.fill_of_outside (by omega)
    · by_cases hlt : x < start + pageSize + d
      · rw [hbelow x hlt]
        exact Memory.fill_of_inside hx (by omega)
      · exact hzero x (by omega) hx'

/-- A segment of size zero one page behind a 2 MiB boundary. -/
def emptySegment : Elf64Phdr := ⟨1, 4, 0, 0x201000, 0, 0⟩

/-- An executable segment that covers that 2 MiB region. -/
def coveringSegment : Elf64Phdr := ⟨1, 5, 0, 0x200000, 0, 0x200000⟩

/-- The two in one file. -/
def shadowFile : Memory := elfFile 0x10000 [emptySegment, coveringSegment]

/-- An allocator with four pages to give, the first of them in the 2 MiB block at `0x800000`. -/
def fourPages (k : ℕ) : ℕ := [0x803000, 0x2000, 0x3000, 0x4000].getD k 0

/-- Physical memory with one byte in use, at `0x800000`. -/
def oneByteState : PhysState := ⟨fun x => if x = 0x800000 then 1 else 0, 0, 0⟩

lemma shadowFile_headers :
    programHeaders shadowFile 0x10000 = [emptySegment, coveringSegment] := by decide +kernel

/-- After the mapping loops the 2 MiB region is mapped to the block at `0x800000`. -/
lemma shadowFile_mapped :
    ∃ s₁ s₂, loadSegment fourPages (fun _ => 0) 4 0x1000 shadowFile 0x10000 0x1000 true emptySegment
        oneByteState = some (true, s₁) ∧
      mapSegment fourPages (fun _ => 0) 4 0x1000 true coveringSegment s₁ = some (true, s₂) ∧
      readEntry s₂.mem 0x1000 0 = 0x2003 ∧ readEntry s₂.mem 0x2000 0 = 0x3003 ∧
      readEntry s₂.mem 0x3000 1 = 0x800085 := by
  have hrun : (((loadSegment fourPages (fun _ => 0) 4 0x1000 shadowFile 0x10000 0x1000 true
      emptySegment).seq (mapSegment fourPages (fun _ => 0) 4 0x1000 true coveringSegment))
      oneByteState).map (fun r => (r.1, readEntry r.2.mem 0x1000 0, readEntry r.2.mem 0x2000 0,
        readEntry r.2.mem 0x3000 1)) = some (true, 0x2003, 0x3003, 0x800085) := by decide +kernel
  obtain ⟨⟨b, s₂⟩, hseq, heq⟩ := Option.map_eq_some_iff.mp hrun
  simp only [Prod.mk.injEq] at heq
  obtain ⟨rfl, h1, h2, h3⟩ := heq
  obtain ⟨s₁, hload, hmap⟩ := Step.seq_eq_some hseq
  exact ⟨s₁, s₂, hload, hmap, h1, h2, h3⟩

/-- The addresses of the region are read back in that block. -/
lemma shadowFile_getPhys {m m' : Memory} (h1 : readEntry m 0x1000 0 = 0x2003)
    (h2 : readEntry m 0x2000 0 = 0x3003) (h3 : readEntry m 0x3000 1 = 0x800085)
    (hsame : ∀ x, x < 0x800000 ∨ 0xA00000 ≤ x → m' x = m x) {page : ℕ}
    (hlo : 0x200000 ≤ page) (hhi : page < 0x400000) :
    pagingGetPhys m' 4 0x1000 page = some (page + 0x600000) := by
  have hentry : ∀ t i, t + 8 * i + 8 ≤ 0x800000 → readEntry m' t i = readEntry m t i := by
    intro t i hti
    rw [readEntry, readEntry]
    exact Memory.load_congr fun x _ hx => hsame x (.inl (by omega))
  have i3 : pageIndex page 3 = 0 := by rw [pageIndex_eq]; omega
  have i2 : pageIndex page 2 = 0 := by rw [pageIndex_eq]; omega
  have i1 : pageIndex page 1 = 1 := by rw [pageIndex_eq]; omega
  have hmask : page &&& (2 ^ (12 + (0 + 1) * 9) - 1) = page % 2 ^ 21 :=
    Nat.and_two_pow_sub_one_eq_mod page 21
  have e3 := (hentry 0x1000 0 (by decide)).trans h1
  have e2 := (hentry 0x2000 0 (by decide)).trans h2
  have e1 := (hentry 0x3000 1 (by decide)).trans h3
  rw [pagingGetPhys, getPhysFrom]
  simp only [i3, e3]
  rw [if_neg (by decide), if_neg (by decide), if_neg (by decide), getPhysFrom,
    show 0x2003 &&& pteAddrMask = 0x2000 by decide]
  simp only [i2, e2]
  rw [if_neg (by decide), if_neg (by decide), if_neg (by decide), getPhysFrom,
    show 0x3003 &&& pteAddrMask = 0x3000 by decide]
  simp only [i1, e1]
  rw [if_neg (by decide), if_neg (by decide), if_pos (by decide), hmask, Option.some.injEq,
    show 0x800085 &&& wnot (2 ^ (12 + (0 + 1) * 9) - 1) = 0x800000 by decide,
    wadd_of_lt (by simp only [word]; omega)]
  omega

/-- Loading this file clears the byte at `0x800000`, which belongs to someone else. -/
theorem shadowFile_not_image :
    LoadSetting fourPages (fun _ => 0) 4 0x1000 {0x1000, 0x800000} oneByteState ∧
      (∀ i < 256, (readEntry oneByteState.mem 0x1000 i).testBit 0 = false) ∧
      WellFormedImage 4 (programHeaders shadowFile 0x10000) ∧
      ∃ ret s', elf64Parse fourPages (fun _ => 0) 4 shadowFile 0x10000 0x1000 0x1000 true
          oneByteState = some (ret, s') ∧ ret.status = 1 ∧
        ¬∀ x, alignDown pageSize x ∈ ({0x1000, 0x800000} : Set ℕ) → alignDown pageSize x ≠ 0x1000 →
          s'.mem x = oneByteState.mem x := by
  obtain ⟨s₁, s₂, hload, hmap, h1, h2, h3⟩ := shadowFile_mapped
  have hempty : ∀ i < 256, (readEntry oneByteState.mem 0x1000 i).testBit 0 = false := by
    intro i hi
    have hzero : readEntry oneByteState.mem 0x1000 i = readEntry (fun _ => 0) 0x1000 i := by
      rw [readEntry, readEntry]
      exact Memory.load_congr fun x _ hx => if_neg (by omega)
    rw [hzero, readEntry_zero]
    rfl
  obtain ⟨s₃, hbss, -, hzero⟩ := bssLoop_linear 0x200000 0x400000 0x600000 512
    0x200000 (by decide)
    (by decide) (by decide) (fun m' hm' page _ => shadowFile_getPhys h1 h2 h3 hm')
      (by decide) le_rfl
    (by decide) (by decide) fun _ _ => rfl
  rw [show 512 * pageSize = 0x200000 from rfl] at hbss
  refine ⟨⟨.inl rfl, by decide, .inl rfl, freshMemory_of_list (by decide) (by decide) _⟩,
    hempty, ?_,
    ⟨1, 0, 2, 0x400000⟩, s₃, ?_, rfl, ?_⟩
  · rw [shadowFile_headers]
    refine ⟨by decide, by decide, ?_⟩
    simp only [List.pairwise_cons, List.mem_singleton, forall_eq, List.not_mem_nil,
      false_implies, implies_true, List.Pairwise.nil, and_true]
    rintro - - v ⟨⟨i, hi, -⟩, -⟩
    exact absurd hi (Nat.not_lt_zero i)
  · have hfill : fillSegment 4 0x1000 shadowFile 0x10000 coveringSegment s₂ = some (true, s₃) := by
      have hcopy : copyLoop 4 0x1000 shadowFile coveringSegment.pFilesz coveringSegment.pVaddr
          (wadd 0x10000 coveringSegment.pOffset) coveringSegment.pFilesz s₂ = some (true, s₂) := rfl
      have hsize : coveringSegment.pMemsz - coveringSegment.pFilesz = 0x200000 := rfl
      have hstart : wadd coveringSegment.pVaddr coveringSegment.pFilesz = 0x200000 := rfl
      rw [fillSegment, Step.seq, hcopy]
      simp only
      rw [if_pos (by decide), hsize, hstart]
      exact hbss
    have hcover : loadSegment fourPages (fun _ => 0) 4 0x1000 shadowFile 0x10000 0x1000 true
        coveringSegment s₁ = some (true, s₃) := by
      rw [loadSegment, if_neg (by decide), if_neg (by decide), Step.seq, hmap]
      exact hfill
    have hall : loadSegments fourPages (fun _ => 0) 4 0x1000 shadowFile 0x10000 0x1000 true
        [emptySegment, coveringSegment] oneByteState = some (true, s₃) := by
      rw [loadSegments, Step.seq, hload]
      simp only
      rw [loadSegments, Step.seq, hcover]
      rfl
    have hhead : readEhdr shadowFile 0x10000 =
        ⟨[0x7f, 0x45, 0x4c, 0x46, 2, 1], 2, 62, 0, 64, 56, 2⟩ := by decide +kernel
    rw [elf64Parse]
    simp only [hhead, shadowFile_headers, hall]
    rfl
  · intro hframe
    have hbyte := hframe 0x800000 (.inr rfl) (by decide)
    rw [hzero 0x800000 (by decide) (by decide)] at hbyte
    exact absurd hbyte (by decide)

end Cuore
