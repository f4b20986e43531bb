import Cuore.Binfmt.Elf64.Load

/-!
# The loops of `elf64_parse`

One lemma for each loop body: what mapping a 4 KiB page, mapping a 2 MiB page, copying a chunk
and zeroing a chunk do to an address space that is being loaded, when the body goes on.

A 4 KiB page that is not mapped gets a zeroed page of its own; one that is mapped keeps its frame
and gets merged rights.  The rights are those of its own entry only if the page is not part of a
2 MiB page, since `paging_get_pte` finds no entry of level 0 otherwise.  When a table cannot be
allocated, `paging_map_page` returns without a word and the page stays as it was.
-/

namespace Cuore

variable {pages pages2mb : ℕ → ℕ} {levels top : ℕ} {inUse : Set ℕ} {s₀ s s' : PhysState}

/-! ## Running steps -/

lemma Step.seq_eq_some {f g : Step} (h : f.seq g s = some (true, s')) :
    ∃ s₁, f s = some (true, s₁) ∧ g s₁ = some (true, s') := by
  rw [Step.seq] at h
  split at h
  · simp at h
  · simp at h
  · exact ⟨_, by assumption, h⟩

/-- The rule for loops: what every round hands on to the next holds at the end. -/
lemma Step.rounds_invariant {step n start : ℕ} {body : ℕ → Step} (I : ℕ → PhysState → Prop)
    (hstep : ∀ k < n, ∀ s s', I (start + k * step) s →
      body (start + k * step) s = some (true, s') → I (start + (k + 1) * step) s')
    (h : I start s) (hrun : Step.rounds step body n start s = some (true, s')) :
    I (start + n * step) s' := by
  induction n generalizing start s with
  | zero =>
    simp only [Step.rounds, Step.skip, Option.some.injEq, Prod.mk.injEq, true_and] at hrun
    subst hrun
    simpa using h
  | succ n ih =>
    obtain ⟨s₁, hbody, hrest⟩ := Step.seq_eq_some hrun
    have h₁ := hstep 0 (Nat.succ_pos n) s s₁ (by simpa using h) (by simpa using hbody)
    rw [Nat.zero_add, Nat.one_mul] at h₁
    have hassoc : ∀ k, start + step + k * step = start + (k + 1) * step := fun k => by ring
    rw [← hassoc]
    refine ih (fun k hk s s' => ?_) h₁ hrest
    rw [hassoc, hassoc]
    exact hstep (k + 1) (by omega) s s'

/-- The rule for `for` loops. -/
lemma Step.forAddr_invariant {start stop step : ℕ} {body : ℕ → Step} (I : ℕ → PhysState → Prop)
    (hstart : step ∣ start) (hstop : step ∣ stop)
    (hstep : ∀ addr, step ∣ addr → start ≤ addr → addr + step ≤ stop → ∀ s s', I addr s →
      body addr s = some (true, s') → I (addr + step) s')
    (h : I start s) (hrun : Step.forAddr start stop step body s = some (true, s')) :
    I (max start stop) s' := by
  have hdvd : step ∣ stop - start := Nat.dvd_sub hstop hstart
  have hmul := Nat.div_mul_cancel hdvd
  have hres := Step.rounds_invariant (n := (stop - start) / step) I (fun k hk s s' hI hbody => ?_)
    h hrun
  · rw [hmul] at hres
    rwa [show max start stop = start + (stop - start) by omega]
  · have hle : (k + 1) * step ≤ (stop - start) / step * step := Nat.mul_le_mul_right step hk
    rw [hmul] at hle
    rw [show start + (k + 1) * step = start + k * step + step by ring]
    rw [Nat.add_mul] at hle
    have hlt : start < stop := by
      by_contra hcon
      rw [Nat.sub_eq_zero_of_le (by omega), Nat.zero_div] at hk
      exact absurd hk (Nat.not_lt_zero k)
    exact hstep _ (Nat.dvd_add hstart (Dvd.intro_left k rfl)) (by omega) (by omega) s s' hI hbody

/-- A round of the program header loop that goes on skips a header, or maps and fills a segment. -/
lemma loadSegment_eq_some {file : Memory} {fileData fileSize : ℕ} {user : Bool} {ph : Elf64Phdr}
    (h : loadSegment pages pages2mb levels top file fileData fileSize user ph s = some (true, s')) :
    ph.pType ≠ ptLoad ∧ s' = s ∨ ph.pType = ptLoad ∧ ∃ s₁,
      mapSegment pages pages2mb levels top user ph s = some (true, s₁) ∧
        fillSegment levels top file fileData ph s₁ = some (true, s') := by
  rw [loadSegment] at h
  by_cases htype : ph.pType = ptLoad
  · rw [if_neg (not_not.mpr htype)] at h
    by_cases hfits : wadd ph.pOffset ph.pFilesz > fileSize
    · rw [if_pos hfits] at h
      simp [Step.ret] at h
    · rw [if_neg hfits] at h
      exact .inr ⟨htype, Step.seq_eq_some h⟩
  · rw [if_pos htype] at h
    simp only [Step.skip, Option.some.injEq, Prod.mk.injEq, true_and] at h
    exact .inl ⟨htype, h.symm⟩

/-! ## Flags -/

/-- The flags of a segment are attribute flags with `PTE_PRESENT`. -/
structure SegmentFlags (flags : ℕ) : Prop where
  attributes : AttributeFlags flags
  present : flags.testBit 0 = true

lemma SegmentFlags.combine {e : ℕ} (he : SegmentFlags e) (flags : ℕ) :
    SegmentFlags (combineFlags e flags) := by
  have hbit := fun i => testBit_combineFlags e flags i he.attributes.lt
  refine ⟨fun i hi => ?_, by rw [hbit]; simpa using he.present⟩
  rw [hbit] at hi
  have := he.attributes i
  grind

lemma segmentFlags_pteFlags (user : Bool) (ph : Elf64Phdr) : SegmentFlags (ph.pteFlags user) := by
  have h0 : ∀ i, ptePresent.testBit i = decide (0 = i) := fun i => Nat.testBit_two_pow
  have h1 : ∀ i, pteWritable.testBit i = decide (1 = i) := fun i => Nat.testBit_two_pow
  have h2 : ∀ i, pteUser.testBit i = decide (2 = i) := fun i => Nat.testBit_two_pow
  have h63 : ∀ i, pteNx.testBit i = decide (63 = i) := fun i => Nat.testBit_two_pow
  constructor
  · intro i hi
    rw [Elf64Phdr.pteFlags] at hi
    split_ifs at hi
    all_goals simp only [Nat.testBit_or, h0, h1, h2, h63] at hi
    all_goals grind
  · rw [Elf64Phdr.pteFlags]
    split_ifs
    all_goals simp only [Nat.testBit_or, h0, h1, h2, h63]
    all_goals grind

/-- The flags found for a page that is mapped already. -/
lemma Loading.existingFlags (h : Loading pages pages2mb levels top s₀ s)
    (hs : LoadSetting pages pages2mb levels top inUse s₀) {addr flags : ℕ}
    (haddr : addr < lowerHalf levels) (hflags : SegmentFlags flags) {a : Mapping}
    (ha : lookup levels top s.mem addr = some a) :
    ∃ f, existingFlags pages levels top addr flags s = some f ∧ SegmentFlags f ∧
      (HugeFree s.mem addr (levels - 1) top → f = a.rights) := by
  have hi := pageIndex_lt_of_lower hs.depth haddr
  have hclear : PathClear s.mem addr 0 (levels - 1) top :=
    pathClear_of_plain (fun _ _ h => h) hi h.plain
  simp only [Cuore.existingFlags, pagingGetPte, Option.bind_eq_bind, Option.bind_some,
    walkToLevel_lookup pages addr 0 hs.aligned.2 hclear]
  cases hx : tableOnPath s.mem addr 0 (levels - 1) top with
  | none =>
    refine ⟨flags, rfl, hflags, fun hfree => ?_⟩
    obtain ⟨x, hx'⟩ := exists_tableOnPath hfree ha
    cases hx.symm.trans hx'
  | some x =>
    have hlim := (tables_aligned hs.aligned (mem_tables_of_tableOnPath hi hx)).2
    rw [lookup, hwWalk_of_tableOnPath (Nat.zero_le _) (fun _ _ _ => rfl) hx, hwWalk] at ha
    split_ifs at ha with h0
    obtain rfl := Option.some.inj ha
    refine ⟨_, if_neg (not_le.mpr hlim), ⟨attributeFlags_hwRights _, ?_⟩, fun _ => ?_⟩
    · exact (testBit_hwRights _ 0).trans (by simpa using h0)
    · rw [leafMapping, hwRights]
      congr 1

/-! ## Mapping 4 KiB pages -/

/-- Every byte that was mapped is mapped to the same place and holds what it held. -/
def KeepsBytes (levels top : ℕ) (s s' : PhysState) (v : ℕ) : Prop :=
  ∀ a, lookup levels top s.mem v = some a →
    s'.mem a.phys = s.mem a.phys ∧ ∃ a', lookup levels top s'.mem v = some a' ∧ a'.phys = a.phys

lemma KeepsBytes.trans {s'' : PhysState} {v : ℕ} (h : KeepsBytes levels top s s' v)
    (h' : KeepsBytes levels top s' s'' v) : KeepsBytes levels top s s'' v := by
  intro a ha
  obtain ⟨hmem, a', ha', hphys⟩ := h a ha
  obtain ⟨hmem', a'', ha'', hphys'⟩ := h' a' ha'
  rw [hphys] at hmem' hphys'
  exact ⟨hmem'.trans hmem, a'', ha'', hphys'⟩

/-- The mapping `b` of an address of a 4 KiB page that was `a` before the page was visited. -/
def MergedWith (flags : ℕ) (a b : Option Mapping) : Prop :=
  match a with
  | none => b = none ∨ ∃ p, b = some ⟨p, hwRights flags⟩
  | some a => b = some ⟨a.phys, hwRights (combineFlags a.rights flags)⟩

/-- What the body of the 4 KiB loops does. -/
structure SmallMapped (levels top flags addr : ℕ) (s s' : PhysState) : Prop where
  off : ∀ v < lowerHalf levels, v / pageSize ≠ addr / pageSize →
    lookup levels top s'.mem v = lookup levels top s.mem v
  keeps : ∀ v < lowerHalf levels, KeepsBytes levels top s s' v
  hugeFree : ∀ v < lowerHalf levels, HugeFree s.mem v (levels - 1) top →
    HugeFree s'.mem v (levels - 1) top
  on : HugeFree s.mem addr (levels - 1) top → ∀ v < lowerHalf levels,
    v / pageSize = addr / pageSize →
      MergedWith flags (lookup levels top s.mem v) (lookup levels top s'.mem v)

lemma MapStep.grown {kind : PageKind} {addr phys flags : ℕ}
    (h : MapStep pages kind levels top addr phys flags s s') :
    Grown pages pages2mb levels top s s' where
  calls_le := h.calls_le
  calls2mb_le := h.calls2mb.ge
  separate := h.separate
  plain := h.plain
  tables_sub := h.tables_sub
  changed := h.changed.mono (Set.union_subset_union_right _ Set.subset_union_left)

/-- The walk to an entry that is there does not call the allocator. -/
lemma Loading.calls_eq (h : Loading pages pages2mb levels top s₀ s)
    (hs : LoadSetting pages pages2mb levels top inUse s₀) {addr phys flags : ℕ}
    (haddr : addr < lowerHalf levels) {a : Mapping} (ha : lookup levels top s.mem addr = some a)
    (hfree : HugeFree s.mem addr (levels - 1) top)
    (hmap : pagingMapNoflush pages .page4kb levels top addr phys flags s = some s') :
    s'.calls = s.calls := by
  have hi := pageIndex_lt_of_lower hs.depth haddr
  obtain ⟨x, hx⟩ := exists_tableOnPath hfree ha
  have hlim := (tables_aligned hs.aligned (mem_tables_of_tableOnPath hi hx)).2
  rw [pagingMapNoflush_eq, PageKind.level, walkToLevel_of_tableOnPath pages true hs.aligned.2
    (pathClear_of_plain (fun _ _ h => h) hi h.plain) hx, Option.bind_some] at hmap
  simp only [storeEntry, if_neg (not_le.mpr hlim), Option.some.injEq] at hmap
  rw [← hmap]

/-- **Mapping a range again.**  Every address of the range at `addr` is mapped to its place in the
frame at `base`; the entry is written anew with this frame, and no address changes its place. -/
lemma Loading.remap (h : Loading pages pages2mb levels top s₀ s)
    (hs : LoadSetting pages pages2mb levels top inUse s₀) (kind : PageKind) {addr base g f : ℕ}
    (haddr : addr < lowerHalf levels) (hbase : kind.size ∣ base) (hlt : base < physLimit)
    (hold : ∀ v, v / kind.size = addr / kind.size →
      ∃ b, lookup levels top s.mem v = some b ∧ b.phys = base + v % kind.size)
    (hg : g = base ∨ g = base + 2 ^ 63) (hf : SegmentFlags f) :
    ∃ s', pagingMapNoflush pages kind levels top addr g f s = some s' ∧
      Loading pages pages2mb levels top s₀ s' ∧ MapStep pages kind levels top addr g f s s' ∧
      (∀ v < lowerHalf levels, KeepsBytes levels top s s' v) ∧
      ∀ v < lowerHalf levels, lookup levels top s'.mem v ≠ none →
        lookup levels top s.mem v ≠ none := by
  have hgmod : g % physLimit = base := by
    simp only [physLimit] at *
    omega
  have hbits : ∀ i, 52 ≤ i → i < 63 → g.testBit i = false := by
    intro i hi hi'
    have hlow : base.testBit i = false :=
      Nat.testBit_lt_two_pow (lt_of_lt_of_le hlt (Nat.pow_le_pow_right (by decide) hi))
    rcases hg with hg | hg
    · exact hg ▸ hlow
    · calc g.testBit i = (2 ^ 63 + base).testBit i := by rw [hg, Nat.add_comm]
        _ = base.testBit i := Nat.testBit_two_pow_add_gt hi' _
        _ = false := hlow
  obtain ⟨s', hmap, hst⟩ := h.mapStep hs kind haddr hbits hf.attributes hf.present
  have hphys : ∀ v, (leafMapping (kind.entry g f) kind.level v).phys = base + v % kind.size := by
    intro v
    have hframe : alignDown (2 ^ (12 + kind.level * 9)) (hwAddr (kind.entry g f)) = _ :=
      alignDown_hwAddr_entry hf.attributes.addr
    rw [hgmod, show alignDown (2 ^ (12 + kind.level * 9)) base = base from
      Nat.div_mul_cancel hbase] at hframe
    rw [leafMapping, hframe]
    rfl
  have hsame : ∀ v < lowerHalf levels, ∀ b, lookup levels top s.mem v = some b →
      ∃ b', lookup levels top s'.mem v = some b' ∧ b'.phys = b.phys := by
    intro v hv b hb
    by_cases hpage : v / kind.size = addr / kind.size
    · rcases hst.on with ⟨-, heq⟩ | hnew
      · exact ⟨b, by rw [heq v hv, hb], rfl⟩
      · obtain ⟨b', hb', hbphys⟩ := hold v hpage
        obtain rfl := Option.some.inj (hb.symm.trans hb')
        exact ⟨_, hnew v hpage, (hphys v).trans hbphys.symm⟩
    · exact ⟨b, by rw [hst.off v hv hpage, hb], rfl⟩
  have hfrom : ∀ v < lowerHalf levels, ∀ a', lookup levels top s'.mem v = some a' →
      ∃ b, lookup levels top s.mem v = some b ∧ b.phys = a'.phys := by
    intro v hv a' ha'
    by_cases hpage : v / kind.size = addr / kind.size
    · obtain ⟨b, hb, -⟩ := hold v hpage
      obtain ⟨b', hb', hbphys⟩ := hsame v hv b hb
      rw [ha'] at hb'
      exact ⟨b, hb, by rw [← hbphys, Option.some.inj hb']⟩
    · exact ⟨a', by rw [← hst.off v hv hpage, ha'], rfl⟩
  obtain ⟨hload, hkeep⟩ := h.grow hs.fresh hs.top_inUse hst.grown 0 0 0
    (fun v hv a' ha' => .inl (hfrom v hv a' ha')) (fun x _ hx => absurd hx (by omega))
  refine ⟨s', hmap, hload, hst, fun v hv b hb => ⟨hkeep v hv b hb, hsame v hv b hb⟩,
    fun v hv hne hnone => ?_⟩
  obtain ⟨a', ha'⟩ := Option.ne_none_iff_exists'.mp hne
  obtain ⟨b, hb, -⟩ := hfrom v hv a' ha'
  rw [hnone] at hb
  exact absurd hb (by simp)

/-- Mapping a page again. -/
lemma Loading.remapSmall (h : Loading pages pages2mb levels top s₀ s)
    (hs : LoadSetting pages pages2mb levels top inUse s₀) {addr : ℕ} (flags : ℕ)
    (haddr : addr < lowerHalf levels) (hal : pageSize ∣ addr) {a : Mapping}
    (ha : lookup levels top s.mem addr = some a) {g f : ℕ}
    (hg : g = a.phys ∨ g = a.phys + 2 ^ 63 ∧ ¬HugeFree s.mem addr (levels - 1) top)
    (hf : SegmentFlags f) (hfa : HugeFree s.mem addr (levels - 1) top → f = a.rights) :
    ∃ s', pagingMapPageNoflush pages levels top addr g (combineFlags f flags) s = some s' ∧
      Loading pages pages2mb levels top s₀ s' ∧ SmallMapped levels top flags addr s s' := by
  have hlt := h.phys_lt hs.fresh haddr ha
  have hpal := hwWalk_phys_aligned hal ha
  have hcomb := hf.combine flags
  have hsize : PageKind.page4kb.size = pageSize := rfl
  have hold : ∀ v, v / pageSize = addr / pageSize →
      lookup levels top s.mem v = some ⟨a.phys + v % pageSize, a.rights⟩ := fun v hv => by
    rw [lookup_same_page hal hv, ha]
    rfl
  obtain ⟨s', hmap, hload, hst, hkeep, -⟩ := h.remap hs .page4kb haddr hpal hlt
    (fun v hv => ⟨_, hold v (hsize ▸ hv), rfl⟩) (hg.imp_right And.left) hcomb
  refine ⟨s', hmap, hload, ⟨fun v hv hne => hst.off v hv (hsize ▸ hne), hkeep,
    fun v hv => hst.hugeFree v hv (.inl rfl), fun hfree v hv hpage => ?_⟩⟩
  have hge : g = a.phys := hg.resolve_right fun hc => hc.2 hfree
  rcases hst.on with ⟨hcalls, -⟩ | hnew
  · rw [h.calls_eq hs haddr ha hfree hmap] at hcalls
    exact absurd hcalls (lt_irrefl _)
  · rw [hold v hpage, hnew v (hsize ▸ hpage),
      leafMapping_entry hcomb.attributes.addr (hge ▸ hlt), ← hfa hfree, hge]
    rw [MergedWith, alignDown, hsize, Nat.div_mul_cancel hpal]

/-- A range has been mapped to new memory, unless a table could not be allocated. -/
structure FreshlyMapped (kind : PageKind) (levels top flags addr : ℕ) (s s' : PhysState) :
    Prop where
  off : ∀ v < lowerHalf levels, v / kind.size ≠ addr / kind.size →
    lookup levels top s'.mem v = lookup levels top s.mem v
  bytes : ∀ v < lowerHalf levels, ∀ a, lookup levels top s.mem v = some a →
    s'.mem a.phys = s.mem a.phys
  hugeFree : ∀ v < lowerHalf levels, kind = .page4kb ∨ v / kind.size ≠ addr / kind.size →
    HugeFree s.mem v (levels - 1) top → HugeFree s'.mem v (levels - 1) top
  on : (∀ v < lowerHalf levels, lookup levels top s'.mem v = lookup levels top s.mem v) ∨
    ∀ v < lowerHalf levels, v / kind.size = addr / kind.size →
      ∃ p, lookup levels top s'.mem v = some ⟨p, hwRights flags⟩

/-- Mapping a range to memory that the allocator has just handed out, and zeroing it. -/
lemma Loading.mapFresh (h : Loading pages pages2mb levels top s₀ s)
    (hs : LoadSetting pages pages2mb levels top inUse s₀) (kind : PageKind) {addr p flags : ℕ}
    (haddr : addr < lowerHalf levels) (hal : kind.size ∣ addr) (hflags : SegmentFlags flags)
    (hp : kind.size ∣ p ∧ p < physLimit) (s₁ : PhysState) (hmem : s₁.mem = s.mem)
    (hcalls : s.calls ≤ s₁.calls) (hcalls2 : s.calls2mb ≤ s₁.calls2mb)
    (hgiven : ∀ x, p ≤ x → x < p + kind.size → alignDown pageSize x ∈ given pages pages2mb s s₁) :
    ∃ s₂, pagingMapNoflush pages kind levels top addr p flags s₁ = some s₂ ∧
      ∀ s', zeroPhys p kind.size s₂ = some s' →
        Loading pages pages2mb levels top s₀ s' ∧
          FreshlyMapped kind levels top flags addr s s' ∧
          ((∀ v < lowerHalf levels, lookup levels top s'.mem v = lookup levels top s.mem v) ∨
            ∀ v < lowerHalf levels, v / kind.size = addr / kind.size →
              lookup levels top s'.mem v = some ⟨p + v % kind.size, hwRights flags⟩) := by
  have h₁ := h.of_calls hmem hcalls hcalls2
  have hbits : ∀ i, 52 ≤ i → i < 63 → p.testBit i = false := fun i hi _ =>
    Nat.testBit_lt_two_pow (lt_of_lt_of_le hp.2 (Nat.pow_le_pow_right (by decide) hi))
  obtain ⟨s₂, hmap, hst⟩ := h₁.mapStep hs kind haddr hbits hflags.attributes hflags.present
  refine ⟨s₂, hmap, fun s' hzero => ?_⟩
  rw [zeroPhys] at hzero
  split_ifs at hzero
  obtain rfl := Option.some.inj hzero
  -- the new memory is no table, so that zeroing it does not change the tree
  let S : Set ℕ := {y | ∃ x, p ≤ x ∧ x < p + kind.size ∧ alignDown pageSize x = y}
  have hch : ChangedOnly S s₂.mem (s₂.mem.fill p kind.size 0) := by
    refine fun x hx => Memory.fill_of_outside ?_
    by_contra hin
    exact hx ⟨x, by omega, by omega, rfl⟩
  have hSgiven : ∀ y ∈ S, y ∈ given pages pages2mb s s₁ := by
    rintro y ⟨x, hx, hx', rfl⟩
    exact hgiven x hx hx'
  have hSnot : ∀ y ∈ tables s₂.mem 256 (levels - 1) top, y ∉ S := by
    intro y hy hyS
    have hg := hSgiven y hyS
    rcases hst.tables_sub hy with hy | hy
    · rw [hmem] at hy
      exact (h.given_fresh hs.fresh hs.top_inUse hg).2 hy
    · have hg₀ := given_mono h.calls_le le_rfl h.calls2mb_le le_rfl hg
      have hnot : y ∉ given pages pages2mb s₁ s₂ :=
        hs.fresh.given_disjoint h₁.calls_le h₁.calls2mb_le hg₀
      exact hnot (.inl hy)
  obtain ⟨hlook, hfree, htables, hsep, hplain⟩ :=
    lookup_of_changedOnly hs.depth hs.aligned hch hSnot
  have hcalls₂ : s.calls ≤ s₂.calls := hcalls.trans hst.calls_le
  have hcalls₂' : s.calls2mb ≤ s₂.calls2mb := hst.calls2mb ▸ hcalls2
  have hgrown : Grown pages pages2mb levels top s { s₂ with mem := s₂.mem.fill p kind.size 0 } := by
    refine ⟨hcalls₂, hcalls₂', hsep hst.separate, hplain hst.plain, ?_, ?_⟩
    · rw [htables, ← hmem]
      exact hst.tables_sub.trans (Set.union_subset_union_right _ (handedOut_mono hcalls le_rfl))
    · rw [← hmem]
      refine (hst.changed.trans hch).mono ?_
      rintro x ((hx | hx) | hx)
      · exact .inl hx
      · exact .inr (.inl (handedOut_mono hcalls le_rfl hx))
      · exact .inr (given_mono le_rfl hst.calls_le le_rfl hst.calls2mb.ge (hSgiven x hx))
  have hoff : ∀ v < lowerHalf levels, v / kind.size ≠ addr / kind.size →
      lookup levels top (s₂.mem.fill p kind.size 0) v = lookup levels top s.mem v := by
    intro v hv hne
    rw [hlook v hv, hst.off v hv hne, hmem]
  have hon : (∀ v < lowerHalf levels,
        lookup levels top (s₂.mem.fill p kind.size 0) v = lookup levels top s.mem v) ∨
      ∀ v < lowerHalf levels, v / kind.size = addr / kind.size →
        lookup levels top (s₂.mem.fill p kind.size 0) v =
          some ⟨p + v % kind.size, hwRights flags⟩ := by
    refine hst.on.imp (fun hsame v hv => ?_) fun hnew v hv hpage => ?_
    · rw [hlook v hv, hsame.2 v hv, hmem]
    · rw [hlook v hv, hnew v hpage, leafMapping_entry hflags.attributes.addr hp.2, alignDown,
        Nat.div_mul_cancel hp.1]
  have hpos : 0 < kind.size := Nat.two_pow_pos _
  have hstart : addr / kind.size * kind.size = addr := Nat.div_mul_cancel hal
  have hfrom : ∀ v < lowerHalf levels, ∀ a',
      lookup levels top (s₂.mem.fill p kind.size 0) v = some a' →
      (∃ a, lookup levels top s.mem v = some a ∧ a.phys = a'.phys) ∨
        addr ≤ v ∧ v < addr + kind.size ∧ a'.phys = p + (v - addr) := by
    intro v hv a' ha'
    by_cases hpage : v / kind.size = addr / kind.size
    · rcases hon with hsame | hnew
      · exact .inl ⟨a', by rw [← hsame v hv, ha'], rfl⟩
      · have hdiv := Nat.div_add_mod v kind.size
        rw [hpage, Nat.mul_comm, hstart] at hdiv
        rw [hnew v hv hpage, Option.some.injEq] at ha'
        rw [← ha']
        have := Nat.mod_lt v hpos
        exact .inr ⟨by omega, by omega, by simp only; omega⟩
    · exact .inl ⟨a', by rw [← hoff v hv hpage, ha'], rfl⟩
  obtain ⟨hload, hkeep⟩ := h.grow hs.fresh hs.top_inUse hgrown _ _ _ hfrom fun x hx hx' => by
    have hmem' : alignDown pageSize x ∈ S := ⟨x, hx, hx', rfl⟩
    refine ⟨given_mono le_rfl hst.calls_le le_rfl hst.calls2mb.ge (hSgiven _ hmem'), fun hy => ?_⟩
    rw [htables] at hy
    exact hSnot _ hy hmem'
  exact ⟨hload, ⟨hoff, hkeep, fun v hv hk hf => hfree v hv (hst.hugeFree v hv hk (hmem ▸ hf)),
    hon.imp_right fun hnew v hv hpage => ⟨_, hnew v hv hpage⟩⟩, hon⟩

/-- **The body of the 4 KiB loops.** -/
lemma Loading.mapSmall (h : Loading pages pages2mb levels top s₀ s)
    (hs : LoadSetting pages pages2mb levels top inUse s₀) {addr flags : ℕ}
    (haddr : addr < lowerHalf levels) (hal : pageSize ∣ addr) (hflags : SegmentFlags flags)
    (hrun : mapSmall pages levels top flags addr s = some (true, s')) :
    Loading pages pages2mb levels top s₀ s' ∧ SmallMapped levels top flags addr s s' := by
  obtain ⟨g, hg, hcase⟩ := h.getPhys hs haddr
  simp only [Cuore.mapSmall, hg, Option.bind_eq_bind, Option.bind_some] at hrun
  rcases hcase with ⟨hnone, rfl⟩ | ⟨a, ha, hne, hphys⟩
  · simp only [if_true] at hrun
    split_ifs at hrun with hp0
    · simp at hrun
    have hpage := hs.fresh.page s.calls h.calls_le hp0
    obtain ⟨s₂, hmap, hfresh⟩ := h.mapFresh hs .page4kb haddr hal hflags hpage
      { s with calls := s.calls + 1 } rfl (Nat.le_succ _) le_rfl fun x hx hx' => by
        rw [alignDown_of_mem_page hpage.1 hx hx']
        exact .inl ⟨s.calls, le_rfl, Nat.lt_succ_self _, rfl, hp0⟩
    rw [show pagingMapPageNoflush pages levels top addr (pages s.calls) flags
      { s with calls := s.calls + 1 } = some s₂ from hmap, Option.bind_some] at hrun
    cases hzero : zeroPhys (pages s.calls) pageSize s₂ with
    | none =>
      rw [hzero] at hrun
      simp at hrun
    | some s₃ =>
      rw [hzero] at hrun
      simp only [Option.bind_some, Option.some.injEq, Prod.mk.injEq, true_and] at hrun
      subst hrun
      obtain ⟨hload, hmapped, -⟩ := hfresh _ hzero
      have hpageNone : ∀ v, v / pageSize = addr / pageSize → lookup levels top s.mem v = none := by
        intro v hv
        rw [lookup_same_page hal hv, show lookup levels top s.mem addr = none from hnone]
        rfl
      refine ⟨hload, ⟨hmapped.off, fun v hv a ha => ⟨hmapped.bytes v hv a ha, a, ?_, rfl⟩,
        fun v hv => hmapped.hugeFree v hv (.inl rfl), fun _ v hv hpage => ?_⟩⟩
      · rw [hmapped.off v hv fun hpage => ?_, ha]
        rw [hpageNone v hpage] at ha
        exact absurd ha (by simp)
      · rw [hpageNone v hpage]
        refine hmapped.on.imp (fun hsame => ?_) fun hnew => hnew v hv hpage
        rw [hsame v hv, hpageNone v hpage]
  · simp only [if_neg hne] at hrun
    obtain ⟨f, hf, hfs, hfa⟩ := h.existingFlags hs haddr hflags ha
    obtain ⟨s₂, hmap, hload, hmapped⟩ := h.remapSmall hs flags haddr hal ha hphys hfs hfa
    simp only [hf, hmap, Option.bind_some, Option.some.injEq, Prod.mk.injEq, true_and] at hrun
    subst hrun
    exact ⟨hload, hmapped⟩

/-! ## Mapping 2 MiB pages -/

/-- **The body of the 2 MiB loop**, for a range whose first page is not mapped. -/
lemma Loading.mapHuge (h : Loading pages pages2mb levels top s₀ s)
    (hs : LoadSetting pages pages2mb levels top inUse s₀) {addr flags : ℕ}
    (haddr : addr < lowerHalf levels) (hal : pageSize2mb ∣ addr) (hflags : SegmentFlags flags)
    (hnone : lookup levels top s.mem addr = none)
    (hrun : mapHuge pages pages2mb levels top flags addr s = some (true, s')) :
    Loading pages pages2mb levels top s₀ s' ∧ FreshlyMapped .page2mb levels top flags addr s s' ∧
      ∃ p, pageSize2mb ∣ p ∧
        ((∀ v < lowerHalf levels, lookup levels top s'.mem v = lookup levels top s.mem v) ∨
          ∀ v < lowerHalf levels, v / pageSize2mb = addr / pageSize2mb →
            lookup levels top s'.mem v = some ⟨p + v % pageSize2mb, hwRights flags⟩) := by
  obtain ⟨g, hg, hcase⟩ := h.getPhys hs haddr
  obtain ⟨-, rfl⟩ | ⟨a, ha, -⟩ := hcase
  swap
  · rw [hnone] at ha
    exact absurd ha (by simp)
  simp only [Cuore.mapHuge, hg, Option.bind_eq_bind, Option.bind_some, if_true] at hrun
  split_ifs at hrun with hp0
  · simp at hrun
  have hblock := hs.fresh.block s.calls2mb h.calls2mb_le hp0
  obtain ⟨s₂, hmap, hfresh⟩ := h.mapFresh hs .page2mb haddr hal hflags hblock
    { s with calls2mb := s.calls2mb + 1 } rfl le_rfl (Nat.le_succ _) fun x hx hx' => by
      refine .inr ⟨s.calls2mb, le_rfl, Nat.lt_succ_self _, hp0, ?_, ?_⟩
      · obtain ⟨⟨q, hq⟩, -⟩ := hblock
        rw [hq] at hx ⊢
        simp only [alignDown, pageSize, pageSize2mb] at *
        omega
      · exact lt_of_le_of_lt (alignDown_le _ _) hx'
  rw [show pagingMap2mbNoflush pages levels top addr (pages2mb s.calls2mb) flags
    { s with calls2mb := s.calls2mb + 1 } = some s₂ from hmap, Option.bind_some] at hrun
  cases hzero : zeroPhys (pages2mb s.calls2mb) pageSize2mb s₂ with
  | none =>
    rw [hzero] at hrun
    simp at hrun
  | some s₃ =>
    rw [hzero] at hrun
    simp only [Option.bind_some, Option.some.injEq, Prod.mk.injEq, true_and] at hrun
    subst hrun
    obtain ⟨hload, hmapped, hplace⟩ := hfresh _ hzero
    exact ⟨hload, hmapped, _, hblock.1, hplace⟩

/-! ## Filling -/

/-- The bytes `content` have been written to the `size` addresses from `start` on, and nothing
else has changed. -/
structure Filled (levels top start size : ℕ) (content : ℕ → UInt8) (s s' : PhysState) : Prop where
  lookup_eq : ∀ v < lowerHalf levels, lookup levels top s'.mem v = lookup levels top s.mem v
  hugeFree : ∀ v < lowerHalf levels, HugeFree s.mem v (levels - 1) top →
    HugeFree s'.mem v (levels - 1) top
  bytes : ∀ j < size, ∃ a, lookup levels top s.mem (start + j) = some a ∧ s'.mem a.phys = content j
  other : ∀ v < lowerHalf levels, v < start ∨ start + size ≤ v → ∀ a,
    lookup levels top s.mem v = some a → s'.mem a.phys = s.mem a.phys

lemma Filled.refl (levels top start : ℕ) (content : ℕ → UInt8) (s : PhysState) :
    Filled levels top start 0 content s s where
  lookup_eq _ _ := rfl
  hugeFree _ _ h := h
  bytes j hj := absurd hj (Nat.not_lt_zero j)
  other _ _ _ _ _ := rfl

/-- Two adjacent ranges. -/
lemma Filled.trans {start n k : ℕ} {content content' : ℕ → UInt8} {s'' : PhysState}
    (h : Filled levels top start n content s s')
    (h' : Filled levels top (start + n) k content' s' s'')
    (hend : start + (n + k) ≤ lowerHalf levels) :
    Filled levels top start (n + k) (fun j =>
      if j < n then content j else content' (j - n)) s s'' where
  lookup_eq v hv := (h'.lookup_eq v hv).trans (h.lookup_eq v hv)
  hugeFree v hv hf := h'.hugeFree v hv (h.hugeFree v hv hf)
  bytes j hj := by
    by_cases hjn : j < n
    · obtain ⟨a, ha, hc⟩ := h.bytes j hjn
      refine ⟨a, ha, ?_⟩
      rw [if_pos hjn, ← hc]
      exact h'.other (start + j) (by omega) (by omega) a (by rw [h.lookup_eq _ (by omega), ha])
    · obtain ⟨a, ha, hc⟩ := h'.bytes (j - n) (by omega)
      rw [h.lookup_eq _ (by omega), show start + n + (j - n) = start + j by omega] at ha
      exact ⟨a, ha, by rw [if_neg hjn, hc]⟩
  other v hv hout a ha := by
    rw [← h.other v hv (by omega) a ha]
    exact h'.other v hv (by omega) a (by rw [h.lookup_eq v hv, ha])

lemma Filled.congr {start n : ℕ} {content content' : ℕ → UInt8}
    (h : Filled levels top start n content s s') (heq : ∀ j < n, content j = content' j) :
    Filled levels top start n content' s s' := by
  refine ⟨h.lookup_eq, h.hugeFree, fun j hj => ?_, h.other⟩
  obtain ⟨a, ha, hc⟩ := h.bytes j hj
  exact ⟨a, ha, hc.trans (heq j hj)⟩

/-- Writing to a frame keeps an address space that is being loaded, and all its mappings. -/
lemma Loading.write_frame (h : Loading pages pages2mb levels top s₀ s)
    (hs : LoadSetting pages pages2mb levels top inUse s₀) {page : ℕ} {a : Mapping} {m : Memory}
    (hpage : page < lowerHalf levels) (ha : lookup levels top s.mem page = some a)
    (hch : ChangedOnly {alignDown pageSize a.phys} s.mem m) :
    Loading pages pages2mb levels top s₀ { s with mem := m } ∧
      (∀ v < lowerHalf levels, lookup levels top m v = lookup levels top s.mem v) ∧
      ∀ v < lowerHalf levels, HugeFree s.mem v (levels - 1) top →
        HugeFree m v (levels - 1) top := by
  have hframe := h.frame page hpage a ha
  -- the frame is no table
  obtain ⟨hlook, hfree, htables, hsep, hplain⟩ := lookup_of_changedOnly hs.depth hs.aligned hch
    fun x hx hxa => hframe.2 (Set.mem_singleton_iff.mp hxa ▸ hx)
  refine ⟨⟨h.calls_le, h.calls2mb_le, hsep h.separate, hplain h.plain, ?_, ?_,
    fun v hv b hb => ?_, fun v hv w hw b c hb hc => ?_⟩, hlook, hfree⟩
  · rw [htables]
    exact h.tables_sub
  · refine (h.changed.trans hch).mono (Set.union_subset subset_rfl ?_)
    exact Set.singleton_subset_iff.mpr (.inr hframe.1)
  · rw [hlook v hv] at hb
    rw [htables]
    exact h.frame v hv b hb
  · rw [hlook v hv] at hb
    rw [hlook w hw] at hc
    exact h.inj v hv w hw b c hb hc

/-- A page that starts in the lower half lies in it. -/
lemma page_add_lt_lowerHalf (hlev : levels = 4 ∨ levels = 5) {page d : ℕ}
    (hpage : page < lowerHalf levels) (hal : pageSize ∣ page) (hd : d < pageSize) :
    page + d < lowerHalf levels := by
  obtain ⟨q, rfl⟩ := hal
  obtain ⟨r, hr⟩ : pageSize ∣ lowerHalf levels := by rcases hlev with rfl | rfl <;> decide
  rw [hr] at hpage ⊢
  simp only [pageSize] at *
  omega

/-- **Writing a chunk of a page** through the address that `paging_get_phys` returns. -/
lemma Loading.writeChunk (h : Loading pages pages2mb levels top s₀ s)
    (hs : LoadSetting pages pages2mb levels top inUse s₀) {page off chunk g : ℕ}
    (content : ℕ → UInt8) (m : Memory) (hpage : page < lowerHalf levels) (hal : pageSize ∣ page)
    (hoff : off + chunk ≤ pageSize)
    (hg : pagingGetPhys s.mem levels top page = some g) (hg0 : g ≠ 0)
    (hlim : g + off + chunk ≤ physLimit)
    (hin : ∀ j < chunk, m (g + off + j) = content j)
    (hout : ∀ x, x < g + off ∨ g + off + chunk ≤ x → m x = s.mem x) :
    Loading pages pages2mb levels top s₀ { s with mem := m } ∧
      Filled levels top (page + off) chunk content s { s with mem := m } ∧
      ∃ a, lookup levels top s.mem page = some a ∧
        ChangedOnly {alignDown pageSize a.phys} s.mem m := by
  obtain ⟨g', hg', hcase⟩ := h.getPhys hs hpage
  obtain rfl : g = g' := Option.some.inj (hg.symm.trans hg')
  obtain ⟨-, h0⟩ | ⟨a, ha, -, hphys⟩ := hcase
  · exact absurd h0 hg0
  -- bit 63 would have taken the address out of physical memory
  have hga : g = a.phys := by
    rcases hphys with hphys | ⟨hphys, -⟩
    · exact hphys
    · simp only [physLimit] at hlim
      omega
  have hpal := hwWalk_phys_aligned hal ha
  have hdown : alignDown pageSize a.phys = a.phys := Nat.div_mul_cancel hpal
  have hch : ChangedOnly {alignDown pageSize a.phys} s.mem m := by
    rw [hdown]
    refine fun x hx => hout x ?_
    by_contra hcon
    exact hx (alignDown_of_mem_page hpal (by omega) (by omega))
  obtain ⟨hload, hlook, hfree⟩ := h.write_frame hs hpage ha hch
  have hinpage : ∀ d < pageSize, lookup levels top s.mem (page + d) =
    some ⟨a.phys + d, a.rights⟩ := by
    intro d hd
    rw [lookup_page_add hal hd, ha]
    rfl
  refine ⟨hload, ?_, a, ha, hch⟩
  refine ⟨hlook, hfree, fun j hj => ⟨⟨a.phys + (off + j), a.rights⟩, ?_, ?_⟩,
    fun v hv hvout b hb => ?_⟩
  · rw [Nat.add_assoc]
    exact hinpage _ (by omega)
  · rw [← hin j hj, hga, Nat.add_assoc]
  · apply hout _
    by_contra hcon
    -- the byte would belong to two addresses
    have hd : b.phys - a.phys < pageSize := by omega
    have hsame := h.inj v hv _ (page_add_lt_lowerHalf hs.depth hpage hal hd) b _ hb
      (hinpage _ hd) (by simp only; omega)
    omega

lemma lowerHalf_lt_word (hlev : levels = 4 ∨ levels = 5) : lowerHalf levels < word := by
  rcases hlev with rfl | rfl <;> decide

/-- `range_is_safe` and the check for null, of the source of a `memcpy`. -/
def Accepted (c : ℕ × ℕ) : Prop := c.1 ≠ 0 ∧ rangeIsSafe c.1 c.2 = true

instance (c : ℕ × ℕ) : Decidable (Accepted c) := inferInstanceAs (Decidable (_ ∧ _))

/-- The page, the offset and the size of the first chunk of a range. -/
lemma chunk_bounds {start size chunk : ℕ} (hlt : start < word)
    (hchunk : chunk = if pageSize - (start &&& (pageSize - 1)) > size then size
      else pageSize - (start &&& (pageSize - 1))) (hsize : size ≠ 0) :
    pageSize ∣ (start &&& wnot (pageSize - 1)) ∧
      (start &&& wnot (pageSize - 1)) + (start &&& (pageSize - 1)) = start ∧
      (start &&& (pageSize - 1)) + chunk ≤ pageSize ∧ 0 < chunk ∧ chunk ≤ size := by
  have hpage : start &&& wnot (pageSize - 1) = alignDown (2 ^ 12) start :=
    and_wnot_pred (k := 12) (by decide) hlt
  have hoff : start &&& (pageSize - 1) = start % 2 ^ 12 := Nat.and_two_pow_sub_one_eq_mod start 12
  rw [hoff] at hchunk ⊢
  rw [hpage]
  refine ⟨dvd_alignDown _ _, ?_, ?_⟩
  · rw [alignDown]
    omega
  · have hmod := Nat.mod_lt start (show 0 < 2 ^ 12 by decide)
    rcases Nat.lt_or_ge size (pageSize - start % 2 ^ 12) with hc | hc
    · rw [if_pos hc] at hchunk
      simp only [pageSize] at hc ⊢
      omega
    · rw [if_neg (not_lt.mpr hc)] at hchunk
      simp only [pageSize] at hchunk hc ⊢
      omega

lemma add_le_word_of_rangeIsSafe {p n : ℕ} (hp : p < word) (hn : 0 < n) (hn' : n ≤ word)
    (h : rangeIsSafe p n = true) : p + n ≤ word := by
  by_contra hcon
  simp only [rangeIsSafe, if_neg hn.ne'] at h
  rw [if_pos] at h
  · exact absurd h (by simp)
  · simp only [wsub, wadd, word] at *
    omega

/-- **The copy loop.** -/
lemma Loading.copyLoop (hs : LoadSetting pages pages2mb levels top inUse s₀) {file : Memory}
    {fuel start src size : ℕ} (h : Loading pages pages2mb levels top s₀ s) (hfuel : size ≤ fuel)
    (hend : start + size ≤ lowerHalf levels) (hsrc : src < word)
    (hrun : copyLoop levels top file fuel start src size s = some (true, s')) :
    Loading pages pages2mb levels top s₀ s' ∧
      Filled levels top start size (fun j => file ((src + j) % word)) s s' := by
  induction fuel generalizing s start src size with
  | zero =>
    obtain rfl : size = 0 := by omega
    simp only [Cuore.copyLoop, Step.skip, Option.some.injEq, Prod.mk.injEq, true_and] at hrun
    subst hrun
    exact ⟨h, Filled.refl _ _ _ _ _⟩
  | succ fuel ih =>
    have hword := lowerHalf_lt_word hs.depth
    rw [Cuore.copyLoop] at hrun
    by_cases hsize : size = 0
    · simp only [if_pos hsize, Option.some.injEq, Prod.mk.injEq, true_and] at hrun
      subst hrun
      rw [hsize]
      exact ⟨h, Filled.refl _ _ _ _ _⟩
    simp only [if_neg hsize] at hrun
    generalize hchunk : (if pageSize - (start &&& (pageSize - 1)) > size then size
      else pageSize - (start &&& (pageSize - 1))) = chunk at hrun
    obtain ⟨hal, hstart, hoff, hpos, hle⟩ := chunk_bounds (by omega) hchunk.symm hsize
    generalize (start &&& wnot (pageSize - 1)) = page at *
    generalize (start &&& (pageSize - 1)) = off at *
    obtain ⟨g, hg, -⟩ := h.getPhys hs (v := page) (by omega)
    rw [hg] at hrun
    simp only [Option.bind_eq_bind, Option.bind_some] at hrun
    split_ifs at hrun with hg0 hbad
    · simp at hrun
    simp only [not_or, not_lt, Bool.not_eq_true] at hbad
    obtain ⟨hsrc0, hsafe, hlim⟩ := hbad
    have hsum := add_le_word_of_rangeIsSafe hsrc hpos (by omega) (by simpa using hsafe)
    obtain ⟨hload, hfill, -⟩ := h.writeChunk hs (fun j => file ((src + j) % word))
      (s.mem.copyFrom (g + off) chunk file src) (by omega) hal hoff hg hg0 hlim
      (fun j hj => by
        rw [Memory.copyFrom_of_inside (by omega) (by omega), Nat.mod_eq_of_lt (by omega)]
        congr 1
        omega)
      fun x hx => Memory.copyFrom_of_outside (by omega)
    rw [wadd_of_lt (by omega)] at hrun
    obtain ⟨hload', hfill'⟩ := ih hload (by omega) (by omega) (wadd_lt _ _) hrun
    rw [hstart] at hfill
    have hall := hfill.trans hfill' (by omega)
    rw [show chunk + (size - chunk) = size by omega] at hall
    refine ⟨hload', hall.congr fun j hj => ?_⟩
    split_ifs with hjc
    · rfl
    · congr 1
      simp only [wadd, Nat.mod_add_mod]
      congr 1
      omega

/-- **The zeroing loop.** -/
lemma Loading.bssLoop (hs : LoadSetting pages pages2mb levels top inUse s₀)
    {fuel start size : ℕ} (h : Loading pages pages2mb levels top s₀ s) (hfuel : size ≤ fuel)
    (hend : start + size ≤ lowerHalf levels)
    (hrun : bssLoop levels top fuel start size s = some (true, s')) :
    Loading pages pages2mb levels top s₀ s' ∧ Filled levels top start size (fun _ => 0) s s' := by
  induction fuel generalizing s start size with
  | zero =>
    obtain rfl : size = 0 := by omega
    simp only [Cuore.bssLoop, Step.skip, Option.some.injEq, Prod.mk.injEq, true_and] at hrun
    subst hrun
    exact ⟨h, Filled.refl _ _ _ _ _⟩
  | succ fuel ih =>
    have hword := lowerHalf_lt_word hs.depth
    rw [Cuore.bssLoop] at hrun
    by_cases hsize : size = 0
    · simp only [if_pos hsize, Option.some.injEq, Prod.mk.injEq, true_and] at hrun
      subst hrun
      rw [hsize]
      exact ⟨h, Filled.refl _ _ _ _ _⟩
    simp only [if_neg hsize] at hrun
    generalize hchunk : (if pageSize - (start &&& (pageSize - 1)) > size then size
      else pageSize - (start &&& (pageSize - 1))) = chunk at hrun
    obtain ⟨hal, hstart, hoff, hpos, hle⟩ := chunk_bounds (by omega) hchunk.symm hsize
    generalize (start &&& wnot (pageSize - 1)) = page at *
    generalize (start &&& (pageSize - 1)) = off at *
    obtain ⟨g, hg, -⟩ := h.getPhys hs (v := page) (by omega)
    rw [hg] at hrun
    simp only [Option.bind_eq_bind, Option.bind_some] at hrun
    split_ifs at hrun with hg0
    · simp at hrun
    rw [zeroPhys] at hrun
    split_ifs at hrun with hlim
    · simp at hrun
    obtain ⟨hload, hfill, -⟩ :=
      h.writeChunk hs (fun _ => 0) (s.mem.fill (g + off) chunk 0) (by omega) hal hoff hg hg0
      (by omega) (fun j hj => Memory.fill_of_inside (by omega) (by omega))
      fun x hx => Memory.fill_of_outside (by omega)
    rw [Option.bind_some, wadd_of_lt (by omega)] at hrun
    obtain ⟨hload', hfill'⟩ := ih hload (by omega) (by omega) hrun
    rw [hstart] at hfill
    have hall := hfill.trans hfill' (by omega)
    rw [show chunk + (size - chunk) = size by omega] at hall
    exact ⟨hload', hall.congr fun j _ => by split_ifs <;> rfl⟩

/-! ## Bounds -/

namespace Elf64Phdr

variable {ph : Elf64Phdr}

/-- The segment lies in the lower half. -/
def InLowerHalf (levels : ℕ) (ph : Elf64Phdr) : Prop := ph.pVaddr + ph.pMemsz ≤ lowerHalf levels

instance (levels : ℕ) (ph : Elf64Phdr) : Decidable (ph.InLowerHalf levels) :=
  inferInstanceAs (Decidable (_ ≤ _))

/-- The page of `v` holds a byte of the segment. -/
def Meets (ph : Elf64Phdr) (v : ℕ) : Prop :=
  ∃ j < ph.pMemsz, (ph.pVaddr + j) / pageSize = v / pageSize

/-- The bounds of the loops, as plain inequalities. -/
structure Bounds (levels : ℕ) (ph : Elf64Phdr) : Prop where
  start_dvd : 4096 ∣ ph.segStart
  start_le : ph.segStart ≤ ph.pVaddr
  lt_start : ph.pVaddr < ph.segStart + 4096
  end_dvd : 4096 ∣ ph.segEnd
  le_end : ph.pVaddr + ph.pMemsz ≤ ph.segEnd
  end_lt : ph.segEnd < ph.pVaddr + ph.pMemsz + 4096
  end_le : ph.segEnd ≤ lowerHalf levels
  hugeStart_dvd : 0x200000 ∣ ph.hugeStart
  le_hugeStart : ph.segStart ≤ ph.hugeStart
  hugeStart_lt : ph.hugeStart < ph.segStart + 0x200000
  hugeEnd_dvd : 0x200000 ∣ ph.hugeEnd
  hugeEnd_le : ph.hugeEnd ≤ ph.segEnd
  lt_hugeEnd : ph.segEnd < ph.hugeEnd + 0x200000

lemma bounds (hlev : levels = 4 ∨ levels = 5) (h : ph.InLowerHalf levels) : ph.Bounds levels := by
  have hhalf : lowerHalf levels ≤ 2 ^ 56 := by rcases hlev with rfl | rfl <;> decide
  have hdvd : ∃ q, lowerHalf levels = 4096 * q := by
    rcases hlev with rfl | rfl
    · exact ⟨2 ^ 35, by decide⟩
    · exact ⟨2 ^ 44, by decide⟩
  obtain ⟨q, hq⟩ := hdvd
  have hle : ph.pVaddr + ph.pMemsz ≤ lowerHalf levels := h
  have hstart : ph.segStart = alignDown (2 ^ 12) ph.pVaddr :=
    and_wnot_pred (k := 12) (by decide) (by simp only [word]; omega)
  have hsum : wsub (wadd (wadd ph.pVaddr ph.pMemsz) pageSize) 1 = ph.pVaddr + ph.pMemsz + 4095 := by
    simp only [wsub, wadd, pageSize, word]
    omega
  have hend : ph.segEnd = alignDown (2 ^ 12) (ph.pVaddr + ph.pMemsz + 4095) := by
    rw [segEnd, hsum]
    exact and_wnot_pred (k := 12) (by decide) (by simp only [word]; omega)
  have hstart_le : ph.segStart ≤ 2 ^ 56 := by
    rw [hstart]
    exact (alignDown_le _ _).trans (by omega)
  have hend_lt : ph.segEnd < word := by
    rw [hend]
    exact lt_of_le_of_lt (alignDown_le _ _) (by simp only [word]; omega)
  have hhuge : wsub (wadd ph.segStart pageSize2mb) 1 = ph.segStart + 0x1FFFFF := by
    simp only [wsub, wadd, pageSize2mb, word]
    omega
  have hhs : ph.hugeStart = alignDown (2 ^ 21) (ph.segStart + 0x1FFFFF) := by
    rw [hugeStart, hhuge]
    exact and_wnot_pred (k := 21) (by decide) (by simp only [word]; omega)
  have hhe : ph.hugeEnd = alignDown (2 ^ 21) ph.segEnd :=
    and_wnot_pred (k := 21) (by decide) hend_lt
  rw [alignDown] at hstart hend hhs hhe
  refine ⟨by omega, by omega, by omega, by omega, by omega, by omega,
    by omega, ?_, ?_, ?_, ?_, ?_, ?_⟩
  all_goals clear hstart hend
  all_goals omega

end Elf64Phdr

/-! ## The start -/

/-- An empty lower half maps nothing, and is where loading starts. -/
lemma loading_start (hs : LoadSetting pages pages2mb levels top inUse s₀)
    (hempty : ∀ i < 256, (readEntry s₀.mem top i).testBit 0 = false) :
    Loading pages pages2mb levels top s₀ s₀ ∧
      ∀ v < lowerHalf levels, lookup levels top s₀.mem v = none ∧
        HugeFree s₀.mem v (levels - 1) top := by
  obtain ⟨l, hl⟩ : ∃ l, levels - 1 = l + 1 := ⟨levels - 2, by have := hs.depth; omega⟩
  have hno : ∀ i < 256, ¬PointsToTable (readEntry s₀.mem top i) := fun i hi hp =>
    absurd (hp.1.symm.trans (hempty i hi)) (by simp)
  have hnone : ∀ v < lowerHalf levels, lookup levels top s₀.mem v = none := by
    intro v hv
    have hi := pageIndex_lt_of_lower hs.depth hv
    rw [hl] at hi
    rw [lookup, hl, hwWalk]
    simp [hempty _ hi]
  obtain ⟨htables, hsep⟩ := tables_eq_singleton (l := l + 1) (.inr hno)
  rw [← hl] at htables hsep
  refine ⟨⟨le_rfl, le_rfl, hsep, ?_, ?_, ChangedOnly.refl _ _, fun v hv a ha => ?_,
    fun v hv w hw a b ha => ?_⟩, fun v hv => ⟨hnone v hv, ?_⟩⟩
  · rw [hl]
    intro i hi
    refine ⟨fun h0 => ?_, fun hp => absurd hp (hno i hi)⟩
    rw [hempty i hi] at h0
    exact absurd h0 (by simp)
  · rw [htables]
    exact Set.subset_union_left
  · rw [hnone v hv] at ha
    exact absurd ha (by simp)
  · rw [hnone v hv] at ha
    exact absurd ha (by simp)
  · have hi := pageIndex_lt_of_lower hs.depth hv
    rw [hl] at hi ⊢
    intro h0
    rw [hempty _ hi] at h0
    exact absurd h0 (by simp)

/-! ## Files and allocators to load with -/

/-- Write a program header. -/
def storePhdr (m : Memory) (p : ℕ) (ph : Elf64Phdr) : Memory :=
  (((((m.store p 4 ph.pType).store (p + 4) 4 ph.pFlags).store (p + 8) 8 ph.pOffset).store
    (p + 16) 8 ph.pVaddr).store (p + 32) 8 ph.pFilesz).store (p + 40) 8 ph.pMemsz

/-- Write program headers one after the other. -/
def storePhdrs : Memory → ℕ → List Elf64Phdr → Memory
  | m, _, [] => m
  | m, p, ph :: phs => storePhdrs (storePhdr m p ph) (p + 56) phs

/-- An executable at `fileData` with the given program headers. -/
def elfFile (fileData : ℕ) (phs : List Elf64Phdr) : Memory :=
  let m : Memory := fun _ => 0
  let m := m.store fileData 6 0x0102464c457f
  let m := (m.store (fileData + 16) 2 2).store (fileData + 18) 2 62
  let m := (m.store (fileData + 32) 8 64).store (fileData + 54) 2 56
  storePhdrs (m.store (fileData + 56) 2 phs.length) (fileData + 64) phs

/-- An allocator that hands out the pages of a list and no 2 MiB blocks. -/
lemma freshMemory_of_list {l : List ℕ} (hnodup : l.Nodup)
    (hl : ∀ x ∈ l, pageSize ∣ x ∧ x < physLimit ∧ x ∉ inUse) (s : PhysState) :
    FreshMemory (fun k => l.getD k 0) (fun _ => 0) inUse s := by
  have hmem : ∀ k, l.getD k 0 ≠ 0 → ∃ h : k < l.length, l.getD k 0 = l[k] := by
    intro k hk
    by_cases h : k < l.length
    · exact ⟨h, List.getD_eq_getElem _ _ h⟩
    · rw [List.getD_eq_default _ _ (by omega)] at hk
      exact absurd rfl hk
  have hpage : ∀ k, l.getD k 0 ≠ 0 → l.getD k 0 ∈ l := by
    intro k hk
    obtain ⟨h, heq⟩ := hmem k hk
    exact heq ▸ List.getElem_mem h
  refine ⟨fun k _ hk => ⟨(hl _ (hpage k hk)).1, (hl _ (hpage k hk)).2.1⟩, by simp,
    fun k _ hk => (hl _ (hpage k hk)).2.2, by simp, fun j k _ _ hj hjk => ?_, by simp, by simp⟩
  obtain ⟨h1, e1⟩ := hmem j hj
  obtain ⟨h2, e2⟩ := hmem k (hjk ▸ hj)
  exact (hnodup.getElem_inj_iff).mp (by rw [← e1, ← e2, hjk])

end Cuore
