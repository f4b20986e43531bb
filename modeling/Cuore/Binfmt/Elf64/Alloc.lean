import Cuore.Binfmt.Elf64.Image

/-!
# The top table of a process (`elf64_alloc`)

`elf64_alloc` takes a fresh page for the top table of the new process, zeroes it, copies slots 256
to 511 from the kernel's table and hands it to `elf64_parse`.  The copied slots point to the same
tables as the kernel's, so below the top table the higher half is shared.

What `elf64_parse` may touch there is decided by the addresses it walks.  The page-table functions
look at the low `12 + 9 * levels` bits of an address only (`lowAddr`), whether it is canonical or
not, and write to the slot of the top table that these bits select: on a walk for the lower half
the upper slots stay as they are (`Loading.map_upper`).
-/

namespace Cuore

/-! ## The model -/

/-- `for (int i = 256; i < 512; i++) proc_pml4_virt[i] = kernel_pml4[i];` -/
@[irreducible] def cloneEntries (m : Memory) (procPml4 kernelPml4 : ℕ) : Memory :=
  (List.range' 256 256).foldl (fun m i => writeEntry m procPml4 i (readEntry m kernelPml4 i)) m

/-- `elf64_alloc` up to the call of `elf64_parse`: the top table of the process, if there is a
page for it. -/
def cloneHigherHalf (pages : ℕ → ℕ) (kernelPml4 : ℕ) (s : PhysState) :
    Option (Option ℕ × PhysState) :=
  let procPml4 := pages s.calls
  let s := { s with calls := s.calls + 1 }
  if procPml4 = 0 then some (none, s)
  else if procPml4 ≥ physLimit then none
  else
    let m := s.mem.fill procPml4 pageSize 0
    some (some procPml4, { s with mem := cloneEntries m procPml4 kernelPml4 })

/-- `elf64_alloc` up to the creation of the task: its entry point and its `cr3`. -/
def elf64Alloc (pages pages2mb : ℕ → ℕ) (levels : ℕ) (file : Memory)
    (fileData fileSize kernelPml4 : ℕ) (s : PhysState) : Option (Option (ℕ × ℕ) × PhysState) :=
  match cloneHigherHalf pages kernelPml4 s with
  | none => none
  | some (none, s) => some (none, s)
  | some (some procPml4, s) =>
    match elf64Parse pages pages2mb levels file fileData fileSize procPml4 false s with
    | none => none
    | some (ret, s') => some (if ret.status = 0 then none else some (ret.entry, procPml4), s')

/-! ## Cloning -/

variable {pages pages2mb : ℕ → ℕ} {levels top kernel : ℕ} {inUse : Set ℕ} {s₀ s s' : PhysState}

/-- The loop copies the entries and leaves the rest of memory alone. -/
lemma cloneEntries_spec {m : Memory} (htop : pageSize ∣ top) (hk : pageSize ∣ kernel)
    (hne : kernel ≠ top) :
    ChangedOnly {top} m (cloneEntries m top kernel) ∧
      (∀ i < 256, readEntry (cloneEntries m top kernel) top i = readEntry m top i) ∧
      ∀ i, 256 ≤ i → i < 512 →
        readEntry (cloneEntries m top kernel) top i = readEntry m kernel i := by
  unfold cloneEntries
  suffices h : ∀ n ≤ 256, ∀ m' : Memory, m' = (List.range' 256 n).foldl
      (fun m i => writeEntry m top i (readEntry m kernel i)) m →
      ChangedOnly {top} m m' ∧ (∀ i < 256, readEntry m' top i = readEntry m top i) ∧
        ∀ i, 256 ≤ i → i < 256 + n → readEntry m' top i = readEntry m kernel i from
    h 256 le_rfl _ rfl
  intro n
  induction n with
  | zero =>
    rintro - m' rfl
    exact ⟨ChangedOnly.refl _ _, fun _ _ => rfl, fun i hi hi' => absurd hi' (by omega)⟩
  | succ n ih =>
    rintro hn m' rfl
    obtain ⟨hch, hlow, hread⟩ := ih (by omega) _ rfl
    rw [List.range'_1_concat, List.foldl_append, List.foldl_cons, List.foldl_nil]
    refine ⟨(hch.trans (changedOnly_writeEntry htop (by omega))).mono (by simp), fun i hi => ?_,
      fun i hi hi' => ?_⟩
    · rw [readEntry_writeEntry_of_index_ne (by omega), hlow i hi]
    · by_cases hin : i = 256 + n
      · subst hin
        rw [readEntry_writeEntry_self (readEntry_lt _ _ _)]
        exact hch.readEntry_eq hk (fun hmem => hne hmem) (by omega)
      · rw [readEntry_writeEntry_of_index_ne (Ne.symm hin), hread i hi (by omega)]

/-- What the process's table looks like when `elf64_parse` gets it. -/
structure Cloned (pages : ℕ → ℕ) (top kernel : ℕ) (s s' : PhysState) : Prop where
  top_eq : top = pages s.calls ∧ top ≠ 0
  calls : s'.calls = s.calls + 1
  calls2mb : s'.calls2mb = s.calls2mb
  changed : ChangedOnly {top} s.mem s'.mem
  lower : ∀ i < 256, readEntry s'.mem top i = 0
  upper : ∀ i, 256 ≤ i → i < 512 → readEntry s'.mem top i = readEntry s.mem kernel i

lemma cloneHigherHalf_spec (hf : FreshMemory pages pages2mb inUse s) (hk : pageSize ∣ kernel)
    (hkernel : kernel ∈ inUse) (h : cloneHigherHalf pages kernel s = some (some top, s')) :
    Cloned pages top kernel s s' := by
  rw [cloneHigherHalf] at h
  split_ifs at h with h0 hlim
  · simp at h
  simp only [Option.some.injEq, Prod.mk.injEq] at h
  obtain ⟨htop, rfl⟩ := h
  rw [htop] at h0
  have hal : pageSize ∣ top := htop ▸ (hf.page s.calls le_rfl (htop.symm ▸ h0)).1
  have hne : kernel ≠ top := by
    rintro rfl
    exact hf.unused s.calls le_rfl (htop.symm ▸ h0) (htop.symm ▸ hkernel)
  have hfill : ChangedOnly {top} s.mem (s.mem.fill top pageSize 0) := changedOnly_fill hal
  obtain ⟨hch, hlow, hup⟩ := cloneEntries_spec (m := s.mem.fill top pageSize 0) hal hk hne
  rw [htop]
  refine ⟨⟨htop.symm, h0⟩, rfl, rfl, (hfill.trans hch).mono (by simp), fun i hi => ?_,
    fun i hi hi' => ?_⟩
  · rw [← readEntry_fill_zero (m := s.mem) (t := top) (show i < 512 by omega)]
    exact hlow i hi
  · exact (hup i hi hi').trans (hfill.readEntry_eq hk (fun hmem => hne hmem) hi')

/-- The page taken for the table is in use from now on. -/
lemma Cloned.setting (hc : Cloned pages top kernel s s') (hlev : levels = 4 ∨ levels = 5)
    (hf : FreshMemory pages pages2mb inUse s) :
    LoadSetting pages pages2mb levels top (insert top inUse) s' := by
  obtain ⟨htop, h0⟩ := hc.top_eq
  have hle : s.calls ≤ s'.calls := hc.calls ▸ Nat.le_succ _
  have hle2 : s.calls2mb ≤ s'.calls2mb := hc.calls2mb.ge
  refine ⟨hlev, htop ▸ hf.page s.calls le_rfl (htop ▸ h0), Set.mem_insert _ _,
    ⟨fun k hk => hf.page k (hle.trans hk), fun k hk => hf.block k (hle2.trans hk), ?_, ?_,
      fun j k hj hk => hf.distinct j k (hle.trans hj) (hle.trans hk),
      fun j k hj hk => hf.distinct2mb j k (hle2.trans hj) (hle2.trans hk),
      fun j k hj hk => hf.apart j k (hle.trans hj) (hle2.trans hk)⟩⟩
  · rintro k hk hne (hmem | hmem)
    · have := hf.distinct k s.calls (hle.trans hk) le_rfl hne (hmem.trans htop)
      rw [hc.calls] at hk
      omega
    · exact hf.unused k (hle.trans hk) hne hmem
  · rintro k hk hne x hx hx' (hmem | hmem)
    · have := hf.apart s.calls k le_rfl (hle2.trans hk) (htop ▸ h0) hne
      rw [← htop, ← hmem] at this
      omega
    · exact hf.unused2mb k (hle2.trans hk) hne x hx hx' hmem

/-! ## The bits of an address that a walk uses -/

/-- The bits of an address that select entries and the place in a page. -/
def lowAddr (levels v : ℕ) : ℕ := v % 2 ^ (12 + levels * 9)

lemma testBit_lowAddr (levels v i : ℕ) :
    (lowAddr levels v).testBit i = (decide (i < 12 + levels * 9) && v.testBit i) := by
  rw [lowAddr, Nat.testBit_mod_two_pow]

lemma pageIndex_lowAddr {l : ℕ} (hl : l < levels) (v : ℕ) :
    pageIndex (lowAddr levels v) l = pageIndex v l := by
  refine Nat.eq_of_testBit_eq fun i => ?_
  simp only [pageIndex, show 0x1FF = 2 ^ 9 - 1 from rfl, Nat.testBit_and, Nat.testBit_shiftRight,
    testBit_lowAddr, Nat.testBit_two_pow_sub_one]
  by_cases hi : i < 9
  · rw [decide_eq_true (show 12 + l * 9 + i < 12 + levels * 9 by omega), Bool.true_and]
  · simp [hi]

lemma lowAddr_and_mask {k : ℕ} (hk : k ≤ 12 + levels * 9) (v : ℕ) :
    lowAddr levels v &&& (2 ^ k - 1) = v &&& (2 ^ k - 1) := by
  rw [Nat.and_two_pow_sub_one_eq_mod, Nat.and_two_pow_sub_one_eq_mod, lowAddr,
    Nat.mod_mod_of_dvd _ (Nat.pow_dvd_pow 2 hk)]

lemma walkToLevel_lowAddr (pages : ℕ → ℕ) (v target : ℕ) (b : Bool) {l : ℕ} (hl : l < levels)
    (t : ℕ) (s : PhysState) :
    walkToLevel pages (lowAddr levels v) target b l t s = walkToLevel pages v target b l t s := by
  induction l generalizing t s with
  | zero => rfl
  | succ l ih => simp only [walkToLevel, pageIndex_lowAddr hl, ih (by omega)]

lemma getPhysFrom_lowAddr (m : Memory) (v : ℕ) {l : ℕ} (hl : l < levels) (t : ℕ) :
    getPhysFrom m (lowAddr levels v) l t = getPhysFrom m v l t := by
  have h12 : lowAddr levels v &&& 0xFFF = v &&& 0xFFF := lowAddr_and_mask (k := 12) (by omega) v
  induction l generalizing t with
  | zero =>
    have h0 : lowAddr levels v >>> 12 &&& 0x1FF = v >>> 12 &&& 0x1FF := pageIndex_lowAddr hl v
    simp only [getPhysFrom, h0, h12]
  | succ l ih =>
    simp only [getPhysFrom, pageIndex_lowAddr hl, ih (by omega),
      lowAddr_and_mask (show 12 + (l + 1) * 9 ≤ 12 + levels * 9 by omega)]

section Low

variable (hlev : levels = 4 ∨ levels = 5)
include hlev

lemma pagingGetPhys_lowAddr (m : Memory) (top v : ℕ) :
    pagingGetPhys m levels top (lowAddr levels v) = pagingGetPhys m levels top v :=
  getPhysFrom_lowAddr m v (by omega) top

lemma pagingGetPte_lowAddr (top v : ℕ) (b : Bool) (s : PhysState) :
    pagingGetPte pages levels top (lowAddr levels v) b s = pagingGetPte pages levels top v b s := by
  simp only [pagingGetPte, walkToLevel_lowAddr pages v 0 b (show levels - 1 < levels by omega),
    pageIndex_lowAddr (show 0 < levels by omega)]

lemma pagingMapNoflush_lowAddr (kind : PageKind) (top v phys flags : ℕ) (s : PhysState) :
    pagingMapNoflush pages kind levels top (lowAddr levels v) phys flags s =
      pagingMapNoflush pages kind levels top v phys flags s := by
  have hk := kind.level_le
  rw [pagingMapNoflush_eq, pagingMapNoflush_eq,
    walkToLevel_lowAddr pages v _ true (show levels - 1 < levels by omega),
    pageIndex_lowAddr (show kind.level < levels by omega)]

/-- The bodies of the mapping loops see the low bits of an address only. -/
lemma mapSmall_lowAddr (flags v : ℕ) :
    mapSmall pages levels top flags (lowAddr levels v) = mapSmall pages levels top flags v := by
  have hmap : ∀ phys flags s,
    pagingMapNoflush pages .page4kb levels top (lowAddr levels v) phys flags
      s = pagingMapNoflush pages .page4kb levels top v phys flags s :=
    pagingMapNoflush_lowAddr hlev .page4kb top v
  simp only [pagingMapNoflush] at hmap
  funext s
  simp only [mapSmall, existingFlags, pagingGetPhys_lowAddr hlev, pagingGetPte_lowAddr hlev, hmap]

lemma mapHuge_lowAddr (flags v : ℕ) :
    mapHuge pages pages2mb levels top flags (lowAddr levels v) =
      mapHuge pages pages2mb levels top flags v := by
  have hmap : ∀ phys flags s,
    pagingMapNoflush pages .page2mb levels top (lowAddr levels v) phys flags
      s = pagingMapNoflush pages .page2mb levels top v phys flags s :=
    pagingMapNoflush_lowAddr hlev .page2mb top v
  simp only [pagingMapNoflush] at hmap
  funext s
  simp only [mapHuge, existingFlags, pagingGetPhys_lowAddr hlev, pagingGetPte_lowAddr hlev, hmap]

/-- The upper slots of the top table are the addresses whose low bits lie in the higher half. -/
lemma lowAddr_lt_lowerHalf_iff (v : ℕ) :
    lowAddr levels v < lowerHalf levels ↔ pageIndex v (levels - 1) < 256 := by
  rw [pageIndex_eq, lowAddr, lowerHalf]
  rcases hlev with rfl | rfl <;> omega

end Low

/-! ## The upper slots -/

/-- The slots 256 to 511 of a table are the same. -/
def UpperKept (top : ℕ) (m m' : Memory) : Prop :=
  ∀ j, 256 ≤ j → j < 512 → readEntry m' top j = readEntry m top j

lemma UpperKept.refl (top : ℕ) (m : Memory) : UpperKept top m m := fun _ _ _ => rfl

lemma UpperKept.trans {m m' m'' : Memory} (h : UpperKept top m m') (h' : UpperKept top m' m'') :
    UpperKept top m m'' := fun j hj hj' => (h' j hj hj').trans (h j hj hj')

lemma ChangedOnly.upperKept {S : Set ℕ} {m m' : Memory} (h : ChangedOnly S m m')
    (htop : pageSize ∣ top) (hS : top ∉ S) : UpperKept top m m' :=
  fun _ _ hj => h.readEntry_eq htop hS hj

section Walk

variable {P : ℕ → ℕ → Prop} {virt target l t c b : ℕ} {m₁ : Memory}

/-- One level of a walk for the lower half, with the walk below it: the latter writes to tables
below and to fresh pages. -/
lemma Prepared.upperKept {r : Option ℕ} {out : Option (Option ℕ × PhysState)}
    (hp : Prepared P pages s.calls b s.mem m₁ 256 l t (pageIndex virt (l + 1)) c)
    (hf : FreshPages s.mem 256 (l + 1) t pages s.calls) (hle : s.calls ≤ b) (ht : pageSize ∣ t)
    (hup : UpperKept t s.mem m₁)
    (hout : WalkOutcome P pages virt target 512 l c ⟨m₁, b, s.calls2mb⟩ out)
    (hrun : out = some (r, s')) : UpperKept t s.mem s'.mem := by
  obtain ⟨r', s'', rfl, hw, -, -⟩ := hout
  obtain ⟨-, rfl⟩ := Prod.mk.injEq _ _ _ _ ▸ Option.some.inj hrun
  refine hup.trans (hw.changed.upperKept ht ?_)
  rintro (hmem | ⟨k, hk, -, hkt, hk0⟩)
  · exact hp.not_mem hmem
  · exact hf.fresh k (hle.trans hk) (hkt ▸ hk0) (hkt ▸ self_mem_tables _ _ _ _)

/-- A walk for the lower half writes to the lower slots of the top table only. -/
lemma walkToLevel_upper (hP : EntryInv P) {r : Option ℕ} (ht : pageSize ∣ t ∧ t < physLimit)
    (hsep : Separate s.mem 256 (l + 1) t) (hall : AllEntries P s.mem 256 (l + 1) t)
    (hf : FreshPages s.mem 256 (l + 1) t pages s.calls) (hi : pageIndex virt (l + 1) < 256)
    (hclear : PathClear s.mem virt target (l + 1) t)
    (hrun : walkToLevel pages virt target true (l + 1) t s = some (r, s')) :
    UpperKept t s.mem s'.mem := by
  have hi' := pageIndex_lt virt l
  -- the store that makes the slot of `virt` point to the page taken for a table
  have hstore : ∀ (m : Memory) (e : ℕ), ChangedOnly {pages s.calls} s.mem m → pages s.calls ≠ 0 →
      UpperKept t s.mem (writeEntry m t (pageIndex virt (l + 1)) e) := by
    intro m e hch hne j hj hj'
    rw [readEntry_writeEntry_of_index_ne (by omega)]
    refine hch.readEntry_eq ht.1 (fun hmem => hf.fresh s.calls le_rfl hne ?_) hj'
    rw [← Set.mem_singleton_iff.mp hmem]
    exact self_mem_tables _ _ _ _
  rw [walkToLevel] at hrun
  simp only [if_neg (not_le.mpr ht.2), and_ptePresent_eq_zero, and_pteHugePage_ne_zero,
    Bool.not_true, Bool.false_eq_true, if_false, ge_iff_le] at hrun
  split_ifs at hrun with htarget h0 hz hlim h7 hz hlim
  · simp only [Option.some.injEq, Prod.mk.injEq] at hrun
    exact hrun.2 ▸ UpperKept.refl _ _
  · simp only [Option.some.injEq, Prod.mk.injEq] at hrun
    exact hrun.2 ▸ UpperKept.refl _ _
  · have hpage := hf.page _ le_rfl hz
    have hp := prepared_new ht (by decide) hi hP hf hz h0
    exact hp.upperKept hf (Nat.le_succ _) ht.1 (hstore _ _ (changedOnly_fill hpage.1) hz)
      (walkToLevel_spec hP hpage hp.separate hp.entries
        (hp.freshPages hf (Nat.le_succ _)) le_rfl hi'
        (pathClear_of_leaf (hp.leaf ⟨s.calls, le_rfl, Nat.lt_succ_self _, rfl, hz⟩))) hrun
  · simp only [Option.some.injEq, Prod.mk.injEq] at hrun
    exact hrun.2 ▸ UpperKept.refl _ _
  · have hpage := hf.page _ le_rfl hz
    have hp := prepared_split ht (by decide) hi hall hP hf hz (by simpa using h0) h7
    exact hp.upperKept hf (Nat.le_succ _) ht.1 (hstore _ _ (writeTable_spec hpage.1).1 hz)
      (walkToLevel_spec hP hpage hp.separate hp.entries
        (hp.freshPages hf (Nat.le_succ _)) le_rfl hi'
        (pathClear_of_leaf (hp.leaf ⟨s.calls, le_rfl, Nat.lt_succ_self _, rfl, hz⟩))) hrun
  · have hpt : PointsToTable (readEntry s.mem t (pageIndex virt (l + 1))) :=
      ⟨by simpa using h0, by simpa using h7⟩
    obtain ⟨hc, hclear'⟩ := (hclear.resolve_left htarget).resolve_left (not_not.mpr hpt)
    have hp : Prepared P pages s.calls s.calls s.mem s.mem 256 l t _ _ :=
      prepared_descend hi hsep hall hpt s.calls
    rw [and_pteAddrMask_of_clear hc] at hrun
    exact hp.upperKept hf le_rfl ht.1 (UpperKept.refl _ _)
      (walkToLevel_spec hP (hwAddr_aligned _) hp.separate hp.entries (hp.freshPages hf le_rfl)
        le_rfl hi' hclear') hrun

end Walk

/-- **Mapping in the lower half keeps the upper slots.** -/
lemma Loading.map_upper (h : Loading pages pages2mb levels top s₀ s)
    (hs : LoadSetting pages pages2mb levels top inUse s₀) {kind : PageKind} {addr phys flags : ℕ}
    (haddr : addr < lowerHalf levels)
    (hmap : pagingMapNoflush pages kind levels top addr phys flags s = some s') :
    UpperKept top s.mem s'.mem := by
  obtain ⟨l, hl⟩ : ∃ l, levels - 1 = l + 1 := ⟨levels - 2, by have := hs.depth; omega⟩
  have hk : ¬l + 1 ≤ kind.level := by
    have := kind.level_le
    have := hs.depth
    omega
  have hi := pageIndex_lt_of_lower hs.depth haddr
  have hsep := h.separate
  have hall := h.plain
  have hf := h.freshPages hs.fresh hs.top_inUse
  have hclear : PathClear s.mem addr kind.level (levels - 1) top :=
    pathClear_of_plain (fun _ _ h => h) hi h.plain
  rw [pagingMapNoflush_eq] at hmap
  rw [hl] at hi hsep hall hf hclear hmap
  obtain ⟨r, s₁, hwalk, hw, -, hsome⟩ :=
    walkToLevel_spec plainEntry_entryInv hs.aligned hsep hall hf
    (by decide) hi hclear
  have hup := walkToLevel_upper plainEntry_entryInv hs.aligned hsep hall hf hi hclear hwalk
  rw [hwalk, Option.bind_some] at hmap
  cases r with
  | none => exact Option.some.inj hmap ▸ hup
  | some x =>
    -- the entry is stored in a table below the top one
    have hx := hsome x rfl
    rw [tableOnPath, if_neg hk] at hx
    split_ifs at hx with hpt
    have hxmem := mem_tables_of_tableOnPath (pageIndex_lt addr l) hx
    have hxtop : top ≠ x := fun heq => (hw.separate _ hi hpt).2.1 (heq ▸ hxmem)
    have hxal := tables_aligned (hwAddr_aligned _) hxmem
    simp only [storeEntry, if_neg (not_le.mpr hxal.2), Option.some.injEq] at hmap
    rw [← hmap]
    exact hup.trans ((changedOnly_writeEntry hxal.1 (pageIndex_lt _ _)).upperKept hs.aligned.1
      fun hmem => hxtop hmem)

end Cuore
