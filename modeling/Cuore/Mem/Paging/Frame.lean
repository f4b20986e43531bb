import Cuore.Mem.Paging.Map

/-!
# Mapping a page changes the translation of that page only

After the walk, the map functions store one leaf entry.  `stored_of_tableOnPath` says what that
store does: addresses on the path of `virt` get the new leaf, all others keep their translation.
With `walkToLevel_spec` this is the frame property of the three map functions, `MapsOnly`.

It holds exactly when bits 52 to 59 are clear in the entries followed: `PTE_ADDR_MASK` has two
hexadecimal digits too many, so that the kernel takes these bits, which the processor ignores,
for part of the address of the next table (`pagingMapNoflush_mapsOnly_iff`).
-/

namespace Cuore

/-! ## Storing a leaf entry -/

/-- The leaf `e` of level `target` has been stored on the path of `virt`. -/
structure Stored (P : ℕ → ℕ → Prop) (virt target e : ℕ) (m m' : Memory) (n l t : ℕ) : Prop where
  walk_off : ∀ v, pageIndex v l < n → (∃ k, target ≤ k ∧ k ≤ l ∧ pageIndex v k ≠ pageIndex virt k) →
    hwWalk m' v l t = hwWalk m v l t
  walk_on : ∀ v, (∀ k, target ≤ k → k ≤ l → pageIndex v k = pageIndex virt k) →
    hwWalk m' v l t = if e.testBit 0 then some (leafMapping e target v) else none
  hugeFree : ∀ v, pageIndex v l < n →
    (target = 0 ∨ ∃ k, target ≤ k ∧ k ≤ l ∧ pageIndex v k ≠ pageIndex virt k) →
    HugeFree m v l t → HugeFree m' v l t
  separate : Separate m' n l t
  tables_sub : tables m' n l t ⊆ tables m n l t
  entries : AllEntries P m n l t → P target e → AllEntries P m' n l t

lemma mem_tables_of_tableOnPath {m : Memory} {virt target n l t x : ℕ}
    (hi : pageIndex virt l < n) (h : tableOnPath m virt target l t = some x) :
    x ∈ tables m n l t := by
  induction l generalizing n t with
  | zero =>
    rw [tableOnPath, Option.some.injEq] at h
    exact h ▸ self_mem_tables _ _ _ _
  | succ l ih =>
    rw [tableOnPath] at h
    split_ifs at h with htarget hpt
    · rw [Option.some.injEq] at h
      exact h ▸ self_mem_tables _ _ _ _
    · exact child_subset_tables hi hpt (ih (pageIndex_lt virt l) h)

/-- Addresses with the indices of `virt` are walked through the same tables. -/
lemma hwWalk_of_tableOnPath {m : Memory} {v virt target l t x : ℕ}
    (htarget : target ≤ l) (hv : ∀ k, target ≤ k → k ≤ l → pageIndex v k = pageIndex virt k)
    (hx : tableOnPath m virt target l t = some x) : hwWalk m v l t = hwWalk m v target x := by
  induction l generalizing t with
  | zero =>
    obtain rfl : target = 0 := by omega
    cases hx
    rfl
  | succ l ih =>
    rw [tableOnPath] at hx
    split_ifs at hx with hle hpt
    · obtain rfl : target = l + 1 := by omega
      cases hx
      rfl
    · rw [← ih (by omega) (fun k hk hk' => hv k hk (by omega)) hx, hwWalk,
        hv (l + 1) htarget le_rfl, if_pos hpt.1, hpt.2]
      rfl

section Stored

variable {P : ℕ → ℕ → Prop} {m : Memory} {virt e : ℕ} (he : e < word)
include he

/-- The store at the table of the target level itself. -/
lemma stored_here {n l t : ℕ} (ht : pageSize ∣ t ∧ t < physLimit) (hsep : Separate m n l t)
    (hi : pageIndex virt l < n) (hl : l ≤ 2)
    (hleaf : 1 ≤ l → e.testBit 0 = true → e.testBit 7 = true) :
    Stored P virt l e m (writeEntry m t (pageIndex virt l) e) n l t := by
  have hself : readEntry (writeEntry m t (pageIndex virt l) e) t (pageIndex virt l) = e :=
    readEntry_writeEntry_self he
  have hother : ∀ j, j ≠ pageIndex virt l →
      readEntry (writeEntry m t (pageIndex virt l) e) t j = readEntry m t j := fun j hj =>
    readEntry_writeEntry_of_index_ne (Ne.symm hj)
  cases l with
  | zero =>
    refine ⟨fun v _ hdiff => ?_, fun v hv => ?_, fun _ _ _ _ => trivial, trivial,
      subset_rfl, fun hall hPe j hj => ?_⟩
    · obtain ⟨k, -, hk, hne⟩ := hdiff
      rw [show k = 0 by omega] at hne
      simp only [hwWalk, hother _ hne]
    · simp only [hwWalk, hv 0 le_rfl le_rfl, hself]
    · by_cases hji : j = pageIndex virt 0
      · rw [hji, hself]
        exact hPe
      · rw [hother j hji]
        exact hall j hj
  | succ l =>
    have hno : ¬PointsToTable e := fun hp => by
      have := hleaf (by omega) hp.1
      rw [hp.2] at this
      exact absurd this (by simp)
    have hup : UpdateAt m (writeEntry m t (pageIndex virt (l + 1)) e) n l t
      (pageIndex virt (l + 1)) :=
      (changedOnly_writeEntry ht.1 (pageIndex_lt virt _)).updateAt hsep
        (fun j _ hji => hother j hji)
        (fun x hx _ => .inl hx) hi
    refine ⟨fun v hvn hdiff => ?_, fun v hv => ?_, fun v hvn hoff hfree => ?_,
      hup.separate hsep ?_, fun x hx => ?_,
      fun hall hPe => hup.allEntries hall (hself.symm ▸ hPe) ?_⟩
    · obtain ⟨k, hk, hk', hne⟩ := hdiff
      rw [show k = l + 1 by omega] at hne
      exact hup.hwWalk_eq hvn hne
    · rw [hwWalk]
      simp only [hv (l + 1) le_rfl le_rfl, hself]
      split_ifs with h0 h7
      · rfl
      · exact absurd (hleaf (by omega) h0) h7
      · rfl
    · obtain ⟨k, hk, hk', hne⟩ := hoff.resolve_left (by omega)
      rw [show k = l + 1 by omega] at hne
      exact hup.hugeFree hvn hne hfree
    · rw [hself]
      exact fun hp => absurd hp hno
    · rcases hup.mem_tables hx with hx | ⟨hp, -⟩
      · exact hx
      · rw [hself] at hp
        exact absurd hp hno
    · rw [hself]
      exact fun hp => absurd hp hno

/-- The store at the end of a path. -/
lemma stored_of_tableOnPath {target n l t x : ℕ} (ht : pageSize ∣ t ∧ t < physLimit)
    (hsep : Separate m n l t) (hn : n ≤ 512) (hi : pageIndex virt l < n) (htarget : target ≤ 2)
    (htl : target ≤ l)
    (hleaf : 1 ≤ target → e.testBit 0 = true → e.testBit 7 = true)
    (hx : tableOnPath m virt target l t = some x) :
    Stored P virt target e m (writeEntry m x (pageIndex virt target) e) n l t := by
  induction l generalizing n t with
  | zero =>
    obtain rfl : target = 0 := by omega
    obtain rfl := Option.some.inj hx
    exact stored_here he ht hsep hi htarget hleaf
  | succ l ih =>
    rw [tableOnPath] at hx
    split_ifs at hx with hle hpt
    · obtain rfl : target = l + 1 := by omega
      obtain rfl := Option.some.inj hx
      exact stored_here he ht hsep hi htarget hleaf
    have hi' := pageIndex_lt virt (l + 1)
    have hxmem := mem_tables_of_tableOnPath (pageIndex_lt virt l) hx
    have hxal := tables_aligned (hwAddr_aligned _) hxmem
    obtain ⟨hsepc, htnot, -⟩ := hsep _ hi hpt
    have hch : ChangedOnly {x} m (writeEntry m x (pageIndex virt target) e) :=
      changedOnly_writeEntry hxal.1 (pageIndex_lt virt target)
    have hentry : ∀ j < 512, readEntry (writeEntry m x (pageIndex virt target) e) t j =
        readEntry m t j := fun j hj =>
      hch.readEntry_eq ht.1 (fun h => htnot (Set.mem_singleton_iff.mp h ▸ hxmem)) hj
    have hst := ih (hwAddr_aligned _) hsepc le_rfl (pageIndex_lt virt l) (by omega) hx
    have hup : UpdateAt m (writeEntry m x (pageIndex virt target) e) n l t
      (pageIndex virt (l + 1)) :=
      hch.updateAt hsep (fun j hj _ => hentry j (lt_of_lt_of_le hj hn))
        (fun y hy _ => .inr ⟨hpt, Set.mem_singleton_iff.mp hy ▸ hxmem⟩) hi
    -- at this table the walk follows the old entry, into the subtree that changed
    have hdown : ∀ v, pageIndex v (l + 1) = pageIndex virt (l + 1) → ∀ m',
        readEntry m' t (pageIndex virt (l + 1)) = readEntry m t (pageIndex virt (l + 1)) →
        hwWalk m' v (l + 1) t = hwWalk m' v l
          (hwAddr (readEntry m t (pageIndex virt (l + 1)))) := by
      intro v hv m' hm'
      rw [hwWalk]
      simp [hv, hm', hpt.1, hpt.2]
    refine ⟨fun v hvn hdiff => ?_, fun v hv => ?_, fun v hvn hoff hfree => ?_,
      hup.separate hsep fun _ => ?_, fun y hy => ?_, fun hall hPe =>
        hup.allEntries hall ?_ fun _ => ?_⟩
    · obtain ⟨k, hk, hk', hne⟩ := hdiff
      by_cases hv : pageIndex v (l + 1) = pageIndex virt (l + 1)
      · rw [hdown v hv _ (hentry _ hi'), hdown v hv _ rfl]
        have hkl : k ≠ l + 1 := fun h => hne (h ▸ hv)
        exact hst.walk_off v (pageIndex_lt v l) ⟨k, hk, by omega, hne⟩
      · exact hup.hwWalk_eq hvn hv
    · rw [hdown v (hv _ (by omega) le_rfl) _ (hentry _ hi')]
      exact hst.walk_on v fun k hk hk' => hv k hk (by omega)
    · by_cases hv : pageIndex v (l + 1) = pageIndex virt (l + 1)
      · rw [HugeFree, hv] at hfree ⊢
        rw [hentry _ hi']
        refine fun h0 => ⟨(hfree h0).1,
          hst.hugeFree v (pageIndex_lt v l) (hoff.imp id ?_) (hfree h0).2⟩
        rintro ⟨k, hk, hk', hne⟩
        have hkl : k ≠ l + 1 := fun h => hne (h ▸ hv)
        exact ⟨k, hk, by omega, hne⟩
      · exact hup.hugeFree hvn hv hfree
    · rw [hentry _ hi']
      refine ⟨hst.separate, fun h => htnot (hst.tables_sub h), fun j hj hji hpj => ?_⟩
      exact ((hsep _ hi hpt).2.2 j hj hji hpj).mono_left hst.tables_sub
    · rcases hup.mem_tables hy with hy | ⟨-, hy⟩
      · exact hy
      · rw [hentry _ hi'] at hy
        exact child_subset_tables hi hpt (hst.tables_sub hy)
    · rw [hentry _ hi']
      exact (hall _ hi).1
    · rw [hentry _ hi']
      exact hst.entries ((hall _ hi).2 hpt) hPe

end Stored

/-! ## Addresses and their paths -/

/-- Bits 47 (or 56, with five levels) to 63 are equal. -/
def Canonical (levels v : ℕ) : Prop :=
  v < word ∧ (v / 2 ^ (11 + levels * 9) = 0 ∨
    v / 2 ^ (11 + levels * 9) = 2 ^ (53 - levels * 9) - 1)

instance (levels v : ℕ) : Decidable (Canonical levels v) := inferInstanceAs (Decidable (_ ∧ _))

lemma pageIndex_eq_of_page_eq {v w n k : ℕ} (hn : n ≤ k)
    (h : v / 2 ^ (12 + n * 9) = w / 2 ^ (12 + n * 9)) : pageIndex v k = pageIndex w k := by
  have hdiv : ∀ x, x / 2 ^ (12 + k * 9) = x / 2 ^ (12 + n * 9) / 2 ^ ((k - n) * 9) := by
    intro x
    rw [Nat.div_div_eq_div_mul, ← Nat.pow_add]
    congr 2
    omega
  rw [pageIndex_eq, pageIndex_eq, hdiv, hdiv, h]

/-- Addresses that share the indices of all levels from `n` on, and what is above them, share
the page. -/
lemma page_eq_of_pageIndex_eq {v w n l : ℕ} (hnl : n ≤ l)
    (htop : v / 2 ^ (12 + l * 9) = w / 2 ^ (12 + l * 9))
    (h : ∀ k, n ≤ k → k < l → pageIndex v k = pageIndex w k) :
    v / 2 ^ (12 + n * 9) = w / 2 ^ (12 + n * 9) := by
  induction l, hnl using Nat.le_induction with
  | base => exact htop
  | succ l hl ih =>
    refine ih ?_ fun k hk hk' => h k hk (by omega)
    have hsplit : ∀ x, x / 2 ^ (12 + l * 9) =
        512 * (x / 2 ^ (12 + (l + 1) * 9)) + pageIndex x l := by
      intro x
      have hdiv : x / 2 ^ (12 + (l + 1) * 9) = x / 2 ^ (12 + l * 9) / 512 := by
        rw [Nat.div_div_eq_div_mul, show 512 = 2 ^ 9 from rfl, ← Nat.pow_add]
        congr 2
        omega
      rw [hdiv, pageIndex_eq]
      exact (Nat.div_add_mod _ _).symm
    rw [hsplit v, hsplit w, htop, h l (by omega) (by omega)]

/-- Two canonical addresses with the same index at the top level agree above it. -/
lemma Canonical.top_eq {levels v w : ℕ} (hlev : levels = 4 ∨ levels = 5)
    (hv : Canonical levels v) (hw : Canonical levels w)
    (h : pageIndex v (levels - 1) = pageIndex w (levels - 1)) :
    v / 2 ^ (12 + levels * 9) = w / 2 ^ (12 + levels * 9) := by
  rw [pageIndex_eq, pageIndex_eq] at h
  obtain ⟨hv64, hv⟩ := hv
  obtain ⟨hw64, hw⟩ := hw
  rcases hlev with rfl | rfl <;> simp only [word] at * <;> omega

/-- An address outside the page of `virt` leaves its path at some level. -/
lemma exists_pageIndex_ne {levels n v w : ℕ} (hlev : levels = 4 ∨ levels = 5) (hn : n ≤ 2)
    (hv : Canonical levels v) (hw : Canonical levels w)
    (hne : alignDown (2 ^ (12 + n * 9)) v ≠ alignDown (2 ^ (12 + n * 9)) w) :
    ∃ k, n ≤ k ∧ k ≤ levels - 1 ∧ pageIndex v k ≠ pageIndex w k := by
  by_contra hall
  have hidx : ∀ k, n ≤ k → k ≤ levels - 1 → pageIndex v k = pageIndex w k := by
    intro k hk hk'
    by_contra hne'
    exact hall ⟨k, hk, hk', hne'⟩
  apply hne
  rw [alignDown, alignDown, page_eq_of_pageIndex_eq (l := levels) (by omega)
    (hv.top_eq hlev hw (hidx _ (by omega) le_rfl)) fun k hk hk' => hidx k hk (by omega)]

/-! ## The map functions -/

/-- The three page sizes. -/
inductive PageKind
  | page4kb
  | page2mb
  | page1gb
  deriving DecidableEq, Repr

namespace PageKind

/-- The level whose entries map pages of this size. -/
def level : PageKind → ℕ
  | page4kb => 0
  | page2mb => 1
  | page1gb => 2

/-- The size in bytes. -/
def size (kind : PageKind) : ℕ := 2 ^ (12 + kind.level * 9)

/-- The entry that the map function of this size stores. -/
def entry (kind : PageKind) (phys flags : ℕ) : ℕ :=
  match kind with
  | page4kb => (phys &&& wnot 0xFFF) ||| flags
  | page2mb => (phys &&& wnot (pageSize2mb - 1)) ||| flags ||| pteHugePage
  | page1gb => (phys &&& wnot (pageSize1gb - 1)) ||| flags ||| pteHugePage

lemma level_le (kind : PageKind) : kind.level ≤ 2 := by cases kind <;> decide

end PageKind

section MapFunctions

variable (pages : ℕ → ℕ)

/-- The map function of a page size. -/
def pagingMapNoflush (kind : PageKind) (levels top virt phys flags : ℕ) (s : PhysState) :
    Option PhysState :=
  match kind with
  | .page4kb => pagingMapPageNoflush pages levels top virt phys flags s
  | .page2mb => pagingMap2mbNoflush pages levels top virt phys flags s
  | .page1gb => pagingMap1gbNoflush pages levels top virt phys flags s

/-- All three walk to their level and store their entry there. -/
lemma pagingMapNoflush_eq (kind : PageKind) (levels top virt phys flags : ℕ) (s : PhysState) :
    pagingMapNoflush pages kind levels top virt phys flags s =
      (walkToLevel pages virt kind.level true (levels - 1) top s).bind fun r =>
        match r.1 with
        | none => some r.2
        | some t => storeEntry t (pageIndex virt kind.level) (kind.entry phys flags) r.2 := by
  cases kind with
  | page4kb =>
    simp only [pagingMapNoflush, pagingMapPageNoflush, pagingGetPte, PageKind.level, PageKind.entry,
      Option.bind_eq_bind, Option.bind_assoc, Option.bind_some]
    congr 1
    ext1 r
    cases r.1 <;> rfl
  | page2mb => rfl
  | page1gb => rfl

end MapFunctions

/-- Attribute flags for a present mapping: no address bits, and no huge bit, which the function
adds itself. -/
structure MapFlags (flags : ℕ) : Prop where
  lt : flags < word
  present : flags &&& ptePresent ≠ 0
  huge : flags &&& pteHugePage = 0
  addr : flags &&& bitsMask 12 52 = 0

section Entry

variable {kind : PageKind} {phys flags : ℕ}

lemma testBit_entry (i : ℕ) :
    (kind.entry phys flags).testBit i =
      (phys.testBit i && decide (12 + kind.level * 9 ≤ i ∧ i < 64) || flags.testBit i ||
        decide (kind.level ≠ 0) && decide (i = 7)) := by
  have h7 : pteHugePage.testBit i = decide (7 = i) := Nat.testBit_two_pow
  cases kind with
  | page4kb =>
    rw [PageKind.entry, show 0xFFF = 2 ^ 12 - 1 from rfl, Nat.testBit_or, Nat.testBit_and,
      testBit_wnot_pred (by decide)]
    simp only [PageKind.level]
    grind
  | page2mb =>
    rw [PageKind.entry, show pageSize2mb = 2 ^ 21 from rfl, Nat.testBit_or, Nat.testBit_or,
      Nat.testBit_and, testBit_wnot_pred (by decide), h7]
    simp only [PageKind.level]
    grind
  | page1gb =>
    rw [PageKind.entry, show pageSize1gb = 2 ^ 30 from rfl, Nat.testBit_or, Nat.testBit_or,
      Nat.testBit_and, testBit_wnot_pred (by decide), h7]
    simp only [PageKind.level]
    grind

lemma entry_lt (hflags : flags < word) : kind.entry phys flags < word := by
  refine lt_word_of_testBit fun i hi => ?_
  rw [testBit_entry, testBit_of_lt_word hflags hi]
  grind

/-- The entry is a leaf of its level. -/
lemma entry_leaf (h : 1 ≤ kind.level) :
    (kind.entry phys flags).testBit 7 = true := by
  rw [testBit_entry]
  grind

/-- Its frame is that of `phys`, whatever the attributes. -/
lemma alignDown_hwAddr_entry (haddr : flags &&& bitsMask 12 52 = 0) :
    alignDown (2 ^ (12 + kind.level * 9)) (hwAddr (kind.entry phys flags)) =
      alignDown (2 ^ (12 + kind.level * 9)) (phys % physLimit) := by
  have hbit : ∀ i, 12 ≤ i → i < 52 → flags.testBit i = false := by
    intro i hi hi'
    have : (flags &&& bitsMask 12 52).testBit i = false := by rw [haddr, Nat.zero_testBit]
    rw [Nat.testBit_and, testBit_bitsMask (by decide)] at this
    grind
  refine Nat.eq_of_testBit_eq fun i => ?_
  rw [testBit_alignDown, testBit_alignDown, testBit_hwAddr, testBit_entry, physLimit,
    Nat.testBit_mod_two_pow]
  have := hbit i
  grind

/-- It maps the page at `phys`, with the rights of the flags. -/
lemma leafMapping_entry (haddr : flags &&& bitsMask 12 52 = 0)
    (hphys : phys < physLimit) (v : ℕ) :
    leafMapping (kind.entry phys flags) kind.level v =
      ⟨alignDown kind.size phys + v % kind.size, hwRights flags⟩ := by
  have hpbit : ∀ i, 52 ≤ i → phys.testBit i = false := fun i hi =>
    Nat.testBit_lt_two_pow (lt_of_lt_of_le hphys (Nat.pow_le_pow_right (by decide) hi))
  have hrights : hwRights (kind.entry phys flags) = hwRights flags := by
    have := kind.level_le
    refine Nat.eq_of_testBit_eq fun i => ?_
    rw [testBit_hwRights, testBit_hwRights, testBit_entry]
    have := hpbit i
    grind
  rw [leafMapping, alignDown_hwAddr_entry haddr, Nat.mod_eq_of_lt hphys, hrights]
  rfl

end Entry

/-! ## The frame property -/

/-- The translation of `v`: the physical address it is mapped to, if any. -/
def translate (m : Memory) (levels top v : ℕ) : Option ℕ :=
  (hwWalk m v (levels - 1) top).map Mapping.phys

/-- Bit 7 is reserved in the entries of levels 3 and above. -/
def ReservedClear (l e : ℕ) : Prop := 3 ≤ l → e.testBit 0 = true → e.testBit 7 = false

lemma reservedClear_entryInv : EntryInv ReservedClear where
  reserved _ _ h := h
  zero _ := by simp [ReservedClear]
  newTable _ _ hp _ _ := (pointsToTable_tableEntry hp (fun _ h => newTableFlags_bits h)
    (by decide)).2
  splitTable l e p hp _ _ _ := by
    rw [testBit_tableEntry hp (by omega), Nat.testBit_and, testBit_rightsMask]
    simp
  piece l _ _ hl _ _ _ _ _ h3 := by omega

/-- **Mapping changes the translation of the page only.**  Whatever fresh pages the allocator
answers: if every allocation made succeeds, every address of the page of `virt` translates to
the matching address of the page of `phys` and every other address translates as before; if one
fails, every address does. -/
def MapsOnly (kind : PageKind) (levels top virt phys flags : ℕ) (m : Memory) : Prop :=
  ∀ pages calls calls2mb, FreshPages m 512 (levels - 1) top pages calls →
    ∃ s', pagingMapNoflush pages kind levels top virt phys flags ⟨m, calls, calls2mb⟩ = some s' ∧
      ((∀ k, calls ≤ k → k < s'.calls → pages k ≠ 0) →
        (∀ d < kind.size, translate s'.mem levels top (alignDown kind.size virt + d) =
          some (alignDown kind.size phys + d)) ∧
        ∀ v, Canonical levels v → alignDown kind.size v ≠ alignDown kind.size virt →
          translate s'.mem levels top v = translate m levels top v) ∧
      ((∃ k, calls ≤ k ∧ k < s'.calls ∧ pages k = 0) →
        ∀ v, Canonical levels v → translate s'.mem levels top v = translate m levels top v)

/-- What a map function does to a tree whose entries on the path are clear. -/
lemma pagingMapNoflush_spec {P : ℕ → ℕ → Prop} (hP : EntryInv P) {pages : ℕ → ℕ} (kind : PageKind)
    (phys : ℕ) {n levels top virt flags : ℕ} {s : PhysState} (hlev : 2 ≤ levels - 1)
    (htop : pageSize ∣ top ∧ top < physLimit) (hsep : Separate s.mem n (levels - 1) top)
    (hall : AllEntries P s.mem n (levels - 1) top)
    (hf : FreshPages s.mem n (levels - 1) top pages s.calls) (hn : n ≤ 512)
    (hi : pageIndex virt (levels - 1) < n)
    (hclear : PathClear s.mem virt kind.level (levels - 1) top) (hflags : flags < word) :
    ∃ s₁ s', pagingMapNoflush pages kind levels top virt phys flags s = some s' ∧
      Walked P pages s s₁ n (levels - 1) top ∧ s'.calls = s₁.calls ∧ s'.calls2mb = s₁.calls2mb ∧
      ((∃ k, s.calls ≤ k ∧ k < s'.calls ∧ pages k = 0) ∧ s' = s₁ ∨
        (∀ k, s.calls ≤ k → k < s'.calls → pages k ≠ 0) ∧
          ∃ x ∈ tables s₁.mem n (levels - 1) top,
            s'.mem = writeEntry s₁.mem x (pageIndex virt kind.level) (kind.entry phys flags) ∧
            Stored P virt kind.level (kind.entry phys flags) s₁.mem s'.mem n (levels - 1) top) := by
  obtain ⟨r, s₁, hwalk, hw, hnone, hsome⟩ := walkToLevel_spec hP htop hsep hall hf hn hi hclear
  rw [pagingMapNoflush_eq, hwalk, Option.bind_some]
  cases r with
  | none => exact ⟨s₁, s₁, rfl, hw, rfl, rfl, .inl ⟨hnone.mp rfl, rfl⟩⟩
  | some x =>
    have hx := hsome x rfl
    have hmem := mem_tables_of_tableOnPath hi hx
    have hno : ∀ k, s.calls ≤ k → k < s₁.calls → pages k ≠ 0 := by
      intro k hk hk' h0
      exact absurd (hnone.mpr ⟨k, hk, hk', h0⟩) (by simp)
    refine ⟨s₁, ⟨writeEntry s₁.mem x (pageIndex virt kind.level) (kind.entry phys flags),
      s₁.calls, s₁.calls2mb⟩, ?_, hw, rfl, rfl, .inr ⟨hno, x, hmem, rfl, ?_⟩⟩
    · change storeEntry x _ _ s₁ = _
      rw [storeEntry, if_neg (not_le.mpr (tables_aligned htop hmem).2)]
    · exact stored_of_tableOnPath (entry_lt hflags) htop hw.separate hn hi kind.level_le
        (kind.level_le.trans hlev) (fun h _ => entry_leaf h) hx

/-- Behind a pointer outside physical memory the walk goes nowhere. -/
lemma walkToLevel_of_outside {pages : ℕ → ℕ} {virt target l t : ℕ} {s : PhysState} {b : Bool}
    (ht : physLimit ≤ t) : walkToLevel pages virt target b l t s = none ∨
      walkToLevel pages virt target b l t s = some (some t, s) := by
  cases l with
  | zero => exact .inr rfl
  | succ l =>
    rw [walkToLevel]
    split_ifs
    · exact .inr rfl
    · exact .inl rfl

/-- A set bit among 52 to 59 sends the walk outside physical memory. -/
lemma walkToLevel_of_not_clear (pages : ℕ → ℕ) {virt target l t : ℕ} {s : PhysState} {b : Bool}
    (h : ¬PathClear s.mem virt target l t) : walkToLevel pages virt target b l t s = none ∨
      ∃ x, physLimit ≤ x ∧ walkToLevel pages virt target b l t s = some (some x, s) := by
  induction l generalizing t with
  | zero => exact absurd trivial h
  | succ l ih =>
    simp only [PathClear, not_or, not_and, not_not] at h
    obtain ⟨htarget, hpt, hbad⟩ := h
    by_cases ht : t ≥ physLimit
    · rw [walkToLevel, if_neg htarget, if_pos ht]
      exact .inl rfl
    have h0 : ¬readEntry s.mem t (pageIndex virt (l + 1)) &&& ptePresent = 0 := by
      rw [and_ptePresent_eq_zero, hpt.1]
      simp
    have h7 : ¬readEntry s.mem t (pageIndex virt (l + 1)) &&& pteHugePage ≠ 0 := by
      rw [and_pteHugePage_ne_zero, hpt.2]
      simp
    rw [walkToLevel, if_neg htarget, if_neg ht, if_neg h0, if_neg h7]
    by_cases hc : readEntry s.mem t (pageIndex virt (l + 1)) &&& bitsMask 52 60 = 0
    · rw [and_pteAddrMask_of_clear hc]
      exact ih (hbad hc)
    · have hout := physLimit_le_of_not_clear hc
      exact (walkToLevel_of_outside hout).imp id fun h => ⟨_, hout, h⟩

/-- An allocator that always fails shows it: the walk faults before it allocates. -/
lemma not_mapsOnly_of_not_clear {kind : PageKind} {levels top virt phys flags : ℕ} {m : Memory}
    (hclear : ¬PathClear m virt kind.level (levels - 1) top) :
    ¬MapsOnly kind levels top virt phys flags m := by
  intro h
  obtain ⟨s', hs', -⟩ := h (fun _ => 0) 0 0 ⟨by simp, by simp, by simp⟩
  rw [pagingMapNoflush_eq] at hs'
  rcases walkToLevel_of_not_clear (fun _ => 0) (s := ⟨m, 0, 0⟩) (b := true) hclear with
    hnone | ⟨x, hx, hsome⟩
  · rw [hnone] at hs'
    exact absurd hs' (by simp)
  · rw [hsome] at hs'
    simp [storeEntry, hx] at hs'

/-- A four-level tree with one table below the top one, at `0x2000`, and nothing mapped. -/
def oneTable (e : ℕ) : Memory := writeEntry (fun _ => 0) 0x1000 0 e

lemma readEntry_zero (t i : ℕ) : readEntry (fun _ => 0) t i = 0 := by
  rw [readEntry]
  rfl

lemma readEntry_oneTable {e t i : ℕ} (ht : pageSize ∣ t) (hi : i < 512)
    (h : t ≠ 0x1000 ∨ i ≠ 0) : readEntry (oneTable e) t i = 0 := by
  by_cases hti : t = 0x1000
  · rw [hti, oneTable, readEntry_writeEntry_of_index_ne
      (Ne.symm (h.resolve_left (not_not.mpr hti))),
      readEntry_zero]
  · rw [oneTable, (changedOnly_writeEntry (by decide) (by decide)).readEntry_eq ht
      (fun hmem => hti hmem) hi, readEntry_zero]

lemma readEntry_oneTable_self {e : ℕ} (he : e < word) : readEntry (oneTable e) 0x1000 0 = e :=
  readEntry_writeEntry_self he

lemma oneTable_separate {e : ℕ} (he : e < word) (hchild : hwAddr e = 0x2000)
    (hbit : e.testBit 7 = false) : Separate (oneTable e) 512 3 0x1000 ∧
    AllEntries ReservedClear (oneTable e) 512 3 0x1000 := by
  have hzero : ∀ i < 512, readEntry (oneTable e) 0x2000 i = 0 := fun i hi =>
    readEntry_oneTable (by decide) hi (.inl (by decide))
  obtain ⟨htables, hsep⟩ := tables_eq_singleton (m := oneTable e) (l := 2) (t := 0x2000)
    (.inr fun i hi => by rw [hzero i hi]; decide)
  have hother : ∀ i < 512, i ≠ 0 → readEntry (oneTable e) 0x1000 i = 0 := fun i hi hne =>
    readEntry_oneTable (by decide) hi (.inr hne)
  constructor
  · intro i hi hpt
    by_cases h0 : i = 0
    · subst h0
      rw [readEntry_oneTable_self he, hchild, htables]
      refine ⟨hsep, by decide, fun j hj hne hpj => ?_⟩
      rw [hother j hj hne] at hpj
      exact absurd hpj (by decide)
    · rw [hother i hi h0] at hpt
      exact absurd hpt (by decide)
  · intro i hi
    by_cases h0 : i = 0
    · subst h0
      rw [readEntry_oneTable_self he, hchild]
      refine ⟨fun _ _ => hbit, fun _ j hj => ?_⟩
      rw [hzero j hj]
      exact ⟨fun _ h => absurd h (by decide), fun h => absurd h (by decide)⟩
    · rw [hother i hi h0]
      exact ⟨fun _ h => absurd h (by decide), fun h => absurd h (by decide)⟩

/-- The entry for the table, with the bit 59 set that the processor leaves to software. -/
def taggedEntry : ℕ := 0x2000 ||| 3 ||| 2 ^ 59

/-- **The map functions change the translation of the page only, exactly when bits 52 to 59 are
clear in the entries they follow.**  For every tree in which each table is reachable by one path
(and bit 7 is clear where it is reserved), both paging depths, all three page sizes. -/
theorem pagingMapNoflush_mapsOnly_iff (kind : PageKind) {levels top virt phys flags : ℕ}
    {m : Memory} (hlev : levels = 4 ∨ levels = 5) (htop : pageSize ∣ top ∧ top < physLimit)
    (hpaths : UniquePaths m (levels - 1) top)
    (hreserved : AllEntries ReservedClear m 512 (levels - 1) top) (hvirt : Canonical levels virt)
    (hphys : phys < physLimit) (hflags : MapFlags flags) :
    MapsOnly kind levels top virt phys flags m ↔
      PathClear m virt kind.level (levels - 1) top := by
  refine ⟨fun h => not_not.mp fun hclear => not_mapsOnly_of_not_clear hclear h, ?_⟩
  intro hclear pages calls calls2mb hf
  have hsep := hpaths.separate
  obtain ⟨s₁, s', hs', hw, hcalls, -, hres⟩ := pagingMapNoflush_spec (s := ⟨m, calls, calls2mb⟩)
    reservedClear_entryInv kind phys (by omega) htop hsep hreserved hf le_rfl
      (pageIndex_lt virt _) hclear hflags.lt
  refine ⟨s', hs', fun hok => ?_, fun hfail v _ => ?_⟩
  · rcases hres with ⟨⟨k, hk, hk', h0⟩, -⟩ | ⟨-, x, -, -, hst⟩
    · exact absurd h0 (hok k hk hk')
    have hpresent : (kind.entry phys flags).testBit 0 = true := by
      rw [testBit_entry, and_two_pow_ne_zero.mp hflags.present]
      grind
    refine ⟨fun d hd => ?_, fun v hv hne => ?_⟩
    · have hmod : (alignDown kind.size virt + d) % kind.size = d := by
        rw [alignDown, Nat.mul_comm, Nat.mul_add_mod, Nat.mod_eq_of_lt hd]
      have hdiv : (alignDown kind.size virt + d) / kind.size = virt / kind.size := by
        rw [alignDown, Nat.mul_comm, Nat.mul_add_div (show 0 < kind.size from Nat.two_pow_pos _),
          Nat.div_eq_of_lt hd, Nat.add_zero]
      rw [translate, hst.walk_on _ fun k hk _ => pageIndex_eq_of_page_eq hk hdiv, if_pos hpresent,
        leafMapping_entry hflags.addr hphys, hmod]
      rfl
    · obtain ⟨k, hk, hk', hne'⟩ := exists_pageIndex_ne hlev kind.level_le hv hvirt hne
      rw [translate, hst.walk_off v (pageIndex_lt v _) ⟨k, hk, hk', hne'⟩,
        hw.walk v (pageIndex_lt v _)]
      rfl
  · rcases hres with ⟨-, rfl⟩ | ⟨hok, -⟩
    · rw [translate, hw.walk v (pageIndex_lt v _)]
      rfl
    · obtain ⟨k, hk, hk', h0⟩ := hfail
      exact absurd h0 (hok k hk hk')

/-- Mapping a page in a tree that has the table for it on its path. -/
theorem oneTable_mapsOnly :
    MapsOnly .page4kb 4 0x1000 0x400000 0x5000 3 (oneTable (0x2000 ||| 3)) := by
  have he : 0x2000 ||| 3 < word := by decide
  obtain ⟨hsep, hreserved⟩ := oneTable_separate he (by decide) (by decide)
  refine (pagingMapNoflush_mapsOnly_iff .page4kb (.inl rfl) (by decide) hsep.uniquePaths hreserved
    (by decide) (by decide) ⟨by decide, by decide, by decide, by decide⟩).mpr (.inr (.inr ?_))
  -- the entry of the top table is followed, and the one behind it is empty
  have hidx : pageIndex 0x400000 3 = 0 := by decide
  have hchild : hwAddr (0x2000 ||| 3) = 0x2000 := by decide
  rw [hidx, readEntry_oneTable_self he, hchild]
  refine ⟨by decide, .inr (.inl ?_)⟩
  rw [readEntry_oneTable (by decide) (by decide) (.inl (by decide))]
  decide

/-- Mapping a page through the tagged entry does not map it: the kernel takes bit 59 for part of
the table's address. -/
theorem taggedEntry_not_mapsOnly :
    UniquePaths (oneTable taggedEntry) 3 0x1000 ∧
      AllEntries ReservedClear (oneTable taggedEntry) 512 3 0x1000 ∧ Canonical 4 0x400000 ∧
      MapFlags 3 ∧ ¬MapsOnly .page4kb 4 0x1000 0x400000 0x5000 3 (oneTable taggedEntry) := by
  have he : taggedEntry < word := by decide
  obtain ⟨hsep, hreserved⟩ := oneTable_separate he (by decide) (by decide)
  refine ⟨hsep.uniquePaths, hreserved, by decide, ⟨by decide, by decide, by decide, by decide⟩,
    not_mapsOnly_of_not_clear fun h => ?_⟩
  have hidx : pageIndex 0x400000 3 = 0 := by decide
  rcases h with h | h | ⟨h, -⟩
  · exact absurd h (by decide)
  · rw [hidx, readEntry_oneTable_self he] at h
    exact h (by decide)
  · rw [hidx, readEntry_oneTable_self he] at h
    exact absurd h (by decide)

end Cuore
