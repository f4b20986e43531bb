import Cuore.Mem.Backing
import Mathlib.Data.Set.Card
import Mathlib.Order.Interval.Finset.Nat

/-!
# Pages for the tables of a range

The loop that maps a range takes a page for each table that is missing on the paths of its pages.
Of the pages that share such a table the first one takes it, and so `missingTables` counts a table
where it is met first.

With that many free pages the loop maps the whole range (`TablesInv.mapPages_filled`), and with
fewer it leaves a page of the range as it was (`TablesInv.mapPages_short`).
-/

namespace Cuore

variable {A : AddressSpace} {k k' : KernelMemory} {s s' : Pma} {kind : PageKind}
  {v w virt phys flags rights j n : ℕ}

/-! ## Counting free pages -/

lemma AddressSpace.finite_freePages (A : AddressSpace) (s : Pma) : (A.freePages s).Finite :=
  (Set.finite_lt_nat A.totalPages).subset fun _ hp => hp.1

/-- An allocation that succeeds takes the pages that it is asked for. -/
lemma PmaWellFormed.ncard_run {c : PmaAlloc} {ret : ℕ} (h : PmaWellFormed A.totalPages s)
    (hc : c.Valid) (heq : c.run s = some (ret, s')) (hret : ret ≠ 0) :
    (A.freePages s').ncard + c.count = (A.freePages s).ncard := by
  obtain ⟨-, p, -, hle, hwas, hnow⟩ := (h.run hc heq).2.resolve_left hret
  have hfree : A.freePages s' = A.freePages s \ Set.Ico p (p + c.count) := by
    ext q
    constructor
    · rintro ⟨hq, hbit⟩
      obtain ⟨hbit', hout⟩ := (hnow q hq).mp hbit
      exact ⟨⟨hq, hbit'⟩, hout⟩
    · rintro ⟨⟨hq, hbit⟩, hout⟩
      exact ⟨hq, (hnow q hq).mpr ⟨hbit, hout⟩⟩
  have hsub : Set.Ico p (p + c.count) ⊆ A.freePages s := fun q ⟨hlow, hhigh⟩ =>
    ⟨hhigh.trans_le hle, hwas q hlow hhigh⟩
  have hcard : (Set.Ico p (p + c.count)).ncard = c.count := by
    rw [← Finset.coe_Ico, Set.ncard_coe_finset, Nat.card_Ico, Nat.add_sub_cancel_left]
  have hdiff := Set.ncard_sdiff_add_ncard_of_subset hsub (A.finite_freePages s)
  rwa [← hfree, hcard] at hdiff

lemma PmaWellFormed.ncard_afterPages (h : PmaWellFormed A.totalPages s)
    (hn : s.afterPages n = some s') (hall : ∀ j < n, s.pageAnswer j ≠ 0) :
    (A.freePages s').ncard + n = (A.freePages s).ncard := by
  induction n generalizing s' with
  | zero =>
    obtain rfl := Option.some.inj hn
    rfl
  | succ n ih =>
    obtain ⟨t, ht, hn⟩ := Option.bind_eq_some_iff.mp hn
    obtain ⟨⟨ret, t'⟩, hcall, rfl⟩ := Option.map_eq_some_iff.mp hn
    obtain ⟨t₁, ht₁, hwell⟩ := h.afterPages n
    obtain rfl := Option.some.inj (ht.symm.trans ht₁)
    have hret : s.pageAnswer n = ret := by
      rw [Pma.pageAnswer, ht, Option.bind_some, hcall]
      rfl
    have hpage := hwell.ncard_run (c := .pages 1) (by decide) hcall
      (hret ▸ hall n (Nat.lt_succ_self n))
    rw [PmaAlloc.count] at hpage
    have hrest := ih ht fun j hj => hall j (Nat.lt_succ_of_lt hj)
    dsimp only
    omega

/-- **As many calls are answered as pages are free.** -/
lemma PmaWellFormed.answered_iff (h : PmaWellFormed A.totalPages s) :
    (∀ j < n, s.pageAnswer j ≠ 0) ↔ n ≤ (A.freePages s).ncard := by
  constructor
  · intro hall
    obtain ⟨t, ht, -⟩ := h.afterPages n
    have := h.ncard_afterPages ht hall
    omega
  · intro hle
    induction n with
    | zero => exact fun j hj => absurd hj (Nat.not_lt_zero j)
    | succ n ih =>
      have hbefore := ih (Nat.le_of_succ_le hle)
      intro j hj
      rcases Nat.lt_succ_iff_lt_or_eq.mp hj with hlt | rfl
      · exact hbefore j hlt
      obtain ⟨t, ht, hwell⟩ := h.afterPages j
      have hcount := h.ncard_afterPages ht hbefore
      obtain ⟨ret, t', hcall, ⟨hempty, -⟩ | ⟨hne, -⟩⟩ := hwell.allocPage
      · rw [show A.freePages t = ∅ from hempty, Set.ncard_empty] at hcount
        omega
      · rw [Pma.pageAnswer, ht, Option.bind_some, hcall]
        exact hne

/-! ## The tables that are missing -/

/-- How many tables are missing on the path of page `i` of a range, and not on those of the pages
before it. -/
def missingForPage (A : AddressSpace) (kind : PageKind) (m : Memory) (virt i : ℕ) : ℕ :=
  (List.range (A.levels - 1)).countP fun j => decide (kind.level ≤ j) &&
    ((tableOnPath m (virt + i * kind.size) j (A.levels - 1) A.top).isNone &&
      decide (∀ i' < i, (virt + i' * kind.size) / 2 ^ (12 + (j + 1) * 9) ≠
        (virt + i * kind.size) / 2 ^ (12 + (j + 1) * 9)))

/-- **How many tables are missing** for the first `n` pages of a range. -/
def missingTables (A : AddressSpace) (kind : PageKind) (m : Memory) (virt : ℕ) : ℕ → ℕ
  | 0 => 0
  | n + 1 => missingTables A kind m virt n + missingForPage A kind m virt n

/-- Two addresses part before the tables of a level exactly if these do not serve both. -/
lemma pathsPart_iff {levels : ℕ} (hlev : levels = 4 ∨ levels = 5) (hv : Canonical levels v)
    (hw : Canonical levels w) (hj : j < levels - 1) : PathsPart v w j (levels - 1) ↔
      v / 2 ^ (12 + (j + 1) * 9) ≠ w / 2 ^ (12 + (j + 1) * 9) := by
  constructor
  · rintro ⟨k, hk, -, hne⟩ heq
    exact hne (pageIndex_eq_of_page_eq hk heq)
  · intro hne
    by_contra hall
    have hidx : ∀ k, j + 1 ≤ k → k ≤ levels - 1 → pageIndex v k = pageIndex w k := by
      intro k hk hk'
      by_contra hne'
      exact hall ⟨k, hk, hk', hne'⟩
    exact hne (page_eq_of_pageIndex_eq (l := levels) (by omega)
      (hv.top_eq hlev hw (hidx _ hj le_rfl)) fun k hk hk' => hidx k hk (by omega))

/-- **The first `n` pages of a range have been mapped.** -/
structure RangeFilled (A : AddressSpace) (kind : PageKind) (rights virt phys n : ℕ)
    (k k' : KernelMemory) : Prop where
  inv : TablesInv A k'
  vmm : k'.vmm = k.vmm
  after : k.pma.afterPages (missingTables A kind k.mem virt n) = some k'.pma
  count : (A.freePages k'.pma).ncard + missingTables A kind k.mem virt n =
    (A.freePages k.pma).ncard
  walk_off : ∀ v, Canonical A.levels v → v < virt ∨ virt + n * kind.size ≤ v →
    A.walk k'.mem v = A.walk k.mem v
  walk_on : ∀ v, virt ≤ v → v < virt + n * kind.size →
    A.walk k'.mem v = some ⟨phys + (v - virt), rights⟩
  paths : ∀ w j, Canonical A.levels w → kind.level ≤ j → j < A.levels - 1 →
    (tableOnPath k'.mem w j (A.levels - 1) A.top = none ↔
      tableOnPath k.mem w j (A.levels - 1) A.top = none ∧
        ∀ i < n, (virt + i * kind.size) / 2 ^ (12 + (j + 1) * 9) ≠ w / 2 ^ (12 + (j + 1) * 9))

/-- What is missing for the next page. -/
lemma RangeFilled.missing_eq (h : RangeFilled A kind rights virt phys n k k')
    (hcan : Canonical A.levels (virt + n * kind.size)) :
    missingOnPath k'.mem (virt + n * kind.size) kind.level (A.levels - 1) A.top =
      missingForPage A kind k.mem virt n := by
  refine List.countP_congr fun j hj => ?_
  simp only [Bool.and_eq_true, decide_eq_true_eq, Option.isNone_iff_eq_none]
  exact and_congr_right fun hlevel => h.paths _ j hcan hlevel (List.mem_range.mp hj)

/-- One more page. -/
lemma RangeFilled.succ {k₁ k₂ : KernelMemory} {calls : ℕ}
    (h : RangeFilled A kind rights virt phys n k k₁) (hinv : TablesInv A k₂)
    (hpage : MapsPage A kind rights (virt + n * kind.size) (phys + n * kind.size) calls k₁ k₂)
    (hcan : ∀ v, virt ≤ v → v < virt + (n + 1) * kind.size → Canonical A.levels v)
    (hall : ∀ j < calls, k₁.pma.pageAnswer j ≠ 0) :
    RangeFilled A kind rights virt phys (n + 1) k k₂ := by
  have hpos := kind.size_pos
  have hlast : (n + 1) * kind.size = n * kind.size + kind.size := Nat.succ_mul n kind.size
  have hstart := hcan (virt + n * kind.size) (by omega) (by omega)
  obtain ⟨hcalls, hpath, hon⟩ := hpage.answered hall
  rw [h.missing_eq hstart] at hcalls
  refine ⟨hinv, hpage.vmm.trans h.vmm, ?_, ?_, fun v hv hout => ?_, fun v hle hlt => ?_,
    fun w j hw hlevel hj => ?_⟩
  · rw [missingTables, Pma.afterPages_add, h.after, Option.bind_some, ← hcalls]
    exact hpage.after
  · have hpages := h.inv.pma.ncard_afterPages hpage.after hall
    have hbefore := h.count
    rw [missingTables]
    omega
  · rw [hpage.walk_off v hv (by omega), h.walk_off v hv (by omega)]
  · rcases Nat.lt_or_ge v (virt + n * kind.size) with hin | hge
    · rw [hpage.walk_off v (hcan v hle hlt) (.inl hin)]
      exact h.walk_on v hle hin
    · rw [hon v hge (by omega)]
      congr 2
      omega
  · rw [hpath w j (pageIndex_lt w _) hlevel, h.paths w j hw hlevel hj,
      pathsPart_iff A.levels_eq hw hstart hj, Nat.forall_lt_succ_right, and_assoc]
    exact and_congr_right fun _ => and_congr_right fun _ => ne_comm

/-! ## The loop -/

section Loop

variable (kind)

/-- One more page in the loop. -/
lemma TablesInv.mapPages_succ {k₁ : KernelMemory} (h₁ : TablesInv A k₁)
    (hk₁ : mapPages A kind virt phys flags n k = some k₁) (hv : kind.size ∣ virt)
    (hp : kind.size ∣ phys) (hstart : Canonical A.levels (virt + n * kind.size))
    (hframe : phys + n * kind.size < physLimit) (hflags : AttributeFlags flags)
    (hpresent : flags &&& ptePresent ≠ 0) :
    ∃ k₂ calls, mapPages A kind virt phys flags (n + 1) k = some k₂ ∧ TablesInv A k₂ ∧
      MapsPage A kind (hwRights flags) (virt + n * kind.size) (phys + n * kind.size) calls k₁
        k₂ := by
  obtain ⟨k₂, calls, hk₂, h₂, hpage⟩ := h₁.map hstart (Nat.dvd_add hv (Nat.dvd_mul_left _ n))
    hframe (Nat.dvd_add hp (Nat.dvd_mul_left _ n)) hflags hpresent
  refine ⟨k₂, calls, ?_, h₂, hpage⟩
  rw [mapPages, hk₁, Option.bind_eq_bind, Option.bind_some, wadd_of_lt hstart.1,
    wadd_of_lt (hframe.trans (by decide))]
  exact hk₂

/-- **Enough pages**: the loop maps the range. -/
lemma TablesInv.mapPages_filled (h : TablesInv A k) (hv : kind.size ∣ virt) (hp : kind.size ∣ phys)
    (hcan : ∀ v, virt ≤ v → v < virt + n * kind.size → Canonical A.levels v)
    (hphys : phys + n * kind.size ≤ physLimit) (hflags : AttributeFlags flags)
    (hpresent : flags &&& ptePresent ≠ 0)
    (henough : missingTables A kind k.mem virt n ≤ (A.freePages k.pma).ncard) :
    ∃ k', mapPages A kind virt phys flags n k = some k' ∧
      RangeFilled A kind (hwRights flags) virt phys n k k' := by
  have hpos := kind.size_pos
  induction n with
  | zero =>
    exact ⟨k, rfl, h, rfl, rfl, rfl, fun _ _ _ => rfl, fun v hle hlt => absurd hlt (by omega),
      fun _ _ _ _ _ => by simp⟩
  | succ n ih =>
    have hlast : (n + 1) * kind.size = n * kind.size + kind.size := Nat.succ_mul n kind.size
    rw [missingTables] at henough
    obtain ⟨k₁, hk₁, h₁⟩ := ih (fun v hle hlt => hcan v hle (by omega)) (by omega) (by omega)
    have hstart := hcan (virt + n * kind.size) (by omega) (by omega)
    obtain ⟨k₂, calls, hk₂, h₂, hpage⟩ := h₁.inv.mapPages_succ kind hk₁ hv hp hstart (by omega)
      hflags hpresent
    have hall : ∀ j < calls, k₁.pma.pageAnswer j ≠ 0 := by
      refine h₁.inv.pma.answered_iff.mpr ?_
      have hmost := hpage.calls_le
      have hcount := h₁.count
      rw [h₁.missing_eq hstart] at hmost
      omega
    exact ⟨k₂, hk₂, h₁.succ h₂ hpage hcan hall⟩

/-- **Too few pages**: there is a page of the range that is mapped as before. -/
lemma TablesInv.mapPages_short (h : TablesInv A k) (hv : kind.size ∣ virt) (hp : kind.size ∣ phys)
    (hcan : ∀ v, virt ≤ v → v < virt + n * kind.size → Canonical A.levels v)
    (hphys : phys + n * kind.size ≤ physLimit) (hflags : AttributeFlags flags)
    (hpresent : flags &&& ptePresent ≠ 0)
    (hshort : (A.freePages k.pma).ncard < missingTables A kind k.mem virt n) :
    ∃ k', mapPages A kind virt phys flags n k = some k' ∧ TablesInv A k' ∧ k'.vmm = k.vmm ∧
      ∃ i < n, A.walk k'.mem (virt + i * kind.size) = A.walk k.mem (virt + i * kind.size) := by
  have hpos := kind.size_pos
  induction n with
  | zero => exact absurd hshort (Nat.not_lt_zero _)
  | succ n ih =>
    have hlast : (n + 1) * kind.size = n * kind.size + kind.size := Nat.succ_mul n kind.size
    have hstart := hcan (virt + n * kind.size) (by omega) (by omega)
    rcases Nat.lt_or_ge (A.freePages k.pma).ncard (missingTables A kind k.mem virt n) with
      hbefore | henough
    · -- a page in front of this one is left out
      obtain ⟨k₁, hk₁, h₁, hvmm, i, hi, hwalk⟩ :=
        ih (fun v hle hlt => hcan v hle (by omega)) (by omega) hbefore
      obtain ⟨k₂, calls, hk₂, h₂, hpage⟩ := h₁.mapPages_succ kind hk₁ hv hp hstart (by omega)
        hflags hpresent
      have hbelow : i * kind.size + kind.size ≤ n * kind.size := by
        rw [← Nat.succ_mul]
        exact Nat.mul_le_mul_right _ hi
      refine ⟨k₂, hk₂, h₂, hpage.vmm.trans hvmm, i, Nat.lt_succ_of_lt hi, ?_⟩
      rw [hpage.walk_off _ (hcan _ (by omega) (by omega)) (.inl (by omega)), hwalk]
    · -- this one is, because a call for a table of it is not answered
      obtain ⟨k₁, hk₁, h₁⟩ := h.mapPages_filled kind hv hp (fun v hle hlt => hcan v hle (by omega))
        (by omega) hflags hpresent henough
      obtain ⟨k₂, calls, hk₂, h₂, hpage⟩ := h₁.inv.mapPages_succ kind hk₁ hv hp hstart (by omega)
        hflags hpresent
      have hrefused : ∃ j < calls, k₁.pma.pageAnswer j = 0 := by
        by_contra hnone
        have hall : ∀ j < calls, k₁.pma.pageAnswer j ≠ 0 := fun j hj hzero => hnone ⟨j, hj, hzero⟩
        have hcalls := (hpage.answered hall).1
        have hle := h₁.inv.pma.answered_iff.mp hall
        have hcount := h₁.count
        rw [hcalls, h₁.missing_eq hstart] at hle
        rw [missingTables] at hshort
        omega
      refine ⟨k₂, hk₂, h₂, hpage.vmm.trans h₁.vmm, n, Nat.lt_succ_self n, ?_⟩
      rw [hpage.refused hrefused, h₁.walk_off _ hstart (.inr le_rfl)]

end Loop

end Cuore
