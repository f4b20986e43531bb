import Cuore.Mem.Pma.Init
import Cuore.Mem.Pma.Free

/-!
# Runs of the physical allocator

A run starts from the state that `pma_init` builds and calls the allocation functions and
`pma_free_pages` in any order, the latter with ranges that are live.  Between the calls, the owners
of live ranges write to them as they like, headers that were there before included.

`PmaRun ok s₀ s live` is such a run in which `ok` holds at every call of `pma_free_pages`.
`PmaRun.inv` says that a run in which every range merges cleanly keeps the state as pieces.  From
it come the two safety results: no page is handed out twice (`pmaRun_alloc_exclusive`), and the
zones stay on their sides of 4 GiB (`pmaRun_zones_apart`).

Without the condition both fail.  On a map with free pages on both sides of 4 GiB, freeing the
first page above takes the block below for its neighbour, and puts it on a list of the upper zone
while it is still on its own (`straddlingMap_shares_block`); it is then handed out from both
(`straddlingMap_allocates_twice`).
-/

namespace Cuore

open Function Pma Piece

/-! ## Calls -/

/-- A call of an allocation function. -/
inductive PmaAlloc
  | pages (count : ℕ)
  | pages2mb (count : ℕ)
  | pagesLow (count : ℕ)
  deriving DecidableEq, Repr

namespace PmaAlloc

/-- The call. -/
def run : PmaAlloc → Pma → Option (ℕ × Pma)
  | pages count => pmaAllocPages count
  | pages2mb count => pmaAllocPages2mb count
  | pagesLow count => pmaAllocPagesLow count

/-- The number of pages that are asked for. -/
def count : PmaAlloc → ℕ
  | pages count => count
  | pages2mb count => count * 512
  | pagesLow count => count

/-- The alignment, in pages. -/
def align : PmaAlloc → ℕ
  | pages _ => 1
  | pages2mb _ => 512
  | pagesLow _ => 1

/-- At least one page is asked for, and the size in bytes does not wrap. -/
def Valid (c : PmaAlloc) : Prop := 0 < c.count ∧ c.count * pageSize < word

instance (c : PmaAlloc) : Decidable c.Valid := inferInstanceAs (Decidable (_ ∧ _))

end PmaAlloc

/-- The addresses from `p` on, `n` of them, and those from `q` on, `m` of them, are disjoint. -/
def RangesDisjoint (p n q m : ℕ) : Prop := p + n ≤ q ∨ q + m ≤ p

instance (p n q m : ℕ) : Decidable (RangesDisjoint p n q m) := inferInstanceAs (Decidable (_ ∨ _))

/-- **A run** from the state `s₀`: the state it has come to, and the ranges that are live. -/
inductive PmaRun (ok : Pma → ℕ → ℕ → Prop) (s₀ : Pma) : Pma → List (ℕ × ℕ) → Prop
  | init : PmaRun ok s₀ s₀ []
  /-- An allocation that succeeds. -/
  | alloc {s s' : Pma} {live : List (ℕ × ℕ)} {c : PmaAlloc} {p : ℕ} (h : PmaRun ok s₀ s live)
      (hc : c.Valid) (heq : c.run s = some (p, s')) (hp : p ≠ 0) :
      PmaRun ok s₀ s' ((p, c.count) :: live)
  /-- An allocation that fails. -/
  | fail {s s' : Pma} {live : List (ℕ × ℕ)} {c : PmaAlloc} (h : PmaRun ok s₀ s live)
      (hc : c.Valid) (heq : c.run s = some (0, s')) : PmaRun ok s₀ s' live
  | free {s s' : Pma} {live : List (ℕ × ℕ)} {p n : ℕ} (h : PmaRun ok s₀ s live)
      (hlive : (p, n) ∈ live) (hok : ok s p n) (heq : pmaFreePages p n s = some s') :
      PmaRun ok s₀ s' (live.erase (p, n))
  /-- The owners of live ranges write: only headers that reach into one can change. -/
  | write {s : Pma} {live : List (ℕ × ℕ)} {hdr : ℕ → PmaFreeBlock} (h : PmaRun ok s₀ s live)
      (hhdr : ∀ a, (∀ r ∈ live, RangesDisjoint a pmaBlockHeaderSize r.1 (r.2 * pageSize)) →
        hdr a = s.hdr a) : PmaRun ok s₀ { s with hdr } live

variable {regions : List CmmRegion} {hdr : ℕ → PmaFreeBlock} {s₀ s s' : Pma} {live : List (ℕ × ℕ)}
  {A : PmaArea} {F : ℕ → Prop} {total : ℕ} {free : List (PmaZoneId × Piece)} {lv : List Piece}
  {b : Piece}
  {z : PmaZoneId}

/-! ## The invariant -/

/-- The range of a piece. -/
def toRange (b : Piece) : ℕ × ℕ := (b.start * pageSize, b.size)

lemma toRange_injective : Injective toRange := by
  rintro ⟨p, n⟩ ⟨q, m⟩ h
  rw [toRange, toRange, Prod.mk.injEq, mul_pageSize_inj] at h
  dsimp only at h
  rw [h.1, h.2]

/-- The slack that is looked for behind the pages does not wrap either. -/
lemma PmaAlloc.Valid.request {c : PmaAlloc} (hc : c.Valid) : PageRequest c.count c.align := by
  obtain ⟨hpos, hlt⟩ := hc
  cases c with
  | pages n => exact ⟨hpos, ⟨0, by omega, rfl⟩, hlt⟩
  | pages2mb n =>
    have hslack : ∀ n, n * 512 < 2 ^ 52 → n * 512 + 511 < 2 ^ 52 := by omega
    have hpages : word = 2 ^ 52 * pageSize := rfl
    dsimp only [PmaAlloc.count, PmaAlloc.align] at hlt ⊢
    rw [hpages, Nat.mul_lt_mul_right pageSize_pos] at hlt
    refine ⟨hpos, ⟨9, by omega, rfl⟩, ?_⟩
    rw [hpages, Nat.mul_lt_mul_right pageSize_pos]
    exact hslack n hlt
  | pagesLow n => exact ⟨hpos, ⟨0, by omega, rfl⟩, hlt⟩

/-- Every call returns, and hands out pages of a zone or fails. -/
lemma PmaInv.runAlloc {c : PmaAlloc} (h : PmaInv (pmaZones total) F s free [] lv) (hF : ¬F 0)
    (hc : c.Valid) :
    ∃ ret s', c.run s = some (ret, s') ∧
      ∃ z, Allocated (pmaZones total) F lv z c.count c.align ret s' ∧
        ((∃ n, c = .pagesLow n) → z = .low) := by
  have hreq := hc.request
  have hbytes : wmul c.count pageSize = c.count * pageSize := wmul_of_lt hc.2
  cases c with
  | pages n =>
    obtain ⟨ret, s', heq, z, halloc⟩ := h.allocFromZones hF hreq
    refine ⟨ret, s', ?_, z, halloc, by simp⟩
    rw [← heq, ← hbytes, PmaAlloc.align, Nat.one_mul]
    rfl
  | pages2mb n =>
    obtain ⟨ret, s', heq, z, halloc⟩ := h.allocFromZones hF hreq
    refine ⟨ret, s', ?_, z, halloc, by simp⟩
    have hlarge : wmul n pageSize2mb = wmul (n * 512) pageSize :=
      congrArg (· % word) (Nat.mul_assoc n 512 pageSize).symm
    rw [← heq, ← hbytes, PmaAlloc.run, pmaAllocPages2mb, hlarge, PmaAlloc.align, PmaAlloc.count]
    rfl
  | pagesLow n =>
    obtain ⟨ret, s', heq, hr⟩ := h.allocFromZone (z := .low) rfl hreq
    refine ⟨ret, s', ?_, .low, hr.allocated h hreq.align_pos, fun _ => rfl⟩
    rw [← heq, ← hbytes, PmaAlloc.align, Nat.one_mul]
    rfl

/-- A write of the owners keeps the pieces. -/
lemma PmaInv.clientWrite {hdr : ℕ → PmaFreeBlock} (h : PmaInv (pmaZones total) F s free [] lv)
    (hhdr : ∀ a, (∀ r ∈ lv.map toRange, RangesDisjoint a pmaBlockHeaderSize r.1 (r.2 * pageSize)) →
      hdr a = s.hdr a) : PmaInv (pmaZones total) F { s with hdr } free [] lv := by
  refine h.write fun p hp => hhdr _ fun r hr => ?_
  obtain ⟨b, hb, rfl⟩ := List.mem_map.mp hr
  have hout := hp b (by simp [hb])
  rw [mem_iff] at hout
  simp only [RangesDisjoint, toRange, pmaBlockHeaderSize, pageSize]
  omega

/-- **The state of a run as pieces.** -/
lemma PmaRun.inv (hmap : UsableMap regions) (hinit : pmaInit regions hdr = some s₀)
    (h : PmaRun MergesCleanly s₀ s live) :
    ∃ free lv, live = lv.map toRange ∧
      PmaInv (pmaZones (cmmGetRamTop regions / pageSize)) (fun p => s₀.bitmap p = false) s free
        [] lv := by
  obtain ⟨htotal, hF, hfree⟩ := PmaInv.init hmap hinit
  induction h with
  | init =>
    obtain ⟨free, h⟩ := hfree
    exact ⟨free, [], rfl, h⟩
  | @alloc s s' live c p _ hc heq hp ih =>
    obtain ⟨free, lv, rfl, h⟩ := ih
    obtain ⟨ret, s'', heq', z, halloc, -⟩ := h.runAlloc hF hc
    obtain ⟨rfl, rfl⟩ := Prod.mk.injEq .. ▸ Option.some.inj (heq.symm.trans heq')
    rcases halloc with ⟨hret, -⟩ | ⟨q, hret, -, -, free', h'⟩
    · exact absurd hret hp
    · exact ⟨free', _, by rw [List.map_cons, toRange, hret], h'⟩
  | @fail s s' live c _ hc heq ih =>
    obtain ⟨free, lv, rfl, h⟩ := ih
    obtain ⟨ret, s'', heq', z, halloc, -⟩ := h.runAlloc hF hc
    obtain ⟨rfl, rfl⟩ := Prod.mk.injEq .. ▸ Option.some.inj (heq.symm.trans heq')
    rcases halloc with ⟨-, free', h'⟩ | ⟨q, hret, -, -, free', h'⟩
    · exact ⟨free', lv, rfl, h'⟩
    · exact absurd hret.symm (h'.ret_ne_zero hF)
  | @free s s' live p n _ hlive hok heq ih =>
    obtain ⟨free, lv, rfl, h⟩ := ih
    obtain ⟨b, hb, hr⟩ := List.mem_map.mp hlive
    obtain ⟨rfl, rfl⟩ := Prod.mk.injEq .. ▸ hr
    obtain ⟨s'', free', heq', h'⟩ :=
      (h.perm_live (List.perm_cons_erase hb)).freePages hF htotal hok
    obtain rfl := Option.some.inj (heq.symm.trans heq')
    exact ⟨free', lv.erase b, (List.map_erase toRange_injective ..).symm, h'⟩
  | @write s live hdr _ hhdr ih =>
    obtain ⟨free, lv, rfl, h⟩ := ih
    exact ⟨free, lv, rfl, h.clientWrite hhdr⟩

/-! ## Safety -/

/-- The blocks on the lists are pieces of their zones. -/
lemma PmaInv.onFreeList (h : PmaInv A F s free [] lv) (hz : A.view z) {a : ℕ}
    (ha : OnFreeList s z a) :
    ∃ b, (z, b) ∈ free ∧ InZone A z b ∧ a = b.start * pageSize ∧
      a + (s.hdr a).blockSize = b.stop * pageSize := by
  obtain ⟨b, hb, rfl, hsize⟩ := (h.holds.onFreeList_iff hz).mp ha
  exact ⟨b, hb, h.zoned _ hb, rfl, by rw [hsize, ← Nat.add_mul, Piece.stop]⟩

lemma Piece.Apart.rangesDisjoint {c : Piece} (h : Apart b c) :
    RangesDisjoint (b.start * pageSize) (b.size * pageSize) (c.start * pageSize)
      (c.size * pageSize) := by
  rw [RangesDisjoint, ← Nat.add_mul, ← Nat.add_mul]
  exact h.imp (Nat.mul_le_mul_right _) (Nat.mul_le_mul_right _)

/-- **No page is handed out twice.**  In a run in which every range merges cleanly, every valid
call returns, and fails or hands out aligned pages that `pma_init` made free, which are no part of
a live range or of a block on a list. -/
theorem pmaRun_alloc_exclusive (hmap : UsableMap regions) (hinit : pmaInit regions hdr = some s₀)
    (h : PmaRun MergesCleanly s₀ s live) {c : PmaAlloc} (hc : c.Valid) :
    ∃ p s', c.run s = some (p, s') ∧ (p = 0 ∨
      c.align * pageSize ∣ p ∧
      (∀ q, p ≤ q * pageSize → q * pageSize < p + c.count * pageSize → s₀.bitmap q = false) ∧
      (∀ r ∈ live, RangesDisjoint p (c.count * pageSize) r.1 (r.2 * pageSize)) ∧
      ∀ z a, OnFreeList s' z a →
        RangesDisjoint p (c.count * pageSize) a (s'.hdr a).blockSize) := by
  obtain ⟨free, lv, rfl, hinv⟩ := h.inv hmap hinit
  obtain ⟨-, hF, -⟩ := PmaInv.init hmap hinit
  obtain ⟨p, s', heq, z, halloc, -⟩ := hinv.runAlloc hF hc
  refine ⟨p, s', heq, ?_⟩
  rcases halloc with ⟨rfl, -⟩ | ⟨q, rfl, hdvd, hz, free', h'⟩
  · exact .inl rfl
  refine .inr ⟨Nat.mul_dvd_mul_right hdvd _, fun q' hle hlt => ?_, fun r hr => ?_,
    fun z' a ha => ?_⟩
  · rw [← Nat.add_mul, Nat.mul_lt_mul_right pageSize_pos] at hlt
    exact (h'.within ⟨q, c.count⟩ (by simp)).2 q' ⟨Nat.le_of_mul_le_mul_right hle pageSize_pos, hlt⟩
  · obtain ⟨b, hb, rfl⟩ := List.mem_map.mp hr
    have hlive := (List.pairwise_append.mp h'.packed.apart).2.1
    exact ((List.pairwise_cons.mp hlive).1 b hb).rangesDisjoint
  · obtain ⟨b, hb, -, rfl, hstop⟩ := h'.onFreeList rfl ha
    have hsize := h'.holds.blockSize_eq hb
    rw [hsize]
    exact (h'.apart_free (b := ⟨q, c.count⟩) hb (by simp)).rangesDisjoint

/-- Three ranges of the low zone and one of the normal zone are handed out, and two that touch are
freed.  The second of them merges with free pages on both sides. -/
def mergingRun : Option ((ℕ × ℕ × ℕ × ℕ) × Bool × Bool × ℕ) := do
  let s ← pmaInit straddlingMap zeroHdr
  let (p, s) ← pmaAllocPages 1 s
  let (q, s) ← pmaAllocPagesLow 2 s
  let (b, s) ← pmaAllocPagesLow 3 s
  let (c, s) ← pmaAllocPagesLow 2 s
  let clean := decide (MergesCleanly s b 3)
  let s ← pmaFreePages b 3 s
  let clean' := decide (MergesCleanly s c 2)
  let s ← pmaFreePages c 2 s
  let (r, _) ← pmaAllocPagesLow 4 s
  some ((p, q, b, c), clean, clean', r)

lemma mergingRun_eq : mergingRun = some
    ((0x100000000, 0x100000000 - 2 * 4096, 289 * 4096, 292 * 4096), true, true, 289 * 4096) := by
  decide +kernel

/-- The run has come to a state with two live ranges, and four more pages are there. -/
lemma exists_mergingRun : ∃ s₀ s s', pmaInit straddlingMap zeroHdr = some s₀ ∧
    PmaRun MergesCleanly s₀ s [(0x100000000 - 2 * 4096, 2), (0x100000000, 1)] ∧
      (PmaAlloc.pagesLow 4).run s = some (289 * 4096, s') := by
  have hrun := mergingRun_eq
  simp only [mergingRun, Option.bind_eq_bind, Option.bind_eq_some_iff, Option.some.injEq,
    Prod.mk.injEq, Prod.exists, decide_eq_true_eq] at hrun
  obtain ⟨s₀, hinit, p, s₁, h₁, q, s₂, h₂, b, s₃, h₃, c, s₄, h₄, s₅, h₅, s₆, h₆, r, s₇, h₇,
    ⟨rfl, rfl, rfl, rfl⟩, hclean, hclean', rfl⟩ := hrun
  have hrun₁ : PmaRun MergesCleanly s₀ s₁ [(0x100000000, 1)] :=
    PmaRun.init.alloc (c := .pages 1) (by decide) h₁ (by decide)
  have hrun₂ : PmaRun MergesCleanly s₀ s₂ [(0x100000000 - 2 * 4096, 2), (0x100000000, 1)] :=
    hrun₁.alloc (c := .pagesLow 2) (by decide) h₂ (by decide)
  have hrun₃ : PmaRun MergesCleanly s₀ s₃ [(289 * 4096, 3), _, _] :=
    hrun₂.alloc (c := .pagesLow 3) (by decide) h₃ (by decide)
  have hrun₄ : PmaRun MergesCleanly s₀ s₄ [(292 * 4096, 2), (289 * 4096, 3), _, _] :=
    hrun₃.alloc (c := .pagesLow 2) (by decide) h₄ (by decide)
  have hrun₅ : PmaRun MergesCleanly s₀ s₅ [(292 * 4096, 2), _, _] :=
    hrun₄.free (by decide) hclean h₅
  have hrun₆ : PmaRun MergesCleanly s₀ s₆ [_, _] := hrun₅.free (by decide) hclean' h₆
  exact ⟨s₀, s₆, s₇, hinit, hrun₆, h₇⟩

/-- The four pages that the last call of `mergingRun` gets. -/
theorem pmaRun_alloc_exclusive_straddlingMap : ∃ s₀ s s', pmaInit straddlingMap zeroHdr = some s₀ ∧
    PmaRun MergesCleanly s₀ s [(0x100000000 - 2 * 4096, 2), (0x100000000, 1)] ∧
      (PmaAlloc.pagesLow 4).run s = some (289 * 4096, s') ∧ 1 * pageSize ∣ 289 * 4096 ∧
      (∀ q, 289 * 4096 ≤ q * pageSize → q * pageSize < 289 * 4096 + 4 * pageSize →
        s₀.bitmap q = false) ∧
      (∀ r ∈ [(0x100000000 - 2 * 4096, 2), (0x100000000, 1)],
        RangesDisjoint (289 * 4096) (4 * pageSize) r.1 (r.2 * pageSize)) ∧
      ∀ z a, OnFreeList s' z a →
        RangesDisjoint (289 * 4096) (4 * pageSize) a (s'.hdr a).blockSize := by
  obtain ⟨s₀, s, s', hinit, hrun, hcall⟩ := exists_mergingRun
  obtain ⟨p, t, heq, hp⟩ := pmaRun_alloc_exclusive usableMap_straddlingMap hinit hrun
    (c := .pagesLow 4) (by decide)
  obtain ⟨rfl, rfl⟩ := Prod.mk.inj (Option.some.inj (hcall.symm.trans heq))
  exact ⟨s₀, s, _, hinit, hrun, hcall, hp.resolve_left (by decide)⟩

/-- What happens on the map: the first page above 4 GiB is handed out and freed, then four pages are
handed out from the upper zone and two from the lower one. -/
def straddlingRun : Option (ℕ × ℕ × ℕ) := do
  let s ← pmaInit straddlingMap zeroHdr
  let (p, s) ← pmaAllocPages 1 s
  let s ← pmaFreePages p 1 s
  let (q, s) ← pmaAllocPages 4 s
  let (r, _) ← pmaAllocPagesLow 2 s
  some (p, q, r)

lemma straddlingRun_eq : straddlingRun =
    some (0x100000000, 0x100000000 - 2 * 4096, 0x100000000 - 2 * 4096) := by
  decide +kernel

/-- **The same page is handed out twice.** -/
theorem straddlingMap_allocates_twice : ∃ s₀ s live c p s',
    (∀ r ∈ straddlingMap, pageSize ∣ r.base ∧ pageSize ∣ r.length) ∧ UsableMap straddlingMap ∧
      pmaInit straddlingMap zeroHdr = some s₀ ∧ PmaRun (fun _ _ _ => True) s₀ s live ∧
      PmaAlloc.Valid c ∧ c.run s = some (p, s') ∧ p ≠ 0 ∧
      ∃ r ∈ live, ¬RangesDisjoint p (c.count * pageSize) r.1 (r.2 * pageSize) := by
  have hrun := straddlingRun_eq
  simp only [straddlingRun, Option.bind_eq_bind, Option.bind_eq_some_iff, Option.some.injEq,
    Prod.mk.injEq, Prod.exists] at hrun
  obtain ⟨s₀, hinit, p, s₁, h₁, s₂, h₂, q, s₃, h₃, r, s₄, h₄, rfl, rfl, rfl⟩ := hrun
  have hrun₁ : PmaRun (fun _ _ _ => True) s₀ s₁ [(0x100000000, 1)] :=
    PmaRun.init.alloc (c := .pages 1) (by decide) h₁ (by decide)
  have hrun₂ : PmaRun (fun _ _ _ => True) s₀ s₂ [] := hrun₁.free (by decide) trivial h₂
  have hrun₃ : PmaRun (fun _ _ _ => True) s₀ s₃ [(0x100000000 - 2 * 4096, 4)] :=
    hrun₂.alloc (c := .pages 4) (by decide) h₃ (by decide)
  exact ⟨s₀, s₃, _, .pagesLow 2, _, s₄, by decide, usableMap_straddlingMap, hinit, hrun₃, by decide,
    h₄, by decide, _, List.mem_cons_self, by decide⟩

/-- **The zones stay on their sides of 4 GiB**, in a run in which every range merges cleanly. -/
theorem pmaRun_zones_apart (hmap : UsableMap regions) (hinit : pmaInit regions hdr = some s₀)
    (h : PmaRun MergesCleanly s₀ s live) :
    (∀ a, OnFreeList s .low a → a + (s.hdr a).blockSize ≤ pmaZone32bit * pageSize) ∧
      (∀ a, OnFreeList s .normal a → pmaZone32bit * pageSize ≤ a) ∧
      (∀ a, ¬(OnFreeList s .low a ∧ OnFreeList s .normal a)) ∧
      ∀ n p s', (PmaAlloc.pagesLow n).Valid → pmaAllocPagesLow n s = some (p, s') → p ≠ 0 →
        p + n * pageSize ≤ pmaZone32bit * pageSize := by
  obtain ⟨free, lv, rfl, hinv⟩ := h.inv hmap hinit
  obtain ⟨-, hF, -⟩ := PmaInv.init hmap hinit
  have hlow : ∀ a, OnFreeList s .low a → a + (s.hdr a).blockSize ≤ pmaZone32bit * pageSize := by
    intro a ha
    obtain ⟨b, -, hz, -, hstop⟩ := hinv.onFreeList rfl ha
    rw [hstop]
    exact Nat.mul_le_mul_right _ (inZone_low.mp hz).2
  have hnormal : ∀ a, OnFreeList s .normal a → pmaZone32bit * pageSize ≤ a := by
    intro a ha
    obtain ⟨b, -, hz, rfl, -⟩ := hinv.onFreeList rfl ha
    exact Nat.mul_le_mul_right _ (inZone_normal.mp hz).1
  refine ⟨hlow, hnormal, fun a ⟨ha, ha'⟩ => ?_, fun n p s' hn heq hp => ?_⟩
  · have hle := hlow a ha
    have hge := hnormal a ha'
    -- a block is not empty
    obtain ⟨b, hb, -, rfl, -⟩ := hinv.onFreeList rfl ha
    have hsize := hinv.holds.blockSize_eq hb
    have hpos := Nat.mul_pos (hinv.pos_of_free hb) pageSize_pos
    dsimp only at hpos
    omega
  · obtain ⟨p', s'', heq', z, halloc, hz⟩ := hinv.runAlloc hF hn
    obtain ⟨rfl, rfl⟩ := Prod.mk.injEq .. ▸ Option.some.inj (heq.symm.trans heq')
    obtain rfl := hz ⟨n, rfl⟩
    rcases halloc with ⟨hret, -⟩ | ⟨q, rfl, -, hz, -⟩
    · exact absurd hret hp
    · rw [← Nat.add_mul]
      exact Nat.mul_le_mul_right _ (inZone_low.mp hz).2

/-- The two zones after `mergingRun`. -/
theorem pmaRun_zones_apart_straddlingMap : ∃ s₀ s s', pmaInit straddlingMap zeroHdr = some s₀ ∧
    PmaRun MergesCleanly s₀ s [(0x100000000 - 2 * 4096, 2), (0x100000000, 1)] ∧
      (∀ a, OnFreeList s .low a → a + (s.hdr a).blockSize ≤ pmaZone32bit * pageSize) ∧
      (∀ a, OnFreeList s .normal a → pmaZone32bit * pageSize ≤ a) ∧
      (∀ a, ¬(OnFreeList s .low a ∧ OnFreeList s .normal a)) ∧
      pmaAllocPagesLow 4 s = some (289 * 4096, s') ∧
        289 * 4096 + 4 * pageSize ≤ pmaZone32bit * pageSize := by
  obtain ⟨s₀, s, s', hinit, hrun, hcall⟩ := exists_mergingRun
  obtain ⟨hlow, hnormal, hapart, hle⟩ := pmaRun_zones_apart usableMap_straddlingMap hinit hrun
  exact ⟨s₀, s, s', hinit, hrun, hlow, hnormal, hapart, hcall,
    hle 4 _ s' (by decide) hcall (by decide)⟩

/-- Lists of both zones after the first page above 4 GiB has been handed out and freed. -/
def straddlingHeads : Option (ℕ × ℕ × ℕ) := do
  let s ← pmaInit straddlingMap zeroHdr
  let (p, s) ← pmaAllocPages 1 s
  let s ← pmaFreePages p 1 s
  some (p, (s.zone .low).blocks 0 2, (s.zone .normal).blocks 0 4)

lemma straddlingHeads_eq : straddlingHeads =
    some (0x100000000, 0x100000000 - 2 * 4096, 0x100000000 - 2 * 4096) := by
  decide +kernel

/-- **A block is on lists of both zones.** -/
theorem straddlingMap_shares_block : ∃ s₀ s a,
    (∀ r ∈ straddlingMap, pageSize ∣ r.base ∧ pageSize ∣ r.length) ∧ UsableMap straddlingMap ∧
      pmaInit straddlingMap zeroHdr = some s₀ ∧ PmaRun (fun _ _ _ => True) s₀ s [] ∧
      OnFreeList s .low a ∧ OnFreeList s .normal a ∧ a < pmaZone32bit * pageSize := by
  have hrun := straddlingHeads_eq
  simp only [straddlingHeads, Option.bind_eq_bind, Option.bind_eq_some_iff, Option.some.injEq,
    Prod.mk.injEq, Prod.exists] at hrun
  obtain ⟨s₀, hinit, p, s₁, h₁, s₂, h₂, rfl, hlow, hnormal⟩ := hrun
  have hrun₁ : PmaRun (fun _ _ _ => True) s₀ s₁ [(0x100000000, 1)] :=
    PmaRun.init.alloc (c := .pages 1) (by decide) h₁ (by decide)
  have hrun₂ : PmaRun (fun _ _ _ => True) s₀ s₂ [] := hrun₁.free (by decide) trivial h₂
  have hon : OnFreeList s₂ .low ((s₂.zone .low).blocks 0 2) :=
    .head (by decide) (by decide) (by rw [hlow]; decide)
  have hon' : OnFreeList s₂ .normal ((s₂.zone .normal).blocks 0 4) :=
    .head (by decide) (by decide) (by rw [hnormal]; decide)
  rw [hlow] at hon
  rw [hnormal] at hon'
  exact ⟨s₀, s₂, _, by decide, usableMap_straddlingMap, hinit, hrun₂, hon, hon', by decide⟩

end Cuore
