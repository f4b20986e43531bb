import Cuore.Mem.Vmm.FirstFit

/-!
# Requests that are too large (`vmm_alloc_aligned`)

The pool lies at the top of the address space, and the ends that the allocator compares are computed
on 64-bit words.  An end that wraps is a small number, which passes every check.  So a request that
is too large is either refused, or placed where its pages do not fit.

`vmmFindGap_place` says what the search has checked at an address it returns, without any assumption
on the request.  `searchOk_of_lt` and `searchOk_of_fits` say when no end that it meets on the way
wraps. Both together give the exact condition (`vmmAllocAligned_inPool_iff`).
-/

namespace Cuore

/-- The pages are in the pool, and in no range. -/
def InPool (s : Vmm) (count a : ℕ) : Prop :=
  s.poolBase ≤ a ∧ a + count * pageSize ≤ s.poolEnd ∧ VacantAt s count a

/-- A place in front of a range: behind the ranges before it, rounded up. -/
def FitsBefore (pages align base : ℕ) (l : List VmmRange) : Prop :=
  ∃ A x B, l = A ++ x :: B ∧
    vmmAlignUp (lastLimit VmmRange.limit base A) align + pages * pageSize ≤ x.start

/-- What a call that does not panic needs of its request: the pages fit in front of some range, or
the end behind the last range does not leave the 64-bit words. -/
def RequestFits (s : Vmm) (count align : ℕ) : Prop :=
  FitsBefore count align s.poolBase (vmmRanges s.root) ∨
    vmmAlignUp (lastLimit VmmRange.limit s.poolBase (vmmRanges s.root)) align +
      count * pageSize < word

/-! ## Rounding -/

section Rounding

variable {k a b : ℕ}

/-- Where rounding leaves the words, the address is taken as it is. -/
lemma vmmAlignUp_of_wrap (hk : k ≤ 64) (ha : a < word) (h : word ≤ alignUp (2 ^ k) a) :
    vmmAlignUp a (2 ^ k) = a := by
  have hpos := Nat.two_pow_pos k
  have hlt := alignUp_lt hpos a
  have hpow : 2 ^ k ≤ word := Nat.pow_le_pow_right (by decide) hk
  rw [vmmAlignUp, wsub_wadd_one (by omega)]
  have hmod : (a + 2 ^ k - 1) % word < a := by
    rw [Nat.mod_eq_sub_mod (by omega), Nat.mod_eq_of_lt (by omega)]
    omega
  rw [if_pos (lt_of_le_of_lt Nat.and_le_left hmod)]

lemma vmmAlignUp_mono (hk : k ≤ 64) (hb : b < word) (hab : a ≤ b) :
    vmmAlignUp a (2 ^ k) ≤ vmmAlignUp b (2 ^ k) := by
  have hpos := Nat.two_pow_pos k
  have hmono : alignUp (2 ^ k) a ≤ alignUp (2 ^ k) b := alignUp_mono hab
  by_cases hbw : alignUp (2 ^ k) b < word
  · rw [vmmAlignUp_eq hk hbw, vmmAlignUp_eq hk (by omega)]
    exact hmono
  by_cases haw : alignUp (2 ^ k) a < word
  · rw [vmmAlignUp_eq hk haw]
    refine le_trans ?_ (le_vmmAlignUp b _)
    -- else `b` would round up to the same address
    by_contra hlt
    have hsame : alignUp (2 ^ k) b ≤ alignUp (2 ^ k) (alignUp (2 ^ k) a) :=
      alignUp_mono (not_le.mp hlt).le
    rw [alignUp_of_dvd hpos (dvd_alignUp _ a)] at hsame
    omega
  · rw [vmmAlignUp_of_wrap hk (by omega) (not_lt.mp haw)]
    exact hab.trans (le_vmmAlignUp b _)

end Rounding

/-! ## What the search has checked -/

section Search

variable {pages align base a k : ℕ} {l A : List VmmRange} {x : VmmRange}

/-- **An address that the search returns** lies behind some of the ranges, and its computed end does
not lie behind the start of the next one. -/
lemma vmmFindGap_place {poolEnd : ℕ} (hend : poolEnd < word) {t : AvlTree VmmNode}
    (ht : t.Current vmmAvlCb) (ha : Apart poolEnd (vmmRanges t))
    (hbase : ∀ x ∈ vmmRanges t, base ≤ x.start)
    (hne : vmmFindGap poolEnd pages align t base ≠ 0) :
    ∃ A x B, vmmRanges t = A ++ x :: B ∧
      vmmFindGap poolEnd pages align t base =
        vmmAlignUp (lastLimit VmmRange.limit base A) align ∧
      searchEnd pages align (lastLimit VmmRange.limit base A) ≤ x.start := by
  induction t generalizing base with
  | nil => exact absurd rfl hne
  | node l n h r ihl ihr =>
    obtain ⟨hal, har, hln, hnr⟩ := ha.of_node
    have hranges : vmmRanges (.node l n h r) = vmmRanges l ++ n.range :: vmmRanges r := rfl
    have hn : n.range.limit ≤ poolEnd := ha.le _ (by simp [hranges])
    have hnpos : n.range.start < n.range.limit := by
      have := ha.pos n.range (by simp [hranges])
      simp only [VmmRange.limit, pageSize]
      omega
    have hbl : ∀ y ∈ vmmRanges l, base ≤ y.start := fun y hy => hbase y (by simp [hranges, hy])
    have hbn : behindLeft l base ≤ n.start := by
      rw [behindLeft_eq hend ht.2.1 hal hbl]
      rcases @lastLimit_mem _ VmmRange.limit base (vmmRanges l) with heq | ⟨y, hy, heq⟩
      · rw [heq]
        exact hbase n.range (by simp [hranges])
      · rw [heq]
        exact hln y hy
    rw [vmmFindGap_node, nend_eq hend hn, if_pos (hbn.trans_lt hnpos)] at hne ⊢
    split_ifs at hne ⊢ with hfirst hin hprune hleft hnode hin
    · -- in front of the whole subtree
      obtain ⟨x, T, hxT⟩ : ∃ x T, vmmRanges (.node l n h r) = x :: T :=
        List.exists_cons_of_ne_nil (by simp [hranges])
      have hstart : n.subtreeStart = x.start := vmmSubtreeStart_eq hend ht ha x (by simp [hxT])
      exact ⟨[], x, T, hxT, rfl, hstart ▸ hfirst⟩
    · exact absurd rfl hne
    · exact absurd rfl hne
    · -- in the left subtree
      obtain ⟨A, x, B, hAB, heq, hle⟩ := ihl ht.2.1 hal hbl hleft
      exact ⟨A, x, B ++ n.range :: vmmRanges r, by rw [hranges, hAB]; simp, heq, hle⟩
    · -- in front of the node
      rw [behindLeft_eq hend ht.2.1 hal hbl] at hnode ⊢
      exact ⟨vmmRanges l, n.range, vmmRanges r, hranges, rfl, hnode⟩
    · exact absurd rfl hne
    · -- in the right subtree, from the end of the node on
      obtain ⟨A, x, B, hAB, heq, hle⟩ := ihr ht.2.2 har hnr hne
      have hlast : lastLimit VmmRange.limit base (vmmRanges l ++ n.range :: A) =
          lastLimit VmmRange.limit n.range.limit A := lastLimit_append
      refine ⟨vmmRanges l ++ n.range :: A, x, B, ?_, ?_, ?_⟩
      · rw [hranges, hAB]
        simp
      · rw [hlast]
        exact heq
      · rw [hlast]
        exact hle

/-- If the end behind the last range does not wrap, none does. -/
lemma searchOk_of_lt (hk : k ≤ 64) (hsorted : l.Pairwise fun x y => x.limit ≤ y.start)
    (hbase : ∀ x ∈ l, base ≤ x.start)
    (hlt : vmmAlignUp (lastLimit VmmRange.limit base l) (2 ^ k) + pages * pageSize < word) :
    SearchOk pages (2 ^ k) base l := by
  induction l generalizing base with
  | nil => trivial
  | cons x l ih =>
    obtain ⟨hxl, hl⟩ := List.pairwise_cons.mp hsorted
    refine ⟨fun hle => ?_, .inr (ih hl hxl hlt)⟩
    have hlim : x.limit ≤ lastLimit VmmRange.limit base (x :: l) :=
      limit_le_lastLimit (fun y _ => Nat.le_add_right y.start _) hsorted List.mem_cons_self
    have hbx : base ≤ lastLimit VmmRange.limit base (x :: l) :=
      (hbase x List.mem_cons_self).trans ((Nat.le_add_right x.start _).trans hlim)
    have hw := le_vmmAlignUp (lastLimit VmmRange.limit base (x :: l)) (2 ^ k)
    have hmono := vmmAlignUp_mono hk (by omega) hbx
    rwa [searchEnd, wmul_of_lt (by omega), wadd_of_lt (by omega)] at hle

/-- Nor does one in front of a gap in which the request fits. -/
lemma searchOk_of_fits (hk : k ≤ 64) (hsorted : l.Pairwise fun x y => x.limit ≤ y.start)
    (hbase : ∀ x ∈ l, base ≤ x.start) (hw : ∀ x ∈ l, x.start < word)
    (hfits : FitsBefore pages (2 ^ k) base l) : SearchOk pages (2 ^ k) base l := by
  obtain ⟨A, x, B, rfl, hle⟩ := hfits
  have hx := hw x (by simp)
  induction A generalizing base with
  | nil => exact ⟨fun _ => hle, .inl hle⟩
  | cons y A ih =>
    obtain ⟨hyl, hl⟩ := List.pairwise_cons.mp hsorted
    refine ⟨fun hend => ?_, .inr (ih hle hl hyl fun z hz => hw z (List.mem_cons_of_mem _ hz))⟩
    have hA : (y :: A).Pairwise fun x y => x.limit ≤ y.start :=
      hsorted.sublist ((List.sublist_append_left A _).cons_cons y)
    have hlim : y.limit ≤ lastLimit VmmRange.limit base (y :: A) :=
      limit_le_lastLimit (fun z _ => Nat.le_add_right z.start _) hA List.mem_cons_self
    have hby : base ≤ lastLimit VmmRange.limit base (y :: A) :=
      (hbase y List.mem_cons_self).trans ((Nat.le_add_right y.start _).trans hlim)
    have hup := le_vmmAlignUp (lastLimit VmmRange.limit base (y :: A)) (2 ^ k)
    have hmono := vmmAlignUp_mono hk (by omega) hby
    rwa [searchEnd, wmul_of_lt (by omega), wadd_of_lt (by omega)] at hend

/-- What the scan finds is in front of a range. -/
lemma vmmScan_fits (h : vmmScan pages align base l = some a) :
    ∃ A x B, l = A ++ x :: B ∧ a = vmmAlignUp (lastLimit VmmRange.limit base A) align ∧
      a + pages * pageSize ≤ x.start := by
  induction l generalizing base with
  | nil => exact absurd h (by simp [vmmScan, scanFit])
  | cons x l ih =>
    by_cases hfit : vmmAlignUp base align + pages * pageSize ≤ x.start
    · rw [vmmScan_cons_of_fits hfit] at h
      obtain rfl := Option.some.inj h
      exact ⟨[], x, l, rfl, rfl, hfit⟩
    · rw [vmmScan_cons_of_not hfit] at h
      obtain ⟨A, y, B, rfl, heq, hle⟩ := ih h
      exact ⟨x :: A, y, B, rfl, heq, hle⟩

lemma vmmScan_ne_none (h : FitsBefore pages align base l) : vmmScan pages align base l ≠ none := by
  obtain ⟨A, x, B, rfl, hle⟩ := h
  rw [vmmScan_append, vmmScan_cons_of_fits hle]
  simp

end Search

/-! ## The allocator -/

namespace VmmPool

variable {s : Vmm} {count a : ℕ} (h : VmmPool s)
include h

/-- A place in front of a range is in the pool. -/
lemma inPool_of_fits {A B : List VmmRange} {x : VmmRange} (hAB : vmmRanges s.root = A ++ x :: B)
    (hle : lastLimit VmmRange.limit s.poolBase A ≤ a) (hfit : a + count * pageSize ≤ x.start) :
    InPool s count a := by
  obtain ⟨hA, hxB, -⟩ := List.pairwise_append.mp (hAB ▸ h.apart.sorted)
  have hbase : s.poolBase ≤ lastLimit VmmRange.limit s.poolBase A := by
    rcases @lastLimit_mem _ VmmRange.limit s.poolBase A with heq | ⟨y, hy, heq⟩
    · exact heq.ge
    · rw [heq]
      exact (h.limit_mem (by rw [hAB]; simp [hy])).1
  refine ⟨hbase.trans hle, ?_, fun y hy => ?_⟩
  · have hx := (h.limit_mem (x := x) (by rw [hAB]; simp)).2
    exact hfit.trans ((Nat.le_add_right _ _).trans hx)
  rw [hAB] at hy
  rcases List.mem_append.mp hy with hy | hy
  · exact .inl ((limit_le_lastLimit (fun z _ => Nat.le_add_right z.start _) hA hy).trans hle)
  · refine .inr (hfit.trans ?_)
    rcases List.mem_cons.mp hy with rfl | hy
    · exact le_rfl
    · exact (Nat.le_add_right _ _).trans ((List.pairwise_cons.mp hxB).1 y hy)

/-- So is a place behind the last range that ends in the pool. -/
lemma inPool_of_tail (hle : lastLimit VmmRange.limit s.poolBase (vmmRanges s.root) ≤ a)
    (hend : a + count * pageSize ≤ s.poolEnd) : InPool s count a :=
  ⟨h.base_le_tail.trans hle, hend, fun _ hx =>
    .inl ((limit_le_lastLimit (fun y _ => Nat.le_add_right y.start _) h.apart.sorted hx).trans hle)⟩

end VmmPool

/-- The address that a call returns, and the check it has passed. -/
lemma vmmAllocAligned_some {s s' : Vmm} (h : VmmPool s) {malloc : Bool} {count align addr : ℕ}
    (hcount : 1 ≤ count) (hrun : vmmAllocAligned malloc count align s = some (addr, s')) :
    addr = (if vmmFindGap s.poolEnd count align s.root s.poolBase = 0 then
        vmmAlignUp (lastLimit VmmRange.limit s.poolBase (vmmRanges s.root)) align
      else vmmFindGap s.poolEnd count align s.root s.poolBase) ∧
      wadd addr (wmul count pageSize) ≤ s.poolEnd ∧
      ∃ r, poolAllocNode malloc s = some r ∧ s' = r.2.addRange r.1 addr count := by
  have hbehind : ¬ vmmAlignUp (lastLimit VmmRange.limit s.poolBase (vmmRanges s.root)) align <
      s.poolBase := not_lt.mpr (h.base_le_tail.trans (le_vmmAlignUp _ _))
  rw [vmmAllocAligned, if_neg (by omega)] at hrun
  dsimp only at hrun
  rw [h.tail_eq, if_neg hbehind] at hrun
  generalize (if vmmFindGap s.poolEnd count align s.root s.poolBase = 0 then
    vmmAlignUp (lastLimit VmmRange.limit s.poolBase (vmmRanges s.root)) align
    else vmmFindGap s.poolEnd count align s.root s.poolBase) = found at *
  split_ifs at hrun with hend
  obtain ⟨r, halloc, hr⟩ := Option.bind_eq_some_iff.mp hrun
  obtain ⟨rfl, rfl⟩ := Prod.mk.inj (Option.some.inj hr)
  exact ⟨rfl, not_lt.mp hend, r, halloc, rfl⟩

/-- A request that fits is placed in the pool. -/
lemma RequestFits.inPool {s s' : Vmm} (h : VmmPool s) {malloc : Bool} {count k addr : ℕ}
    (hcount : 1 ≤ count) (hk : k < 64) (hreq : RequestFits s count (2 ^ k))
    (hrun : vmmAllocAligned malloc count (2 ^ k) s = some (addr, s')) : InPool s count addr := by
  obtain ⟨haddr, hend, -⟩ := vmmAllocAligned_some h hcount hrun
  have hw : ∀ x ∈ vmmRanges s.root, x.start < word := fun x hx =>
    lt_of_le_of_lt ((Nat.le_add_right _ _).trans (h.limit_mem hx).2) h.end_lt
  have hok : SearchOk count (2 ^ k) s.poolBase (vmmRanges s.root) := hreq.elim
    (searchOk_of_fits hk.le h.apart.sorted h.base_le hw)
    (searchOk_of_lt hk.le h.apart.sorted h.base_le)
  rw [vmmFindGap_eq h.end_lt h.current h.apart h.base_pos h.base_le hok] at haddr
  rcases hscan : vmmScan count (2 ^ k) s.poolBase (vmmRanges s.root) with _ | a
  · rw [hscan, Option.getD_none, if_pos rfl] at haddr
    have htail := hreq.resolve_left fun hfits => vmmScan_ne_none hfits hscan
    rw [← haddr] at htail
    rw [wmul_of_lt (by omega), wadd_of_lt htail] at hend
    exact h.inPool_of_tail (haddr ▸ le_vmmAlignUp _ _) hend
  · have hpos := vmmScan_pos h.base_pos h.apart.sorted h.base_le hscan
    obtain ⟨A, x, B, hAB, heq, hle⟩ := vmmScan_fits hscan
    rw [hscan, Option.getD_some, if_neg hpos.ne'] at haddr
    rw [haddr]
    exact h.inPool_of_fits hAB (heq ▸ le_vmmAlignUp _ _) hle

/-- **Which requests are placed in the pool.**  A call that does not panic returns an address at
which the pages are in the pool and in no range if, and only if, they fit in front of some range, or
the end behind the last range does not leave the 64-bit words. -/
theorem vmmAllocAligned_inPool_iff {s s' : Vmm} (h : VmmPool s) {malloc : Bool} {count k addr : ℕ}
    (hcount : 1 ≤ count) (hk : k < 64)
    (hrun : vmmAllocAligned malloc count (2 ^ k) s = some (addr, s')) :
    InPool s count addr ↔ RequestFits s count (2 ^ k) := by
  refine ⟨fun hin => ?_, fun hreq => hreq.inPool h hcount hk hrun⟩
  obtain ⟨haddr, -⟩ := vmmAllocAligned_some h hcount hrun
  have hin := hin.2.1
  have hlt := h.end_lt
  by_cases hfound : vmmFindGap s.poolEnd count (2 ^ k) s.root s.poolBase = 0
  · rw [if_pos hfound] at haddr
    rw [haddr] at hin
    exact .inr (hin.trans_lt hlt)
  · -- the end in front of the range did not wrap, since the pool ends below
    rw [if_neg hfound] at haddr
    obtain ⟨A, x, B, hAB, heq, hle⟩ :=
      vmmFindGap_place h.end_lt h.current h.apart h.base_le hfound
    rw [← haddr] at heq
    rw [searchEnd, ← heq, wmul_of_lt (by omega), wadd_of_lt (by omega)] at hle
    exact .inl ⟨A, x, B, hAB, heq ▸ hle⟩

/-- Three pages fit in front of the range of `holePool`. -/
theorem vmmAllocAligned_inPool_holePool :
    ∃ s', vmmAllocAligned false 3 (2 ^ 12) holePool = some (0xFFFF800080000000, s') ∧
      InPool holePool 3 0xFFFF800080000000 := by
  have hrun : (vmmAllocAligned false 3 (2 ^ 12) holePool).map Prod.fst =
      some 0xFFFF800080000000 := by decide +kernel
  obtain ⟨⟨a, s'⟩, hrun, rfl⟩ := Option.map_eq_some_iff.mp hrun
  refine ⟨s', hrun, (vmmAllocAligned_inPool_iff vmmPool_holePool (by decide)
    (by decide) hrun).mpr ?_⟩
  exact .inl ⟨[], ⟨0xFFFF800080200000, 512⟩, [], rfl, by decide +kernel⟩

/-- A request for 128 TiB in a pool without ranges: its end wraps, and it is placed at the base of
the pool, which ends before it does. -/
theorem vmmAllocAligned_oversize :
    VmmPool (vmmInit 0xFFFF800000000000 0x80000000 4) ∧
    ∃ s', vmmAllocAligned false (2 ^ 35) (2 ^ 12) (vmmInit 0xFFFF800000000000 0x80000000 4) =
        some (0xFFFF800080000000, s') ∧
      ¬ InPool (vmmInit 0xFFFF800000000000 0x80000000 4) (2 ^ 35) 0xFFFF800080000000 := by
  have hinv : VmmInv (vmmInit 0xFFFF800000000000 0x80000000 4) [] := vmmInv_init (by decide)
  have hrun : (vmmAllocAligned false (2 ^ 35) (2 ^ 12)
      (vmmInit 0xFFFF800000000000 0x80000000 4)).map Prod.fst = some 0xFFFF800080000000 := by
    decide +kernel
  obtain ⟨⟨a, s'⟩, hrun, rfl⟩ := Option.map_eq_some_iff.mp hrun
  exact ⟨hinv.pool, s', hrun, fun hin => absurd hin.2.1 (by decide)⟩

end Cuore
