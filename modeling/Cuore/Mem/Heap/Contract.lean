import Cuore.Mem.Heap.Kernel

/-!
# What `malloc` and `realloc` promise

A pointer that is returned belongs to an allocation of at least the size asked for, and if `malloc`
returns null then nothing has changed (`MallocContract`).  That holds for every size that does not
wrap when a header and a page are added to it.

A larger size has too few pages in `heap_grow`, or is rounded to zero before.  In the first case the
heap grows until there are no frames and keeps what it has got.  In the second case any free block
will do, and `realloc` takes the old one for large enough.  Nothing goes wrong only when the first
search and the first growth both fail (`NothingLeft`).
-/

namespace Cuore

/-- **What `malloc(size)` promises**, when it returns `p`. -/
structure MallocContract (A : AddressSpace) (h : Heap) (k : KernelMemory) (size p : ℕ) (h' : Heap)
    (k' : KernelMemory) : Prop where
  large : p ≠ 0 → size ≤ capacity h' p
  list : p = 0 → ∀ L, BlockRep h' L ↔ BlockRep h L
  frames : p = 0 → A.freePages k'.pma = A.freePages k.pma
  ranges : p = 0 → vmmRanges k'.vmm.root = vmmRanges k.vmm.root

/-- There is no free block of `size` bytes, and there are no frames for the smallest growth. -/
def NothingLeft (h : Heap) (s : Pma) (size : ℕ) : Prop :=
  (∃ rs F, HeapInv h rs F ∧ ∀ b ∈ heapBlocks rs, ¬b.Fits size) ∧
    (pmaAllocPages pagesPerGrowth s).map Prod.fst = some 0

variable {A : AddressSpace} {h h' : Heap} {held grants : List ℕ} {k k' : KernelMemory}
  {kind : PageKind} {c : PmaAlloc} {s s' : Pma} {rs : List Region} {F : ℕ → List ℕ}
  {free : List (PmaZoneId × Piece)} {zs : List PmaZoneId}
  {p q n w size virt phys flags total : ℕ}

/-! ## What a growth does to the managers -/

/-- Zones that have nothing keep their pages. -/
lemma PmaInv.tryZones_zero (hinv : PmaInv (pmaZones total) (· ≠ 0) s free [] [])
    (hreq : PageRequest n w)
    (heq : pmaTryZones (n * pageSize) (w * pageSize) zs s = some (0, s')) :
    pmaFreeSet total s' = pmaFreeSet total s := by
  induction zs generalizing s free with
  | nil =>
    obtain ⟨-, rfl⟩ := Prod.mk.inj (Option.some.inj heq)
    rfl
  | cons z zs ih =>
    obtain ⟨ret, s₁, free₁, hzone, h₁, hcases⟩ := hinv.tryZone (z := z) hreq
    unfold pmaTryZones at heq
    rw [hzone] at heq
    dsimp only [Option.bind_eq_bind, Option.bind_some] at heq
    rcases hcases with ⟨rfl, -, hbits, -⟩ | ⟨hret, -⟩
    · rw [if_pos rfl] at heq
      rw [ih h₁ heq]
      ext x
      exact and_congr_right fun hx => hbits x hx
    · rw [if_neg hret] at heq
      exact absurd (Prod.mk.inj (Option.some.inj heq)).1 hret

/-- **An allocation of frames that fails** leaves the free pages as they are. -/
lemma PmaWellFormed.run_zero (hs : PmaWellFormed A.totalPages s) (hc : c.Valid)
    (heq : c.run s = some (0, s')) : A.freePages s' = A.freePages s := by
  obtain ⟨free, hinv⟩ := hs
  have hcount : c.count < 2 ^ 52 :=
    Nat.lt_of_mul_lt_mul_right (a := pageSize) (hc.2.trans_eq (by decide))
  have hasked : 0 < c.pagesAsked := by
    rw [PmaAlloc.pagesAsked, Nat.mod_eq_of_lt hcount]
    exact hc.1
  rw [c.run_eq] at heq
  exact hinv.tryZones_zero (PmaAlloc.request hasked) heq

/-- The addresses are in the pool, or behind it. -/
lemma vmmAllocAligned_ne_zero {malloc : Bool} {count align addr : ℕ} {v v' : Vmm}
    (hbase : 0 < v.poolBase) (hcount : count ≠ 0)
    (heq : vmmAllocAligned malloc count align v = some (addr, v')) :
    addr ≠ 0 ∧ v'.poolBase = v.poolBase := by
  rw [vmmAllocAligned, if_neg hcount] at heq
  dsimp only at heq
  generalize vmmAlignUp (if v.root ≠ .nil then vmmSubtreeEnd v.root else v.poolBase) align =
    tail at heq
  generalize vmmFindGap v.poolEnd count align v.root v.poolBase = found at heq
  have hne :
      (if found = 0 then (if tail < v.poolBase then v.poolBase else tail) else found) ≠ 0 := by
    split_ifs with hfound htail
    · exact hbase.ne'
    · exact (hbase.trans_le (not_lt.mp htail)).ne'
    · exact hfound
  generalize (if found = 0 then (if tail < v.poolBase then v.poolBase else tail) else found) = a
    at heq hne
  split_ifs at heq
  obtain ⟨⟨node, v₁⟩, hnode, heq⟩ := Option.bind_eq_some_iff.mp heq
  obtain ⟨rfl, rfl⟩ := Prod.mk.inj (Option.some.inj heq)
  refine ⟨hne, ?_⟩
  rw [poolAllocNode] at hnode
  split_ifs at hnode
  all_goals
    obtain ⟨-, rfl⟩ := Prod.mk.inj (Option.some.inj hnode)
    rfl

/-- The loop that maps pages takes frames for tables. -/
lemma mapPages_takes (heq : mapPages A kind virt phys flags n k = some k') :
    OnlyTakes k.pma k'.pma ∧ k'.vmm = k.vmm := by
  induction n generalizing k' with
  | zero =>
    obtain rfl := Option.some.inj heq
    exact ⟨OnlyTakes.refl _, rfl⟩
  | succ n ih =>
    obtain ⟨k₁, hk₁, heq⟩ := Option.bind_eq_some_iff.mp heq
    obtain ⟨t, -, heq⟩ := Option.bind_eq_some_iff.mp heq
    obtain ⟨pma, hpma, heq⟩ := Option.bind_eq_some_iff.mp heq
    obtain rfl := Option.some.inj heq
    exact ⟨(ih hk₁).1.trans (Pma.afterPages_onlyTakes hpma), (ih hk₁).2⟩

/-- **A range**: there are no frames, and the addresses are left alone; or frames are taken. -/
lemma mapRange_cases (hbase : 0 < k.vmm.poolBase) (hc : c.Valid)
    (heq : mapRange A kind c n flags k = some (virt, k')) :
    virt = 0 ∧ k'.vmm = k.vmm ∧ c.run k.pma = some (0, k'.pma) ∨
      virt ≠ 0 ∧ 0 < k'.vmm.poolBase ∧
        ∃ phys pma, phys ≠ 0 ∧ c.run k.pma = some (phys, pma) ∧ OnlyTakes pma k'.pma := by
  obtain ⟨⟨phys, pma⟩, hrun, heq⟩ := Option.bind_eq_some_iff.mp heq
  dsimp only at heq
  split_ifs at heq with hphys
  · obtain ⟨rfl, rfl⟩ := Prod.mk.inj (Option.some.inj heq)
    exact .inl ⟨rfl, rfl, hphys ▸ hrun⟩
  obtain ⟨⟨addr, vmm⟩, halloc, heq⟩ := Option.bind_eq_some_iff.mp heq
  obtain ⟨haddr, hpool⟩ := vmmAllocAligned_ne_zero hbase hc.1.ne' halloc
  dsimp only at heq
  rw [if_neg haddr] at heq
  obtain ⟨k₁, hmap, heq⟩ := Option.bind_eq_some_iff.mp heq
  obtain ⟨rfl, rfl⟩ := Prod.mk.inj (Option.some.inj heq)
  obtain ⟨htakes, hvmm⟩ := mapPages_takes hmap
  refine .inr ⟨haddr, ?_, phys, pma, hphys, hrun, htakes⟩
  rw [hvmm]
  exact hpool ▸ hbase

/-- `heap_grow` is one such request, of four pages if the size wraps. -/
lemma heapGrowMemory_eq (A : AddressSpace) (size : ℕ) : ∃ (kind : PageKind) (c : PmaAlloc) (n : ℕ),
    c.Valid ∧ (growPages size = pagesPerGrowth → c = .pages pagesPerGrowth) ∧
      heapGrowMemory A size = mapRange A kind c n (kernelHeapFlags ||| pteTypeHeapBlock) := by
  have hpos : 0 < growPages size := (by decide : 0 < pagesPerGrowth).trans_le (le_growPages size)
  have hlt := growPages_mul_lt size
  by_cases hhuge : growPages size ≥ pages2mb ∧ growPages size % pages2mb = 0
  · have hcount : growPages size / pages2mb * 512 = growPages size :=
      Nat.div_mul_cancel (Nat.dvd_of_mod_eq_zero hhuge.2)
    refine ⟨.page2mb, .pages2mb (growPages size / pages2mb), growPages size / pages2mb,
      ⟨by rwa [PmaAlloc.count, hcount], by rwa [PmaAlloc.count, hcount]⟩, fun hfour => ?_, ?_⟩
    · rw [hfour] at hhuge
      exact absurd hhuge (by decide)
    · funext k
      rw [heapGrowMemory, if_pos hhuge]
  · refine ⟨.page4kb, .pages (growPages size), growPages size, ⟨hpos, hlt⟩,
      fun hfour => by rw [hfour], ?_⟩
    funext k
    rw [heapGrowMemory, if_neg hhuge]

/-- **`heap_grow` fails**: the managers have what they had. -/
lemma growth_refused (hs : PmaWellFormed A.totalPages k.pma) (hbase : 0 < k.vmm.poolBase)
    (heq : heapGrowMemory A size k = some (0, k')) :
    k'.vmm = k.vmm ∧ A.freePages k'.pma = A.freePages k.pma ∧
      (growPages size = pagesPerGrowth →
        (pmaAllocPages pagesPerGrowth k.pma).map Prod.fst = some 0) := by
  obtain ⟨kind, c, n, hc, hfour, hgrow⟩ := heapGrowMemory_eq A size
  rw [hgrow] at heq
  obtain ⟨-, hvmm, hrun⟩ | ⟨hne, -⟩ := mapRange_cases hbase hc heq
  · refine ⟨hvmm, hs.run_zero hc hrun, fun hpages => ?_⟩
    obtain rfl := hfour hpages
    exact congrArg (Option.map Prod.fst) hrun
  · exact absurd rfl hne

/-- **`heap_grow` succeeds**: a page is not free any more. -/
lemma growth_granted (hs : PmaWellFormed A.totalPages k.pma) (hbase : 0 < k.vmm.poolBase)
    (heq : heapGrowMemory A size k = some (virt, k')) (hvirt : virt ≠ 0) :
    (∃ x ∈ A.freePages k.pma, x ∉ A.freePages k'.pma) ∧
      (growPages size = pagesPerGrowth →
        (pmaAllocPages pagesPerGrowth k.pma).map Prod.fst ≠ some 0) := by
  obtain ⟨kind, c, n, hc, hfour, hgrow⟩ := heapGrowMemory_eq A size
  rw [hgrow] at heq
  obtain ⟨hzero, -⟩ | ⟨-, -, phys, pma, hphys, hrun, htakes⟩ := mapRange_cases hbase hc heq
  · exact absurd hzero hvirt
  obtain ⟨-, hout⟩ := (hs.run hc hrun).2.resolve_left hphys
  obtain ⟨-, hwas, hnow⟩ := hout.free le_rfl
    (Nat.lt_add_of_pos_right (Nat.mul_pos hc.1 pageSize_pos))
  refine ⟨⟨_, hwas, fun hmem => hnow (AddressSpace.freePages_subset htakes hmem)⟩,
    fun hpages hzero => ?_⟩
  obtain rfl := hfour hpages
  exact hphys (Option.some.inj ((congrArg (Option.map Prod.fst) hrun).symm.trans hzero))

/-- In any state, `heap_grow` takes pages only. -/
lemma growth_takes (hbase : 0 < k.vmm.poolBase) (heq : heapGrowMemory A size k = some (virt, k')) :
    OnlyTakes k.pma k'.pma ∧ 0 < k'.vmm.poolBase := by
  obtain ⟨kind, c, n, hc, -, hgrow⟩ := heapGrowMemory_eq A size
  rw [hgrow] at heq
  obtain ⟨-, hvmm, hrun⟩ | ⟨-, hbase', phys, pma, -, hrun, htakes⟩ := mapRange_cases hbase hc heq
  · exact ⟨PmaAlloc.onlyTakes hrun, hvmm ▸ hbase⟩
  · exact ⟨(PmaAlloc.onlyTakes hrun).trans htakes, hbase'⟩

/-- So does a call that grows the heap several times. -/
lemma Answers.onlyTakes (ha : Answers A size h k grants k') (hbase : 0 < k.vmm.poolBase) :
    OnlyTakes k.pma k'.pma := by
  induction ha with
  | found => exact OnlyTakes.refl _
  | failed _ hgrow => exact (growth_takes hbase hgrow).1
  | grown _ hgrow _ _ ih =>
    obtain ⟨htakes, hbase'⟩ := growth_takes hbase hgrow
    exact htakes.trans (ih hbase')

/-! ## What a call returns -/

/-- No allocation is as large as a size that wraps. -/
lemma Live.size_lt (hp : Live (heapBlocks rs) F p n) (hrs : RegionsOk rs) :
    n + bhSize + pageSize < word := by
  obtain ⟨b, hb, -, hle, hle'⟩ := hp.bounds hrs
  have hlow := hrs.spread.low b hb
  have hsmall := hrs.spread.small b hb
  simp only [Block.payload] at hle
  omega

lemma Allocates.capacity (ha : Allocates h rs F size p h') (hp : p ≠ 0) :
    size ≤ capacity h' p ∧ Cuore.capacity h' p + bhSize + pageSize < word := by
  obtain ⟨rs', F', hi', -, ⟨hzero, -⟩ | ⟨-, -, n, hle, hlive⟩⟩ := ha
  · exact absurd hzero hp
  · have hn := (hlive p n).mpr (.inr ⟨rfl, rfl⟩)
    rw [hi'.capacity_eq hn]
    exact ⟨hle, hn.size_lt hi'.regions⟩

/-- `malloc` takes a slot, or looks for a block. -/
lemma HeapInv.malloc_cases (hi : HeapInv h rs F) (hsize : 0 < size)
    (hm : Cuore.malloc grants h size = some (p, h')) :
    p ≠ 0 ∧ size ≤ pageSize ∨ mallocRequest h size = some (alignHeap size) ∧
      mallocBlock (alignHeap size) grants h = some (p, h') := by
  rw [Cuore.malloc, if_neg hsize.ne'] at hm
  rcases takeSlot_spec h.mem size h.pools with ⟨hnone, -⟩ | ⟨A, r, B, hpools, hle, hne, hsome⟩
  · rw [hnone] at hm
    exact .inr ⟨if_neg (by simp [hsize.ne', hnone]), hm⟩
  · rw [hsome] at hm
    obtain ⟨rfl, -⟩ := Prod.mk.inj (Option.some.inj hm)
    have hbin : r.blockSize ∈ poolSizes :=
      hi.pools.sizes ▸ List.mem_map_of_mem (by simp [hpools])
    have hsmall : ∀ n ∈ poolSizes, n ≤ pageSize := by decide
    exact .inl ⟨hne, hle.trans (hsmall _ hbin)⟩

/-- A search that finds a block does not return null. -/
lemma mallocBlock_ne_zero {curr : ℕ} (hfound : searchHeap h size = some curr) (hcurr : curr ≠ 0)
    (hm : mallocBlock size grants h = some (p, h')) : p ≠ 0 := by
  rw [mallocBlock.eq_def] at hm
  change (searchHeap h size >>= _) = _ at hm
  rw [hfound, Option.bind_eq_bind, Option.bind_some, if_pos hcurr] at hm
  obtain ⟨rfl, -⟩ := Prod.mk.inj (Option.some.inj hm)
  exact (Nat.add_pos_right _ (by decide)).ne'

/-- **Null is returned** when the first search and the first growth fail, or after a growth. -/
lemma Answers.null_cases (ha : Answers A size h k grants k')
    (hm : mallocBlock size grants h = some (0, h')) :
    searchHeap h size = some 0 ∧ heapGrowMemory A size k = some (0, k') ∧ h' = h ∨
      ∃ virt k₁ rest, virt ≠ 0 ∧ heapGrowMemory A size k = some (virt, k₁) ∧
        grants = virt :: rest ∧ Answers A size (heapGrow h size virt) k₁ rest k' ∧
        mallocBlock size rest (heapGrow h size virt) = some (0, h') := by
  cases ha with
  | found hfound hcurr => exact absurd rfl (mallocBlock_ne_zero hfound hcurr hm)
  | failed hnone hgrow =>
    rw [mallocBlock_grow hnone] at hm
    dsimp only at hm
    rw [if_pos rfl] at hm
    exact .inl ⟨hnone, hgrow, (Prod.mk.inj (Option.some.inj hm)).2.symm⟩
  | @grown _ _ k₁ _ virt rest hnone hgrow hvirt hrest =>
    rw [mallocBlock_grow hnone] at hm
    dsimp only at hm
    rw [if_neg hvirt] at hm
    exact .inr ⟨virt, k₁, rest, hvirt, hgrow, rfl, hrest, hm⟩

/-- If the size does not wrap, a growth is followed by a block. -/
lemma Answers.null_fits (ha : Answers A size h k grants k') (hi : HeapInv h rs F)
    (hfresh : FreshGrants (growPages size) h.owned grants)
    (hm : mallocBlock size grants h = some (0, h')) (hsize : size + bhSize + pageSize ≤ word) :
    searchHeap h size = some 0 ∧ heapGrowMemory A size k = some (0, k') ∧ h' = h := by
  rcases ha.null_cases hm with hfirst | ⟨virt, k₁, rest, hvirt, -, rfl, hrest, hm⟩
  · exact hfirst
  obtain ⟨hf, -⟩ := hfresh.resolve_left hvirt
  have hsearch := hi.search_grow hf hsize
  cases hrest with
  | found hfound hcurr => exact absurd rfl (mallocBlock_ne_zero hfound hcurr hm)
  | failed hnone => exact absurd hnone hsearch
  | grown hnone => exact absurd hnone hsearch

/-! ## Sizes that wrap -/

/-- A size that cannot be rounded up is rounded to zero. -/
lemma alignHeap_wrap (hword : size < word) (hwrap : word ≤ size + 15) : alignHeap size = 0 := by
  rw [alignHeap_eq, alignDown, wadd]
  simp only [heapAlignment, word] at hword hwrap ⊢
  omega

/-- `heap_grow` has four pages for a size that wraps, also if it is rounded to zero. -/
lemma growPages_alignHeap (hword : size < word) (hwrap : word < size + bhSize + pageSize) :
    growPages (alignHeap size) = pagesPerGrowth := by
  by_cases hround : size + 15 < word
  · exact growPages_wraps (alignHeap_lt size)
      (hwrap.trans_le (by have := le_alignHeap hround; omega))
  · rw [alignHeap_wrap hword (not_lt.mp hround)]
    decide

/-- What is rounded does not wrap either. -/
lemma alignHeap_add_le (hsize : size + bhSize + pageSize ≤ word) :
    alignHeap size + bhSize + pageSize ≤ word := by
  simp only [bhSize, pageSize, word] at hsize
  rw [alignHeap_eq, wadd_of_lt (by simp only [word]; omega), alignDown]
  simp only [heapAlignment, bhSize, pageSize, word]
  omega

lemma nothingLeft_of_first (hi : HeapInv h rs F) (hs : PmaWellFormed A.totalPages k.pma)
    (hbase : 0 < k.vmm.poolBase) (hpages : growPages size = pagesPerGrowth)
    (hnone : searchHeap h size = some 0) (hgrow : heapGrowMemory A size k = some (0, k')) :
    NothingLeft h k.pma size :=
  ⟨⟨rs, F, hi, fun _ hb hfit => searchHeap_of_fits hi hb hfit hnone⟩,
    (growth_refused hs hbase hgrow).2.2 hpages⟩

/-- With nothing left, the call returns null at once. -/
lemma NothingLeft.null (hn : NothingLeft h k.pma size) (hs : PmaWellFormed A.totalPages k.pma)
    (hbase : 0 < k.vmm.poolBase) (hpages : growPages size = pagesPerGrowth)
    (ha : Answers A size h k grants k') (hm : mallocBlock size grants h = some (p, h')) :
    p = 0 ∧ h' = h ∧ heapGrowMemory A size k = some (0, k') := by
  obtain ⟨⟨rs, F, hi, hnone⟩, hrefused⟩ := hn
  cases ha with
  | found hfound hcurr =>
    rcases hi.blocks.search hi.regions.spread size with ⟨b, hb, hfit, -⟩ | ⟨-, hzero⟩
    · exact absurd hfit (hnone b hb)
    · exact absurd (Option.some.inj (hfound.symm.trans hzero)) hcurr
  | failed hsearch hgrow =>
    rw [mallocBlock_grow hsearch] at hm
    dsimp only at hm
    rw [if_pos rfl] at hm
    obtain ⟨rfl, rfl⟩ := Prod.mk.inj (Option.some.inj hm)
    exact ⟨rfl, rfl, hgrow⟩
  | grown _ hgrow hvirt =>
    exact absurd hrefused ((growth_granted hs hbase hgrow hvirt).2 hpages)

/-- A call that has found nothing and got nothing meets the contract. -/
lemma mallocContract_of_first (hs : PmaWellFormed A.totalPages k.pma)
    (hbase : 0 < k.vmm.poolBase) (hgrow : heapGrowMemory A n k = some (0, k')) :
    MallocContract A h k size 0 h k' := by
  obtain ⟨hvmm, hframes, -⟩ := growth_refused hs hbase hgrow
  exact ⟨fun hne => absurd rfl hne, fun _ _ => Iff.rfl, fun _ => hframes, fun _ => by rw [hvmm]⟩

/-! ## The contract -/

/-- **`malloc` keeps its contract** exactly if the size does not wrap, or nothing is left. -/
lemma HeapInv.malloc_contract (hi : HeapInv h rs F) (hs : PmaWellFormed A.totalPages k.pma)
    (hbase : 0 < k.vmm.poolBase) (hsize : 0 < size) (hword : size < word)
    (hfresh : FreshGrants (growPages (alignHeap size)) h.owned grants)
    (ha : AnsweredFor A (mallocRequest h size) h k grants k')
    (hm : Cuore.malloc grants h size = some (p, h')) :
    MallocContract A h k size p h' k' ↔
      size + bhSize + pageSize ≤ word ∨ NothingLeft h k.pma (alignHeap size) := by
  have hcap := fun hp => (hi.malloc_some hfresh hm).capacity hp
  by_cases hfits : size + bhSize + pageSize ≤ word
  · have hround : size + 15 < word := by
      simp only [bhSize, pageSize] at hfits
      omega
    rw [min_eq_left (le_alignHeap hround)] at hcap
    refine iff_of_true ?_ (.inl hfits)
    by_cases hp : p = 0
    · subst hp
      rcases hi.malloc_cases hsize hm with ⟨hne, -⟩ | ⟨hrequest, hblock⟩
      · exact absurd rfl hne
      rw [hrequest] at ha
      obtain ⟨-, hgrow, rfl⟩ := Answers.null_fits ha hi hfresh hblock (alignHeap_add_le hfits)
      exact mallocContract_of_first hs hbase hgrow
    · exact ⟨fun _ => (hcap hp).1, fun h0 => absurd h0 hp, fun h0 => absurd h0 hp,
        fun h0 => absurd h0 hp⟩
  have hwrap := not_le.mp hfits
  have hpages := growPages_alignHeap hword hwrap
  rcases hi.malloc_cases hsize hm with ⟨-, hsmall⟩ | ⟨hrequest, hblock⟩
  · simp only [bhSize, pageSize, word] at hsmall hwrap
    omega
  rw [hrequest] at ha
  rw [or_iff_right hfits]
  constructor
  · intro hcontract
    -- a pointer would be that of an allocation which is too small
    have hp : p = 0 := by
      by_contra hp
      have := hcontract.large hp
      have := (hcap hp).2
      omega
    subst hp
    rcases Answers.null_cases ha hblock with ⟨hnone, hgrow, -⟩ | ⟨virt, k₁, rest, hvirt, hgrow, -,
      hrest, -⟩
    · exact nothingLeft_of_first hi hs hbase hpages hnone hgrow
    · -- the pages of the growth are not free any more
      obtain ⟨⟨x, hwas, hnow⟩, -⟩ := growth_granted hs hbase hgrow hvirt
      have htakes := hrest.onlyTakes (growth_takes hbase hgrow).2
      rw [← hcontract.frames rfl] at hwas
      exact absurd (AddressSpace.freePages_subset htakes hwas) hnow
  · intro hleft
    obtain ⟨rfl, rfl, hgrow⟩ := hleft.null hs hbase hpages ha hblock
    exact mallocContract_of_first hs hbase hgrow

/-- `realloc` leaves an allocation where it is if the size is rounded to zero. -/
lemma realloc_of_wrap (hp : p ≠ 0) (hsize : 0 < size) (hzero : alignHeap size = 0)
    (hr : Cuore.realloc grants h p size = some (q, h')) : q = p ∧ h' = h := by
  rw [Cuore.realloc, if_neg hp, if_neg hsize.ne', hzero] at hr
  dsimp only at hr
  cases htype : getPtrType h p with
  | noinfo =>
    rw [htype] at hr
    exact absurd hr (by simp)
  | pool =>
    rw [htype] at hr
    dsimp only at hr
    rw [if_pos (Nat.zero_le _)] at hr
    obtain ⟨rfl, rfl⟩ := Prod.mk.inj (Option.some.inj hr)
    exact ⟨rfl, rfl⟩
  | block =>
    rw [htype] at hr
    dsimp only at hr
    rw [if_pos (Nat.zero_le _)] at hr
    split_ifs at hr
    obtain ⟨rfl, rfl⟩ := Prod.mk.inj (Option.some.inj hr)
    exact ⟨rfl, rfl⟩

/-- **`realloc` of an allocation** returns one that is large enough, exactly if the size can be
rounded up. -/
lemma HeapInv.realloc_contract (hi : HeapInv h rs F) (hp : Live (heapBlocks rs) F p n)
    (hsize : 0 < size) (hword : size < word) (hshort : ¬ShortSplit h p size)
    (hfresh : FreshGrants (growPages (alignHeap size)) h.owned grants)
    (hr : Cuore.realloc grants h p size = some (q, h')) :
    (q ≠ 0 → size ≤ capacity h' q) ↔ size + 15 < word := by
  by_cases hround : size + 15 < word
  · refine iff_of_true (fun hq => ?_) hround
    obtain ⟨rs', F', hi', ⟨hzero, -⟩ | ⟨-, -, -, -, j, hle, -, hlive⟩⟩ :=
      hi.realloc hp hsize hshort hfresh hr
    · exact absurd hzero hq
    · rw [hi'.capacity_eq ((hlive q j).mpr (.inr ⟨rfl, rfl⟩))]
      exact (le_alignHeap hround).trans hle
  · have hpos := (hp.pos hi.regions).ne'
    obtain ⟨rfl, rfl⟩ :=
      realloc_of_wrap hpos hsize (alignHeap_wrap hword (not_lt.mp hround)) hr
    refine iff_of_false (fun hlarge => ?_) hround
    have hle := hlarge hpos
    have hlt := hp.size_lt hi.regions
    rw [hi.capacity_eq hp] at hle
    simp only [bhSize, pageSize] at hlt
    omega

/-- **`realloc` of null** is `malloc`. -/
lemma HeapInv.realloc_null_contract (hi : HeapInv h rs F) (hs : PmaWellFormed A.totalPages k.pma)
    (hbase : 0 < k.vmm.poolBase) (hsize : 0 < size) (hword : size < word)
    (hfresh : FreshGrants (growPages (alignHeap size)) h.owned grants)
    (ha : AnsweredFor A (mallocRequest h size) h k grants k')
    (hm : Cuore.malloc grants h size = some (q, h')) :
    (q ≠ 0 → size ≤ capacity h' q) ↔
      size + 15 < word ∨ NothingLeft h k.pma (alignHeap size) := by
  have hcap := fun hq => (hi.malloc_some hfresh hm).capacity hq
  by_cases hround : size + 15 < word
  · rw [min_eq_left (le_alignHeap hround)] at hcap
    exact iff_of_true (fun hq => (hcap hq).1) (.inl hround)
  have hwrap : word < size + bhSize + pageSize := by
    simp only [bhSize, pageSize]
    omega
  have hzero := alignHeap_wrap hword (not_lt.mp hround)
  have hpages := growPages_alignHeap hword hwrap
  rcases hi.malloc_cases hsize hm with ⟨-, hsmall⟩ | ⟨hrequest, hblock⟩
  · simp only [bhSize, pageSize, word] at hsmall hwrap
    omega
  rw [hrequest] at ha
  rw [or_iff_right hround]
  constructor
  · intro hlarge
    obtain rfl : q = 0 := by
      by_contra hq
      have := hlarge hq
      have := (hcap hq).2
      omega
    obtain ⟨hnone, hgrow, -⟩ := Answers.null_fits ha hi hfresh hblock (by rw [hzero]; decide)
    exact nothingLeft_of_first hi hs hbase hpages hnone hgrow
  · intro hleft hq
    exact absurd (hleft.null hs hbase hpages ha hblock).1 hq

/-- **The contract of `malloc` and `realloc`.**  In a run of the heap without a short split, and
with any state of the managers, `malloc` keeps it exactly if the size does not wrap with a header
and a page added to it, or nothing is left; and `realloc` returns a large enough allocation exactly
if the size can be rounded up, or if it is called with null and nothing is left. -/
theorem malloc_realloc_contract (hr : HeapRun HeapOp.Safe h held)
    (hs : PmaWellFormed A.totalPages k.pma) (hbase : 0 < k.vmm.poolBase) (hsize : 0 < size) :
    (∀ grants p h' k', (HeapOp.malloc size grants).Allowed h held →
      AnsweredFor A ((HeapOp.malloc size grants).request h) h k grants k' →
      Cuore.malloc grants h size = some (p, h') →
      (MallocContract A h k size p h' k' ↔
        size + bhSize + pageSize ≤ word ∨ NothingLeft h k.pma (alignHeap size))) ∧
    ∀ ptr grants q h' k', (HeapOp.realloc ptr size grants).Allowed h held →
      (HeapOp.realloc ptr size grants).Safe h →
      AnsweredFor A ((HeapOp.realloc ptr size grants).request h) h k grants k' →
      Cuore.realloc grants h ptr size = some (q, h') →
      ((q ≠ 0 → size ≤ capacity h' q) ↔
        size + 15 < word ∨ ptr = 0 ∧ NothingLeft h k.pma (alignHeap size)) := by
  obtain ⟨rs, F, hi, hheld⟩ := hr.inOrder
  refine ⟨fun grants p h' k' hask ha hm =>
    hi.malloc_contract hs hbase hsize hask.1 hask.2 ha hm,
    fun ptr grants q h' k' hask hsafe ha hrun => ?_⟩
  obtain ⟨hptr, hword, hfresh⟩ := hask
  by_cases hz : ptr = 0
  · subst hz
    rw [eq_self, true_and]
    refine hi.realloc_null_contract hs hbase hsize hword hfresh ha ?_
    rw [← hrun, Cuore.realloc, if_pos rfl]
  · obtain ⟨n, hn⟩ := (hheld ptr).mp (hptr.resolve_left hz)
    rw [or_iff_left fun hnull => hz hnull.1]
    exact hi.realloc_contract hn hsize hword (hsafe.resolve_left hz) hfresh hrun

/-- A request of `2 ^ 64 - 8` bytes, at the start: `malloc` cuts off a block of no bytes. -/
lemma smallHeap_rounded : ∃ h k h', smallHeap = some (h, k) ∧
    KernelHeapRun smallSpace HeapOp.Safe h [] k ∧
    AnsweredFor smallSpace (mallocRequest h (word - 8)) h k [] k ∧
    malloc [] h (word - 8) = some (0xFFFF800000200030, h') ∧ capacity h' 0xFFFF800000200030 = 0 ∧
    (pmaAllocPages pagesPerGrowth k.pma).map Prod.fst ≠ some 0 := by
  obtain ⟨h, k, hsmall, hr⟩ := smallHeap_run HeapOp.Safe
  have hvalue : (smallHeap.bind fun r => (malloc [] r.1 (word - 8)).map fun s =>
      (searchHeap r.1 0, mallocRequest r.1 (word - 8), s.1, capacity s.2 s.1,
        (pmaAllocPages pagesPerGrowth r.2.pma).map Prod.fst)) =
      some (some 0xFFFF800000200000, some 0, 0xFFFF800000200030, 0, some 0x108000) := by
    decide +kernel
  rw [hsmall, Option.bind_some] at hvalue
  obtain ⟨⟨p, h'⟩, hm, hvalue⟩ := Option.map_eq_some_iff.mp hvalue
  simp only [Prod.mk.injEq] at hvalue
  obtain ⟨hsearch, hrequest, rfl, hcap, hframes⟩ := hvalue
  refine ⟨h, k, h', hsmall, hr, ?_, hm, hcap, ?_⟩
  · rw [hrequest]
    exact .found hsearch (by decide)
  · rw [hframes]
    decide

/-- `malloc(208)` and a `realloc` to 512 bytes keep the contract, and `malloc(2 ^ 64 - 8)` breaks
it. -/
theorem malloc_realloc_contract_small : ∃ h k p h₁ q h₂ r h₃,
    KernelHeapRun smallSpace HeapOp.Safe h [] k ∧
    malloc [] h 208 = some (p, h₁) ∧ p ≠ 0 ∧ MallocContract smallSpace h k 208 p h₁ k ∧
    HeapRun HeapOp.Safe h₁ [p] ∧ realloc [] h₁ p 512 = some (q, h₂) ∧ q ≠ 0 ∧
    512 ≤ capacity h₂ q ∧
    malloc [] h (word - 8) = some (r, h₃) ∧ ¬MallocContract smallSpace h k (word - 8) r h₃ k := by
  obtain ⟨h, k, h₃, hsmall, hr, ha₃, hm₃, -, hframes⟩ := smallHeap_rounded
  have hvalue : (smallHeap.bind fun r => (malloc [] r.1 208).bind fun s =>
      (realloc [] s.2 s.1 512).map fun t => ((searchHeap r.1 208, mallocRequest r.1 208, s.1),
        decide (ShortSplit s.2 s.1 512), (HeapOp.realloc s.1 512 []).request s.2, t.1)) =
      some ((some 0xFFFF800000200000, some 208, 0xFFFF800000200030), false, none,
        0xFFFF800000200030) := by
    decide +kernel
  rw [hsmall, Option.bind_some] at hvalue
  obtain ⟨⟨p, h₁⟩, hm, hvalue⟩ := Option.bind_eq_some_iff.mp hvalue
  obtain ⟨⟨q, h₂⟩, hre, hvalue⟩ := Option.map_eq_some_iff.mp hvalue
  simp only [Prod.mk.injEq, decide_eq_false_iff_not] at hvalue
  obtain ⟨⟨hsearch, hrequest, rfl⟩, hshort, hstays, rfl⟩ := hvalue
  obtain ⟨hrun, live, hb⟩ := hr.heapRun
  have hask : (HeapOp.malloc 208 []).Allowed h [] := ⟨by decide, trivial⟩
  have hrun₁ : HeapRun HeapOp.Safe h₁ [0xFFFF800000200030] := hrun.step hask trivial hm
  have ha : AnsweredFor smallSpace (mallocRequest h 208) h k [] k := by
    rw [hrequest]
    exact .found hsearch (by decide)
  have ha₂ : AnsweredFor smallSpace ((HeapOp.realloc 0xFFFF800000200030 512 []).request h₁) h₁ k []
      k := by
    rw [hstays]
    exact ⟨rfl, rfl⟩
  have hs := hb.inv.pma
  have hbase := hb.inv.vmm.base_pos
  have hsmallSize := (malloc_realloc_contract hrun hs hbase (by decide : 0 < 208)).1
  have hgrown := (malloc_realloc_contract hrun₁ hs hbase (by decide : 0 < 512)).2
  have hwraps := (malloc_realloc_contract hrun hs hbase (by decide : 0 < word - 8)).1
  refine ⟨h, k, _, h₁, _, h₂, _, h₃, hr, hm, by decide, ?_, hrun₁, hre, by decide, ?_, hm₃, ?_⟩
  · exact (hsmallSize [] _ _ _ hask ha hm).mpr (.inl (by decide))
  · exact (hgrown _ [] _ _ _ ⟨.inr (by decide), by decide, trivial⟩ (.inr hshort) ha₂ hre).mpr
      (.inl (by decide)) (by decide)
  · rw [hwraps [] _ _ _ ⟨by decide, trivial⟩ ha₃ hm₃, not_or]
    exact ⟨by decide, fun hleft => hframes hleft.2⟩

/-- **A size close to `2 ^ 64` is rounded to zero**, and the block that is returned has no bytes. -/
theorem malloc_rounded_to_zero : ∃ h k p h', KernelHeapRun smallSpace HeapOp.Safe h [] k ∧
    AnsweredFor smallSpace (mallocRequest h (word - 8)) h k [] k ∧
    malloc [] h (word - 8) = some (p, h') ∧ p ≠ 0 ∧ capacity h' p = 0 ∧
    ¬MallocContract smallSpace h k (word - 8) p h' k := by
  obtain ⟨h, k, h', -, hr, ha, hm, hcap, -⟩ := smallHeap_rounded
  refine ⟨h, k, _, h', hr, ha, hm, by decide, hcap, fun hcontract => ?_⟩
  have hlarge := hcontract.large (by decide)
  rw [hcap] at hlarge
  exact absurd hlarge (by decide)

end Cuore
