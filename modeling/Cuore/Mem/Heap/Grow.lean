import Cuore.Mem.Backing
import Cuore.Mem.Heap.Accounting

/-!
# Where the heap gets its memory

`heap_grow`, `heap_init` and the pool part of `_free` with the three memory managers behind them.
A call of `malloc` grows the heap as often as its search finds nothing (`Answers`), and each answer
is what `heap_grow` has got from the managers.

`HeapBacked` is what the heap and the managers keep together: the ranges of the heap are live in
`vmm.c`, and its bytes are backed.  `HeapRanges.answers` says that the answers are fresh ranges.

One growth is enough (`Growths.length_le_one`), unless the size of the request with a header and a
page added to it wraps.  Then the ranges are always too small (`Growths.search_wraps`), and the heap
grows until there are no frames left or `vmm.c` panics.

A pool page that leaves the heap gives back its addresses, but not its frame
(`releasePage_eq`): `KERNEL_HEAP_FLAGS` has `PTE_NX`, and `*pte & ~0xfff` does not clear it,
so that `pma_free_pages` is called for an address beyond all memory and ignores it.
-/

namespace Cuore

/-! ## The functions -/

/-- `KERNEL_HEAP_FLAGS`. -/
def kernelHeapFlags : ℕ := ptePresent ||| pteWritable ||| pteNx

/-- `PTE_TYPE_HEAP_BLOCK`. -/
def pteTypeHeapBlock : ℕ := 1 <<< 9

/-- `PTE_TYPE_HEAP_POOL`. -/
def pteTypeHeapPool : ℕ := 2 <<< 9

/-- `PAGES_2MB`. -/
def pages2mb : ℕ := pageSize2mb / pageSize

section Functions

variable (A : AddressSpace)

/-- `heap_grow`, up to the header of the new block. -/
def heapGrowMemory (sizeNeeded : ℕ) (k : KernelMemory) : Option (ℕ × KernelMemory) :=
  let pages := growPages sizeNeeded
  if pages ≥ pages2mb ∧ pages % pages2mb = 0 then
    let hugeCount := pages / pages2mb
    mapRange A .page2mb (.pages2mb hugeCount) hugeCount (kernelHeapFlags ||| pteTypeHeapBlock) k
  else mapRange A .page4kb (.pages pages) pages (kernelHeapFlags ||| pteTypeHeapBlock) k

/-- The memory for a pool page, in `heap_init_pools`. -/
def poolPageMemory (k : KernelMemory) : Option (ℕ × KernelMemory) :=
  mapRange A .page4kb (.pages 1) 1 (kernelHeapFlags ||| pteTypeHeapPool) k

/-- `heap_init`, up to the header of the first block. -/
def heapInitMemory (size : ℕ) (k : KernelMemory) : Option (ℕ × KernelMemory) := do
  let pages := initPages size
  let (virt, vmm) ← vmmAllocPages false pages k.vmm
  if virt = 0 then none
  else
    let (phys, pma) ← pmaAllocPages pages k.pma
    if phys = 0 then none
    else
      let k ← mapPages A .page4kb virt phys (kernelHeapFlags ||| pteTypeHeapBlock) pages
        { k with pma := pma, vmm := vmm }
      some (virt, k)

/-- `heap_init`. -/
def kernelHeapInit (mem : Memory) (size : ℕ) (k : KernelMemory) : Option (Heap × KernelMemory) := do
  let (virt, k) ← heapInitMemory A size k
  let (pool0, k) ← poolPageMemory A k
  let (pool1, k) ← poolPageMemory A k
  let (pool2, k) ← poolPageMemory A k
  let h ← heapInit mem size virt pool0 pool1 pool2
  some (h, k)

/-- The end of the pool part of `_free`: the page gives back its frame and its addresses. -/
def releasePage (page : ℕ) (k : KernelMemory) : Option KernelMemory := do
  let (pte, _) ← pagingGetPte k.pma.pageAnswer A.levels A.top page false ⟨k.mem, 0, 0⟩
  let phys ← match pte with
    | none => some 0
    | some (table, index) =>
      if table ≥ physLimit then none else some (readEntry k.mem table index &&& wnot 0xFFF)
  let vmm := (vmmFreePages page 1 k.vmm).2
  let pma ← if phys ≠ 0 then pmaFreePages phys 1 k.pma else some k.pma
  some { k with pma := pma, vmm := vmm }

/-- The search of `malloc`, in the heap as it is. -/
def searchHeap (h : Heap) (size : ℕ) : Option ℕ :=
  searchFit h.mem h.head (searchStart h) size word (searchStart h) false

/-- **The answers of `heap_grow`** in a call of `malloc` for a block of `size` bytes: it is asked
while the search finds nothing. -/
inductive Answers (size : ℕ) : Heap → KernelMemory → List ℕ → KernelMemory → Prop
  | found {h : Heap} {k : KernelMemory} {curr : ℕ} (hfound : searchHeap h size = some curr)
      (hcurr : curr ≠ 0) : Answers size h k [] k
  | failed {h : Heap} {k k' : KernelMemory} (hnone : searchHeap h size = some 0)
      (hgrow : heapGrowMemory A size k = some (0, k')) : Answers size h k [0] k'
  | grown {h : Heap} {k k' k'' : KernelMemory} {virt : ℕ} {grants : List ℕ}
      (hnone : searchHeap h size = some 0) (hgrow : heapGrowMemory A size k = some (virt, k'))
      (hvirt : virt ≠ 0) (hrest : Answers size (heapGrow h size virt) k' grants k'') :
      Answers size h k (virt :: grants) k''

/-- **The growths in a call of `malloc`** for a block of `size` bytes, up to some point. -/
inductive Growths (size : ℕ) (h : Heap) (k : KernelMemory) : List ℕ → Heap → KernelMemory → Prop
  | refl : Growths size h k [] h k
  | grown {l : List ℕ} {h' : Heap} {k' k'' : KernelMemory} {virt : ℕ}
      (hl : Growths size h k l h' k') (hnone : searchHeap h' size = some 0)
      (hgrow : heapGrowMemory A size k' = some (virt, k'')) (hvirt : virt ≠ 0) :
      Growths size h k (l ++ [virt]) (heapGrow h' size virt) k''

end Functions

/-! ## What the heap and the managers keep together -/

/-- The range as the heap records it. -/
def VmmLive.extent (x : VmmLive) : ℕ × ℕ := (x.range.start, x.range.count * pageSize)

/-- The addresses of some ranges. -/
def rangeBytes (owned : List (ℕ × ℕ)) : Set ℕ := {v | ∃ o ∈ owned, o.1 ≤ v ∧ v < o.1 + o.2}

/-- What may be done with the memory of the heap. -/
def heapRights : ℕ := hwRights kernelHeapFlags

/-- The ranges of the heap are live ranges of `vmm.c`. -/
structure HeapRanges (A : AddressSpace) (owned : List (ℕ × ℕ)) (k : KernelMemory)
    (live : List VmmLive) : Prop where
  inv : MemoryInv A k live
  ranges : ∃ rest, (live.map VmmLive.extent).Perm (owned ++ rest)

/-- **The ranges of the heap are backed**: their bytes are mapped, each to a byte of its own. -/
structure HeapBacked (A : AddressSpace) (owned : List (ℕ × ℕ)) (k : KernelMemory)
    (live : List VmmLive) : Prop extends HeapRanges A owned k live where
  backed : Backed A heapRights k (rangeBytes owned)

variable {A : AddressSpace} {k k' k'' : KernelMemory} {live : List VmmLive}
  {owned : List (ℕ × ℕ)} {kind : PageKind} {virt flags pages size n : ℕ} {h h' : Heap}
  {grants l : List ℕ}

lemma rangeBytes_append (owned : List (ℕ × ℕ)) (virt len : ℕ) :
    rangeBytes (owned ++ [(virt, len)]) = rangeBytes owned ∪ Set.Ico virt (virt + len) := by
  ext v
  simp only [rangeBytes, List.mem_append, List.mem_singleton, Set.mem_union, Set.mem_Ico,
    Set.mem_ofPred_eq, or_and_right, exists_or, exists_eq_left]

lemma MemoryInv.heapRanges (hinv : MemoryInv A k live) : HeapRanges A [] k live :=
  ⟨hinv, _, List.Perm.refl _⟩

lemma HeapRanges.mem_live (hb : HeapRanges A owned k live) {o : ℕ × ℕ} (ho : o ∈ owned) :
    ∃ x ∈ live, x.extent = o := by
  obtain ⟨rest, hperm⟩ := hb.ranges
  exact List.mem_map.mp (hperm.mem_iff.mpr (List.mem_append_left rest ho))

lemma HeapRanges.inLive (hb : HeapRanges A owned k live) :
    ∀ v ∈ rangeBytes owned, InLive live v := by
  rintro v ⟨o, ho, hle, hlt⟩
  obtain ⟨x, hx, rfl⟩ := hb.mem_live ho
  exact ⟨x, hx, hle, hlt⟩

/-- Two ranges have no address in common. -/
def RangesApart (o o' : ℕ × ℕ) : Prop := o.1 + o.2 ≤ o'.1 ∨ o'.1 + o'.2 ≤ o.1

lemma RangesApart.symm {o o' : ℕ × ℕ} (h : RangesApart o o') : RangesApart o' o := Or.symm h

lemma HeapRanges.apart (hb : HeapRanges A owned k live) : owned.Pairwise RangesApart := by
  obtain ⟨rest, hperm⟩ := hb.ranges
  have hsorted : (vmmRanges k.vmm.root).Pairwise fun r t =>
      RangesApart (r.start, r.count * pageSize) (t.start, t.count * pageSize) :=
    hb.inv.vmm.apart.sorted.imp Or.inl
  have hlive := (hb.inv.vmm.perm.pairwise_iff fun {_ _} => RangesApart.symm).mp hsorted
  rw [List.pairwise_map] at hlive
  have hall : (owned ++ rest).Pairwise RangesApart :=
    (hperm.pairwise_iff fun {_ _} => RangesApart.symm).mp (List.pairwise_map.mpr hlive)
  exact (List.pairwise_append.mp hall).1

/-- An address of one range is in none of the others. -/
lemma HeapRanges.notMem_erase {o : ℕ × ℕ} {v : ℕ} (hb : HeapRanges A owned k live) (ho : o ∈ owned)
    (hle : o.1 ≤ v) (hlt : v < o.1 + o.2) : v ∉ rangeBytes (owned.erase o) := by
  rintro ⟨o', ho', hle', hlt'⟩
  have hapart := ((List.perm_cons_erase ho).pairwise_iff fun {_ _} => RangesApart.symm).mp hb.apart
  rcases (List.pairwise_cons.mp hapart).1 o' ho' with hleft | hright
  · omega
  · omega

/-- The rest of the kernel leaves the heap alone. -/
lemma HeapBacked.other (hb : HeapBacked A owned k live)
    (hstep : OtherStep A (rangeBytes owned) k k') : ∃ live', HeapBacked A owned k' live' := by
  obtain ⟨live', hinv, hsub, hback⟩ := hstep.keeps hb.inv hb.inLive hb.backed
  obtain ⟨rest, hperm⟩ := hb.ranges
  obtain ⟨more, hmore⟩ := hsub.exists_perm_append
  refine ⟨live', ⟨hinv, rest ++ more.map VmmLive.extent, ?_⟩, hback⟩
  rw [← List.append_assoc]
  exact (hmore.map VmmLive.extent).trans (by simpa using hperm.append_right _)

/-- The flags of the heap, with one of its two types. -/
lemma attributeFlags_heap (h : flags = pteTypeHeapBlock ∨ flags = pteTypeHeapPool) :
    AttributeFlags (kernelHeapFlags ||| flags) ∧ hwRights (kernelHeapFlags ||| flags) = heapRights ∧
      (kernelHeapFlags ||| flags) &&& ptePresent ≠ 0 := by
  have hbits : flags = 2 ^ 9 ∨ flags = 2 ^ 10 := h.imp (·.trans (by decide)) (·.trans (by decide))
  refine ⟨fun i hi => ?_, ?_, ?_⟩
  · simp only [kernelHeapFlags, ptePresent, pteWritable, pteNx, Nat.testBit_or,
      Nat.testBit_two_pow, Bool.or_eq_true, decide_eq_true_eq] at hi
    rcases hbits with rfl | rfl <;> rw [Nat.testBit_two_pow, decide_eq_true_eq] at hi <;> omega
  · rcases hbits with rfl | rfl <;> decide
  · rcases hbits with rfl | rfl <;> decide

/-! ## Growing -/

/-- **The answer to a request for a range**: zero, or a fresh range that the heap has from now on.
Its bytes are backed if there is a page left. -/
def HeapGrant (A : AddressSpace) (owned : List (ℕ × ℕ)) (pages virt : ℕ) (k k' : KernelMemory) :
    Prop :=
  OnlyTakes k.pma k'.pma ∧ ∃ live', virt = 0 ∧ HeapRanges A owned k' live' ∧
      (Backed A heapRights k (rangeBytes owned) → Backed A heapRights k' (rangeBytes owned)) ∨
    virt ≠ 0 ∧ FreshRange owned virt pages ∧
      HeapRanges A (owned ++ [(virt, pages * pageSize)]) k' live' ∧
      (Backed A heapRights k (rangeBytes owned) → (A.freePages k'.pma).Nonempty →
        Backed A heapRights k' (rangeBytes (owned ++ [(virt, pages * pageSize)])))

lemma HeapRanges.mapRange (hb : HeapRanges A owned k live) (kind : PageKind) {c : PmaAlloc}
    (hc : c.Valid)
    (hsize : kind.size ∣ c.align * pageSize) (hcount : n * kind.size = c.count * pageSize)
    (halign : kind.size ∣ pageSize2mb) (hpage : pageSize ∣ kind.size)
    (hflags : flags = pteTypeHeapBlock ∨ flags = pteTypeHeapPool)
    (heq : mapRange A kind c n (kernelHeapFlags ||| flags) k = some (virt, k')) :
    HeapGrant A owned c.count virt k k' := by
  obtain ⟨hattr, hrights, hpresent⟩ := attributeFlags_heap hflags
  obtain ⟨htakes, hcases⟩ := hb.inv.mapRange kind hc hsize hcount halign hattr hpresent heq
  rw [hrights] at hcases
  refine ⟨htakes, ?_⟩
  rcases hcases with ⟨rfl, -, hinv, hmem⟩ | ⟨hpos, -, hinv, hback⟩
  · refine ⟨live, .inl ⟨rfl, ⟨hinv, hb.ranges⟩, fun hback => hback.kept (fun v _ => ?_) htakes
      fun x hx => ?_⟩⟩
    · rw [hmem]
    · exact .inl (hmem ▸ hx)
  obtain ⟨hlow, hend⟩ := hinv.vmm.bounds List.mem_cons_self
  refine ⟨_, .inr ⟨hpos.ne', ⟨hpos, hpage.trans (hinv.vmm.aligned _ List.mem_cons_self),
    hend.trans_lt hinv.vmm.end_lt, fun o ho => ?_⟩, ⟨hinv, ?_⟩, fun hold hleft => ?_⟩⟩
  · obtain ⟨x, hx, rfl⟩ := hb.mem_live ho
    exact hinv.vmm.apart_of_cons x hx
  · obtain ⟨rest, hperm⟩ := hb.ranges
    refine ⟨rest, ?_⟩
    rw [List.map_cons, List.append_assoc, List.singleton_append]
    exact (hperm.cons _).trans List.perm_middle.symm
  · rw [rangeBytes_append]
    exact (hback _ hb.inLive hold).2 hleft

lemma growPages_mul_lt (size : ℕ) : growPages size * pageSize < word := by
  have hdiv : ∀ x, x < word → x / pageSize * pageSize < word := fun x hx =>
    (Nat.div_mul_le_self x pageSize).trans_lt hx
  simp only [growPages]
  split_ifs
  · decide
  · exact hdiv _ (Nat.mod_lt _ (by decide))

/-- **`heap_grow`.** -/
lemma HeapRanges.grow (hb : HeapRanges A owned k live)
    (heq : heapGrowMemory A size k = some (virt, k')) :
    HeapGrant A owned (growPages size) virt k k' := by
  have hpos : 0 < growPages size := (by decide : 0 < pagesPerGrowth).trans_le (le_growPages size)
  have hlt := growPages_mul_lt size
  simp only [heapGrowMemory] at heq
  split_ifs at heq with hhuge
  · have hcount : growPages size / pages2mb * 512 = growPages size := Nat.div_mul_cancel
      (Nat.dvd_of_mod_eq_zero hhuge.2)
    have hgrant := hb.mapRange (c := .pages2mb (growPages size / pages2mb)) .page2mb
      ⟨by rwa [PmaAlloc.count, hcount], by rwa [PmaAlloc.count, hcount]⟩
      (show pageSize2mb ∣ 512 * pageSize by decide) (Nat.mul_assoc _ 512 pageSize).symm
      (by decide) (by decide) (.inl rfl) heq
    rwa [PmaAlloc.count, hcount] at hgrant
  · exact hb.mapRange (c := .pages (growPages size)) .page4kb ⟨hpos, hlt⟩
      (show pageSize ∣ 1 * pageSize by decide) rfl (by decide) (by decide) (.inl rfl) heq

/-- Four pages, with the answers there can be: no frames; a range, which takes one of the nodes that
`vmm.c` has for ranges; and a panic of `vmm.c`. -/
lemma HeapRanges.grow_four (hb : HeapRanges A owned k live)
    (hpages : growPages size = pagesPerGrowth) :
    (∀ k', heapGrowMemory A size k = some (0, k') →
      pmaAllocPages pagesPerGrowth k.pma = some (0, k'.pma)) ∧
    (∀ virt k', virt ≠ 0 → heapGrowMemory A size k = some (virt, k') →
      k'.vmm.earlyPoolCount = k.vmm.earlyPoolCount + 1 ∧ k.vmm.earlyPoolCount < vmmEarlyPool) ∧
    (heapGrowMemory A size k = none → vmmAllocPages false pagesPerGrowth k.vmm = none) := by
  have heq : heapGrowMemory A size k = Cuore.mapRange A .page4kb (.pages pagesPerGrowth)
      pagesPerGrowth (kernelHeapFlags ||| pteTypeHeapBlock) k := by
    rw [heapGrowMemory, hpages]
    exact if_neg (by decide)
  have hvalid : (PmaAlloc.pages pagesPerGrowth).Valid := by decide
  have hsize : pageSize ∣ (PmaAlloc.pages pagesPerGrowth).align * pageSize := by decide
  obtain ⟨hattr, -, hpresent⟩ := attributeFlags_heap (.inl rfl)
  rw [heq]
  refine ⟨fun k' hrun => ?_, fun virt k' hvirt hrun => ?_, fun hnone => ?_⟩
  · have hcases := (hb.inv.mapRange .page4kb hvalid hsize rfl (by decide) hattr hpresent hrun).2
    exact (hcases.resolve_right fun hpos => absurd hpos.1 (lt_irrefl 0)).2.1
  · have hcases := (hb.inv.mapRange .page4kb hvalid hsize rfl (by decide) hattr hpresent hrun).2
    obtain ⟨-, halloc, -⟩ := hcases.resolve_left fun hzero => hvirt hzero.1
    exact vmmAllocAligned_early (by decide) halloc
  · have halloc := hb.inv.mapRange_none .page4kb hvalid hsize rfl (by decide) hattr hpresent hnone
    exact halloc

/-- A pool page. -/
lemma HeapRanges.poolPage (hb : HeapRanges A owned k live)
    (heq : poolPageMemory A k = some (virt, k')) : HeapGrant A owned 1 virt k k' :=
  hb.mapRange (c := .pages 1) .page4kb (by decide) (by decide) rfl (by decide) (by decide)
    (.inr rfl) heq

/-- A range that has been got. -/
lemma HeapGrant.of_ne_zero (hg : HeapGrant A owned pages virt k k') (hvirt : virt ≠ 0) :
    ∃ live', FreshRange owned virt pages ∧
      HeapRanges A (owned ++ [(virt, pages * pageSize)]) k' live' ∧
      (Backed A heapRights k (rangeBytes owned) → (A.freePages k'.pma).Nonempty →
        Backed A heapRights k' (rangeBytes (owned ++ [(virt, pages * pageSize)]))) := by
  obtain ⟨-, live', hcases⟩ := hg
  exact ⟨live', (hcases.resolve_left fun hzero => hvirt hzero.1).2⟩

/-- The ranges that the answers stand for. -/
def grantedRanges (pages : ℕ) (grants : List ℕ) : List (ℕ × ℕ) :=
  (grants.filter (· ≠ 0)).map fun virt => (virt, pages * pageSize)

/-- **The answers are fresh ranges**, which the heap has from now on.  They are backed if there is a
page left at the end. -/
lemma HeapRanges.answers (ha : Answers A size h k grants k') (hb : HeapRanges A h.owned k live) :
    OnlyTakes k.pma k'.pma ∧ FreshGrants (growPages size) h.owned grants ∧
      ∃ live', HeapRanges A (h.owned ++ grantedRanges (growPages size) grants) k' live' ∧
        (Backed A heapRights k (rangeBytes h.owned) →
          (grantedRanges (growPages size) grants ≠ [] → (A.freePages k'.pma).Nonempty) →
          Backed A heapRights k'
            (rangeBytes (h.owned ++ grantedRanges (growPages size) grants))) := by
  induction ha generalizing live with
  | found =>
    refine ⟨.refl _, trivial, live, ?_⟩
    simpa [grantedRanges] using hb
  | failed _ hgrow =>
    obtain ⟨htakes, live', ⟨-, hb', hback⟩ | ⟨hne, -⟩⟩ := hb.grow hgrow
    · refine ⟨htakes, .inl rfl, live', ?_⟩
      simpa [grantedRanges] using ⟨hb', hback⟩
    · exact absurd rfl hne
  | @grown h k k' k'' virt grants _ hgrow hvirt hrest ih =>
    have hgrant := hb.grow hgrow
    obtain ⟨live', hfresh, hmid, hback⟩ := hgrant.of_ne_zero hvirt
    have howned : (heapGrow h size virt).owned = h.owned ++ [(virt, growPages size * pageSize)] :=
      rfl
    rw [← howned] at hmid hback
    obtain ⟨htakes, hgrants, live'', hb', hback'⟩ := ih hmid
    refine ⟨hgrant.1.trans htakes, .inr ⟨hfresh, hgrants⟩, live'', ?_⟩
    rw [howned, List.append_assoc] at hb' hback'
    have hranges : h.owned ++ grantedRanges (growPages size) (virt :: grants) = h.owned ++
        ([(virt, growPages size * pageSize)] ++ grantedRanges (growPages size) grants) := by
      simp [grantedRanges, hvirt]
    rw [hranges]
    refine ⟨hb', fun hold hleft => ?_⟩
    have hnonempty := hleft (by simp [grantedRanges, hvirt])
    have hmidleft := hnonempty.mono (AddressSpace.freePages_subset htakes)
    exact hback' (howned ▸ hback hold hmidleft) fun _ => hnonempty

/-- What `malloc` returns with these answers. -/
lemma Answers.owned_eq {p : ℕ} (ha : Answers A size h k grants k')
    (heq : mallocBlock size grants h = some (p, h')) :
    h'.owned = h.owned ++ grantedRanges (growPages size) grants := by
  induction ha with
  | @found h k curr hfound hcurr =>
    rw [mallocBlock_found (b := ⟨curr, 0, false, .free⟩) (Nat.pos_of_ne_zero hcurr) hfound] at heq
    have howned := (blocksOnly_takeBlock h size curr).owned
    rw [Option.some.inj heq] at howned
    simpa [grantedRanges] using howned
  | failed hnone _ =>
    rw [mallocBlock_grow hnone] at heq
    obtain ⟨-, rfl⟩ := Prod.mk.inj (Option.some.inj heq)
    simp [grantedRanges]
  | @grown h k k' k'' virt grants hnone _ hvirt _ ih =>
    rw [mallocBlock_grow hnone] at heq
    dsimp only at heq
    rw [if_neg hvirt] at heq
    rw [ih heq]
    simp [grantedRanges, hvirt, heapGrow, listAppend]

/-! ## How often the heap grows -/

/-- The new block is large enough, unless the size wraps. -/
lemma growPages_fits (hsize : size + bhSize + pageSize ≤ word) :
    size ≤ growPages size * pageSize - bhSize := by
  have hsum : wsub (wadd (wadd size bhSize) pageSize) 1 = size + bhSize + (pageSize - 1) := by
    simp only [wsub, wadd, word, bhSize, pageSize] at hsize ⊢
    omega
  have hceil : size + bhSize ≤ (size + bhSize + (pageSize - 1)) / pageSize * pageSize := by
    simp only [pageSize]
    omega
  have hle : (size + bhSize + (pageSize - 1)) / pageSize ≤ growPages size := by
    simp only [growPages, hsum]
    split_ifs <;> omega
  exact Nat.le_sub_of_add_le (hceil.trans (Nat.mul_le_mul_right _ hle))

/-- The size wraps to a small one. -/
lemma growPages_wraps (hword : size < word) (hwrap : word < size + bhSize + pageSize) :
    growPages size = pagesPerGrowth := by
  have hsmall : wsub (wadd (wadd size bhSize) pageSize) 1 / pageSize < pagesPerGrowth := by
    simp only [wsub, wadd, word, bhSize, pageSize, pagesPerGrowth] at hword hwrap ⊢
    omega
  rw [growPages, if_pos hsmall]

/-- No block is as large as a size that wraps. -/
lemma RegionsOk.not_fits {rs : List Region} {b : Block} (hrs : RegionsOk rs)
    (hb : b ∈ heapBlocks rs) (hwrap : word < size + bhSize + pageSize) : ¬ b.Fits size := by
  rintro ⟨-, hsize⟩
  obtain ⟨r, hr, hbr⟩ := mem_heapBlocks.mp hb
  obtain ⟨hbase, hstop⟩ := (hrs.ok r hr).bounds hbr
  have hpage : pageSize ≤ r.base := Nat.le_of_dvd (hrs.ok r hr).pos (hrs.ok r hr).page
  have hsmall := (hrs.ok r hr).small
  simp only [Block.stop] at hstop
  omega

lemma searchHeap_of_fits {rs : List Region} {F : ℕ → List ℕ} {b : Block} (hi : HeapInv h rs F)
    (hb : b ∈ heapBlocks rs) (hfit : b.Fits size) : searchHeap h size ≠ some 0 := by
  intro hzero
  rcases hi.blocks.search hi.regions.spread size with ⟨c, hc, -, hfound⟩ | ⟨hnone, -⟩
  · exact (hi.regions.spread.pos hc).ne' (Option.some.inj (hfound.symm.trans hzero))
  · exact hnone b hb hfit

/-- The block of a region that has come. -/
lemma grown_mem (rs : List Region) (virt pages : ℕ) :
    ⟨virt, pages * pageSize - bhSize, true, .free⟩ ∈ heapBlocks (rs ++ [grownRegion virt pages]) :=
  mem_heapBlocks.mpr ⟨_, List.mem_append_right _ (List.mem_singleton_self _),
    List.mem_singleton_self _⟩

/-- **Behind a growth the search finds a block**, unless the size wraps. -/
lemma HeapInv.search_grow {rs : List Region} {F : ℕ → List ℕ} (hi : HeapInv h rs F)
    (hf : FreshRange h.owned virt (growPages size)) (hsize : size + bhSize + pageSize ≤ word) :
    searchHeap (heapGrow h size virt) size ≠ some 0 :=
  searchHeap_of_fits (hi.grow hf).1 (grown_mem rs virt (growPages size))
    ⟨rfl, growPages_fits hsize⟩

/-- The heap has the ranges that it has grown by. -/
lemma Growths.owned_eq (hg : Growths A size h k l h' k') :
    h'.owned = h.owned ++ l.map fun virt => (virt, growPages size * pageSize) := by
  induction hg with
  | refl => exact (List.append_nil _).symm
  | @grown l h' k' k'' virt _ _ _ _ ih =>
    rw [List.map_append, ← List.append_assoc, ← ih]
    rfl

/-- `malloc` goes on from where the growths have led. -/
lemma Growths.mallocBlock_eq (hg : Growths A size h k l h' k') (rest : List ℕ) :
    mallocBlock size (l ++ rest) h = mallocBlock size rest h' := by
  induction hg generalizing rest with
  | refl => rfl
  | @grown l h' k' k'' virt _ hnone _ hvirt ih =>
    rw [List.append_assoc, ih, mallocBlock_grow hnone]
    exact if_neg hvirt

/-- **Growths keep the invariants.** -/
lemma Growths.keeps {rs : List Region} {F : ℕ → List ℕ} (hg : Growths A size h k l h' k')
    (hi : HeapInv h rs F) (hb : HeapRanges A h.owned k live) :
    (∃ rs' F', HeapInv h' rs' F') ∧ ∃ live', HeapRanges A h'.owned k' live' := by
  induction hg with
  | refl => exact ⟨⟨rs, F, hi⟩, live, hb⟩
  | grown _ _ hgrow hvirt ih =>
    obtain ⟨⟨rs', F', hi'⟩, live', hb'⟩ := ih
    obtain ⟨live'', hfresh, hb'', -⟩ := (hb'.grow hgrow).of_ne_zero hvirt
    obtain ⟨hi'', -⟩ := hi'.grow hfresh
    exact ⟨⟨_, _, hi''⟩, live'', hb''⟩

/-- Behind a growth the search finds the block that has come, unless the size wraps. -/
lemma Growths.search_ne {rs : List Region} {F : ℕ → List ℕ} (hg : Growths A size h k l h' k')
    (hi : HeapInv h rs F) (hb : HeapRanges A h.owned k live)
    (hsize : size + bhSize + pageSize ≤ word) (hl : l ≠ []) : searchHeap h' size ≠ some 0 := by
  cases hg with
  | refl => exact absurd rfl hl
  | @grown _ h' _ _ virt hg _ hgrow hvirt =>
    obtain ⟨⟨rs', F', hi'⟩, live', hb'⟩ := hg.keeps hi hb
    obtain ⟨live'', hfresh, -⟩ := (hb'.grow hgrow).of_ne_zero hvirt
    exact hi'.search_grow hfresh hsize

/-- **One growth is enough**, unless the size wraps. -/
lemma Growths.length_le_one {rs : List Region} {F : ℕ → List ℕ} (hg : Growths A size h k l h' k')
    (hi : HeapInv h rs F) (hb : HeapRanges A h.owned k live)
    (hsize : size + bhSize + pageSize ≤ word) : l.length ≤ 1 := by
  cases hg with
  | refl => exact Nat.zero_le 1
  | @grown l _ _ _ _ hg hnone =>
    have hnil : l = [] := not_not.mp fun hl => hg.search_ne hi hb hsize hl hnone
    rw [hnil]
    exact le_rfl

/-- **If the size wraps, the search finds nothing**, however often the heap has grown. -/
lemma Growths.search_wraps {rs : List Region} {F : ℕ → List ℕ} (hg : Growths A size h k l h' k')
    (hi : HeapInv h rs F) (hb : HeapRanges A h.owned k live)
    (hwrap : word < size + bhSize + pageSize) : searchHeap h' size = some 0 := by
  obtain ⟨⟨rs', F', hi'⟩, -⟩ := hg.keeps hi hb
  rcases hi'.blocks.search hi'.regions.spread size with ⟨b, hb, hfit, -⟩ | ⟨-, hzero⟩
  · exact absurd hfit (hi'.regions.not_fits hb hwrap)
  · exact hzero

/-- Each growth takes one of the nodes that `vmm.c` has. -/
lemma Growths.early_le {rs : List Region} {F : ℕ → List ℕ} (hg : Growths A size h k l h' k')
    (hi : HeapInv h rs F) (hb : HeapRanges A h.owned k live)
    (hpages : growPages size = pagesPerGrowth) :
    k'.vmm.earlyPoolCount = k.vmm.earlyPoolCount + l.length ∧
      (l ≠ [] → k'.vmm.earlyPoolCount ≤ vmmEarlyPool) := by
  induction hg with
  | refl => exact ⟨rfl, fun hl => absurd rfl hl⟩
  | grown hg _ hgrow hvirt ih =>
    obtain ⟨-, live', hb'⟩ := hg.keeps hi hb
    obtain ⟨hnext, hlt⟩ := (hb'.grow_four hpages).2.1 _ _ hvirt hgrow
    rw [hnext, ih.1, List.length_append, List.length_singleton]
    exact ⟨Nat.add_assoc _ _ _, fun _ => ih.1 ▸ hlt⟩

/-! ## Setting up -/

/-- `heap_init` asks for addresses before frames, with the same result. -/
lemma heapInitMemory_eq (heq : heapInitMemory A size k = some (virt, k')) :
    virt ≠ 0 ∧ 0 < initPages size ∧ mapRange A .page4kb (.pages (initPages size)) (initPages size)
      (kernelHeapFlags ||| pteTypeHeapBlock) k = some (virt, k') := by
  obtain ⟨⟨virt', vmm⟩, hrange, heq⟩ := Option.bind_eq_some_iff.mp heq
  dsimp only at heq
  split_ifs at heq with hvirt
  obtain ⟨⟨phys, pma⟩, hframes, heq⟩ := Option.bind_eq_some_iff.mp heq
  dsimp only at heq
  split_ifs at heq with hphys
  obtain ⟨k₁, hmap, heq⟩ := Option.bind_eq_some_iff.mp heq
  obtain ⟨rfl, rfl⟩ := Prod.mk.inj (Option.some.inj heq)
  have hpages : 0 < initPages size := by
    refine Nat.pos_of_ne_zero fun hzero => hvirt ?_
    rw [hzero, vmmAllocPages, vmmAllocAligned, if_pos rfl] at hrange
    exact (Prod.mk.inj (Option.some.inj hrange)).1.symm
  have hrun : (PmaAlloc.pages (initPages size)).run k.pma = some (phys, pma) := hframes
  have halloc : vmmAllocAligned false (PmaAlloc.pages (initPages size)).count PageKind.page4kb.size
      k.vmm = some (virt', vmm) := hrange
  refine ⟨hvirt, hpages, ?_⟩
  simp only [mapRange, hrun, halloc, hmap, if_neg hphys, if_neg hvirt, Option.bind_eq_bind,
    Option.bind_some]

lemma initPages_mul_lt (size : ℕ) : initPages size * pageSize < word :=
  (Nat.div_mul_le_self _ pageSize).trans_lt (Nat.mod_lt _ (by decide))

/-- The rounds of `heap_init_pools` add the ranges of their pages. -/
lemma heapInit_owned {mem : Memory} {pool0 pool1 pool2 : ℕ}
    (heq : heapInit mem size virt pool0 pool1 pool2 = some h) :
    (pool0 ≠ 0 ∧ pool1 ≠ 0 ∧ pool2 ≠ 0) ∧ h.owned = [(virt, initPages size * pageSize)] ++
      [(pool0, 1 * pageSize)] ++ [(pool1, 1 * pageSize)] ++ [(pool2, 1 * pageSize)] := by
  have hround : ∀ {h h' : Heap} {bin pool : ℕ}, heapInitPool h bin pool = some h' →
      pool ≠ 0 ∧ h'.owned = h.owned ++ [(pool, 1 * pageSize)] := by
    intro h h' bin pool hp
    have hne : pool ≠ 0 := by
      rintro rfl
      rw [heapInitPool, if_pos (.inl rfl)] at hp
      exact absurd hp (by simp)
    obtain ⟨r, -, rfl⟩ := heapInitPool_some hp
    exact ⟨hne, (blocksOnly_listAppend _ pool).owned⟩
  obtain ⟨h₀, h₁, hp₀, hp₁, hp₂⟩ := heapInit_some heq
  obtain ⟨hne₀, ho₀⟩ := hround hp₀
  obtain ⟨hne₁, ho₁⟩ := hround hp₁
  obtain ⟨hne₂, ho₂⟩ := hround hp₂
  exact ⟨⟨hne₀, hne₁, hne₂⟩, by rw [ho₂, ho₁, ho₀]; rfl⟩

/-- **`heap_init`**: its ranges are fresh, and the heap has them. -/
lemma MemoryInv.heapInit {mem : Memory} (hinv : MemoryInv A k live)
    (heq : kernelHeapInit A mem size k = some (h, k')) (hleft : (A.freePages k'.pma).Nonempty) :
    OnlyTakes k.pma k'.pma ∧ ∃ virt pool0 pool1 pool2, InitGrants size virt pool0 pool1 pool2 ∧
      heapInit mem size virt pool0 pool1 pool2 = some h ∧
      ∃ live', HeapBacked A h.owned k' live' := by
  obtain ⟨⟨virt, k₁⟩, hfirst, heq⟩ := Option.bind_eq_some_iff.mp heq
  obtain ⟨⟨pool0, k₂⟩, hpool0, heq⟩ := Option.bind_eq_some_iff.mp heq
  obtain ⟨⟨pool1, k₃⟩, hpool1, heq⟩ := Option.bind_eq_some_iff.mp heq
  obtain ⟨⟨pool2, k₄⟩, hpool2, heq⟩ := Option.bind_eq_some_iff.mp heq
  obtain ⟨h₁, hinit, heq⟩ := Option.bind_eq_some_iff.mp heq
  obtain ⟨rfl, rfl⟩ := Prod.mk.inj (Option.some.inj heq)
  dsimp only at *
  obtain ⟨⟨hne₀, hne₁, hne₂⟩, howned⟩ := heapInit_owned hinit
  obtain ⟨hvirt, hpages, hmap⟩ := heapInitMemory_eq hfirst
  have hg := hinv.heapRanges.mapRange (c := .pages (initPages size)) .page4kb
    ⟨hpages, initPages_mul_lt size⟩ (show pageSize ∣ 1 * pageSize by decide) rfl (by decide)
    (by decide) (.inl rfl) hmap
  obtain ⟨live₁, hf, hb₁, hback₁⟩ := hg.of_ne_zero hvirt
  have hg₀ := hb₁.poolPage hpool0
  obtain ⟨live₂, hf₀, hb₂, hback₂⟩ := hg₀.of_ne_zero hne₀
  have hg₁ := hb₂.poolPage hpool1
  obtain ⟨live₃, hf₁, hb₃, hback₃⟩ := hg₁.of_ne_zero hne₁
  have hg₂ := hb₃.poolPage hpool2
  obtain ⟨live₄, hf₂, hb₄, hback₄⟩ := hg₂.of_ne_zero hne₂
  -- a page that is left at the end was there all the time
  have hleft₃ := hleft.mono (AddressSpace.freePages_subset hg₂.1)
  have hleft₂ := hleft₃.mono (AddressSpace.freePages_subset hg₁.1)
  have hleft₁ := hleft₂.mono (AddressSpace.freePages_subset hg₀.1)
  have hempty : Backed A heapRights k (rangeBytes []) :=
    ⟨fun _ hv => absurd hv (by simp [rangeBytes]), fun _ hv => absurd hv (by simp [rangeBytes])⟩
  have hback := hback₄ (hback₃ (hback₂ (hback₁ hempty hleft₁) hleft₂) hleft₃) hleft
  refine ⟨((hg.1.trans hg₀.1).trans hg₁.1).trans hg₂.1, virt, pool0, pool1, pool2,
    ⟨hpages, hf, hf₀, hf₁, hf₂⟩, hinit, live₄, ?_⟩
  exact howned ▸ ⟨hb₄, hback⟩

/-! ## Giving a page back -/

lemma PmaWellFormed.totalPages_le {s : Pma} {total : ℕ} (hs : PmaWellFormed total s) :
    (s.zone .normal).totalPages ≤ 2 ^ 40 := by
  obtain ⟨free, hinv⟩ := hs
  rw [show (s.zone .normal).totalPages = _ from hinv.total_eq rfl .normal rfl]
  exact hinv.addressable .normal rfl

/-- `pma_free_pages` ignores an address above all memory. -/
lemma pmaFreePages_high {s : Pma} {phys : ℕ} (htotal : (s.zone .normal).totalPages ≤ 2 ^ 40)
    (hphys : 2 ^ 63 ≤ phys) : pmaFreePages phys 1 s = some s := by
  have hbytes : wmul (s.zone .normal).totalPages pageSize ≤ 2 ^ 52 :=
    (Nat.mod_le _ _).trans (Nat.mul_le_mul_right _ htotal)
  have hpage : wmul 1 pageSize = pageSize := by decide
  have hlimit : pmaZone32bit * pageSize < 2 ^ 63 := by decide
  rw [pmaFreePages, if_neg (by omega)]
  dsimp only
  rw [hpage, pmaWhen_neg (by omega), Option.bind_eq_bind, Option.bind_some,
    max_eq_left (by omega)]
  by_cases hstop : wadd phys pageSize > phys
  · have hsub : wadd phys pageSize - phys = pageSize := by
      have hle : wadd phys pageSize ≤ phys + pageSize := Nat.mod_le _ _
      rw [wadd] at hstop hle ⊢
      simp only [word, pageSize] at *
      omega
    rw [pmaWhen_pos hstop, hsub, Nat.div_self pageSize_pos, pmaZoneFreeRange,
      if_neg one_ne_zero, hpage, if_pos (by omega)]
  · exact pmaWhen_neg hstop

lemma vmmFreePages_pool (virt count : ℕ) (s : Vmm) :
    (vmmFreePages virt count s).2.poolBase = s.poolBase ∧
      (vmmFreePages virt count s).2.poolEnd = s.poolEnd := by
  unfold vmmFreePages
  split_ifs
  · exact ⟨rfl, rfl⟩
  · exact ⟨rfl, rfl⟩
  · dsimp only
    split
    · exact ⟨rfl, rfl⟩
    · rw [poolFreeNode]
      split_ifs <;> exact ⟨rfl, rfl⟩

/-- Bit 63 is one of the rights of the heap. -/
lemma high_of_heapRights {e : ℕ} (h : hwRights e = heapRights) : 2 ^ 63 ≤ e &&& wnot 0xFFF := by
  have hbit : (hwRights e).testBit 63 = true := by
    rw [h]
    decide
  rw [testBit_hwRights] at hbit
  refine Nat.ge_two_pow_of_testBit ?_
  rw [Nat.testBit_and, show 0xFFF = 2 ^ 12 - 1 from rfl, testBit_wnot_pred (by decide)]
  simpa using hbit

/-- **A page keeps its frame**, if it is mapped with the rights of the heap. -/
lemma releasePage_eq {page phys : ℕ} (htotal : (k.pma.zone .normal).totalPages ≤ 2 ^ 40)
    (hclear : PathClear k.mem page 0 (A.levels - 1) A.top)
    (hwalk : A.walk k.mem page = some ⟨phys, heapRights⟩) :
    releasePage A page k = some { k with vmm := (vmmFreePages page 1 k.vmm).2 } := by
  rw [releasePage, pagingGetPte, walkToLevel_lookup k.pma.pageAnswer page 0 A.top_page.2 hclear]
  cases hpath : tableOnPath k.mem page 0 (A.levels - 1) A.top with
  | none => rfl
  | some t =>
    have ht := tables_aligned A.top_page
      (mem_tables_of_tableOnPath (pageIndex_lt page _) hpath)
    have hhigh : 2 ^ 63 ≤ readEntry k.mem t (pageIndex page 0) &&& wnot 0xFFF := by
      rw [AddressSpace.walk, hwWalk_of_tableOnPath (Nat.zero_le _) (fun _ _ _ => rfl) hpath,
        hwWalk] at hwalk
      split_ifs at hwalk
      exact high_of_heapRights (congrArg Mapping.rights (Option.some.inj hwalk))
    simp only [Option.bind_eq_bind, Option.bind_some, Option.map_some, ge_iff_le,
      if_neg (not_le.mpr ht.2)]
    rw [if_pos (by omega), pmaFreePages_high htotal hhigh]
    rfl

/-- A page that is released keeps its frame, and gives back its addresses. -/
lemma MemoryInv.releasePage {x : VmmLive} {a : ℕ} (hinv : MemoryInv A k live) (hx : x ∈ live)
    (hcount : x.range.count = 1)
    (hwalk : A.walk k.mem x.range.start = some ⟨a, heapRights⟩) :
    releasePage A x.range.start k =
      some { k with vmm := (vmmFreePages x.range.start 1 k.vmm).2 } ∧
    MemoryInv A { k with vmm := (vmmFreePages x.range.start 1 k.vmm).2 } (live.erase x) := by
  constructor
  · exact releasePage_eq hinv.pma.totalPages_le
      (pathClear_of_plain (fun _ _ h => h) (pageIndex_lt _ _) hinv.entries) hwalk
  · have hvmm := hinv.vmm.freePages hx
    rw [hcount] at hvmm
    have hpool := vmmFreePages_pool x.range.start 1 k.vmm
    exact { hinv with vmm := hvmm, pool := hinv.pool.congr hpool.1 hpool.2 }

/-- The addresses of a live range are in no other. -/
lemma MemoryInv.notMem_erase {x : VmmLive} {v : ℕ} (hinv : MemoryInv A k live) (hx : x ∈ live)
    (hle : x.range.start ≤ v) (hlt : v < x.range.limit) : ¬InLive (live.erase x) v := by
  rintro ⟨y, hy, hle', hlt'⟩
  have hall : HeapRanges A (live.map VmmLive.extent) k live := ⟨hinv, [], by rw [List.append_nil]⟩
  have hmem : x.extent ∈ live.map VmmLive.extent := List.mem_map_of_mem hx
  have hperm : ((live.erase x).map VmmLive.extent).Perm ((live.map VmmLive.extent).erase x.extent) :=
    List.Perm.cons_inv (a := x.extent)
      (((List.perm_cons_erase hx).map VmmLive.extent).symm.trans (List.perm_cons_erase hmem))
  exact hall.notMem_erase hmem hle hlt
    ⟨y.extent, hperm.mem_iff.mp (List.mem_map_of_mem hy), hle', hlt'⟩

/-- **A page that leaves the heap.** -/
lemma HeapBacked.release {page : ℕ} (hb : HeapBacked A owned k live)
    (hpage : (page, pageSize) ∈ owned) : ∃ k' live', releasePage A page k = some k' ∧
      k'.pma = k.pma ∧ k'.mem = k.mem ∧ ¬InLive live' page ∧
      HeapBacked A (owned.erase (page, pageSize)) k' live' := by
  obtain ⟨x, hx, hextent⟩ := hb.mem_live hpage
  obtain ⟨hstart, hcount⟩ := Prod.mk.inj hextent
  have hone : x.range.count = 1 := Nat.eq_of_mul_eq_mul_right pageSize_pos (by simpa using hcount)
  obtain ⟨a, hwalk, -⟩ :=
    hb.backed.mapped page ⟨_, hpage, le_rfl, Nat.lt_add_of_pos_right pageSize_pos⟩
  rw [← hstart] at hwalk ⊢
  obtain ⟨hrun, hinv⟩ := hb.inv.releasePage hx hone hwalk
  have hlimit : x.range.start < x.range.limit := by
    rw [VmmRange.limit, hone]
    exact Nat.lt_add_of_pos_right (by decide)
  refine ⟨_, live.erase x, hrun, rfl, rfl, hb.inv.notMem_erase hx le_rfl hlimit, ⟨hinv, ?_⟩, ?_⟩
  · obtain ⟨rest, hperm⟩ := hb.ranges
    refine ⟨rest, List.Perm.cons_inv (a := x.extent) ?_⟩
    refine ((List.perm_cons_erase hx).map VmmLive.extent).symm.trans (hperm.trans ?_)
    rw [hextent, ← List.cons_append, hstart]
    exact (List.perm_cons_erase hpage).append_right rest
  · have hsub : rangeBytes (owned.erase (x.range.start, pageSize)) ⊆ rangeBytes owned := by
      rintro v ⟨o, ho, hv⟩
      exact ⟨o, List.mem_of_mem_erase ho, hv⟩
    exact (hb.backed.mono hsub).kept (fun _ _ => rfl) (.refl _) fun _ => .inl

end Cuore
