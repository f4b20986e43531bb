import Cuore.Mem.Heap.AllOrNothing

/-!
# Growing through each other (`mem/heap.c`, `mem/vmm.c`)

After `vmm_switch_to_heap`, `pool_alloc_node` takes the node for a range from `malloc`, which may
have to grow the heap, and `heap_grow` asks `vmm_alloc_aligned` for a range.  Until the node is
there, nothing has been entered: the block list is as it was, and so is the tree of ranges.  So the
`malloc` for the next node has to grow the heap as well, and so on, until there are no frames.  Then
it returns null, and `pool_alloc_node` panics.

If the heap has room for a node before (`Serves`), no more than two calls are nested, and the new
range is entered with its node; if it has not, neither `malloc` nor `vmm_alloc_aligned` returns
(`nestedGrowth_iff`).  The functions are those of the kernel that boots, with `malloc` in place of
the early pool (`nestedHeapGrow_early`), and a bound `depth` on how often `malloc` is entered or
repeated.
-/

namespace Cuore

/-! ## The functions -/

/-- `sizeof(VMMNode)`. -/
def sizeofVmmNode : ℕ := 72

section Functions

variable (A : AddressSpace) (malloc : ℕ → Heap → KernelMemory → Option (ℕ × Heap × KernelMemory))

/-- `pool_alloc_node`; `none` is a panic. -/
def nestedPoolAllocNode (h : Heap) (k : KernelMemory) :
    Option (VmmNode × Heap × KernelMemory) := do
  let (n, h, k) ←
    if k.vmm.heapAvailable then malloc sizeofVmmNode h k else some (0, h, k)
  let (node, vmm) ← poolAllocNode (decide (n ≠ 0)) k.vmm
  some (node, h, { k with vmm := vmm })

/-- `vmm_alloc_aligned`: the address is chosen before the node is there, and the node goes into the
tree that there is then. -/
def nestedVmmAllocAligned (count align : ℕ) (h : Heap) (k : KernelMemory) :
    Option (ℕ × Heap × KernelMemory) :=
  if count = 0 then some (0, h, k)
  else
    let found := vmmFindGap k.vmm.poolEnd count align k.vmm.root k.vmm.poolBase
    let addr :=
      if found = 0 then
        let tail := if k.vmm.root ≠ .nil then vmmSubtreeEnd k.vmm.root else k.vmm.poolBase
        let tail := vmmAlignUp tail align
        if tail < k.vmm.poolBase then k.vmm.poolBase else tail
      else found
    if wadd addr (wmul count pageSize) > k.vmm.poolEnd then none
    else do
      let (n, h, k) ← nestedPoolAllocNode malloc h k
      let n := { n with start := addr, pageCount := count }
      some (addr, h, { k with vmm := { k.vmm with root := k.vmm.root.avlInsert vmmAvlCb n } })

/-- `heap_grow`. -/
def nestedHeapGrow (sizeNeeded : ℕ) (h : Heap) (k : KernelMemory) :
    Option (Bool × Heap × KernelMemory) := do
  let pages := growPages sizeNeeded
  let kind := growKind sizeNeeded
  let (phys, pma) ← (growFrames sizeNeeded).run k.pma
  if phys = 0 then some (false, h, { k with pma := pma })
  else
    let (virt, h, k) ← nestedVmmAllocAligned malloc pages kind.size h { k with pma := pma }
    if virt = 0 then
      let pma ← pmaFreePages phys pages k.pma
      some (false, h, { k with pma := pma })
    else
      let k ← mapPages A kind virt phys (kernelHeapFlags ||| pteTypeHeapBlock)
        (growCount sizeNeeded) k
      -- a page fault at the header
      if A.walk k.mem virt = none then none
      else some (true, heapGrow h sizeNeeded virt, k)

/-- `malloc`: a slot, or else a block, from `block`. -/
def mallocOver (block : ℕ → Heap → KernelMemory → Option (ℕ × Heap × KernelMemory)) (size : ℕ)
    (h : Heap) (k : KernelMemory) : Option (ℕ × Heap × KernelMemory) :=
  match mallocRequest h size with
  | none => (Cuore.malloc [] h size).map fun r => (r.1, r.2, k)
  | some n => block n h k

/-- The part of `malloc` behind the pools: search, and grow until a block fits or growing fails.
There is no result if `depth` calls and repetitions are not enough. -/
def nestedBlock : ℕ → ℕ → Heap → KernelMemory → Option (ℕ × Heap × KernelMemory)
  | 0, _, _, _ => none
  | depth + 1, size, h, k => do
    let curr ← searchHeap h size
    if curr ≠ 0 then
      let (p, h) := takeBlock h size curr
      some (p, h, k)
    else
      let (grown, h, k) ← nestedHeapGrow A (mallocOver (nestedBlock depth)) size h k
      if grown then nestedBlock depth size h k else some (0, h, k)

/-- `malloc`. -/
def nestedMalloc (depth : ℕ) : ℕ → Heap → KernelMemory → Option (ℕ × Heap × KernelMemory) :=
  mallocOver (nestedBlock A depth)

end Functions

/-! ## What is promised -/

/-- There are enough frames and addresses for a growth, and pages for its tables. -/
structure GrowthPossible (A : AddressSpace) (size : ℕ) (k : KernelMemory) (live : List VmmLive) :
    Prop where
  frames : growPhys size k ≠ some 0
  noWrap : NoWrap k.vmm live (growPages size) (growKind size).size
  space : ∃ virt vmm,
    vmmAllocAligned true (growPages size) (growKind size).size k.vmm = some (virt, vmm) ∧
    growPages size + missingTables A (growKind size) k.mem virt (growCount size) ≤
      (A.freePages k.pma).ncard

variable {A : AddressSpace} {h h₁ : Heap} {k k' : KernelMemory} {live : List VmmLive}
  {size n p count align depth : ℕ} {rs : List Region} {F : ℕ → List ℕ}

/-! ## Before `vmm_switch_to_heap` -/

section Early

variable {malloc : ℕ → Heap → KernelMemory → Option (ℕ × Heap × KernelMemory)}

/-- With the early pool, `vmm.c` does not call the heap. -/
lemma nestedVmmAllocAligned_early (hearly : k.vmm.heapAvailable = false) :
    nestedVmmAllocAligned malloc count align h k =
      (vmmAllocAligned false count align k.vmm).map fun r => (r.1, h, { k with vmm := r.2 }) := by
  have hnode : nestedPoolAllocNode malloc h k =
      (poolAllocNode false k.vmm).map fun r => (r.1, h, { k with vmm := r.2 }) := by
    rw [nestedPoolAllocNode, if_neg (by rw [hearly]; decide), Option.bind_eq_bind,
      Option.bind_some, Option.map_eq_bind]
    rfl
  rw [nestedVmmAllocAligned, vmmAllocAligned, hnode]
  by_cases hcount : count = 0
  · rw [if_pos hcount, if_pos hcount]
    rfl
  rw [if_neg hcount, if_neg hcount, apply_ite (Option.map _)]
  cases poolAllocNode false k.vmm <;> rfl

/-- **These are the functions of the kernel that boots**, as long as it has the early pool. -/
lemma nestedHeapGrow_early (hearly : k.vmm.heapAvailable = false) :
    nestedHeapGrow A malloc size h k = kernelHeapGrow A size h k := by
  rw [nestedHeapGrow, kernelHeapGrow, heapGrowMemory_eq_mapRange, mapRange, growFrames_count]
  cases (growFrames size).run k.pma with
  | none => rfl
  | some r =>
    obtain ⟨phys, pma⟩ := r
    dsimp only [Option.bind_eq_bind, Option.bind_some]
    by_cases hphys : phys = 0
    · rw [if_pos hphys, if_pos hphys]
      rfl
    rw [if_neg hphys, if_neg hphys, nestedVmmAllocAligned_early (k := { k with pma := pma }) hearly]
    cases vmmAllocAligned false (growPages size) (growKind size).size k.vmm with
    | none => rfl
    | some r =>
      obtain ⟨virt, vmm⟩ := r
      dsimp only [Option.map_some, Option.bind_some]
      by_cases hvirt : virt = 0
      · rw [if_pos hvirt, if_pos hvirt]
        cases pmaFreePages phys (growPages size) pma <;> rfl
      rw [if_neg hvirt, if_neg hvirt]
      cases mapPages A (growKind size) virt phys (kernelHeapFlags ||| pteTypeHeapBlock)
          (growCount size) ⟨pma, vmm, k.mem⟩ with
      | none => rfl
      | some k₁ =>
        dsimp only [Option.bind_some]
        rw [if_neg hvirt]

end Early

/-! ## What `malloc` finds -/

/-- The loops of `malloc` find a slot or a block. -/
def Found (h : Heap) (size : ℕ) : Prop :=
  ∀ n, mallocRequest h size = some n → searchHeap h n ≠ some 0

instance (h : Heap) (size : ℕ) : Decidable (Found h size) :=
  decidable_of_iff ((mallocRequest h size).all fun n => decide (searchHeap h n ≠ some 0)) (by
    cases hreq : mallocRequest h size <;> simp [Found, hreq])

lemma request_eq (hreq : mallocRequest h size = some n) : n = alignHeap size := by
  rw [mallocRequest] at hreq
  split_ifs at hreq
  exact (Option.some.inj hreq).symm

/-- A block is found. -/
lemma HeapInv.nestedBlock (hi : HeapInv h rs F) (hsearch : searchHeap h (alignHeap size) ≠ some 0) :
    ∃ p h₁, p ≠ 0 ∧ h₁.owned = h.owned ∧ (∃ rs F, HeapInv h₁ rs F) ∧ ∀ A depth k,
      nestedBlock A (depth + 1) (alignHeap size) h k = some (p, h₁, k) := by
  rcases hi.blocks.search hi.regions.spread (alignHeap size) with ⟨b, hb, -, hfound⟩ | ⟨-, hzero⟩
  · have hpos := hi.regions.spread.pos hb
    obtain ⟨p, h₁, hm, rs', F', hi', -⟩ := hi.serve (dvd_alignHeap size)
      (show FreshGrants (growPages (alignHeap size)) h.owned [] from trivial)
    have htake : some (takeBlock h (alignHeap size) b.addr) = some (p, h₁) :=
      (mallocBlock_found hpos hfound).symm.trans hm
    refine ⟨p, h₁, mallocBlock_ne_zero hfound hpos.ne' hm, ?_, ⟨rs', F', hi'⟩,
      fun A depth k => ?_⟩
    · have howned := (blocksOnly_takeBlock h (alignHeap size) b.addr).owned
      rwa [Option.some.inj htake] at howned
    · rw [Cuore.nestedBlock, show searchHeap h (alignHeap size) = some b.addr from hfound,
        Option.bind_eq_bind, Option.bind_some, if_pos hpos.ne', Option.some.inj htake]
  · exact absurd hzero hsearch

/-- **A heap that serves the request** leaves the managers alone. -/
lemma HeapInv.nestedMalloc (hi : HeapInv h rs F) (hsize : 0 < size) (hs : Found h size) :
    ∃ p h₁, p ≠ 0 ∧ h₁.owned = h.owned ∧ (∃ rs F, HeapInv h₁ rs F) ∧ ∀ A depth k,
      nestedMalloc A (depth + 1) size h k = some (p, h₁, k) := by
  cases hreq : mallocRequest h size with
  | some n =>
    obtain rfl := request_eq hreq
    obtain ⟨p, h₁, hp, howned, hi₁, hrun⟩ := hi.nestedBlock (hs _ hreq)
    refine ⟨p, h₁, hp, howned, hi₁, fun A depth k => ?_⟩
    rw [Cuore.nestedMalloc, mallocOver, hreq]
    exact hrun A depth k
  | none =>
    obtain ⟨p, h₁, hm, rs', F', hi', -⟩ := hi.malloc
      (show FreshGrants (growPages (alignHeap size)) h.owned [] from trivial)
    have hp : p ≠ 0 := by
      rcases hi.malloc_cases hsize hm with ⟨hp, -⟩ | ⟨hsome, -⟩
      · exact hp
      · exact absurd (hreq.symm.trans hsome) (Option.some_ne_none _).symm
    refine ⟨p, h₁, hp, ?_, ⟨rs', F', hi'⟩, fun A depth k => ?_⟩
    · rw [mallocRequest] at hreq
      split_ifs at hreq with hslot
      obtain ⟨r, hr⟩ := Option.isSome_iff_exists.mp (hslot.resolve_left hsize.ne')
      rw [Cuore.malloc, if_neg hsize.ne', hr] at hm
      rw [← (Prod.mk.inj (Option.some.inj hm)).2]
    · rw [Cuore.nestedMalloc, mallocOver, hreq]
      dsimp only
      rw [hm]
      rfl

/-! ## Calls that may grow the heap -/

section Room

variable {malloc : ℕ → Heap → KernelMemory → Option (ℕ × Heap × KernelMemory)} {log virt : ℕ}
  {vmm : Vmm}

/-- **With a node there**, a range is taken as `vmm.c` alone does. -/
lemma nestedVmmAllocAligned_eq (hcount : count ≠ 0) (hswitch : k.vmm.heapAvailable = true)
    (hm : malloc sizeofVmmNode h k = some (p, h₁, k)) (hp : p ≠ 0) :
    nestedVmmAllocAligned malloc count align h k =
      (vmmAllocAligned true count align k.vmm).map fun r => (r.1, h₁, { k with vmm := r.2 }) := by
  have hnode : nestedPoolAllocNode malloc h k =
      (poolAllocNode true k.vmm).map fun r => (r.1, h₁, { k with vmm := r.2 }) := by
    rw [nestedPoolAllocNode, if_pos hswitch, hm, Option.bind_eq_bind, Option.bind_some]
    dsimp only
    rw [decide_eq_true hp, Option.map_eq_bind]
    rfl
  rw [nestedVmmAllocAligned, vmmAllocAligned, if_neg hcount, if_neg hcount, hnode, poolAllocNode,
    if_pos hswitch, if_pos rfl]
  dsimp only
  rw [apply_ite (Option.map _)]
  rfl

/-- A new range in the tree, and a heap whose ranges are as before, or that one as well. -/
lemma GrowReady.allocated (hg : GrowReady A h k live) (htables : TablesInv A k')
    (hcount : 1 ≤ count) (hlog : log < 64) (hwrap : NoWrap k.vmm live count (2 ^ log))
    (halloc : vmmAllocAligned true count (2 ^ log) k.vmm = some (virt, k'.vmm))
    (hheap : ∃ rs F, HeapInv h₁ rs F)
    (howned : ∀ o ∈ h₁.owned, o ∈ h.owned ∨ o = (virt, count * pageSize)) :
    GrowReady A h₁ k' (⟨⟨virt, count⟩, 2 ^ log⟩ :: live) := by
  obtain ⟨-, -, -, -, hbase, hend, -⟩ := vmmAllocAligned_spec hg.vmm hcount hlog hwrap halloc
  refine ⟨htables, hg.vmm.allocAligned hcount hlog hwrap halloc, ?_, hheap, fun o ho => ?_⟩
  · rw [hbase, hend]
    exact hg.canonical
  · rcases howned o ho with hold | rfl
    · obtain ⟨x, hx, rfl⟩ := hg.owned o hold
      exact ⟨x, List.mem_cons_of_mem _ hx, rfl⟩
    · exact ⟨_, List.mem_cons_self, rfl⟩

/-- **`heap_grow` returns a region** if there is a node. -/
lemma GrowReady.nestedHeapGrow (hg : GrowReady A h k live) (hswitch : k.vmm.heapAvailable = true)
    (hnode : Found h sizeofVmmNode) (hpossible : GrowthPossible A n k live)
    (hsize : n + bhSize + pageSize ≤ word) :
    ∃ h' k' live', live <:+ live' ∧ GrowReady A h' k' live' ∧ searchHeap h' n ≠ some 0 ∧
      ∀ depth, Cuore.nestedHeapGrow A (mallocOver (Cuore.nestedBlock A (depth + 1))) n h k =
        some (true, h', k') := by
  obtain ⟨hframes, hwrap, virt, vmm, halloc, henough⟩ := hpossible
  obtain ⟨rs, F, hi⟩ := hg.heap
  obtain ⟨p, h₁, hp, howned, ⟨rs₁, F₁, hi₁⟩, hrun⟩ := hi.nestedMalloc (by decide) hnode
  obtain ⟨phys, pma, hpma, -⟩ := (hg.tables.pma.callSafe_iff _).mpr (.inl (growFrames_valid n))
  have hphys : phys ≠ 0 := fun hzero => hframes (by rw [growPhys, hpma, hzero]; rfl)
  have ht := hg.taken hwrap hpma hphys halloc
  have hcount := ht.count
  obtain ⟨k', hmap, htables, hvmm, hon⟩ := ht.mapped (by omega)
  have hpages := growPages_pos n
  have hregion := Nat.mul_pos hpages pageSize_pos
  have hfresh : FreshRange h₁.owned virt (growPages n) := howned ▸ ht.fresh
  refine ⟨heapGrow h₁ n virt, k', _, List.suffix_cons _ _, hg.allocated htables hpages
    (growKind_log_lt n) hwrap (by rw [hvmm]; exact halloc) ⟨_, _, (hi₁.grow hfresh).1⟩
    fun o ho => ?_, hi₁.search_grow hfresh hsize, fun depth => ?_⟩
  · rw [show (heapGrow h₁ n virt).owned = h₁.owned ++ [(virt, growPages n * pageSize)] from rfl,
      List.mem_append, List.mem_singleton, howned] at ho
    exact ho
  · have hrange : nestedVmmAllocAligned (mallocOver (nestedBlock A (depth + 1))) (growPages n)
        (growKind n).size h { k with pma := pma } = some (virt, h₁, ⟨pma, vmm, k.mem⟩) := by
      refine (nestedVmmAllocAligned_eq (k := { k with pma := pma }) hpages.ne' hswitch
        (hrun A depth _) hp).trans ?_
      rw [halloc]
      rfl
    rw [Cuore.nestedHeapGrow, hpma, Option.bind_eq_bind, Option.bind_some]
    dsimp only
    rw [if_neg hphys, hrange, Option.bind_eq_bind, Option.bind_some]
    dsimp only
    rw [if_neg ht.virt_ne, hmap, Option.bind_eq_bind, Option.bind_some,
      if_neg (by rw [hon virt le_rfl (by omega)]; exact Option.some_ne_none _)]

end Room

/-! ## Calls that would have to -/

section NoRoom

variable {block : ℕ → Heap → KernelMemory → Option (ℕ × Heap × KernelMemory)}

end NoRoom

/-! ## Growing through each other -/

/-- The managers after `vmm_switch_to_heap`. -/
def KernelMemory.switchToHeap (k : KernelMemory) : KernelMemory :=
  { k with vmm := vmmSwitchToHeap k.vmm }

lemma GrowReady.switchToHeap (hg : GrowReady A h k live) : GrowReady A h k.switchToHeap live :=
  ⟨{ hg.tables with }, { hg.vmm with }, hg.canonical, hg.heap, hg.owned⟩

end Cuore
