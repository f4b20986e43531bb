import Cuore.Mem.Backing.Tables
import Cuore.Mem.Heap.Kernel

/-!
# Pool pages that are empty (`mem/heap.c`)

With the last slot of a pool page, `_free` gives the page back: its addresses to `vmm.c`, and to
`pma.c` the frame, which it reads off the page's entry by clearing the lower 12 bits.  That leaves
bit 63, and `heap_init_pools` has mapped the page with `KERNEL_HEAP_FLAGS`, of which `PTE_NX` is
one.  So `pma_free_pages` is called for an address above all memory, and ignores it.

`PageReturned` is what should be so afterwards, and it never is (`emptiedPage_not_returned`).
-/

namespace Cuore

variable {A : AddressSpace} {h h' : Heap} {held : List ℕ} {k k' : KernelMemory} {op : HeapOp}
  {q page phys : ℕ}

/-- **A pool page has been given back**: its addresses are in no range of `vmm.c`, its frame is
free, and there is one more free page than before. -/
structure PageReturned (A : AddressSpace) (page phys : ℕ) (k k' : KernelMemory) : Prop where
  addresses : ∀ r ∈ vmmRanges k'.vmm.root, ¬(r.start ≤ page ∧ page < r.limit)
  frame : phys / pageSize ∈ A.freePages k'.pma
  count : (A.freePages k'.pma).ncard = (A.freePages k.pma).ncard + 1

lemma not_pageReturned (hsub : A.freePages k'.pma ⊆ A.freePages k.pma) :
    ¬PageReturned A page phys k k' := by
  intro hret
  have hle := Set.ncard_le_ncard hsub (A.finite_freePages k.pma)
  rw [hret.count] at hle
  exact absurd hle (Nat.not_succ_le_self _)

/-- A call that empties a pool page, and needs no block, changes nothing in `pma.c`. -/
lemma KernelHeapCall.pma_eq (hcall : KernelHeapCall A op h held k q h' k')
    (hrequest : op.request h = none) (hdrop : droppedPage h h' = some page)
    (htotal : (k.pma.zone .normal).totalPages ≤ 2 ^ 40)
    (hclear : PathClear k.mem page 0 (A.levels - 1) A.top)
    (hwalk : A.walk k.mem page = some ⟨phys, heapRights⟩) : k'.pma = k.pma := by
  obtain ⟨-, -, k₁, ha, -, hrel⟩ := hcall
  rw [hrequest] at ha
  obtain ⟨-, rfl⟩ := ha
  rw [releaseDropped, hdrop] at hrel
  dsimp only at hrel
  rw [releasePage_eq htotal hclear hwalk] at hrel
  rw [← Option.some.inj hrel]

/-- In a run of the kernel, the addresses of the page are given back, and its frame is not. -/
lemma KernelHeapRun.emptied (hr : KernelHeapRun A HeapOp.Safe h held k)
    (hcall : KernelHeapCall A op h held k q h' k') (hdrop : droppedPage h h' = some page) :
    A.freePages k'.pma ⊆ A.freePages k.pma ∧
      (∀ r ∈ vmmRanges k'.vmm.root, ¬(r.start ≤ page ∧ page < r.limit)) ∧
      PathClear k.mem page 0 (A.levels - 1) A.top ∧
      (k.pma.zone .normal).totalPages ≤ 2 ^ 40 ∧
      ∃ phys, A.walk k.mem page = some ⟨phys, heapRights⟩ ∧
        phys / pageSize ∉ A.freePages k.pma := by
  obtain ⟨hrun, live, hb⟩ := hr.heapRun
  obtain ⟨rs, F, hh⟩ := hrun.inOrder
  obtain ⟨hpage, hgone⟩ := mem_of_droppedPage hdrop
  obtain ⟨-, htakes, -⟩ := hcall.step hh.1 hb
  have howned := hh.1.registry_owned hpage
  have hhead : page < page + pageSize := Nat.lt_add_of_pos_right pageSize_pos
  obtain ⟨phys, hwalk, -, hused, -⟩ := hb.backed.mapped page ⟨_, howned, le_rfl, hhead⟩
  refine ⟨AddressSpace.freePages_subset htakes, ?_,
    pathClear_of_plain (fun _ _ h => h) (pageIndex_lt _ _) hb.inv.entries,
    hb.inv.pma.totalPages_le, phys, hwalk, hused⟩
  obtain ⟨-, -, k₁, ha, hleft, hrel⟩ := hcall
  obtain ⟨-, -, -, live₁, hb₁⟩ := hb.answeredFor ha hleft
  rw [releaseDropped, hdrop] at hrel
  obtain ⟨k₂, live₂, heq, -, -, hout, hb₂⟩ := hb₁.release (List.mem_append_left _ howned)
  obtain rfl := Option.some.inj (hrel.symm.trans heq)
  intro r hmem hin
  obtain ⟨x, hx, rfl⟩ := List.mem_map.mp (hb₂.inv.vmm.perm.mem_iff.mp hmem)
  exact hout ⟨x, hx, hin⟩

/-- **An emptied pool page is never given back.**  In every state in which the page is mapped with
`KERNEL_HEAP_FLAGS`, a call that empties it and needs no block changes nothing in `pma.c`.  In every
run of the kernel without a short split, the page is mapped so, to a frame that is not free, and any
call that empties it gives back its addresses, but not its frame. -/
theorem emptiedPage_not_returned (hcall : KernelHeapCall A op h held k q h' k')
    (hdrop : droppedPage h h' = some page) :
    (∀ phys, op.request h = none → A.walk k.mem page = some ⟨phys, heapRights⟩ →
      PathClear k.mem page 0 (A.levels - 1) A.top → (k.pma.zone .normal).totalPages ≤ 2 ^ 40 →
      k'.pma = k.pma ∧ ¬PageReturned A page phys k k') ∧
    (KernelHeapRun A HeapOp.Safe h held k →
      (∀ r ∈ vmmRanges k'.vmm.root, ¬(r.start ≤ page ∧ page < r.limit)) ∧
      PathClear k.mem page 0 (A.levels - 1) A.top ∧ (k.pma.zone .normal).totalPages ≤ 2 ^ 40 ∧
      ∃ phys, A.walk k.mem page = some ⟨phys, heapRights⟩ ∧
        phys / pageSize ∉ A.freePages k'.pma ∧ ¬PageReturned A page phys k k') := by
  refine ⟨fun phys hrequest hwalk hclear htotal => ?_, fun hr => ?_⟩
  · have hpma := hcall.pma_eq hrequest hdrop htotal hclear hwalk
    exact ⟨hpma, not_pageReturned (hpma ▸ subset_rfl)⟩
  · obtain ⟨hsub, haddresses, hclear, htotal, phys, hwalk, hused⟩ := hr.emptied hcall hdrop
    exact ⟨haddresses, hclear, htotal, phys, hwalk, fun hmem => hused (hsub hmem),
      not_pageReturned hsub⟩

/-- `malloc(128)` and `free`. -/
theorem emptiedPage_not_returned_small : ∃ p h k h' k' page phys,
    KernelHeapRun smallSpace HeapOp.Safe h [p] k ∧
    KernelHeapCall smallSpace (.free p) h [p] k 0 h' k' ∧ droppedPage h h' = some page ∧
    (∀ r ∈ vmmRanges k'.vmm.root, ¬(r.start ≤ page ∧ page < r.limit)) ∧
    smallSpace.walk k.mem page = some ⟨phys, heapRights⟩ ∧
    phys / pageSize ∉ smallSpace.freePages k'.pma ∧ k'.pma = k.pma ∧
    ¬PageReturned smallSpace page phys k k' := by
  obtain ⟨p, h, k, h', k', page, hr, hcall, hdrop⟩ := smallFree_call
  obtain ⟨hstate, hrun⟩ := emptiedPage_not_returned hcall hdrop
  obtain ⟨haddresses, hclear, htotal, phys, hwalk, hused, -⟩ := hrun hr
  obtain ⟨hpma, hnot⟩ := hstate phys rfl hwalk hclear htotal
  exact ⟨p, h, k, h', k', page, phys, hr, hcall, hdrop, haddresses, hwalk, hused, hpma, hnot⟩

/-- `free` of the only allocation of 128 bytes: the page is not given back. -/
theorem emptiedPage_lost : ∃ p h k h' k' page phys,
    KernelHeapRun smallSpace HeapOp.Safe h [p] k ∧
    KernelHeapCall smallSpace (.free p) h [p] k 0 h' k' ∧ droppedPage h h' = some page ∧
    smallSpace.walk k.mem page = some ⟨phys, heapRights⟩ ∧
    phys / pageSize ∉ smallSpace.freePages k'.pma ∧
    (smallSpace.freePages k'.pma).ncard = (smallSpace.freePages k.pma).ncard ∧
    ¬ ∀ (A : AddressSpace) (h h' : Heap) (held : List ℕ) (k k' : KernelMemory) (p page phys : ℕ),
      KernelHeapRun A HeapOp.Safe h held k → KernelHeapCall A (.free p) h held k 0 h' k' →
      droppedPage h h' = some page → A.walk k.mem page = some ⟨phys, heapRights⟩ →
      PageReturned A page phys k k' := by
  obtain ⟨p, h, k, h', k', page, hr, hcall, hdrop⟩ := smallFree_call
  obtain ⟨hsub, -, hclear, htotal, phys, hwalk, hused⟩ := hr.emptied hcall hdrop
  have hpma := hcall.pma_eq rfl hdrop htotal hclear hwalk
  refine ⟨p, h, k, h', k', page, phys, hr, hcall, hdrop, hwalk, fun hmem => hused (hsub hmem),
    by rw [hpma], fun hall => ?_⟩
  exact not_pageReturned hsub (hall _ _ _ _ _ _ _ _ _ hr hcall hdrop hwalk)

end Cuore
