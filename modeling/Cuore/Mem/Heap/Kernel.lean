import Cuore.Mem.Heap.Grow
import Cuore.Mem.Heap.Sound

/-!
# The heap in the kernel

A run of the kernel starts with `heap_init` over the three memory managers.  Clients call the heap,
which asks the managers for memory when it has none and gives back the addresses of pool pages that
are empty, and in between the rest of the kernel uses the managers for itself and writes to memory.

Such a run is a run of the heap by itself (`KernelHeapRun.heapRun`): what is assumed there of the
ranges that the heap gets is true here.  So the heap is in order, and moreover each of its bytes is
mapped to a byte of memory that nothing else uses (`kernelHeap_private`).  The other direction
fails: memory that the heap has got, it keeps (`kernelHeap_keeps`), and a request close to 2^64
bytes makes it grow until there are no frames left or `vmm.c`, with its 64 nodes for ranges, panics
(`malloc_growth`).

`ok` is a condition on the calls.  For these results it is that no call is a short split.  Besides,
a page is left over after each growth, the rest of the kernel frees only what merges cleanly, and
memory fits above the pool (`PoolFits`).
-/

namespace Cuore

/-! ## Calls -/

/-- The block that `malloc` looks for behind the pools, if it gets there. -/
def mallocRequest (h : Heap) (size : ℕ) : Option ℕ :=
  if size = 0 ∨ (takeSlot h.mem size h.pools).isSome then none else some (alignHeap size)

/-- `realloc` leaves the allocation where it is. -/
def reallocStays (h : Heap) (ptr newSize : ℕ) : Bool :=
  match getPtrType h ptr with
  | .pool => decide (newSize ≤ (readHeader h.mem (pageBase ptr)).binSize)
  | .block =>
    decide ((readHeader h.mem (ptr - bhSize)).size ≥ newSize) ||
      (canExpand h.mem (ptr - bhSize) && decide (combinedSize h.mem (ptr - bhSize) ≥ newSize))
  | .noinfo => true

/-- The ranges that the heap gets while it looks for a block. -/
def grantedFor (request : Option ℕ) (grants : List ℕ) : List (ℕ × ℕ) :=
  match request with
  | none => []
  | some size => grantedRanges (growPages size) grants

/-- The answers are those of the memory managers. -/
def AnsweredFor (A : AddressSpace) (request : Option ℕ) (h : Heap) (k : KernelMemory)
    (grants : List ℕ) (k' : KernelMemory) : Prop :=
  match request with
  | none => grants = [] ∧ k' = k
  | some size => Answers A size h k grants k'

namespace HeapOp

/-- The block that the call looks for. -/
def request (h : Heap) : HeapOp → Option ℕ
  | malloc size _ => mallocRequest h size
  | zalloc size _ => mallocRequest h size
  | realloc ptr newSize _ =>
    if ptr = 0 then mallocRequest h newSize
    else if newSize = 0 ∨ reallocStays h ptr (alignHeap newSize) then none
    else mallocRequest h (alignHeap newSize)
  | _ => none

/-- The answers of `heap_grow`. -/
def grants : HeapOp → List ℕ
  | malloc _ grants => grants
  | zalloc _ grants => grants
  | realloc _ _ grants => grants
  | _ => []

/-- Clients make the call, who hold the pointers `held`. -/
def Asked (h : Heap) (held : List ℕ) : HeapOp → Prop
  | malloc size _ => size < word
  | zalloc size _ => size < word
  | free ptr => ptr = 0 ∨ ptr ∈ held
  | zfree ptr => ptr = 0 ∨ ptr ∈ held
  | realloc ptr newSize _ => (ptr = 0 ∨ ptr ∈ held) ∧ newSize < word
  | write m => (write m).Allowed h held

end HeapOp

/-- The pool page that has left the heap in a call. -/
def droppedPage (h h' : Heap) : Option ℕ :=
  h.poolPageRegistry.find? fun page => !h'.poolPageRegistry.contains page

/-- The managers after a call, which may have dropped a page. -/
def releaseDropped (A : AddressSpace) (h h' : Heap) (k : KernelMemory) : Option KernelMemory :=
  match droppedPage h h' with
  | none => some k
  | some page => releasePage A page k

/-- **A call in the kernel**, which returns `q`.  If the heap grows, there is a page left. -/
structure KernelHeapCall (A : AddressSpace) (op : HeapOp) (h : Heap) (held : List ℕ)
    (k : KernelMemory) (q : ℕ) (h' : Heap) (k' : KernelMemory) : Prop where
  asked : op.Asked h held
  run : op.run h = some (q, h')
  memory : ∃ k₁, AnsweredFor A (op.request h) h k op.grants k₁ ∧
    (grantedFor (op.request h) op.grants ≠ [] → (A.freePages k₁.pma).Nonempty) ∧
    releaseDropped A h h' k₁ = some k'

/-- **A run of the kernel**: the heap, the pointers that clients hold, and the managers. -/
inductive KernelHeapRun (A : AddressSpace) (ok : Heap → HeapOp → Prop) :
    Heap → List ℕ → KernelMemory → Prop
  | init {mem : Memory} {size : ℕ} {k₀ k : KernelMemory} {live : List VmmLive} {h : Heap}
      (hinv : MemoryInv A k₀ live) (heq : kernelHeapInit A mem size k₀ = some (h, k))
      (hleft : (A.freePages k.pma).Nonempty) : KernelHeapRun A ok h [] k
  | call {op : HeapOp} {h h' : Heap} {held : List ℕ} {k k' : KernelMemory} {q : ℕ}
      (hr : KernelHeapRun A ok h held k) (hcall : KernelHeapCall A op h held k q h' k')
      (hok : ok h op) : KernelHeapRun A ok h' (op.heldAfter held q) k'
  | other {h : Heap} {held : List ℕ} {k k' : KernelMemory} (hr : KernelHeapRun A ok h held k)
      (hstep : OtherStep A (rangeBytes h.owned) k k') : KernelHeapRun A ok h held k'

variable {A : AddressSpace} {h h' : Heap} {held grants : List ℕ} {k k' : KernelMemory}
  {live : List VmmLive} {op : HeapOp} {p q size page : ℕ} {rs : List Region} {F : ℕ → List ℕ}
  {owned l : List (ℕ × ℕ)}

/-! ## The ranges of the heap -/

/-- The ranges `l` have come, and at most a pool page has gone. -/
def RangesChange (h h' : Heap) (l : List (ℕ × ℕ)) : Prop :=
  h'.poolPageRegistry = h.poolPageRegistry ∧ h'.owned = h.owned ++ l ∨
    ∃ page ∈ h.poolPageRegistry, h'.poolPageRegistry = unregister page h.poolPageRegistry ∧
      h'.owned = (h.owned ++ l).erase (page, pageSize)

lemma BlocksOnly.rangesChange (hb : BlocksOnly h h') : RangesChange h h' [] :=
  .inl ⟨hb.poolPageRegistry, by rw [hb.owned, List.append_nil]⟩

lemma RangesChange.mem {m : Memory} (hc : RangesChange { h with mem := m } h' l) :
    RangesChange h h' l := hc

lemma RangesChange.append {h₁ : Heap} (hreg : h₁.poolPageRegistry = h.poolPageRegistry)
    (howned : h₁.owned = h.owned ++ l) (hc : RangesChange h₁ h' []) : RangesChange h h' l := by
  rw [RangesChange, hreg, howned, List.append_nil] at hc
  exact hc

/-- The heap without a page, when its list and its pools have been taken care of. -/
def leavePage (h : Heap) (page : ℕ) (m : Memory) (pools : List FixedPool) : Heap :=
  let h := listUnlink { h with
    mem := m
    pools := pools
    poolPageRegistry := unregister page h.poolPageRegistry } page
  { h with owned := h.owned.erase (page, pageSize) }

lemma freeSlot_some (hf : freeSlot h p = some h') : ∃ m pools,
    h' = { h with mem := m, pools := pools } ∨ h' = leavePage h (pageBase p) m pools := by
  obtain ⟨pool, -, hf⟩ := Option.bind_eq_some_iff.mp hf
  dsimp only at hf
  generalize (if (readHeader (h.mem.store p 8 pool.freeList) (pageBase p)).usedSlots > 0 then
      setUsedSlots (h.mem.store p 8 pool.freeList) (pageBase p)
        ((readHeader (h.mem.store p 8 pool.freeList) (pageBase p)).usedSlots - 1)
    else h.mem.store p 8 pool.freeList) = m at hf
  split_ifs at hf with hempty
  · obtain ⟨⟨m', freeList⟩, -, hf⟩ := Option.bind_eq_some_iff.mp hf
    exact ⟨_, _, .inr (Option.some.inj hf).symm⟩
  · exact ⟨_, _, .inl (Option.some.inj hf).symm⟩

lemma leavePage_rangesChange {m : Memory} {pools : List FixedPool}
    (hpage : page ∈ h.poolPageRegistry) : RangesChange h (leavePage h page m pools) [] := by
  have honly := blocksOnly_listUnlink { h with
    mem := m
    pools := pools
    poolPageRegistry := unregister page h.poolPageRegistry } page
  refine .inr ⟨page, hpage, ?_, ?_⟩
  · simp only [leavePage, honly.poolPageRegistry]
  · simp only [leavePage, honly.owned, List.append_nil]

/-- What `_free` does. -/
lemma freeTyped_rangesChange {type : PtrType} (hf : freeTyped h p type = some h')
    (htype : type = .pool → isPoolPage h (pageBase p) = true) : RangesChange h h' [] := by
  unfold freeTyped at hf
  split_ifs at hf with hp
  · obtain rfl := Option.some.inj hf
    exact (BlocksOnly.refl h).rangesChange
  cases type with
  | noinfo => exact absurd hf (by simp)
  | block =>
    simp only [freeBlock] at hf
    split_ifs at hf
    obtain rfl := Option.some.inj hf
    exact ((((BlocksOnly.refl h).write _ _).trans (blocksOnly_coalesceForward _ _)).trans
      (blocksOnly_coalesceBackward _ _)).rangesChange
  | pool =>
    have hpage := htype rfl
    rw [isPoolPage, List.contains_iff_mem] at hpage
    obtain ⟨m, pools, rfl | rfl⟩ := freeSlot_some hf
    · exact .inl ⟨rfl, (List.append_nil _).symm⟩
    · exact leavePage_rangesChange hpage

lemma isPoolPage_of_getPtrType (ht : getPtrType h p = .pool) :
    isPoolPage h (pageBase p) = true := by
  rw [getPtrType] at ht
  split_ifs at ht with hpage
  exact hpage

/-- What `malloc` does. -/
lemma malloc_owned (hm : Cuore.malloc grants h size = some (p, h'))
    (ha : AnsweredFor A (mallocRequest h size) h k grants k') :
    h'.owned = h.owned ++ grantedFor (mallocRequest h size) grants := by
  rw [Cuore.malloc] at hm
  split_ifs at hm with hzero
  · obtain ⟨-, rfl⟩ := Prod.mk.inj (Option.some.inj hm)
    rw [mallocRequest, if_pos (.inl hzero), grantedFor, List.append_nil]
  cases htake : takeSlot h.mem size h.pools with
  | some r =>
    rw [htake] at hm
    obtain ⟨-, rfl⟩ := Prod.mk.inj (Option.some.inj hm)
    rw [mallocRequest, if_pos (.inr (by rw [htake]; rfl)), grantedFor, List.append_nil]
  | none =>
    rw [htake] at hm
    rw [mallocRequest, if_neg (by simp [hzero, htake])] at ha ⊢
    exact Answers.owned_eq ha hm

/-- What the end of `realloc` does. -/
lemma moveTo_rangesChange {ptr oldSize : ℕ}
    (hm : moveTo grants h ptr size oldSize (getPtrType h ptr) = some (q, h'))
    (ha : AnsweredFor A (mallocRequest h size) h k grants k') :
    RangesChange h h' (grantedFor (mallocRequest h size) grants) := by
  obtain ⟨⟨new, h₁⟩, hmalloc, hm⟩ := Option.bind_eq_some_iff.mp hm
  have hreg := malloc_registry hmalloc
  have howned := malloc_owned hmalloc ha
  dsimp only at hm
  split_ifs at hm
  · obtain ⟨m, -, hm⟩ := Option.bind_eq_some_iff.mp hm
    obtain ⟨h₂, hfree, hm⟩ := Option.bind_eq_some_iff.mp hm
    obtain ⟨-, rfl⟩ := Prod.mk.inj (Option.some.inj hm)
    refine RangesChange.append hreg howned (freeTyped_rangesChange hfree fun ht => ?_).mem
    have hpage := isPoolPage_of_getPtrType ht
    rw [isPoolPage] at hpage ⊢
    rwa [← hreg] at hpage
  · obtain ⟨-, rfl⟩ := Prod.mk.inj (Option.some.inj hm)
    exact .inl ⟨hreg, howned⟩

/-- **What a call does to the ranges of the heap.** -/
lemma HeapOp.rangesChange (heq : op.run h = some (q, h'))
    (ha : AnsweredFor A (op.request h) h k op.grants k') :
    RangesChange h h' (grantedFor (op.request h) op.grants) := by
  cases op with
  | malloc size grants => exact .inl ⟨malloc_registry heq, malloc_owned heq ha⟩
  | zalloc size grants =>
    obtain ⟨⟨p, h₁⟩, hm, hz⟩ := Option.bind_eq_some_iff.mp heq
    have hchange : RangesChange h h₁ (grantedFor (mallocRequest h size) grants) :=
      .inl ⟨malloc_registry hm, malloc_owned hm ha⟩
    dsimp only at hz
    split_ifs at hz
    · obtain ⟨m, -, hz⟩ := Option.bind_eq_some_iff.mp hz
      obtain ⟨-, rfl⟩ := Prod.mk.inj (Option.some.inj hz)
      exact hchange
    · obtain ⟨-, rfl⟩ := Prod.mk.inj (Option.some.inj hz)
      exact hchange
  | free ptr =>
    obtain ⟨h₁, hf, hq⟩ := Option.map_eq_some_iff.mp heq
    obtain ⟨-, rfl⟩ := Prod.mk.inj hq
    simp only [Cuore.free] at hf
    split_ifs at hf
    · obtain rfl := Option.some.inj hf
      exact (BlocksOnly.refl h).rangesChange
    · exact freeTyped_rangesChange hf isPoolPage_of_getPtrType
  | zfree ptr =>
    obtain ⟨h₁, hf, hq⟩ := Option.map_eq_some_iff.mp heq
    obtain ⟨-, rfl⟩ := Prod.mk.inj hq
    simp only [Cuore.zfree] at hf
    split_ifs at hf
    · obtain rfl := Option.some.inj hf
      exact (BlocksOnly.refl h).rangesChange
    · obtain ⟨m, -, hf⟩ := Option.bind_eq_some_iff.mp hf
      exact (freeTyped_rangesChange hf isPoolPage_of_getPtrType).mem
    · exact (freeTyped_rangesChange hf isPoolPage_of_getPtrType).mem
  | realloc ptr newSize grants =>
    have hr : Cuore.realloc grants h ptr newSize = some (q, h') := heq
    simp only [request, HeapOp.grants] at ha ⊢
    rw [Cuore.realloc] at hr
    split_ifs at hr with hz hns
    · rw [if_pos hz] at ha ⊢
      exact .inl ⟨malloc_registry hr, malloc_owned hr ha⟩
    · rw [if_neg hz, if_pos (.inl hns)]
      obtain ⟨h₁, hf, hq⟩ := Option.map_eq_some_iff.mp hr
      obtain ⟨-, rfl⟩ := Prod.mk.inj hq
      exact freeTyped_rangesChange hf isPoolPage_of_getPtrType
    rw [if_neg hz] at ha ⊢
    -- the allocation stays, or is moved
    have hstays : reallocStays h ptr (alignHeap newSize) = true → BlocksOnly h h' →
        RangesChange h h' (grantedFor (if newSize = 0 ∨ reallocStays h ptr (alignHeap newSize) then
          none else mallocRequest h (alignHeap newSize)) grants) := by
      intro hstay honly
      rw [if_pos (.inr hstay)]
      exact honly.rangesChange
    have hmoves : ∀ oldSize, reallocStays h ptr (alignHeap newSize) = false →
        moveTo grants h ptr (alignHeap newSize) oldSize (getPtrType h ptr) = some (q, h') →
        RangesChange h h' (grantedFor (if newSize = 0 ∨ reallocStays h ptr (alignHeap newSize) then
          none else mallocRequest h (alignHeap newSize)) grants) := by
      intro oldSize hmove hm
      rw [if_neg (by simp [hns, hmove])] at ha ⊢
      exact moveTo_rangesChange hm ha
    cases htype : getPtrType h ptr with
    | noinfo =>
      rw [htype] at hr
      exact absurd hr (by simp)
    | pool =>
      simp only [htype] at hr hmoves
      split_ifs at hr with hfits
      · obtain ⟨-, rfl⟩ := Prod.mk.inj (Option.some.inj hr)
        exact hstays (by simp [reallocStays, htype, hfits]) (.refl _)
      · exact hmoves _ (by simpa [reallocStays, htype] using hfits) hr
    | block =>
      simp only [htype] at hr hmoves
      split_ifs at hr with hmagic hfits hcan
      · obtain ⟨-, rfl⟩ := Prod.mk.inj (Option.some.inj hr)
        exact hstays (by simp [reallocStays, htype, hfits]) (.refl _)
      · obtain ⟨-, rfl⟩ := Prod.mk.inj (Option.some.inj hr)
        exact hstays (by simp [reallocStays, htype, hcan]) (blocksOnly_expandBlock ..)
      · have hmove : reallocStays h ptr (alignHeap newSize) = false := by
          simp only [reallocStays, htype, Bool.or_eq_false_iff, decide_eq_false_iff_not]
          exact ⟨hfits, by simpa using hcan⟩
        exact hmoves _ hmove hr
  | write m =>
    obtain ⟨-, rfl⟩ := Prod.mk.inj (Option.some.inj heq)
    exact .inl ⟨rfl, (List.append_nil _).symm⟩

/-! ## One call -/

lemma HeapInv.registry_nodup (hi : HeapInv h rs F) : h.poolPageRegistry.Nodup :=
  hi.pools.registry.nodup_iff.mpr (hi.regions.spread.nodup.sublist (List.filter_sublist.map _))

/-- A registered page is a range of the heap. -/
lemma HeapInv.registry_owned (hi : HeapInv h rs F) (hpage : page ∈ h.poolPageRegistry) :
    (page, pageSize) ∈ h.owned := by
  obtain ⟨b, hb, bin, used, hk, rfl, -⟩ := hi.registry_block hpage
  obtain ⟨-, hr, -⟩ := hi.regions.pool_region hb hk
  rw [hi.owned]
  exact List.mem_map.mpr ⟨_, hr, by simp⟩

lemma droppedPage_eq_none (hreg : h'.poolPageRegistry = h.poolPageRegistry) :
    droppedPage h h' = none := by
  rw [droppedPage, List.find?_eq_none, hreg]
  simp

lemma droppedPage_eq_some (hnd : h.poolPageRegistry.Nodup) (hpage : page ∈ h.poolPageRegistry)
    (hreg : h'.poolPageRegistry = unregister page h.poolPageRegistry) :
    droppedPage h h' = some page := by
  have hmem : ∀ x, x ∈ h'.poolPageRegistry ↔ x ≠ page ∧ x ∈ h.poolPageRegistry := by
    intro x
    rw [hreg, (unregister_perm _ _).mem_iff, hnd.mem_erase_iff]
  cases hfind : droppedPage h h' with
  | none =>
    rw [droppedPage, List.find?_eq_none] at hfind
    exact absurd hpage (by simpa [hmem] using hfind page hpage)
  | some x =>
    have hx : x ∉ h'.poolPageRegistry := by simpa using List.find?_some hfind
    have hin := List.mem_of_find?_eq_some hfind
    rw [hmem, not_and_or, not_not] at hx
    rw [hx.resolve_right (not_not.mpr hin)]

/-- What the managers do for the request of a call. -/
lemma HeapBacked.answeredFor {request : Option ℕ} (hb : HeapBacked A h.owned k live)
    (ha : AnsweredFor A request h k grants k')
    (hleft : grantedFor request grants ≠ [] → (A.freePages k'.pma).Nonempty) :
    OnlyTakes k.pma k'.pma ∧
      (∀ size, request = some size → FreshGrants (growPages size) h.owned grants) ∧
      (request = none → grants = []) ∧
      ∃ live', HeapBacked A (h.owned ++ grantedFor request grants) k' live' := by
  cases request with
  | none =>
    obtain ⟨rfl, rfl⟩ := ha
    refine ⟨.refl _, fun _ h => absurd h (by simp), fun _ => rfl, live, ?_⟩
    rwa [grantedFor, List.append_nil]
  | some size =>
    obtain ⟨htakes, hfresh, live', hb', hback⟩ := hb.toHeapRanges.answers ha
    refine ⟨htakes, fun n hn => ?_, fun h => absurd h (by simp), live', hb', hback hb.backed hleft⟩
    obtain rfl := Option.some.inj hn
    exact hfresh

/-- The ranges are fresh for the request as it has been made. -/
lemma HeapOp.allowed_of_asked (hask : op.Asked h held)
    (hfresh : ∀ size, op.request h = some size → FreshGrants (growPages size) h.owned op.grants)
    (hnone : op.request h = none → op.grants = []) : op.Allowed h held := by
  have hmalloc : ∀ {size : ℕ} {grants : List ℕ},
      (∀ n, mallocRequest h size = some n → FreshGrants (growPages n) h.owned grants) →
      (mallocRequest h size = none → grants = []) →
      FreshGrants (growPages (alignHeap size)) h.owned grants := by
    intro size grants hfresh hnone
    rw [mallocRequest] at hfresh hnone
    split_ifs at hfresh hnone
    · rw [hnone rfl]
      trivial
    · exact hfresh _ rfl
  cases op with
  | malloc size grants => exact ⟨hask, hmalloc hfresh hnone⟩
  | zalloc size grants => exact ⟨hask, hmalloc hfresh hnone⟩
  | free ptr => exact hask
  | zfree ptr => exact hask
  | write m => exact hask
  | realloc ptr newSize grants =>
    refine ⟨hask.1, hask.2, ?_⟩
    simp only [request] at hfresh hnone
    split_ifs at hfresh hnone with hz hstay
    · exact hmalloc hfresh hnone
    · rw [show grants = [] from hnone rfl]
      trivial
    · have halign : alignHeap (alignHeap newSize) = alignHeap newSize :=
        alignHeap_of_dvd (alignHeap_lt _) (dvd_alignHeap _)
      rw [← halign]
      exact hmalloc hfresh hnone

/-- **The managers in a call**: the heap gets fresh ranges, and all that it has is backed. -/
lemma KernelHeapCall.step (hi : HeapInv h rs F) (hb : HeapBacked A h.owned k live)
    (hcall : KernelHeapCall A op h held k q h' k') :
    op.Allowed h held ∧ OnlyTakes k.pma k'.pma ∧ ∃ live', HeapBacked A h'.owned k' live' := by
  obtain ⟨hask, hrun, k₁, ha, hleft, hrel⟩ := hcall
  obtain ⟨htakes, hfresh, hnone, live₁, hb₁⟩ := hb.answeredFor ha hleft
  refine ⟨HeapOp.allowed_of_asked hask hfresh hnone, ?_⟩
  rcases HeapOp.rangesChange hrun ha with ⟨hreg, howned⟩ | ⟨page, hpage, hreg, howned⟩
  · rw [releaseDropped, droppedPage_eq_none hreg] at hrel
    obtain rfl := Option.some.inj hrel
    exact ⟨htakes, live₁, howned ▸ hb₁⟩
  · rw [releaseDropped, droppedPage_eq_some hi.registry_nodup hpage hreg] at hrel
    obtain ⟨k₂, live₂, heq, hpma, -, -, hb₂⟩ :=
      hb₁.release (List.mem_append_left _ (hi.registry_owned hpage))
    obtain rfl := Option.some.inj (hrel.symm.trans heq)
    exact ⟨hpma ▸ htakes, live₂, howned ▸ hb₂⟩

/-! ## Runs -/

/-- **A run of the kernel is a run of the heap**, and the heap is backed. -/
lemma KernelHeapRun.heapRun (hr : KernelHeapRun A HeapOp.Safe h held k) :
    HeapRun HeapOp.Safe h held ∧ ∃ live, HeapBacked A h.owned k live := by
  induction hr with
  | init hinv heq hleft =>
    obtain ⟨-, virt, pool0, pool1, pool2, hgrants, hinit, hb⟩ := hinv.heapInit heq hleft
    exact ⟨.init hgrants hinit, hb⟩
  | call _ hcall hok ih =>
    obtain ⟨hrun, live, hb⟩ := ih
    obtain ⟨rs, F, hh⟩ := hrun.inOrder
    obtain ⟨hallowed, -, hb'⟩ := hcall.step hh.1 hb
    exact ⟨hrun.step hallowed hok hcall.run, hb'⟩
  | other _ hstep ih =>
    obtain ⟨hrun, live, hb⟩ := ih
    exact ⟨hrun, hb.other hstep⟩

/-- The allocations lie in the ranges of the heap, apart from each other. -/
lemma InOrder.held_apart (hh : InOrder h held rs F) :
    (∀ p ∈ held, Set.Ico p (p + capacity h p) ⊆ rangeBytes h.owned) ∧
      ∀ p ∈ held, ∀ q ∈ held, p ≠ q →
        Disjoint (Set.Ico p (p + capacity h p)) (Set.Ico q (q + capacity h q)) := by
  refine ⟨fun p hp v ⟨hle, hlt⟩ => ?_, fun p hp q hq hne => ?_⟩
  · obtain ⟨n, hn⟩ := (hh.2 p).mp hp
    rw [hh.1.capacity_eq hn] at hlt
    obtain ⟨b, hb, -, hlow, hhigh⟩ := hn.bounds hh.1.regions
    have haddr : b.addr ≤ b.payload := Nat.le_add_right _ _
    obtain ⟨r, hr, hbase, hstop⟩ :=
      hh.1.regions.mem_range hb ((haddr.trans hlow).trans hle) (hlt.trans_le hhigh)
    refine ⟨(r.base, r.stop - r.base), hh.1.owned ▸ List.mem_map_of_mem hr, hbase, ?_⟩
    dsimp only
    omega
  · have hapart := hh.pieces_apart (u := .held p) (v := .held q) hp hq
      fun heq => hne (HeapPiece.held.inj heq)
    simp only [HeapPiece.range] at hapart
    refine Set.disjoint_left.mpr fun v ⟨hle, hlt⟩ ⟨hle', hlt'⟩ => ?_
    omega

/-- **The heap has its memory to itself.**  In every run of the kernel without a short split, the
heap is one that gets fresh ranges.  Each byte of its ranges is mapped, writable and not executable,
to a byte of physical memory of its own, in a page that is not free and holds no page table.  The
allocations lie in these ranges, and no two of them share memory. -/
theorem kernelHeap_private (hr : KernelHeapRun A HeapOp.Safe h held k) :
    HeapRun HeapOp.Safe h held ∧ Backed A heapRights k (rangeBytes h.owned) ∧
      (∀ p ∈ held, Set.Ico p (p + capacity h p) ⊆ rangeBytes h.owned) ∧
      ∀ p ∈ held, ∀ q ∈ held, p ≠ q → ∀ v ∈ Set.Ico p (p + capacity h p),
        ∀ w ∈ Set.Ico q (q + capacity h q), A.walk k.mem v ≠ A.walk k.mem w := by
  obtain ⟨hrun, live, hb⟩ := hr.heapRun
  obtain ⟨rs, F, hh⟩ := hrun.inOrder
  obtain ⟨hin, hapart⟩ := hh.held_apart
  refine ⟨hrun, hb.backed, hin, fun p hp q hq hne v hv w hw heq => ?_⟩
  obtain rfl := hb.backed.injective (hin p hp hv) (hin q hq hw) heq
  exact Set.disjoint_left.mp (hapart p hp q hq hne) hv hw

/-- A map of 20 pages. -/
def smallMap : List CmmRegion := [⟨1, 0x100000, 20 * 4096, .usable⟩]

/-- A machine with this memory, and its top table below it. -/
def smallSpace : AddressSpace := ⟨4, 0x1000, 276, by decide, .inl rfl, by decide⟩

/-- The managers of the machine at boot. -/
def smallBoot : Option KernelMemory :=
  (pmaInit smallMap zeroHdr).map fun pma =>
    ⟨pma, vmmInit 0xFFFF800000000000 0x200000 4, fun _ => 0⟩

/-- The machine after `heap_init`. -/
def smallHeap : Option (Heap × KernelMemory) :=
  smallBoot.bind (kernelHeapInit smallSpace (fun _ => 0) 0x1000)

/-- In memory that is zero, there is the top table only. -/
lemma AddressSpace.zeroed (A : AddressSpace) : A.tables (fun _ => 0) = {A.top} ∧
    Separate (fun _ => 0) 512 (A.levels - 1) A.top ∧
      AllEntries PlainEntry (fun _ => 0) 512 (A.levels - 1) A.top := by
  have hleaf : ∀ i < 512, ¬PointsToTable (readEntry (fun _ => 0) A.top i) := fun i _ => by
    rw [readEntry_zero]
    decide
  obtain ⟨htables, hsep⟩ := tables_eq_singleton (l := A.levels - 1) (.inr hleaf)
  refine ⟨htables, hsep, ?_⟩
  obtain ⟨l, hl⟩ : ∃ l, A.levels - 1 = l + 1 := ⟨A.levels - 2, by have := A.two_le; omega⟩
  rw [hl]
  refine fun i hi => ⟨?_, fun hp => absurd hp (hleaf i hi)⟩
  rw [readEntry_zero]
  exact plainEntry_entryInv.zero _

/-- The managers at boot, over memory that is zero. -/
lemma AddressSpace.boot {pma : Pma} {vmm : Vmm} (hwell : PmaWellFormed A.totalPages pma)
    (hvmm : VmmInv vmm []) (hpool : PoolFits A vmm) (hbit : pma.bitmap (A.top / pageSize) = true) :
    MemoryInv A ⟨pma, vmm, fun _ => 0⟩ [] := by
  obtain ⟨htables, hsep, hplain⟩ := A.zeroed
  refine ⟨hwell, hvmm, hpool, hsep, hplain, fun x hx hmem => ?_⟩
  -- the page of the table is not in the map
  rw [htables, Set.mem_singleton_iff] at hx
  rw [hx] at hmem
  exact absurd (hmem.2.symm.trans hbit) (by decide)

lemma smallSpace_canonical {v : ℕ} (hle : 0xFFFF800000000000 ≤ v) (hlt : v < 0xFFFFF00000000000) :
    Canonical smallSpace.levels v := by
  simp only [Canonical, word, smallSpace]
  omega

lemma smallBoot_poolFits : PoolFits smallSpace (vmmInit 0xFFFF800000000000 0x200000 4) := by
  refine ⟨by decide, by decide, by decide, fun v hle hlt => smallSpace_canonical ?_ hlt⟩
  change 0xFFFF800000200000 ≤ v at hle
  omega

lemma smallBoot_inv {k : KernelMemory} (heq : smallBoot = some k) : MemoryInv smallSpace k [] := by
  obtain ⟨pma, hinit, rfl⟩ := Option.map_eq_some_iff.mp heq
  have hbit : (pmaInit smallMap zeroHdr).map (fun s => s.bitmap (0x1000 / pageSize)) =
      some true := by decide +kernel
  rw [hinit, Option.map_some] at hbit
  exact AddressSpace.boot (PmaRun.wellFormed (by decide) hinit .init) (vmmInv_init (by decide))
    smallBoot_poolFits (Option.some.inj hbit)

/-- The run of the machine up to the first call. -/
lemma smallHeap_run (ok : Heap → HeapOp → Prop) : ∃ h k, smallHeap = some (h, k) ∧
    KernelHeapRun smallSpace ok h [] k := by
  obtain ⟨⟨h, k⟩, hsmall⟩ : ∃ r, smallHeap = some r :=
    Option.isSome_iff_exists.mp (by decide +kernel)
  obtain ⟨k₀, hboot, hinit⟩ := Option.bind_eq_some_iff.mp hsmall
  have hleft : smallHeap.map (fun r => r.2.pma.bitmap 275) = some false := by decide +kernel
  rw [hsmall, Option.map_some] at hleft
  exact ⟨h, k, hsmall, .init (smallBoot_inv hboot) hinit ⟨275, by decide, Option.some.inj hleft⟩⟩

/-- A call for which the heap does not grow. -/
lemma KernelHeapCall.quiet (hask : op.Asked h held)
    (hfound : op.request h = none ∨
      ∃ n curr, op.request h = some n ∧ searchHeap h n = some curr ∧ curr ≠ 0)
    (hgrants : op.grants = []) (hrun : op.run h = some (q, h'))
    (hrel : releaseDropped A h h' k = some k') : KernelHeapCall A op h held k q h' k' := by
  refine ⟨hask, hrun, k, ?_, fun hne => ?_, hrel⟩
  · rw [hgrants]
    rcases hfound with hnone | ⟨n, curr, hsome, hsearch, hcurr⟩
    · rw [hnone]
      exact ⟨rfl, rfl⟩
    · rw [hsome]
      exact .found hsearch hcurr
  · rw [hgrants] at hne
    cases hrequest : op.request h with
    | none => exact absurd (by rw [hrequest]; rfl) hne
    | some n => exact absurd (by rw [hrequest]; rfl) hne

/-- A call of `malloc` that takes a slot of a pool. -/
lemma KernelHeapRun.slot (hr : KernelHeapRun A HeapOp.Safe h held k) (hword : size < word)
    (hrequest : mallocRequest h size = none) (hdrop : droppedPage h h' = none) (hp : p ≠ 0)
    (hm : Cuore.malloc [] h size = some (p, h')) :
    KernelHeapRun A HeapOp.Safe h' (p :: held) k := by
  have hcall : KernelHeapCall A (.malloc size []) h held k p h' k :=
    .quiet hword (.inl hrequest) rfl hm (by rw [releaseDropped, hdrop])
  have hr' := hr.call hcall trivial
  rwa [HeapOp.heldAfter, if_neg hp] at hr'

/-- The machine after `malloc(128)`, and what that returned. -/
def smallMalloc : Option (ℕ × Heap × KernelMemory) :=
  smallHeap.bind fun r => (malloc [] r.1 128).map fun s => (s.1, s.2, r.2)

/-- What `KernelHeapRun.slot` asks of a call, and the size of the slot. -/
def slotTaken (h : Heap) (size : ℕ) : Option (Bool × Option ℕ × Bool × ℕ) :=
  (malloc [] h size).map fun s =>
    ((mallocRequest h size).isNone, droppedPage h s.2, decide (s.1 = 0), capacity s.2 s.1)

lemma slotTaken_run {n : ℕ} (hr : KernelHeapRun A HeapOp.Safe h held k) (hword : size < word)
    (hslot : slotTaken h size = some (true, none, false, n)) :
    ∃ p h', Cuore.malloc [] h size = some (p, h') ∧ KernelHeapRun A HeapOp.Safe h' (p :: held) k ∧
      capacity h' p = n := by
  obtain ⟨⟨p, h'⟩, hm, hvalue⟩ := Option.map_eq_some_iff.mp hslot
  obtain ⟨hrequest, hvalue⟩ := Prod.mk.inj hvalue
  obtain ⟨hdrop, hvalue⟩ := Prod.mk.inj hvalue
  obtain ⟨hp, hcap⟩ := Prod.mk.inj hvalue
  exact ⟨p, h', hm, hr.slot hword (Option.isNone_iff_eq_none.mp hrequest) hdrop
    (of_decide_eq_false hp) hm, hcap⟩

lemma smallMalloc_run : ∃ p h k, smallMalloc = some (p, h, k) ∧
    KernelHeapRun smallSpace HeapOp.Safe h [p] k := by
  obtain ⟨h, k, hsmall, hr⟩ := smallHeap_run HeapOp.Safe
  have hslot : smallHeap.bind (fun r => slotTaken r.1 128) = some (true, none, false, 128) := by
    decide +kernel
  rw [hsmall, Option.bind_some] at hslot
  obtain ⟨p, h', hm, hr', -⟩ := slotTaken_run hr (by decide) hslot
  refine ⟨p, h', k, ?_, hr'⟩
  rw [smallMalloc, hsmall, Option.bind_some, hm]
  rfl

/-- Two allocations of 128 bytes. -/
theorem kernelHeap_private_small : ∃ p q h k, p ≠ q ∧ capacity h p = 128 ∧ capacity h q = 128 ∧
    KernelHeapRun smallSpace HeapOp.Safe h [q, p] k ∧ HeapRun HeapOp.Safe h [q, p] ∧
    Backed smallSpace heapRights k (rangeBytes h.owned) ∧
    Set.Ico p (p + 128) ⊆ rangeBytes h.owned ∧ Set.Ico q (q + 128) ⊆ rangeBytes h.owned ∧
    ∀ v ∈ Set.Ico p (p + 128), ∀ w ∈ Set.Ico q (q + 128),
      smallSpace.walk k.mem v ≠ smallSpace.walk k.mem w := by
  obtain ⟨p, h₁, k, hsmall, hr⟩ := smallMalloc_run
  have hslot : smallMalloc.bind (fun r => slotTaken r.2.1 128) = some (true, none, false, 128) := by
    decide +kernel
  have hboth : smallMalloc.bind (fun r => (malloc [] r.2.1 128).map fun s =>
      (decide (r.1 = s.1), capacity s.2 r.1)) = some (false, 128) := by
    decide +kernel
  rw [hsmall, Option.bind_some] at hslot hboth
  obtain ⟨q, h, hm, hr', hq⟩ := slotTaken_run hr (by decide) hslot
  rw [hm, Option.map_some] at hboth
  obtain ⟨hne, hp⟩ := Prod.mk.inj (Option.some.inj hboth)
  obtain ⟨hrun, hback, hin, hapart⟩ := kernelHeap_private hr'
  have hpq : p ≠ q := of_decide_eq_false hne
  have hinp := hin p (by simp)
  have hinq := hin q (by simp)
  have hwalk := hapart p (by simp) q (by simp) hpq
  rw [show capacity h p = 128 from hp] at hinp hwalk
  rw [hq] at hinq hwalk
  exact ⟨p, q, h, k, hpq, hp, hq, hr', hrun, hback, hinp, hinq, hwalk⟩

/-- **What the heap has got, it keeps.**  No call of the heap makes a page free.  A pool page that
leaves the heap is still mapped afterwards, to a frame that is not free. -/
theorem kernelHeap_keeps (hr : KernelHeapRun A HeapOp.Safe h held k)
    (hcall : KernelHeapCall A op h held k q h' k') :
    A.freePages k'.pma ⊆ A.freePages k.pma ∧
      ∀ page ∈ h.poolPageRegistry, page ∉ h'.poolPageRegistry →
        page ∉ rangeBytes h'.owned ∧ ∃ a, A.walk k'.mem page = some ⟨a, heapRights⟩ ∧
          a / pageSize < A.totalPages ∧ a / pageSize ∉ A.freePages k'.pma := by
  obtain ⟨hrun, live, hb⟩ := hr.heapRun
  obtain ⟨rs, F, hh⟩ := hrun.inOrder
  obtain ⟨-, htakes, -⟩ := hcall.step hh.1 hb
  refine ⟨AddressSpace.freePages_subset htakes, fun page hpage hgone => ?_⟩
  obtain ⟨-, hcallRun, k₁, ha, hleft, hrel⟩ := hcall
  obtain ⟨-, -, -, live₁, hb₁⟩ := hb.answeredFor ha hleft
  rcases HeapOp.rangesChange hcallRun ha with ⟨hreg, -⟩ | ⟨page', hpage', hreg, howned⟩
  · exact absurd (hreg ▸ hpage) hgone
  -- the page is the one that has been dropped
  have hnd := hh.1.registry_nodup
  obtain rfl : page = page' := by
    rw [hreg, (unregister_perm _ _).mem_iff, hnd.mem_erase_iff, not_and_or, not_not] at hgone
    exact hgone.resolve_right (not_not.mpr hpage)
  have hmem := List.mem_append_left (grantedFor (op.request h) op.grants)
    (hh.1.registry_owned hpage)
  have hhead : page < page + pageSize := Nat.lt_add_of_pos_right pageSize_pos
  rw [releaseDropped, droppedPage_eq_some hnd hpage hreg] at hrel
  obtain ⟨k₂, -, heq, hpma, hmemory, -⟩ := hb₁.release hmem
  obtain rfl := Option.some.inj (hrel.symm.trans heq)
  obtain ⟨a, hwalk, htotal, hused, -⟩ := hb₁.backed.mapped page ⟨_, hmem, le_rfl, hhead⟩
  refine ⟨howned ▸ hb₁.toHeapRanges.notMem_erase hmem le_rfl hhead, a, ?_, htotal, ?_⟩
  · rw [hmemory]
    exact hwalk
  · rw [hpma]
    exact hused

/-- `malloc(128)` and `free`, which empties a pool page. -/
lemma smallFree_call : ∃ p h k h' k' page, KernelHeapRun smallSpace HeapOp.Safe h [p] k ∧
    KernelHeapCall smallSpace (.free p) h [p] k 0 h' k' ∧ droppedPage h h' = some page := by
  obtain ⟨p, h, k, hsmall, hr⟩ := smallMalloc_run
  have hvalue : smallMalloc.bind (fun r => (free r.2.1 r.1).bind fun h' =>
      (droppedPage r.2.1 h').map fun page => (releasePage smallSpace page r.2.2).isSome) =
        some true := by decide +kernel
  rw [hsmall, Option.bind_some] at hvalue
  obtain ⟨h', hfree, hvalue⟩ := Option.bind_eq_some_iff.mp hvalue
  obtain ⟨page, hdrop, hrel⟩ := Option.map_eq_some_iff.mp hvalue
  obtain ⟨k', hk'⟩ := Option.isSome_iff_exists.mp hrel
  exact ⟨p, h, k, h', k', page, hr, .quiet (.inr List.mem_cons_self) (.inl rfl) rfl
    (by rw [HeapOp.run, hfree]; rfl) (by rw [releaseDropped, hdrop]; exact hk'), hdrop⟩

lemma mem_of_droppedPage (hdrop : droppedPage h h' = some page) :
    page ∈ h.poolPageRegistry ∧ page ∉ h'.poolPageRegistry :=
  ⟨List.mem_of_find?_eq_some hdrop, by simpa using List.find?_some hdrop⟩

/-- The frame of the page is lost. -/
theorem kernelHeap_keeps_small : ∃ p h k h' k',
    KernelHeapRun smallSpace HeapOp.Safe h [p] k ∧
    KernelHeapCall smallSpace (.free p) h [p] k 0 h' k' ∧
    smallSpace.freePages k'.pma ⊆ smallSpace.freePages k.pma ∧
    ∃ page ∈ h.poolPageRegistry, page ∉ h'.poolPageRegistry ∧ page ∉ rangeBytes h'.owned ∧
      ∃ a, smallSpace.walk k'.mem page = some ⟨a, heapRights⟩ ∧ a / pageSize < 276 ∧
        a / pageSize ∉ smallSpace.freePages k'.pma := by
  obtain ⟨p, h, k, h', k', page, hr, hcall, hdrop⟩ := smallFree_call
  obtain ⟨hmem, hgone⟩ := mem_of_droppedPage hdrop
  obtain ⟨hsub, hkeeps⟩ := kernelHeap_keeps hr hcall
  obtain ⟨hout, a, hwalk, htotal, hused⟩ := hkeeps page hmem hgone
  exact ⟨p, h, k, h', k', hr, hcall, hsub, page, hmem, hgone, hout, a, hwalk, htotal, hused⟩

/-! ## How often the heap grows -/

/-- **A request grows the heap once.**  In every run, the search of a call that has grown the heap
finds something.  The exception is a request whose size wraps when a header and a page are added to
it.  For that one the search never finds anything.  It takes four pages at a time, one node of
`vmm.c` for each four, and the heap keeps them.  It ends with null when `pma.c` has no such range, or
with a panic of `vmm.c`. -/
theorem malloc_growth {l : List ℕ} (hr : KernelHeapRun A HeapOp.Safe h held k)
    (hword : size < word) (hg : Growths A size h k l h' k') :
    (h'.owned = h.owned ++ l.map fun virt => (virt, growPages size * pageSize)) ∧
    (size + bhSize + pageSize ≤ word →
      l.length ≤ 1 ∧ (l ≠ [] → searchHeap h' size ≠ some 0)) ∧
    (word < size + bhSize + pageSize →
      growPages size = pagesPerGrowth ∧ searchHeap h' size = some 0 ∧
      mallocBlock size (l ++ [0]) h = some (0, h') ∧
      (l ≠ [] → k.vmm.earlyPoolCount + l.length ≤ vmmEarlyPool) ∧
      (∀ k'', heapGrowMemory A size k' = some (0, k'') →
        pmaAllocPages pagesPerGrowth k'.pma = some (0, k''.pma)) ∧
      (heapGrowMemory A size k' = none → vmmAllocPages false pagesPerGrowth k'.vmm = none)) := by
  obtain ⟨hrun, live, hb⟩ := hr.heapRun
  obtain ⟨rs, F, hi, -⟩ := hrun.inOrder
  refine ⟨hg.owned_eq, fun hsize => ⟨hg.length_le_one hi hb.toHeapRanges hsize,
    hg.search_ne hi hb.toHeapRanges hsize⟩, fun hwrap => ?_⟩
  have hpages := growPages_wraps hword hwrap
  have hsearch := hg.search_wraps hi hb.toHeapRanges hwrap
  have hnull : mallocBlock size [0] h' = some (0, h') := by
    rw [mallocBlock_grow hsearch]
    exact if_pos rfl
  obtain ⟨hcount, hle⟩ := hg.early_le hi hb.toHeapRanges hpages
  obtain ⟨-, live', hb'⟩ := hg.keeps hi hb.toHeapRanges
  obtain ⟨hzero, -, hnone⟩ := hb'.grow_four hpages
  exact ⟨hpages, hsearch, (hg.mallocBlock_eq [0]).trans hnull, fun hl => hcount ▸ hle hl, hzero,
    hnone⟩

/-- The heap after `n` growths. -/
def growTimes (A : AddressSpace) (size : ℕ) (h : Heap) (k : KernelMemory) :
    ℕ → Option (List ℕ × Heap × KernelMemory)
  | 0 => some ([], h, k)
  | n + 1 => do
    let (l, h', k') ← growTimes A size h k n
    let curr ← searchHeap h' size
    let (virt, k'') ← heapGrowMemory A size k'
    if curr = 0 ∧ virt ≠ 0 then some (l ++ [virt], heapGrow h' size virt, k'') else none

lemma growths_growTimes {n : ℕ} {l : List ℕ}
    (heq : growTimes A size h k n = some (l, h', k')) :
    Growths A size h k l h' k' ∧ l.length = n := by
  induction n generalizing l h' k' with
  | zero =>
    obtain ⟨rfl, hsame⟩ := Prod.mk.inj (Option.some.inj heq)
    obtain ⟨rfl, rfl⟩ := Prod.mk.inj hsame
    exact ⟨.refl, rfl⟩
  | succ n ih =>
    obtain ⟨⟨l₁, h₁, k₁⟩, hstep, heq⟩ := Option.bind_eq_some_iff.mp heq
    obtain ⟨curr, hsearch, heq⟩ := Option.bind_eq_some_iff.mp heq
    obtain ⟨⟨virt, k₂⟩, hgrow, heq⟩ := Option.bind_eq_some_iff.mp heq
    dsimp only at heq
    split_ifs at heq with hcond
    obtain ⟨hcurr, hvirt⟩ := hcond
    rw [hcurr] at hsearch
    obtain ⟨rfl, hsame⟩ := Prod.mk.inj (Option.some.inj heq)
    obtain ⟨rfl, rfl⟩ := Prod.mk.inj hsame
    obtain ⟨hg, hlen⟩ := ih hstep
    exact ⟨.grown hg hsearch hgrow hvirt, by rw [List.length_append, hlen]; rfl⟩

/-- A request of `2 ^ 64 - 4096` bytes grows the heap of the machine three times, and a fourth time
there are no four pages. -/
theorem malloc_growth_small : ∃ h k l h' k' k'',
    KernelHeapRun smallSpace HeapOp.Safe h [] k ∧
      Growths smallSpace (word - pageSize) h k l h' k' ∧ l.length = 3 ∧
      (h'.owned = h.owned ++ l.map fun virt => (virt, pagesPerGrowth * pageSize)) ∧
      searchHeap h' (word - pageSize) = some 0 ∧
      mallocBlock (word - pageSize) (l ++ [0]) h = some (0, h') ∧
      k.vmm.earlyPoolCount + 3 ≤ vmmEarlyPool ∧
      heapGrowMemory smallSpace (word - pageSize) k' = some (0, k'') ∧
      pmaAllocPages pagesPerGrowth k'.pma = some (0, k''.pma) := by
  obtain ⟨h, k, hsmall, hr⟩ := smallHeap_run HeapOp.Safe
  have hvalue : (smallHeap.bind fun r => (growTimes smallSpace (word - pageSize) r.1 r.2 3).bind
      fun s => (heapGrowMemory smallSpace (word - pageSize) s.2.2).map Prod.fst) = some 0 := by
    decide +kernel
  rw [hsmall, Option.bind_some] at hvalue
  obtain ⟨⟨l, h', k'⟩, htimes, hvalue⟩ := Option.bind_eq_some_iff.mp hvalue
  obtain ⟨⟨virt, k''⟩, hlast, hvirt⟩ := Option.map_eq_some_iff.mp hvalue
  obtain rfl : virt = 0 := hvirt
  obtain ⟨hg, hlen⟩ := growths_growTimes htimes
  obtain ⟨howned, -, hwraps⟩ := malloc_growth hr (by decide) hg
  obtain ⟨hpages, hsearch, hnull, hle, hzero, -⟩ := hwraps (by decide)
  have hne : l ≠ [] := List.ne_nil_of_length_pos (by omega)
  exact ⟨h, k, l, h', k', k'', hr, hg, hlen, hpages ▸ howned, hsearch, hnull, hlen ▸ hle hne, hlast,
    hzero k'' hlast⟩

end Cuore
