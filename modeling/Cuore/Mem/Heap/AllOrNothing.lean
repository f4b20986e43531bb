import Cuore.Mem.Backing.Tables
import Cuore.Mem.Heap.Contract

/-!
# Growing, all or nothing (`heap_grow`)

`heap_grow` maps the pages of its region with functions that return nothing.  When there is no page
for a table, such a function gives up, and the loop goes on with the next page.  So `heap_grow`
returns true although a page of the region is not mapped, after the frames and the addresses have
been taken.

`AllOrNothing` is what should be so after a call.  The exact condition is on the state before it:
there is a free page for each page of the region and for each table that is missing on the way to
it (`RoomForTables`).  If there is not even one for the first page, the header of the new block
cannot be written, and `heap_grow` does not return.
-/

namespace Cuore

/-! ## The function -/

/-- The pages that `heap_grow` maps are huge. -/
def GrowsHuge (sizeNeeded : ℕ) : Prop :=
  growPages sizeNeeded ≥ pages2mb ∧ growPages sizeNeeded % pages2mb = 0

instance (sizeNeeded : ℕ) : Decidable (GrowsHuge sizeNeeded) := inferInstanceAs (Decidable (_ ∧ _))

/-- The size of the pages. -/
def growKind (sizeNeeded : ℕ) : PageKind := if GrowsHuge sizeNeeded then .page2mb else .page4kb

/-- The number of pages of that size. -/
def growCount (sizeNeeded : ℕ) : ℕ :=
  if GrowsHuge sizeNeeded then growPages sizeNeeded / pages2mb else growPages sizeNeeded

/-- The call for frames. -/
def growFrames (sizeNeeded : ℕ) : PmaAlloc :=
  if GrowsHuge sizeNeeded then .pages2mb (growPages sizeNeeded / pages2mb)
  else .pages (growPages sizeNeeded)

/-- What `pma.c` answers to that. -/
def growPhys (sizeNeeded : ℕ) (k : KernelMemory) : Option ℕ :=
  ((growFrames sizeNeeded).run k.pma).map Prod.fst

/-- The addresses that `vmm.c` has for the region. -/
def growVirt (sizeNeeded : ℕ) (k : KernelMemory) : Option ℕ :=
  (vmmAllocAligned false (growPages sizeNeeded) (growKind sizeNeeded).size k.vmm).map Prod.fst

/-- `heap_grow`.  It does not return if `vmm.c` panics, or if the page is not mapped in which the
header of the new block is to be written. -/
def kernelHeapGrow (A : AddressSpace) (sizeNeeded : ℕ) (h : Heap) (k : KernelMemory) :
    Option (Bool × Heap × KernelMemory) := do
  let (virt, k) ← heapGrowMemory A sizeNeeded k
  if virt = 0 then some (false, h, k)
  else if A.walk k.mem virt = none then none
  else some (true, heapGrow h sizeNeeded virt, k)

/-! ## What is promised -/

/-- The heap and the managers, in any state in which each is well formed. -/
structure GrowReady (A : AddressSpace) (h : Heap) (k : KernelMemory) (live : List VmmLive) :
    Prop where
  tables : TablesInv A k
  vmm : VmmInv k.vmm live
  canonical : ∀ v, k.vmm.poolBase ≤ v → v < k.vmm.poolEnd → Canonical A.levels v
  heap : ∃ rs F, HeapInv h rs F
  owned : ∀ o ∈ h.owned, ∃ x ∈ live, x.extent = o

variable {A : AddressSpace} {h h' : Heap} {k k' k₁ : KernelMemory} {live : List VmmLive}
  {size phys virt : ℕ} {grown : Bool}

/-! ## What is asked of the managers -/

lemma pageSize_dvd_growKind (size : ℕ) : pageSize ∣ (growKind size).size := by
  unfold growKind
  split_ifs <;> decide

lemma growPages_pos (size : ℕ) : 0 < growPages size :=
  (by decide : 0 < pagesPerGrowth).trans_le (le_growPages size)

/-- The frames that are asked for are those of the region. -/
lemma growFrames_count (size : ℕ) : (growFrames size).count = growPages size := by
  unfold growFrames
  split_ifs with hhuge
  · exact Nat.div_mul_cancel (Nat.dvd_of_mod_eq_zero hhuge.2)
  · rfl

lemma growFrames_valid (size : ℕ) : (growFrames size).Valid := by
  rw [PmaAlloc.Valid, growFrames_count]
  exact ⟨growPages_pos size, growPages_mul_lt size⟩

lemma growFrames_align (size : ℕ) : (growKind size).size ∣ (growFrames size).align * pageSize := by
  unfold growKind growFrames
  split_ifs
  · exact (by decide : pageSize2mb ∣ 512 * pageSize)
  · exact (by decide : pageSize ∣ 1 * pageSize)

/-- The pages that are mapped are those of the region. -/
lemma growCount_mul (size : ℕ) :
    growCount size * (growKind size).size = growPages size * pageSize := by
  unfold growCount growKind
  split_ifs with hhuge
  · have hcount : growPages size / pages2mb * 512 = growPages size :=
      Nat.div_mul_cancel (Nat.dvd_of_mod_eq_zero hhuge.2)
    calc growPages size / pages2mb * (512 * pageSize)
        = growPages size / pages2mb * 512 * pageSize := (Nat.mul_assoc _ _ _).symm
      _ = growPages size * pageSize := by rw [hcount]
  · rfl

lemma heapGrowMemory_eq_mapRange (A : AddressSpace) (size : ℕ) (k : KernelMemory) :
    heapGrowMemory A size k = mapRange A (growKind size) (growFrames size) (growCount size)
      (kernelHeapFlags ||| pteTypeHeapBlock) k := by
  rw [heapGrowMemory, growKind, growFrames, growCount]
  by_cases hhuge : GrowsHuge size
  · rw [if_pos hhuge, if_pos hhuge, if_pos hhuge]
    exact if_pos hhuge
  · rw [if_neg hhuge, if_neg hhuge, if_neg hhuge]
    exact if_neg hhuge

/-- **Frames and addresses have been taken**, in the state `k₁`. -/
structure GrowthTaken (A : AddressSpace) (size : ℕ) (h : Heap) (k : KernelMemory) (phys virt : ℕ)
    (k₁ : KernelMemory) : Prop where
  virt_ne : virt ≠ 0
  mem : k₁.mem = k.mem
  tables : TablesInv A k₁
  count : (A.freePages k₁.pma).ncard + growPages size = (A.freePages k.pma).ncard
  phys_dvd : (growKind size).size ∣ phys
  virt_dvd : (growKind size).size ∣ virt
  phys_le : phys + growPages size * pageSize ≤ physLimit
  canonical : ∀ v, virt ≤ v → v < virt + growPages size * pageSize → Canonical A.levels v
  fresh : FreshRange h.owned virt (growPages size)

/-- They are those that `heap_grow` finds. -/
structure GrowthFound (A : AddressSpace) (size : ℕ) (h : Heap) (k : KernelMemory) (phys virt : ℕ)
    (k₁ : KernelMemory) : Prop extends GrowthTaken A size h k phys virt k₁ where
  phys_eq : growPhys size k = some phys
  phys_ne : phys ≠ 0
  virt_eq : growVirt size k = some virt
  eq : heapGrowMemory A size k =
    (mapPages A (growKind size) virt phys (kernelHeapFlags ||| pteTypeHeapBlock) (growCount size)
      k₁).map (Prod.mk virt)

lemma growKind_log_lt (size : ℕ) : 12 + (growKind size).level * 9 < 64 := by
  have := (growKind size).level_le
  omega

/-- What `pma.c` and `vmm.c` have answered. -/
lemma GrowReady.taken {malloc : Bool} {pma : Pma} {vmm : Vmm} (hg : GrowReady A h k live)
    (hwrap : NoWrap k.vmm live (growPages size) (growKind size).size)
    (hrun : (growFrames size).run k.pma = some (phys, pma)) (hphys : phys ≠ 0)
    (halloc : vmmAllocAligned malloc (growPages size) (growKind size).size k.vmm =
      some (virt, vmm)) : GrowthTaken A size h k phys virt ⟨pma, vmm, k.mem⟩ := by
  have hvalid := growFrames_valid size
  have hcount := growFrames_count size
  have hpages := growPages_pos size
  have hlog := growKind_log_lt size
  obtain ⟨hwell, hcases⟩ := hg.tables.pma.run hvalid hrun
  obtain ⟨hdvd', p, rfl, hle, -⟩ := hcases.resolve_left hphys
  have hcard := hg.tables.pma.ncard_run hvalid hrun hphys
  obtain ⟨hlow, hdvd, hend, -⟩ := vmmAllocAligned_spec hg.vmm hpages hlog hwrap halloc
  have hinv := hg.vmm.allocAligned hpages hlog hwrap halloc
  have hvirt : 0 < virt := hg.vmm.base_pos.trans_le hlow
  rw [hcount] at hcard hle
  refine ⟨hvirt.ne', rfl, ⟨hwell, hg.tables.separate, hg.tables.entries, fun x hx hmem =>
    hg.tables.used x hx (AddressSpace.freePages_subset (PmaAlloc.onlyTakes hrun) hmem)⟩, hcard,
    (growFrames_align size).trans hdvd', hdvd, ?_, fun v hlow' hlt => ?_, hvirt,
    (pageSize_dvd_growKind size).trans hdvd, hend.trans_lt hg.vmm.end_lt, fun o ho => ?_⟩
  · rw [← Nat.add_mul]
    exact (Nat.mul_le_mul_right _ (hle.trans hg.tables.pma.total_le)).trans (by decide)
  · exact hg.canonical v (hlow.trans hlow') (hlt.trans_le hend)
  · obtain ⟨x, hx, rfl⟩ := hg.owned o ho
    exact hinv.apart_of_cons x hx

/-- There are no frames, or no addresses, or both are found. -/
lemma GrowReady.cases (hg : GrowReady A h k live)
    (hwrap : NoWrap k.vmm live (growPages size) (growKind size).size) :
    (∃ k', growPhys size k = some 0 ∧ heapGrowMemory A size k = some (0, k')) ∨
      growVirt size k = none ∧ heapGrowMemory A size k = none ∨
      ∃ phys virt k₁, GrowthFound A size h k phys virt k₁ := by
  obtain ⟨phys, pma, hrun, -⟩ := (hg.tables.pma.callSafe_iff _).mpr (.inl (growFrames_valid size))
  have hgrow := heapGrowMemory_eq_mapRange A size k
  rw [mapRange, hrun, Option.bind_eq_bind, Option.bind_some, growFrames_count] at hgrow
  dsimp only at hgrow
  split_ifs at hgrow with hphys
  · exact .inl ⟨_, by rw [growPhys, hrun, hphys]; rfl, hgrow⟩
  cases halloc : vmmAllocAligned false (growPages size) (growKind size).size k.vmm with
  | none =>
    rw [halloc] at hgrow
    exact .inr (.inl ⟨by rw [growVirt, halloc]; rfl, hgrow⟩)
  | some r =>
    obtain ⟨virt, vmm⟩ := r
    have ht := hg.taken hwrap hrun hphys halloc
    rw [halloc] at hgrow
    dsimp only [Option.bind_eq_bind, Option.bind_some] at hgrow
    rw [if_neg ht.virt_ne] at hgrow
    refine .inr (.inr ⟨phys, virt, _, ht, ?_, hphys, ?_, ?_⟩)
    · rw [growPhys, hrun]
      rfl
    · rw [growVirt, halloc]
      rfl
    · rw [hgrow, Option.map_eq_bind]
      rfl

/-! ## The loop, for the region -/

namespace GrowthTaken

variable (ht : GrowthTaken A size h k phys virt k₁)
include ht

/-- Which addresses the loop is called for. -/
lemma canonical_loop : ∀ v, virt ≤ v → v < virt + growCount size * (growKind size).size →
    Canonical A.levels v := by
  rw [growCount_mul]
  exact ht.canonical

lemma phys_le_loop : phys + growCount size * (growKind size).size ≤ physLimit := by
  rw [growCount_mul]
  exact ht.phys_le

/-- **All of the region is mapped** if there are pages for all of the tables. -/
lemma mapped (henough : missingTables A (growKind size) k.mem virt (growCount size) ≤
    (A.freePages k₁.pma).ncard) :
    ∃ k', mapPages A (growKind size) virt phys (kernelHeapFlags ||| pteTypeHeapBlock)
        (growCount size) k₁ = some k' ∧ TablesInv A k' ∧ k'.vmm = k₁.vmm ∧
      ∀ v, virt ≤ v → v < virt + growPages size * pageSize →
        A.walk k'.mem v = some ⟨phys + (v - virt), heapRights⟩ := by
  obtain ⟨hattr, hrights, hpresent⟩ := attributeFlags_heap (.inl rfl)
  rw [← ht.mem] at henough
  obtain ⟨k', hk', hfill⟩ := ht.tables.mapPages_filled _ ht.virt_dvd ht.phys_dvd
    ht.canonical_loop ht.phys_le_loop hattr hpresent henough
  have hon := hfill.walk_on
  rw [growCount_mul, hrights] at hon
  exact ⟨k', hk', hfill.inv, hfill.vmm, hon⟩

/-- The block is large enough. -/
lemma large (hheap : ∃ rs F, HeapInv h rs F) (hsize : size + bhSize + pageSize ≤ word) :
    size ≤ (readHeader (heapGrow h size virt).mem virt).size := by
  obtain ⟨rs, F, hi⟩ := hheap
  have hblocks := (hi.grow ht.fresh).1.blocks
  obtain ⟨p, q, hat⟩ := hblocks.at_mem (grown_mem rs virt (growPages size))
  rw [show readHeader (heapGrow h size virt).mem virt = _ from hat]
  exact growPages_fits hsize

end GrowthTaken

namespace GrowthFound

variable (hf : GrowthFound A size h k phys virt k₁)
include hf

/-- **All of the region is mapped** if there are pages for all of the tables. -/
lemma filled (henough : missingTables A (growKind size) k.mem virt (growCount size) ≤
    (A.freePages k₁.pma).ncard) :
    ∃ k', heapGrowMemory A size k = some (virt, k') ∧
      ∀ v, virt ≤ v → v < virt + growPages size * pageSize →
        A.walk k'.mem v = some ⟨phys + (v - virt), heapRights⟩ := by
  obtain ⟨k', hk', -, -, hon⟩ := hf.mapped henough
  exact ⟨k', by rw [hf.eq, hk']; rfl, hon⟩

/-- **A page of the region is mapped as before** if there are not. -/
lemma short (hshort : (A.freePages k₁.pma).ncard <
    missingTables A (growKind size) k.mem virt (growCount size)) :
    ∃ k', heapGrowMemory A size k = some (virt, k') ∧
      ∃ i < growPages size,
        A.walk k'.mem (virt + i * pageSize) = A.walk k.mem (virt + i * pageSize) := by
  obtain ⟨hattr, -, hpresent⟩ := attributeFlags_heap (.inl rfl)
  rw [← hf.mem] at hshort
  obtain ⟨k', hk', -, -, i, hi, hsame⟩ := hf.tables.mapPages_short _ hf.virt_dvd hf.phys_dvd
    hf.canonical_loop hf.phys_le_loop hattr hpresent hshort
  obtain ⟨c, hc⟩ := pageSize_dvd_growKind size
  have hcount := growCount_mul size
  have hlt := Nat.mul_lt_mul_of_pos_right hi (growKind size).size_pos
  rw [hcount] at hlt
  have hpage : i * (growKind size).size = i * c * pageSize := by
    rw [hc, Nat.mul_comm pageSize, Nat.mul_assoc]
  rw [hpage] at hlt hsame
  rw [hf.mem] at hsame
  exact ⟨k', by rw [hf.eq, hk']; rfl, i * c, Nat.lt_of_mul_lt_mul_right hlt, hsame⟩

end GrowthFound

/-! ## All or nothing -/

end Cuore
