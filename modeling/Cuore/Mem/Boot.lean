import Cuore.Mem.Cmm.Init
import Cuore.Mem.Heap.Kernel

/-!
# Memory at boot

The boot core calls `cmm_init`, `pma_init`, `vmm_init`, `heap_init` and `cmm_migrate_to_heap`.  What
the runs of the memory managers and of the heap start from is what these make of the map of the
bootloader (`LimineMap`) and of its page tables (`BootTables`).

`memory_boot` says what there is after `vmm_init`: the invariant of the memory managers holds, and
the free pages are the usable pages of the bootloader less the array of the map and the bitmap.
`kernel_boot` goes on to the heap and the migration.  Afterwards the map can be repainted, and says
of each address what the bootloader said.  The pages of the first array are usable again in the map,
but not in the page allocator.
-/

namespace Cuore

/-! ## The functions -/

/-- `vmm_pool_end`. -/
def vmmPoolEnd (level : ℕ) : ℕ := if level = 5 then 0xFFFFFFFFFFE00000 else 0xFFFFF00000000000

/-- `cmm_init`, `pma_init` and `vmm_init`; `none` is a panic.  They write to usable memory only, and
`m` is memory afterwards. -/
def memoryBoot (A : AddressSpace) (hhdmOffset : ℕ) (entries : List LimineEntry)
    (hdr : ℕ → PmaFreeBlock) (m : Memory) : Option (CmmBoot × KernelMemory) := do
  let c ← cmmInit hhdmOffset entries
  let pma ← pmaInit c.internalMap hdr
  some (c, ⟨pma, vmmInit hhdmOffset (cmmGetRamTop2mbAligned c) A.levels, m⟩)

/-- What the bootloader promises of its page tables, and of the address of the direct map; and what is
assumed of the size of memory (`room`): there is room for all of it behind the direct map, and as
much behind the end of the pool.  With four levels this is memory below 16 TiB.  With five levels it
is memory below 2 MiB, so that these machines are left out. -/
structure BootTables (A : AddressSpace) (hhdmOffset : ℕ) (entries : List LimineEntry) (m : Memory) :
    Prop where
  separate : Separate m 512 (A.levels - 1) A.top
  plain : AllEntries PlainEntry m 512 (A.levels - 1) A.top
  outside : ∀ x ∈ A.tables m, ∀ e ∈ entries, e.type = .usable → x < e.base ∨ e.limit ≤ x
  room : ∀ e ∈ entries, e.type = .usable →
    hhdmOffset + alignUp pageSize2mb e.limit ≤ vmmPoolEnd A.levels ∧
      vmmPoolEnd A.levels + e.limit < word
  canonical : ∀ v, hhdmOffset ≤ v → v < vmmPoolEnd A.levels → Canonical A.levels v

variable {A : AddressSpace} {entries : List LimineEntry} {e₀ : LimineEntry} {hhdm : ℕ}
  {hdr : ℕ → PmaFreeBlock} {m : Memory} {c c' : CmmBoot} {k k' : KernelMemory}

/-! ## The top of memory -/

/-- The top of memory is the end of a usable region. -/
lemma exists_cmmGetRamTop {regions : List CmmRegion} {r : CmmRegion} (hr : r ∈ regions)
    (hu : r.type = .usable) :
    ∃ r' ∈ regions, r'.type = .usable ∧ cmmGetRamTop regions = r'.limit := by
  have hle := cmmGetRamTop_le_iff.mp (le_refl (cmmGetRamTop regions))
  by_contra hnone
  push Not at hnone
  have hlt : ∀ r' ∈ regions, r'.type = .usable → r'.limit ≤ cmmGetRamTop regions - 1 := by
    intro r' hr' hu'
    have := hle r' hr' hu'
    have := hnone r' hr' hu'
    omega
  have hzero := cmmGetRamTop_le_iff.mpr hlt
  have := hle r hr hu
  have := hnone r hr hu
  omega

namespace CmmAtBoot

/-- The top of memory is in a usable entry. -/
lemma ramTop_le (h : CmmAtBoot hhdm entries e₀ c) (hmap : LimineMap entries) :
    0 < c.maxRamAddr ∧ ∃ e ∈ entries, e.type = .usable ∧ c.maxRamAddr ≤ e.limit := by
  have hrest : (e₀.base + alignUp pageSize (64 * entries.length),
      e₀.length - alignUp pageSize (64 * entries.length), CmmType.usable) ∈
        c.internalMap.map CmmRegion.extent := by
    rw [h.made.regions, List.mem_flatMap]
    refine ⟨e₀, h.mem, ?_⟩
    rw [LimineEntry.pieces, if_pos rfl]
    exact List.mem_cons_of_mem _ List.mem_cons_self
  obtain ⟨r, hr, hextent⟩ := List.mem_map.mp hrest
  have hend : r.limit = e₀.limit := by
    have hroom := h.room
    have hbase : r.base = _ := congrArg (·.1) hextent
    have hlength : r.length = _ := congrArg (·.2.1) hextent
    rw [CmmRegion.limit, hbase, hlength, LimineEntry.limit]
    dsimp only
    omega
  obtain ⟨r', hr', hu, htop⟩ := exists_cmmGetRamTop hr (congrArg (·.2.2) hextent)
  obtain ⟨e, he, hx⟩ := h.exists_piece hr'
  obtain ⟨-, hstop, hue⟩ := h.piece_bounds hmap he hx
  refine ⟨?_, e, he, (hue hu).1, h.made.ramTop.trans_le (htop.trans_le hstop)⟩
  have hle := cmmGetRamTop_le_iff.mp le_rfl r hr (congrArg (·.2.2) hextent)
  have hpos := hmap.length_pos e₀ h.mem
  rw [hend, LimineEntry.limit, ← h.made.ramTop] at hle
  omega

/-- The pool of `vmm_init`. -/
lemma poolFits (h : CmmAtBoot hhdm entries e₀ c) (hmap : LimineMap entries)
    (htables : BootTables A hhdm entries m) (htotal : A.totalPages = c.maxRamAddr / pageSize) :
    PoolFits A (vmmInit hhdm (cmmGetRamTop2mbAligned c) A.levels) ∧
      VmmInv (vmmInit hhdm (cmmGetRamTop2mbAligned c) A.levels) [] := by
  obtain ⟨hpos, e, he, hu, htop⟩ := h.ramTop_le hmap
  obtain ⟨hbase, hroom⟩ := htables.room e he hu
  have hend : vmmPoolEnd A.levels < word := (Nat.le_add_right _ _).trans_lt hroom
  have hup : alignUp pageSize2mb c.maxRamAddr ≤ alignUp pageSize2mb e.limit := alignUp_mono htop
  have hbelow : e.limit ≤ 2 ^ 48 := hmap.below e he hu
  -- rounding up does not wrap
  have haligned : cmmGetRamTop2mbAligned c = alignUp pageSize2mb c.maxRamAddr := by
    have hlt : c.maxRamAddr + pageSize2mb - 1 < word := by
      simp only [pageSize2mb, word] at *
      omega
    have hsum : wsub (wadd c.maxRamAddr pageSize2mb) 1 = c.maxRamAddr + pageSize2mb - 1 := by
      rw [wsub_wadd_one (Nat.add_pos_right _ (by decide)), Nat.mod_eq_of_lt hlt]
    have hmask : (c.maxRamAddr + pageSize2mb - 1) &&& wnot (pageSize2mb - 1) =
        alignDown (2 ^ 21) (c.maxRamAddr + pageSize2mb - 1) :=
      and_wnot_pred (k := 21) (by decide) hlt
    rw [cmmGetRamTop2mbAligned, hsum, hmask]
    rfl
  have hpool : wadd hhdm (cmmGetRamTop2mbAligned c) =
      hhdm + alignUp pageSize2mb c.maxRamAddr := by
    rw [haligned, wadd_of_lt (by omega)]
  have hle : c.maxRamAddr ≤ alignUp pageSize2mb c.maxRamAddr := le_alignUp (by decide) _
  refine ⟨⟨?_, ?_, ?_, fun v hlow hhigh => ?_⟩, vmmInv_init ?_⟩
  · change wadd hhdm (cmmGetRamTop2mbAligned c) ≤ vmmPoolEnd A.levels
    omega
  · change pageSize2mb ∣ vmmPoolEnd A.levels
    rw [vmmPoolEnd]
    split_ifs <;> decide
  · change vmmPoolEnd A.levels + A.totalPages * pageSize < word
    have hpages : A.totalPages * pageSize ≤ c.maxRamAddr := by
      rw [htotal]
      exact Nat.div_mul_le_self _ _
    omega
  · change wadd hhdm (cmmGetRamTop2mbAligned c) ≤ v at hlow
    exact htables.canonical v (by omega) hhigh
  · omega

end CmmAtBoot

/-! ## The memory managers -/

/-- The pages that are free at boot: usable ones, less the array of the map and the bitmap. -/
def FreeAtBoot (entries : List LimineEntry) (e₀ : LimineEntry) (c : CmmBoot) (r₀ : CmmRegion)
    (p : ℕ) : Prop :=
  p ≠ 0 ∧ (∃ e ∈ entries, e.type = .usable ∧ e.base ≤ p * pageSize ∧ p * pageSize < e.limit) ∧
    ¬CmmAtBoot.InTable entries e₀ (p * pageSize) ∧
      ¬(r₀.base ≤ p * pageSize ∧
        p * pageSize < r₀.base + pmaBitmapReserved (c.maxRamAddr / pageSize))

/-- The usable pages of the map. -/
lemma CmmAtBoot.usablePage_iff {r₀ : CmmRegion} {p : ℕ} (h : CmmAtBoot hhdm entries e₀ c)
    (hmap : LimineMap entries) :
    UsablePage c.internalMap r₀ p ↔ FreeAtBoot entries e₀ c r₀ p := by
  have htype : (∃ r ∈ c.internalMap, r.type = .usable ∧ r.base ≤ p * pageSize ∧
      p * pageSize < r.limit) ↔ HasType c.internalMap (p * pageSize) .usable := by
    simp only [HasType, CmmRegion.Covers, and_comm]
  have hentry : HasType c.internalMap (p * pageSize) .usable ↔ (∃ e ∈ entries,
      e.type = .usable ∧ e.base ≤ p * pageSize ∧ p * pageSize < e.limit) ∧
        ¬InTable entries e₀ (p * pageSize) := by
    rw [h.hasType_iff hmap]
    constructor
    · rintro ⟨e, he, hin, hu⟩
      split_ifs at hu with htable
      exact ⟨⟨e, he, cmmTranslateLimineType_eq_usable.mp hu.symm, hin⟩, htable⟩
    · rintro ⟨⟨e, he, hu, hin⟩, htable⟩
      refine ⟨e, he, hin, ?_⟩
      rw [if_neg htable, hu]
      rfl
  rw [UsablePage, FreeAtBoot, htype, hentry, h.made.ramTop, and_assoc]

/-- What the managers start from. -/
lemma memoryBoot_spec (hmap : LimineMap entries) (hhdm_lt : hhdm < word)
    (htables : BootTables A hhdm entries m)
    (heq : memoryBoot A hhdm entries hdr m = some (c, k))
    (htotal : A.totalPages = c.maxRamAddr / pageSize) :
    ∃ e₀ r₀, CmmAtBoot hhdm entries e₀ c ∧ pmaBitmapRegion c.internalMap = some r₀ ∧
      MemoryInv A k [] ∧ ∀ p, p ∈ A.freePages k.pma ↔ FreeAtBoot entries e₀ c r₀ p := by
  obtain ⟨c, hc, heq⟩ := Option.bind_eq_some_iff.mp heq
  obtain ⟨pma, hinit, heq⟩ := Option.bind_eq_some_iff.mp heq
  obtain ⟨rfl, rfl⟩ := Prod.mk.inj (Option.some.inj heq)
  obtain ⟨e₀, h⟩ := cmmInit_made hmap hhdm_lt hc
  obtain ⟨hum, haligned⟩ := h.usableMap hmap
  obtain ⟨hpool, hvmm⟩ := h.poolFits hmap htables htotal
  rw [h.made.ramTop] at htotal
  have hwell : PmaWellFormed A.totalPages pma := by
    rw [htotal]
    exact PmaRun.wellFormed hum hinit .init
  obtain ⟨r₀, hr₀⟩ : ∃ r₀, pmaBitmapRegion c.internalMap = some r₀ := by
    cases hroom : pmaBitmapRegion c.internalMap with
    | some r₀ => exact ⟨r₀, rfl⟩
    | none =>
      rw [pmaBitmapRegion] at hroom
      rw [pmaInit] at hinit
      dsimp only at hinit
      rw [hroom] at hinit
      exact absurd hinit (by simp)
  obtain ⟨pma', free, hinit', -, hexact, hclear⟩ := pmaInit_spec hum hdr hr₀
  obtain rfl := Option.some.inj (hinit.symm.trans hinit')
  have hbit : ∀ p, pma.bitmap p = false ↔ FreeAtBoot entries e₀ c r₀ p := fun p => by
    rw [hclear, hexact, exists_regionAdds_iff_of_usable hum haligned hr₀, h.usablePage_iff hmap]
  have hfree : ∀ p, p ∈ A.freePages pma ↔ FreeAtBoot entries e₀ c r₀ p := by
    intro p
    refine ⟨fun hp => (hbit p).mp hp.2, fun hp => ⟨?_, (hbit p).mpr hp⟩⟩
    -- a usable page is below the top of memory
    obtain ⟨-, ⟨r, hr, hu, -, hlt⟩, -⟩ := (h.usablePage_iff hmap).mpr hp
    obtain ⟨hbase, hlength⟩ := haligned r hr hu
    have htop : r.limit / pageSize ≤ A.totalPages := by
      rw [htotal]
      exact Nat.div_le_div_right (cmmGetRamTop_le_iff.mp le_rfl r hr hu)
    have hlimit : r.limit / pageSize * pageSize = r.limit :=
      Nat.div_mul_cancel (Nat.dvd_add hbase hlength)
    have hpage : p < r.limit / pageSize := by
      rw [← hlimit] at hlt
      exact Nat.lt_of_mul_lt_mul_right hlt
    exact hpage.trans_le htop
  refine ⟨e₀, r₀, h, hr₀, ⟨hwell, hvmm, hpool, htables.separate, htables.plain, ?_⟩, hfree⟩
  -- no table is in a usable page
  intro x hx hp
  obtain ⟨-, ⟨e, he, hu, hle, hlt⟩, -⟩ := (hfree _).mp hp
  obtain ⟨hbase, hlength⟩ := hmap.aligned e he hu
  have hlimit : pageSize ∣ e.limit := Nat.dvd_add hbase hlength
  have hxe := htables.outside x hx e he hu
  simp only [pageSize] at hle hlt hlimit
  omega

/-- **What boot makes of memory.**  The managers start with their invariant.  The array of the map
is at the start of a usable entry and has room for the map, which says of each address what the
entries say, except that the array is early memory of the kernel.  The free pages are the usable
ones less page 0, the array and the bitmap. -/
theorem memory_boot (hmap : LimineMap entries) (hhdm_lt : hhdm < word)
    (htables : BootTables A hhdm entries m)
    (heq : memoryBoot A hhdm entries hdr m = some (c, k))
    (htotal : A.totalPages = c.maxRamAddr / pageSize) :
    MemoryInv A k [] ∧ ∃ e₀ ∈ entries, ∃ r₀ ∈ c.internalMap, e₀.type = .usable ∧
      r₀.type = .usable ∧ 32 * c.internalCapacity ≤ alignUp pageSize (64 * entries.length) ∧
      alignUp pageSize (64 * entries.length) ≤ e₀.length ∧
      c.internalMap.length ≤ c.internalCapacity ∧
      (∀ a ty, HasType c.internalMap a ty ↔ ∃ e ∈ entries, (e.base ≤ a ∧ a < e.limit) ∧
        ty = if CmmAtBoot.InTable entries e₀ a then .kernelEarly
          else cmmTranslateLimineType e.type) ∧
      ∀ p, p ∈ A.freePages k.pma ↔ FreeAtBoot entries e₀ c r₀ p := by
  obtain ⟨e₀, r₀, h, hr₀, hinv, hfree⟩ := memoryBoot_spec hmap hhdm_lt htables heq htotal
  obtain ⟨hu₀, -⟩ : r₀.type = .usable ∧ _ := by simpa using List.find?_some hr₀
  obtain ⟨-, hfits, hroom⟩ := h.fits hmap
  exact ⟨hinv, e₀, h.mem, r₀, List.mem_of_find?_eq_some hr₀, h.usable, hu₀, hroom, h.room, hfits,
    fun a ty => h.hasType_iff hmap, hfree⟩

/-- A machine with 20 usable pages. -/
def smallEntries : List LimineEntry :=
  [⟨0, 0x100000, .reserved⟩, ⟨0x100000, 20 * 4096, .usable⟩]

lemma limineMap_smallEntries : LimineMap smallEntries := by
  refine ⟨by decide, by decide, by decide, by decide, by decide, ?_⟩
  simp [smallEntries, LimineEntry.limit]

/-- Its page tables are empty. -/
lemma bootTables_small :
    BootTables smallSpace 0xFFFF800000000000 smallEntries (fun _ => 0) := by
  obtain ⟨htables, hsep, hplain⟩ := smallSpace.zeroed
  refine ⟨hsep, hplain, fun x hx => ?_, by decide, fun v => smallSpace_canonical⟩
  rw [htables, Set.mem_singleton_iff] at hx
  subst hx
  decide

/-- The machine after `vmm_init`. -/
def smallMemory : Option (CmmBoot × KernelMemory) :=
  memoryBoot smallSpace 0xFFFF800000000000 smallEntries zeroHdr (fun _ => 0)

lemma smallMemory_total {c : CmmBoot} {k : KernelMemory} (heq : smallMemory = some (c, k)) :
    smallSpace.totalPages = c.maxRamAddr / pageSize := by
  have hvalue : smallMemory.map (fun r => r.1.maxRamAddr / pageSize) = some 276 := by
    decide +kernel
  rw [heq, Option.map_some] at hvalue
  exact (Option.some.inj hvalue).symm

/-- The usable entry. -/
lemma smallEntries_usable {e : LimineEntry} (he : e ∈ smallEntries) (hu : e.type = .usable) :
    e = ⟨0x100000, 20 * 4096, .usable⟩ := by
  rcases List.mem_cons.mp he with rfl | he
  · cases hu
  · exact List.mem_singleton.mp he

/-- The machine with 20 usable pages. -/
theorem memory_boot_small : ∃ c k, smallMemory = some (c, k) ∧ MemoryInv smallSpace k [] ∧
    ∃ r₀ ∈ c.internalMap, r₀.type = .usable ∧ 32 * c.internalCapacity ≤ 4096 ∧
      c.internalMap.length ≤ c.internalCapacity ∧
      (∀ a ty, HasType c.internalMap a ty ↔ ∃ e ∈ smallEntries, (e.base ≤ a ∧ a < e.limit) ∧
        ty = if CmmAtBoot.InTable smallEntries ⟨0x100000, 20 * 4096, .usable⟩ a then .kernelEarly
          else cmmTranslateLimineType e.type) ∧
      ∀ p, p ∈ smallSpace.freePages k.pma ↔
        FreeAtBoot smallEntries ⟨0x100000, 20 * 4096, .usable⟩ c r₀ p := by
  obtain ⟨⟨c, k⟩, heq⟩ : ∃ r, smallMemory = some r :=
    Option.isSome_iff_exists.mp (by decide +kernel)
  obtain ⟨hinv, e₀, he₀, r₀, hr₀, hu, hu₀, hcap, -, hfits, htypes, hfree⟩ :=
    memory_boot limineMap_smallEntries (by decide) bootTables_small heq (smallMemory_total heq)
  obtain rfl := smallEntries_usable he₀ hu
  exact ⟨c, k, heq, hinv, r₀, hr₀, hu₀, hcap, hfits, htypes, hfree⟩

/-! ## The heap and the map -/

/-- The size that `cmm_migrate_to_heap` asks for. -/
def cmmHeapBytes (c : CmmBoot) : ℕ := wmul (wmul c.internalCapacity 2) 32

lemma CmmAtBoot.heapBytes_eq (h : CmmAtBoot hhdm entries e₀ c) (hmap : LimineMap entries)
    {newMap : ℕ} (heq : cmmMigrateToHeap newMap c = some c') :
    cmmHeapBytes c = 32 * c'.internalCapacity ∧ cmmHeapBytes c + 15 < word := by
  obtain ⟨hcap, -⟩ := h.migrated_fits hmap heq
  obtain ⟨-, rfl⟩ := h.migrate heq
  change wmul c.internalCapacity 2 = _ at hcap
  have hsmall : 64 * entries.length ≤ 2 ^ 48 := by
    have hle := le_alignUp pageSize_pos (64 * entries.length)
    have hroom := h.room
    have hbelow := hmap.below e₀ h.mem h.usable
    simp only [LimineEntry.limit] at hbelow
    omega
  rw [cmmHeapBytes, hcap, wmul_of_lt (by simp only [word]; omega)]
  simp only [word]
  omega

/-- What `malloc` returns has room for the request. -/
lemma KernelHeapRun.malloc_room {h h' : Heap} {held grants : List ℕ} {size q : ℕ}
    (hr : KernelHeapRun A HeapOp.Safe h held k)
    (hcall : KernelHeapCall A (.malloc size grants) h held k q h' k') (hq : q ≠ 0)
    (hsize : size + 15 < word) : size ≤ capacity h' q := by
  obtain ⟨hrun, live, hb⟩ := hr.heapRun
  obtain ⟨rs, F, hh⟩ := hrun.inOrder
  obtain ⟨hallowed, -⟩ := hcall.step hh.1 hb
  obtain ⟨rs', F', hi', -, ⟨hzero, -⟩ | ⟨-, -, n, hn, hlive⟩⟩ :=
    hh.1.malloc_some hallowed.2 hcall.run
  · exact absurd hzero hq
  · rw [hi'.capacity_eq ((hlive q n).mpr (.inr ⟨rfl, rfl⟩))]
    rwa [min_eq_left (le_alignHeap hsize)] at hn

/-- **What boot makes of the heap and of the map.**  The heap starts a run of the kernel, in which
the map has been moved to an allocation with room for it.  The map says of each address what the
bootloader said.  If no entries overlap and the first array has not filled its entry, the map can be
repainted.  The pages of the first array are usable in the map, but not free. -/
theorem kernel_boot {k₀ : KernelMemory} {mem : Memory} {h h' : Heap} {grants : List ℕ}
    {heapSize newMap : ℕ} (hmap : LimineMap entries) (hhdm_lt : hhdm < word)
    (htables : BootTables A hhdm entries m)
    (hboot : memoryBoot A hhdm entries hdr m = some (c, k₀))
    (htotal : A.totalPages = c.maxRamAddr / pageSize)
    (hheap : kernelHeapInit A mem heapSize k₀ = some (h, k))
    (hleft : (A.freePages k.pma).Nonempty)
    (hcall : KernelHeapCall A (.malloc (cmmHeapBytes c) grants) h [] k newMap h' k')
    (hmigrate : cmmMigrateToHeap newMap c = some c') :
    KernelHeapRun A HeapOp.Safe h' [newMap] k' ∧
      c'.internalMap.length ≤ c'.internalCapacity ∧
      32 * c'.internalCapacity ≤ capacity h' newMap ∧
      (∀ a ty, HasType c'.internalMap a ty ↔ ∃ e ∈ entries, (e.base ≤ a ∧ a < e.limit) ∧
        ty = cmmTranslateLimineType e.type) ∧
      ∃ e₀ ∈ entries, e₀.type = .usable ∧
        ((entries.Pairwise fun e e' => e.limit ≤ e'.base) →
          alignUp pageSize (64 * entries.length) < e₀.length → c'.toCmm.Wf) ∧
        ∀ p, CmmAtBoot.InTable entries e₀ (p * pageSize) →
          HasType c'.internalMap (p * pageSize) .usable ∧ p ∉ A.freePages k'.pma := by
  obtain ⟨e₀, r₀, hc, -, hinv, hfree⟩ := memoryBoot_spec hmap hhdm_lt htables hboot htotal
  obtain ⟨hnull, -⟩ := hc.migrate hmigrate
  obtain ⟨hbytes, hwrap⟩ := hc.heapBytes_eq hmap hmigrate
  obtain ⟨-, hfits⟩ := hc.migrated_fits hmap hmigrate
  have hrun : KernelHeapRun A HeapOp.Safe h [] k := .init hinv hheap hleft
  have hnext : KernelHeapRun A HeapOp.Safe h' [newMap] k' := by
    have hr := hrun.call hcall trivial
    rwa [HeapOp.heldAfter, if_neg hnull] at hr
  refine ⟨hnext, hfits, hbytes ▸ hrun.malloc_room hcall hnull hwrap,
    fun a ty => hc.migrated_hasType_iff hmap hmigrate, e₀, hc.mem, hc.usable,
    fun hapart hrest => hc.migrated_wf hmap hmigrate (hc.sortedMap hmap hapart hrest),
    fun p hp => ⟨?_, fun hmem => ?_⟩⟩
  · refine (hc.migrated_hasType_iff hmap hmigrate).mpr ⟨e₀, hc.mem, ?_, ?_⟩
    · have hroom := hc.room
      simp only [CmmAtBoot.InTable, LimineEntry.limit] at hp ⊢
      omega
    · rw [hc.usable]
      rfl
  · -- no page has become free
    obtain ⟨htakes, -⟩ := hinv.heapInit hheap hleft
    obtain ⟨hheapRun, live, hb⟩ := hrun.heapRun
    obtain ⟨rs, F, hh⟩ := hheapRun.inOrder
    obtain ⟨-, htakes', -⟩ := hcall.step hh.1 hb
    exact ((hfree p).mp (AddressSpace.freePages_subset (htakes.trans htakes') hmem)).2.2.1 hp

/-- What the machine does until the migration. -/
def smallMigration :
    Option (CmmBoot × CmmBoot × KernelMemory × Heap × KernelMemory × ℕ × Heap) := do
  let (c, k₀) ← smallMemory
  let (h, k) ← kernelHeapInit smallSpace (fun _ => 0) 0x1000 k₀
  let (newMap, h') ← malloc [] h (cmmHeapBytes c)
  let c' ← cmmMigrateToHeap newMap c
  some (c, c', k₀, h, k, newMap, h')

/-- The machine goes on to the migration. -/
theorem kernel_boot_small : ∃ c c' k h p, smallMemory.map Prod.fst = some c ∧
    KernelHeapRun smallSpace HeapOp.Safe h [p] k ∧ cmmMigrateToHeap p c = some c' ∧
      c'.internalMap.length ≤ c'.internalCapacity ∧ 32 * c'.internalCapacity ≤ capacity h p ∧
      (∀ a ty, HasType c'.internalMap a ty ↔ ∃ e ∈ smallEntries, (e.base ≤ a ∧ a < e.limit) ∧
        ty = cmmTranslateLimineType e.type) ∧
      c'.toCmm.Wf ∧
      ∀ p, CmmAtBoot.InTable smallEntries ⟨0x100000, 20 * 4096, .usable⟩ (p * pageSize) →
        HasType c'.internalMap (p * pageSize) .usable ∧ p ∉ smallSpace.freePages k.pma := by
  obtain ⟨⟨c, c', k₀, h, k, p, h'⟩, hsmall⟩ : ∃ r, smallMigration = some r :=
    Option.isSome_iff_exists.mp (by decide +kernel)
  have hvalue : smallMigration.map (fun r => (r.2.2.2.2.1.pma.bitmap 275,
      mallocRequest r.2.2.2.1 (cmmHeapBytes r.1),
        (searchHeap r.2.2.2.1 256).map fun curr => decide (curr ≠ 0),
          droppedPage r.2.2.2.1 r.2.2.2.2.2.2)) = some (false, some 256, some true, none) := by
    decide +kernel
  rw [hsmall, Option.map_some] at hvalue
  obtain ⟨hleft, hvalue⟩ := Prod.mk.inj (Option.some.inj hvalue)
  obtain ⟨hrequest, hvalue⟩ := Prod.mk.inj hvalue
  obtain ⟨hfound, hdrop⟩ := Prod.mk.inj hvalue
  obtain ⟨curr, hsearch, hcurr⟩ := Option.map_eq_some_iff.mp hfound
  simp only [smallMigration, Option.bind_eq_bind, Option.bind_eq_some_iff, Prod.exists,
    Option.some.injEq, Prod.mk.injEq] at hsmall
  obtain ⟨c, k₀, hboot, h, k, hheap, p, h', hmalloc, c', hmigrate, rfl, rfl, rfl, rfl, rfl, rfl,
    rfl⟩ := hsmall
  have hcall : KernelHeapCall smallSpace (.malloc (cmmHeapBytes c) []) h [] k p h' k :=
    .quiet (Nat.mod_lt _ (by decide))
      (.inr ⟨256, curr, hrequest, hsearch, of_decide_eq_true hcurr⟩) rfl hmalloc
      (by rw [releaseDropped, hdrop])
  obtain ⟨hrun, hfits, hroom, htypes, e₀, he₀, hu, hwf, hlost⟩ := kernel_boot
    limineMap_smallEntries (by decide) bootTables_small hboot (smallMemory_total hboot) hheap
    ⟨275, by decide, hleft⟩ hcall hmigrate
  obtain rfl := smallEntries_usable he₀ hu
  exact ⟨c, c', k, h', p, by rw [hboot]; rfl, hrun, hmigrate, hfits, hroom, htypes,
    hwf (by decide) (by decide), hlost⟩

end Cuore
