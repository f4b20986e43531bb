import Cuore.Mem.Cmm
import Cuore.Mem.Pma.Init

/-!
# How the core memory map is made

`cmm_init` copies the map of the bootloader into an array, for which it carves room out of the first
usable entry that is large enough.  The region of the array is `CMM_KERNEL_EARLY` until
`cmm_migrate_to_heap` has moved the map to the heap, and usable afterwards.

The bootloader promises little of the entries that are not usable: they may overlap
(`LimineMap`).  That is enough: the map says of each address what the entries say, except for the
array (`cmmInit_hasType`), it fits into the array (`cmmInit_fits`), and its usable regions are as
`pma_init` expects them (`cmmInit_usableMap`).
-/

namespace Cuore

/-! ## The entries of the bootloader -/

/-- `LIMINE_MEMMAP_*`; `other` is a number beyond `type_lookup`. -/
inductive LimineType
  | usable | reserved | acpiReclaimable | acpiNvs | badMemory | bootloaderReclaimable
  | executableAndModules | framebuffer | reservedMapped | other
  deriving DecidableEq

/-- `struct limine_memmap_entry`. -/
structure LimineEntry where
  base : ℕ
  length : ℕ
  type : LimineType
  deriving DecidableEq

/-- The end of an entry. -/
def LimineEntry.limit (e : LimineEntry) : ℕ := e.base + e.length

/-- **What the bootloader promises**: the entries are sorted and not empty, usable ones consist of
pages below `2 ^ 48` and overlap no other, and there are not so many that their number wraps. -/
structure LimineMap (entries : List LimineEntry) : Prop where
  few : 64 * entries.length + 4095 < word
  length_pos : ∀ e ∈ entries, 0 < e.length
  limit_lt : ∀ e ∈ entries, e.limit < word
  below : ∀ e ∈ entries, e.type = .usable → e.limit ≤ 2 ^ 48
  aligned : ∀ e ∈ entries, e.type = .usable → pageSize ∣ e.base ∧ pageSize ∣ e.length
  apart : entries.Pairwise fun e e' =>
    e.base ≤ e'.base ∧ (e.type = .usable ∨ e'.type = .usable → e.limit ≤ e'.base)

/-! ## The functions -/

/-- `cmm_translate_limine_type`. -/
def cmmTranslateLimineType : LimineType → CmmType
  | .usable => .usable
  | .reserved => .reserved
  | .acpiReclaimable => .acpiReclaimable
  | .acpiNvs => .acpiNvs
  | .badMemory => .bad
  | .bootloaderReclaimable => .bootloaderReclaimable
  | .executableAndModules => .kernelAndModules
  | .framebuffer => .framebuffer
  | .reservedMapped => .reservedMapped
  | .other => .unknown

/-- The state of `cmm.c` at boot; `mapAddr` is the pointer `internal_map`. -/
structure CmmBoot extends Cmm where
  mapAddr : ℕ
  maxPhysAddr : ℕ
  maxRamAddr : ℕ

/-- `bytes_needed`. -/
def cmmBytesNeeded (requiredSlots : ℕ) : ℕ := wadd (wmul requiredSlots 32) 4095 &&& wnot 4095

/-- A round of the loop that fills the map. -/
def cmmAddEntry (hhdmOffset bytesNeeded : ℕ) (s : CmmBoot) (e : LimineEntry) : CmmBoot :=
  let (early, last) : List CmmRegion × CmmRegion :=
    if e.base = wsub s.mapAddr hhdmOffset then
      ([⟨s.nextId, e.base, bytesNeeded, .kernelEarly⟩],
        ⟨s.nextId + 1, wadd e.base bytesNeeded, wsub e.length bytesNeeded, .usable⟩)
    else ([], ⟨s.nextId, e.base, e.length, cmmTranslateLimineType e.type⟩)
  let stop := wadd last.base last.length
  { s with
    internalMap := s.internalMap ++ early ++ [last]
    nextId := last.id + 1
    maxPhysAddr := if stop > s.maxPhysAddr then stop else s.maxPhysAddr
    maxRamAddr := if last.type = .usable ∧ stop > s.maxRamAddr then stop else s.maxRamAddr }

/-- `cmm_init`; `none` is a panic. -/
def cmmInit (hhdmOffset : ℕ) (entries : List LimineEntry) : Option CmmBoot := do
  let requiredSlots := wmul entries.length 2
  let bytesNeeded := cmmBytesNeeded requiredSlots
  let e ← entries.find? fun e => e.type == .usable && decide (e.length ≥ bytesNeeded)
  let mapAddr := wadd e.base hhdmOffset
  if mapAddr = 0 then none
  else
    some (entries.foldl (cmmAddEntry hhdmOffset bytesNeeded)
      ⟨⟨[], requiredSlots, 1, false⟩, mapAddr, 0, 0⟩)

/-- `cmm_get_ram_top_2mb_aligned`. -/
def cmmGetRamTop2mbAligned (s : CmmBoot) : ℕ :=
  wsub (wadd s.maxRamAddr pageSize2mb) 1 &&& wnot (pageSize2mb - 1)

/-- `cmm_migrate_to_heap`, for which `malloc` returns `newMap`; `none` is a fault. -/
def cmmMigrateToHeap (newMap : ℕ) (s : CmmBoot) : Option CmmBoot :=
  if s.isHeapBacked then some s
  else if newMap = 0 then none
  else
    some { s with
      mapAddr := newMap
      internalCapacity := wmul s.internalCapacity 2
      isHeapBacked := true
      internalMap := s.internalMap.map fun r =>
        if r.type = .kernelEarly then { r with type := .usable } else r }

/-! ## The pieces of an entry -/

/-- What a region says, without its id. -/
def CmmRegion.extent (r : CmmRegion) : ℕ × ℕ × CmmType := (r.base, r.length, r.type)

/-- The regions that an entry becomes, with the array at `table`. -/
def LimineEntry.pieces (table bytes : ℕ) (e : LimineEntry) : List (ℕ × ℕ × CmmType) :=
  if e.base = table then
    [(e.base, bytes, .kernelEarly), (e.base + bytes, e.length - bytes, .usable)]
  else [(e.base, e.length, cmmTranslateLimineType e.type)]

/-- The map as it is after some of the entries. -/
structure CmmMade (entries : List LimineEntry) (table bytes : ℕ) (s : CmmBoot) : Prop where
  regions : s.internalMap.map CmmRegion.extent = entries.flatMap (LimineEntry.pieces table bytes)
  ids : s.internalMap.map CmmRegion.id = List.range' 1 s.internalMap.length
  next : s.nextId = s.internalMap.length + 1
  ramTop : s.maxRamAddr = cmmGetRamTop s.internalMap

variable {entries : List LimineEntry} {hhdm table bytes a : ℕ} {e e' : LimineEntry}
  {s c : CmmBoot} {ty : CmmType}

lemma cmmGetRamTop_append_singleton (regions : List CmmRegion) (r : CmmRegion) :
    cmmGetRamTop (regions ++ [r]) = if r.type = .usable ∧ r.limit > cmmGetRamTop regions then
      r.limit else cmmGetRamTop regions := by
  rw [cmmGetRamTop, List.foldl_append]
  rfl

/-- One entry. -/
lemma CmmMade.addEntry (h : CmmMade entries table bytes s) (htable : wsub s.mapAddr hhdm = table)
    (hlt : e.limit < word) (hroom : e.base = table → bytes ≤ e.length) :
    CmmMade (entries ++ [e]) table bytes (cmmAddEntry hhdm bytes s e) := by
  have hlimit : e.base + e.length < word := hlt
  by_cases hcarved : e.base = table
  · have hle := hroom hcarved
    have hbase : wadd e.base bytes = e.base + bytes := wadd_of_lt (by omega)
    have hlength : wsub e.length bytes = e.length - bytes := wsub_of_le hle (by omega)
    have hstop : wadd (e.base + bytes) (e.length - bytes) = e.base + bytes + (e.length - bytes) :=
      wadd_of_lt (by omega)
    simp only [cmmAddEntry, htable, if_pos hcarved, hbase, hlength, hstop]
    refine ⟨?_, ?_, ?_, ?_⟩
    · simp [h.regions, CmmRegion.extent, LimineEntry.pieces, if_pos hcarved]
    · simp [h.ids, h.next, List.range'_concat, Nat.add_comm 1]
    · simp [h.next]
    · have hearly : cmmGetRamTop (s.internalMap ++ [⟨s.nextId, e.base, bytes, .kernelEarly⟩]) =
          cmmGetRamTop s.internalMap := by
        rw [cmmGetRamTop_append_singleton, if_neg (by simp)]
      dsimp only
      rw [cmmGetRamTop_append_singleton, hearly, h.ramTop]
      simp only [CmmRegion.limit, true_and]
  · have hstop : wadd e.base e.length = e.base + e.length := wadd_of_lt hlimit
    simp only [cmmAddEntry, htable, if_neg hcarved, hstop]
    refine ⟨?_, ?_, ?_, ?_⟩
    · simp [h.regions, CmmRegion.extent, LimineEntry.pieces, if_neg hcarved]
    · simp [h.ids, h.next, List.range'_1_concat, Nat.add_comm 1]
    · simp [h.next]
    · dsimp only
      rw [List.append_nil, cmmGetRamTop_append_singleton, h.ramTop]
      rfl

/-- All entries. -/
lemma CmmMade.addEntries {done : List LimineEntry} (h : CmmMade done table bytes s)
    (htable : wsub s.mapAddr hhdm = table) (hlt : ∀ e ∈ entries, e.limit < word)
    (hroom : ∀ e ∈ entries, e.base = table → bytes ≤ e.length) :
    CmmMade (done ++ entries) table bytes (entries.foldl (cmmAddEntry hhdm bytes) s) := by
  induction entries generalizing done s with
  | nil => simpa using h
  | cons e entries ih =>
    rw [List.forall_mem_cons] at hlt hroom
    have hnext := ih (h.addEntry htable hlt.1 hroom.1) htable hlt.2 hroom.2
    rwa [List.append_assoc, List.singleton_append] at hnext

lemma foldl_cmmAddEntry (hhdm bytes : ℕ) (entries : List LimineEntry) (s : CmmBoot) :
    (entries.foldl (cmmAddEntry hhdm bytes) s).mapAddr = s.mapAddr ∧
      (entries.foldl (cmmAddEntry hhdm bytes) s).internalCapacity = s.internalCapacity ∧
      (entries.foldl (cmmAddEntry hhdm bytes) s).isHeapBacked = s.isHeapBacked := by
  induction entries generalizing s with
  | nil => exact ⟨rfl, rfl, rfl⟩
  | cons e entries ih => exact ih _

/-! ## The map of the bootloader -/

/-- A usable entry overlaps no other. -/
lemma LimineMap.apart_of_usable (hmap : LimineMap entries) (he : e ∈ entries) (he' : e' ∈ entries)
    (hu : e.type = .usable) : e = e' ∨ e.limit ≤ e'.base ∨ e'.limit ≤ e.base := by
  by_cases heq : e = e'
  · exact .inl heq
  · have hsymm : Std.Symm fun e e' : LimineEntry => e.type = .usable ∨ e'.type = .usable →
        e.limit ≤ e'.base ∨ e'.limit ≤ e.base := ⟨fun _ _ h hu => (h hu.symm).symm⟩
    have hsorted : entries.Pairwise fun e e' => e.type = .usable ∨ e'.type = .usable →
        e.limit ≤ e'.base ∨ e'.limit ≤ e.base := hmap.apart.imp fun h hu => .inl (h.2 hu)
    exact .inr (hsorted.forall he he' heq (.inl hu))

/-- No other entry starts where a usable one does. -/
lemma LimineMap.eq_of_base_eq (hmap : LimineMap entries) (he : e ∈ entries) (he' : e' ∈ entries)
    (hu : e.type = .usable) (hbase : e'.base = e.base) : e' = e := by
  have hpos := hmap.length_pos e he
  have hpos' := hmap.length_pos e' he'
  rcases hmap.apart_of_usable he he' hu with heq | hbefore | hbehind
  · exact heq.symm
  · simp only [LimineEntry.limit] at hbefore
    omega
  · simp only [LimineEntry.limit] at hbehind
    omega

/-- The bytes of the array, in whole pages. -/
lemma cmmBytesNeeded_eq {n : ℕ} (hn : 64 * n + 4095 < word) :
    cmmBytesNeeded (wmul n 2) = alignUp pageSize (64 * n) := by
  have hslots : wmul n 2 = n * 2 := wmul_of_lt (by omega)
  have hbytes : wmul (n * 2) 32 = 64 * n := by
    rw [wmul_of_lt (by omega)]
    omega
  have hmask : (64 * n + 4095) &&& wnot 4095 = alignDown (2 ^ 12) (64 * n + 4095) :=
    and_wnot_pred (k := 12) (by decide) hn
  rw [cmmBytesNeeded, hslots, hbytes, wadd_of_lt hn, hmask]
  rfl

/-- **What `cmm_init` makes**: the array is at the start of a usable entry with room for it. -/
structure CmmAtBoot (hhdm : ℕ) (entries : List LimineEntry) (e : LimineEntry) (c : CmmBoot) :
    Prop where
  mem : e ∈ entries
  usable : e.type = .usable
  room : alignUp pageSize (64 * entries.length) ≤ e.length
  mapAddr : c.mapAddr = wadd e.base hhdm
  capacity : c.internalCapacity = 2 * entries.length
  early : c.isHeapBacked = false
  made : CmmMade entries e.base (alignUp pageSize (64 * entries.length)) c

lemma cmmInit_made (hmap : LimineMap entries) (hhdm_lt : hhdm < word)
    (heq : cmmInit hhdm entries = some c) : ∃ e, CmmAtBoot hhdm entries e c := by
  obtain ⟨e, hfind, heq⟩ := Option.bind_eq_some_iff.mp heq
  dsimp only at heq
  split_ifs at heq
  obtain rfl := Option.some.inj heq
  rw [cmmBytesNeeded_eq hmap.few] at hfind ⊢
  obtain ⟨hu, hroom⟩ : e.type = .usable ∧ alignUp pageSize (64 * entries.length) ≤ e.length := by
    simpa using List.find?_some hfind
  have he := List.mem_of_find?_eq_some hfind
  obtain ⟨hmapAddr, hcap, hearly⟩ := foldl_cmmAddEntry hhdm
    (alignUp pageSize (64 * entries.length)) entries
    ⟨⟨[], wmul entries.length 2, 1, false⟩, wadd e.base hhdm, 0, 0⟩
  have hbase : e.base < word := (Nat.le_add_right _ _).trans_lt (hmap.limit_lt e he)
  have htable : wsub (wadd e.base hhdm) hhdm = e.base := by
    simp only [wsub, wadd, word] at hbase hhdm_lt ⊢
    omega
  have hslots : wmul entries.length 2 = 2 * entries.length := by
    have hfew := hmap.few
    rw [wmul_of_lt (by omega), Nat.mul_comm]
  have hstart : CmmMade [] e.base (alignUp pageSize (64 * entries.length))
      ⟨⟨[], wmul entries.length 2, 1, false⟩, wadd e.base hhdm, 0, 0⟩ := ⟨rfl, rfl, rfl, rfl⟩
  refine ⟨e, he, hu, hroom, hmapAddr, hcap.trans hslots, hearly, ?_⟩
  exact hstart.addEntries htable hmap.limit_lt fun e' he' hb =>
    hmap.eq_of_base_eq he he' hu hb ▸ hroom

/-! ## What the map says -/

lemma cmmTranslateLimineType_eq_usable {t : LimineType} :
    cmmTranslateLimineType t = .usable ↔ t = .usable := by
  cases t <;> simp [cmmTranslateLimineType]

/-- One entry becomes two regions, and each other one. -/
lemma LimineMap.length_pieces (hmap : LimineMap entries) (he : e ∈ entries)
    (hu : e.type = .usable) (bytes : ℕ) :
    (entries.flatMap (LimineEntry.pieces e.base bytes)).length = entries.length + 1 := by
  have hsingle : ∀ l : List LimineEntry, (∀ e' ∈ l, e'.base ≠ e.base) →
      (l.flatMap (LimineEntry.pieces e.base bytes)).length = l.length := by
    intro l hl
    induction l with
    | nil => rfl
    | cons e' l ih =>
      rw [List.forall_mem_cons] at hl
      rw [List.flatMap_cons, LimineEntry.pieces, if_neg hl.1, List.length_append, ih hl.2,
        List.length_singleton, List.length_cons, Nat.add_comm]
  obtain ⟨A, B, rfl⟩ := List.append_of_mem he
  obtain ⟨-, hB, hA⟩ := List.pairwise_append.mp hmap.apart
  have hfront := hsingle A fun e' he' hbase => by
    have hlimit := (hA e' he' e List.mem_cons_self).2 (.inr hu)
    have := hmap.length_pos e' (List.mem_append_left _ he')
    simp only [LimineEntry.limit] at hlimit
    omega
  have hback := hsingle B fun e' he' hbase => by
    have hlimit := ((List.pairwise_cons.mp hB).1 e' he').2 (.inl hu)
    have := hmap.length_pos e (List.mem_append_right _ List.mem_cons_self)
    simp only [LimineEntry.limit] at hlimit
    omega
  have hmid : (LimineEntry.pieces e.base bytes e).length = 2 := by
    rw [LimineEntry.pieces, if_pos rfl]
    rfl
  rw [List.flatMap_append, List.flatMap_cons, List.length_append, List.length_append, hfront,
    hback, hmid, List.length_append, List.length_cons]
  omega

/-- The pieces of an entry cover it. -/
lemma LimineMap.pieces_iff (hmap : LimineMap entries) (he : e ∈ entries) (hu : e.type = .usable)
    (hroom : bytes ≤ e.length) (he' : e' ∈ entries) :
    (∃ x ∈ e'.pieces e.base bytes, (x.1 ≤ a ∧ a < x.1 + x.2.1) ∧ x.2.2 = ty) ↔
      (e'.base ≤ a ∧ a < e'.limit) ∧ ty = if e.base ≤ a ∧ a < e.base + bytes then .kernelEarly
        else cmmTranslateLimineType e'.type := by
  by_cases hcarved : e'.base = e.base
  · obtain rfl := hmap.eq_of_base_eq he he' hu hcarved
    rw [LimineEntry.pieces, if_pos rfl, hu]
    simp only [List.mem_cons, List.not_mem_nil, or_false, exists_eq_or_imp, exists_eq_left,
      cmmTranslateLimineType, LimineEntry.limit]
    split_ifs with hin
    · constructor
      · rintro (⟨-, hty⟩ | ⟨hbehind, -⟩)
        · exact ⟨by omega, hty.symm⟩
        · omega
      · exact fun ⟨_, hty⟩ => .inl ⟨hin, hty.symm⟩
    · constructor
      · rintro (⟨hfront, -⟩ | ⟨hbehind, hty⟩)
        · exact absurd hfront hin
        · exact ⟨by omega, hty.symm⟩
      · exact fun ⟨hcover, hty⟩ => .inr ⟨by omega, hty.symm⟩
  · rw [LimineEntry.pieces, if_neg hcarved]
    simp only [List.mem_singleton, exists_eq_left]
    refine and_congr_right fun hcover => ?_
    have hout : ¬(e.base ≤ a ∧ a < e.base + bytes) := by
      have hcases := hmap.apart_of_usable he he' hu
      simp only [LimineEntry.limit] at hcases hcover
      rcases hcases with rfl | hbefore | hbehind
      · exact absurd rfl hcarved
      · omega
      · omega
    rw [if_neg hout]
    exact eq_comm

/-- Where the pieces of an entry are. -/
lemma LimineMap.piece_bounds {x : ℕ × ℕ × CmmType} (hmap : LimineMap entries) (he : e ∈ entries)
    (hu : e.type = .usable) (hroom : bytes ≤ e.length) (hbytes : pageSize ∣ bytes)
    (he' : e' ∈ entries) (hx : x ∈ e'.pieces e.base bytes) :
    e'.base ≤ x.1 ∧ x.1 + x.2.1 ≤ e'.limit ∧
      (x.2.2 = .usable → e'.type = .usable ∧ pageSize ∣ x.1 ∧ pageSize ∣ x.2.1) := by
  rw [LimineEntry.limit]
  by_cases hcarved : e'.base = e.base
  · obtain rfl := hmap.eq_of_base_eq he he' hu hcarved
    obtain ⟨hbase, hlength⟩ := hmap.aligned _ he hu
    rw [LimineEntry.pieces, if_pos rfl, List.mem_cons, List.mem_singleton] at hx
    rcases hx with rfl | rfl
    · exact ⟨le_rfl, by dsimp only; omega, fun hty => absurd hty (by simp)⟩
    · exact ⟨Nat.le_add_right _ _, by dsimp only; omega, fun _ => ⟨hu,
        Nat.dvd_add hbase hbytes, Nat.dvd_sub hlength hbytes⟩⟩
  · rw [LimineEntry.pieces, if_neg hcarved, List.mem_singleton] at hx
    subst hx
    refine ⟨le_rfl, le_rfl, fun hty => ?_⟩
    rw [cmmTranslateLimineType_eq_usable] at hty
    exact ⟨hty, hmap.aligned e' he' hty⟩

namespace CmmAtBoot

variable {e₀ : LimineEntry}

/-- The address is in the array. -/
def InTable (entries : List LimineEntry) (e₀ : LimineEntry) (a : ℕ) : Prop :=
  e₀.base ≤ a ∧ a < e₀.base + alignUp pageSize (64 * entries.length)

instance : Decidable (InTable entries e₀ a) := inferInstanceAs (Decidable (_ ∧ _))

/-- **The map says what the entries say**, except for the array. -/
lemma hasType_iff (h : CmmAtBoot hhdm entries e₀ c) (hmap : LimineMap entries) :
    HasType c.internalMap a ty ↔ ∃ e ∈ entries, (e.base ≤ a ∧ a < e.limit) ∧
      ty = if InTable entries e₀ a then .kernelEarly else cmmTranslateLimineType e.type := by
  have hextent : HasType c.internalMap a ty ↔ ∃ x ∈ c.internalMap.map CmmRegion.extent,
      (x.1 ≤ a ∧ a < x.1 + x.2.1) ∧ x.2.2 = ty := by
    simp [HasType, CmmRegion.Covers, CmmRegion.limit, CmmRegion.extent]
  rw [hextent, h.made.regions]
  constructor
  · rintro ⟨x, hx, hin⟩
    obtain ⟨e, he, hxe⟩ := List.mem_flatMap.mp hx
    exact ⟨e, he, (hmap.pieces_iff h.mem h.usable h.room he).mp ⟨x, hxe, hin⟩⟩
  · rintro ⟨e, he, hin⟩
    obtain ⟨x, hxe, hin⟩ := (hmap.pieces_iff h.mem h.usable h.room he).mpr hin
    exact ⟨x, List.mem_flatMap.mpr ⟨e, he, hxe⟩, hin⟩

/-- **The map fits into the array**, with one region more than there are entries. -/
lemma fits (h : CmmAtBoot hhdm entries e₀ c) (hmap : LimineMap entries) :
    c.internalMap.length = entries.length + 1 ∧ c.internalMap.length ≤ c.internalCapacity ∧
      32 * c.internalCapacity ≤ alignUp pageSize (64 * entries.length) := by
  have hlen : c.internalMap.length = entries.length + 1 := by
    rw [← List.length_map (f := CmmRegion.extent), h.made.regions,
      hmap.length_pieces h.mem h.usable]
  have hpos : 0 < entries.length := List.length_pos_of_mem h.mem
  have hle : 64 * entries.length ≤ alignUp pageSize (64 * entries.length) :=
    le_alignUp pageSize_pos _
  rw [hlen, h.capacity]
  omega

/-- Where the pieces of an entry are. -/
lemma piece_bounds {x : ℕ × ℕ × CmmType} (h : CmmAtBoot hhdm entries e₀ c)
    (hmap : LimineMap entries) (he : e ∈ entries)
    (hx : x ∈ e.pieces e₀.base (alignUp pageSize (64 * entries.length))) :
    e.base ≤ x.1 ∧ x.1 + x.2.1 ≤ e.limit ∧
      (x.2.2 = .usable → e.type = .usable ∧ pageSize ∣ x.1 ∧ pageSize ∣ x.2.1) :=
  hmap.piece_bounds h.mem h.usable h.room (dvd_alignUp _ _) he hx

/-- A relation between the regions, if it holds between the pieces. -/
lemma pairwise {R : ℕ × ℕ × CmmType → ℕ × ℕ × CmmType → Prop}
    (h : CmmAtBoot hhdm entries e₀ c) (hmap : LimineMap entries)
    (hcut : R (e₀.base, alignUp pageSize (64 * entries.length), .kernelEarly)
      (e₀.base + alignUp pageSize (64 * entries.length),
        e₀.length - alignUp pageSize (64 * entries.length), .usable))
    (hpair : entries.Pairwise fun e e' =>
      ∀ x ∈ e.pieces e₀.base (alignUp pageSize (64 * entries.length)),
        ∀ y ∈ e'.pieces e₀.base (alignUp pageSize (64 * entries.length)), R x y) :
    c.internalMap.Pairwise fun r r' => R r.extent r'.extent := by
  rw [← List.pairwise_map (R := R), h.made.regions, List.pairwise_flatMap]
  refine ⟨fun e he => ?_, hpair⟩
  rw [LimineEntry.pieces]
  split_ifs with hcarved
  · obtain rfl := hmap.eq_of_base_eq h.mem he h.usable hcarved
    exact List.pairwise_pair.mpr hcut
  · exact List.pairwise_singleton _ _

/-- A region of the map is a piece. -/
lemma exists_piece (h : CmmAtBoot hhdm entries e₀ c) {r : CmmRegion} (hr : r ∈ c.internalMap) :
    ∃ e ∈ entries, r.extent ∈ e.pieces e₀.base (alignUp pageSize (64 * entries.length)) := by
  rw [← List.mem_flatMap, ← h.made.regions]
  exact List.mem_map_of_mem hr

/-- **The map is one for `pma_init`.** -/
lemma usableMap (h : CmmAtBoot hhdm entries e₀ c) (hmap : LimineMap entries) :
    UsableMap c.internalMap ∧ ∀ r ∈ c.internalMap, r.type = .usable →
      pageSize ∣ r.base ∧ pageSize ∣ r.length := by
  refine ⟨⟨?_, fun r hr hu => ?_⟩, fun r hr hu => ?_⟩
  · refine h.pairwise (R := fun x y => x.2.2 = .usable → y.2.2 = .usable → x.1 + x.2.1 ≤ y.1) hmap
      (fun hu => absurd hu (by simp)) ?_
    refine hmap.apart.imp_of_mem fun {e e'} he he' hee x hx y hy hux huy => ?_
    obtain ⟨-, hstop, hu⟩ := h.piece_bounds hmap he hx
    obtain ⟨hstart, -, -⟩ := h.piece_bounds hmap he' hy
    exact (hstop.trans (hee.2 (.inl (hu hux).1))).trans hstart
  · obtain ⟨e, he, hx⟩ := h.exists_piece hr
    obtain ⟨-, hstop, hue⟩ := h.piece_bounds hmap he hx
    exact hstop.trans (hmap.below e he (hue hu).1)
  · obtain ⟨e, he, hx⟩ := h.exists_piece hr
    obtain ⟨-, -, hue⟩ := h.piece_bounds hmap he hx
    exact (hue hu).2

/-- **If no entries overlap, no regions do**, and if there is memory left behind the array, none is
empty. -/
lemma sortedMap (h : CmmAtBoot hhdm entries e₀ c) (hmap : LimineMap entries)
    (hapart : entries.Pairwise fun e e' => e.limit ≤ e'.base)
    (hrest : alignUp pageSize (64 * entries.length) < e₀.length) : SortedMap c.internalMap := by
  refine ⟨fun r hr => ?_, ?_⟩
  · obtain ⟨e, he, hx⟩ := h.exists_piece hr
    obtain ⟨-, hstop, -⟩ := h.piece_bounds hmap he hx
    refine ⟨?_, hstop.trans_lt (hmap.limit_lt e he)⟩
    have hpos := hmap.length_pos e he
    have hbytes : 0 < alignUp pageSize (64 * entries.length) := by
      have hlen : 0 < entries.length := List.length_pos_of_mem he
      have hle := le_alignUp pageSize_pos (64 * entries.length)
      omega
    rw [LimineEntry.pieces] at hx
    split_ifs at hx with hcarved
    · obtain rfl := hmap.eq_of_base_eq h.mem he h.usable hcarved
      rw [List.mem_cons, List.mem_singleton] at hx
      rcases hx with hx | hx
      · have hlen : r.length = _ := congrArg (·.2.1) hx
        rwa [hlen]
      · have hlen : r.length = _ := congrArg (·.2.1) hx
        rw [hlen]
        exact Nat.sub_pos_of_lt hrest
    · rw [List.mem_singleton] at hx
      have hlen : r.length = _ := congrArg (·.2.1) hx
      rwa [hlen]
  · refine h.pairwise (R := fun x y => x.1 + x.2.1 ≤ y.1) hmap le_rfl ?_
    refine hapart.imp_of_mem fun {e e'} he he' hee x hx y hy => ?_
    obtain ⟨-, hstop, -⟩ := h.piece_bounds hmap he hx
    obtain ⟨hstart, -, -⟩ := h.piece_bounds hmap he' hy
    exact (hstop.trans hee).trans hstart

end CmmAtBoot

/-! ## The map on the heap -/

/-- A region after the migration. -/
def CmmRegion.migrated (r : CmmRegion) : CmmRegion :=
  if r.type = .kernelEarly then { r with type := .usable } else r

@[simp] lemma CmmRegion.migrated_id (r : CmmRegion) : r.migrated.id = r.id := by
  rw [CmmRegion.migrated]
  split_ifs <;> rfl

@[simp] lemma CmmRegion.migrated_base (r : CmmRegion) : r.migrated.base = r.base := by
  rw [CmmRegion.migrated]
  split_ifs <;> rfl

@[simp] lemma CmmRegion.migrated_length (r : CmmRegion) : r.migrated.length = r.length := by
  rw [CmmRegion.migrated]
  split_ifs <;> rfl

lemma CmmRegion.migrated_type (r : CmmRegion) :
    r.migrated.type = if r.type = .kernelEarly then .usable else r.type := by
  rw [CmmRegion.migrated]
  split_ifs <;> rfl

lemma cmmTranslateLimineType_ne (t : LimineType) : cmmTranslateLimineType t ≠ .kernelEarly := by
  cases t <;> simp [cmmTranslateLimineType]

namespace CmmAtBoot

variable {e₀ : LimineEntry} {c' : CmmBoot} {newMap : ℕ}

lemma migrate (h : CmmAtBoot hhdm entries e₀ c) (heq : cmmMigrateToHeap newMap c = some c') :
    newMap ≠ 0 ∧ c' = { c with
      mapAddr := newMap
      internalCapacity := wmul c.internalCapacity 2
      isHeapBacked := true
      internalMap := c.internalMap.map CmmRegion.migrated } := by
  rw [cmmMigrateToHeap, h.early, if_neg (by simp)] at heq
  split_ifs at heq with hnull
  exact ⟨hnull, (Option.some.inj heq).symm⟩

/-- The array is in one entry. -/
lemma eq_of_inTable (h : CmmAtBoot hhdm entries e₀ c) (hmap : LimineMap entries) (he : e ∈ entries)
    (hin : e.base ≤ a ∧ a < e.limit) (htable : InTable entries e₀ a) : e₀ = e := by
  have hroom := h.room
  rcases hmap.apart_of_usable h.mem he h.usable with heq | hbefore | hbehind
  · exact heq
  · simp only [InTable, LimineEntry.limit] at htable hin hbefore
    omega
  · simp only [InTable, LimineEntry.limit] at htable hin hbehind
    omega

/-- **After the migration, the map says what the entries say.** -/
lemma migrated_hasType_iff (h : CmmAtBoot hhdm entries e₀ c) (hmap : LimineMap entries)
    (heq : cmmMigrateToHeap newMap c = some c') : HasType c'.internalMap a ty ↔
      ∃ e ∈ entries, (e.base ≤ a ∧ a < e.limit) ∧ ty = cmmTranslateLimineType e.type := by
  obtain ⟨-, rfl⟩ := h.migrate heq
  have hmigrated : HasType (c.internalMap.map CmmRegion.migrated) a ty ↔
      ∃ t, HasType c.internalMap a t ∧ (if t = .kernelEarly then .usable else t) = ty := by
    simp only [HasType, List.mem_map, exists_exists_and_eq_and, CmmRegion.Covers,
      CmmRegion.limit, CmmRegion.migrated_base, CmmRegion.migrated_length, CmmRegion.migrated_type]
    constructor
    · rintro ⟨r, hr, hin, hty⟩
      exact ⟨r.type, ⟨r, hr, hin, rfl⟩, hty⟩
    · rintro ⟨t, ⟨r, hr, hin, rfl⟩, hty⟩
      exact ⟨r, hr, hin, hty⟩
  have htype : ∀ e ∈ entries, e.base ≤ a ∧ a < e.limit →
      (if (if InTable entries e₀ a then .kernelEarly else cmmTranslateLimineType e.type) =
        CmmType.kernelEarly then .usable
      else if InTable entries e₀ a then .kernelEarly else cmmTranslateLimineType e.type) =
        cmmTranslateLimineType e.type := by
    intro e he hin
    by_cases htable : InTable entries e₀ a
    · rw [if_pos htable, if_pos rfl, ← h.eq_of_inTable hmap he hin htable, h.usable]
      rfl
    · rw [if_neg htable, if_neg (cmmTranslateLimineType_ne _)]
  rw [hmigrated]
  simp only [h.hasType_iff hmap]
  constructor
  · rintro ⟨t, ⟨e, he, hin, rfl⟩, rfl⟩
    exact ⟨e, he, hin, htype e he hin⟩
  · rintro ⟨e, he, hin, rfl⟩
    exact ⟨_, ⟨e, he, hin, rfl⟩, htype e he hin⟩

lemma migrated_fits (h : CmmAtBoot hhdm entries e₀ c) (hmap : LimineMap entries)
    (heq : cmmMigrateToHeap newMap c = some c') : c'.internalCapacity = 4 * entries.length ∧
      c'.internalMap.length ≤ c'.internalCapacity := by
  obtain ⟨-, rfl⟩ := h.migrate heq
  obtain ⟨-, hfits, -⟩ := h.fits hmap
  have hcap : wmul c.internalCapacity 2 = 4 * entries.length := by
    have hfew := hmap.few
    rw [h.capacity, wmul_of_lt (by omega)]
    omega
  refine ⟨hcap, ?_⟩
  change (c.internalMap.map CmmRegion.migrated).length ≤ wmul c.internalCapacity 2
  rw [List.length_map, hcap]
  have := h.capacity
  omega

/-- **The map can be repainted** from now on. -/
lemma migrated_wf (h : CmmAtBoot hhdm entries e₀ c) (hmap : LimineMap entries)
    (heq : cmmMigrateToHeap newMap c = some c') (hsorted : SortedMap c.internalMap) :
    c'.toCmm.Wf := by
  obtain ⟨hcap, hfits⟩ := h.migrated_fits hmap heq
  have hpos : 0 < entries.length := List.length_pos_of_mem h.mem
  obtain ⟨-, rfl⟩ := h.migrate heq
  have hids : (c.internalMap.map CmmRegion.migrated).map CmmRegion.id =
      List.range' 1 c.internalMap.length := by
    rw [← h.made.ids, List.map_map]
    exact List.map_congr_left fun r _ => r.migrated_id
  refine ⟨⟨?_, ?_⟩, ?_, ?_, rfl, hfits, ?_⟩
  · intro r hr
    obtain ⟨r', hr', rfl⟩ := List.mem_map.mp hr
    simpa [CmmRegion.Valid, CmmRegion.limit] using hsorted.valid r' hr'
  · refine List.pairwise_map.mpr (hsorted.sorted.imp fun hrr => ?_)
    simpa [CmmRegion.limit] using hrr
  · rw [hids]
    exact List.nodup_range'
  · intro r hr
    have hid : r.id ∈ List.range' 1 c.internalMap.length := hids ▸ List.mem_map_of_mem hr
    rw [List.mem_range'_1] at hid
    have hnext : c.nextId = c.internalMap.length + 1 := h.made.next
    change r.id < c.nextId
    omega
  · change 2 ≤ wmul c.internalCapacity 2
    change wmul c.internalCapacity 2 = _ at hcap
    omega

end CmmAtBoot

end Cuore
