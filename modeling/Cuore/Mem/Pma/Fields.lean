import Cuore.Mem.Pma

/-!
# The fields of the physical allocator

The list operations write links, heads and bitmaps, a few at a time.  Here every field is seen as a
function of its own: the links and sizes of all headers, the heads of all lists, the bitmaps of all
rows.  `tlsfInsertFreeBlock_spec` and `tlsfRemoveFreeBlock_spec` then say what the two list
operations write, field by field, and `SameBlocks` what they leave alone.
-/

namespace Cuore

open Function

/-! ## What the list operations write -/

namespace Pma

/-- The links back. -/
def prevs (h : ℕ → PmaFreeBlock) (a : ℕ) : ℕ := (h a).prev

/-- The links forward. -/
def nexts (h : ℕ → PmaFreeBlock) (a : ℕ) : ℕ := (h a).next

/-- The size fields. -/
def sizes (h : ℕ → PmaFreeBlock) (a : ℕ) : ℕ := (h a).size

/-- The heads of the lists. -/
def heads (zone : PmaZoneId → PmaZone) (k : PmaZoneId × ℕ × ℕ) : ℕ := (zone k.1).blocks k.2.1 k.2.2

/-- The bitmaps of the lists that are not empty. -/
def slMaps (zone : PmaZoneId → PmaZone) (k : PmaZoneId × ℕ) : ℕ := (zone k.1).slBitmap k.2

/-- The bitmaps of the rows that are not empty. -/
def flMaps (zone : PmaZoneId → PmaZone) (z : PmaZoneId) : ℕ := (zone z).flBitmap

/-- The sizes of the zones. -/
def totals (zone : PmaZoneId → PmaZone) (z : PmaZoneId) : ℕ := (zone z).totalPages

section Headers

variable (s : Pma) (a p : ℕ)

/-- A field of one header has been written. -/
lemma field_update {h : ℕ → PmaFreeBlock} {f : PmaFreeBlock → ℕ} {v : PmaFreeBlock} :
    (fun x => f (update h a v x)) = update (fun x => f (h x)) a (f v) := by
  funext x
  by_cases hx : x = a <;> simp [hx]

@[simp] lemma prevs_setPrev : prevs (s.setPrev a p).hdr = update (prevs s.hdr) a p := field_update a
@[simp] lemma nexts_setNext : nexts (s.setNext a p).hdr = update (nexts s.hdr) a p := field_update a
@[simp] lemma sizes_setSize : sizes (s.setSize a p).hdr = update (sizes s.hdr) a p := field_update a

@[simp] lemma nexts_setPrev : nexts (s.setPrev a p).hdr = nexts s.hdr :=
  (field_update a).trans (update_eq_self a _)

@[simp] lemma sizes_setPrev : sizes (s.setPrev a p).hdr = sizes s.hdr :=
  (field_update a).trans (update_eq_self a _)

@[simp] lemma prevs_setNext : prevs (s.setNext a p).hdr = prevs s.hdr :=
  (field_update a).trans (update_eq_self a _)

@[simp] lemma sizes_setNext : sizes (s.setNext a p).hdr = sizes s.hdr :=
  (field_update a).trans (update_eq_self a _)

@[simp] lemma prevs_setSize : prevs (s.setSize a p).hdr = prevs s.hdr :=
  (field_update a).trans (update_eq_self a _)

@[simp] lemma nexts_setSize : nexts (s.setSize a p).hdr = nexts s.hdr :=
  (field_update a).trans (update_eq_self a _)

lemma prevs_raw : (s.hdr a).prev = prevs s.hdr a := rfl
lemma nexts_raw : (s.hdr a).next = nexts s.hdr a := rfl
lemma sizes_raw : (s.hdr a).size = sizes s.hdr a := rfl

@[simp] lemma bitmap_setPrev : (s.setPrev a p).bitmap = s.bitmap := rfl
@[simp] lemma bitmap_setNext : (s.setNext a p).bitmap = s.bitmap := rfl
@[simp] lemma bitmap_setSize : (s.setSize a p).bitmap = s.bitmap := rfl
@[simp] lemma zone_setPrev : (s.setPrev a p).zone = s.zone := rfl
@[simp] lemma zone_setNext : (s.setNext a p).zone = s.zone := rfl
@[simp] lemma zone_setSize : (s.setSize a p).zone = s.zone := rfl

end Headers

section Zones

variable (s : Pma) (z : PmaZoneId) (fl sl a w : ℕ)

/-- A field of one zone has been written. -/
lemma zone_field_update {β : Type*} {zone : PmaZoneId → PmaZone} {f : PmaZone → β} {v : PmaZone} :
    (fun z' => f (update zone z v z')) = update (fun z' => f (zone z')) z (f v) := by
  funext z'
  by_cases hz : z' = z
  · subst hz
    simp
  · simp [hz]

@[simp] lemma heads_setHead :
    heads (s.setHead z fl sl a).zone = update (heads s.zone) (z, fl, sl) a := by
  funext ⟨z', fl', sl'⟩
  by_cases hz : z' = z
  · subst hz
    by_cases hf : fl' = fl
    · subst hf
      by_cases hs : sl' = sl <;> simp [heads, setHead, hs]
    · simp [heads, setHead, hf]
  · simp [heads, setHead, hz]

@[simp] lemma slMaps_setSlBitmap :
    slMaps (s.setSlBitmap z fl w).zone = update (slMaps s.zone) (z, fl) w := by
  funext ⟨z', fl'⟩
  by_cases hz : z' = z
  · subst hz
    by_cases hf : fl' = fl <;> simp [slMaps, setSlBitmap, hf]
  · simp [slMaps, setSlBitmap, hz]

@[simp] lemma flMaps_setFlBitmap : flMaps (s.setFlBitmap z w).zone = update (flMaps s.zone) z w :=
  zone_field_update z

@[simp] lemma heads_setSlBitmap : heads (s.setSlBitmap z fl w).zone = heads s.zone := by
  funext ⟨z', fl', sl'⟩
  by_cases hz : z' = z <;> simp [heads, setSlBitmap, hz]

@[simp] lemma heads_setFlBitmap : heads (s.setFlBitmap z w).zone = heads s.zone := by
  funext ⟨z', fl', sl'⟩
  by_cases hz : z' = z <;> simp [heads, setFlBitmap, hz]

@[simp] lemma slMaps_setHead : slMaps (s.setHead z fl sl a).zone = slMaps s.zone := by
  funext ⟨z', fl'⟩
  by_cases hz : z' = z <;> simp [slMaps, setHead, hz]

@[simp] lemma slMaps_setFlBitmap : slMaps (s.setFlBitmap z w).zone = slMaps s.zone := by
  funext ⟨z', fl'⟩
  by_cases hz : z' = z <;> simp [slMaps, setFlBitmap, hz]

@[simp] lemma flMaps_setHead : flMaps (s.setHead z fl sl a).zone = flMaps s.zone :=
  (zone_field_update z).trans (update_eq_self z _)

@[simp] lemma flMaps_setSlBitmap : flMaps (s.setSlBitmap z fl w).zone = flMaps s.zone :=
  (zone_field_update z).trans (update_eq_self z _)

@[simp] lemma totals_setHead : totals (s.setHead z fl sl a).zone = totals s.zone :=
  (zone_field_update z).trans (update_eq_self z _)

@[simp] lemma totals_setSlBitmap : totals (s.setSlBitmap z fl w).zone = totals s.zone :=
  (zone_field_update z).trans (update_eq_self z _)

@[simp] lemma totals_setFlBitmap : totals (s.setFlBitmap z w).zone = totals s.zone :=
  (zone_field_update z).trans (update_eq_self z _)

lemma flMaps_raw : (s.zone z).flBitmap = flMaps s.zone z := rfl
lemma slMaps_raw : (s.zone z).slBitmap fl = slMaps s.zone (z, fl) := rfl
lemma heads_raw : (s.zone z).blocks fl sl = heads s.zone (z, fl, sl) := rfl

@[simp] lemma bitmap_setHead : (s.setHead z fl sl a).bitmap = s.bitmap := rfl
@[simp] lemma bitmap_setSlBitmap : (s.setSlBitmap z fl w).bitmap = s.bitmap := rfl
@[simp] lemma bitmap_setFlBitmap : (s.setFlBitmap z w).bitmap = s.bitmap := rfl
@[simp] lemma hdr_setHead : (s.setHead z fl sl a).hdr = s.hdr := rfl
@[simp] lemma hdr_setSlBitmap : (s.setSlBitmap z fl w).hdr = s.hdr := rfl
@[simp] lemma hdr_setFlBitmap : (s.setFlBitmap z w).hdr = s.hdr := rfl

end Zones

end Pma

open Pma

/-- The list operations change links, heads and the bitmaps of the lists, and nothing else. -/
@[mk_iff]
structure SameBlocks (s s' : Pma) : Prop where
  sizes : sizes s'.hdr = sizes s.hdr
  bitmap : s'.bitmap = s.bitmap
  totals : totals s'.zone = totals s.zone

lemma SameBlocks.refl (s : Pma) : SameBlocks s s := ⟨rfl, rfl, rfl⟩

lemma SameBlocks.trans {s s' s'' : Pma} (h : SameBlocks s s') (h' : SameBlocks s' s'') :
    SameBlocks s s'' :=
  ⟨h'.sizes.trans h.sizes, h'.bitmap.trans h.bitmap, h'.totals.trans h.totals⟩

lemma SameBlocks.blockSize {s s' : Pma} (h : SameBlocks s s') (a : ℕ) :
    (s'.hdr a).blockSize = (s.hdr a).blockSize := by
  have := congrFun h.sizes a
  simp only [Pma.sizes] at this
  rw [PmaFreeBlock.blockSize, PmaFreeBlock.blockSize, this]

section Writes

variable {s : Pma} {z : PmaZoneId} {b fl sl : ℕ}

/-- What `tlsf_insert_free_block` writes. -/
lemma tlsfInsertFreeBlock_spec (hhead : heads s.zone (z, fl, sl) ≠ pmaNull) :
    ∃ s', tlsfInsertFreeBlock z b fl sl s = some s' ∧ SameBlocks s s' ∧
      prevs s'.hdr = update (update (prevs s.hdr) b (pmaBlockNull z)) (heads s.zone (z, fl, sl)) b ∧
      nexts s'.hdr = update (nexts s.hdr) b (heads s.zone (z, fl, sl)) ∧
      heads s'.zone = update (heads s.zone) (z, fl, sl) b ∧
      slMaps s'.zone = update (slMaps s.zone) (z, fl) (slMaps s.zone (z, fl) ||| 2 ^ sl) ∧
      flMaps s'.zone = update (flMaps s.zone) z (flMaps s.zone z ||| 2 ^ fl) := by
  refine ⟨_, if_neg hhead, ⟨?_, rfl, ?_⟩, ?_, ?_, ?_, ?_, ?_⟩
  · simp
  · simp
  · simp [heads]
  · simp [heads]
  · simp
  · simp [slMaps_raw]
  · simp [flMaps_raw]

/-- What `tlsf_remove_free_block` writes. -/
lemma tlsfRemoveFreeBlock_spec (z : PmaZoneId) (fl sl : ℕ) (hprev : prevs s.hdr b ≠ pmaNull)
    (hnext : nexts s.hdr b ≠ pmaNull) :
    ∃ s', tlsfRemoveFreeBlock z b fl sl s = some s' ∧ SameBlocks s s' ∧
      prevs s'.hdr = update (prevs s.hdr) (nexts s.hdr b) (prevs s.hdr b) ∧
      nexts s'.hdr = update (nexts s.hdr) (prevs s.hdr b) (nexts s.hdr b) ∧
      heads s'.zone = (if heads s.zone (z, fl, sl) = b then
        update (heads s.zone) (z, fl, sl) (nexts s.hdr b) else heads s.zone) ∧
      slMaps s'.zone = (if heads s.zone (z, fl, sl) = b ∧ nexts s.hdr b = pmaBlockNull z then
        update (slMaps s.zone) (z, fl) (slMaps s.zone (z, fl) &&& wnot (2 ^ sl))
        else slMaps s.zone) ∧
      flMaps s'.zone = (if heads s.zone (z, fl, sl) = b ∧ nexts s.hdr b = pmaBlockNull z ∧
          slMaps s.zone (z, fl) &&& wnot (2 ^ sl) = 0 then
        update (flMaps s.zone) z (flMaps s.zone z &&& wnot (2 ^ fl)) else flMaps s.zone) := by
  have hne : ¬((s.hdr b).next = pmaNull ∨ (s.hdr b).prev = pmaNull) := by
    rintro (h | h)
    · exact hnext h
    · exact hprev h
  unfold tlsfRemoveFreeBlock
  dsimp only
  rw [if_neg hne]
  simp only [nexts_raw, prevs_raw, zone_setPrev, zone_setNext, heads_raw]
  by_cases hhead : heads s.zone (z, fl, sl) = b
  · by_cases hlast : nexts s.hdr b = pmaBlockNull z
    · by_cases hrow : slMaps s.zone (z, fl) &&& wnot (2 ^ sl) = 0
      · simp [hhead, hlast, hrow, slMaps_raw, flMaps_raw, sameBlocks_iff]
      · simp [hhead, hlast, hrow, slMaps_raw, sameBlocks_iff]
    · simp [hhead, hlast, sameBlocks_iff]
  · simp [hhead, sameBlocks_iff]

lemma tlsfBlockInsert_same {s' : Pma} (h : tlsfBlockInsert z b s = some s') : SameBlocks s s' := by
  unfold tlsfBlockInsert at h
  generalize tlsfMappingInsert (s.hdr b).blockSize = k at h
  obtain ⟨fl, sl⟩ := k
  dsimp only at h
  split_ifs at h
  by_cases hhead : heads s.zone (z, fl, sl) = pmaNull
  · unfold tlsfInsertFreeBlock at h
    rw [heads_raw, if_pos hhead] at h
    cases h
  · obtain ⟨s'', heq, hsame, -⟩ := tlsfInsertFreeBlock_spec (b := b) hhead
    obtain rfl := Option.some.inj (h.symm.trans heq)
    exact hsame

/-- The block is the head of the list of its size. -/
lemma tlsfBlockInsert_head {s' : Pma} (h : tlsfBlockInsert z b s = some s') :
    heads s'.zone (z, tlsfMappingInsert (s.hdr b).blockSize) = b := by
  unfold tlsfBlockInsert at h
  generalize tlsfMappingInsert (s.hdr b).blockSize = k at h ⊢
  obtain ⟨fl, sl⟩ := k
  dsimp only at h
  split_ifs at h
  by_cases hhead : heads s.zone (z, fl, sl) = pmaNull
  · unfold tlsfInsertFreeBlock at h
    rw [heads_raw, if_pos hhead] at h
    cases h
  · obtain ⟨s'', heq, -, -, -, hheads, -⟩ := tlsfInsertFreeBlock_spec (b := b) hhead
    obtain rfl := Option.some.inj (h.symm.trans heq)
    rw [hheads, update_self]

lemma tlsfRemoveFreeBlock_same {s' : Pma} (h : tlsfRemoveFreeBlock z b fl sl s = some s') :
    SameBlocks s s' := by
  by_cases hnull : (s.hdr b).next = pmaNull ∨ (s.hdr b).prev = pmaNull
  · unfold tlsfRemoveFreeBlock at h
    dsimp only at h
    rw [if_pos hnull] at h
    cases h
  · obtain ⟨hnext, hprev⟩ := not_or.mp hnull
    obtain ⟨s'', heq, hsame, -⟩ := tlsfRemoveFreeBlock_spec z fl sl hprev hnext
    obtain rfl := Option.some.inj (h.symm.trans heq)
    exact hsame

lemma tlsfBlockRemove_same {s' : Pma} (h : tlsfBlockRemove z b s = some s') : SameBlocks s s' := by
  unfold tlsfBlockRemove at h
  generalize tlsfMappingInsert (s.hdr b).blockSize = k at h
  obtain ⟨fl, sl⟩ := k
  dsimp only at h
  split_ifs at h
  exact tlsfRemoveFreeBlock_same h

end Writes

end Cuore
