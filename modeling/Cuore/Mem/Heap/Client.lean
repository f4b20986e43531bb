import Cuore.Mem.Heap.Free

/-!
# The clients' bytes

Clients write into their allocations, and what is not the heap's is anybody's.  `clientBytes` are
all these bytes.  The invariant does not depend on them (`HeapInv.client`), and this is used for
the clients' own writes as well as for the copying of `realloc` and the zeroing of `zalloc` and
`zfree`.
-/

namespace Cuore

open Memory

section

variable {h : Heap} {rs : List Region} {F : ℕ → List ℕ} {b : Block} {m m' : Memory}
  {p q n k : ℕ}

/-- The bytes of the allocations, and those outside the ranges of the heap. -/
def clientBytes (rs : List Region) (F : ℕ → List ℕ) : Set ℕ :=
  {x | (∃ p n, Live (heapBlocks rs) F p n ∧ p ≤ x ∧ x < p + n) ∨ ∀ r ∈ rs, x < r.base ∨ r.stop ≤ x}

lemma RegionsOk.mem_range {x : ℕ} (hrs : RegionsOk rs) (hb : b ∈ heapBlocks rs) (hle : b.addr ≤ x)
    (hlt : x < b.stop) : ∃ r ∈ rs, r.base ≤ x ∧ x < r.stop := by
  obtain ⟨r, hr, hbr⟩ := mem_heapBlocks.mp hb
  obtain ⟨hbase, hstop⟩ := (hrs.ok r hr).bounds hbr
  exact ⟨r, hr, hbase.trans hle, hlt.trans_le hstop⟩

/-- A header is not the clients'. -/
lemma RegionsOk.header_not_client (hrs : RegionsOk rs) (hb : b ∈ heapBlocks rs) {x : ℕ}
    (hx : x ∈ headerRange b.addr) : x ∉ clientBytes rs F := by
  rintro (⟨p, n, hp, hle, hlt⟩ | hout)
  · exact hp.not_mem_spareBytes hrs hle hlt ⟨b, hb, .inl hx⟩
  · simp only [headerRange, Set.mem_Ico] at hx
    obtain ⟨r, hr, hin⟩ := hrs.mem_range hb hx.1 (by simp only [Block.stop]; omega)
    have := hout r hr
    omega

/-- The link of a free slot is not the clients'. -/
lemma HeapInv.slotWord_not_client (hi : HeapInv h rs F) {bin s x : ℕ} (hbin : bin ∈ poolSizes)
    (hs : s ∈ F bin) (hle : s ≤ x) (hlt : x < s + 8) : x ∉ clientBytes rs F := by
  obtain ⟨b, hb, used, hk, hsb⟩ := hi.pools.slot bin hbin s hs
  have h8 := (slotCount_pos hbin).1
  obtain ⟨hlow, hhigh⟩ := slot_bounds hsb
  rintro (⟨p, n, hp, hlep, hltp⟩ | hout)
  · have hne : s ≠ p := by
      rintro rfl
      exact hi.regions.free_slot_not_live hb hk hsb hs n hp
    rcases hi.regions.slot_apart_live hb hk hsb hp hne with hap | hap <;> omega
  · obtain ⟨r, hr, hin⟩ := hi.regions.mem_range hb (x := x) (by omega)
      (by rw [(hi.regions.pool_page hb hk).2]; omega)
    have := hout r hr
    omega

/-- **Clients' writes keep the invariant.** -/
lemma HeapInv.client (hi : HeapInv h rs F) (hsame : SameOutside (clientBytes rs F) h.mem m') :
    HeapInv { h with mem := m' } rs F where
  regions := hi.regions
  owned := hi.owned
  blocks := hi.blocks.congr rfl rfl rfl fun _ hb =>
    readHeader_congr hsame (Set.disjoint_left.mpr fun _ => hi.regions.header_not_client hb)
  pools := hi.pools.congr rfl rfl rfl fun _ hbin _ hs =>
    load_congr fun x hx hx' => hsame x (hi.slotWord_not_client hbin hs hx hx')

/-- The bytes of an allocation are the clients'. -/
lemma Live.mem_clientBytes {x : ℕ} (hp : Live (heapBlocks rs) F p n) (hle : p ≤ x)
    (hlt : x < p + n) : x ∈ clientBytes rs F := .inl ⟨p, n, hp, hle, hlt⟩

/-- Writing into one allocation leaves the others alone. -/
lemma Live.undisturbed (hp : Live (heapBlocks rs) F p n) (hrs : RegionsOk rs)
    (hsame : SameOutside (Set.Ico p (p + n)) m m') :
    Undisturbed (fun q k => Live (heapBlocks rs) F q k ∧ q ≠ p) m m' := by
  rintro q k ⟨hq, hne⟩ x hx hx'
  refine hsame x fun hmem => ?_
  rw [Set.mem_Ico] at hmem
  rcases hp.apart hrs hq hne.symm with hle | hle <;> omega

/-! ## Zeroing and copying -/

lemma sameOutside_zeroBytes (hz : zeroBytes m p n = some m') :
    SameOutside (Set.Ico p (p + n)) m m' := by
  rw [zeroBytes] at hz
  split_ifs at hz
  obtain rfl := Option.some.inj hz
  exact sameOutside_fill m p n 0

/-- The copying loop of `memcpy`. -/
def copyUp (m : Memory) (dest src n : ℕ) : Memory :=
  (List.range n).foldl (fun m i => m.store (dest + i) 1 (m (src + i)).toNat) m

lemma copyBytes_some {dest src : ℕ} (hc : copyBytes m dest src n = some m') :
    copyUp m dest src n = m' := by
  rw [copyBytes] at hc
  split_ifs at hc
  exact Option.some.inj hc

lemma copyUp_succ (m : Memory) (dest src n : ℕ) : copyUp m dest src (n + 1) =
    (copyUp m dest src n).store (dest + n) 1 (copyUp m dest src n (src + n)).toNat := by
  simp [copyUp, List.range_succ]

lemma sameOutside_copyUp (m : Memory) (dest src n : ℕ) :
    SameOutside (Set.Ico dest (dest + n)) m (copyUp m dest src n) := by
  induction n with
  | zero => exact .refl _ _
  | succ n ih =>
    rw [copyUp_succ]
    refine (ih.trans (sameOutside_store _ _ _ _)).mono ?_
    rintro x (⟨hle, hlt⟩ | ⟨hle, hlt⟩) <;> exact ⟨by omega, by omega⟩

/-- A byte that was copied, when the ranges do not overlap. -/
lemma copyUp_of_lt {dest src n i : ℕ} (hi : i < n) (hapart : dest + n ≤ src ∨ src + n ≤ dest) :
    copyUp m dest src n (dest + i) = m (src + i) := by
  induction n with
  | zero => exact absurd hi (by omega)
  | succ n ih =>
    rw [copyUp_succ]
    rcases Nat.lt_succ_iff_lt_or_eq.mp hi with hlt | rfl
    · rw [store_of_outside (by omega)]
      exact ih hlt (by omega)
    · have hsrc : copyUp m dest src i (src + i) = m (src + i) :=
        sameOutside_copyUp m dest src i _ (by rw [Set.mem_Ico]; omega)
      rw [hsrc, store, if_pos (by omega), Nat.sub_self, pow_zero, Nat.div_one, UInt8.ofNat_toNat]

end

end Cuore
