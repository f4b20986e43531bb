import Cuore.Mem.Heap.Realloc

/-!
# The calls of the heap

What `malloc`, `zalloc`, `zfree` and `realloc` do to the heap and its allocations, in any state.  A
call that allocates adds one allocation or returns null with the same allocations (`Allocates`), one
that frees takes one away (`Frees`), and `realloc` exchanges one (`Reallocates`).  None of them
writes into the other allocations.

A request that cannot be rounded up to 16 is rounded to zero, and the allocation is too small for
it.  That is why `Allocates` is stated for the smaller one of the request and its rounding.
-/

namespace Cuore

open Memory

/-! ## Rounding -/

lemma alignHeap_eq (size : ℕ) : alignHeap size = alignDown heapAlignment (wadd size 15) :=
  @and_wnot_pred 4 _ (by decide) (wadd_lt _ _)

lemma dvd_alignHeap (size : ℕ) : heapAlignment ∣ alignHeap size :=
  alignHeap_eq size ▸ dvd_alignDown _ _

lemma alignHeap_lt (size : ℕ) : alignHeap size < word :=
  alignHeap_eq size ▸ (alignDown_le _ _).trans_lt (wadd_lt _ _)

lemma le_alignHeap {size : ℕ} (h : size + 15 < word) : size ≤ alignHeap size := by
  have := lt_alignDown_add (n := heapAlignment) (by decide) (size + 15)
  rw [alignHeap_eq, wadd_of_lt h]
  simp only [heapAlignment] at this ⊢
  omega

lemma alignHeap_of_dvd {size : ℕ} (hlt : size < word) (h : heapAlignment ∣ size) :
    alignHeap size = size := by
  obtain ⟨k, rfl⟩ := h
  have hlt' : heapAlignment * k + 15 < word := by
    simp only [heapAlignment, word] at hlt ⊢
    omega
  rw [alignHeap_eq, wadd_of_lt hlt', alignDown]
  simp only [heapAlignment]
  omega

section

variable {h h' : Heap} {rs : List Region} {F : ℕ → List ℕ} {grants : List ℕ} {p q n size : ℕ}
  {m : Memory}

/-! ## Allocating -/

/-- **`malloc`.** -/
lemma HeapInv.malloc (hi : HeapInv h rs F)
    (hg : FreshGrants (growPages (alignHeap size)) h.owned grants) :
    ∃ p h', malloc grants h size = some (p, h') ∧
      Allocates h rs F (min size (alignHeap size)) p h' := by
  rw [Cuore.malloc]
  split_ifs with hzero
  · exact ⟨0, h, rfl, hi.allocates_null⟩
  rcases takeSlot_spec h.mem size h.pools with ⟨hnone, -⟩ | ⟨A, r, B, hpools, hle, hne, hsome⟩
  · rw [hnone]
    obtain ⟨p, h', heq, ha⟩ := hi.serve (dvd_alignHeap size) hg
    exact ⟨p, h', heq, ha.mono (min_le_right _ _)⟩
  · rw [hsome]
    exact ⟨_, _, rfl, (hi.takeSlot hpools hle hne).mono (min_le_left _ _)⟩

lemma HeapInv.malloc_some (hi : HeapInv h rs F)
    (hg : FreshGrants (growPages (alignHeap size)) h.owned grants)
    (hm : Cuore.malloc grants h size = some (p, h')) :
    Allocates h rs F (min size (alignHeap size)) p h' := by
  obtain ⟨p', h'', heq, ha⟩ := hi.malloc hg
  obtain ⟨rfl, rfl⟩ := Prod.mk.inj (Option.some.inj (heq.symm.trans hm))
  exact ha

/-- The new allocation is written to. -/
lemma Allocates.write (ha : Allocates h rs F size p h') (hp : p ≠ 0)
    (hsame : SameOutside (Set.Ico p (p + size)) h'.mem m) :
    Allocates h rs F size p { h' with mem := m } := by
  obtain ⟨rs', F', hi, hkeep, ⟨hzero, -⟩ | ⟨hpos, hnew, n, hle, hlive⟩⟩ := ha
  · exact absurd hzero hp
  have hlp : Live (heapBlocks rs') F' p n := (hlive p n).mpr (.inr ⟨rfl, rfl⟩)
  have hin : Set.Ico p (p + size) ⊆ Set.Ico p (p + n) := Set.Ico_subset_Ico_right (by omega)
  refine ⟨rs', F', hi.client (hsame.mono fun x hx => ?_), hkeep.trans
    (hlp.undisturbed hi.regions (hsame.mono hin)) fun r k hr => ⟨(hlive r k).mpr (.inl hr), ?_⟩,
    .inr ⟨hpos, hnew, n, hle, hlive⟩⟩
  · exact hlp.mem_clientBytes (hin hx).1 (hin hx).2
  · rintro rfl
    exact hnew k hr

/-- Zeroing a range that wraps panics. -/
lemma zeroBytes_wrap (hp : 16 ≤ p) (hlt : p < word) (hsize : size < word)
    (hwrap : word ≤ size + 15) : zeroBytes m p size = none := by
  have hword : 15 < word := by decide
  have hsum : wadd p size = p + size - word := by
    rw [wadd, Nat.mod_eq_sub_mod (by omega), Nat.mod_eq_of_lt (by omega)]
  have hlast : wsub (wadd p size) 1 = p + size - word - 1 := by
    rw [hsum, wsub_of_le (by omega) (by omega)]
  have hunsafe : rangeIsSafe p size = false := by
    simp only [rangeIsSafe, hlast]
    rw [if_neg (by omega), if_pos (by omega)]
  simp [zeroBytes, hunsafe]

lemma Live.lt_word (hp : Live (heapBlocks rs) F p n) (hrs : RegionsOk rs) :
    pageSize ≤ p ∧ p < word := by
  obtain ⟨b, hb, -, hle, hle'⟩ := hp.bounds hrs
  have hlow := hrs.spread.low b hb
  have hsmall := hrs.spread.small b hb
  simp only [Block.payload] at hle
  omega

/-- **`zalloc`.** -/
lemma HeapInv.zalloc (hi : HeapInv h rs F) (hsize : size < word)
    (hg : FreshGrants (growPages (alignHeap size)) h.owned grants)
    (hz : zalloc grants h size = some (p, h')) :
    Allocates h rs F (min size (alignHeap size)) p h' := by
  obtain ⟨p₀, h₀, hm, ha⟩ := hi.malloc hg
  rw [Cuore.zalloc, hm] at hz
  simp only [Option.bind_eq_bind, Option.bind_some] at hz
  split_ifs at hz with hp
  · obtain ⟨m, hzero, heq⟩ := Option.bind_eq_some_iff.mp hz
    obtain ⟨rfl, rfl⟩ := Prod.mk.inj (Option.some.inj heq)
    by_cases hwrap : size + 15 < word
    · rw [min_eq_left (le_alignHeap hwrap)] at ha ⊢
      exact ha.write hp (sameOutside_zeroBytes hzero)
    · obtain ⟨rs', F', hi', -, ⟨hnull, -⟩ | ⟨-, -, n, -, hlive⟩⟩ := ha
      · exact absurd hnull hp
      · obtain ⟨hlow, hlt⟩ := ((hlive p₀ n).mpr (.inr ⟨rfl, rfl⟩)).lt_word hi'.regions
        have h16 : 16 ≤ pageSize := by decide
        rw [zeroBytes_wrap (by omega) hlt hsize (by omega)] at hzero
        exact absurd hzero (by simp)
  · obtain ⟨rfl, rfl⟩ := Prod.mk.inj (Option.some.inj hz)
    exact ha

/-! ## Freeing -/

/-- The type of a pointer depends on the registry, as long as the pointer is live. -/
lemma HeapInv.getPtrType_congr {rs' : List Region} {F' : ℕ → List ℕ} {k : ℕ} (hi : HeapInv h rs F)
    (hi' : HeapInv h' rs' F') (hp : Live (heapBlocks rs) F p n) (hp' : Live (heapBlocks rs') F' p k)
    (hreg : h'.poolPageRegistry = h.poolPageRegistry) : getPtrType h' p = getPtrType h p := by
  have hne := hi.getPtrType_live hp
  have hne' := hi'.getPtrType_live hp'
  rw [getPtrType] at hne hne' ⊢
  rw [getPtrType]
  simp only [isPoolPage, hreg] at hne hne' ⊢
  split_ifs at hne hne' ⊢ <;> simp_all

/-- **`free`.** -/
lemma HeapInv.free_some (hi : HeapInv h rs F) (hp : Live (heapBlocks rs) F p n)
    (hf : Cuore.free h p = some h') : Frees h rs F p h' := by
  obtain ⟨h'', heq, hfrees⟩ := hi.free hp
  obtain rfl := Option.some.inj (heq.symm.trans hf)
  exact hfrees

/-- An allocation is written to, and freed. -/
lemma HeapInv.free_written (hi : HeapInv h rs F) (hp : Live (heapBlocks rs) F p n)
    (hsame : SameOutside (Set.Ico p (p + n)) h.mem m)
    (hf : freeTyped { h with mem := m } p (getPtrType h p) = some h') : Frees h rs F p h' := by
  have hi' := hi.client (hsame.mono fun x hx => hp.mem_clientBytes hx.1 hx.2)
  rw [← hi.getPtrType_congr hi' hp hp rfl] at hf
  obtain ⟨h'', heq, rs', F', hinv, hlive, hkeep⟩ := hi'.free_live hp
  obtain rfl := Option.some.inj (heq.symm.trans hf)
  exact ⟨rs', F', hinv, hlive, (hp.undisturbed hi.regions hsame).trans hkeep fun _ _ hq => hq⟩

/-- **`zfree`.** -/
lemma HeapInv.zfree (hi : HeapInv h rs F) (hp : Live (heapBlocks rs) F p n)
    (hz : zfree h p = some h') : Frees h rs F p h' := by
  have hpos := hp.pos hi.regions
  simp only [Cuore.zfree, if_neg hpos.ne', if_neg (hi.getPtrType_live hp), hi.capacity_eq hp] at hz
  split_ifs at hz
  · obtain ⟨m, hm, hf⟩ := Option.bind_eq_some_iff.mp hz
    exact hi.free_written hp (sameOutside_zeroBytes hm) hf
  · exact hi.free_written hp (.refl _ _) hz

/-! ## Reallocating -/

/-- `malloc` does not touch the registry of the pool pages. -/
lemma mallocBlock_registry (hm : mallocBlock size grants h = some (p, h')) :
    h'.poolPageRegistry = h.poolPageRegistry := by
  induction grants generalizing h with
  | nil =>
    rw [mallocBlock.eq_def] at hm
    obtain ⟨curr, -, hm⟩ := Option.bind_eq_some_iff.mp hm
    split_ifs at hm
    · obtain rfl := (Prod.mk.inj (Option.some.inj hm)).2
      exact (blocksOnly_takeBlock ..).poolPageRegistry
    · obtain rfl := (Prod.mk.inj (Option.some.inj hm)).2
      rfl
  | cons virt grants ih =>
    rw [mallocBlock.eq_def] at hm
    obtain ⟨curr, -, hm⟩ := Option.bind_eq_some_iff.mp hm
    split_ifs at hm
    · obtain rfl := (Prod.mk.inj (Option.some.inj hm)).2
      exact (blocksOnly_takeBlock ..).poolPageRegistry
    dsimp only at hm
    split_ifs at hm
    · obtain rfl := (Prod.mk.inj (Option.some.inj hm)).2
      rfl
    · exact (ih hm).trans rfl

lemma malloc_registry (hm : Cuore.malloc grants h size = some (p, h')) :
    h'.poolPageRegistry = h.poolPageRegistry := by
  rw [Cuore.malloc] at hm
  split_ifs at hm
  · obtain rfl := (Prod.mk.inj (Option.some.inj hm)).2
    rfl
  · split at hm
    · obtain rfl := (Prod.mk.inj (Option.some.inj hm)).2
      rfl
    · exact mallocBlock_registry hm

/-- What reallocating the `n` bytes at `p` does: it returns null, and nothing is freed, or the
pointer `q` of an allocation of at least `size` bytes that takes the place of the old one, with the
old bytes in front. -/
def Reallocates (h : Heap) (rs : List Region) (F : ℕ → List ℕ) (p n size q : ℕ) (h' : Heap) :
    Prop :=
  ∃ rs' F', HeapInv h' rs' F' ∧
    ((q = 0 ∧ Undisturbed (Live (heapBlocks rs) F) h.mem h'.mem ∧
        ∀ r k, Live (heapBlocks rs') F' r k ↔ Live (heapBlocks rs) F r k) ∨
      0 < q ∧ (∀ k, Live (heapBlocks rs) F q k → q = p) ∧
        Undisturbed (fun r k => Live (heapBlocks rs) F r k ∧ r ≠ p) h.mem h'.mem ∧
        (∀ i < n, h'.mem (q + i) = h.mem (p + i)) ∧ ∃ k, size ≤ k ∧ n ≤ k ∧
          ∀ r j, Live (heapBlocks rs') F' r j ↔
            Live (heapBlocks rs) F r j ∧ r ≠ p ∨ r = q ∧ j = k)

/-- The allocation is big enough. -/
lemma HeapInv.reallocates_self (hi : HeapInv h rs F) (hp : Live (heapBlocks rs) F p n)
    (hle : size ≤ n) : Reallocates h rs F p n size p h := by
  refine ⟨rs, F, hi, .inr ⟨hp.pos hi.regions, fun _ _ => rfl, .refl _ _, fun _ _ => rfl, n, hle,
    le_rfl, fun r j => ⟨fun hr => ?_, ?_⟩⟩⟩
  · by_cases hrp : r = p
    · subst hrp
      exact .inr ⟨rfl, hr.size_unique hi.regions hp⟩
    · exact .inl ⟨hr, hrp⟩
  · rintro (⟨hr, -⟩ | ⟨rfl, rfl⟩)
    · exact hr
    · exact hp

/-- **The end of `realloc`**: the bytes move to a new allocation. -/
lemma HeapInv.move (hi : HeapInv h rs F) (hp : Live (heapBlocks rs) F p n)
    (hdvd : heapAlignment ∣ size) (hlt : n < size) (hsize : size < word)
    (hg : FreshGrants (growPages size) h.owned grants)
    (hm : moveTo grants h p size n (getPtrType h p) = some (q, h')) :
    Reallocates h rs F p n size q h' := by
  have halign := alignHeap_of_dvd hsize hdvd
  rw [← halign] at hg
  obtain ⟨q₁, h₁, hmalloc, ha⟩ := hi.malloc hg
  rw [halign, min_self] at ha
  have hreg := malloc_registry hmalloc
  rw [moveTo, hmalloc] at hm
  simp only [Option.bind_eq_bind, Option.bind_some] at hm
  obtain ⟨rs₁, F₁, hi₁, hkeep, ⟨hnull, hlive⟩ | ⟨hpos, hnew, k, hle, hlive⟩⟩ := ha
  · rw [if_neg (not_not.mpr hnull)] at hm
    obtain ⟨rfl, rfl⟩ := Prod.mk.inj (Option.some.inj hm)
    exact ⟨rs₁, F₁, hi₁, .inl ⟨rfl, hkeep, hlive⟩⟩
  · rw [if_pos hpos.ne'] at hm
    obtain ⟨m, hcopy, hm⟩ := Option.bind_eq_some_iff.mp hm
    obtain ⟨h₂, hfree, hm⟩ := Option.bind_eq_some_iff.mp hm
    obtain ⟨rfl, rfl⟩ := Prod.mk.inj (Option.some.inj hm)
    have hp₁ := (hlive p n).mpr (.inl hp)
    have hq₁ := (hlive q₁ k).mpr (.inr ⟨rfl, rfl⟩)
    have hne : p ≠ q₁ := fun heq => hnew n (heq ▸ hp)
    have hapart := hp₁.apart hi₁.regions hq₁ hne
    obtain rfl : copyUp h₁.mem q₁ p n = m := copyBytes_some hcopy
    have hsame := sameOutside_copyUp h₁.mem q₁ p n
    have hsame' := hsame.mono (Set.Ico_subset_Ico_right (show q₁ + n ≤ q₁ + k by omega))
    have hi₂ := hi₁.client (hsame'.mono fun x hx => hq₁.mem_clientBytes hx.1 hx.2)
    rw [← hi.getPtrType_congr hi₂ hp hp₁ hreg] at hfree
    obtain ⟨h₃, heq, rs₂, F₂, hi₃, hlive₂, hkeep₂⟩ := hi₂.free_live hp₁
    obtain rfl := Option.some.inj (heq.symm.trans hfree)
    refine ⟨rs₂, F₂, hi₃, .inr ⟨hpos, fun j hj => absurd hj (hnew j), ?_, fun i hin => ?_, k, hle,
      by omega, fun r j => ?_⟩⟩
    · -- the copy, and what is freed, are not other allocations
      have hwrite := hq₁.undisturbed hi₁.regions hsame'
      rintro r j ⟨hr, hrp⟩ x hx hx'
      have hr₁ := (hlive r j).mpr (.inl hr)
      rw [hkeep₂ r j ⟨hr₁, hrp⟩ x hx hx']
      refine (hwrite r j ⟨hr₁, fun heq => hnew j (heq ▸ hr)⟩ x hx hx').trans ?_
      exact hkeep r j hr x hx hx'
    · rw [hkeep₂ q₁ k ⟨hq₁, hne.symm⟩ _ (by omega) (by omega)]
      refine (copyUp_of_lt hin (by omega)).trans ?_
      exact hkeep p n hp _ (by omega) (by omega)
    · rw [hlive₂, hlive]
      constructor
      · rintro ⟨hr | hr, hrp⟩
        · exact .inl ⟨hr, hrp⟩
        · exact .inr hr
      · rintro (⟨hr, hrp⟩ | ⟨rfl, hj⟩)
        · exact ⟨.inl hr, hrp⟩
        · exact ⟨.inr ⟨rfl, hj⟩, hne.symm⟩

/-- The block grows in place. -/
lemma HeapInv.reallocates_grow {b : Block} (hi : HeapInv h rs F) (hb : b ∈ heapBlocks rs)
    (hk : b.kind = .used) (hcan : canExpand h.mem b.addr = true) (hdvd : heapAlignment ∣ size)
    (hlt : b.size < size) (hfit : size ≤ combinedSize h.mem b.addr)
    (hkept : size + bhSize + minSplitSize ≤ combinedSize h.mem b.addr → b.size + bhSize ≤ size ∨
      size = b.size + heapAlignment ∧
        (readHeader h.mem (readHeader h.mem b.addr).next).next = 0) :
    Reallocates h rs F b.payload b.size size b.payload
      (expandBlock h b.addr size (combinedSize h.mem b.addr)) := by
  have hp : Live (heapBlocks rs) F b.payload b.size := .inl ⟨b, hb, hk, rfl, rfl⟩
  obtain ⟨rs', k, hi', hle, hlive, hkeep⟩ := hi.grow_block hb hk hcan hdvd hlt hfit hkept
  exact ⟨rs', F, hi', .inr ⟨hp.pos hi.regions, fun _ _ => rfl, fun r j hr => hkeep r j hr.1,
    fun i hin => hkeep _ _ hp _ (by omega) (by omega), k, hle, by omega, hlive⟩⟩

/-- **`realloc`**, unless it is a short split. -/
lemma HeapInv.realloc (hi : HeapInv h rs F) (hp : Live (heapBlocks rs) F p n) (hn : 0 < size)
    (hshort : ¬ ShortSplit h p size)
    (hg : FreshGrants (growPages (alignHeap size)) h.owned grants)
    (hr : realloc grants h p size = some (q, h')) :
    Reallocates h rs F p n (alignHeap size) q h' := by
  have hpos := hp.pos hi.regions
  have hdvd := dvd_alignHeap size
  have hlt := alignHeap_lt size
  have hmove := fun hn => @HeapInv.move h h' rs F grants p q n (alignHeap size) hi hp hdvd hn hlt hg
  rw [Cuore.realloc, if_neg hpos.ne', if_neg hn.ne'] at hr
  dsimp only at hr
  rcases hp with ⟨b, hb, hk, rfl, rfl⟩ | ⟨b, hb, used, hk, hs, hnew⟩
  · have htype := hi.getPtrType_block hb (by simp [hk, BlockKind.isPool])
    obtain ⟨r, t, hat⟩ := hi.blocks.at_mem hb
    have hsize : (readHeader h.mem b.addr).size = b.size := by
      rw [hat]
      rfl
    have hmagic : (readHeader h.mem b.addr).magic = heapMagic := by
      rw [hat]
      rfl
    rw [htype] at hr hmove
    simp only [Block.payload, Nat.add_sub_cancel, hsize, hmagic, ne_eq, not_true_eq_false, if_false]
      at hr
    split_ifs at hr with hfits hcan
    · obtain ⟨rfl, rfl⟩ := Prod.mk.inj (Option.some.inj hr)
      exact hi.reallocates_self (.inl ⟨b, hb, hk, rfl, rfl⟩) hfits
    · obtain ⟨rfl, rfl⟩ := Prod.mk.inj (Option.some.inj hr)
      refine hi.reallocates_grow hb hk hcan.1 hdvd (not_le.mp hfits) hcan.2 fun hcut => ?_
      by_contra hle
      obtain ⟨hle, hend⟩ := not_or.mp hle
      refine hshort ⟨htype, ?_⟩
      simp only [Block.payload, Nat.add_sub_cancel, hsize]
      exact ⟨hcan.1, not_le.mp hfits, not_le.mp hle, hcut, hend⟩
    · exact hmove (not_le.mp hfits) hr
  · have hbin := (hi.page_header hb hk).2
    rw [hi.getPtrType_slot hb hk hs] at hr hmove
    simp only [hi.regions.pageBase_slot hb hk hs, hbin] at hr
    split_ifs at hr with hfits
    · obtain ⟨rfl, rfl⟩ := Prod.mk.inj (Option.some.inj hr)
      exact hi.reallocates_self (.inr ⟨b, hb, used, hk, hs, hnew⟩) hfits
    · exact hmove (not_le.mp hfits) hr

end

end Cuore
