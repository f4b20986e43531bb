import Cuore.Mem.Pma.Lists

/-!
# The index of free blocks

`tlsf_block_insert`, `tlsf_block_remove` and `tlsf_locate_free` keep the free blocks of a zone in the
lists of their classes, and the two levels of bitmaps up to date.  Here they are looked at on their
own, in any order, without the allocator around them.

`TlsfCoherent s z live` says what the zone should hold when `live` are the blocks that have been
inserted and not removed, the last one first.  `tlsf_index_coherent` is the run statement, and
`tlsf_search_least` what the classes and the bitmaps are for: the search takes a block of the least
class that has one.
-/

namespace Cuore

open Function Pma

/-! ## Coherence -/

/-- A free block. -/
structure TlsfBlock where
  addr : ℕ
  size : ℕ
  deriving DecidableEq

/-- The blocks of a class. -/
def classList (live : List TlsfBlock) (k : ℕ × ℕ) : List ℕ :=
  (live.filter fun b => tlsfMappingInsert b.size = k).map TlsfBlock.addr

/-- The list of a class is `l`: the links forward lead from its head through `l` to the null block,
and the links back are those of the same chain. -/
structure IsFreeList (s : Pma) (z : PmaZoneId) (k : ℕ × ℕ) (l : List ℕ) : Prop where
  head : (s.zone z).blocks k.1 k.2 = firstAddr id l (pmaBlockNull z)
  linked : Linked id (fun p a q => (s.hdr a).prev = p ∧ (s.hdr a).next = q) (pmaBlockNull z) l
    (pmaBlockNull z)
  null_not_mem : pmaBlockNull z ∉ l

/-- **The index and the blocks agree.** -/
structure TlsfCoherent (s : Pma) (z : PmaZoneId) (live : List TlsfBlock) : Prop where
  index : TlsfIndex s z
  lists : ∀ k : ℕ × ℕ, k.1 < pmaIndexCount → k.2 < pmaIndexCount →
    IsFreeList s z k (classList live k)
  once : ∀ b ∈ live, ∃! k : ℕ × ℕ, k.1 < pmaIndexCount ∧ k.2 < pmaIndexCount ∧
    ∃ l, IsFreeList s z k l ∧ b.addr ∈ l
  sizes : ∀ b ∈ live, (s.hdr b.addr).blockSize = b.size

/-- A block that can be inserted.  It starts on a page, so that the headers of two blocks do not
overlap. -/
structure TlsfNew (s : Pma) (live : List TlsfBlock) (b : TlsfBlock) : Prop where
  fresh : ∀ c ∈ live, c.addr ≠ b.addr
  aligned : pageSize ∣ b.addr
  pages : pageSize ∣ b.size
  pos : 0 < b.size
  small : b.size < 2 ^ 48
  header : (s.hdr b.addr).blockSize = b.size

/-- The states of a zone, with the blocks in it, under the three operations.  In between, memory
that is not a block of the zone may be written, the headers of later blocks in particular. -/
inductive TlsfRun (z : PmaZoneId) : Pma → List TlsfBlock → Prop
  | init {s : Pma} (totalPages : ℕ) : s.zone z = pmaZoneInit z totalPages → TlsfRun z s []
  | write {s s' : Pma} {live : List TlsfBlock} : TlsfRun z s live → s'.zone z = s.zone z →
      (∀ b ∈ live, s'.hdr b.addr = s.hdr b.addr) → TlsfRun z s' live
  | insert {s s' : Pma} {live : List TlsfBlock} {b : TlsfBlock} : TlsfRun z s live →
      TlsfNew s live b → tlsfBlockInsert z b.addr s = some s' → TlsfRun z s' (b :: live)
  | remove {s s' : Pma} {live : List TlsfBlock} {b : TlsfBlock} : TlsfRun z s live → b ∈ live →
      tlsfBlockRemove z b.addr s = some s' →
      TlsfRun z s' (live.filter fun c => c.addr ≠ b.addr)
  | locate {s s' : Pma} {live : List TlsfBlock} {size : ℕ} {found : Option ℕ} :
      TlsfRun z s live → tlsfLocateFree z size s = some (found, s') →
      TlsfRun z s' (live.filter fun c => some c.addr ≠ found)

/-- No operation faults. -/
structure TlsfServes (s : Pma) (z : PmaZoneId) (live : List TlsfBlock) : Prop where
  insert : ∀ b, TlsfNew s live b → (tlsfBlockInsert z b.addr s).isSome
  remove : ∀ b ∈ live, (tlsfBlockRemove z b.addr s).isSome
  locate : ∀ size, (tlsfLocateFree z size s).isSome

/-! ## The invariant -/

/-- The lists of all zones, those of the others left out. -/
def liveLists (z : PmaZoneId) (live : List TlsfBlock) (k : PmaKey) : List ℕ :=
  if k.1 = z then classList live k.2 else []

/-- The zone that is looked at. -/
def onlyZone (z z' : PmaZoneId) : Bool := decide (z' = z)

/-- What a run keeps. -/
structure TlsfInv (s : Pma) (z : PmaZoneId) (live : List TlsfBlock) : Prop where
  rep : TlsfRep (onlyZone z) s (liveLists z live)
  nodup : (live.map TlsfBlock.addr).Nodup
  sizes : ∀ b ∈ live, (s.hdr b.addr).blockSize = b.size

section Lists

variable {z : PmaZoneId} {live : List TlsfBlock} {b : TlsfBlock} {a : ℕ} {k : ℕ × ℕ}

@[simp] lemma onlyZone_self : onlyZone z z = true := decide_eq_true rfl

@[simp] lemma liveLists_self : liveLists z live (z, k) = classList live k := if_pos rfl

lemma mem_classList : a ∈ classList live k ↔
    ∃ b ∈ live, tlsfMappingInsert b.size = k ∧ b.addr = a := by
  simp [classList, and_assoc]

lemma mem_liveLists {k : PmaKey} : a ∈ liveLists z live k ↔
    k.1 = z ∧ ∃ b ∈ live, tlsfMappingInsert b.size = k.2 ∧ b.addr = a := by
  rw [liveLists]
  split_ifs with hk
  · rw [mem_classList, and_iff_right hk]
  · simp [hk]

/-- The lists with a new block. -/
lemma liveLists_cons : liveLists z (b :: live) =
    update (liveLists z live) (z, tlsfMappingInsert b.size)
      (b.addr :: liveLists z live (z, tlsfMappingInsert b.size)) := by
  funext ⟨z', k⟩
  by_cases hz : z' = z
  · subst hz
    by_cases hk : k = tlsfMappingInsert b.size
    · subst hk
      simp [classList]
    · rw [update_of_ne (by simpa using hk), liveLists_self, liveLists_self, classList,
        List.filter_cons_of_neg (by simpa using Ne.symm hk)]
      rfl
  · rw [update_of_ne (by simp [hz]), liveLists, liveLists, if_neg hz, if_neg hz]

lemma classList_filter : classList (live.filter fun c => c.addr ≠ a) k =
    (classList live k).filter (· ≠ a) := by
  rw [classList, classList, List.filter_map, List.filter_filter, List.filter_filter]
  congr 1
  refine List.filter_congr fun c _ => ?_
  simp [Bool.and_comm]

/-- The lists without a block. -/
lemma liveLists_filter {l₁ l₂ : List ℕ} (hb : b ∈ live) (hnd : (live.map TlsfBlock.addr).Nodup)
    (hk : classList live (tlsfMappingInsert b.size) = l₁ ++ b.addr :: l₂) :
    liveLists z (live.filter fun c => c.addr ≠ b.addr) =
      update (liveLists z live) (z, tlsfMappingInsert b.size) (l₁ ++ l₂) := by
  have hsub : (classList live (tlsfMappingInsert b.size)).Nodup :=
    hnd.sublist (List.Sublist.map _ List.filter_sublist)
  funext ⟨z', k⟩
  by_cases hz : z' = z
  swap
  · rw [update_of_ne (by simp [hz]), liveLists, liveLists, if_neg hz, if_neg hz]
  subst hz
  rw [liveLists_self, classList_filter]
  by_cases hkk : k = tlsfMappingInsert b.size
  · subst hkk
    rw [hk, List.nodup_middle, List.nodup_cons] at hsub
    have hne : ∀ x ∈ l₁ ++ l₂, x ≠ b.addr := fun x hx hxb => hsub.1 (hxb ▸ hx)
    rw [update_self, hk, List.filter_append, List.filter_cons_of_neg (by simp),
      ← List.filter_append, List.filter_eq_self.mpr (by simpa using hne)]
  · -- the block is in no other list
    rw [update_of_ne (by simpa using hkk), liveLists_self, List.filter_eq_self.mpr]
    intro x hx
    obtain ⟨c, hc, hck, rfl⟩ := mem_classList.mp hx
    simp only [ne_eq, decide_not, Bool.not_eq_true', decide_eq_false_iff_not]
    intro heq
    rw [List.inj_on_of_nodup_map hnd hc hb heq] at hck
    exact hkk hck.symm

end Lists

section Steps

variable {s s' : Pma} {z : PmaZoneId} {live : List TlsfBlock} {b : TlsfBlock}

/-- An empty zone. -/
lemma tlsfInv_init {totalPages : ℕ} (h : s.zone z = pmaZoneInit z totalPages) :
    TlsfInv s z [] := by
  have hnil : ∀ k, liveLists z [] k = [] := fun k => by
    rw [liveLists]
    split_ifs <;> rfl
  refine ⟨⟨⟨fun k => ?_, fun k => ?_, ?_, ?_, ?_⟩, fun z' hz' fl i => ?_, fun z' hz' i => ?_,
    ?_, ?_, ?_⟩, List.nodup_nil, by simp⟩
  · rw [hnil, headsOn]
    split_ifs with hk
    · rw [heads, show k.1 = z from of_decide_eq_true hk, h]
      rw [PmaKey.null, show k.1 = z from of_decide_eq_true hk]
      rfl
    · rfl
  · rw [hnil]
    trivial
  all_goals simp only [hnil, List.not_mem_nil, List.nodup_nil, false_implies, implies_true,
    not_false_eq_true, ne_eq, not_true_eq_false, decide_false]
  · rw [slMaps, show z' = z from of_decide_eq_true hz', h]
    exact Nat.zero_testBit i
  · rw [slMaps, flMaps, show z' = z from of_decide_eq_true hz', h]
    simp [pmaZoneInit]

lemma TlsfInv.write (h : TlsfInv s z live) (hzone : s'.zone z = s.zone z)
    (hhdr : ∀ b ∈ live, s'.hdr b.addr = s.hdr b.addr) : TlsfInv s' z live := by
  refine ⟨h.rep.of_hdr (fun k a ha => ?_) fun z' hz' => ?_, h.nodup, fun b hb => ?_⟩
  · obtain ⟨-, b, hb, -, rfl⟩ := mem_liveLists.mp ha
    exact hhdr b hb
  · rw [show z' = z from of_decide_eq_true hz', hzone]
  · rw [hhdr b hb, h.sizes b hb]

/-- Inserting a block. -/
lemma TlsfInv.insert (h : TlsfInv s z live) (hb : TlsfNew s live b) :
    ∃ s', tlsfBlockInsert z b.addr s = some s' ∧ TlsfInv s' z (b :: live) := by
  have hnew : ∀ k, b.addr ∉ liveLists z live k := fun k hk => by
    obtain ⟨-, c, hc, -, heq⟩ := mem_liveLists.mp hk
    exact hb.fresh c hc heq
  obtain ⟨s', ⟨z', k⟩, heq, hsame, hz, hrep⟩ := h.rep.insert (z := z) onlyZone_self hnew
    ⟨hb.aligned, hb.header ▸ hb.pages⟩ (hb.header ▸ hb.small)
  dsimp only at hz
  subst hz
  refine ⟨s', heq, ?_, ?_, ?_⟩
  · -- the list is that of the block's class
    have hmapped := hrep.mapped z' k.1 k.2 b.addr (by simp)
    rw [hsame.blockSize, hb.header] at hmapped
    rw [liveLists_cons, hmapped]
    exact hrep
  · rw [List.map_cons, List.nodup_cons]
    refine ⟨fun hmem => ?_, h.nodup⟩
    obtain ⟨c, hc, heq⟩ := List.mem_map.mp hmem
    exact hb.fresh c hc heq
  · intro c hc
    rw [hsame.blockSize]
    rcases List.mem_cons.mp hc with rfl | hc
    · exact hb.header
    · exact h.sizes c hc

/-- Taking a block from its list. -/
lemma TlsfInv.removeBlock (h : TlsfInv s z live) (hb : b ∈ live) :
    ∃ s', tlsfRemoveFreeBlock z b.addr (tlsfMappingInsert b.size).1 (tlsfMappingInsert b.size).2 s =
        some s' ∧ TlsfInv s' z (live.filter fun c => c.addr ≠ b.addr) := by
  obtain ⟨l₁, l₂, hk⟩ := List.append_of_mem (mem_classList.mpr ⟨b, hb, rfl, rfl⟩)
  have hkey : liveLists z live (z, (tlsfMappingInsert b.size).1, (tlsfMappingInsert b.size).2) =
      l₁ ++ b.addr :: l₂ := liveLists_self.trans hk
  obtain ⟨s', heq, hsame, hrep⟩ := h.rep.remove hkey
  refine ⟨s', heq, ?_, h.nodup.sublist (List.filter_sublist.map _), fun c hc => ?_⟩
  · rw [liveLists_filter hb h.nodup hk]
    exact hrep
  · rw [hsame.blockSize]
    exact h.sizes c (List.mem_filter.mp hc).1

lemma TlsfInv.fst_lt (h : TlsfInv s z live) (hb : b ∈ live) :
    (tlsfMappingInsert b.size).1 < pmaIndexCount := by
  have hk : liveLists z live (z, tlsfMappingInsert b.size) ≠ [] :=
    List.ne_nil_of_mem (mem_liveLists.mpr ⟨rfl, b, hb, rfl, rfl⟩)
  exact (h.rep.index_lt hk).1

lemma TlsfInv.remove (h : TlsfInv s z live) (hb : b ∈ live) :
    ∃ s', tlsfBlockRemove z b.addr s = some s' ∧
      TlsfInv s' z (live.filter fun c => c.addr ≠ b.addr) := by
  obtain ⟨s', heq, hinv⟩ := h.removeBlock hb
  refine ⟨s', ?_, hinv⟩
  rw [tlsfBlockRemove, h.sizes b hb]
  exact (if_pos (h.fst_lt hb)).trans heq

/-- The head of a list is a block of its class. -/
lemma TlsfInv.exists_of_nonEmpty (h : TlsfInv s z live) {k : ℕ × ℕ} (hk : TlsfNonEmpty s z k) :
    ∃ b ∈ live, b.addr = (s.zone z).blocks k.1 k.2 ∧ tlsfMappingInsert b.size = k := by
  have hne := (h.rep.nonEmpty_iff onlyZone_self).mp hk
  obtain ⟨a, l, hl⟩ := List.exists_cons_of_ne_nil hne
  have hhead := h.rep.chains.head_eq (z, k)
  rw [headsOn_of_on (k := (z, k)) onlyZone_self, hl] at hhead
  obtain ⟨-, b, hb, hbk, rfl⟩ := mem_liveLists.mp (show a ∈ liveLists z live (z, k) by simp [hl])
  exact ⟨b, hb, hhead.symm, hbk⟩

/-- Locating a block: none is found, or one is taken from its list. -/
lemma TlsfInv.locate (h : TlsfInv s z live) (size : ℕ) :
    tlsfLocateFree z size s = some (none, s) ∨
      ∃ b ∈ live, ∃ s', tlsfLocateFree z size s = some (some b.addr, s') ∧
        TlsfInv s' z (live.filter fun c => c.addr ≠ b.addr) := by
  rcases hmap : tlsfMappingInsert size with ⟨fl, sl⟩
  unfold tlsfLocateFree
  rw [hmap]
  by_cases hsize : size = 0
  · exact .inl (if_pos hsize)
  by_cases hfl : fl < pmaIndexCount
  swap
  · exact .inl (by simp [hsize, hfl])
  have hsl : sl < pmaIndexCount := by
    have hsnd := tlsfMappingInsert_snd_lt size
    rwa [hmap] at hsnd
  rcases (h.rep.index onlyZone_self).search hfl hsl with ⟨hnone, -⟩ | ⟨k, hsome, ⟨-, hk⟩, -⟩
  · exact .inl (by simp [hsize, hfl, hnone])
  · obtain ⟨b, hb, haddr, hbk⟩ := h.exists_of_nonEmpty hk
    obtain ⟨s', heq, hinv⟩ := h.removeBlock hb
    have haddr' : (s.zone z).blocks k.1 k.2 = b.addr := haddr.symm
    rw [haddr'] at hsome
    rw [show tlsfMappingInsert b.size = (k.1, k.2) from hbk] at heq
    exact .inr ⟨b, hb, s', by simp [hsize, hfl, hsome, heq], hinv⟩

/-- The list of a class. -/
lemma TlsfInv.isFreeList (h : TlsfInv s z live) (k : ℕ × ℕ) :
    IsFreeList s z k (classList live k) := by
  have hhead := h.rep.chains.head_eq (z, k)
  have hlinked := h.rep.chains.linked (z, k)
  have hnull := h.rep.chains.null_not_mem (z, k) (z, k)
  rw [headsOn_of_on (k := (z, k)) onlyZone_self, liveLists_self] at hhead
  rw [liveLists_self] at hlinked hnull
  exact ⟨hhead, hlinked, hnull⟩

lemma IsFreeList.unique {k : ℕ × ℕ} {l l' : List ℕ} (h : IsFreeList s z k l)
    (h' : IsFreeList s z k l') : l = l' :=
  Linked.eq_of_firstAddr h.linked h'.linked h.null_not_mem h'.null_not_mem
    (h.head.symm.trans h'.head)

/-- **What the invariant says.** -/
lemma TlsfInv.coherent (h : TlsfInv s z live) : TlsfCoherent s z live := by
  refine ⟨h.rep.index onlyZone_self, fun k _ _ => h.isFreeList k, fun b hb => ?_, h.sizes⟩
  have hmem : b.addr ∈ classList live (tlsfMappingInsert b.size) :=
    mem_classList.mpr ⟨b, hb, rfl, rfl⟩
  refine ⟨tlsfMappingInsert b.size, ⟨h.fst_lt hb, tlsfMappingInsert_snd_lt b.size, _,
    h.isFreeList _, hmem⟩, ?_⟩
  rintro k ⟨-, -, l, hl, hbl⟩
  rw [hl.unique (h.isFreeList k), mem_classList] at hbl
  obtain ⟨c, hc, hck, heq⟩ := hbl
  rw [← hck, List.inj_on_of_nodup_map h.nodup hc hb heq]

lemma TlsfInv.serves (h : TlsfInv s z live) : TlsfServes s z live := by
  refine ⟨fun b hb => ?_, fun b hb => ?_, fun size => ?_⟩
  · obtain ⟨s', heq, -⟩ := h.insert hb
    rw [heq]
    rfl
  · obtain ⟨s', heq, -⟩ := h.remove hb
    rw [heq]
    rfl
  · rcases h.locate size with heq | ⟨b, -, s', heq, -⟩ <;>
      rw [heq] <;> rfl

end Steps

/-- The invariant holds along every run. -/
lemma TlsfRun.inv {z : PmaZoneId} {s : Pma} {live : List TlsfBlock} (h : TlsfRun z s live) :
    TlsfInv s z live := by
  induction h with
  | init _ hzone => exact tlsfInv_init hzone
  | write _ hzone hhdr ih => exact ih.write hzone hhdr
  | insert _ hnew heq ih =>
    obtain ⟨s', heq', hinv⟩ := ih.insert hnew
    rwa [Option.some.inj (heq.symm.trans heq')]
  | remove _ hb heq ih =>
    obtain ⟨s', heq', hinv⟩ := ih.remove hb
    rwa [Option.some.inj (heq.symm.trans heq')]
  | @locate s s' live size found _ heq ih =>
    rcases ih.locate size with heq' | ⟨b, hb, t, heq', hinv⟩
    · obtain ⟨rfl, rfl⟩ := Prod.mk.inj (Option.some.inj (heq.symm.trans heq'))
      simpa using ih
    · obtain ⟨rfl, rfl⟩ := Prod.mk.inj (Option.some.inj (heq.symm.trans heq'))
      simpa using hinv

/-- **The index stays coherent.**  In every state that insertions, removals and searches reach from
an empty zone, the bitmaps say which lists are not empty, each list is a chain of exactly the blocks
of its class, linked both ways and with the last one inserted first, and every block is in exactly
one list.  No operation faults. -/
theorem tlsf_index_coherent {z : PmaZoneId} {s : Pma} {live : List TlsfBlock}
    (h : TlsfRun z s live) : TlsfCoherent s z live ∧ TlsfServes s z live :=
  ⟨h.inv.coherent, h.inv.serves⟩

lemma eq_some_getD {α : Type} {x : Option α} {d : α} (h : x.isSome) : x = some (x.getD d) := by
  obtain ⟨y, rfl⟩ := Option.isSome_iff_exists.mp h
  rfl

/-- Two blocks of 32 pages and one of three are inserted, the first one is removed from behind the
second, and a search for two pages takes the third. -/
theorem tlsf_index_coherent_three :
    ∃ s, TlsfRun .low s [⟨0x40000, 0x20000⟩] ∧ TlsfCoherent s .low [⟨0x40000, 0x20000⟩] := by
  let s₀ : Pma := ⟨fun a => ⟨pmaNull, pmaNull, if a = 0x80000 then 0x3001 else 0x20001⟩,
    fun _ => true, fun z => pmaZoneInit z 256⟩
  let s₁ := (tlsfBlockInsert .low 0x10000 s₀).getD s₀
  let s₂ := (tlsfBlockInsert .low 0x40000 s₁).getD s₁
  let s₃ := (tlsfBlockInsert .low 0x80000 s₂).getD s₂
  let s₄ := (tlsfBlockRemove .low 0x10000 s₃).getD s₃
  let s₅ := ((tlsfLocateFree .low 0x2000 s₄).getD (none, s₄)).2
  have hrun₀ : TlsfRun .low s₀ [] := .init 256 rfl
  have hrun₁ : TlsfRun .low s₁ [⟨0x10000, 0x20000⟩] :=
    hrun₀.insert ⟨by simp, by decide, by decide, by decide, by decide, by decide +kernel⟩
      (eq_some_getD (by decide +kernel))
  have hrun₂ : TlsfRun .low s₂ [⟨0x40000, 0x20000⟩, ⟨0x10000, 0x20000⟩] :=
    hrun₁.insert ⟨by simp, by decide, by decide, by decide, by decide, by decide +kernel⟩
      (eq_some_getD (by decide +kernel))
  have hrun₃ : TlsfRun .low s₃ [⟨0x80000, 0x3000⟩, ⟨0x40000, 0x20000⟩, ⟨0x10000, 0x20000⟩] :=
    hrun₂.insert ⟨by simp, by decide, by decide, by decide, by decide, by decide +kernel⟩
      (eq_some_getD (by decide +kernel))
  have hrun₄ : TlsfRun .low s₄ [⟨0x80000, 0x3000⟩, ⟨0x40000, 0x20000⟩] :=
    hrun₃.remove (b := ⟨0x10000, 0x20000⟩) (by simp)
      (eq_some_getD (by decide +kernel))
  have hlocate : tlsfLocateFree .low 0x2000 s₄ = some (some 0x80000, s₅) := by
    have hfound : ((tlsfLocateFree .low 0x2000 s₄).getD (none, s₄)).1 = some 0x80000 := by
      decide +kernel
    rw [← hfound]
    exact eq_some_getD (by decide +kernel)
  have hrun₅ : TlsfRun .low s₅ [⟨0x40000, 0x20000⟩] := hrun₄.locate hlocate
  exact ⟨s₅, hrun₅, (tlsf_index_coherent hrun₅).1⟩

/-! ## The search -/

/-- What `tlsf_search_suitable` returns for a size: the block at the head of the least class that is
not before that of the size and has a block, and null if there is none.  A block of a greater class
is larger than the size. -/
structure SearchesLeast (s : Pma) (z : PmaZoneId) (size : ℕ) : Prop where
  total : (tlsfSearchSuitable z (tlsfMappingInsert size).1 (tlsfMappingInsert size).2 s).isSome
  null_iff : tlsfSearchSuitable z (tlsfMappingInsert size).1 (tlsfMappingInsert size).2 s =
    some none ↔ ∀ k, toLex (tlsfMappingInsert size) ≤ toLex k → ¬TlsfNonEmpty s z k
  least : ∀ a fl sl, tlsfSearchSuitable z (tlsfMappingInsert size).1 (tlsfMappingInsert size).2 s =
    some (some (a, fl, sl)) → a = (s.zone z).blocks fl sl ∧
      IsLeast {k | toLex (tlsfMappingInsert size) ≤ k ∧ TlsfNonEmpty s z (ofLex k)}
        (toLex (fl, sl)) ∧
      (toLex (tlsfMappingInsert size) < toLex (fl, sl) → size < (s.hdr a).blockSize)

/-- The head of a list is a block of the zone. -/
lemma TlsfCoherent.exists_of_nonEmpty {s : Pma} {z : PmaZoneId} {live : List TlsfBlock}
    (h : TlsfCoherent s z live) {k : ℕ × ℕ} (hk : TlsfNonEmpty s z k) :
    ∃ b ∈ live, b.addr = (s.zone z).blocks k.1 k.2 ∧ tlsfMappingInsert b.size = k := by
  have hhead := (h.lists k hk.fst_lt hk.snd_lt).head
  rcases firstAddr_mem_or (l := classList live k) (q := pmaBlockNull z) with hmem | heq
  · rw [← hhead] at hmem
    obtain ⟨b, hb, hbk, haddr⟩ := mem_classList.mp hmem
    exact ⟨b, hb, haddr, hbk⟩
  · exact absurd (hhead.trans heq) hk.head_ne

lemma TlsfCoherent.searchesLeast {s : Pma} {z : PmaZoneId} {live : List TlsfBlock}
    (h : TlsfCoherent s z live) {size : ℕ} (hsize : size < 2 ^ 48) : SearchesLeast s z size := by
  have hfst := tlsfMappingInsert_fst_lt_iff.mpr hsize
  rcases h.index.search hfst (tlsfMappingInsert_snd_lt size) with
    ⟨hnone, hempty⟩ | ⟨k, hsome, hleast⟩
  · refine ⟨by rw [hnone]; rfl, ⟨fun _ => hempty, fun _ => hnone⟩, fun a fl sl heq => ?_⟩
    rw [hnone] at heq
    cases heq
  · refine ⟨by rw [hsome]; rfl, ⟨fun hnone => ?_, fun hempty => ?_⟩, fun a fl sl heq => ?_⟩
    · rw [hsome] at hnone
      cases hnone
    · exact absurd hleast.1.2 (hempty k hleast.1.1)
    · rw [hsome] at heq
      obtain ⟨rfl, hk⟩ : (s.zone z).blocks k.1 k.2 = a ∧ k = (fl, sl) := by simpa using heq
      subst hk
      refine ⟨rfl, hleast, fun hlt => ?_⟩
      obtain ⟨b, hb, haddr, hbk⟩ := h.exists_of_nonEmpty hleast.1.2
      rw [← show b.addr = (s.zone z).blocks fl sl from haddr, h.sizes b hb]
      exact lt_of_class_lt (hlt.trans_eq (congrArg toLex hbk.symm))

/-- **The classes are ordered, and the search is minimal.**  The classes of page sizes below
`2 ^ 48` lie in the arrays and grow with the sizes.  In a coherent zone the search for a size that
has a class in the arrays finds the least class with a block; for the other sizes there is no
search, and `tlsf_locate_free` finds nothing. -/
theorem tlsf_search_least :
    (∀ m n, 0 < m → m ≤ n → n < 2 ^ 48 → pageSize ∣ m → pageSize ∣ n →
      ((tlsfMappingInsert m).1 < 32 ∧ (tlsfMappingInsert m).2 < 32) ∧
      ((tlsfMappingInsert n).1 < 32 ∧ (tlsfMappingInsert n).2 < 32) ∧
      toLex (tlsfMappingInsert m) ≤ toLex (tlsfMappingInsert n)) ∧
    ∀ (s : Pma) (z : PmaZoneId) (live : List TlsfBlock), TlsfCoherent s z live → ∀ size,
      (size < 2 ^ 48 → SearchesLeast s z size) ∧
      (2 ^ 48 ≤ size → tlsfLocateFree z size s = some (none, s)) := by
  have hclass : ∀ n < 2 ^ 48, (tlsfMappingInsert n).1 < 32 ∧ (tlsfMappingInsert n).2 < 32 :=
    fun n hn => ⟨tlsfMappingInsert_fst_lt_iff.mpr hn, tlsfMappingInsert_snd_lt n⟩
  refine ⟨fun m n _ hle hn _ _ => ⟨hclass m (hle.trans_lt hn), hclass n hn,
    tlsfMappingInsert_mono hle⟩, fun s z live h size => ⟨h.searchesLeast, fun hlarge => ?_⟩⟩
  have hfst : ¬(tlsfMappingInsert size).1 < pmaIndexCount := by
    rw [tlsfMappingInsert_fst_lt_iff]
    exact not_lt.mpr hlarge
  rw [tlsfLocateFree, if_neg (by omega : ¬size = 0)]
  exact if_neg hfst

/-- With one block of 32 pages in the zone, a search for three pages finds it in its greater class. -/
theorem tlsf_search_least_one :
    toLex (tlsfMappingInsert 0x3000) ≤ toLex (tlsfMappingInsert 0x20000) ∧
    ∃ s, TlsfCoherent s .low [⟨0x40000, 0x20000⟩] ∧ SearchesLeast s .low 0x3000 := by
  refine ⟨(tlsf_search_least.1 0x3000 0x20000 (by decide) (by decide) (by decide) (by decide)
    (by decide)).2.2, ?_⟩
  let s₀ : Pma := ⟨fun _ => ⟨pmaNull, pmaNull, 0x20001⟩, fun _ => true, fun z => pmaZoneInit z 256⟩
  let s₁ := (tlsfBlockInsert .low 0x40000 s₀).getD s₀
  have hrun₀ : TlsfRun .low s₀ [] := .init 256 rfl
  have hrun₁ : TlsfRun .low s₁ [⟨0x40000, 0x20000⟩] :=
    hrun₀.insert ⟨by simp, by decide, by decide, by decide, by decide, by decide +kernel⟩
      (eq_some_getD (by decide +kernel))
  have hcoherent := hrun₁.inv.coherent
  exact ⟨s₁, hcoherent, (tlsf_search_least.2 s₁ .low _ hcoherent 0x3000).1 (by decide)⟩

end Cuore
