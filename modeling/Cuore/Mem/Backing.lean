import Cuore.Mem.Paging.GetPhys
import Cuore.Mem.Paging.Missing
import Cuore.Mem.Pma.Page
import Cuore.Mem.Vmm

/-!
# Memory behind ranges of addresses (`mem/pma.c`, `mem/vmm.c`, `mem/paging.c`)

The three memory managers together.  A range of virtual addresses comes from `vmm.c` and the frames
for it from `pma.c`, and `paging.c` maps the one to the other, with tables for which it calls
`pma_alloc_pages(1)`.

`MemoryInv` is what the three of them keep: each its own invariant, and no table is in a page that
is free.  `Backed` says of a set of addresses that all of them are mapped, each to a byte of its
own that is neither free nor part of a table.  `MemoryInv.mapRange` is the one place where a set
grows: the range is new to `vmm.c` and its frames are new to `pma.c`, so that nothing that was
backed before is touched.  What the rest of the kernel does in the meantime is `OtherStep`.
-/

namespace Cuore

/-! ## The three managers -/

/-- The paging depth, the address of the top table and the number of pages of physical memory. -/
structure AddressSpace where
  levels : ℕ
  top : ℕ
  totalPages : ℕ
  total_le : totalPages ≤ 2 ^ 36
  levels_eq : levels = 4 ∨ levels = 5
  top_page : pageSize ∣ top ∧ top < physLimit

namespace AddressSpace

variable (A : AddressSpace)

/-- The page walk. -/
def walk (m : Memory) (v : ℕ) : Option Mapping := hwWalk m v (A.levels - 1) A.top

/-- The tables. -/
def tables (m : Memory) : Set ℕ := Cuore.tables m 512 (A.levels - 1) A.top

/-- The pages that are free. -/
def freePages (s : Pma) : Set ℕ := pmaFreeSet A.totalPages s

end AddressSpace

/-- The state after `n` calls of `pma_alloc_pages(1)`. -/
def Pma.afterPages (s : Pma) : ℕ → Option Pma
  | 0 => some s
  | n + 1 => (s.afterPages n).bind fun s => (pmaAllocPages 1 s).map Prod.snd

/-- What `pma_alloc_pages(1)` returns after `n` such calls. -/
def Pma.pageAnswer (s : Pma) (n : ℕ) : ℕ :=
  (((s.afterPages n).bind (pmaAllocPages 1)).map Prod.fst).getD 0

/-- The state of the three managers; `mem` is physical memory. -/
structure KernelMemory where
  pma : Pma
  vmm : Vmm
  mem : Memory

section Functions

variable (A : AddressSpace)

/-- A map function, with the page allocator behind it. -/
def KernelMemory.map (kind : PageKind) (virt phys flags : ℕ) (k : KernelMemory) :
    Option KernelMemory := do
  let s ← pagingMapNoflush k.pma.pageAnswer kind A.levels A.top virt phys flags ⟨k.mem, 0, 0⟩
  let pma ← k.pma.afterPages s.calls
  some { k with pma := pma, mem := s.mem }

/-- The loop that maps the `n` pages of a range. -/
def mapPages (kind : PageKind) (virt phys flags : ℕ) : ℕ → KernelMemory → Option KernelMemory
  | 0, k => some k
  | n + 1, k => do
    let k ← mapPages kind virt phys flags n k
    k.map A kind (wadd virt (n * kind.size)) (wadd phys (n * kind.size)) flags

/-- Frames, addresses for them, and the loop that maps these; the answer is the first address, or
zero.  There are nodes for ranges in the early pool only, as `vmm_switch_to_heap` is not called. -/
def mapRange (kind : PageKind) (c : PmaAlloc) (n flags : ℕ) (k : KernelMemory) :
    Option (ℕ × KernelMemory) := do
  let (phys, pma) ← c.run k.pma
  if phys = 0 then some (0, { k with pma := pma })
  else
    let (virt, vmm) ← vmmAllocAligned false c.count kind.size k.vmm
    if virt = 0 then
      let pma ← pmaFreePages phys c.count pma
      some (0, { k with pma := pma, vmm := vmm })
    else
      let k ← mapPages A kind virt phys flags n { k with pma := pma, vmm := vmm }
      some (virt, k)

end Functions

/-! ## What they keep -/

/-- Between the end of the pool and the end of the address space is room for all of memory, and the
addresses of the pool are canonical.  With four levels, this is memory below 16 TiB.  With five
levels, where the pool ends 2 MiB below 2^64, it is memory below 2 MiB: such machines are left out. -/
structure PoolFits (A : AddressSpace) (s : Vmm) : Prop where
  le : s.poolBase ≤ s.poolEnd
  aligned : pageSize2mb ∣ s.poolEnd
  room : s.poolEnd + A.totalPages * pageSize < word
  canonical : ∀ v, s.poolBase ≤ v → v < s.poolEnd → Canonical A.levels v

/-- What the tables rely on: `pma.c` keeps its invariant, and no table is in a free page. -/
structure TablesInv (A : AddressSpace) (k : KernelMemory) : Prop where
  pma : PmaWellFormed A.totalPages k.pma
  separate : Separate k.mem 512 (A.levels - 1) A.top
  entries : AllEntries PlainEntry k.mem 512 (A.levels - 1) A.top
  used : ∀ x ∈ A.tables k.mem, x / pageSize ∉ A.freePages k.pma

/-- **The invariant**: each manager keeps its own, and no table is in a free page. -/
structure MemoryInv (A : AddressSpace) (k : KernelMemory) (live : List VmmLive) : Prop where
  pma : PmaWellFormed A.totalPages k.pma
  vmm : VmmInv k.vmm live
  pool : PoolFits A k.vmm
  separate : Separate k.mem 512 (A.levels - 1) A.top
  entries : AllEntries PlainEntry k.mem 512 (A.levels - 1) A.top
  used : ∀ x ∈ A.tables k.mem, x / pageSize ∉ A.freePages k.pma

/-- **The addresses in `V` are backed**: each is mapped with the rights `rights`, to a byte that is
not free and not in a table, and no two of them to the same one. -/
structure Backed (A : AddressSpace) (rights : ℕ) (k : KernelMemory) (V : Set ℕ) : Prop where
  mapped : ∀ v ∈ V, ∃ a, A.walk k.mem v = some ⟨a, rights⟩ ∧ a / pageSize < A.totalPages ∧
    a / pageSize ∉ A.freePages k.pma ∧ alignDown pageSize a ∉ A.tables k.mem
  injective : Set.InjOn (A.walk k.mem) V

variable {A : AddressSpace} {k k' k'' : KernelMemory} {live : List VmmLive} {s s' : Pma}
  {kind : PageKind} {virt phys flags rights len len' n j : ℕ} {V W : Set ℕ}

lemma MemoryInv.tablesInv (h : MemoryInv A k live) : TablesInv A k :=
  ⟨h.pma, h.separate, h.entries, h.used⟩

/-! ## Pages for tables -/

lemma AddressSpace.freePages_subset (h : OnlyTakes s s') : A.freePages s' ⊆ A.freePages s :=
  h.freeSet_subset

/-- The calls go through. -/
lemma PmaWellFormed.afterPages (h : PmaWellFormed A.totalPages s) (n : ℕ) :
    ∃ s', s.afterPages n = some s' ∧ PmaWellFormed A.totalPages s' := by
  induction n with
  | zero => exact ⟨s, rfl, h⟩
  | succ n ih =>
    obtain ⟨s', hs', h'⟩ := ih
    obtain ⟨ret, s'', heq, hwell, -⟩ := (h'.callSafe_iff (.pages 1)).mpr (.inl (by decide))
    have hcall : pmaAllocPages 1 s' = some (ret, s'') := heq
    exact ⟨s'', by rw [Pma.afterPages, hs', Option.bind_some, hcall]; rfl, hwell⟩

lemma Pma.afterPages_add (s : Pma) (m n : ℕ) :
    s.afterPages (m + n) = (s.afterPages m).bind fun s => s.afterPages n := by
  induction n with
  | zero =>
    rw [Nat.add_zero]
    exact (Option.bind_fun_some _).symm
  | succ n ih =>
    change (s.afterPages (m + n)).bind _ = _
    rw [ih, Option.bind_assoc]
    rfl

lemma Pma.afterPages_onlyTakes (h : s.afterPages n = some s') : OnlyTakes s s' := by
  induction n generalizing s' with
  | zero =>
    obtain rfl := Option.some.inj h
    exact OnlyTakes.refl s
  | succ n ih =>
    obtain ⟨t, ht, h⟩ := Option.bind_eq_some_iff.mp h
    obtain ⟨⟨ret, t'⟩, hcall, rfl⟩ := Option.map_eq_some_iff.mp h
    exact (ih ht).trans (PmaAlloc.onlyTakes (c := .pages 1) hcall)

/-- A call that is answered takes a free page; one that is not leaves no page. -/
lemma PmaWellFormed.pageAnswer (h : PmaWellFormed A.totalPages s) (n : ℕ) :
    ∃ t t', s.afterPages n = some t ∧ s.afterPages (n + 1) = some t' ∧
      (s.pageAnswer n = 0 ∧ A.freePages t' = ∅ ∨ ∃ p, s.pageAnswer n = p * pageSize ∧
        p < A.totalPages ∧ p ∈ A.freePages t ∧ p ∉ A.freePages t') := by
  obtain ⟨t, ht, hwell⟩ := h.afterPages n
  obtain ⟨ret, t', hcall, -, hcases⟩ := (hwell.callSafe_iff (.pages 1)).mpr (.inl (by decide))
  have hcall' : pmaAllocPages 1 t = some (ret, t') := hcall
  have hret : s.pageAnswer n = ret := by
    rw [Pma.pageAnswer, ht, Option.bind_some, hcall']
    rfl
  refine ⟨t, t', ht, by rw [Pma.afterPages, ht, Option.bind_some, hcall']; rfl, ?_⟩
  obtain ⟨ret', t'', hcall'', hfree⟩ := hwell.allocPage
  obtain ⟨rfl, rfl⟩ := Prod.mk.inj (Option.some.inj (hcall'.symm.trans hcall''))
  rw [hret]
  rcases hfree with ⟨-, hzero, hempty⟩ | ⟨hne, -⟩
  · exact .inl ⟨hzero, hempty⟩
  · obtain ⟨p, rfl, hle, hwas, hnow⟩ := hcases.resolve_left hne
    have hp : p < A.totalPages := hle
    refine .inr ⟨p, rfl, hp, ⟨hp, hwas p le_rfl (Nat.lt_succ_self p)⟩, fun hmem => ?_⟩
    exact ((hnow p hp).mp hmem.2).2 ⟨le_rfl, Nat.lt_succ_self p⟩

/-- A page number is one of physical memory. -/
lemma PmaWellFormed.page_lt (h : PmaWellFormed A.totalPages s) {p : ℕ} (hp : p < A.totalPages) :
    p * pageSize < physLimit :=
  (Nat.mul_lt_mul_of_pos_right (hp.trans_le h.total_le) (by decide)).trans_le (by decide)

/-- Later calls find free what earlier ones have left. -/
lemma Pma.freePages_afterPages {t t' : Pma} {m : ℕ} (hle : m ≤ n) (ht : s.afterPages m = some t)
    (ht' : s.afterPages n = some t') : A.freePages t' ⊆ A.freePages t := by
  obtain ⟨d, rfl⟩ := Nat.exists_eq_add_of_le hle
  rw [Pma.afterPages_add, ht, Option.bind_some] at ht'
  exact AddressSpace.freePages_subset (Pma.afterPages_onlyTakes ht')

/-- **The page allocator serves the page tables**: it hands out pages of physical memory that no
table is in, and none twice. -/
lemma TablesInv.freshPages (h : TablesInv A k) :
    FreshPages k.mem 512 (A.levels - 1) A.top k.pma.pageAnswer 0 := by
  have hanswer : ∀ n, k.pma.pageAnswer n ≠ 0 → ∃ t t' p, k.pma.afterPages n = some t ∧
      k.pma.afterPages (n + 1) = some t' ∧ k.pma.pageAnswer n = p * pageSize ∧
      p < A.totalPages ∧ p ∈ A.freePages t ∧ p ∉ A.freePages t' := by
    intro n hne
    obtain ⟨t, t', ht, ht', hcases⟩ := h.pma.pageAnswer n
    obtain ⟨p, hp⟩ := hcases.resolve_left fun hzero => hne hzero.1
    exact ⟨t, t', p, ht, ht', hp⟩
  have hlater : ∀ i j, i < j → k.pma.pageAnswer i ≠ 0 → k.pma.pageAnswer j ≠ 0 →
      k.pma.pageAnswer i ≠ k.pma.pageAnswer j := by
    intro i j hij hi hj heq
    obtain ⟨-, t', p, -, ht', hp, -, -, hused⟩ := hanswer i hi
    obtain ⟨t, -, q, ht, -, hq, -, hfree, -⟩ := hanswer j hj
    rw [hp, hq] at heq
    obtain rfl : p = q := Nat.eq_of_mul_eq_mul_right (by decide) heq
    exact hused (Pma.freePages_afterPages hij ht' ht hfree)
  refine ⟨fun n _ hne => ?_, fun n _ hne hmem => ?_, fun i j _ _ hi heq => ?_⟩
  · obtain ⟨-, -, p, -, -, hp, hlt, -⟩ := hanswer n hne
    rw [hp]
    exact ⟨Nat.dvd_mul_left _ _, h.pma.page_lt hlt⟩
  · obtain ⟨t, -, p, ht, -, hp, -, hfree, -⟩ := hanswer n hne
    refine h.used _ hmem ?_
    rw [hp, Nat.mul_div_cancel _ (by decide)]
    exact AddressSpace.freePages_subset (Pma.afterPages_onlyTakes ht) hfree
  · rcases Nat.lt_trichotomy i j with hij | hij | hij
    · exact absurd heq (hlater i j hij hi (heq ▸ hi))
    · exact hij
    · exact absurd heq.symm (hlater j i hij (heq ▸ hi) hi)

/-- The pages that the first `n` calls hand out were free, and are not any more. -/
lemma PmaWellFormed.mem_handedOut (h : PmaWellFormed A.totalPages s)
    (hn : s.afterPages n = some s') {x : ℕ} (hx : x ∈ handedOut s.pageAnswer 0 n) :
    x / pageSize ∈ A.freePages s ∧ x / pageSize ∉ A.freePages s' := by
  obtain ⟨i, -, hin, rfl, hne⟩ := hx
  obtain ⟨t, t', ht, ht', hcases⟩ := h.pageAnswer i
  obtain ⟨p, hp, -, hfree, hused⟩ := hcases.resolve_left fun hzero => hne hzero.1
  rw [hp, Nat.mul_div_cancel _ (by decide)]
  exact ⟨AddressSpace.freePages_subset (Pma.afterPages_onlyTakes ht) hfree,
    fun hmem => hused (Pma.freePages_afterPages hin ht' hn hmem)⟩

/-- If there is a page left, no call has failed. -/
lemma PmaWellFormed.pageAnswer_ne_zero (h : PmaWellFormed A.totalPages s)
    (hn : s.afterPages n = some s') (hleft : (A.freePages s').Nonempty) (hj : j < n) :
    s.pageAnswer j ≠ 0 := by
  intro hzero
  obtain ⟨t, t', ht, ht', hcases⟩ := h.pageAnswer j
  rcases hcases with ⟨-, hempty⟩ | ⟨p, hp, -, hfree, -⟩
  · exact hleft.ne_empty (Set.subset_eq_empty (Pma.freePages_afterPages hj ht' hn) hempty)
  · -- page 0 is never free
    obtain rfl : p = 0 := by
      rw [hzero] at hp
      exact (Nat.mul_eq_zero.mp hp.symm).resolve_right (by decide)
    obtain ⟨free, hinv⟩ := h
    obtain ⟨hlt, hbit⟩ := AddressSpace.freePages_subset (A := A) (Pma.afterPages_onlyTakes ht) hfree
    obtain ⟨b, hb, hmem⟩ := (hinv.clear rfl .normal rfl 0 hlt).mp hbit
    exact (hinv.within b (by simpa using hb)).2 0 hmem rfl

/-! ## Mapping -/

/-- **The range of `len` addresses from `virt` on has been mapped** to the frames at `phys`, if
there is a page left.  Otherwise a table may be missing.  All other addresses are mapped as
before. -/
structure MapsRange (A : AddressSpace) (rights virt phys len : ℕ) (k k' : KernelMemory) : Prop where
  vmm : k'.vmm = k.vmm
  takes : OnlyTakes k.pma k'.pma
  tables_sub : ∀ x ∈ A.tables k'.mem, x ∈ A.tables k.mem ∨
    x / pageSize ∈ A.freePages k.pma ∧ x / pageSize ∉ A.freePages k'.pma
  walk_off : ∀ v, Canonical A.levels v → v < virt ∨ virt + len ≤ v →
    A.walk k'.mem v = A.walk k.mem v
  walk_on : (A.freePages k'.pma).Nonempty → ∀ v, virt ≤ v → v < virt + len →
    A.walk k'.mem v = some ⟨phys + (v - virt), rights⟩

lemma MapsRange.refl (rights virt phys : ℕ) (k : KernelMemory) :
    MapsRange A rights virt phys 0 k k :=
  ⟨rfl, .refl _, fun _ => .inl, fun _ _ _ => rfl, fun _ v hle hlt => absurd hlt (by omega)⟩

/-- A range and the one behind it. -/
lemma MapsRange.append (h : MapsRange A rights virt phys len k k')
    (h' : MapsRange A rights (virt + len) (phys + len) len' k' k'')
    (hv : ∀ v, virt ≤ v → v < virt + len → Canonical A.levels v) :
    MapsRange A rights virt phys (len + len') k k'' := by
  refine ⟨h'.vmm.trans h.vmm, h.takes.trans h'.takes, fun x hx => ?_, fun v hcan hout => ?_,
    fun hleft v hle hlt => ?_⟩
  · rcases h'.tables_sub x hx with hx | ⟨hfree, hused⟩
    · exact (h.tables_sub x hx).imp_right fun hnew =>
        ⟨hnew.1, fun hmem => hnew.2 (AddressSpace.freePages_subset h'.takes hmem)⟩
    · exact .inr ⟨AddressSpace.freePages_subset h.takes hfree, hused⟩
  · rw [h'.walk_off v hcan (by omega), h.walk_off v hcan (by omega)]
  · rcases Nat.lt_or_ge v (virt + len) with hin | hge
    · rw [h'.walk_off v (hv v hle hin) (.inl hin)]
      exact h.walk_on (hleft.mono (AddressSpace.freePages_subset h'.takes)) v hle hin
    · rw [h'.walk_on hleft v hge (by omega)]
      congr 2
      omega

lemma PageKind.size_pos (kind : PageKind) : 0 < kind.size := Nat.two_pow_pos _

lemma AddressSpace.two_le (A : AddressSpace) : 2 ≤ A.levels - 1 := by
  have := A.levels_eq
  omega

/-- **A page has been mapped**, after `calls` calls of `pma_alloc_pages(1)` for tables.  If one of
them has failed, no address is mapped in another way than before. -/
structure MapsPage (A : AddressSpace) (kind : PageKind) (rights virt phys calls : ℕ)
    (k k' : KernelMemory) : Prop where
  after : k.pma.afterPages calls = some k'.pma
  vmm : k'.vmm = k.vmm
  tables_sub : ∀ x ∈ A.tables k'.mem, x ∈ A.tables k.mem ∨
    x / pageSize ∈ A.freePages k.pma ∧ x / pageSize ∉ A.freePages k'.pma
  walk_off : ∀ v, Canonical A.levels v → v < virt ∨ virt + kind.size ≤ v →
    A.walk k'.mem v = A.walk k.mem v
  calls_le : calls ≤ missingOnPath k.mem virt kind.level (A.levels - 1) A.top
  answered : (∀ j < calls, k.pma.pageAnswer j ≠ 0) →
    calls = missingOnPath k.mem virt kind.level (A.levels - 1) A.top ∧
      PathFilled virt kind.level k.mem k'.mem 512 (A.levels - 1) A.top ∧
      ∀ v, virt ≤ v → v < virt + kind.size → A.walk k'.mem v = some ⟨phys + (v - virt), rights⟩
  refused : (∃ j < calls, k.pma.pageAnswer j = 0) → ∀ v, A.walk k'.mem v = A.walk k.mem v

/-- **One page.** -/
lemma TablesInv.map (h : TablesInv A k) (hvirt : Canonical A.levels virt)
    (hv : kind.size ∣ virt) (hphys : phys < physLimit) (hp : kind.size ∣ phys)
    (hflags : AttributeFlags flags) (hpresent : flags &&& ptePresent ≠ 0) :
    ∃ k' calls, k.map A kind virt phys flags = some k' ∧ TablesInv A k' ∧
      MapsPage A kind (hwRights flags) virt phys calls k k' := by
  have hfresh := h.freshPages
  have hclear : PathClear k.mem virt kind.level (A.levels - 1) A.top :=
    pathClear_of_plain (fun _ _ h => h) (pageIndex_lt virt _) h.entries
  have hentry : PlainEntry kind.level (kind.entry phys flags) := plainEntry_entry
    (fun i hi _ => Nat.testBit_lt_two_pow (hphys.trans_le (Nat.pow_le_pow_right (by decide) hi)))
    hflags
  obtain ⟨s₁, s', hs', hw, hcalls, -, hres⟩ := pagingMapNoflush_spec (s := ⟨k.mem, 0, 0⟩)
    plainEntry_entryInv kind phys A.two_le A.top_page h.separate h.entries hfresh le_rfl
    (pageIndex_lt virt _) hclear hflags.lt
  obtain ⟨hmost, hfill⟩ := pagingMapNoflush_missing (s := ⟨k.mem, 0, 0⟩) plainEntry_entryInv kind
    phys A.top_page h.separate h.entries hfresh le_rfl (pageIndex_lt virt _) hclear hs'
  simp only [Nat.zero_add, Nat.zero_le, true_implies] at hmost hfill
  obtain ⟨pma, hpma, hwell⟩ := h.pma.afterPages s'.calls
  have htakes := Pma.afterPages_onlyTakes hpma
  have hnew : ∀ x ∈ handedOut k.pma.pageAnswer 0 s₁.calls,
      x / pageSize ∈ A.freePages k.pma ∧ x / pageSize ∉ A.freePages pma := fun x hx =>
    h.pma.mem_handedOut hpma (hcalls ▸ hx)
  -- the tables, and the two kinds of addresses
  obtain ⟨hsep, hall, htables, hoff, hon, hsame⟩ : Separate s'.mem 512 (A.levels - 1) A.top ∧
      AllEntries PlainEntry s'.mem 512 (A.levels - 1) A.top ∧
      A.tables s'.mem ⊆ A.tables k.mem ∪ handedOut k.pma.pageAnswer 0 s₁.calls ∧
      (∀ v, Canonical A.levels v → alignDown kind.size v ≠ alignDown kind.size virt →
        A.walk s'.mem v = A.walk k.mem v) ∧
      ((∀ j < s'.calls, k.pma.pageAnswer j ≠ 0) → ∀ v, v / kind.size = virt / kind.size →
        A.walk s'.mem v = some ⟨alignDown kind.size phys + v % kind.size, hwRights flags⟩) ∧
      ((∃ j < s'.calls, k.pma.pageAnswer j = 0) → ∀ v, A.walk s'.mem v = A.walk k.mem v) := by
    rcases hres with ⟨⟨i, -, hi, hzero⟩, rfl⟩ | ⟨hno, x, -, -, hst⟩
    · exact ⟨hw.separate, hw.entries, hw.tables_sub, fun v _ _ => hw.walk v (pageIndex_lt v _),
        fun hanswers => absurd hzero (hanswers i hi), fun _ v => hw.walk v (pageIndex_lt v _)⟩
    · refine ⟨hst.separate, hst.entries hw.entries hentry, hst.tables_sub.trans hw.tables_sub,
        fun v hcan hne => ?_, fun _ v hdiv => ?_,
        fun ⟨j, hj, hzero⟩ => absurd hzero (hno j (Nat.zero_le j) hj)⟩
      · exact (hst.walk_off v (pageIndex_lt v _)
          (exists_pageIndex_ne A.levels_eq kind.level_le hcan hvirt hne)).trans
            (hw.walk v (pageIndex_lt v _))
      · have h0 : (kind.entry phys flags).testBit 0 = true := by
          rw [testBit_entry, and_two_pow_ne_zero.mp hpresent]
          grind
        rw [AddressSpace.walk, hst.walk_on v fun i hi _ => pageIndex_eq_of_page_eq hi hdiv,
          if_pos h0, leafMapping_entry hflags.addr hphys]
  have hused : ∀ x ∈ A.tables s'.mem, x / pageSize ∉ A.freePages pma := fun x hx hmem =>
    (htables hx).elim (fun hx => h.used x hx (AddressSpace.freePages_subset htakes hmem))
      fun hx => (hnew x hx).2 hmem
  have hmap : k.map A kind virt phys flags = some ⟨pma, k.vmm, s'.mem⟩ := by
    rw [KernelMemory.map, hs', Option.bind_eq_bind, Option.bind_some, hpma]
    rfl
  refine ⟨_, s'.calls, hmap, ⟨hwell, hsep, hall, hused⟩, hpma, rfl,
    fun x hx => (htables hx).imp_right (hnew x), fun v hcan hout => ?_, hmost,
    fun hanswers => ⟨(hfill hanswers).1, (hfill hanswers).2, fun v hle hlt => ?_⟩, hsame⟩
  · refine hoff v hcan fun heq => ?_
    rw [show alignDown kind.size virt = virt from Nat.div_mul_cancel hv] at heq
    have hlast := lt_alignDown_add kind.size_pos v
    have hle := alignDown_le kind.size v
    omega
  · obtain ⟨q, rfl⟩ := hv
    have hdiv : v / kind.size = q := by
      rw [Nat.mul_comm] at hle hlt
      exact Nat.div_eq_of_lt_le hle (by rwa [Nat.succ_mul])
    rw [hon hanswers v (by rw [hdiv, Nat.mul_div_cancel_left _ kind.size_pos])]
    have hmod := Nat.div_add_mod v kind.size
    rw [hdiv] at hmod
    rw [show alignDown kind.size phys = phys from Nat.div_mul_cancel hp]
    congr 2
    omega

lemma MemoryInv.map (h : MemoryInv A k live) (hvirt : Canonical A.levels virt)
    (hv : kind.size ∣ virt) (hphys : phys < physLimit) (hp : kind.size ∣ phys)
    (hflags : AttributeFlags flags) (hpresent : flags &&& ptePresent ≠ 0) :
    ∃ k', k.map A kind virt phys flags = some k' ∧ MemoryInv A k' live ∧
      MapsRange A (hwRights flags) virt phys kind.size k k' := by
  obtain ⟨k', calls, hmap, htab, hpage⟩ :=
    h.tablesInv.map hvirt hv hphys hp hflags hpresent
  exact ⟨k', hmap, ⟨htab.pma, hpage.vmm ▸ h.vmm, hpage.vmm ▸ h.pool, htab.separate, htab.entries,
    htab.used⟩, hpage.vmm, Pma.afterPages_onlyTakes hpage.after, hpage.tables_sub, hpage.walk_off,
    fun hleft => (hpage.answered fun _ hj =>
      h.pma.pageAnswer_ne_zero hpage.after hleft hj).2.2⟩

/-- **The pages of a range.** -/
lemma MemoryInv.mapPages (h : MemoryInv A k live) (kind : PageKind) (phys : ℕ)
    (hv : kind.size ∣ virt) (hp : kind.size ∣ phys)
    (hcan : ∀ v, virt ≤ v → v < virt + n * kind.size → Canonical A.levels v)
    (hphys : phys + n * kind.size ≤ physLimit) (hflags : AttributeFlags flags)
    (hpresent : flags &&& ptePresent ≠ 0) :
    ∃ k', mapPages A kind virt phys flags n k = some k' ∧ MemoryInv A k' live ∧
      MapsRange A (hwRights flags) virt phys (n * kind.size) k k' := by
  have hpos := kind.size_pos
  induction n with
  | zero => exact ⟨k, rfl, h, by simpa using MapsRange.refl _ virt phys k⟩
  | succ n ih =>
    rw [Nat.succ_mul] at hcan hphys ⊢
    obtain ⟨k₁, hk₁, h₁, hmaps₁⟩ := ih (fun v hle hlt => hcan v hle (by omega)) (by omega)
    have hstart := hcan (virt + n * kind.size) (by omega) (by omega)
    have hframe : phys + n * kind.size < physLimit := by omega
    obtain ⟨k₂, hk₂, h₂, hmaps₂⟩ := h₁.map hstart (Nat.dvd_add hv (Nat.dvd_mul_left _ n)) hframe
      (Nat.dvd_add hp (Nat.dvd_mul_left _ n)) hflags hpresent
    have hbytes : phys + n * kind.size < word := hframe.trans (by decide)
    refine ⟨k₂, ?_, h₂, hmaps₁.append hmaps₂ fun v hle hlt => hcan v hle (by omega)⟩
    rw [Cuore.mapPages, hk₁, Option.bind_eq_bind, Option.bind_some, wadd_of_lt hstart.1,
      wadd_of_lt hbytes]
    exact hk₂

/-! ## Frames and addresses -/

/-- Only the page allocator has been called, for pages. -/
lemma MemoryInv.take (h : MemoryInv A k live) {pma : Pma} (hwell : PmaWellFormed A.totalPages pma)
    (htakes : OnlyTakes k.pma pma) : MemoryInv A { k with pma := pma } live :=
  { h with
    pma := hwell
    used := fun x hx hmem => h.used x hx (AddressSpace.freePages_subset htakes hmem) }

/-- What an allocation of frames does. -/
lemma PmaWellFormed.run {c : PmaAlloc} {ret : ℕ} (h : PmaWellFormed A.totalPages s) (hc : c.Valid)
    (heq : c.run s = some (ret, s')) : PmaWellFormed A.totalPages s' ∧
      (ret = 0 ∨ c.align * pageSize ∣ ret ∧ HandsOut A.totalPages c.count ret s s') := by
  obtain ⟨ret', s'', heq', hwell, hcases⟩ := (h.callSafe_iff c).mpr (.inl hc)
  obtain ⟨rfl, rfl⟩ := Prod.mk.inj (Option.some.inj (heq.symm.trans heq'))
  refine ⟨hwell, ?_⟩
  obtain ⟨free, hinv⟩ := h
  obtain ⟨ret', s'', heq'', z, halloc, -⟩ := hinv.runAlloc (fun h0 => h0 rfl) hc
  obtain ⟨rfl, rfl⟩ := Prod.mk.inj (Option.some.inj (heq.symm.trans heq''))
  rcases halloc with ⟨hzero, -⟩ | ⟨p, rfl, hdvd, -⟩
  · exact .inl hzero
  · exact hcases.imp_right fun hout => ⟨Nat.mul_dvd_mul_right hdvd _, hout⟩

/-- The bytes of the frames that are handed out were free, and are not any more. -/
lemma HandsOut.free {count a : ℕ} (h : HandsOut A.totalPages count phys s s') (hle : phys ≤ a)
    (hlt : a < phys + count * pageSize) : a / pageSize < A.totalPages ∧
      a / pageSize ∈ A.freePages s ∧ a / pageSize ∉ A.freePages s' := by
  obtain ⟨p, rfl, htotal, hwas, hnow⟩ := h
  have hlow : p ≤ a / pageSize := (Nat.le_div_iff_mul_le (by decide)).mpr hle
  have hhigh : a / pageSize < p + count := by
    rw [Nat.div_lt_iff_lt_mul (by decide), Nat.add_mul]
    exact hlt
  have hmem : a / pageSize < A.totalPages := by omega
  exact ⟨hmem, ⟨hmem, hwas _ hlow hhigh⟩, fun hfree => ((hnow _ hmem).mp hfree.2).2 ⟨hlow, hhigh⟩⟩

/-- Live ranges are apart. -/
lemma VmmInv.apart_of_cons {r : VmmRange} {align : ℕ} {s : Vmm}
    (h : VmmInv s (⟨r, align⟩ :: live)) :
    ∀ x ∈ live, x.range.limit ≤ r.start ∨ r.limit ≤ x.range.start := by
  have hdisj : (vmmRanges s.root).Pairwise fun r t => r.limit ≤ t.start ∨ t.limit ≤ r.start :=
    h.apart.sorted.imp Or.inl
  have hlive := (h.perm.pairwise_iff fun {_ _} => Or.symm).mp hdisj
  rw [List.map_cons, List.pairwise_cons] at hlive
  exact fun x hx => (hlive.1 _ (List.mem_map_of_mem hx)).symm

lemma VmmInv.bounds {s : Vmm} {x : VmmLive} (h : VmmInv s live) (hx : x ∈ live) :
    s.poolBase ≤ x.range.start ∧ x.range.limit ≤ s.poolEnd := by
  have hmem : x.range ∈ vmmRanges s.root := h.perm.mem_iff.mpr (List.mem_map_of_mem hx)
  exact ⟨h.base_le _ hmem, h.apart.le _ hmem⟩

/-- In a pool that fits, nothing wraps. -/
lemma PoolFits.noWrap {s : Vmm} {align count : ℕ} (hp : PoolFits A s) (h : VmmInv s live)
    (halign : align ∣ pageSize2mb) (hroom : s.poolEnd + count * pageSize < word) :
    NoWrap s live count align := by
  intro a ha
  have hpos : 0 < align := Nat.pos_of_dvd_of_pos halign (by decide)
  have hle : a ≤ s.poolEnd := by
    rcases ha with rfl | ha
    · exact hp.le
    · obtain ⟨x, hx, rfl⟩ := List.mem_map.mp ha
      exact (h.bounds hx).2
  have hup : alignUp align a ≤ s.poolEnd :=
    (alignUp_mono hle).trans_eq (alignUp_of_dvd hpos (halign.trans hp.aligned))
  exact (Nat.add_le_add_right hup _).trans_lt hroom

lemma PoolFits.congr {s s' : Vmm} (hp : PoolFits A s) (hbase : s'.poolBase = s.poolBase)
    (hend : s'.poolEnd = s.poolEnd) : PoolFits A s' := by
  obtain ⟨hle, haligned, hroom, hcan⟩ := hp
  exact ⟨by rwa [hbase, hend], by rwa [hend], by rwa [hend], by rwa [hbase, hend]⟩

/-- Only `vmm.c` has been called, for a range. -/
lemma MemoryInv.range (h : MemoryInv A k live) (kind : PageKind) {vmm : Vmm} {count : ℕ}
    (hpos : 1 ≤ count)
    (hroom : k.vmm.poolEnd + count * pageSize < word) (halign : kind.size ∣ pageSize2mb)
    (heq : vmmAllocAligned false count kind.size k.vmm = some (virt, vmm)) :
    MemoryInv A { k with vmm := vmm } (⟨⟨virt, count⟩, kind.size⟩ :: live) ∧ 0 < virt := by
  have hlog : 12 + kind.level * 9 < 64 := by
    have := kind.level_le
    omega
  have hwrap := h.pool.noWrap h.vmm halign hroom
  obtain ⟨hlow, -, -, -, hbase, hend, -⟩ := vmmAllocAligned_spec h.vmm hpos hlog hwrap heq
  exact ⟨{ h with vmm := h.vmm.allocAligned hpos hlog hwrap heq, pool := h.pool.congr hbase hend },
    h.vmm.base_pos.trans_le hlow⟩

/-! ## Addresses that are backed -/

lemma div_alignDown_pageSize (a : ℕ) : alignDown pageSize a / pageSize = a / pageSize :=
  Nat.mul_div_cancel _ pageSize_pos

/-- What is mapped as before stays backed, if the new tables are in pages that were free. -/
lemma Backed.kept (h : Backed A rights k V) (hwalk : ∀ v ∈ V, A.walk k'.mem v = A.walk k.mem v)
    (htakes : OnlyTakes k.pma k'.pma)
    (htables : ∀ x ∈ A.tables k'.mem, x ∈ A.tables k.mem ∨ x / pageSize ∈ A.freePages k.pma) :
    Backed A rights k' V := by
  refine ⟨fun v hv => ?_, fun v hv w hw heq => ?_⟩
  · obtain ⟨a, hmap, hlt, hused, htab⟩ := h.mapped v hv
    refine ⟨a, (hwalk v hv).trans hmap, hlt,
      fun hmem => hused (AddressSpace.freePages_subset htakes hmem), fun hmem => ?_⟩
    rcases htables _ hmem with hold | hfree
    · exact htab hold
    · rw [div_alignDown_pageSize] at hfree
      exact hused hfree
  · rw [hwalk v hv, hwalk w hw] at heq
    exact h.injective hv hw heq

lemma Backed.mono (h : Backed A rights k V) (hsub : W ⊆ V) : Backed A rights k W :=
  ⟨fun v hv => h.mapped v (hsub hv), h.injective.mono hsub⟩

lemma Backed.union (h : Backed A rights k V) (h' : Backed A rights k W)
    (hne : ∀ v ∈ V, ∀ w ∈ W, A.walk k.mem v ≠ A.walk k.mem w) : Backed A rights k (V ∪ W) := by
  refine ⟨fun v hv => hv.elim (h.mapped v) (h'.mapped v), fun v hv w hw heq => ?_⟩
  rcases hv with hv | hv <;> rcases hw with hw | hw
  · exact h.injective hv hw heq
  · exact absurd heq (hne v hv w hw)
  · exact absurd heq.symm (hne w hw v hv)
  · exact h'.injective hv hw heq

/-- A range that has just been mapped, to frames that are used for nothing else. -/
lemma MapsRange.backed (h : MapsRange A rights virt phys len k k')
    (hleft : (A.freePages k'.pma).Nonempty)
    (hframes : ∀ a, phys ≤ a → a < phys + len → a / pageSize < A.totalPages ∧
      a / pageSize ∉ A.freePages k.pma ∧ alignDown pageSize a ∉ A.tables k.mem) :
    Backed A rights k' (Set.Ico virt (virt + len)) := by
  have hon := h.walk_on hleft
  refine ⟨fun v ⟨hle, hlt⟩ => ?_, fun v ⟨hle, hlt⟩ w ⟨hle', hlt'⟩ heq => ?_⟩
  · obtain ⟨htotal, hused, htab⟩ := hframes (phys + (v - virt)) (by omega) (by omega)
    refine ⟨_, hon v hle hlt, htotal,
      fun hmem => hused (AddressSpace.freePages_subset h.takes hmem), fun hmem => ?_⟩
    rcases h.tables_sub _ hmem with hold | ⟨hfree, -⟩
    · exact htab hold
    · rw [div_alignDown_pageSize] at hfree
      exact hused hfree
  · rw [hon v hle hlt, hon w hle' hlt'] at heq
    have haddr : phys + (v - virt) = phys + (w - virt) :=
      congrArg Mapping.phys (Option.some.inj heq)
    omega

/-- The address is in a live range. -/
def InLive (live : List VmmLive) (v : ℕ) : Prop :=
  ∃ x ∈ live, x.range.start ≤ v ∧ v < x.range.limit

lemma MemoryInv.canonical_inLive (h : MemoryInv A k live) {v : ℕ} (hv : InLive live v) :
    Canonical A.levels v := by
  obtain ⟨x, hx, hle, hlt⟩ := hv
  obtain ⟨hbase, hend⟩ := h.vmm.bounds hx
  exact h.pool.canonical v (hbase.trans hle) (hlt.trans_le hend)

/-- Frames and addresses have been found for a range, and the loop maps it. -/
lemma MemoryInv.mapFound {c : PmaAlloc} {pma : Pma} {vmm : Vmm} (h : MemoryInv A k live)
    (kind : PageKind) (hc : c.Valid) (hsize : kind.size ∣ c.align * pageSize)
    (hcount : n * kind.size = c.count * pageSize) (halign : kind.size ∣ pageSize2mb)
    (hflags : AttributeFlags flags) (hpresent : flags &&& ptePresent ≠ 0)
    (hrun : c.run k.pma = some (phys, pma)) (hphys : phys ≠ 0)
    (halloc : vmmAllocAligned false c.count kind.size k.vmm = some (virt, vmm)) :
    0 < virt ∧ HandsOut A.totalPages c.count phys k.pma pma ∧
      MemoryInv A { k with pma := pma, vmm := vmm } (⟨⟨virt, c.count⟩, kind.size⟩ :: live) ∧
      ∃ k', Cuore.mapPages A kind virt phys flags n { k with pma := pma, vmm := vmm } = some k' ∧
        MemoryInv A k' (⟨⟨virt, c.count⟩, kind.size⟩ :: live) ∧
        MapsRange A (hwRights flags) virt phys (c.count * pageSize)
          { k with pma := pma, vmm := vmm } k' := by
  obtain ⟨hwell, hout⟩ := h.pma.run hc hrun
  obtain ⟨hdvd, hout⟩ := hout.resolve_left hphys
  have htotal : phys + c.count * pageSize ≤ A.totalPages * pageSize ∧ c.count ≤ A.totalPages := by
    obtain ⟨p, rfl, hle, -⟩ := hout
    rw [← Nat.add_mul]
    exact ⟨Nat.mul_le_mul_right _ hle, by omega⟩
  have hroom : k.vmm.poolEnd + c.count * pageSize < word :=
    (Nat.add_le_add_left (Nat.mul_le_mul_right _ htotal.2) _).trans_lt h.pool.room
  obtain ⟨h₁, hpos⟩ :=
    (h.take hwell (PmaAlloc.onlyTakes hrun)).range kind hc.1 hroom halign halloc
  have hnew : ∀ v, virt ≤ v → v < virt + c.count * pageSize → Canonical A.levels v :=
    fun v hle hlt => h₁.canonical_inLive ⟨_, List.mem_cons_self, hle, hlt⟩
  obtain ⟨k', hk', h₂, hmaps⟩ := h₁.mapPages kind phys
    (h₁.vmm.aligned _ List.mem_cons_self) (hsize.trans hdvd) (hcount ▸ hnew)
    (by rw [hcount]
        exact htotal.1.trans ((Nat.mul_le_mul_right _ h.pma.total_le).trans (by decide)))
    hflags hpresent
  exact ⟨hpos, hout, h₁, k', hk', h₂, hcount ▸ hmaps⟩

/-- **Frames and addresses for a range, and the loop that maps it.**  The answer is zero only if
there are no frames: `vmm.c` panics if it has no addresses.  The range is added to what is
backed. -/
lemma MemoryInv.mapRange {c : PmaAlloc} (h : MemoryInv A k live) (kind : PageKind) (hc : c.Valid)
    (hsize : kind.size ∣ c.align * pageSize) (hcount : n * kind.size = c.count * pageSize)
    (halign : kind.size ∣ pageSize2mb) (hflags : AttributeFlags flags)
    (hpresent : flags &&& ptePresent ≠ 0) (heq : mapRange A kind c n flags k = some (virt, k')) :
    OnlyTakes k.pma k'.pma ∧
      (virt = 0 ∧ c.run k.pma = some (0, k'.pma) ∧ MemoryInv A k' live ∧ k'.mem = k.mem ∨
        0 < virt ∧ vmmAllocAligned false c.count kind.size k.vmm = some (virt, k'.vmm) ∧
          MemoryInv A k' (⟨⟨virt, c.count⟩, kind.size⟩ :: live) ∧
          ∀ V, (∀ v ∈ V, InLive live v) → Backed A (hwRights flags) k V →
            Backed A (hwRights flags) k' V ∧ ((A.freePages k'.pma).Nonempty →
              Backed A (hwRights flags) k' (V ∪ Set.Ico virt (virt + c.count * pageSize)))) := by
  obtain ⟨⟨phys, pma⟩, hrun, heq⟩ := Option.bind_eq_some_iff.mp heq
  have htakes := PmaAlloc.onlyTakes hrun
  have h₁ := h.take (h.pma.run hc hrun).1 htakes
  dsimp only at heq
  split_ifs at heq with hnone
  · obtain ⟨rfl, rfl⟩ := Prod.mk.inj (Option.some.inj heq)
    exact ⟨htakes, .inl ⟨rfl, hnone ▸ hrun, h₁, rfl⟩⟩
  obtain ⟨⟨virt', vmm⟩, halloc, heq⟩ := Option.bind_eq_some_iff.mp heq
  obtain ⟨hpos, hout, h₂, k₃, hk₃, h₃, hmaps⟩ :=
    h.mapFound kind hc hsize hcount halign hflags hpresent hrun hnone halloc
  rw [if_neg hpos.ne', hk₃] at heq
  obtain ⟨rfl, rfl⟩ := Prod.mk.inj (Option.some.inj heq)
  have hall := htakes.trans hmaps.takes
  -- the tables that have been added were free before the frames were taken
  have htables : ∀ x ∈ A.tables k₃.mem, x ∈ A.tables k.mem ∨ x / pageSize ∈ A.freePages k.pma :=
    fun x hx => (hmaps.tables_sub x hx).imp_right fun hnew =>
      AddressSpace.freePages_subset htakes hnew.1
  refine ⟨hall, .inr ⟨hpos, hmaps.vmm ▸ halloc, h₃, fun V hV hback => ?_⟩⟩
  have hwalk : ∀ v ∈ V, A.walk k₃.mem v = A.walk k.mem v := by
    intro v hv
    obtain ⟨x, hx, hle, hlt⟩ := hV v hv
    refine hmaps.walk_off v (h.canonical_inLive (hV v hv)) ?_
    rcases h₂.vmm.apart_of_cons x hx with hleft | hright
    · exact .inl (hlt.trans_le hleft)
    · exact .inr (hright.trans hle)
  have hkept := hback.kept hwalk hall htables
  refine ⟨hkept, fun hleft => hkept.union (hmaps.backed hleft fun a hle hlt => ?_) ?_⟩
  · obtain ⟨hlt, hwas, hnow⟩ := hout.free hle hlt
    exact ⟨hlt, hnow, fun hmem => h.used _ hmem (by rwa [div_alignDown_pageSize])⟩
  · rintro v hv w ⟨hle, hlt⟩ hsame
    obtain ⟨a, hmap, -, hused, -⟩ := hback.mapped v hv
    rw [hwalk v hv, hmap, hmaps.walk_on hleft w hle hlt] at hsame
    have haddr : a = phys + (w - virt') := congrArg Mapping.phys (Option.some.inj hsame)
    exact hused (haddr ▸ (hout.free (by omega) (by omega)).2.1)

/-- **Only `vmm.c` panics** while a range is looked for and mapped. -/
lemma MemoryInv.mapRange_none {c : PmaAlloc} (h : MemoryInv A k live) (kind : PageKind)
    (hc : c.Valid) (hsize : kind.size ∣ c.align * pageSize)
    (hcount : n * kind.size = c.count * pageSize) (halign : kind.size ∣ pageSize2mb)
    (hflags : AttributeFlags flags) (hpresent : flags &&& ptePresent ≠ 0)
    (heq : Cuore.mapRange A kind c n flags k = none) :
    vmmAllocAligned false c.count kind.size k.vmm = none := by
  obtain ⟨phys, pma, hrun, -⟩ := (h.pma.callSafe_iff c).mpr (.inl hc)
  rw [Cuore.mapRange, hrun] at heq
  dsimp only [Option.bind_eq_bind, Option.bind_some] at heq
  split_ifs at heq with hphys
  cases halloc : vmmAllocAligned false c.count kind.size k.vmm with
  | none => rfl
  | some r =>
    obtain ⟨hpos, -, -, k', hk', -⟩ :=
      h.mapFound kind hc hsize hcount halign hflags hpresent hrun hphys halloc
    rw [halloc] at heq
    dsimp only [Option.bind_some] at heq
    rw [if_neg hpos.ne', hk'] at heq
    cases heq

/-! ## The rest of the kernel -/

/-- A step of the rest of the kernel, which leaves alone what is behind the addresses in `V`: it
allocates frames, frees frames of its own, maps registers of a device, or writes to memory in which
no table is. -/
inductive OtherStep (A : AddressSpace) (V : Set ℕ) (k : KernelMemory) : KernelMemory → Prop
  | alloc {c : PmaAlloc} {ret : ℕ} {pma : Pma} (hc : c.Valid)
      (heq : c.run k.pma = some (ret, pma)) : OtherStep A V k { k with pma := pma }
  | free {p n : ℕ} {pma : Pma} (hn : 0 < n) (hp : 0 < p) (hle : p + n ≤ A.totalPages)
      (hzone : p + n ≤ pmaZone32bit ∨ pmaZone32bit ≤ p)
      (hused : ∀ q, p ≤ q → q < p + n → k.pma.bitmap q = true)
      (htables : ∀ x ∈ A.tables k.mem, ¬(p ≤ x / pageSize ∧ x / pageSize < p + n))
      (hback : ∀ v ∈ V, ∀ a, A.walk k.mem v = some a →
        ¬(p ≤ a.phys / pageSize ∧ a.phys / pageSize < p + n))
      (hmerge : MergesCleanly k.pma (p * pageSize) n)
      (heq : pmaFreePages (p * pageSize) n k.pma = some pma) : OtherStep A V k { k with pma := pma }
  | device {count virt phys flags : ℕ} {vmm : Vmm} {k' : KernelMemory} (hcount : 0 < count)
      (hroom : k.vmm.poolEnd + count * pageSize < word) (hphys : pageSize ∣ phys)
      (hlimit : phys + count * pageSize ≤ physLimit) (hflags : AttributeFlags flags)
      (hpresent : flags &&& ptePresent ≠ 0)
      (halloc : vmmAllocPages false count k.vmm = some (virt, vmm))
      (hmap : mapPages A .page4kb virt phys flags count { k with vmm := vmm } = some k') :
      OtherStep A V k k'
  | write {S : Set ℕ} {m : Memory} (hS : ∀ x ∈ A.tables k.mem, x ∉ S)
      (hm : ChangedOnly S k.mem m) : OtherStep A V k { k with mem := m }

/-- **The rest of the kernel keeps the invariant**, and what is backed. -/
lemma OtherStep.keeps (h : MemoryInv A k live) (hV : ∀ v ∈ V, InLive live v)
    (hback : Backed A rights k V) (hstep : OtherStep A V k k') :
    ∃ live', MemoryInv A k' live' ∧ live.Sublist live' ∧ Backed A rights k' V := by
  cases hstep with
  | alloc hc heq =>
    have htakes := PmaAlloc.onlyTakes heq
    exact ⟨live, h.take (h.pma.run hc heq).1 htakes, .refl _,
      hback.kept (fun _ _ => rfl) htakes fun _ => .inl⟩
  | @free p n pma hn hp hle hzone hused htables hmine hmerge heq =>
    obtain ⟨pma', heq', hwell, hwithin⟩ :=
      h.pma.freeUsed A.total_le hn hp hle hzone hused hmerge
    obtain rfl := Option.some.inj (heq.symm.trans heq')
    have hfree : ∀ q, q ∈ A.freePages pma → q ∈ A.freePages k.pma ∨ p ≤ q ∧ q < p + n :=
      fun q hq => (hwithin q hq.2).imp_left fun hbit => ⟨hq.1, hbit⟩
    refine ⟨live, { h with pma := hwell, used := fun x hx hmem => ?_ }, .refl _,
      fun v hv => ?_, hback.injective⟩
    · exact (hfree _ hmem).elim (h.used x hx) (htables x hx)
    · obtain ⟨a, hmap, hlt, hnot, htab⟩ := hback.mapped v hv
      exact ⟨a, hmap, hlt, fun hmem => (hfree _ hmem).elim hnot (hmine v hv _ hmap), htab⟩
  | @device count virt phys flags vmm _ hcount hroom hphys hlimit hflags hpresent halloc hmap =>
    obtain ⟨h₁, -⟩ := h.range .page4kb hcount hroom (by decide) halloc
    have hnew : ∀ v, virt ≤ v → v < virt + count * pageSize → Canonical A.levels v :=
      fun v hle hlt => h₁.canonical_inLive ⟨_, List.mem_cons_self, hle, hlt⟩
    obtain ⟨k₂, hk₂, h₂, hmaps⟩ := h₁.mapPages (n := count) .page4kb phys
      (h₁.vmm.aligned _ List.mem_cons_self) hphys hnew hlimit hflags hpresent
    obtain rfl := Option.some.inj (hmap.symm.trans hk₂)
    refine ⟨_, h₂, List.sublist_cons_self _ _, hback.kept (fun v hv => ?_) hmaps.takes
      fun x hx => (hmaps.tables_sub x hx).imp_right And.left⟩
    refine hmaps.walk_off v (h.canonical_inLive (hV v hv)) ?_
    obtain ⟨x, hx, hle, hlt⟩ := hV v hv
    rcases h₁.vmm.apart_of_cons x hx with hleft | hright
    · exact .inl (hlt.trans_le hleft)
    · exact .inr (hright.trans hle)
  | @write S m hS hm =>
    have hagree : Agree k.mem m 512 (A.levels - 1) A.top := hm.agree A.top_page hS
    have htables : A.tables m = A.tables k.mem := hagree.tables_eq le_rfl
    refine ⟨live, ⟨h.pma, h.vmm, h.pool, hagree.separate le_rfl h.separate,
      hagree.allEntries le_rfl h.entries, fun x hx => h.used x (htables ▸ hx)⟩, .refl _,
      hback.kept (fun v _ => hagree.hwWalk_eq (pageIndex_lt v _)) (.refl _) fun x hx => ?_⟩
    exact .inl (htables ▸ hx)

end Cuore
