import Cuore.Binfmt.Elf64.Alloc
import Cuore.Mem.Heap
import Cuore.Mem.Pma.Page

/-!
# What a failed load leaves behind (`elf64_alloc`)

`elf64_alloc` takes a page for the top table of the process, has the image loaded into it and
creates the task.  Each of the three can fail, and then the function returns NULL.  None of the
early returns calls `pma_free_pages`.

`elf64Parse` and `scheduler_create_task` see the page allocator through the streams of its answers.
Here the allocator itself is put behind them: `AllocatorCalls` says that the streams are what it
answers to the calls of one run of `elf64_alloc`, in the order of the source, with the calls of the
heap where `zalloc` and `free` are called.  The heap holds a set of pages; it takes free ones and
gives its own ones back, so that a page is free or the heap's afterwards exactly if it was before
(`HeapCalls.union_eq`).

What the loader writes to memory in between is open, and so is what becomes of the headers of free
blocks by that.  The bitmap is assumed to be the allocator's own.

A page that `elf64_alloc` has taken is therefore lost if it returns NULL, and it takes one first of
all. The set of free pages is the same afterwards exactly if there is no free page
(`elf64AllocTask_leaksNothing_iff`).
-/

namespace Cuore

/-! ## Creating the task -/

/-- `sizeof(task_t)`. -/
def taskSize : ℕ := 48

/-- The offsets of the fields of a `task_t`. -/
inductive TaskField
  | upid | rsp | cr3 | next | prev | stackBase
  deriving DecidableEq, Repr

/-- The offset of a field in a `task_t`. -/
def TaskField.offset : TaskField → ℕ
  | upid => 0
  | rsp => 8
  | cr3 => 16
  | next => 24
  | prev => 32
  | stackBase => 40

/-- `task->field = v`. -/
def setTask (m : Memory) (task : ℕ) (field : TaskField) (v : ℕ) : Memory :=
  m.store (task + field.offset) 8 v

/-- `sizeof(struct trap_frame)`. -/
def trapFrameSize : ℕ := 224

/-- The fields of a `struct trap_frame` that are not left zero. -/
inductive FrameField
  | rip | cs | rflags | rsp | ss
  deriving DecidableEq, Repr

/-- The offset of a field in a `struct trap_frame`. -/
def FrameField.offset : FrameField → ℕ
  | rip => 184
  | cs => 192
  | rflags => 200
  | rsp => 208
  | ss => 216

/-- `frame->field = v`. -/
def setFrame (m : Memory) (frame : ℕ) (field : FrameField) (v : ℕ) : Memory :=
  m.store (frame + field.offset) 8 v

/-- The frame of a new task, at `frame` in physical memory. -/
def initFrame (m : Memory) (frame entryPoint stackTop : ℕ) : Memory :=
  let m := m.fill frame trapFrameSize 0
  let m := setFrame m frame .rip entryPoint
  let m := setFrame m frame .cs 0x08
  let m := setFrame m frame .ss 0x10
  let m := setFrame m frame .rsp stackTop
  setFrame m frame .rflags 0x202

/-- `scheduler_create_task`: the address of the task, or zero. -/
def schedulerCreateTask (pages2mb : ℕ → ℕ) (grants : List ℕ) (hhdm pml4 entryPoint : ℕ) (h : Heap)
    (s : PhysState) : Option (ℕ × Heap × PhysState) := do
  let (newTask, h) ← zalloc grants h taskSize
  if newTask = 0 then some (0, h, s)
  else
    let m := setTask h.mem newTask .upid 0
    let m := setTask m newTask .cr3 pml4
    let stackPhys := pages2mb s.calls2mb
    let s := { s with calls2mb := s.calls2mb + 1 }
    if stackPhys = 0 then do
      let h ← free { h with mem := m } newTask
      some (0, h, s)
    else if stackPhys + pageSize2mb > physLimit then none
    else
      let stackTop := wadd (wadd stackPhys pageSize2mb) hhdm
      let m := setTask m newTask .stackBase (wadd stackPhys hhdm)
      let alignedStackTop := stackTop &&& wnot 0xF
      let frame := wsub alignedStackTop trapFrameSize
      let p := initFrame s.mem (wsub frame hhdm) entryPoint alignedStackTop
      let m := setTask m newTask .rsp frame
      let m := setTask m newTask .next 0
      let m := setTask m newTask .prev 0
      some (newTask, { h with mem := m }, { s with mem := p })

/-- `elf64_alloc`: the address of the task, or zero.  `kernelPml4` is the table in `cr3`. -/
def elf64AllocTask (pages pages2mb : ℕ → ℕ) (levels : ℕ) (file : Memory)
    (fileData fileSize kernelPml4 hhdm : ℕ) (grants : List ℕ) (h : Heap) (s : PhysState) :
    Option (ℕ × Heap × PhysState) :=
  match elf64Alloc pages pages2mb levels file fileData fileSize kernelPml4 s with
  | none => none
  | some (none, s) => some (0, h, s)
  | some (some (entry, procPml4), s) => do
    let (newTask, h, s) ← schedulerCreateTask pages2mb grants hhdm kernelPml4 entry h s
    if newTask = 0 then some (0, h, s)
    else some (newTask, { h with mem := setTask h.mem newTask .cr3 procPml4 }, s)

/-! ## The page allocator during a call -/

variable {pages pages2mb : ℕ → ℕ} {total : ℕ} {z z' z₁ z₂ : Pma} {K K' : Set ℕ} {c c' : ℕ × ℕ}

/-- **The loader's calls**: `pages` and `pages2mb` are what the allocator answers, from the counts
`c` of the two calls up to the counts `c'`.  What is written to memory in between can hit
headers. -/
inductive LoaderCalls (pages pages2mb : ℕ → ℕ) (c : ℕ × ℕ) (z : Pma) : ℕ × ℕ → Pma → Prop
  | refl : LoaderCalls pages pages2mb c z c z
  | page {j k : ℕ} {z₁ z₂ : Pma} (h : LoaderCalls pages pages2mb c z (j, k) z₁)
      (heq : pmaAllocPages 1 z₁ = some (pages j, z₂)) :
      LoaderCalls pages pages2mb c z (j + 1, k) z₂
  | block {j k : ℕ} {z₁ z₂ : Pma} (h : LoaderCalls pages pages2mb c z (j, k) z₁)
      (heq : pmaAllocPages2mb 1 z₁ = some (pages2mb k, z₂)) :
      LoaderCalls pages pages2mb c z (j, k + 1) z₂
  | write {c' : ℕ × ℕ} {z₁ : Pma} (h : LoaderCalls pages pages2mb c z c' z₁)
      (hdr : ℕ → PmaFreeBlock) : LoaderCalls pages pages2mb c z c' { z₁ with hdr }

/-- **The heap's calls**, with the pages that it holds: it keeps the free pages that it takes, and
gives back pages that it holds. -/
inductive HeapCalls (total : ℕ) (z : Pma) (K : Set ℕ) : Pma → Set ℕ → Prop
  | refl : HeapCalls total z K z K
  | take {z₁ z₂ : Pma} {K₁ : Set ℕ} {a : PmaAlloc} {p : ℕ} (h : HeapCalls total z K z₁ K₁)
      (heq : a.run z₁ = some (p, z₂)) :
      HeapCalls total z K z₂ (K₁ ∪ (pmaFreeSet total z₁ \ pmaFreeSet total z₂))
  | giveBack {z₁ z₂ : Pma} {K₁ : Set ℕ} {p n : ℕ} (h : HeapCalls total z K z₁ K₁)
      (heq : pmaFreePages p n z₁ = some z₂)
      (hown : pmaFreeSet total z₂ \ pmaFreeSet total z₁ ⊆ K₁) :
      HeapCalls total z K z₂ (K₁ \ pmaFreeSet total z₂)
  | write {z₁ : Pma} {K₁ : Set ℕ} (h : HeapCalls total z K z₁ K₁) (hdr : ℕ → PmaFreeBlock) :
      HeapCalls total z K { z₁ with hdr } K₁

/-- **The calls of one run** of `elf64_alloc`, in the order of the source: the top table, the calls
of `elf64_parse`, which ends in the state `s₁`, `zalloc`, the stack, and `free`. -/
def AllocatorCalls (pages pages2mb : ℕ → ℕ) (total : ℕ) (s s₁ s' : PhysState) (z z' : Pma)
    (K K' : Set ℕ) : Prop :=
  ∃ z₁ z₂ z₃ z₄ K₁, pmaAllocPages 1 z = some (pages s.calls, z₁) ∧
    LoaderCalls pages pages2mb (s.calls + 1, s.calls2mb) z₁ (s₁.calls, s₁.calls2mb) z₂ ∧
    HeapCalls total z₂ K z₃ K₁ ∧
    LoaderCalls pages pages2mb (s₁.calls, s₁.calls2mb) z₃ (s'.calls, s'.calls2mb) z₄ ∧
    HeapCalls total z₄ K₁ z' K'

/-- The loader frees nothing. -/
lemma LoaderCalls.onlyTakes (h : LoaderCalls pages pages2mb c z c' z') : OnlyTakes z z' := by
  induction h with
  | refl => exact OnlyTakes.refl z
  | page _ heq ih => exact ih.trans (PmaAlloc.onlyTakes (c := .pages 1) heq)
  | block _ heq ih => exact ih.trans (PmaAlloc.onlyTakes (c := .pages2mb 1) heq)
  | write _ hdr ih => exact ih.trans (onlyTakes_of_bitmap rfl)

/-- Calls are counted, and without one the bitmap stays. -/
lemma LoaderCalls.counts (h : LoaderCalls pages pages2mb c z c' z') :
    c.1 ≤ c'.1 ∧ c.2 ≤ c'.2 ∧ (c = c' → z'.bitmap = z.bitmap) := by
  induction h with
  | refl => exact ⟨le_rfl, le_rfl, fun _ => rfl⟩
  | page _ _ ih =>
    obtain ⟨hj, hk, -⟩ := ih
    refine ⟨Nat.le_succ_of_le hj, hk, ?_⟩
    rintro rfl
    exact absurd hj (Nat.not_succ_le_self _)
  | block _ _ ih =>
    obtain ⟨hj, hk, -⟩ := ih
    refine ⟨hj, Nat.le_succ_of_le hk, ?_⟩
    rintro rfl
    exact absurd hk (Nat.not_succ_le_self _)
  | write _ _ ih => exact ih

/-- **What the heap keeps**: a page is free or the heap's exactly if it was before. -/
lemma HeapCalls.union_eq (h : HeapCalls total z K z' K') :
    pmaFreeSet total z' ∪ K' = pmaFreeSet total z ∪ K := by
  induction h with
  | refl => rfl
  | @take z₁ z₂ K₁ a p _ heq ih =>
    have hsub : pmaFreeSet total z₂ ⊆ pmaFreeSet total z₁ := (PmaAlloc.onlyTakes heq).freeSet_subset
    rw [← ih]
    grind
  | @giveBack z₁ z₂ K₁ p n _ heq hown ih =>
    have hsub : pmaFreeSet total z₁ ⊆ pmaFreeSet total z₂ :=
      (pmaFreePages_onlyFrees heq).freeSet_subset
    rw [← ih, Set.union_sdiff_self]
    grind
  | write _ hdr ih => exact ih

/-! ## Leaks -/

variable {s s₁ s' : PhysState} {levels fileData fileSize kernelPml4 hhdm : ℕ} {file : Memory}
  {grants : List ℕ} {h h' : Heap} {r : Option (ℕ × ℕ)}

/-- A page that is taken first is lost. -/
lemma AllocatorCalls.loses_page (hcalls : AllocatorCalls pages pages2mb total s s₁ s' z z' K K')
    (hz : PmaWellFormed total z) (hK : Disjoint K (pmaFreeSet total z))
    (hfree : pmaFreeSet total z ≠ ∅) :
    pmaFreeSet total z' ∪ K' ≠ pmaFreeSet total z ∪ K := by
  obtain ⟨z₁, z₂, z₃, z₄, K₁, htop, hload, hzalloc, hstack, hrelease⟩ := hcalls
  obtain ⟨ret, t, hpage, hcases⟩ := hz.allocPage
  obtain ⟨rfl, rfl⟩ := Prod.mk.inj (Option.some.inj (htop.symm.trans hpage))
  obtain ⟨-, q, hq, hlost⟩ := hcases.resolve_left fun hempty => hfree hempty.1
  have hafter : q ∉ pmaFreeSet total z₃ ∪ K₁ := by
    rw [hzalloc.union_eq]
    rintro (hmem | hmem)
    · exact hlost (hload.onlyTakes.freeSet_subset hmem)
    · exact Set.disjoint_left.mp hK hmem hq
  have hend : q ∉ pmaFreeSet total z' ∪ K' := by
    rw [hrelease.union_eq]
    rintro (hmem | hmem)
    · exact hafter (.inl (hstack.onlyTakes.freeSet_subset hmem))
    · exact hafter (.inr hmem)
  intro heq
  rw [heq] at hend
  exact hend (.inl hq)

/-- Without a page for the top table, nothing else is asked for. -/
lemma elf64AllocTask_of_no_page (hpage : pages s.calls = 0)
    (hload : elf64Alloc pages pages2mb levels file fileData fileSize kernelPml4 s = some (r, s₁))
    (hrun : elf64AllocTask pages pages2mb levels file fileData fileSize kernelPml4 hhdm grants h s =
      some (0, h', s')) :
    s₁ = { s with calls := s.calls + 1 } ∧ s' = s₁ := by
  unfold elf64AllocTask at hrun
  rw [hload] at hrun
  unfold elf64Alloc cloneHigherHalf at hload
  dsimp only at hload
  rw [if_pos hpage] at hload
  obtain ⟨rfl, rfl⟩ := Prod.mk.inj (Option.some.inj hload)
  obtain ⟨-, hrun⟩ := Prod.mk.inj (Option.some.inj hrun)
  obtain ⟨-, rfl⟩ := Prod.mk.inj hrun
  exact ⟨rfl, rfl⟩

/-- **When a failed load leaks nothing.**  If `elf64_alloc` returns NULL, the free pages are the
same as before, apart from those that the heap has taken or given back, exactly if no page was
free. -/
theorem elf64AllocTask_leaksNothing_iff (hz : PmaWellFormed total z)
    (hK : Disjoint K (pmaFreeSet total z))
    (hload : elf64Alloc pages pages2mb levels file fileData fileSize kernelPml4 s = some (r, s₁))
    (hnull : elf64AllocTask pages pages2mb levels file fileData fileSize kernelPml4 hhdm grants
      h s =
      some (0, h', s'))
    (hcalls : AllocatorCalls pages pages2mb total s s₁ s' z z' K K') :
    pmaFreeSet total z' ∪ K' = pmaFreeSet total z ∪ K ↔ pmaFreeSet total z = ∅ := by
  constructor
  · intro hsame
    by_contra hfree
    exact hcalls.loses_page hz hK hfree hsame
  · intro hempty
    obtain ⟨z₁, z₂, z₃, z₄, K₁, htop, hparse, hzalloc, hstack, hrelease⟩ := hcalls
    obtain ⟨ret, t, hpage, hcases⟩ := hz.allocPage
    obtain ⟨rfl, rfl⟩ := Prod.mk.inj (Option.some.inj (htop.symm.trans hpage))
    obtain ⟨-, hzero, hnone⟩ := hcases.resolve_right fun ⟨_, q, hq, _⟩ => by
      rw [hempty] at hq
      exact hq
    obtain ⟨rfl, rfl⟩ := elf64AllocTask_of_no_page hzero hload hnull
    -- there is no other call of the loader
    have hbits : ∀ {t t' : Pma}, t'.bitmap = t.bitmap →
        pmaFreeSet total t' = pmaFreeSet total t := by
      intro t t' hbitmap
      unfold pmaFreeSet
      rw [hbitmap]
    calc pmaFreeSet total z' ∪ K' = pmaFreeSet total z₄ ∪ K₁ := hrelease.union_eq
      _ = pmaFreeSet total z₃ ∪ K₁ := by rw [hbits (hstack.counts.2.2 rfl)]
      _ = pmaFreeSet total z₂ ∪ K := hzalloc.union_eq
      _ = pmaFreeSet total z₁ ∪ K := by rw [hbits (hparse.counts.2.2 rfl)]
      _ = pmaFreeSet total z ∪ K := by rw [hnone, hempty]

/-- All pages are handed out, and one more is asked for. -/
def exhaustedRun : Option (ℕ × ℕ × ℕ × ℕ) := do
  let s ← pmaInit straddlingMap zeroHdr
  let (p, s) ← pmaAllocPages 2 s
  let (q, s) ← pmaAllocPages 2 s
  let (r, s) ← pmaAllocPages 31 s
  let (ret, _) ← pmaAllocPages 1 s
  some (p, q, r, ret)

lemma exhaustedRun_eq :
    exhaustedRun = some (0x100000000, 0x100000000 - 2 * 4096, 289 * 4096, 0) := by
  decide +kernel

/-- A well-formed state in which no page is free. -/
lemma exists_exhausted : ∃ total z z', PmaWellFormed total z ∧ pmaFreeSet total z = ∅ ∧
    pmaAllocPages 1 z = some (0, z') := by
  have hrun := exhaustedRun_eq
  simp only [exhaustedRun, Option.bind_eq_bind, Option.bind_eq_some_iff, Option.some.injEq,
    Prod.mk.injEq, Prod.exists] at hrun
  obtain ⟨s₀, hinit, p, s₁, h₁, q, s₂, h₂, r, s₃, h₃, ret, s₄, h₄, rfl, rfl, rfl, rfl⟩ := hrun
  have hrun₁ : PmaRun MergesCleanly s₀ s₁ _ :=
    PmaRun.init.alloc (c := .pages 2) (by decide) h₁ (by decide)
  have hrun₂ : PmaRun MergesCleanly s₀ s₂ _ :=
    hrun₁.alloc (c := .pages 2) (by decide) h₂ (by decide)
  have hrun₃ : PmaRun MergesCleanly s₀ s₃ _ :=
    hrun₂.alloc (c := .pages 31) (by decide) h₃ (by decide)
  have hwell := PmaRun.wellFormed usableMap_straddlingMap hinit hrun₃
  obtain ⟨ret', t, hpage, hcases⟩ := hwell.allocPage
  obtain ⟨rfl, rfl⟩ := Prod.mk.inj (Option.some.inj (h₄.symm.trans hpage))
  obtain ⟨hempty, -⟩ := hcases.resolve_right fun hret => hret.1 rfl
  exact ⟨_, s₃, _, hwell, hempty, h₄⟩

/-- A file that is no ELF image: 64 zero bytes. -/
def zeroFile : Memory := fun _ => 0

/-- Such a file is rejected once the top table has been set up. -/
lemma elf64Alloc_zeroFile {k : ℕ} {s : PhysState} (hpage : pages s.calls = k) (hk : k ≠ 0)
    (hlt : k < physLimit) :
    ∃ m, elf64Alloc pages pages2mb levels zeroFile 0x1000 64 kernelPml4 s =
      some (none, ⟨m, s.calls + 1, s.calls2mb⟩) := by
  have hident : (readEhdr zeroFile 0x1000).identOk = false := by decide +kernel
  have hparse : ∀ t, elf64Parse pages pages2mb levels zeroFile 0x1000 64 k false t =
      some (⟨0, 0, 0, 0⟩, t) := by
    intro t
    unfold elf64Parse
    rw [if_neg (by decide)]
    dsimp only
    rw [hident]
    rfl
  refine ⟨cloneEntries (s.mem.fill k pageSize 0) k kernelPml4, ?_⟩
  unfold elf64Alloc cloneHigherHalf
  dsimp only
  rw [hpage, if_neg hk, if_neg (Nat.not_le.mpr hlt)]
  dsimp only
  rw [hparse]
  rfl

/-- The heap before it has been set up. -/
def emptyHeap : Heap := ⟨fun _ => 0, 0, 0, 0, [], [], []⟩

/-- Without a free page, nothing is lost. -/
theorem elf64AllocTask_leaksNothing_exhausted : ∃ total z z', PmaWellFormed total z ∧
    pmaAllocPages 1 z = some (0, z') ∧ pmaFreeSet total z' ∪ ∅ = pmaFreeSet total z ∪ ∅ := by
  obtain ⟨total, z, z', hwell, hempty, hpage⟩ := exists_exhausted
  let pages : ℕ → ℕ := fun _ => 0
  let s : PhysState := ⟨fun _ => 0, 0, 0⟩
  let s₁ : PhysState := ⟨fun _ => 0, 1, 0⟩
  have hload : elf64Alloc pages pages 4 zeroFile 0x1000 64 0x5000 s = some (none, s₁) := rfl
  have hrun : elf64AllocTask pages pages 4 zeroFile 0x1000 64 0x5000 (2 ^ 47) [] emptyHeap s =
      some (0, emptyHeap, s₁) := rfl
  have hcalls : AllocatorCalls pages pages total s s₁ s₁ z z' ∅ ∅ :=
    ⟨z', z', z', z', ∅, hpage, .refl, .refl, .refl, .refl⟩
  exact ⟨total, z, z', hwell, hpage,
    (elf64AllocTask_leaksNothing_iff hwell (Set.empty_disjoint _) hload hrun hcalls).mpr hempty⟩

/-- **The top table is lost** when the file is rejected. -/
theorem elf64AllocTask_leaks_topTable : ∃ total z z' pages, ∃ s s₁ s' : PhysState,
    PmaWellFormed total z ∧
    elf64Alloc pages pages 4 zeroFile 0x1000 64 0x5000 s = some (none, s₁) ∧
    elf64AllocTask pages pages 4 zeroFile 0x1000 64 0x5000 (2 ^ 47) [] emptyHeap s =
      some (0, emptyHeap, s') ∧
    AllocatorCalls pages pages total s s₁ s' z z' ∅ ∅ ∧
    pmaFreeSet total z' ∪ ∅ ≠ pmaFreeSet total z ∪ ∅ := by
  obtain ⟨z, hinit⟩ : ∃ z, pmaInit straddlingMap zeroHdr = some z :=
    Option.isSome_iff_exists.mp (by decide +kernel)
  have hwell := PmaRun.wellFormed usableMap_straddlingMap hinit PmaRun.init
  obtain ⟨ret, z', hpage, hcases⟩ := hwell.allocPage
  have hret : (pmaInit straddlingMap zeroHdr).bind (fun s => (pmaAllocPages 1 s).map Prod.fst) =
      some 0x100000000 := by
    decide +kernel
  rw [hinit, Option.bind_some, hpage] at hret
  obtain rfl := Option.some.inj hret
  obtain ⟨-, q, hq, -⟩ := hcases.resolve_left fun h => absurd h.2.1 (by decide)
  let s : PhysState := ⟨fun _ => 0, 0, 0⟩
  let pages : ℕ → ℕ := fun _ => 0x100000000
  obtain ⟨m, hload⟩ : ∃ m, elf64Alloc pages pages 4 zeroFile 0x1000 64 0x5000 s =
      some (none, ⟨m, 1, 0⟩) :=
    elf64Alloc_zeroFile (k := 0x100000000) rfl (by decide) (by decide)
  have hcalls : AllocatorCalls pages pages (cmmGetRamTop straddlingMap / pageSize) s
      ⟨m, 1, 0⟩ ⟨m, 1, 0⟩ z z' ∅ ∅ :=
    ⟨z', z', z', z', ∅, hpage, .refl, .refl, .refl, .refl⟩
  refine ⟨_, z, z', pages, s, _, ⟨m, 1, 0⟩, hwell, hload, ?_, hcalls, ?_⟩
  · unfold elf64AllocTask
    rw [hload]
  · refine hcalls.loses_page hwell (Set.empty_disjoint _) fun hempty => ?_
    rw [hempty] at hq
    exact hq

end Cuore
