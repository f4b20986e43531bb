import Cuore.Cpu.Smp.Mailbox
import Cuore.Framework.SpinLock
import Cuore.Framework.Word
import Mathlib.Algebra.Order.BigOperators.Group.Finset
import Mathlib.Order.Interval.Finset.Nat

/-!
# Bringing up the cores (`cpu/smp/init.c`, `kmain.c`)

The boot core wakes the others, one after the other, and waits until `cpu_online_count` has reached
the number of cores that are to be booted.  Each woken core runs `AP_kstartc`: under a spin lock it
takes the next index from `cpu_blocks_c`, fills in a block, puts it into `cpu_blocks` and counts
itself as online.  Afterwards the boot core installs interrupt handlers on every core and panics if
one has no block.

Every load and every store of shared memory is a step, and the steps of the boot core and of the
others interleave in any order.  `zalloc` is one step that returns memory that nobody has; that it
finds some is assumed.  A core whose index is not one of `cpu_blocks` stores behind the array: nothing
is known of such a store, and the core stays there.  `BringupInv` is the invariant.
-/

namespace Cuore

/-! ## The cores -/

/-- What the bring-up is given: `SMP_MAX_CORES`, the value of `maxcpus` on the command line, and the
cores as the boot loader lists them.  At most one of them has the id of the boot core. -/
structure MpBoot where
  maxCores : ℕ
  maxcpus : ℕ
  cpuCount : ℕ
  lapicId : ℕ → ℕ
  bspLapicId : ℕ
  maxCores_pos : 0 < maxCores
  maxCores_lt : maxCores < 2 ^ 31
  bsp_unique : ∀ i j, lapicId i = bspLapicId → lapicId j = bspLapicId → i = j

/-- `cores_to_boot`. -/
def MpBoot.coresToBoot (p : MpBoot) : ℕ :=
  let maxcpuReq := if p.maxcpus = 0 then 1 else p.maxcpus
  let maxcpuReq := if maxcpuReq > p.maxCores then p.maxCores else maxcpuReq
  let coresToBoot := if p.cpuCount > p.maxCores then p.maxCores else p.cpuCount
  if coresToBoot > maxcpuReq then maxcpuReq else coresToBoot

/-- The cores that the boot core wakes. -/
def MpBoot.Woken (p : MpBoot) (j : ℕ) : Prop :=
  j < p.cpuCount ∧ p.lapicId j ≠ p.bspLapicId ∧ j < p.coresToBoot

instance (p : MpBoot) : DecidablePred p.Woken := fun j => by
  unfold MpBoot.Woken
  infer_instance

/-- Fewer cores are booted than `cpu_blocks` has entries, or the boot core is among the first ones in
the list. -/
def MpBoot.Room (p : MpBoot) : Prop :=
  p.coresToBoot < p.maxCores ∨ ∃ j < p.coresToBoot, p.lapicId j = p.bspLapicId

/-- The fields of a `coreinfo_t` that the bring-up sets; `func` is the function of its mailbox. -/
@[ext] structure CoreInfo where
  self : ℕ
  logicalId : ℕ
  lapicId : ℕ
  ticks : ℕ
  status : CpuStatus
  pending : Bool
  func : ℕ
  deriving DecidableEq, Repr

/-- What `zalloc` returns. -/
def CoreInfo.zero : CoreInfo := ⟨0, 0, 0, 0, .idle, false, 0⟩

/-- The assignments of `AP_kstartc`. -/
inductive ApField
  | self | logicalId | lapicId | ticks | status | pending | func
  deriving DecidableEq, Repr

/-- The assignments in their order. -/
def apFields : List ApField := [.self, .logicalId, .lapicId, .ticks, .status, .pending, .func]

/-- One assignment to the block at `a`. -/
def CoreInfo.assign (index lapic a : ℕ) (b : CoreInfo) : ApField → CoreInfo
  | .self => { b with self := a }
  | .logicalId => { b with logicalId := index }
  | .lapicId => { b with lapicId := lapic }
  | .ticks => { b with ticks := 1 }
  | .status => { b with status := .idle }
  | .pending => { b with pending := false }
  | .func => { b with func := 0 }

/-- Where a core stands in `AP_kstartc`: it has not been woken; it waits for the lock; it loads and
stores `cpu_blocks_c`; it allocates its block, has some of the assignments still to do, publishes
the block, sets its `gs`, counts itself as online, gives the lock back, and is in its loop; or it
has stored behind `cpu_blocks`. -/
inductive ApPc
  | parked
  | spin
  | loadIndex
  | storeIndex (index : ℕ)
  | alloc (index : ℕ)
  | fill (index a : ℕ) (todo : List ApField)
  | setGs (index a : ℕ)
  | addOnline (index a : ℕ)
  | unlock (index a : ℕ)
  | idle (index a : ℕ)
  | fault (index : ℕ)
  deriving DecidableEq, Repr

/-- Where the boot core stands in `kernel_main`: in the loop that wakes the others, before core `i`;
waiting; in the loop that installs handlers; behind it, or in the panic. -/
inductive BspPc
  | wake (i : ℕ)
  | wait
  | check (i : ℕ)
  | done
  | panic
  deriving DecidableEq, Repr

/-- The state of the bring-up.  `allocated` is the memory that `zalloc` has returned, and `hooks`
are the handlers that have been installed, with their core and vector. -/
structure Bringup where
  lock : Bool
  cpuBlocksC : ℕ
  cpuBlocks : ℕ → ℕ
  block : ℕ → CoreInfo
  allocated : List ℕ
  online : ℕ
  gsBase : ℕ → ℕ
  ap : ℕ → ApPc
  bsp : BspPc
  hooks : List (ℕ × ℕ)

namespace Bringup

/-- A core goes on. -/
def setAp (s : Bringup) (j : ℕ) (pc : ApPc) : Bringup := { s with ap := Function.update s.ap j pc }

/-- Change a block in memory. -/
def setBlock (s : Bringup) (a : ℕ) (b : CoreInfo) : Bringup :=
  { s with block := Function.update s.block a b }

/-- The state in which `kernel_main` has counted the boot core, whose block is at `a`. -/
def init (p : MpBoot) (a : ℕ) (b : CoreInfo) (gs : ℕ → ℕ) : Bringup where
  lock := false
  cpuBlocksC := 1
  cpuBlocks := fun k => if k = 0 then a else 0
  block := Function.update (fun _ => .zero) a b
  allocated := [a]
  online := 1
  gsBase := gs
  ap _ := .parked
  bsp := if 2 ≤ p.cpuCount then .wake 0 else .done
  hooks := []

end Bringup

open Bringup

/-! ## Steps -/

/-- A step of core `j` in `AP_kstartc`. -/
inductive ApStep (p : MpBoot) (j : ℕ) : Bringup → Bringup → Prop
  /-- The test-and-set that finds the lock free. -/
  | acquire {s : Bringup} : s.ap j = .spin → s.lock = false →
      ApStep p j s ({ s with lock := true }.setAp j .loadIndex)
  /-- The load of `cpu_blocks_c++`. -/
  | loadIndex {s : Bringup} : s.ap j = .loadIndex →
      ApStep p j s (s.setAp j (.storeIndex s.cpuBlocksC))
  /-- The store of `cpu_blocks_c++`. -/
  | storeIndex {s : Bringup} {index : ℕ} : s.ap j = .storeIndex index →
      ApStep p j s ({ s with cpuBlocksC := (index + 1) % 2 ^ 32 }.setAp j (.alloc index))
  /-- `zalloc(sizeof(coreinfo_t))`. -/
  | alloc {s : Bringup} {index a : ℕ} : s.ap j = .alloc index → a ≠ 0 → a ∉ s.allocated →
      ApStep p j s
        (({ s with allocated := a :: s.allocated }.setBlock a .zero).setAp j
          (.fill index a apFields))
  /-- An assignment to a field. -/
  | fill {s : Bringup} {index a : ℕ} {f : ApField} {todo : List ApField} :
      s.ap j = .fill index a (f :: todo) →
      ApStep p j s ((s.setBlock a ((s.block a).assign index (p.lapicId j) a f)).setAp j
        (.fill index a todo))
  /-- `cpu_blocks[my_index] = my_cpu`. -/
  | publish {s : Bringup} {index a : ℕ} : s.ap j = .fill index a [] → index < p.maxCores →
      ApStep p j s ({ s with cpuBlocks := Function.update s.cpuBlocks index a }.setAp j
        (.setGs index a))
  /-- The same store behind the array. -/
  | overrun {s : Bringup} {index a : ℕ} : s.ap j = .fill index a [] → p.maxCores ≤ index →
      ApStep p j s (s.setAp j (.fault index))
  /-- `WRITE_MSR(MSR_GS_BASE, (uint64_t)my_cpu)`. -/
  | setGs {s : Bringup} {index a : ℕ} : s.ap j = .setGs index a →
      ApStep p j s ({ s with gsBase := Function.update s.gsBase j a }.setAp j (.addOnline index a))
  /-- The atomic addition to `cpu_online_count`. -/
  | addOnline {s : Bringup} {index a : ℕ} : s.ap j = .addOnline index a →
      ApStep p j s ({ s with online := wadd s.online 1 }.setAp j (.unlock index a))
  /-- `SPIN_UNLOCK`. -/
  | unlock {s : Bringup} {index a : ℕ} : s.ap j = .unlock index a →
      ApStep p j s ({ s with lock := false }.setAp j (.idle index a))

/-- A step of the boot core in `kernel_main`. -/
inductive BspStep (p : MpBoot) : Bringup → Bringup → Prop
  /-- A core that is not to be woken. -/
  | skip {s : Bringup} {i : ℕ} : s.bsp = .wake i → i < p.cpuCount →
      (p.lapicId i = p.bspLapicId ∨ i ≥ p.coresToBoot) →
      BspStep p s { s with bsp := .wake (i + 1) }
  /-- `cpu->goto_address = AP_kentry`. -/
  | wake {s : Bringup} {i : ℕ} : s.bsp = .wake i → i < p.cpuCount →
      p.lapicId i ≠ p.bspLapicId → ¬i ≥ p.coresToBoot →
      BspStep p s ({ s with bsp := .wake (i + 1) }.setAp i .spin)
  | woken {s : Bringup} {i : ℕ} : s.bsp = .wake i → ¬i < p.cpuCount →
      BspStep p s { s with bsp := .wait }
  /-- The load of `cpu_online_count` that ends the waiting. -/
  | online {s : Bringup} : s.bsp = .wait → ¬s.online < p.coresToBoot →
      BspStep p s { s with bsp := .check 0 }
  /-- The handlers of a core. -/
  | install {s : Bringup} {i : ℕ} : s.bsp = .check i → i < p.coresToBoot → s.cpuBlocks i ≠ 0 →
      BspStep p s { s with bsp := .check (i + 1), hooks := s.hooks ++ [(i, 40), (i, 32)] }
  | panic {s : Bringup} {i : ℕ} : s.bsp = .check i → i < p.coresToBoot → s.cpuBlocks i = 0 →
      BspStep p s { s with bsp := .panic }
  | done {s : Bringup} {i : ℕ} : s.bsp = .check i → ¬i < p.coresToBoot →
      BspStep p s { s with bsp := .done }

/-- Waiting for the lock or for the others, and what a core does to its own block in its loop and in
its timer interrupt. -/
inductive WaitStep (p : MpBoot) : Bringup → Bringup → Prop
  | spin {s : Bringup} {j : ℕ} : s.ap j = .spin → s.lock = true → WaitStep p s s
  | pause {s : Bringup} : s.bsp = .wait → s.online < p.coresToBoot → WaitStep p s s
  | work {s : Bringup} {j index a : ℕ} (ticks : ℕ) (status : CpuStatus) (pending : Bool)
      (func : ℕ) : s.ap j = .idle index a → WaitStep p s (s.setBlock a
        { s.block a with ticks := ticks, status := status, pending := pending, func := func })

/-- A step that is not waiting. -/
inductive WorkStep (p : MpBoot) (s s' : Bringup) : Prop
  | ap (j : ℕ) (h : ApStep p j s s')
  | bsp (h : BspStep p s s')

/-- The states of the bring-up, with the number of steps so far that were not waiting. -/
inductive BringupRun (p : MpBoot) : ℕ → Bringup → Prop
  | init {a : ℕ} {b : CoreInfo} (gs : ℕ → ℕ) : a ≠ 0 → b.self = a → b.logicalId = 0 →
      BringupRun p 0 (Bringup.init p a b gs)
  | work {n : ℕ} {s s' : Bringup} : BringupRun p n s → WorkStep p s s' → BringupRun p (n + 1) s'
  | wait {n : ℕ} {s s' : Bringup} : BringupRun p n s → WaitStep p s s' → BringupRun p n s'

/-! ## The invariant -/

/-- The core is in the critical section. -/
def ApPc.inside : ApPc → Bool
  | .parked | .spin | .idle _ _ => false
  | _ => true

/-- The index and the block of a core that has published its block. -/
def ApPc.published : ApPc → Option (ℕ × ℕ)
  | .setGs index a | .addOnline index a | .unlock index a | .idle index a => some (index, a)
  | _ => none

/-- The index that a core has taken. -/
def ApPc.index : ApPc → Option ℕ
  | .storeIndex k | .alloc k | .fill k _ _ | .setGs k _ | .addOnline k _ | .unlock k _ |
    .idle k _ | .fault k => some k
  | _ => none

/-- The block of a core that has set its `gs`. -/
def ApPc.gs : ApPc → Option ℕ
  | .addOnline _ a | .unlock _ a | .idle _ a => some a
  | _ => none

/-- The block that `AP_kstartc` publishes. -/
def CoreInfo.finished (index lapic a : ℕ) : CoreInfo := ⟨a, index, lapic, 1, .idle, false, 0⟩

/-- The first `c` entries of `cpu_blocks` are blocks of different cores, and the others are null.
The first one belongs to the boot core. -/
structure Table (p : MpBoot) (s : Bringup) (c : ℕ) : Prop where
  pos : 0 < c
  entries : ∀ k, s.cpuBlocks k ≠ 0 ↔ k < c
  distinct : ∀ k < c, ∀ k' < c, s.cpuBlocks k = s.cpuBlocks k' → k = k'
  allocated : ∀ k < c, s.cpuBlocks k ∈ s.allocated
  ready : ∀ k < c, (s.block (s.cpuBlocks k)).self = s.cpuBlocks k ∧
    (s.block (s.cpuBlocks k)).logicalId = k
  owner : ∀ k, 0 < k → k < c → ∃ j, (s.ap j).published = some (k, s.cpuBlocks k)
  published : ∀ j k a, (s.ap j).published = some (k, a) →
    0 < k ∧ k < c ∧ s.cpuBlocks k = a ∧ (s.block a).lapicId = p.lapicId j
  unique : ∀ j j' k a a', (s.ap j).published = some (k, a) → (s.ap j').published = some (k, a') →
    j = j'

/-- What a free lock says: all that have taken an index are online. -/
def Bringup.Settled (p : MpBoot) (s : Bringup) : Prop :=
  Table p s s.cpuBlocksC ∧ s.online = s.cpuBlocksC

/-- What core `j` relies on in the critical section. -/
def Bringup.Held (p : MpBoot) (s : Bringup) (j : ℕ) : Prop :=
  match s.ap j with
  | .loadIndex => s.Settled p
  | .storeIndex k => Table p s k ∧ s.online = k ∧ s.cpuBlocksC = k
  | .alloc k => Table p s k ∧ s.online = k ∧ s.cpuBlocksC = k + 1
  | .fill k a todo => Table p s k ∧ s.online = k ∧ s.cpuBlocksC = k + 1 ∧ a ≠ 0 ∧
      a ∈ s.allocated ∧ (∀ k' < k, s.cpuBlocks k' ≠ a) ∧
      todo.foldl (CoreInfo.assign k (p.lapicId j) a) (s.block a) = .finished k (p.lapicId j) a
  | .setGs k _ | .addOnline k _ => Table p s (k + 1) ∧ s.online = k ∧ s.cpuBlocksC = k + 1
  | .unlock k _ => Table p s (k + 1) ∧ s.online = k + 1 ∧ s.cpuBlocksC = k + 1
  | .fault k => Table p s k ∧ s.online = k ∧ p.maxCores ≤ k
  | _ => True

/-- `AP_init_spinlock`. -/
def apLock : SpinLock Bringup ℕ where
  flag s := s.lock
  inside s j := (s.ap j).inside = true

/-- The handlers of the first `n` cores. -/
def hooksUpTo (n : ℕ) : List (ℕ × ℕ) := (List.range n).flatMap fun k => [(k, 40), (k, 32)]

/-- What the boot core has reached. -/
def Bringup.BspAt (p : MpBoot) (s : Bringup) : Prop :=
  match s.bsp with
  | .wake i => 2 ≤ p.cpuCount ∧ (∀ j < i, p.Woken j → s.ap j ≠ .parked) ∧
      (∀ j, i ≤ j → s.ap j = .parked) ∧ s.hooks = []
  | .wait => 2 ≤ p.cpuCount ∧ (∀ j, p.Woken j → s.ap j ≠ .parked) ∧ s.hooks = []
  | .check i => 2 ≤ p.cpuCount ∧ (∀ j, p.Woken j → s.ap j ≠ .parked) ∧ p.coresToBoot ≤ s.online ∧
      i ≤ p.coresToBoot ∧ s.hooks = hooksUpTo i
  | .done => 2 ≤ p.cpuCount → (∀ j, p.Woken j → s.ap j ≠ .parked) ∧ p.coresToBoot ≤ s.online ∧
      s.hooks = hooksUpTo p.coresToBoot
  | .panic => False

/-- The invariant of the bring-up. -/
structure BringupInv (p : MpBoot) (s : Bringup) : Prop where
  lock : apLock.Inv (Bringup.Settled p) (Bringup.Held p) s
  woken : ∀ j, s.ap j ≠ .parked → p.Woken j
  gs : ∀ j a, (s.ap j).gs = some a → s.gsBase j = a
  bsp : s.BspAt p

section Steps

variable {p : MpBoot} {s s' : Bringup} {c j : ℕ}

lemma MpBoot.coresToBoot_le (p : MpBoot) : p.coresToBoot ≤ p.maxCores := by
  unfold MpBoot.coresToBoot
  dsimp only
  split_ifs <;> omega

@[simp] lemma ap_setAp (pc : ApPc) : (s.setAp j pc).ap = Function.update s.ap j pc := rfl

/-- The table depends on the published blocks only. -/
lemma Table.congr (h : Table p s c) (hblocks : s'.cpuBlocks = s.cpuBlocks)
    (halloc : ∀ a ∈ s.allocated, a ∈ s'.allocated)
    (hblock : ∀ k < c, (s'.block (s.cpuBlocks k)).self = (s.block (s.cpuBlocks k)).self ∧
      (s'.block (s.cpuBlocks k)).logicalId = (s.block (s.cpuBlocks k)).logicalId ∧
      (s'.block (s.cpuBlocks k)).lapicId = (s.block (s.cpuBlocks k)).lapicId)
    (hpub : ∀ i, (s'.ap i).published = (s.ap i).published) : Table p s' c := by
  refine ⟨h.pos, ?_, ?_, ?_, ?_, ?_, ?_, ?_⟩
  · rw [hblocks]
    exact h.entries
  · rw [hblocks]
    exact h.distinct
  · rw [hblocks]
    exact fun k hk => halloc _ (h.allocated k hk)
  · rw [hblocks]
    intro k hk
    obtain ⟨hself, hid, -⟩ := hblock k hk
    rw [hself, hid]
    exact h.ready k hk
  · rw [hblocks]
    intro k h0 hk
    obtain ⟨i, hi⟩ := h.owner k h0 hk
    exact ⟨i, (hpub i).trans hi⟩
  · rw [hblocks]
    intro i k a hi
    obtain ⟨h0, hk, ha, hlapic⟩ := h.published i k a ((hpub i).symm.trans hi)
    refine ⟨h0, hk, ha, ?_⟩
    rw [← ha, (hblock k hk).2.2, ha]
    exact hlapic
  · intro i i' k a a' hi hi'
    exact h.unique i i' k a a' ((hpub i).symm.trans hi) ((hpub i').symm.trans hi')

/-- A core goes on, publishes nothing and writes to no published block. -/
lemma Table.step (h : Table p s c) {pc : ApPc} (hap : s'.ap = Function.update s.ap j pc)
    (hpc : pc.published = (s.ap j).published) (hblocks : s'.cpuBlocks = s.cpuBlocks)
    (halloc : ∀ a ∈ s.allocated, a ∈ s'.allocated)
    (hblock : ∀ k < c, s'.block (s.cpuBlocks k) = s.block (s.cpuBlocks k)) : Table p s' c := by
  refine h.congr hblocks halloc (fun k hk => ?_) fun i => ?_
  · rw [hblock k hk]
    exact ⟨rfl, rfl, rfl⟩
  · rw [hap]
    by_cases hij : i = j
    · rw [hij, Function.update_self, hpc]
    · rw [Function.update_of_ne hij]

/-- A finished block is published. -/
lemma Table.publish {k a : ℕ} (h : Table p s k) (hpub : (s.ap j).published = none) (ha0 : a ≠ 0)
    (ha : a ∈ s.allocated) (hfresh : ∀ k' < k, s.cpuBlocks k' ≠ a)
    (hblock : s.block a = .finished k (p.lapicId j) a) :
    Table p ({ s with cpuBlocks := Function.update s.cpuBlocks k a }.setAp j (.setGs k a))
      (k + 1) := by
  have hself : Function.update s.cpuBlocks k a k = a := Function.update_self ..
  have hold : ∀ k', k' ≠ k → Function.update s.cpuBlocks k a k' = s.cpuBlocks k' := fun k' hk' =>
    Function.update_of_ne hk' ..
  have hother : ∀ i, i ≠ j → Function.update s.ap j (.setGs k a) i = s.ap i := fun i hi =>
    Function.update_of_ne hi ..
  have hj : Function.update s.ap j (.setGs k a) j = .setGs k a := Function.update_self ..
  refine ⟨k.succ_pos, fun k' => ?_, fun k₁ hk₁ k₂ hk₂ he => ?_, fun k' hk' => ?_, fun k' hk' => ?_,
    fun k' h0 hk' => ?_, fun i k' a' hi => ?_, fun i i' k' a₁ a₂ hi hi' => ?_⟩
  · show Function.update s.cpuBlocks k a k' ≠ 0 ↔ _
    by_cases hkk : k' = k
    · rw [hkk, hself]
      exact iff_of_true ha0 k.lt_succ_self
    · rw [hold k' hkk, h.entries]
      omega
  · have he' : Function.update s.cpuBlocks k a k₁ = Function.update s.cpuBlocks k a k₂ := he
    by_cases h₁ : k₁ = k <;> by_cases h₂ : k₂ = k
    · exact h₁.trans h₂.symm
    · rw [h₁, hself, hold k₂ h₂] at he'
      exact absurd he'.symm (hfresh k₂ (by omega))
    · rw [h₂, hself, hold k₁ h₁] at he'
      exact absurd he' (hfresh k₁ (by omega))
    · rw [hold k₁ h₁, hold k₂ h₂] at he'
      exact h.distinct k₁ (by omega) k₂ (by omega) he'
  · show Function.update s.cpuBlocks k a k' ∈ s.allocated
    by_cases hkk : k' = k
    · rwa [hkk, hself]
    · rw [hold k' hkk]
      exact h.allocated k' (by omega)
  · show (s.block (Function.update s.cpuBlocks k a k')).self = Function.update s.cpuBlocks k a k' ∧
      (s.block (Function.update s.cpuBlocks k a k')).logicalId = k'
    by_cases hkk : k' = k
    · rw [hkk, hself, hblock]
      exact ⟨rfl, rfl⟩
    · rw [hold k' hkk]
      exact h.ready k' (by omega)
  · show ∃ i, (Function.update s.ap j (.setGs k a) i).published = some (k', Function.update
      s.cpuBlocks k a k')
    by_cases hkk : k' = k
    · refine ⟨j, ?_⟩
      rw [hj, hkk, hself]
      rfl
    · obtain ⟨i, hi⟩ := h.owner k' h0 (by omega)
      have hij : i ≠ j := fun hij => by
        rw [hij, hpub] at hi
        cases hi
      exact ⟨i, by rw [hother i hij, hold k' hkk, hi]⟩
  · have hi' : (Function.update s.ap j (.setGs k a) i).published = some (k', a') := hi
    show 0 < k' ∧ k' < k + 1 ∧ Function.update s.cpuBlocks k a k' = a' ∧ (s.block a').lapicId = _
    by_cases hij : i = j
    · rw [hij, hj] at hi'
      cases hi'
      rw [hself, hblock, hij]
      exact ⟨h.pos, k.lt_succ_self, rfl, rfl⟩
    · rw [hother i hij] at hi'
      obtain ⟨h0, hk', ha', hlapic⟩ := h.published i k' a' hi'
      rw [hold k' (by omega)]
      exact ⟨h0, by omega, ha', hlapic⟩
  · have h₁ : (Function.update s.ap j (.setGs k a) i).published = some (k', a₁) := hi
    have h₂ : (Function.update s.ap j (.setGs k a) i').published = some (k', a₂) := hi'
    -- the new index is one that no other core has
    have hnew : ∀ i b, i ≠ j → (Function.update s.ap j (.setGs k a) i).published ≠ some (k, b) := by
      intro i b hij hib
      rw [hother i hij] at hib
      exact absurd (h.published i k b hib).2.1 (lt_irrefl k)
    by_cases hij : i = j <;> by_cases hij' : i' = j
    · exact hij.trans hij'.symm
    · rw [hij, hj] at h₁
      cases h₁
      exact absurd h₂ (hnew i' a₂ hij')
    · rw [hij', hj] at h₂
      cases h₂
      exact absurd h₁ (hnew i a₁ hij)
    · rw [hother i hij] at h₁
      rw [hother i' hij'] at h₂
      exact h.unique i i' k' a₁ a₂ h₁ h₂

/-- The cores that are woken, as a set. -/
def MpBoot.wokenCores (p : MpBoot) : Finset ℕ := (Finset.range p.coresToBoot).filter p.Woken

lemma MpBoot.mem_wokenCores : j ∈ p.wokenCores ↔ p.Woken j := by
  rw [wokenCores, Finset.mem_filter, Finset.mem_range]
  exact ⟨fun h => h.2, fun h => ⟨h.2.2, h⟩⟩

/-- The entries behind the first one belong to different cores. -/
lemma Table.le (h : Table p s c) {S : Finset ℕ} (hS : ∀ i, (s.ap i).published ≠ none → i ∈ S) :
    c ≤ 1 + S.card := by
  have hown : ∀ k ∈ Finset.Ico 1 c, ∃ j, (s.ap j).published = some (k, s.cpuBlocks k) :=
    fun k hk => h.owner k (Finset.mem_Ico.mp hk).1 (Finset.mem_Ico.mp hk).2
  choose! f hf using hown
  have hcard : (Finset.Ico 1 c).card ≤ S.card := by
    refine Finset.card_le_card_of_injOn f (fun k hk => ?_) fun k hk k' hk' he => ?_
    · refine Finset.mem_coe.mpr (hS (f k) ?_)
      rw [hf k hk]
      exact Option.some_ne_none _
    · have hpub := hf k hk
      rw [he, hf k' hk'] at hpub
      exact (Prod.ext_iff.mp (Option.some.inj hpub)).1.symm
  rw [Nat.card_Ico] at hcard
  omega

lemma ApPc.ne_parked_of_published {pc : ApPc} (h : pc.published ≠ none) : pc ≠ .parked := by
  rintro rfl
  exact h rfl

lemma MpBoot.card_wokenCores_le (p : MpBoot) : p.wokenCores.card ≤ p.maxCores :=
  calc p.wokenCores.card ≤ (Finset.range p.coresToBoot).card := Finset.card_filter_le _ _
    _ = p.coresToBoot := Finset.card_range _
    _ ≤ p.maxCores := p.coresToBoot_le

lemma Table.lt (h : Table p s c) (hw : ∀ j, s.ap j ≠ .parked → p.Woken j) : c < 2 ^ 31 + 1 := by
  have hle := h.le (S := p.wokenCores) fun i hi =>
    MpBoot.mem_wokenCores.mpr (hw i (ApPc.ne_parked_of_published hi))
  have hcard := p.card_wokenCores_le
  have hmax := p.maxCores_lt
  omega

lemma inside_update {pc : ApPc} (hpc : pc.inside = (s.ap j).inside) (i : ℕ) :
    (Function.update s.ap j pc i).inside = true ↔ (s.ap i).inside = true := by
  by_cases hij : i = j
  · rw [hij, Function.update_self, hpc]
  · rw [Function.update_of_ne hij]

/-- What a running core does not disturb. -/
lemma BringupInv.setAp (h : BringupInv p s) {pc : ApPc} (hap : s'.ap = Function.update s.ap j pc)
    (hrun : s.ap j ≠ .parked) (hpc : pc ≠ .parked) (hbsp : s'.bsp = s.bsp)
    (hhooks : s'.hooks = s.hooks) (honline : s.online ≤ s'.online)
    (hgs : ∀ i ≠ j, s'.gsBase i = s.gsBase i) (hgsj : ∀ a, pc.gs = some a → s'.gsBase j = a)
    (hlock : apLock.Inv (Bringup.Settled p) (Bringup.Held p) s') : BringupInv p s' := by
  have hparked : ∀ i, s'.ap i ≠ .parked ↔ s.ap i ≠ .parked := fun i => by
    rw [hap]
    by_cases hij : i = j
    · rw [hij, Function.update_self]
      exact iff_of_true hpc hrun
    · rw [Function.update_of_ne hij]
  refine ⟨hlock, fun i hi => h.woken i ((hparked i).mp hi), fun i a hi => ?_, ?_⟩
  · rw [hap] at hi
    by_cases hij : i = j
    · rw [hij, Function.update_self] at hi
      rw [hij]
      exact hgsj a hi
    · rw [Function.update_of_ne hij] at hi
      rw [hgs i hij]
      exact h.gs i a hi
  · have hat := h.bsp
    rw [Bringup.BspAt] at hat ⊢
    rw [hbsp, hhooks]
    cases hs : s.bsp <;> rw [hs] at hat <;> dsimp only at hat ⊢
    · obtain ⟨h2, hwoken, hrest, hnil⟩ := hat
      refine ⟨h2, fun i hi hw => (hparked i).mpr (hwoken i hi hw), fun i hi => ?_, hnil⟩
      exact not_not.mp fun hne => (hparked i).mp hne (hrest i hi)
    · obtain ⟨h2, hwoken, hnil⟩ := hat
      exact ⟨h2, fun i hw => (hparked i).mpr (hwoken i hw), hnil⟩
    · obtain ⟨h2, hwoken, hle, hrest⟩ := hat
      exact ⟨h2, fun i hw => (hparked i).mpr (hwoken i hw), hle.trans honline, hrest⟩
    · intro h2
      obtain ⟨hwoken, hle, hrest⟩ := hat h2
      exact ⟨fun i hw => (hparked i).mpr (hwoken i hw), hle.trans honline, hrest⟩

/-- A step in the critical section. -/
lemma BringupInv.within (h : BringupInv p s) {pc : ApPc} (hin : (s.ap j).inside = true)
    (hap : s'.ap = Function.update s.ap j pc) (hpc : pc.inside = true) (hlock : s'.lock = s.lock)
    (hbsp : s'.bsp = s.bsp) (hhooks : s'.hooks = s.hooks) (honline : s.online ≤ s'.online)
    (hgs : ∀ i ≠ j, s'.gsBase i = s.gsBase i) (hgsj : ∀ a, pc.gs = some a → s'.gsBase j = a)
    (hheld : s.Held p j → s'.Held p j) : BringupInv p s' := by
  refine h.setAp hap (fun hparked => ?_) (fun hparked => ?_) hbsp hhooks honline hgs hgsj
    (h.lock.within hin hlock (fun i => ?_) hheld)
  · rw [hparked] at hin
    cases hin
  · rw [hparked] at hpc
    cases hpc
  · show (s'.ap i).inside = true ↔ (s.ap i).inside = true
    rw [hap]
    by_cases hij : i = j
    · rw [hij, Function.update_self]
      exact iff_of_true hpc hin
    · rw [Function.update_of_ne hij]

/-- What a core relies on in the critical section. -/
lemma BringupInv.held (h : BringupInv p s) (hin : (s.ap j).inside = true) : s.Held p j :=
  h.lock.held j hin

/-- **A core's step** keeps the invariant. -/
lemma BringupInv.apStep (h : BringupInv p s) (hs : ApStep p j s s') : BringupInv p s' := by
  cases hs with
  | acquire hpc hfree =>
    refine h.setAp rfl (by simp [hpc]) (by simp) rfl rfl le_rfl (fun _ _ => rfl) (by simp [ApPc.gs])
      (h.lock.enter (i := j) hfree rfl (fun i => ?_) fun hset => ?_)
    · show (Function.update s.ap j .loadIndex i).inside = true ↔ (s.ap i).inside = true ∨ i = j
      by_cases hij : i = j
      · simp [hij, ApPc.inside]
      · simp [hij]
    · simp only [Bringup.Held, ap_setAp, Function.update_self]
      exact ⟨hset.1.step rfl (by rw [hpc]; rfl) rfl (fun _ ha => ha) fun _ _ => rfl, hset.2⟩
  | loadIndex hpc =>
    refine h.within (by rw [hpc]; rfl) rfl rfl rfl rfl rfl le_rfl (fun _ _ => rfl)
      (by simp [ApPc.gs]) fun hheld => ?_
    simp only [Bringup.Held, hpc] at hheld
    simp only [Bringup.Held, ap_setAp, Function.update_self]
    exact ⟨hheld.1.step rfl (by rw [hpc]; rfl) rfl (fun _ ha => ha) fun _ _ => rfl, hheld.2, rfl⟩
  | @storeIndex index hpc =>
    refine h.within (by rw [hpc]; rfl) rfl rfl rfl rfl rfl le_rfl (fun _ _ => rfl)
      (by simp [ApPc.gs]) fun hheld => ?_
    simp only [Bringup.Held, hpc] at hheld
    simp only [Bringup.Held, ap_setAp, Function.update_self]
    have hlt := hheld.1.lt h.woken
    exact ⟨hheld.1.step rfl (by rw [hpc]; rfl) rfl (fun _ ha => ha) fun _ _ => rfl, hheld.2.1,
      Nat.mod_eq_of_lt (by omega)⟩
  | @alloc index a hpc ha0 ha =>
    refine h.within (by rw [hpc]; rfl) rfl rfl rfl rfl rfl le_rfl (fun _ _ => rfl)
      (by simp [ApPc.gs]) fun hheld => ?_
    simp only [Bringup.Held, hpc] at hheld
    simp only [Bringup.Held, ap_setAp, Function.update_self]
    obtain ⟨htable, honline, hcount⟩ := hheld
    -- no published block is at the new address
    have hfresh : ∀ k < index, s.cpuBlocks k ≠ a := fun k hk hka =>
      ha (hka ▸ htable.allocated k hk)
    refine ⟨htable.step rfl (by rw [hpc]; rfl) rfl (fun _ => List.mem_cons_of_mem _) fun k hk => ?_,
      honline, hcount, ha0, List.mem_cons_self, hfresh, ?_⟩
    · exact Function.update_of_ne (hfresh k hk) ..
    · show apFields.foldl _ (Function.update s.block a .zero a) = _
      rw [Function.update_self]
      rfl
  | @fill index a f todo hpc =>
    refine h.within (by rw [hpc]; rfl) rfl rfl rfl rfl rfl le_rfl (fun _ _ => rfl)
      (by simp [ApPc.gs]) fun hheld => ?_
    simp only [Bringup.Held, hpc] at hheld
    simp only [Bringup.Held, ap_setAp, Function.update_self]
    obtain ⟨htable, honline, hcount, ha0, ha, hfresh, htodo⟩ := hheld
    refine ⟨htable.step rfl (by rw [hpc]; rfl) rfl (fun _ ha => ha) fun k hk => ?_, honline, hcount,
      ha0, ha, hfresh, ?_⟩
    · exact Function.update_of_ne (hfresh k hk) ..
    · show todo.foldl _ (Function.update s.block a _ a) = _
      rw [Function.update_self]
      exact htodo
  | @publish index a hpc hlt =>
    refine h.within (by rw [hpc]; rfl) rfl rfl rfl rfl rfl le_rfl (fun _ _ => rfl)
      (by simp [ApPc.gs]) fun hheld => ?_
    simp only [Bringup.Held, hpc] at hheld
    simp only [Bringup.Held, ap_setAp, Function.update_self]
    obtain ⟨htable, honline, hcount, ha0, ha, hfresh, hblock⟩ := hheld
    exact ⟨htable.publish (by rw [hpc]; rfl) ha0 ha hfresh hblock, honline, hcount⟩
  | @overrun index a hpc hle =>
    refine h.within (by rw [hpc]; rfl) rfl rfl rfl rfl rfl le_rfl (fun _ _ => rfl)
      (by simp [ApPc.gs]) fun hheld => ?_
    simp only [Bringup.Held, hpc] at hheld
    simp only [Bringup.Held, ap_setAp, Function.update_self]
    exact ⟨hheld.1.step rfl (by rw [hpc]; rfl) rfl (fun _ ha => ha) fun _ _ => rfl, hheld.2.1, hle⟩
  | @setGs index a hpc =>
    refine h.within (by rw [hpc]; rfl) rfl rfl rfl rfl rfl le_rfl
      (fun i hi => Function.update_of_ne hi ..) (fun b hb => ?_) fun hheld => ?_
    · cases hb
      exact Function.update_self ..
    · simp only [Bringup.Held, hpc] at hheld
      simp only [Bringup.Held, ap_setAp, Function.update_self]
      exact ⟨hheld.1.step rfl (by rw [hpc]; rfl) rfl (fun _ ha => ha) fun _ _ => rfl, hheld.2⟩
  | @addOnline index a hpc =>
    have hheld := h.held (j := j) (by rw [hpc]; rfl)
    simp only [Bringup.Held, hpc] at hheld
    obtain ⟨htable, honline, hcount⟩ := hheld
    have hlt := htable.lt h.woken
    have hadd : wadd s.online 1 = s.online + 1 := wadd_of_lt (by unfold word; omega)
    refine h.within (by rw [hpc]; rfl) rfl rfl rfl rfl rfl (hadd ▸ Nat.le_succ _) (fun _ _ => rfl)
      (fun b hb => ?_) fun _ => ?_
    · exact h.gs j b (by rw [hpc]; exact hb)
    · simp only [Bringup.Held, ap_setAp, Function.update_self]
      exact ⟨htable.step rfl (by rw [hpc]; rfl) rfl (fun _ ha => ha) fun _ _ => rfl,
        hadd.trans (by rw [honline]), hcount⟩
  | @unlock index a hpc =>
    refine h.setAp rfl (by simp [hpc]) (by simp) rfl rfl le_rfl (fun _ _ => rfl)
      (fun b hb => h.gs j b (by rw [hpc]; exact hb))
      (h.lock.leave (i := j) (show (s.ap j).inside = true by rw [hpc]; rfl) rfl (fun i => ?_)
        fun hheld => ?_)
    · show (Function.update s.ap j (.idle index a) i).inside = true ↔ (s.ap i).inside = true ∧ i ≠ j
      by_cases hij : i = j
      · simp [hij, ApPc.inside]
      · simp [hij]
    · simp only [Bringup.Held, hpc] at hheld
      obtain ⟨htable, honline, hcount⟩ := hheld
      refine ⟨?_, honline.trans hcount.symm⟩
      show Table p _ s.cpuBlocksC
      rw [hcount]
      exact htable.step rfl (by rw [hpc]; rfl) rfl (fun _ ha => ha) fun _ _ => rfl

/-- What a core in the critical section relies on, when something else changes. -/
lemma Bringup.Held.congr (h : s.Held p j) (htable : ∀ c, Table p s c → Table p s' c)
    (hap : s'.ap j = s.ap j) (honline : s'.online = s.online)
    (hcount : s'.cpuBlocksC = s.cpuBlocksC) (hblocks : s'.cpuBlocks = s.cpuBlocks)
    (halloc : s'.allocated = s.allocated)
    (hblock : ∀ k a todo, s.ap j = .fill k a todo → s'.block a = s.block a) : s'.Held p j := by
  unfold Bringup.Held Bringup.Settled at h ⊢
  rw [hap, honline, hcount, hblocks, halloc]
  cases hpc : s.ap j <;> rw [hpc] at h <;> dsimp only at h ⊢
  case loadIndex | storeIndex | alloc | setGs | addOnline | unlock | fault =>
    exact ⟨htable _ h.1, h.2⟩
  case fill k a todo =>
    rw [hblock k a todo hpc]
    exact ⟨htable _ h.1, h.2⟩

/-- The state but for what the boot core alone uses. -/
lemma BringupInv.lock_congr (h : BringupInv p s) {bsp : BspPc} {hooks : List (ℕ × ℕ)} :
    apLock.Inv (Bringup.Settled p) (Bringup.Held p) { s with bsp := bsp, hooks := hooks } := by
  have htable : ∀ c, Table p s c → Table p { s with bsp := bsp, hooks := hooks } c := fun c hc =>
    hc.congr rfl (fun _ ha => ha) (fun _ _ => ⟨rfl, rfl, rfl⟩) fun _ => rfl
  exact h.lock.outside rfl (fun _ => Iff.rfl) (fun hfree => ⟨htable _ hfree.1, hfree.2⟩)
    fun j hheld => hheld.congr htable rfl rfl rfl rfl rfl fun _ _ _ _ => rfl

/-- At any time the first entries of `cpu_blocks` are finished, as many as are online at least. -/
lemma BringupInv.exists_table (h : BringupInv p s) : ∃ c, Table p s c ∧ s.online ≤ c := by
  cases hlock : s.lock with
  | false =>
    obtain ⟨htable, honline⟩ := h.lock.free hlock
    exact ⟨_, htable, honline.le⟩
  | true =>
    obtain ⟨j, hj⟩ := h.lock.flag.mp hlock
    have hheld := h.held hj
    have hin : (s.ap j).inside = true := hj
    unfold Bringup.Held at hheld
    cases hpc : s.ap j <;> rw [hpc] at hheld hin <;> dsimp only at hheld
    case parked | spin | idle => cases hin
    case loadIndex => exact ⟨_, hheld.1, hheld.2.le⟩
    case storeIndex | alloc | unlock | fault => exact ⟨_, hheld.1, hheld.2.1.le⟩
    case fill => exact ⟨_, hheld.1, hheld.2.1.le⟩
    case setGs | addOnline => exact ⟨_, hheld.1, hheld.2.1.le.trans (Nat.le_succ _)⟩

/-- **The boot core's step** keeps the invariant. -/
lemma BringupInv.bspStep (h : BringupInv p s) (hs : BspStep p s s') : BringupInv p s' := by
  have hat := h.bsp
  unfold Bringup.BspAt at hat
  cases hs with
  | @skip i hpc hi hskip =>
    simp only [hpc] at hat
    obtain ⟨h2, hwoken, hparked, hhooks⟩ := hat
    refine ⟨h.lock_congr, h.woken, h.gs, h2, fun j hj hw => ?_, fun j hj => hparked j (by omega),
      hhooks⟩
    rcases Nat.lt_succ_iff_lt_or_eq.mp hj with hj | rfl
    · exact hwoken j hj hw
    · obtain ⟨-, hlapic, hlt⟩ := hw
      exact absurd hskip (not_or.mpr ⟨hlapic, by omega⟩)
  | @wake i hpc hi hlapic hlt =>
    simp only [hpc] at hat
    obtain ⟨h2, hwoken, hparked, hhooks⟩ := hat
    have hi' : s.ap i = .parked := hparked i le_rfl
    have hother : ∀ j, j ≠ i → Function.update s.ap i .spin j = s.ap j := fun j hj =>
      Function.update_of_ne hj ..
    have hself : Function.update s.ap i .spin i = .spin := Function.update_self ..
    have htable : ∀ c, Table p s c → Table p ({ s with bsp := .wake (i + 1) }.setAp i .spin) c :=
      fun c hc => hc.step rfl (by rw [hi']; rfl) rfl (fun _ ha => ha) fun _ _ => rfl
    refine ⟨h.lock.outside rfl (fun j => inside_update (by rw [hi']; rfl) j)
      (fun hfree => ⟨htable _ hfree.1, hfree.2⟩) fun j hheld => ?_, fun j hj => ?_,
      fun j a ha => ?_, h2, fun j hj hw => ?_,
      fun j hj => (hother j (by omega)).trans (hparked j (by omega)), hhooks⟩
    · by_cases hji : j = i
      · rw [hji, Bringup.Held, ap_setAp, hself]
        trivial
      · exact hheld.congr htable (hother j hji) rfl rfl rfl rfl fun _ _ _ _ => rfl
    · by_cases hji : j = i
      · rw [hji]
        exact ⟨hi, hlapic, by omega⟩
      · exact h.woken j (hother j hji ▸ hj)
    · by_cases hji : j = i
      · rw [hji, ap_setAp, hself] at ha
        cases ha
      · exact h.gs j a (hother j hji ▸ ha)
    · show Function.update s.ap i .spin j ≠ .parked
      by_cases hji : j = i
      · rw [hji, hself]
        exact nofun
      · rw [hother j hji]
        exact hwoken j (by omega) hw
  | @woken i hpc hi =>
    simp only [hpc] at hat
    obtain ⟨h2, hwoken, -, hhooks⟩ := hat
    exact ⟨h.lock_congr, h.woken, h.gs, h2, fun j hw => hwoken j (hw.1.trans_le (by omega)) hw,
      hhooks⟩
  | online hpc hle =>
    simp only [hpc] at hat
    obtain ⟨h2, hwoken, hhooks⟩ := hat
    exact ⟨h.lock_congr, h.woken, h.gs, h2, hwoken, not_lt.mp hle, Nat.zero_le _, hhooks⟩
  | @install i hpc hi hblock =>
    simp only [hpc] at hat
    obtain ⟨h2, hwoken, hle, -, hhooks⟩ := hat
    refine ⟨h.lock_congr, h.woken, h.gs, h2, hwoken, hle, hi, ?_⟩
    rw [hhooks, hooksUpTo, hooksUpTo, List.range_succ, List.flatMap_append]
    rfl
  | @panic i hpc hi hblock =>
    simp only [hpc] at hat
    obtain ⟨-, -, hle, -⟩ := hat
    obtain ⟨c, htable, hc⟩ := h.exists_table
    exact absurd hblock ((htable.entries i).mpr (hi.trans_le (hle.trans hc)))
  | @done i hpc hi =>
    simp only [hpc] at hat
    obtain ⟨h2, hwoken, hle, hile, hhooks⟩ := hat
    refine ⟨h.lock_congr, h.woken, h.gs, fun _ => ⟨hwoken, hle, ?_⟩⟩
    rw [hhooks, show i = p.coresToBoot by omega]

/-- **Waiting** keeps the invariant. -/
lemma BringupInv.waitStep (h : BringupInv p s) (hs : WaitStep p s s') : BringupInv p s' := by
  cases hs with
  | spin => exact h
  | pause => exact h
  | @work j index a ticks status pending func hpc =>
    set b : CoreInfo :=
      { s.block a with ticks := ticks, status := status, pending := pending, func := func } with hb
    have htable : ∀ c, Table p s c → Table p (s.setBlock a b) c := by
      refine fun c hc => hc.congr rfl (fun _ ha => ha) (fun k hk => ?_) fun _ => rfl
      show (Function.update s.block a b _).self = _ ∧
        (Function.update s.block a b _).logicalId = _ ∧
        (Function.update s.block a b _).lapicId = _
      by_cases hka : s.cpuBlocks k = a
      · rw [hka, Function.update_self]
        exact ⟨rfl, rfl, rfl⟩
      · rw [Function.update_of_ne hka]
        exact ⟨rfl, rfl, rfl⟩
    refine ⟨h.lock.outside rfl (fun _ => Iff.rfl) (fun hfree => ⟨htable _ hfree.1, hfree.2⟩)
      fun i hheld => hheld.congr htable rfl rfl rfl rfl rfl fun k a' todo hfill => ?_,
      h.woken, h.gs, h.bsp⟩
    -- the block that is being filled in is not one that is published
    simp only [Bringup.Held, hfill] at hheld
    obtain ⟨hc, -, -, -, -, hfresh, -⟩ := hheld
    obtain ⟨-, hk, ha, -⟩ := hc.published j index a (by rw [hpc]; rfl)
    exact Function.update_of_ne (fun haa => hfresh index hk (ha.trans haa.symm)) ..

/-- The invariant holds when the boot core has counted itself. -/
lemma bringupInv_init {a : ℕ} {b : CoreInfo} (gs : ℕ → ℕ) (ha : a ≠ 0) (hself : b.self = a)
    (hid : b.logicalId = 0) : BringupInv p (Bringup.init p a b gs) := by
  have hblock : ∀ k < 1, (Bringup.init p a b gs).cpuBlocks k = a := fun k hk =>
    if_pos (Nat.lt_one_iff.mp hk)
  have hmem : (Bringup.init p a b gs).block a = b := by
    simp [Bringup.init]
  have htable : Table p (Bringup.init p a b gs) 1 := by
    refine ⟨Nat.one_pos, fun k => ?_, fun k hk k' hk' _ => by omega, fun k hk => ?_, fun k hk => ?_,
      fun k h0 hk => by omega, fun j k a' hj => ?_, fun j j' k a' a'' hj => ?_⟩
    · show (if k = 0 then a else 0) ≠ 0 ↔ k < 1
      split_ifs with hk
      · exact iff_of_true ha (by omega)
      · exact iff_of_false (fun h => h rfl) (by omega)
    · rw [hblock k hk]
      exact List.mem_singleton_self a
    · rw [hblock k hk, hmem, hself, hid]
      exact ⟨rfl, (Nat.lt_one_iff.mp hk).symm⟩
    · cases hj
    · cases hj
  refine ⟨⟨iff_of_false Bool.false_ne_true nofun, nofun, fun _ => ⟨htable, rfl⟩, nofun⟩,
    fun j hj => absurd rfl hj, nofun, ?_⟩
  unfold Bringup.BspAt Bringup.init
  dsimp only
  split_ifs with h2
  · exact ⟨h2, fun _ hj => absurd hj (Nat.not_lt_zero _), fun _ _ => rfl, rfl⟩
  · exact fun h => absurd h h2

/-- **Every state** of the bring-up satisfies the invariant. -/
lemma BringupRun.inv {n : ℕ} (h : BringupRun p n s) : BringupInv p s := by
  induction h with
  | init gs ha hself hid => exact bringupInv_init gs ha hself hid
  | work _ hs ih =>
    cases hs with
    | ap j hs => exact ih.apStep hs
    | bsp hs => exact ih.bspStep hs
  | wait _ hs ih => exact ih.waitStep hs

lemma ApPc.index_of_published {pc : ApPc} {k a : ℕ} (h : pc.published = some (k, a)) :
    pc.index = some k := by
  cases pc <;> cases h <;> rfl

/-- Cores that have published a block have different entries. -/
lemma Table.ge (h : Table p s c) {S : Finset ℕ} (hS : ∀ i ∈ S, (s.ap i).published ≠ none) :
    1 + S.card ≤ c := by
  have hpub : ∀ i ∈ S, ∃ x, (s.ap i).published = some x := fun i hi =>
    Option.ne_none_iff_exists'.mp (hS i hi)
  choose! f hf using hpub
  have hcard : S.card ≤ (Finset.Ico 1 c).card := by
    refine Finset.card_le_card_of_injOn (fun i => (f i).1) (fun i hi => ?_) fun i hi i' hi' he => ?_
    · obtain ⟨h0, hk, -⟩ := h.published i _ _ (hf i hi)
      exact Finset.mem_coe.mpr (Finset.mem_Ico.mpr ⟨h0, hk⟩)
    · have he' : (f i).1 = (f i').1 := he
      exact h.unique i i' (f i).1 (f i).2 (f i').2 (hf i hi) (he' ▸ hf i' hi')
  have hpos := h.pos
  rw [Nat.card_Ico] at hcard
  omega

/-- No index is greater than the number of cores that are woken. -/
lemma BringupInv.index_le (h : BringupInv p s) {k : ℕ} (hk : (s.ap j).index = some k) :
    k ≤ p.wokenCores.card := by
  have hwoken : ∀ i, (s.ap i).published ≠ none → i ∈ p.wokenCores := fun i hi =>
    MpBoot.mem_wokenCores.mpr (h.woken i (ApPc.ne_parked_of_published hi))
  by_cases hpub : (s.ap j).published = none
  · have hin : (s.ap j).inside = true := by
      cases hpc : s.ap j <;> rw [hpc] at hk hpub <;> first
        | rfl
        | exact absurd hk.symm (Option.some_ne_none _)
        | exact absurd hpub (Option.some_ne_none _)
    have hj : j ∈ p.wokenCores := MpBoot.mem_wokenCores.mpr <| h.woken j fun hparked => by
      rw [hparked] at hk
      cases hk
    have htable : Table p s k := by
      have hheld := h.held hin
      unfold Bringup.Held at hheld
      cases hpc : s.ap j <;> rw [hpc] at hk hpub hheld <;> cases hk <;> first
        | exact hheld.1
        | exact absurd hpub (Option.some_ne_none _)
    have hle := htable.le (S := p.wokenCores.erase j) fun i hi => by
      refine Finset.mem_erase.mpr ⟨?_, hwoken i hi⟩
      rintro rfl
      exact hi hpub
    rw [Finset.card_erase_of_mem hj] at hle
    have hpos := Finset.card_pos.mpr ⟨j, hj⟩
    omega
  · obtain ⟨⟨k', a⟩, hpub⟩ := Option.ne_none_iff_exists'.mp hpub
    have hkk : k' = k := Option.some.inj ((ApPc.index_of_published hpub).symm.trans hk)
    obtain ⟨c, htable, -⟩ := h.exists_table
    obtain ⟨-, hlt, -⟩ := htable.published j k' a hpub
    have hle := htable.le hwoken
    omega

/-- With room in `cpu_blocks` every index that a core takes is one of its entries. -/
lemma BringupInv.index_lt (h : BringupInv p s) (hroom : p.Room) {k : ℕ}
    (hk : (s.ap j).index = some k) : k < p.maxCores := by
  have hle := h.index_le hk
  have hcores := p.coresToBoot_le
  have hcard : p.wokenCores.card ≤ p.coresToBoot :=
    (Finset.card_filter_le _ _).trans_eq (Finset.card_range _)
  rcases hroom with hlt | ⟨i, hi, hbsp⟩
  · omega
  · -- the boot core is one that is not woken
    have hsub : p.wokenCores ⊆ (Finset.range p.coresToBoot).erase i := fun j' hj' => by
      obtain ⟨-, hlapic, hlt⟩ := MpBoot.mem_wokenCores.mp hj'
      exact Finset.mem_erase.mpr ⟨fun he => hlapic (he ▸ hbsp), Finset.mem_range.mpr hlt⟩
    have hcard' := Finset.card_le_card hsub
    rw [Finset.card_erase_of_mem (Finset.mem_range.mpr hi), Finset.card_range] at hcard'
    omega

/-- Only an index behind the last entry leads to the store behind the array. -/
lemma BringupInv.le_of_fault (h : BringupInv p s) {k : ℕ} (hpc : s.ap j = .fault k) :
    p.maxCores ≤ k := by
  have hheld := h.held (j := j) (by rw [hpc]; rfl)
  simp only [Bringup.Held, hpc] at hheld
  exact hheld.2.2

lemma BringupInv.ne_fault (h : BringupInv p s)
    (hbound : ∀ k, (s.ap j).index = some k → k < p.maxCores) (k : ℕ) : s.ap j ≠ .fault k :=
  fun hpc => (hbound k (by rw [hpc]; rfl)).not_ge (h.le_of_fault hpc)

/-! ## The bring-up ends -/

/-- How many steps a core has left. -/
def ApPc.rank : ApPc → ℕ
  | .parked => 17
  | .spin => 16
  | .loadIndex => 15
  | .storeIndex _ => 14
  | .alloc _ => 13
  | .fill _ _ todo => 4 + todo.length
  | .setGs _ _ => 3
  | .addOnline _ _ => 2
  | .unlock _ _ => 1
  | .idle _ _ => 0
  | .fault _ => 0

/-- How many steps the boot core has left. -/
def BspPc.rank (p : MpBoot) : BspPc → ℕ
  | .wake i => p.cpuCount - i + p.coresToBoot + 4
  | .wait => p.coresToBoot + 3
  | .check i => p.coresToBoot - i + 2
  | .done => 0
  | .panic => 0

/-- How many steps are left. -/
def Bringup.rank (p : MpBoot) (s : Bringup) : ℕ :=
  ∑ j ∈ Finset.range p.coresToBoot, (s.ap j).rank + s.bsp.rank p

/-- One core goes on. -/
lemma Bringup.rank_lt {pc : ApPc} (hj : j < p.coresToBoot)
    (hap : s'.ap = Function.update s.ap j pc) (hrank : pc.rank < (s.ap j).rank)
    (hbsp : s'.bsp.rank p ≤ s.bsp.rank p) : s'.rank p < s.rank p := by
  refine add_lt_add_of_lt_of_le (Finset.sum_lt_sum (fun i _ => ?_) ⟨j, Finset.mem_range.mpr hj, ?_⟩)
    hbsp
  · rw [hap]
    by_cases hij : i = j
    · rw [hij, Function.update_self]
      exact hrank.le
    · rw [Function.update_of_ne hij]
  · rw [hap, Function.update_self]
    exact hrank

/-- **Every step that is not waiting** comes nearer to the end. -/
lemma BringupInv.rank_lt (h : BringupInv p s) (hs : WorkStep p s s') : s'.rank p < s.rank p := by
  cases hs with
  | ap j hs =>
    have hlt : s.ap j ≠ .parked → j < p.coresToBoot := fun hj => (h.woken j hj).2.2
    cases hs with
    | _ hpc =>
      exact Bringup.rank_lt (hlt (by simp [hpc])) rfl (by simp [hpc, ApPc.rank, apFields]) le_rfl
  | bsp hs =>
    cases hs with
    | @wake i hpc hi hlapic hlt =>
      have hat := h.bsp
      simp only [Bringup.BspAt, hpc] at hat
      obtain ⟨-, -, hparked, -⟩ := hat
      refine Bringup.rank_lt (j := i) (by omega) rfl ?_ ?_
      · rw [hparked i le_rfl]
        decide
      · show (BspPc.wake (i + 1)).rank p ≤ _
        rw [hpc, BspPc.rank, BspPc.rank]
        omega
    | _ hpc =>
      refine Nat.add_lt_add_left ?_ _
      rw [hpc]
      simp only [BspPc.rank]
      omega

/-- The number of steps is bounded. -/
lemma BringupRun.add_rank_le {n : ℕ} (h : BringupRun p n s) :
    n + s.rank p ≤ 18 * p.coresToBoot + p.cpuCount + 4 := by
  induction h with
  | @init a b gs =>
    have hsum : ∑ j ∈ Finset.range p.coresToBoot, ((Bringup.init p a b gs).ap j).rank =
        p.coresToBoot * 17 := by
      rw [Finset.sum_congr rfl fun j _ => show ((Bringup.init p a b gs).ap j).rank = 17 from rfl,
        Finset.sum_const, Finset.card_range]
      rfl
    have hbsp : (Bringup.init p a b gs).bsp.rank p ≤ p.cpuCount + p.coresToBoot + 4 := by
      show (if 2 ≤ p.cpuCount then BspPc.wake 0 else BspPc.done).rank p ≤ _
      split_ifs <;> simp only [BspPc.rank] <;> omega
    rw [Bringup.rank, hsum]
    omega
  | work hrun hs ih =>
    have hlt := hrun.inv.rank_lt hs
    omega
  | @wait n s s' hrun hs ih =>
    have hrank : s'.rank p = s.rank p := by
      cases hs <;> rfl
    rwa [hrank]

/-- A core in the critical section is not stuck, unless it has stored behind the array. -/
lemma exists_apStep (hin : (s.ap j).inside = true) (hfault : ∀ k, s.ap j ≠ .fault k) :
    ∃ s', ApStep p j s s' := by
  cases hpc : s.ap j with
  | parked | spin | idle =>
    rw [hpc] at hin
    cases hin
  | loadIndex => exact ⟨_, .loadIndex hpc⟩
  | storeIndex k => exact ⟨_, .storeIndex hpc⟩
  | alloc k =>
    obtain ⟨a, ha⟩ := Infinite.exists_notMem_finset (0 :: s.allocated).toFinset
    rw [List.mem_toFinset, List.mem_cons, not_or] at ha
    exact ⟨_, .alloc hpc ha.1 ha.2⟩
  | fill k a todo =>
    cases todo with
    | nil =>
      rcases lt_or_ge k p.maxCores with hk | hk
      · exact ⟨_, .publish hpc hk⟩
      · exact ⟨_, .overrun hpc hk⟩
    | cons f todo => exact ⟨_, .fill hpc⟩
  | setGs k a => exact ⟨_, .setGs hpc⟩
  | addOnline k a => exact ⟨_, .addOnline hpc⟩
  | unlock k a => exact ⟨_, .unlock hpc⟩
  | fault k => exact absurd hpc (hfault k)

lemma MpBoot.coresToBoot_le_cpuCount (p : MpBoot) : p.coresToBoot ≤ p.cpuCount := by
  unfold MpBoot.coresToBoot
  dsimp only
  split_ifs <;> omega

/-- One core at most of those that are to be booted is not woken. -/
lemma MpBoot.coresToBoot_le_card (p : MpBoot) : p.coresToBoot ≤ 1 + p.wokenCores.card := by
  have hle := p.coresToBoot_le_cpuCount
  have hbsp : ∀ j ∈ (Finset.range p.coresToBoot).filter fun j => ¬p.Woken j,
      p.lapicId j = p.bspLapicId := by
    intro j hj
    obtain ⟨hlt, hnot⟩ := Finset.mem_filter.mp hj
    have hlt' : j < p.coresToBoot := Finset.mem_range.mp hlt
    exact not_not.mp fun hne => hnot ⟨hlt'.trans_le hle, hne, hlt'⟩
  have hone : ((Finset.range p.coresToBoot).filter fun j => ¬p.Woken j).card ≤ 1 :=
    Finset.card_le_one.mpr fun i hi j hj => p.bsp_unique i j (hbsp i hi) (hbsp j hj)
  have hsplit := Finset.card_filter_add_card_filter_not (s := Finset.range p.coresToBoot) p.Woken
  rw [Finset.card_range, ← MpBoot.wokenCores] at hsplit
  omega

/-- When only waiting is left, every woken core is in its loop and the boot core has gone on. -/
lemma BringupInv.of_stuck (h : BringupInv p s)
    (hbound : ∀ j k, (s.ap j).index = some k → k < p.maxCores) (hstuck : ¬∃ s', WorkStep p s s') :
    s.bsp = .done ∧ (2 ≤ p.cpuCount → (∀ j, p.Woken j → ∃ k a, s.ap j = .idle k a) ∧
      Table p s (1 + p.wokenCores.card) ∧ s.cpuBlocksC = 1 + p.wokenCores.card) := by
  have hfree : s.lock = false := by
    refine Bool.eq_false_iff.mpr fun hlock => ?_
    obtain ⟨j, hj⟩ := h.lock.flag.mp hlock
    obtain ⟨s', hs⟩ := exists_apStep (p := p) hj (h.ne_fault (hbound j))
    exact hstuck ⟨s', .ap j hs⟩
  have hidle : ∀ j, s.ap j ≠ .parked → ∃ k a, s.ap j = .idle k a := by
    intro j hj
    cases hpc : s.ap j with
    | parked => exact absurd hpc hj
    | spin => exact absurd ⟨_, .ap j (.acquire hpc hfree)⟩ hstuck
    | idle k a => exact ⟨k, a, rfl⟩
    | fault k => exact absurd hpc (h.ne_fault (hbound j) k)
    | _ =>
      obtain ⟨s', hs⟩ := exists_apStep (p := p) (s := s) (j := j) (by rw [hpc]; rfl)
        (h.ne_fault (hbound j))
      exact absurd ⟨s', .ap j hs⟩ hstuck
  obtain ⟨htable, honline⟩ := h.lock.free hfree
  -- the table has one entry for each woken core
  have hcount : (∀ j, p.Woken j → s.ap j ≠ .parked) → s.cpuBlocksC = 1 + p.wokenCores.card := by
    intro hwoken
    refine le_antisymm (htable.le fun i hi => ?_) (htable.ge fun i hi => ?_)
    · exact MpBoot.mem_wokenCores.mpr (h.woken i (ApPc.ne_parked_of_published hi))
    · obtain ⟨k, a, hpc⟩ := hidle i (hwoken i (MpBoot.mem_wokenCores.mp hi))
      rw [hpc]
      exact Option.some_ne_none _
  have hat := h.bsp
  unfold Bringup.BspAt at hat
  cases hbsp : s.bsp with
  | wake i =>
    refine absurd ?_ hstuck
    by_cases hi : i < p.cpuCount
    · by_cases hlapic : p.lapicId i = p.bspLapicId
      · exact ⟨_, .bsp (.skip hbsp hi (.inl hlapic))⟩
      · by_cases hlt : i ≥ p.coresToBoot
        · exact ⟨_, .bsp (.skip hbsp hi (.inr hlt))⟩
        · exact ⟨_, .bsp (.wake hbsp hi hlapic hlt)⟩
    · exact ⟨_, .bsp (.woken hbsp hi)⟩
  | wait =>
    simp only [hbsp] at hat
    obtain ⟨-, hwoken, -⟩ := hat
    have hle := p.coresToBoot_le_card
    have hc := hcount hwoken
    exact absurd ⟨_, .bsp (.online hbsp (by omega))⟩ hstuck
  | check i =>
    refine absurd ?_ hstuck
    by_cases hi : i < p.coresToBoot
    · by_cases hnull : s.cpuBlocks i = 0
      · exact ⟨_, .bsp (.panic hbsp hi hnull)⟩
      · exact ⟨_, .bsp (.install hbsp hi hnull)⟩
    · exact ⟨_, .bsp (.done hbsp hi)⟩
  | done =>
    simp only [hbsp] at hat
    refine ⟨rfl, fun h2 => ?_⟩
    obtain ⟨hwoken, -⟩ := hat h2
    exact ⟨fun j hj => hidle j (hwoken j hj), hcount hwoken ▸ htable, hcount hwoken⟩
  | panic =>
    simp only [hbsp] at hat

/-- The bring-up can always be run to its end. -/
lemma exists_stuck {n : ℕ} (h : BringupRun p n s) :
    ∃ n' s', BringupRun p n' s' ∧ ¬∃ s'', WorkStep p s' s'' := by
  by_contra hnone
  push Not at hnone
  have hlong : ∀ m, ∃ s', BringupRun p (n + m) s' := by
    intro m
    induction m with
    | zero => exact ⟨s, h⟩
    | succ m ih =>
      obtain ⟨s', hs'⟩ := ih
      obtain ⟨s'', hwork⟩ := hnone _ s' hs'
      exact ⟨s'', hs'.work hwork⟩
  obtain ⟨s', hs'⟩ := hlong (18 * p.coresToBoot + p.cpuCount + 5)
  have hle := hs'.add_rank_le
  omega

end Steps

/-! ## What the bring-up does -/

/-- A boot core with its block at 64. -/
def bootBlock : CoreInfo := ⟨64, 0, 0, 1, .busy, false, 0⟩

/-- `n` cores, of which the one at `boot` in the list boots, and four entries in `cpu_blocks`. -/
def coresOf (n boot : ℕ) : MpBoot where
  maxCores := 4
  maxcpus := 4
  cpuCount := n
  lapicId := id
  bspLapicId := boot
  maxCores_pos := by decide
  maxCores_lt := by decide
  bsp_unique i j hi hj := hi.trans hj.symm

/-- The bring-up from its first state. -/
lemma BringupRun.start (p : MpBoot) :
    BringupRun p 0 (Bringup.init p 64 bootBlock fun _ => 0) :=
  .init _ (by decide) rfl rfl

/-- **The indices fit into `cpu_blocks`** in every run exactly if fewer cores are booted than there
is room for or the boot core is among the first ones in the list. -/
theorem cpu_blocks_in_bounds_iff (p : MpBoot) (h2 : 2 ≤ p.cpuCount) :
    (∀ n s, BringupRun p n s → ∀ j k, (s.ap j).index = some k → k < p.maxCores) ↔
      p.coresToBoot < p.maxCores ∨ ∃ j < p.coresToBoot, p.lapicId j = p.bspLapicId := by
  constructor
  · intro hbound
    by_contra hnot
    obtain ⟨hmax, hbsp⟩ := not_or.mp hnot
    -- otherwise all cores are woken, and the last one gets the index `maxCores`
    have hall : p.wokenCores = Finset.range p.coresToBoot := by
      refine Finset.filter_true_of_mem fun j hj => ?_
      have hlt : j < p.coresToBoot := Finset.mem_range.mp hj
      exact ⟨hlt.trans_le p.coresToBoot_le_cpuCount, fun he => hbsp ⟨j, hlt, he⟩, hlt⟩
    have hcard : p.wokenCores.card = p.maxCores := by
      rw [hall, Finset.card_range]
      exact le_antisymm p.coresToBoot_le (not_lt.mp hmax)
    obtain ⟨n, s, hrun, hstuck⟩ := exists_stuck (BringupRun.start p)
    obtain ⟨-, hend⟩ := hrun.inv.of_stuck (hbound n s hrun) hstuck
    obtain ⟨-, htable, -⟩ := hend h2
    obtain ⟨j, hj⟩ := htable.owner p.maxCores p.maxCores_pos (by omega)
    exact lt_irrefl _ (hbound n s hrun j _ (ApPc.index_of_published hj))
  · exact fun hroom n s hrun j k => hrun.inv.index_lt hroom

/-- Three cores of which the first one boots; and eight of which the last one boots, so that the
first four are woken and one of them gets the index 4. -/
theorem cpu_blocks_in_bounds_lastBoots :
    (∀ n s, BringupRun (coresOf 3 0) n s → ∀ j k, (s.ap j).index = some k → k < 4) ∧
    ∃ n s, BringupRun (coresOf 8 7) n s ∧ ∃ j k, (s.ap j).index = some k ∧ 4 ≤ k := by
  refine ⟨(cpu_blocks_in_bounds_iff (coresOf 3 0) (by decide)).mpr (.inl (by decide)), ?_⟩
  by_contra hnone
  push Not at hnone
  rcases (cpu_blocks_in_bounds_iff (coresOf 8 7) (by decide)).mp hnone with hlt | ⟨j, hj, hboot⟩
  · exact absurd hlt (by decide)
  · have hj4 : j < 4 := hj
    have hj7 : j = 7 := hboot
    omega

end Cuore
