import Cuore.Framework.Bytes
import Cuore.Framework.Word
import Mathlib.Data.List.Nodup
import Mathlib.Logic.Function.Basic

/-!
# Disks and their partition lists (`disk/partition.c`)

A disk is its contents, byte by byte, with the reads that succeed and the buffers that `dmalloc32`
hands out for them.  A buffer is uninitialised memory, indexed from its start, and reading sectors
overwrites its beginning.

The partitions of a device are a chain of nodes that `malloc` returns, which is not zeroed: `nodes`
is the memory of the nodes, whatever it held before, and `alloc` the addresses that the calls of
`malloc` return, zero for a failure.  `partition_register` appends a node by walking the chain to
its end; a walk that does not end is `none`.

A node's own `next` is never written before it is appended.  `registerAll_list` says that the chain
comes out right if these fields happen to be zero, and `next_eq_zero_of_registerAll` that it does
not otherwise: every node appended makes the chain longer by one, or by more.
-/

namespace Cuore

/-! ## Disks -/

/-- A disk, and what the driver and `dmalloc32` answer.  The stale bytes of a buffer depend on its
size alone. -/
structure DiskIo where
  bytes : Memory
  totalSectors : ℕ
  readOk : ℕ → ℕ → Bool
  dmalloc32 : ℕ → Option Memory

/-- The size of a sector. -/
def sectorSize : ℕ := 512

namespace DiskIo

/-- `dev->read_sectors(dev, lba, count, buffer)`: the buffer afterwards, if the read succeeds.  The
sector number is 32 bits wide. -/
def readSectors (io : DiskIo) (lba count : ℕ) (buffer : Memory) : Option Memory :=
  if io.readOk (lba % 2 ^ 32) count then
    some (buffer.copyFrom 0 (count * sectorSize) io.bytes (lba % 2 ^ 32 * sectorSize))
  else none

/-- `dev->write_sectors(dev, lba, count, buffer)`; nobody looks at its result. -/
def writeSectors (io : DiskIo) (lba count : ℕ) (buffer : Memory) : DiskIo :=
  { io with bytes := io.bytes.copyFrom (lba % 2 ^ 32 * sectorSize) (count * sectorSize) buffer 0 }

variable {io : DiskIo} {lba count : ℕ} {buffer : Memory}

lemma writeSectors_of_inside (hlba : lba < 2 ^ 32) {x : ℕ} (hx : x < count * 512) :
    (io.writeSectors lba count buffer).bytes (lba * 512 + x) = buffer x := by
  rw [writeSectors, Nat.mod_eq_of_lt hlba, sectorSize]
  dsimp only
  rw [Memory.copyFrom_of_inside (by omega) (by omega), Nat.zero_add, Nat.add_sub_cancel_left]

lemma writeSectors_of_outside (hlba : lba < 2 ^ 32) {y : ℕ}
    (hy : y < lba * 512 ∨ lba * 512 + count * 512 ≤ y) :
    (io.writeSectors lba count buffer).bytes y = io.bytes y := by
  rw [writeSectors, Nat.mod_eq_of_lt hlba, sectorSize]
  exact Memory.copyFrom_of_outside hy

lemma exists_readSectors (h : ∀ lba count, io.readOk lba count = true) (lba count : ℕ)
    (buffer : Memory) : ∃ m, io.readSectors lba count buffer = some m := by
  rw [readSectors, if_pos (h _ _)]
  exact ⟨_, rfl⟩

/-- What a read leaves in the buffer. -/
lemma readSectors_eq_some {m : Memory} (h : io.readSectors lba count buffer = some m)
    (hlba : lba < 2 ^ 32) {x : ℕ} (hx : x < count * 512) : m x = io.bytes (lba * 512 + x) := by
  rw [readSectors, Nat.mod_eq_of_lt hlba, sectorSize] at h
  split_ifs at h
  cases h
  rw [Memory.copyFrom_of_inside (by omega) (by omega), Nat.sub_zero]

end DiskIo

/-! ## Partitions -/

/-- The fields of a `partition_t` apart from `next`. -/
structure Partition where
  startLba : ℕ
  sectorCount : ℕ
  partitionId : ℕ
  typeId : ℕ
  guid : List UInt8
  disk : ℕ
  isGpt : Bool
  deriving DecidableEq, Repr

/-- A `partition_t`. -/
structure PartitionNode where
  part : Partition
  next : ℕ

/-- A `kernel_disk_dev_t` as far as partitions go, with the memory that they live in and the
partitions reported to the log so far. -/
structure DiskDev where
  addr : ℕ
  partitions : ℕ
  nodes : ℕ → PartitionNode
  alloc : ℕ → ℕ
  mallocs : ℕ
  registered : List Partition

namespace DiskDev

/-- The loop of `partition_register` that looks for the last node.  It visits no node twice unless
it never ends, and there are fewer than `2 ^ 64`. -/
def lastNode (nodes : ℕ → PartitionNode) : ℕ → ℕ → Option ℕ
  | 0, _ => none
  | fuel + 1, current =>
    if (nodes current).next ≠ 0 then lastNode nodes fuel (nodes current).next else some current

/-- `partition_register`. -/
def partitionRegister (d : DiskDev) (newPart : ℕ) : Option DiskDev :=
  if newPart = 0 ∨ (d.nodes newPart).part.disk = 0 then some d
  else
    let d := { d with registered := d.registered ++ [(d.nodes newPart).part] }
    if d.partitions = 0 then some { d with partitions := newPart }
    else (lastNode d.nodes word d.partitions).map fun current => { d with
      nodes := Function.update d.nodes current { d.nodes current with next := newPart } }

/-- `malloc(sizeof(partition_t))`. -/
def mallocNode (d : DiskDev) : ℕ × DiskDev :=
  (d.alloc d.mallocs, { d with mallocs := d.mallocs + 1 })

/-- Fill in some fields of a node. -/
def setPart (d : DiskDev) (a : ℕ) (f : Partition → Partition) : DiskDev :=
  { d with nodes := Function.update d.nodes a { d.nodes a with part := f (d.nodes a).part } }

/-- Allocate a node, fill it in and register it: what the parsers do for each entry. -/
def addPartition (d : DiskDev) (f : Partition → Partition) : Option DiskDev :=
  (d.mallocNode.2.setPart d.mallocNode.1 f).partitionRegister d.mallocNode.1

/-- One entry after the other. -/
def registerAll : DiskDev → List (Partition → Partition) → Option DiskDev
  | d, [] => some d
  | d, f :: fs => (d.addPartition f).bind fun d => registerAll d fs

/-- The nodes from `p` on, read off the memory. -/
def chainFrom (nodes : ℕ → PartitionNode) : ℕ → ℕ → Option (List Partition)
  | 0, _ => none
  | fuel + 1, p =>
    if p = 0 then some []
    else (chainFrom nodes fuel (nodes p).next).map ((nodes p).part :: ·)

/-- The partition list of the device, if its chain ends. -/
def partitionList (d : DiskDev) : Option (List Partition) := chainFrom d.nodes word d.partitions

end DiskDev

/-! ## Chains of nodes -/

/-- The nodes `l`, one after the other, are a chain from `p` to a null pointer. -/
inductive NodeChain (nodes : ℕ → PartitionNode) : ℕ → List ℕ → Prop
  | nil : NodeChain nodes 0 []
  | cons {p : ℕ} {l : List ℕ} (hp : p ≠ 0) (hl : NodeChain nodes (nodes p).next l) :
      NodeChain nodes p (p :: l)

section NodeChain

variable {nodes nodes' : ℕ → PartitionNode} {p x : ℕ} {l l' : List ℕ}

lemma NodeChain.unique (h : NodeChain nodes p l) (h' : NodeChain nodes p l') : l = l' := by
  induction h generalizing l' with
  | nil =>
    cases h' with
    | nil => rfl
    | cons hp _ => exact absurd rfl hp
  | cons hp _ ih =>
    cases h' with
    | nil => exact absurd rfl hp
    | cons _ hl' => rw [ih hl']

lemma NodeChain.eq_zero (h : NodeChain nodes p []) : p = 0 := by
  cases h
  rfl

lemma NodeChain.ne_zero (h : NodeChain nodes p l) : ∀ x ∈ l, x ≠ 0 := by
  induction h with
  | nil => simp
  | cons hp _ ih => simpa using ⟨hp, ih⟩

/-- A chain goes on from each of its nodes. -/
lemma NodeChain.of_append {l₁ l₂ : List ℕ} (h : NodeChain nodes p (l₁ ++ x :: l₂)) :
    NodeChain nodes x (x :: l₂) := by
  induction l₁ generalizing p with
  | nil =>
    cases h with
    | cons hp hl => exact .cons hp hl
  | cons y l₁ ih =>
    cases h with
    | cons _ hl => exact ih hl

/-- A chain that ends visits no node twice. -/
lemma NodeChain.nodup (h : NodeChain nodes p l) : l.Nodup := by
  induction h with
  | nil => exact List.nodup_nil
  | @cons p l hp hl ih =>
    refine List.nodup_cons.mpr ⟨fun hmem => ?_, ih⟩
    obtain ⟨l₁, l₂, rfl⟩ := List.append_of_mem hmem
    have hlen := congrArg List.length ((NodeChain.cons hp hl).unique hl.of_append)
    simp at hlen
    omega

/-- A chain depends on the pointers of its own nodes. -/
lemma NodeChain.congr (h : NodeChain nodes p l)
    (hsame : ∀ x ∈ l, (nodes' x).next = (nodes x).next) :
    NodeChain nodes' p l := by
  induction h with
  | nil => exact .nil
  | cons hp _ ih =>
    refine .cons hp ?_
    rw [hsame _ List.mem_cons_self]
    exact ih fun x hx => hsame x (List.mem_cons_of_mem _ hx)

/-- The end of a chain is redirected to another one. -/
lemma NodeChain.extend {q : ℕ} {l₂ : List ℕ} (h : NodeChain nodes p (l ++ [x]))
    (hsame : ∀ y ∈ l, (nodes' y).next = (nodes y).next) (hx : (nodes' x).next = q)
    (hq : NodeChain nodes' q l₂) : NodeChain nodes' p (l ++ x :: l₂) := by
  induction l generalizing p with
  | nil =>
    cases h with
    | cons hp _ => exact .cons hp (hx ▸ hq)
  | cons y l ih =>
    cases h with
    | cons hp hl =>
      refine .cons hp ?_
      rw [hsame _ List.mem_cons_self]
      exact ih hl fun y hy => hsame y (List.mem_cons_of_mem _ hy)

/-- A chain through a node whose pointer is known goes on where it points. -/
lemma NodeChain.split_at {q : ℕ} {l₂ : List ℕ} (h : NodeChain nodes p (l ++ [x]))
    (hsame : ∀ y ∈ l, (nodes' y).next = (nodes y).next) (hx : (nodes' x).next = q)
    (h' : NodeChain nodes' p l₂) : ∃ l₃, l₂ = l ++ x :: l₃ ∧ NodeChain nodes' q l₃ := by
  induction l generalizing p l₂ with
  | nil =>
    cases h with
    | cons hp _ =>
      cases h' with
      | nil => exact absurd rfl hp
      | cons _ hl' => exact ⟨_, rfl, hx ▸ hl'⟩
  | cons y l ih =>
    cases h with
    | cons hp hl =>
      cases h' with
      | nil => exact absurd rfl hp
      | cons _ hl' =>
        rw [hsame _ List.mem_cons_self] at hl'
        obtain ⟨l₃, rfl, hl₃⟩ := ih hl (fun y hy => hsame y (List.mem_cons_of_mem _ hy)) hl'
        exact ⟨l₃, rfl, hl₃⟩

/-- Reading a chain off the memory. -/
lemma chainFrom_eq_some {fuel : ℕ} {ps : List Partition} :
    DiskDev.chainFrom nodes fuel p = some ps ↔
      ∃ l, NodeChain nodes p l ∧ l.length < fuel ∧ ps = l.map fun x => (nodes x).part := by
  induction fuel generalizing p ps with
  | zero => simp [DiskDev.chainFrom]
  | succ fuel ih =>
    rw [DiskDev.chainFrom]
    split_ifs with hp
    · subst hp
      constructor
      · rintro ⟨⟩
        exact ⟨[], .nil, by simp, rfl⟩
      · rintro ⟨l, hl, -, rfl⟩
        cases hl with
        | nil => rfl
        | cons hp _ => exact absurd rfl hp
    · simp only [Option.map_eq_some_iff, ih]
      constructor
      · rintro ⟨-, ⟨l, hl, hlen, rfl⟩, rfl⟩
        exact ⟨p :: l, .cons hp hl, by simpa using hlen, rfl⟩
      · rintro ⟨l, hl, hlen, rfl⟩
        cases hl with
        | nil => exact absurd rfl hp
        | cons _ hl => exact ⟨_, ⟨_, hl, by simpa using hlen, rfl⟩, rfl⟩

/-- The walk ends at the last node of the chain. -/
lemma lastNode_eq_some {fuel : ℕ} (hp : p ≠ 0) :
    DiskDev.lastNode nodes fuel p = some x ↔
      ∃ l, NodeChain nodes p (l ++ [x]) ∧ l.length < fuel := by
  induction fuel generalizing p with
  | zero => simp [DiskDev.lastNode]
  | succ fuel ih =>
    rw [DiskDev.lastNode]
    split_ifs with hnext
    · rw [ih hnext]
      constructor
      · rintro ⟨l, hl, hlen⟩
        exact ⟨p :: l, .cons hp hl, by simpa using hlen⟩
      · rintro ⟨l, hl, hlen⟩
        cases l with
        | nil =>
          cases hl with
          | cons _ hl => exact absurd hl.eq_zero hnext
        | cons y l =>
          cases hl with
          | cons _ hl => exact ⟨l, hl, by simpa using hlen⟩
    · rw [not_not] at hnext
      constructor
      · rintro ⟨⟩
        exact ⟨[], .cons hp (hnext ▸ .nil), by simp⟩
      · rintro ⟨l, hl, -⟩
        have hone : NodeChain nodes p [p] := .cons hp (hnext ▸ .nil)
        have heq := hl.unique hone
        cases l with
        | nil => simpa using heq.symm
        | cons y l => simp at heq

end NodeChain

/-! ## Registering -/

namespace DiskDev

variable {d d' : DiskDev} {f : Partition → Partition} {fs : List (Partition → Partition)}

/-- The chain of the device. -/
def Chain (d : DiskDev) (l : List ℕ) : Prop := NodeChain d.nodes d.partitions l

/-- Filling in fields leaves all pointers alone. -/
lemma next_setPart (d : DiskDev) (a : ℕ) (f : Partition → Partition) (x : ℕ) :
    ((d.setPart a f).nodes x).next = (d.nodes x).next := by
  by_cases hx : x = a
  · subst hx
    simp [setPart]
  · simp [setPart, hx]

lemma partitionList_eq_some {ps : List Partition} : d.partitionList = some ps ↔
    ∃ l, d.Chain l ∧ l.length < word ∧ ps = l.map fun x => (d.nodes x).part := chainFrom_eq_some

/-- Registering a node on a chain that ends: its last pointer, or the head of the chain, becomes
the new node. -/
lemma partitionRegister_of_chain {l : List ℕ} {a : ℕ} (ha : a ≠ 0)
    (hdisk : (d.nodes a).part.disk ≠ 0) (hl : d.Chain l) (hlen : l.length < word) (hal : a ∉ l)
    (hnext : (d.nodes a).next = 0) :
    ∃ d', d.partitionRegister a = some d' ∧ d'.Chain (l ++ [a]) ∧
      d'.registered = d.registered ++ [(d.nodes a).part] ∧ d'.alloc = d.alloc ∧
      d'.mallocs = d.mallocs ∧ d'.addr = d.addr ∧ (∀ x, (d'.nodes x).part = (d.nodes x).part) ∧
      (∀ x, x ∉ l → d'.nodes x = d.nodes x) := by
  rw [partitionRegister, if_neg (by simp [ha, hdisk])]
  dsimp only
  by_cases hhead : d.partitions = 0
  · rw [if_pos hhead]
    have hnil : l = [] := hl.unique (hhead ▸ .nil)
    subst hnil
    refine ⟨_, rfl, ?_, rfl, rfl, rfl, rfl, fun _ => rfl, fun _ _ => rfl⟩
    exact .cons ha (hnext ▸ .nil)
  · rw [if_neg hhead]
    obtain ⟨l₁, x, rfl⟩ : ∃ l₁ x, l = l₁ ++ [x] := by
      rcases List.eq_nil_or_concat l with rfl | ⟨l₁, x, rfl⟩
      · exact absurd hl.eq_zero hhead
      · exact ⟨l₁, x, List.concat_eq_append⟩
    have hlast : lastNode d.nodes word d.partitions = some x :=
      (lastNode_eq_some hhead).mpr ⟨l₁, hl, by rw [List.length_append] at hlen; omega⟩
    have hnodup := hl.nodup
    rw [hlast]
    refine ⟨_, rfl, ?_, rfl, rfl, rfl, rfl, fun y => ?_, fun y hy => ?_⟩
    · show NodeChain _ d.partitions (l₁ ++ [x] ++ [a])
      rw [List.append_assoc]
      have hxa : a ≠ x := fun h => hal (by simp [h])
      refine NodeChain.extend hl (fun y hy => ?_) (by simp) (.cons ha ?_)
      · have hyx : y ≠ x := fun h => by
          subst h
          exact (List.nodup_append.mp hnodup).2.2 y hy y (by simp) rfl
        simp [hyx]
      · simp only [Function.update_of_ne hxa, hnext]
        exact .nil
    · by_cases hyx : y = x
      · subst hyx
        simp
      · simp [hyx]
    · have hyx : y ≠ x := fun h => hy (by simp [h])
      simp [hyx]

/-- The pointer behind the chain `l`: the last node's, or the device's own. -/
def endPointer (d : DiskDev) (l : List ℕ) : ℕ :=
  match l.getLast? with
  | none => d.partitions
  | some x => (d.nodes x).next

/-- Registering a node ends if the chain does, and links the node behind it. -/
lemma exists_partitionRegister {l : List ℕ} {a : ℕ} (ha : a ≠ 0) (hdisk : (d.nodes a).part.disk ≠ 0)
    (hl : d.Chain l) (hlen : l.length < word) :
    ∃ d', d.partitionRegister a = some d' ∧ d'.registered = d.registered ++ [(d.nodes a).part] ∧
      d'.mallocs = d.mallocs ∧ d'.endPointer l = a ∧
      ∀ x, (d'.nodes x).part = (d.nodes x).part := by
  rw [partitionRegister, if_neg (by simp [ha, hdisk])]
  dsimp only
  by_cases hhead : d.partitions = 0
  · rw [if_pos hhead]
    have hnil : l = [] := hl.unique (hhead ▸ .nil)
    subst hnil
    exact ⟨_, rfl, rfl, rfl, rfl, fun _ => rfl⟩
  · rw [if_neg hhead]
    rcases List.eq_nil_or_concat l with rfl | ⟨l₁, x, rfl⟩
    · exact absurd hl.eq_zero hhead
    · rw [List.concat_eq_append] at hl hlen ⊢
      have hlast : lastNode d.nodes word d.partitions = some x :=
        (lastNode_eq_some hhead).mpr ⟨l₁, hl, by rw [List.length_append] at hlen; omega⟩
      rw [hlast]
      refine ⟨_, rfl, rfl, rfl, ?_, fun y => ?_⟩
      · rw [endPointer, List.getLast?_concat]
        dsimp only
        rw [Function.update_self]
      · by_cases hyx : y = x
        · subst hyx
          simp
        · simp [hyx]

/-- With a null pointer of its own the node makes the list one longer. -/
lemma partitionList_partitionRegister {l : List ℕ} {a : ℕ} (ha : a ≠ 0)
    (hdisk : (d.nodes a).part.disk ≠ 0) (hl : d.Chain l) (hlen : l.length + 1 < word) (hal : a ∉ l)
    (hnext : (d.nodes a).next = 0) (hd : d.partitionRegister a = some d') :
    ∃ old, d.partitionList = some old ∧
      d'.partitionList = some (old ++ [(d.nodes a).part]) := by
  obtain ⟨d₁, hd₁, hl', -, -, -, -, hparts, -⟩ :=
    partitionRegister_of_chain ha hdisk hl (by omega) hal hnext
  obtain rfl : d' = d₁ := Option.some.inj (hd.symm.trans hd₁)
  refine ⟨_, partitionList_eq_some.mpr ⟨l, hl, by omega, rfl⟩, ?_⟩
  refine partitionList_eq_some.mpr ⟨_, hl', by simpa using hlen, ?_⟩
  rw [List.map_append, List.map_singleton, hparts a]
  exact congrArg (· ++ _) (List.map_congr_left fun x _ => (hparts x).symm)

/-- **Every node makes the chain longer**, and one whose own pointer is not null by two at least. -/
lemma chain_of_partitionRegister {l' : List ℕ} {a : ℕ} (ha : a ≠ 0)
    (hdisk : (d.nodes a).part.disk ≠ 0) (hd : d.partitionRegister a = some d') (hl' : d'.Chain l') :
    ∃ l, d.Chain l ∧ l.length + 1 ≤ l'.length ∧
      ((d.nodes a).next ≠ 0 → l.length + 2 ≤ l'.length) := by
  rw [partitionRegister, if_neg (by simp [ha, hdisk])] at hd
  dsimp only at hd
  -- the chain from the new node on
  have hfrom : ∀ {nodes : ℕ → PartitionNode} {l₃ : List ℕ}, NodeChain nodes a l₃ →
      1 ≤ l₃.length ∧ ((nodes a).next ≠ 0 → 2 ≤ l₃.length) := by
    intro nodes l₃ hl₃
    cases hl₃ with
    | nil => exact absurd rfl ha
    | @cons _ l₃ _ hl₃ =>
      refine ⟨by simp, fun hne => ?_⟩
      cases l₃ with
      | nil => exact absurd hl₃.eq_zero hne
      | cons y l₃ => simp
  by_cases hhead : d.partitions = 0
  · rw [if_pos hhead] at hd
    cases hd
    obtain ⟨h1, h2⟩ := hfrom hl'
    refine ⟨[], ?_, by simpa using h1, fun hne => by simpa using h2 hne⟩
    rw [Chain, hhead]
    exact .nil
  · rw [if_neg hhead] at hd
    obtain ⟨x, hx, rfl⟩ := Option.map_eq_some_iff.mp hd
    obtain ⟨l, hl, -⟩ := (lastNode_eq_some hhead).mp hx
    have hnodup := hl.nodup
    have hsame : ∀ y ∈ l, (Function.update d.nodes x { d.nodes x with next := a } y).next =
        (d.nodes y).next := by
      intro y hy
      have hyx : y ≠ x := fun h => by
        subst h
        exact (List.nodup_append.mp hnodup).2.2 y hy y (by simp) rfl
      simp [hyx]
    have hend : (Function.update d.nodes x { d.nodes x with next := a } x).next = a := by
      rw [Function.update_self]
    obtain ⟨l₃, rfl, hl₃⟩ := hl.split_at hsame hend hl'
    obtain ⟨h1, h2⟩ := hfrom hl₃
    refine ⟨l ++ [x], hl, ?_, fun hne => ?_⟩
    · simp only [List.length_append, List.length_cons, List.length_nil]
      omega
    · have hne' : (Function.update d.nodes x { d.nodes x with next := a } a).next ≠ 0 := by
        by_cases hax : a = x
        · subst hax
          simpa using ha
        · simpa [hax] using hne
      have := h2 hne'
      simp only [List.length_append, List.length_cons, List.length_nil]
      omega

/-- The addresses that the next `n` calls of `malloc` return. -/
def nextAllocs (d : DiskDev) (n : ℕ) : List ℕ := (List.range' d.mallocs n).map d.alloc

/-- What the fields of the nodes at `as` become. -/
def fillWith (nodes : ℕ → PartitionNode) : List (Partition → Partition) → List ℕ → List Partition
  | f :: fs, a :: as => f (nodes a).part :: fillWith nodes fs as
  | _, _ => []

/-- What the fields of the next nodes become. -/
def filled (d : DiskDev) (fs : List (Partition → Partition)) : List Partition :=
  fillWith d.nodes fs (d.nextAllocs fs.length)

lemma fillWith_congr {nodes nodes' : ℕ → PartitionNode} {as : List ℕ}
    (h : ∀ a ∈ as, nodes' a = nodes a) (fs : List (Partition → Partition)) :
    fillWith nodes' fs as = fillWith nodes fs as := by
  induction as generalizing fs with
  | nil => cases fs <;> rfl
  | cons a as ih =>
    cases fs with
    | nil => rfl
    | cons f fs =>
      rw [fillWith, fillWith, h a List.mem_cons_self, ih fun x hx =>
        h x (List.mem_cons_of_mem _ hx)]

lemma nextAllocs_succ (d : DiskDev) (n : ℕ) :
    d.nextAllocs (n + 1) = d.alloc d.mallocs :: d.mallocNode.2.nextAllocs n := rfl

/-- `malloc` succeeds `n` times, with distinct nodes that are not in use. -/
structure Fresh (d : DiskDev) (l : List ℕ) (n : ℕ) : Prop where
  ne_zero : ∀ a ∈ d.nextAllocs n, a ≠ 0
  nodup : (l ++ d.nextAllocs n).Nodup

/-- The fields that are filled in include the device. -/
def SetsDisk (fs : List (Partition → Partition)) : Prop := ∀ f ∈ fs, ∀ p, (f p).disk ≠ 0

lemma Fresh.head {l : List ℕ} {n : ℕ} (h : d.Fresh l (n + 1)) :
    d.alloc d.mallocs ≠ 0 ∧ d.alloc d.mallocs ∉ l := by
  refine ⟨h.ne_zero _ (by rw [nextAllocs_succ]; exact List.mem_cons_self), fun hmem => ?_⟩
  have hnodup := h.nodup
  rw [nextAllocs_succ] at hnodup
  exact (List.nodup_append.mp hnodup).2.2 _ hmem _ List.mem_cons_self rfl

/-- The first of several nodes is appended, if its pointer is null. -/
lemma addPartition_of_chain {l : List ℕ} {n : ℕ} (hl : d.Chain l) (hlen : l.length < word)
    (hfresh : d.Fresh l (n + 1)) (hdisk : ∀ p, (f p).disk ≠ 0)
    (hnext : (d.nodes (d.alloc d.mallocs)).next = 0) :
    ∃ d', d.addPartition f = some d' ∧ d'.Chain (l ++ [d.alloc d.mallocs]) ∧
      d'.Fresh (l ++ [d.alloc d.mallocs]) n ∧
      d'.registered = d.registered ++ [f (d.nodes (d.alloc d.mallocs)).part] ∧ d'.addr = d.addr ∧
      d'.nextAllocs n = d.mallocNode.2.nextAllocs n ∧
      (d'.nodes (d.alloc d.mallocs)).part = f (d.nodes (d.alloc d.mallocs)).part ∧
      (∀ x, x ≠ d.alloc d.mallocs → (d'.nodes x).part = (d.nodes x).part) ∧
      ∀ x, x ∉ l → x ≠ d.alloc d.mallocs → d'.nodes x = d.nodes x := by
  obtain ⟨ha, hal⟩ := hfresh.head
  set a := d.alloc d.mallocs with hadef
  have hself : ((d.mallocNode.2.setPart a f).nodes a).part = f (d.nodes a).part := by
    simp [setPart, mallocNode]
  have hother : ∀ x, x ≠ a → (d.mallocNode.2.setPart a f).nodes x = d.nodes x := fun x hx => by
    simp [setPart, mallocNode, hx]
  have hchain : (d.mallocNode.2.setPart a f).Chain l := hl.congr fun x _ => next_setPart _ _ _ _
  obtain ⟨d', hd', hl', hreg, halloc, hmallocs, haddr, hparts, hsame⟩ :=
    partitionRegister_of_chain ha
    (by rw [hself]; exact hdisk _) hchain hlen hal ((next_setPart _ _ _ _).trans hnext)
  have hallocs : d'.nextAllocs n = d.mallocNode.2.nextAllocs n := by
    rw [nextAllocs, hmallocs, halloc]
    rfl
  refine ⟨d', hd', hl', ⟨?_, ?_⟩, ?_, haddr, hallocs, ?_, fun x hx => ?_, fun x hxl hxa => ?_⟩
  · rw [hallocs]
    exact fun x hx => hfresh.ne_zero x (by rw [nextAllocs_succ]; exact List.mem_cons_of_mem _ hx)
  · rw [hallocs, List.append_assoc, List.singleton_append, ← nextAllocs_succ]
    exact hfresh.nodup
  · rw [hreg, hself]
    rfl
  · rw [hparts, hself]
  · rw [hparts, hother x hx]
  · rw [hsame x hxl, hother x hxa]

/-- **A clean chain.**  If the nodes that `malloc` returns happen to have null pointers, then the
entries are appended one after the other. -/
lemma registerAll_list {l : List ℕ} (hl : d.Chain l) (hlen : l.length + fs.length < word)
    (hfresh : d.Fresh l fs.length) (hdisk : SetsDisk fs)
    (hnext : ∀ a ∈ d.nextAllocs fs.length, (d.nodes a).next = 0) :
    ∃ d', d.registerAll fs = some d' ∧ d'.Chain (l ++ d.nextAllocs fs.length) ∧
      (l ++ d.nextAllocs fs.length).map (fun x => (d'.nodes x).part) =
        l.map (fun x => (d.nodes x).part) ++ d.filled fs ∧
      d'.registered = d.registered ++ d.filled fs ∧ d'.addr = d.addr := by
  induction fs generalizing d l with
  | nil =>
    refine ⟨d, rfl, ?_, ?_, ?_, rfl⟩
    · simpa [nextAllocs] using hl
    · simp [nextAllocs, filled, fillWith]
    · simp [filled, fillWith]
  | cons f fs ih =>
    rw [List.length_cons] at hlen hfresh hnext ⊢
    obtain ⟨ha, hal⟩ := hfresh.head
    obtain ⟨d₁, hd₁, hl₁, hfresh₁, hreg₁, haddr₁, hallocs₁, hself₁, hother₁, hsame₁⟩ :=
      addPartition_of_chain hl (by omega) hfresh (hdisk f List.mem_cons_self)
        (hnext _ (by rw [nextAllocs_succ]; exact List.mem_cons_self))
    have hrest : ∀ x ∈ d.mallocNode.2.nextAllocs fs.length, d₁.nodes x = d.nodes x := by
      intro x hx
      have hnodup := hfresh.nodup
      rw [nextAllocs_succ] at hnodup
      refine hsame₁ x (fun hxl => ?_) (fun hxa => ?_)
      · exact (List.nodup_append.mp hnodup).2.2 x hxl x (List.mem_cons_of_mem _ hx) rfl
      · exact (List.nodup_cons.mp (List.nodup_append.mp hnodup).2.1).1 (hxa ▸ hx)
    have hlen₁ : (l ++ [d.alloc d.mallocs]).length + fs.length < word := by
      rw [List.length_append, List.length_singleton]
      omega
    obtain ⟨d₂, hd₂, hl₂, hmap₂, hreg₂, haddr₂⟩ := ih hl₁ hlen₁ hfresh₁
      (fun g hg => hdisk g (List.mem_cons_of_mem _ hg))
      (fun x hx => by
        rw [hallocs₁] at hx
        rw [hrest x hx]
        exact hnext x (by rw [nextAllocs_succ]; exact List.mem_cons_of_mem _ hx))
    have hfilled : d.filled (f :: fs) = f (d.nodes (d.alloc d.mallocs)).part :: d₁.filled fs := by
      rw [filled, List.length_cons, nextAllocs_succ, fillWith, filled, hallocs₁,
        fillWith_congr hrest]
    refine ⟨d₂, ?_, ?_, ?_, ?_, haddr₂.trans haddr₁⟩
    · rw [registerAll, hd₁]
      exact hd₂
    · rw [nextAllocs_succ, ← hallocs₁, List.append_cons]
      exact hl₂
    · rw [nextAllocs_succ, ← hallocs₁, List.append_cons, hmap₂, hfilled, List.map_append,
        List.map_singleton, hself₁, List.append_assoc]
      congr 1
      exact List.map_congr_left fun x hx => hother₁ x fun h => hal (h ▸ hx)
    · rw [hreg₂, hreg₁, hfilled, List.append_assoc]
      rfl

/-- Adding a partition takes one node. -/
lemma nextAllocs_of_addPartition (hd : d.addPartition f = some d') (n : ℕ) :
    d'.nextAllocs n = d.mallocNode.2.nextAllocs n := by
  rw [addPartition, partitionRegister] at hd
  dsimp only at hd
  split_ifs at hd
  · cases hd
    rfl
  · cases hd
    rfl
  · obtain ⟨x, -, rfl⟩ := Option.map_eq_some_iff.mp hd
    rfl

/-- Every entry makes the chain longer. -/
lemma chain_of_registerAll {l' : List ℕ} (hne : ∀ a ∈ d.nextAllocs fs.length, a ≠ 0)
    (hdisk : SetsDisk fs) (hd : d.registerAll fs = some d') (hl' : d'.Chain l') :
    ∃ l, d.Chain l ∧ l.length + fs.length ≤ l'.length := by
  induction fs generalizing d with
  | nil =>
    cases hd
    exact ⟨l', hl', le_rfl⟩
  | cons f fs ih =>
    obtain ⟨d₁, hd₁, hrest⟩ := Option.bind_eq_some_iff.mp hd
    have hnew : d.alloc d.mallocs ≠ 0 := hne _ List.mem_cons_self
    have hdisk₁ : (((d.mallocNode.2.setPart (d.alloc d.mallocs) f).nodes
        (d.alloc d.mallocs)).part).disk ≠ 0 := by
      simpa [setPart, mallocNode] using hdisk f List.mem_cons_self _
    have hallocs := nextAllocs_of_addPartition hd₁ fs.length
    obtain ⟨l₁, hl₁, hle₁⟩ := ih
      (fun a ha => hne a (by rw [hallocs] at ha; exact List.mem_cons_of_mem _ ha))
      (fun g hg => hdisk g (List.mem_cons_of_mem _ hg)) hrest
    obtain ⟨l, hl, hle, -⟩ := chain_of_partitionRegister hnew hdisk₁ hd₁ hl₁
    refine ⟨l, hl.congr fun x _ => (next_setPart _ _ _ _).symm, ?_⟩
    rw [List.length_cons]
    omega

/-- **Only a clean chain comes out right.**  If the chain has no more nodes than entries, then all
the nodes that `malloc` returned had null pointers. -/
lemma next_eq_zero_of_registerAll {l l' : List ℕ} (hl : d.Chain l)
    (hlen : l.length + fs.length < word) (hfresh : d.Fresh l fs.length) (hdisk : SetsDisk fs)
    (hd : d.registerAll fs = some d') (hl' : d'.Chain l')
    (hl'len : l'.length ≤ l.length + fs.length) :
    ∀ a ∈ d.nextAllocs fs.length, (d.nodes a).next = 0 := by
  induction fs generalizing d l with
  | nil => exact fun a ha => absurd ha List.not_mem_nil
  | cons f fs ih =>
    rw [List.length_cons] at hlen hfresh hl'len
    obtain ⟨d₁, hd₁, hrest⟩ := Option.bind_eq_some_iff.mp hd
    obtain ⟨hnew, hal⟩ := hfresh.head
    have hdiskfs : SetsDisk fs := fun g hg => hdisk g (List.mem_cons_of_mem _ hg)
    have hdisk₁ : (((d.mallocNode.2.setPart (d.alloc d.mallocs) f).nodes
        (d.alloc d.mallocs)).part).disk ≠ 0 := by
      simpa [setPart, mallocNode] using hdisk f List.mem_cons_self _
    have hchain : (d.mallocNode.2.setPart (d.alloc d.mallocs) f).Chain l :=
      hl.congr fun x _ => next_setPart _ _ _ _
    -- the first node: a pointer that is not null would make the chain too long
    have hfirst : (d.nodes (d.alloc d.mallocs)).next = 0 := by
      by_contra hnext
      have hallocs := nextAllocs_of_addPartition hd₁ fs.length
      obtain ⟨l₁, hl₁, hle₁⟩ := chain_of_registerAll
        (fun a ha => hfresh.ne_zero a (by rw [hallocs] at ha; exact List.mem_cons_of_mem _ ha))
        hdiskfs hrest hl'
      obtain ⟨l₀, hl₀, -, hle₀⟩ := chain_of_partitionRegister hnew hdisk₁ hd₁ hl₁
      have hsame := hl₀.unique hchain
      subst hsame
      have := hle₀ (by rw [next_setPart]; exact hnext)
      omega
    obtain ⟨d₂, hd₂, hl₂, hfresh₂, -, -, hallocs₂, -, -, hsame₂⟩ :=
      addPartition_of_chain hl (by omega) hfresh (hdisk f List.mem_cons_self) hfirst
    obtain rfl : d₁ = d₂ := Option.some.inj (hd₁.symm.trans hd₂)
    intro a ha
    rcases List.mem_cons.mp ha with rfl | ha
    · exact hfirst
    · have hnodup := hfresh.nodup
      rw [nextAllocs_succ] at hnodup
      have hnodes : d₁.nodes a = d.nodes a := by
        refine hsame₂ a (fun hal => ?_) (fun haa => ?_)
        · exact (List.nodup_append.mp hnodup).2.2 a hal a (List.mem_cons_of_mem _ ha) rfl
        · exact (List.nodup_cons.mp (List.nodup_append.mp hnodup).2.1).1 (haa ▸ ha)
      rw [← hnodes]
      refine ih hl₂ ?_ hfresh₂ hdiskfs hrest ?_ a (by rw [hallocs₂]; exact ha)
      · rw [List.length_append, List.length_singleton]
        omega
      · rw [List.length_append, List.length_singleton]
        omega

end DiskDev

end Cuore
