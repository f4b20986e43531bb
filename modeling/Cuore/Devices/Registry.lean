import Cuore.Framework.BinarySearch
import Mathlib.Algebra.Order.Group.Nat
import Mathlib.Data.List.Forall2
import Mathlib.Data.List.Range
import Mathlib.Logic.Function.Basic

/-!
# The device registry (`devices/registry.c`)

An array of the devices with their ids.  `device_register` hands out the next id and inserts the
device where its id belongs, `device_find` looks an id up by bisection, and `device_find_first`
takes the first device of a type.

`Registered r l` says that the registry `r` holds the devices `l`, which were registered in this
order.  The ids then are the positions in `l`, counted from one, and the array is sorted.
-/

namespace Cuore

/-! ## The registry -/

/-- `device_type_t`. -/
inductive DeviceType
  | charDev | diskDev | usbDev | netDev | audioDev | powerDev | extmemDev | usbBusDev
  deriving DecidableEq, Repr

/-- `device_registry_entry_t`. -/
structure RegistryEntry where
  id : ℕ
  type : DeviceType
  devPtr : ℕ
  deriving DecidableEq, Repr

/-- `registry`, `registry_count` and `next_device_id`. -/
structure DeviceRegistry where
  entries : ℕ → RegistryEntry
  count : ℕ
  nextDeviceId : ℕ

/-- The number of entries that there is room for. -/
def registryMax : ℕ := 512

namespace DeviceRegistry

/-- The registry at boot. -/
def init : DeviceRegistry := ⟨fun _ => ⟨0, .charDev, 0⟩, 0, 1⟩

/-- `device_find`; 0 is `NULL`. -/
def deviceFind (r : DeviceRegistry) (id : ℕ) : ℕ :=
  match bisect (fun i => (r.entries i).id) id (r.count + 1) 0 ((r.count : ℤ) - 1) with
  | some mid => (r.entries mid).devPtr
  | none => 0

/-- The loop of `device_find_first`, from index `i` on. -/
def findFirstLoop (r : DeviceRegistry) (type : DeviceType) : ℕ → ℕ → ℕ
  | 0, _ => 0
  | fuel + 1, i =>
    if i < r.count then
      if (r.entries i).type = type then (r.entries i).devPtr else findFirstLoop r type fuel (i + 1)
    else 0

/-- `device_find_first`; 0 is `NULL`. -/
def deviceFindFirst (r : DeviceRegistry) (type : DeviceType) : ℕ :=
  r.findFirstLoop type (r.count + 1) 0

/-- The loop of `device_register`: the entries with a greater id move up.  The result is where the
new entry goes. -/
def insertLoop (id : ℕ) : (ℕ → RegistryEntry) → ℕ → (ℕ → RegistryEntry) × ℕ
  | entries, 0 => (entries, 0)
  | entries, i + 1 =>
    if (entries i).id > id then insertLoop id (Function.update entries (i + 1) (entries i)) i
    else (entries, i + 1)

/-- `device_register`, with the id.  The panic is `none`. -/
def deviceRegister (r : DeviceRegistry) (type : DeviceType) (devPtr : ℕ) :
    Option (ℕ × DeviceRegistry) :=
  let id := r.nextDeviceId
  if r.count ≥ registryMax then none
  else
    let p := insertLoop id r.entries r.count
    some (id, ⟨Function.update p.1 p.2 ⟨id, type, devPtr⟩, r.count + 1, (id + 1) % 2 ^ 32⟩)

/-- Devices are registered one after the other, with their types; the list is of their ids. -/
def registerAll (r : DeviceRegistry) : List (DeviceType × ℕ) → Option (List ℕ × DeviceRegistry)
  | [] => some ([], r)
  | d :: ds => do
    let (id, r) ← r.deviceRegister d.1 d.2
    let (ids, r) ← r.registerAll ds
    some (id :: ids, r)

end DeviceRegistry

open DeviceRegistry

/-! ## What is registered -/

/-- The registry holds the devices `l`, and the id of each is its position, counted from one. -/
structure Registered (r : DeviceRegistry) (l : List (DeviceType × ℕ)) : Prop where
  count : r.count = l.length
  next : r.nextDeviceId = l.length + 1
  le : l.length ≤ registryMax
  entries : ∀ i (h : i < l.length), r.entries i = ⟨i + 1, l[i].1, l[i].2⟩

section Registered

variable {r : DeviceRegistry} {l : List (DeviceType × ℕ)}

lemma registered_init : Registered init [] := ⟨rfl, rfl, Nat.zero_le _, fun _ h => nomatch h⟩

/-- Nothing moves, since the new id is the greatest one. -/
lemma Registered.insertLoop_eq (h : Registered r l) :
    insertLoop r.nextDeviceId r.entries r.count = (r.entries, r.count) := by
  cases hcount : r.count with
  | zero => rfl
  | succ n =>
    have hn : n < l.length := by
      rw [← h.count]
      omega
    refine if_neg ?_
    rw [h.entries n hn, h.next]
    show ¬n + 1 > l.length + 1
    omega

/-- **A registration** appends a device. -/
lemma Registered.register (h : Registered r l) (hlt : l.length < registryMax) (d : DeviceType × ℕ) :
    ∃ r', r.deviceRegister d.1 d.2 = some (l.length + 1, r') ∧ Registered r' (l ++ [d]) := by
  rw [registryMax] at hlt
  refine ⟨⟨Function.update r.entries r.count ⟨l.length + 1, d.1, d.2⟩, l.length + 1, l.length + 2⟩,
    ?_, ?_⟩
  · rw [deviceRegister, h.insertLoop_eq]
    dsimp only
    rw [if_neg (by rw [h.count, registryMax]; omega), h.next, h.count,
      Nat.mod_eq_of_lt (by omega)]
  · rw [h.count]
    refine ⟨by rw [List.length_append]; rfl, by rw [List.length_append]; rfl,
      by rw [List.length_append, registryMax]; exact hlt, fun i hi => ?_⟩
    rw [List.length_append, List.length_singleton] at hi
    show Function.update r.entries l.length ⟨l.length + 1, d.1, d.2⟩ i = _
    rcases Nat.lt_succ_iff_lt_or_eq.mp hi with hi | rfl
    · rw [Function.update_of_ne hi.ne, h.entries i hi, List.getElem_append_left hi]
    · rw [Function.update_self, List.getElem_append_right le_rfl]
      simp

/-- A full registry panics. -/
lemma Registered.register_full (h : Registered r l) (hfull : l.length = registryMax)
    (d : DeviceType × ℕ) : r.deviceRegister d.1 d.2 = none :=
  if_pos (h.count.trans hfull).ge

/-- Registrations succeed as long as there is room. -/
lemma Registered.registerAll (h : Registered r l) (ds : List (DeviceType × ℕ)) :
    (l.length + ds.length ≤ registryMax → ∃ r', r.registerAll ds =
      some (List.range' (l.length + 1) ds.length, r') ∧ Registered r' (l ++ ds)) ∧
    (registryMax < l.length + ds.length → r.registerAll ds = none) := by
  induction ds generalizing r l with
  | nil =>
    refine ⟨fun _ => ⟨r, rfl, ?_⟩, fun hlt => absurd hlt (not_lt.mpr h.le)⟩
    rw [List.append_nil]
    exact h
  | cons d ds ih =>
    rcases h.le.lt_or_eq with hlt | heq
    · obtain ⟨r', hr', h'⟩ := h.register hlt d
      obtain ⟨hroom, hfull⟩ := ih h'
      rw [List.length_append, List.length_singleton] at hroom hfull
      rw [List.length_cons]
      constructor
      · intro hle
        obtain ⟨r'', hr'', h''⟩ := hroom (by omega)
        refine ⟨r'', ?_, ?_⟩
        · rw [DeviceRegistry.registerAll, hr', Option.bind_eq_bind, Option.bind_some]
          dsimp only
          rw [hr'']
          rfl
        · rw [List.append_assoc, List.singleton_append] at h''
          exact h''
      · intro hlt'
        rw [DeviceRegistry.registerAll, hr', Option.bind_eq_bind, Option.bind_some]
        dsimp only
        rw [hfull (by omega)]
        rfl
    · refine ⟨fun hle => ?_, fun _ => ?_⟩
      · rw [List.length_cons] at hle
        omega
      · rw [DeviceRegistry.registerAll, h.register_full heq]
        rfl

/-- **An id finds its device.** -/
lemma Registered.find (h : Registered r l) {i : ℕ} (hi : i < l.length) :
    r.deviceFind (i + 1) = l[i].2 := by
  have hsorted : ∀ a b, a < b → b < r.count → (r.entries a).id < (r.entries b).id := by
    intro a b hab hb
    rw [h.count] at hb
    rw [h.entries a (hab.trans hb), h.entries b hb]
    show a + 1 < b + 1
    omega
  have hfound := (bisect_eq_some_iff (x := i + 1) (i := i) hsorted (Nat.le_succ _)).mpr
    ⟨h.count ▸ hi, by rw [h.entries i hi]⟩
  rw [deviceFind, hfound]
  show (r.entries i).devPtr = _
  rw [h.entries i hi]

/-- Other ids find nothing. -/
lemma Registered.find_none (h : Registered r l) {id : ℕ} (hid : id = 0 ∨ l.length < id) :
    r.deviceFind id = 0 := by
  rw [deviceFind]
  cases hb : bisect (fun i => (r.entries i).id) id (r.count + 1) 0 ((r.count : ℤ) - 1) with
  | none => rfl
  | some i =>
    obtain ⟨hx, hle⟩ := key_of_bisect hb (Int.le_refl 0)
    rw [h.count] at hle
    have hi : i < l.length := by omega
    have hx' : (r.entries i).id = id := hx
    rw [h.entries i hi] at hx'
    have hx'' : i + 1 = id := hx'
    omega

/-- The first device of a type. -/
lemma Registered.findFirstLoop (h : Registered r l) (type : DeviceType) {fuel i : ℕ}
    (hi : i ≤ l.length) (hfuel : l.length - i < fuel) : r.findFirstLoop type fuel i =
      (((l.drop i).find? fun d => d.1 = type).map Prod.snd).getD 0 := by
  induction fuel generalizing i with
  | zero => omega
  | succ fuel ih =>
    rw [DeviceRegistry.findFirstLoop, h.count]
    by_cases hlt : i < l.length
    · rw [if_pos hlt, h.entries i hlt, List.drop_eq_getElem_cons hlt, List.find?_cons]
      by_cases ht : l[i].1 = type
      · simp [ht]
      · simp only [ht, if_false, decide_false]
        exact ih hlt (by omega)
    · rw [if_neg hlt, List.drop_eq_nil_of_le (by omega)]
      rfl

end Registered

/-- **The registry is a store.**  Devices are registered one after the other as long as there are
not more than 512.  Then each has an id of its own, under which it is found, other ids find nothing,
and the first device of a type is the one that was registered first.  One device more, and the
kernel panics. -/
theorem device_registry_spec (ds : List (DeviceType × ℕ)) :
    (ds.length ≤ registryMax → ∃ ids r, init.registerAll ds = some (ids, r) ∧
      ids.Nodup ∧ List.Forall₂ (fun id d => id ≠ 0 ∧ r.deviceFind id = d.2) ids ds ∧
      (∀ id ∉ ids, r.deviceFind id = 0) ∧
      ∀ type, r.deviceFindFirst type = ((ds.find? fun d => d.1 = type).map Prod.snd).getD 0) ∧
    (registryMax < ds.length → init.registerAll ds = none) := by
  obtain ⟨hroom, hfull⟩ := registered_init.registerAll ds
  rw [List.length_nil, Nat.zero_add] at hroom hfull
  refine ⟨fun hle => ?_, hfull⟩
  obtain ⟨r, hr, h⟩ := hroom hle
  rw [List.nil_append] at h
  refine ⟨_, r, hr, List.nodup_range', List.forall₂_iff_get.mpr ⟨List.length_range', ?_⟩,
    fun id hid => h.find_none ?_, fun type => ?_⟩
  · intro i hi hi'
    have hget : (List.range' (0 + 1) ds.length).get ⟨i, hi⟩ = i + 1 := by
      simp [Nat.add_comm]
    rw [hget]
    exact ⟨i.succ_ne_zero, h.find hi'⟩
  · rw [List.mem_range'_1] at hid
    omega
  · exact h.findFirstLoop type (Nat.zero_le _) (by rw [h.count]; omega)

end Cuore
