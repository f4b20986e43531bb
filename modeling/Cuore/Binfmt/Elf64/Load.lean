import Cuore.Binfmt.Elf64
import Cuore.Mem.Paging.GetPhys

/-!
# The address space while an image is loaded

`Loading` is the invariant of `elf64_parse` on a table whose lower half was empty: the tables
below the lower half are the top table and pages handed out since; what is mapped there lies in
memory handed out since, apart from the tables, and no two addresses share a byte; nothing else
in physical memory has changed.

`Loading.grow` is its one step lemma.  It takes the tree facts of the paging model and a
description of the new mappings: every address is mapped as before, or lies in one new range
mapped to fresh memory.  The bodies of the mapping loops are instances (`mapSmall_spec`,
`mapHuge_spec`).
-/

namespace Cuore

/-! ## The lower half -/

/-- The first address that is not in the lower half. -/
def lowerHalf (levels : ℕ) : ℕ := 2 ^ (11 + levels * 9)

/-- The mapping of an address. -/
def lookup (levels top : ℕ) (m : Memory) (v : ℕ) : Option Mapping := hwWalk m v (levels - 1) top

lemma pageIndex_lt_of_lower {levels v : ℕ} (hlev : levels = 4 ∨ levels = 5)
    (hv : v < lowerHalf levels) : pageIndex v (levels - 1) < 256 := by
  rw [pageIndex_eq]
  rcases hlev with rfl | rfl <;> simp only [lowerHalf] at hv <;> omega

lemma canonical_of_lower {levels v : ℕ} (hlev : levels = 4 ∨ levels = 5)
    (hv : v < lowerHalf levels) : Canonical levels v := by
  refine ⟨lt_trans hv ?_, .inl (Nat.div_eq_of_lt hv)⟩
  rcases hlev with rfl | rfl <;> decide

/-- A leaf maps the addresses of one 4 KiB page side by side. -/
lemma hwWalk_same_page {m : Memory} {l t v w : ℕ} (hw : pageSize ∣ w)
    (hvw : v / pageSize = w / pageSize) :
    hwWalk m v l t = (hwWalk m w l t).map fun a => ⟨a.phys + v % pageSize, a.rights⟩ := by
  have hleaf : ∀ e k, leafMapping e k v =
      ⟨(leafMapping e k w).phys + v % pageSize, (leafMapping e k w).rights⟩ := by
    intro e k
    have hmod : v % 2 ^ (12 + k * 9) = w % 2 ^ (12 + k * 9) + v % pageSize := by
      obtain ⟨q, rfl⟩ := hw
      have hv := Nat.div_add_mod v pageSize
      rw [hvw, Nat.mul_div_cancel_left q (by decide)] at hv
      rw [← hv, Nat.mul_add_mod, Nat.mod_mod, Nat.pow_add, show pageSize = 2 ^ 12 from rfl,
        Nat.mod_mul, Nat.mul_mod_mul_left]
      have hlt : v % 2 ^ 12 < 2 ^ 12 := Nat.mod_lt _ (by decide)
      rw [Nat.mul_add_mod, Nat.mod_mod, Nat.mul_add_div (by decide), Nat.div_eq_of_lt hlt,
        Nat.add_zero]
      ring
    rw [leafMapping, hmod, ← Nat.add_assoc]
    rfl
  have hidx : ∀ k, pageIndex v k = pageIndex w k := fun k =>
    pageIndex_eq_of_page_eq (n := 0) (Nat.zero_le k) hvw
  induction l generalizing t with
  | zero =>
    rw [hwWalk, hwWalk]
    simp only [hidx]
    split_ifs with h0
    · rw [hleaf]
      rfl
    · rfl
  | succ l ih =>
    rw [hwWalk, hwWalk]
    simp only [hidx]
    split_ifs with h0 h7 hl
    · rw [hleaf]
      rfl
    · rfl
    · exact ih
    · rfl

/-- The bytes of a page are mapped side by side. -/
lemma lookup_same_page {levels top : ℕ} {m : Memory} {v w : ℕ} (hw : pageSize ∣ w)
    (hvw : v / pageSize = w / pageSize) :
    lookup levels top m v =
      (lookup levels top m w).map fun a => ⟨a.phys + v % pageSize, a.rights⟩ :=
  hwWalk_same_page hw hvw

lemma lookup_page_add {levels top : ℕ} {m : Memory} {w d : ℕ} (hw : pageSize ∣ w)
    (hd : d < pageSize) :
    lookup levels top m (w + d) = (lookup levels top m w).map fun a => ⟨a.phys + d, a.rights⟩ := by
  obtain ⟨q, rfl⟩ := hw
  have hpos : 0 < pageSize := by decide
  have hpage : (pageSize * q + d) / pageSize = pageSize * q / pageSize := by
    rw [Nat.mul_add_div hpos, Nat.div_eq_of_lt hd, Nat.add_zero,
      Nat.mul_div_cancel_left q hpos]
  rw [lookup_same_page (dvd_mul_right _ _) hpage, Nat.mul_add_mod, Nat.mod_eq_of_lt hd]

/-! ## Memory handed out -/

/-- The pages of the 2 MiB blocks handed out by the calls from `a` up to `b`. -/
def handedOut2mb (pages2mb : ℕ → ℕ) (a b : ℕ) : Set ℕ :=
  {x | ∃ k, a ≤ k ∧ k < b ∧ pages2mb k ≠ 0 ∧ pages2mb k ≤ x ∧ x < pages2mb k + pageSize2mb}

/-- The pages handed out between two states. -/
def given (pages pages2mb : ℕ → ℕ) (s s' : PhysState) : Set ℕ :=
  handedOut pages s.calls s'.calls ∪ handedOut2mb pages2mb s.calls2mb s'.calls2mb

/-- The page allocator hands out memory that is not in use, and none twice. -/
structure FreshMemory (pages pages2mb : ℕ → ℕ) (inUse : Set ℕ) (s : PhysState) : Prop where
  page : ∀ k, s.calls ≤ k → pages k ≠ 0 → pageSize ∣ pages k ∧ pages k < physLimit
  block : ∀ k, s.calls2mb ≤ k → pages2mb k ≠ 0 →
    pageSize2mb ∣ pages2mb k ∧ pages2mb k < physLimit
  unused : ∀ k, s.calls ≤ k → pages k ≠ 0 → pages k ∉ inUse
  unused2mb : ∀ k, s.calls2mb ≤ k → pages2mb k ≠ 0 →
    ∀ x, pages2mb k ≤ x → x < pages2mb k + pageSize2mb → x ∉ inUse
  distinct : ∀ j k, s.calls ≤ j → s.calls ≤ k → pages j ≠ 0 → pages j = pages k → j = k
  distinct2mb : ∀ j k, s.calls2mb ≤ j → s.calls2mb ≤ k → pages2mb j ≠ 0 →
    pages2mb j = pages2mb k → j = k
  apart : ∀ j k, s.calls ≤ j → s.calls2mb ≤ k → pages j ≠ 0 → pages2mb k ≠ 0 →
    pages j < pages2mb k ∨ pages2mb k + pageSize2mb ≤ pages j

section Given

variable {pages pages2mb : ℕ → ℕ} {inUse : Set ℕ} {s₀ s s' : PhysState}

lemma given_mono {t t' : PhysState} (h1 : s.calls ≤ t.calls) (h2 : t'.calls ≤ s'.calls)
    (h3 : s.calls2mb ≤ t.calls2mb) (h4 : t'.calls2mb ≤ s'.calls2mb) :
    given pages pages2mb t t' ⊆ given pages pages2mb s s' := by
  rintro x (⟨k, hk, hk', hx⟩ | ⟨k, hk, hk', hx⟩)
  · exact .inl ⟨k, by omega, by omega, hx⟩
  · exact .inr ⟨k, by omega, by omega, hx⟩

/-- What is handed out later was not handed out before. -/
lemma FreshMemory.given_disjoint (hf : FreshMemory pages pages2mb inUse s₀)
    (h1 : s₀.calls ≤ s.calls) (h2 : s₀.calls2mb ≤ s.calls2mb) {x : ℕ}
    (hx : x ∈ given pages pages2mb s₀ s) : x ∉ given pages pages2mb s s' := by
  rintro (⟨k, hk, -, rfl, hk0⟩ | ⟨k, hk, -, hk0, hkx, hkx'⟩)
  · rcases hx with ⟨j, hj, hj', hjx, -⟩ | ⟨j, hj, -, hj0, hjx, hjx'⟩
    · have := hf.distinct j k hj (by omega) (hjx ▸ hk0) hjx
      omega
    · have := hf.apart k j (by omega) hj hk0 hj0
      omega
  · rcases hx with ⟨j, hj, -, rfl, hj0⟩ | ⟨j, hj, hj', hj0, hjx, hjx'⟩
    · have := hf.apart j k hj (by omega) hj0 hk0
      omega
    · -- two blocks that meet are the same block
      have hja := (hf.block j hj hj0).1
      have hka := (hf.block k (by omega) hk0).1
      obtain ⟨a, ha⟩ := hja
      obtain ⟨b, hb⟩ := hka
      have hab : pages2mb j = pages2mb k := by
        simp only [pageSize2mb] at *
        omega
      have := hf.distinct2mb j k hj (by omega) hj0 hab
      omega

lemma FreshMemory.given_unused (hf : FreshMemory pages pages2mb inUse s₀) {x : ℕ}
    (hx : x ∈ given pages pages2mb s₀ s) : x ∉ inUse ∧ x ≠ 0 := by
  rcases hx with ⟨k, hk, -, rfl, hk0⟩ | ⟨k, hk, -, hk0, hkx, hkx'⟩
  · exact ⟨hf.unused k hk hk0, hk0⟩
  · exact ⟨hf.unused2mb k hk hk0 x hkx hkx', by omega⟩

end Given

/-! ## The invariant -/

section Invariant

variable (pages pages2mb : ℕ → ℕ) (levels top : ℕ)

/-- What a step does to the tree below the lower half. -/
structure Grown (s s' : PhysState) : Prop where
  calls_le : s.calls ≤ s'.calls
  calls2mb_le : s.calls2mb ≤ s'.calls2mb
  separate : Separate s'.mem 256 (levels - 1) top
  plain : AllEntries PlainEntry s'.mem 256 (levels - 1) top
  tables_sub : tables s'.mem 256 (levels - 1) top ⊆
    tables s.mem 256 (levels - 1) top ∪ handedOut pages s.calls s'.calls
  changed : ChangedOnly (tables s.mem 256 (levels - 1) top ∪ given pages pages2mb s s') s.mem s'.mem

/-- **The invariant of loading.**  `s₀` is the state at the start. -/
structure Loading (s₀ s : PhysState) : Prop where
  calls_le : s₀.calls ≤ s.calls
  calls2mb_le : s₀.calls2mb ≤ s.calls2mb
  separate : Separate s.mem 256 (levels - 1) top
  plain : AllEntries PlainEntry s.mem 256 (levels - 1) top
  tables_sub : tables s.mem 256 (levels - 1) top ⊆ {top} ∪ handedOut pages s₀.calls s.calls
  changed : ChangedOnly ({top} ∪ given pages pages2mb s₀ s) s₀.mem s.mem
  frame : ∀ v < lowerHalf levels, ∀ a, lookup levels top s.mem v = some a →
    alignDown pageSize a.phys ∈ given pages pages2mb s₀ s ∧
      alignDown pageSize a.phys ∉ tables s.mem 256 (levels - 1) top
  inj : ∀ v < lowerHalf levels, ∀ w < lowerHalf levels, ∀ a b,
    lookup levels top s.mem v = some a → lookup levels top s.mem w = some b →
    a.phys = b.phys → v = w

variable {pages pages2mb levels top} {inUse : Set ℕ} {s₀ s s' : PhysState}

/-- The tables are in use or were handed out as pages. -/
lemma Loading.freshPages (h : Loading pages pages2mb levels top s₀ s)
    (hf : FreshMemory pages pages2mb inUse s₀) (htop : top ∈ inUse) :
    FreshPages s.mem 256 (levels - 1) top pages s.calls where
  page k hk := hf.page k (h.calls_le.trans hk)
  fresh k hk hne hmem := by
    rcases h.tables_sub hmem with hmem | ⟨j, hj, hj', heq, -⟩
    · exact hf.unused k (h.calls_le.trans hk) hne (hmem ▸ htop)
    · have := hf.distinct j k hj (h.calls_le.trans hk) (heq ▸ hne) heq
      omega
  distinct j k hj hk := hf.distinct j k (h.calls_le.trans hj) (h.calls_le.trans hk)

/-- A mapped address is not mapped to the null page. -/
lemma Loading.phys_ne_zero (h : Loading pages pages2mb levels top s₀ s)
    (hf : FreshMemory pages pages2mb inUse s₀) {v : ℕ} (hv : v < lowerHalf levels) {a : Mapping}
    (ha : lookup levels top s.mem v = some a) : a.phys ≠ 0 := by
  intro h0
  have := (hf.given_unused (h.frame v hv a ha).1).2
  rw [h0] at this
  exact this rfl

/-- Memory that is handed out in a step was neither a frame nor a table before. -/
lemma Loading.given_fresh (h : Loading pages pages2mb levels top s₀ s)
    (hf : FreshMemory pages pages2mb inUse s₀) (htop : top ∈ inUse) {x : ℕ}
    (hx : x ∈ given pages pages2mb s s') :
    x ∉ given pages pages2mb s₀ s ∧ x ∉ tables s.mem 256 (levels - 1) top := by
  have h1 : x ∉ given pages pages2mb s₀ s := fun hx' =>
    hf.given_disjoint h.calls_le h.calls2mb_le hx' hx
  refine ⟨h1, fun hmem => ?_⟩
  rcases h.tables_sub hmem with hmem | hmem
  · have hle : x ∈ given pages pages2mb s₀ s' := by
      have hc := h.calls_le
      have hc2 := h.calls2mb_le
      rcases hx with ⟨k, hk, hk', hx⟩ | ⟨k, hk, hk', hx⟩
      · exact .inl ⟨k, by omega, hk', hx⟩
      · exact .inr ⟨k, by omega, hk', hx⟩
    rw [Set.mem_singleton_iff.mp hmem] at hle
    exact (hf.given_unused hle).1 htop
  · exact h1 (.inl hmem)

/-- **The step of the invariant.**  Every address keeps its frame, or lies in the range of `size`
bytes at `addr` that is mapped to fresh memory at `base`. -/
lemma Loading.grow (h : Loading pages pages2mb levels top s₀ s)
    (hf : FreshMemory pages pages2mb inUse s₀) (htop : top ∈ inUse)
    (hg : Grown pages pages2mb levels top s s') (addr base size : ℕ)
    (hnew : ∀ v < lowerHalf levels, ∀ a', lookup levels top s'.mem v = some a' →
      (∃ a, lookup levels top s.mem v = some a ∧ a.phys = a'.phys) ∨
        addr ≤ v ∧ v < addr + size ∧ a'.phys = base + (v - addr))
    (hbase : ∀ x, base ≤ x → x < base + size → alignDown pageSize x ∈ given pages pages2mb s s' ∧
      alignDown pageSize x ∉ tables s'.mem 256 (levels - 1) top) :
    Loading pages pages2mb levels top s₀ s' ∧
      ∀ v < lowerHalf levels, ∀ a, lookup levels top s.mem v = some a →
        s'.mem a.phys = s.mem a.phys := by
  have hsub₁ : given pages pages2mb s₀ s ⊆ given pages pages2mb s₀ s' :=
    given_mono le_rfl hg.calls_le le_rfl hg.calls2mb_le
  have hsub₂ : given pages pages2mb s s' ⊆ given pages pages2mb s₀ s' :=
    given_mono h.calls_le le_rfl h.calls2mb_le le_rfl
  -- an old frame is untouched and does not become a table
  have hold : ∀ v < lowerHalf levels, ∀ a, lookup levels top s.mem v = some a →
      alignDown pageSize a.phys ∉
        tables s.mem 256 (levels - 1) top ∪ given pages pages2mb s s' := by
    rintro v hv a ha (hmem | hmem)
    · exact (h.frame v hv a ha).2 hmem
    · exact (h.given_fresh hf htop hmem).1 (h.frame v hv a ha).1
  refine ⟨⟨h.calls_le.trans hg.calls_le, h.calls2mb_le.trans hg.calls2mb_le, hg.separate, hg.plain,
    fun x hx => ?_, (h.changed.trans hg.changed).mono ?_, fun v hv a' ha' => ?_,
    fun v hv w hw a' b' ha' hb' heq => ?_⟩, fun v hv a ha => hg.changed _ (hold v hv a ha)⟩
  · rcases hg.tables_sub hx with hx | hx
    · exact (h.tables_sub hx).imp id fun hx => handedOut_mono le_rfl hg.calls_le hx
    · exact .inr (handedOut_mono h.calls_le le_rfl hx)
  · rintro x ((hx | hx) | hx | hx)
    · exact .inl hx
    · exact .inr (hsub₁ hx)
    · exact (h.tables_sub hx).imp id fun hx => .inl (handedOut_mono le_rfl hg.calls_le hx)
    · exact .inr (hsub₂ hx)
  · rcases hnew v hv a' ha' with ⟨a, ha, hphys⟩ | ⟨hle, hlt, hphys⟩
    · rw [← hphys]
      refine ⟨hsub₁ (h.frame v hv a ha).1, fun hmem => hold v hv a ha ?_⟩
      exact (hg.tables_sub hmem).imp id .inl
    · rw [hphys]
      obtain ⟨h1, h2⟩ := hbase (base + (v - addr)) (by omega) (by omega)
      exact ⟨hsub₂ h1, h2⟩
  · -- two addresses share a byte only if both are old or both are new
    have hmixed : ∀ x < lowerHalf levels, ∀ y < lowerHalf levels, ∀ a b : Mapping,
        lookup levels top s.mem x = some a → addr ≤ y → y < addr + size →
        b.phys = base + (y - addr) → a.phys ≠ b.phys := by
      intro x hx y _ a b ha hle hlt hb hab
      refine hold x hx a ha (.inr ?_)
      rw [hab, hb]
      exact (hbase _ (by omega) (by omega)).1
    rcases hnew v hv a' ha' with ⟨a, ha, hpa⟩ | ⟨hle, hlt, hpa⟩
    · rcases hnew w hw b' hb' with ⟨b, hb, hpb⟩ | ⟨hle', hlt', hpb⟩
      · exact h.inj v hv w hw a b ha hb (by omega)
      · exact absurd (hpa.trans heq) (hmixed v hv w hw a b' ha hle' hlt' hpb)
    · rcases hnew w hw b' hb' with ⟨b, hb, hpb⟩ | ⟨hle', hlt', hpb⟩
      · exact absurd (hpb.trans heq.symm) (hmixed w hw v hv b a' hb hle hlt hpa)
      · omega

end Invariant

/-! ## Mapping a page while loading -/

/-- What loading starts from. -/
structure LoadSetting (pages pages2mb : ℕ → ℕ) (levels top : ℕ) (inUse : Set ℕ) (s₀ : PhysState) :
    Prop where
  depth : levels = 4 ∨ levels = 5
  aligned : pageSize ∣ top ∧ top < physLimit
  top_inUse : top ∈ inUse
  fresh : FreshMemory pages pages2mb inUse s₀

section Tree

variable {levels top : ℕ} {m m' : Memory} {S : Set ℕ}

/-- Bytes outside the tables do not matter to the walk. -/
lemma lookup_of_changedOnly (hlev : levels = 4 ∨ levels = 5)
    (htop : pageSize ∣ top ∧ top < physLimit) (hch : ChangedOnly S m m')
    (hS : ∀ x ∈ tables m 256 (levels - 1) top, x ∉ S) :
    (∀ v < lowerHalf levels, lookup levels top m' v = lookup levels top m v) ∧
      (∀ v < lowerHalf levels, HugeFree m v (levels - 1) top → HugeFree m' v (levels - 1) top) ∧
      tables m' 256 (levels - 1) top = tables m 256 (levels - 1) top ∧
      (Separate m 256 (levels - 1) top → Separate m' 256 (levels - 1) top) ∧
      (AllEntries PlainEntry m 256 (levels - 1) top →
        AllEntries PlainEntry m' 256 (levels - 1) top) := by
  have hagree := hch.agree htop hS
  exact ⟨fun v hv => hagree.hwWalk_eq (pageIndex_lt_of_lower hlev hv),
    fun v hv => hagree.hugeFree (pageIndex_lt_of_lower hlev hv), hagree.tables_eq (by decide),
    hagree.separate (by decide), hagree.allEntries (by decide)⟩

end Tree

section Step

variable {pages pages2mb : ℕ → ℕ} {levels top : ℕ} {inUse : Set ℕ} {s₀ s s' : PhysState}

/-- Calls of the allocator alone do not matter. -/
lemma Loading.of_calls (h : Loading pages pages2mb levels top s₀ s) (hmem : s'.mem = s.mem)
    (hcalls : s.calls ≤ s'.calls) (hcalls2 : s.calls2mb ≤ s'.calls2mb) :
    Loading pages pages2mb levels top s₀ s' where
  calls_le := h.calls_le.trans hcalls
  calls2mb_le := h.calls2mb_le.trans hcalls2
  separate := hmem ▸ h.separate
  plain := hmem ▸ h.plain
  tables_sub := by
    rw [hmem]
    exact h.tables_sub.trans (Set.union_subset_union_right _ (handedOut_mono le_rfl hcalls))
  changed := by
    rw [hmem]
    exact h.changed.mono (Set.union_subset_union_right _ (given_mono le_rfl hcalls le_rfl hcalls2))
  frame v hv a ha := by
    rw [hmem] at ha ⊢
    exact ⟨given_mono le_rfl hcalls le_rfl hcalls2 (h.frame v hv a ha).1, (h.frame v hv a ha).2⟩
  inj := hmem ▸ h.inj

/-- A map function called for the lower half. -/
structure MapStep (pages : ℕ → ℕ) (kind : PageKind) (levels top addr phys flags : ℕ)
    (s s' : PhysState) : Prop where
  calls_le : s.calls ≤ s'.calls
  calls2mb : s'.calls2mb = s.calls2mb
  separate : Separate s'.mem 256 (levels - 1) top
  plain : AllEntries PlainEntry s'.mem 256 (levels - 1) top
  tables_sub : tables s'.mem 256 (levels - 1) top ⊆
    tables s.mem 256 (levels - 1) top ∪ handedOut pages s.calls s'.calls
  changed : ChangedOnly (tables s.mem 256 (levels - 1) top ∪ handedOut pages s.calls s'.calls)
    s.mem s'.mem
  off : ∀ v < lowerHalf levels, v / kind.size ≠ addr / kind.size →
    lookup levels top s'.mem v = lookup levels top s.mem v
  hugeFree : ∀ v < lowerHalf levels, kind = .page4kb ∨ v / kind.size ≠ addr / kind.size →
    HugeFree s.mem v (levels - 1) top → HugeFree s'.mem v (levels - 1) top
  on : s.calls < s'.calls ∧
      (∀ v < lowerHalf levels, lookup levels top s'.mem v = lookup levels top s.mem v) ∨
    ∀ v, v / kind.size = addr / kind.size →
      lookup levels top s'.mem v = some (leafMapping (kind.entry phys flags) kind.level v)

lemma Loading.mapStep (h : Loading pages pages2mb levels top s₀ s)
    (hs : LoadSetting pages pages2mb levels top inUse s₀) (kind : PageKind) {addr phys flags : ℕ}
    (haddr : addr < lowerHalf levels) (hphys : ∀ i, 52 ≤ i → i < 63 → phys.testBit i = false)
    (hflags : AttributeFlags flags) (hpresent : flags.testBit 0 = true) :
    ∃ s', pagingMapNoflush pages kind levels top addr phys flags s = some s' ∧
      MapStep pages kind levels top addr phys flags s s' := by
  have hlev := hs.depth
  have hi := pageIndex_lt_of_lower hlev haddr
  obtain ⟨s₁, s', hs', hw, hcalls, hcalls2, hres⟩ := pagingMapNoflush_spec plainEntry_entryInv
    kind phys (by omega) hs.aligned h.separate h.plain
    (h.freshPages hs.fresh hs.top_inUse) (by decide) hi
    (pathClear_of_plain (fun _ _ h => h) hi h.plain) hflags.lt
  refine ⟨s', hs', ?_⟩
  have hle : s.calls ≤ s'.calls := hcalls ▸ hw.calls_le
  have hc2 : s'.calls2mb = s.calls2mb := hcalls2.trans hw.calls2mb
  have hwalk : ∀ v < lowerHalf levels, lookup levels top s₁.mem v = lookup levels top s.mem v :=
    fun v hv => hw.walk v (pageIndex_lt_of_lower hlev hv)
  rcases hres with ⟨⟨k, hk, hk', -⟩, rfl⟩ | ⟨-, x, hx, hmem, hst⟩
  · exact ⟨hle, hc2, hw.separate, hw.entries, hw.tables_sub, hw.changed, fun v hv _ => hwalk v hv,
      fun v hv _ => hw.hugeFree v (pageIndex_lt_of_lower hlev hv), .inl ⟨by omega, hwalk⟩⟩
  · have hne : ∀ v < lowerHalf levels, v / kind.size ≠ addr / kind.size →
        ∃ k, kind.level ≤ k ∧ k ≤ levels - 1 ∧ pageIndex v k ≠ pageIndex addr k := by
      intro v hv hne
      refine exists_pageIndex_ne hlev kind.level_le (canonical_of_lower hlev hv)
        (canonical_of_lower hlev haddr) fun heq => hne ?_
      exact Nat.eq_of_mul_eq_mul_right (Nat.two_pow_pos _) heq
    refine ⟨hle, hc2, hst.separate, hst.entries hw.entries (plainEntry_entry hphys hflags), ?_, ?_,
      fun v hv hv' => ?_, fun v hv hoff hfree => ?_, .inr fun v hv => ?_⟩
    · rw [hcalls]
      exact hst.tables_sub.trans hw.tables_sub
    · rw [hcalls, hmem]
      have hxal := tables_aligned hs.aligned hx
      refine (hw.changed.trans (changedOnly_writeEntry hxal.1 (pageIndex_lt _ _))).mono ?_
      refine Set.union_subset subset_rfl (Set.singleton_subset_iff.mpr (hw.tables_sub hx))
    · rw [← hwalk v hv]
      exact hst.walk_off v (pageIndex_lt_of_lower hlev hv) (hne v hv hv')
    · refine hst.hugeFree v (pageIndex_lt_of_lower hlev hv) ?_
        (hw.hugeFree v (pageIndex_lt_of_lower hlev hv) hfree)
      rcases hoff with rfl | hoff
      · exact .inl rfl
      · exact .inr (hne v hv hoff)
    · have h0 : (kind.entry phys flags).testBit 0 = true := by
        rw [testBit_entry, hpresent]
        simp
      rw [lookup, hst.walk_on v fun k hk _ => pageIndex_eq_of_page_eq hk hv, if_pos h0]

/-! ## Pages that are mapped already -/

/-- Where there is no huge entry, a mapped address has a table of level 0. -/
lemma exists_tableOnPath {m : Memory} {v l t : ℕ} {a : Mapping} (hfree : HugeFree m v l t)
    (ha : hwWalk m v l t = some a) : ∃ x, tableOnPath m v 0 l t = some x := by
  induction l generalizing t with
  | zero => exact ⟨t, rfl⟩
  | succ l ih =>
    rw [hwWalk] at ha
    split_ifs at ha with h0 h7 hl
    · rw [(hfree h0).1] at h7
      exact absurd h7 (by simp)
    · have hpt : PointsToTable (readEntry m t (pageIndex v (l + 1))) := ⟨h0, (hfree h0).1⟩
      rw [tableOnPath]
      simp only [if_neg (Nat.not_succ_le_zero l), if_pos hpt]
      exact ih (hfree h0).2 ha

/-- `walk_to_level` follows the tables there are without calling the allocator. -/
lemma walkToLevel_of_tableOnPath (pages : ℕ → ℕ) (b : Bool) {virt target l t x : ℕ} {s : PhysState}
    (ht : t < physLimit) (hclear : PathClear s.mem virt target l t)
    (h : tableOnPath s.mem virt target l t = some x) :
    walkToLevel pages virt target b l t s = some (some x, s) := by
  induction l generalizing t with
  | zero =>
    rw [tableOnPath] at h
    rw [walkToLevel, h]
  | succ l ih =>
    rw [tableOnPath] at h
    rw [walkToLevel]
    split_ifs at h with htarget hpt
    · rw [if_pos htarget, h]
    · obtain ⟨hc, hclear'⟩ := (hclear.resolve_left htarget).resolve_left (not_not.mpr hpt)
      rw [if_neg htarget, if_neg (not_le.mpr ht),
        if_neg (by rw [and_ptePresent_eq_zero, hpt.1]; simp),
        if_neg (by rw [and_pteHugePage_ne_zero, hpt.2]; simp), and_pteAddrMask_of_clear hc]
      exact ih (hwAddr_aligned _).2 hclear' h

lemma attributeFlags_hwRights (e : ℕ) : AttributeFlags (hwRights e) := by
  intro i hi
  rw [testBit_hwRights] at hi
  grind

lemma testBit_combineFlags (e flags i : ℕ) (he : e < word) :
    (combineFlags e flags).testBit i =
      if i = 63 then e.testBit 63 && flags.testBit 63
      else if i = 1 then e.testBit 1 || flags.testBit 1 else e.testBit i := by
  have hnx : flags &&& pteNx = 0 ↔ flags.testBit 63 = false := by
    rw [← not_iff_not, ← ne_eq, pteNx, and_two_pow_ne_zero]
    simp
  have hw : pteWritable.testBit i = decide (1 = i) := Nat.testBit_two_pow
  have hn : pteNx.testBit i = decide (63 = i) := Nat.testBit_two_pow
  have h64 := fun h => testBit_of_lt_word (i := i) he h
  rw [combineFlags]
  split_ifs with h h63 h1 h63 h1
  all_goals simp only [Nat.testBit_and, Nat.testBit_or, testBit_wnot (show pteNx < word by decide),
    hw, hn, hnx] at h ⊢
  all_goals grind

/-- Where there is no huge entry, `paging_get_phys` is the page walk. -/
lemma getPhysFrom_of_hugeFree {m : Memory} {v n l t : ℕ} (ht : t < physLimit)
    (hi : pageIndex v l < n) (h : AllEntries PlainEntry m n l t) (hfree : HugeFree m v l t) :
    getPhysFrom m v l t = some (((hwWalk m v l t).map Mapping.phys).getD 0) := by
  induction l generalizing n t with
  | zero =>
    obtain ⟨g, hg, heq | ⟨a, k, e, -, -, hk, -⟩⟩ := getPhysFrom_plain
      (P := fun l e => l = 0 ∧ PlainEntry l e) (fun _ _ h => h.2) ht hi fun i hi => ⟨rfl, h i hi⟩
    · rw [hg, heq]
    · exact absurd hk.1 (Nat.succ_ne_zero k)
  | succ l ih =>
    obtain ⟨hplain, hchild⟩ := h _ hi
    rw [getPhysFrom, if_neg (not_le.mpr ht), hwWalk]
    simp only [and_ptePresent_eq_zero, and_pteHugePage_ne_zero]
    cases h0 : (readEntry m t (pageIndex v (l + 1))).testBit 0 with
    | false => rfl
    | true =>
      obtain ⟨h7, hfree'⟩ := hfree h0
      simp only [h7, Bool.true_eq_false, Bool.false_eq_true, if_false, if_true]
      rw [and_pteAddrMask_of_clear (clear_of_plainEntry hplain h0)]
      exact ih (hwAddr_aligned _).2 (pageIndex_lt v l) (hchild ⟨h0, h7⟩) hfree'

/-- A page is mapped to a page. -/
lemma hwWalk_phys_aligned {m : Memory} {w l t : ℕ} {a : Mapping} (hw : pageSize ∣ w)
    (h : hwWalk m w l t = some a) : pageSize ∣ a.phys := by
  have hleaf : ∀ e k, pageSize ∣ (leafMapping e k w).phys := by
    intro e k
    have hdvd : 2 ^ 12 ∣ 2 ^ (12 + k * 9) := Nat.pow_dvd_pow 2 (Nat.le_add_right 12 _)
    exact Nat.dvd_add (hdvd.trans (dvd_alignDown _ _)) ((Nat.dvd_mod_iff hdvd).mpr hw)
  induction l generalizing t with
  | zero =>
    rw [hwWalk] at h
    split_ifs at h
    exact Option.some.inj h ▸ hleaf _ _
  | succ l ih =>
    rw [hwWalk] at h
    split_ifs at h
    · exact Option.some.inj h ▸ hleaf _ _
    · exact ih h

lemma FreshMemory.given_lt (hf : FreshMemory pages pages2mb inUse s₀) {x : ℕ}
    (hx : x ∈ given pages pages2mb s₀ s) : x < physLimit := by
  rcases hx with ⟨k, hk, -, rfl, hk0⟩ | ⟨k, hk, -, hk0, -, hkx⟩
  · exact (hf.page k hk hk0).2
  · obtain ⟨⟨q, hq⟩, hlt⟩ := hf.block k hk hk0
    simp only [physLimit, pageSize2mb] at *
    omega

/-- What is mapped lies in physical memory. -/
lemma Loading.phys_lt (h : Loading pages pages2mb levels top s₀ s)
    (hf : FreshMemory pages pages2mb inUse s₀) {v : ℕ} (hv : v < lowerHalf levels) {a : Mapping}
    (ha : lookup levels top s.mem v = some a) : a.phys < physLimit := by
  have := hf.given_lt (h.frame v hv a ha).1
  simp only [alignDown, physLimit, pageSize] at *
  omega

/-- `paging_get_phys` while loading. -/
lemma Loading.getPhys (h : Loading pages pages2mb levels top s₀ s)
    (hs : LoadSetting pages pages2mb levels top inUse s₀) {v : ℕ} (hv : v < lowerHalf levels) :
    ∃ g, pagingGetPhys s.mem levels top v = some g ∧
      (lookup levels top s.mem v = none ∧ g = 0 ∨
        ∃ a, lookup levels top s.mem v = some a ∧ g ≠ 0 ∧
          (g = a.phys ∨ g = a.phys + 2 ^ 63 ∧ ¬HugeFree s.mem v (levels - 1) top)) := by
  have hi := pageIndex_lt_of_lower hs.depth hv
  obtain ⟨g, hg, hcase⟩ := getPhysFrom_plain (fun _ _ h => h) hs.aligned.2 hi h.plain
  refine ⟨g, hg, ?_⟩
  rw [show hwWalk s.mem v (levels - 1) top = lookup levels top s.mem v from rfl] at hcase
  cases ha : lookup levels top s.mem v with
  | none =>
    rw [ha] at hcase
    rcases hcase with rfl | ⟨a, -, -, ha', -⟩
    · exact .inl ⟨rfl, rfl⟩
    · exact absurd ha' (by simp)
  | some a =>
    have hne := h.phys_ne_zero hs.fresh hv ha
    rw [ha] at hcase
    rcases hcase with rfl | ⟨a', -, -, ha', rfl, -⟩
    · exact .inr ⟨a, rfl, hne, .inl rfl⟩
    · obtain rfl := Option.some.inj ha'
      refine .inr ⟨a, rfl, by simp, .inr ⟨rfl, fun hfree => ?_⟩⟩
      have hexact := getPhysFrom_of_hugeFree hs.aligned.2 hi h.plain hfree
      rw [hg, show hwWalk s.mem v (levels - 1) top = some a from ha, Option.some.injEq] at hexact
      simp at hexact

end Step

end Cuore
