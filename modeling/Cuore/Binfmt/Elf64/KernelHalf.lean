import Cuore.Binfmt.Elf64.Alloc

/-!
# Loading a process image and the kernel half

`elf64_parse` takes addresses straight from the program headers.  Loading an image should leave the
higher half of the address space alone, in the kernel's table and in the table of the process,
which share everything below their top tables.

It does so for images that stay in the lower half (`KernelSafe`): every page that the mapping loops
visit and every chunk that is copied or zeroed is reached through the lower slots of the top table,
and the first page of each 2 MiB page was not mapped by a 4 KiB loop before.  In the last case the
2 MiB loop rounds the page's frame down to 2 MiB, and so puts memory of others, such as the tables
of the kernel, where the segment is copied to.  The headers are checked for none of this.

What `elf64_parse` does not get to need not be safe.  It returns at a segment that is not in the
file, and at a chunk whose page no segment has visited so far; and a `memcpy` that refuses its
source panics.

`Sheltered` is the invariant: the state is one of loading, the upper slots are as they were, only
visited pages are mapped, and a 2 MiB page whose first page was not mapped by a 4 KiB loop lies in
one block.  Every step keeps it, whether `elf64_parse` goes on after it or returns.
-/

namespace Cuore

variable {pages pages2mb : ℕ → ℕ} {levels top kernel : ℕ} {inUse : Set ℕ} {s₀ s s₁ s' : PhysState}
  {file : Memory} {fileData fileSize : ℕ} {user b : Bool} {ph : Elf64Phdr}
  {phs done painted finished : List Elf64Phdr}

/-! ## Running steps to any end -/

/-- The step keeps `I`, whether it goes on or returns. -/
def Step.Keeps (I : PhysState → Prop) (f : Step) : Prop := ∀ s b s', I s → f s = some (b, s') → I s'

lemma Step.seq_cases {f g : Step} (h : f.seq g s = some (b, s')) :
    b = false ∧ f s = some (false, s') ∨ ∃ s₁, f s = some (true, s₁) ∧ g s₁ = some (b, s') := by
  rw [Step.seq] at h
  split at h
  · simp at h
  · rename_i s'' hf
    simp only [Option.some.injEq, Prod.mk.injEq] at h
    exact .inl ⟨h.1.symm, h.2 ▸ hf⟩
  · exact .inr ⟨_, by assumption, h⟩

section Keeps

variable {I : PhysState → Prop} {f g : Step} {body : ℕ → Step}

lemma Step.Keeps.skip : Step.Keeps I Step.skip := by
  intro s b s' h hrun
  simp only [Step.skip, Option.some.injEq, Prod.mk.injEq] at hrun
  exact hrun.2 ▸ h

lemma Step.Keeps.seq (hf : f.Keeps I) (hg : g.Keeps I) : (f.seq g).Keeps I := by
  intro s b s' h hrun
  rcases Step.seq_cases hrun with ⟨-, hret⟩ | ⟨s₁, hgo, hrest⟩
  · exact hf s false s' h hret
  · exact hg s₁ b s' (hf s true s₁ h hgo) hrest

lemma Step.Keeps.rounds {step n start : ℕ}
    (h : ∀ k < n, (body (start + k * step)).Keeps I) : (Step.rounds step body n start).Keeps I := by
  induction n generalizing start with
  | zero => exact Step.Keeps.skip
  | succ n ih =>
    refine Step.Keeps.seq (by simpa using h 0 (Nat.succ_pos n)) (ih fun k hk => ?_)
    rw [show start + step + k * step = start + (k + 1) * step by ring]
    exact h (k + 1) (by omega)

/-- The rule for `for` loops. -/
lemma Step.Keeps.forAddr {start stop step : ℕ} (hstart : step ∣ start) (hstop : step ∣ stop)
    (h : ∀ addr, step ∣ addr → start ≤ addr → addr < stop → (body addr).Keeps I) :
    (Step.forAddr start stop step body).Keeps I := by
  refine Step.Keeps.rounds fun k hk => ?_
  have hmul := Nat.div_mul_cancel (Nat.dvd_sub hstop hstart)
  have hle : (k + 1) * step ≤ (stop - start) / step * step := Nat.mul_le_mul_right step hk
  have hpos : 0 < step := by
    by_contra hcon
    rw [Nat.eq_zero_of_not_pos hcon, Nat.div_zero] at hk
    exact absurd hk (Nat.not_lt_zero k)
  rw [hmul, Nat.add_mul] at hle
  exact h _ (Nat.dvd_add hstart (Dvd.intro_left k rfl)) (by omega) (by omega)

end Keeps

/-! ## Images that stay in the lower half -/

namespace Elf64Phdr

/-- A 4 KiB loop visits the page `x`. -/
def SmallAt (levels : ℕ) (ph : Elf64Phdr) (x : ℕ) : Prop :=
  ∃ v, pageSize ∣ v ∧ ph.SmallPart v ∧ lowAddr levels v = x

/-- The 2 MiB loop visits the page `x`. -/
def HugeAt (levels : ℕ) (ph : Elf64Phdr) (x : ℕ) : Prop :=
  ∃ v, pageSize2mb ∣ v ∧ ph.HugePart v ∧ lowAddr levels v = x

end Elf64Phdr

/-- Of the segments that visit the page `x`, the first does so in a 4 KiB loop. -/
def SmallFirst (levels : ℕ) : List Elf64Phdr → ℕ → Prop
  | [], _ => False
  | ph :: phs, x => ph.SmallAt levels x ∨ ¬ph.HugeAt levels x ∧ SmallFirst levels phs x

/-- A loop of one of the segments visits the page of `x`. -/
def VisitedAt (levels : ℕ) (segs : List Elf64Phdr) (x : ℕ) : Prop :=
  ∃ p ∈ segs, p.SmallAt levels (alignDown pageSize x) ∨ p.HugeAt levels (alignDown pageSize2mb x)

/-- A round of a loop that fills a segment: where it starts to write, and for the copy loop what it
reads. -/
structure FillChunk where
  dst : ℕ
  src : Option (ℕ × ℕ)
  deriving DecidableEq

/-- The rounds of the copy loop. -/
def copyChunks : ℕ → ℕ → ℕ → ℕ → List FillChunk
  | 0, _, _, _ => []
  | fuel + 1, copyStart, src, copySize =>
    if copySize = 0 then []
    else
      let off := copyStart &&& (pageSize - 1)
      let chunk := if pageSize - off > copySize then copySize else pageSize - off
      ⟨copyStart, some (src, chunk)⟩ ::
        copyChunks fuel (wadd copyStart chunk) (wadd src chunk) (copySize - chunk)

/-- The rounds of the zeroing loop. -/
def bssChunks : ℕ → ℕ → ℕ → List FillChunk
  | 0, _, _ => []
  | fuel + 1, bssStart, bssSize =>
    if bssSize = 0 then []
    else
      let off := bssStart &&& (pageSize - 1)
      let chunk := if pageSize - off > bssSize then bssSize else pageSize - off
      ⟨bssStart, none⟩ :: bssChunks fuel (wadd bssStart chunk) (bssSize - chunk)

/-- The rounds that fill a segment. -/
def Elf64Phdr.fillChunks (fileData : ℕ) (ph : Elf64Phdr) : List FillChunk :=
  copyChunks ph.pFilesz ph.pVaddr (wadd fileData ph.pOffset) ph.pFilesz ++
    if ph.pMemsz > ph.pFilesz then
      bssChunks (ph.pMemsz - ph.pFilesz) (wadd ph.pVaddr ph.pFilesz) (ph.pMemsz - ph.pFilesz)
    else []

/-- A `memcpy` does not refuse the source of the chunk. -/
def FillChunk.Accepted (c : FillChunk) : Prop := ∀ r, c.src = some r → Cuore.Accepted r

/-- The loop gets past the chunk, if everything that was visited is mapped. -/
def FillChunk.Passes (levels : ℕ) (segs : List Elf64Phdr) (c : FillChunk) : Prop :=
  c.Accepted ∧ VisitedAt levels segs (lowAddr levels c.dst)

/-- The chunks are written through the lower slots, up to the first that the loop cannot get
past. -/
def FillSafe (levels : ℕ) (segs : List Elf64Phdr) : List FillChunk → Prop
  | [] => True
  | c :: cs => c.Accepted → pageIndex c.dst (levels - 1) < 256 ∧
      (VisitedAt levels segs (lowAddr levels c.dst) → FillSafe levels segs cs)

/-- **A segment stays in the lower half**, after the segments `pre`.  The pages visited and the
chunks written are reached through the lower slots of the top table, and the first page of a 2 MiB
page was not mapped by a 4 KiB loop. -/
structure SegmentSafe (levels fileData : ℕ) (pre : List Elf64Phdr) (ph : Elf64Phdr) : Prop where
  small : ∀ v, pageSize ∣ v → ph.SmallPart v → pageIndex v (levels - 1) < 256
  huge : ∀ v, pageSize2mb ∣ v → ph.HugePart v → pageIndex v (levels - 1) < 256
  filled : FillSafe levels (pre ++ [ph]) (ph.fillChunks fileData)
  block : ∀ x, ph.HugeAt levels x → ¬SmallFirst levels (pre ++ [ph]) x

/-- **The image stays in the lower half**, as far as `elf64_parse` gets: it skips headers of another
type, returns at a segment that is not in the file, and does not get past a chunk that does not
pass. -/
def KernelSafe (levels fileData fileSize : ℕ) : List Elf64Phdr → List Elf64Phdr → Prop
  | _, [] => True
  | pre, ph :: phs =>
    if ph.pType ≠ ptLoad then KernelSafe levels fileData fileSize pre phs
    else if wadd ph.pOffset ph.pFilesz > fileSize then True
    else SegmentSafe levels fileData pre ph ∧
      ((∀ c ∈ ph.fillChunks fileData, c.Passes levels (pre ++ [ph])) →
        KernelSafe levels fileData fileSize (pre ++ [ph]) phs)

lemma SmallFirst.append {x : ℕ} (h : SmallFirst levels done x) (l : List Elf64Phdr) :
    SmallFirst levels (done ++ l) x := by
  induction done with
  | nil => exact h.elim
  | cons p done ih => exact h.imp_right (And.imp_right ih)

lemma VisitedAt.append {x : ℕ} (h : VisitedAt levels done x) (l : List Elf64Phdr) :
    VisitedAt levels (done ++ l) x := by
  obtain ⟨p, hp, hat⟩ := h
  exact ⟨p, List.mem_append_left _ hp, hat⟩

lemma FillSafe.of_append {segs : List Elf64Phdr} {cs cs' : List FillChunk}
    (h : FillSafe levels segs (cs ++ cs')) : FillSafe levels segs cs := by
  induction cs with
  | nil => trivial
  | cons c cs ih => exact fun hacc => ⟨(h hacc).1, fun hv => ih ((h hacc).2 hv)⟩

lemma FillSafe.rest {segs : List Elf64Phdr} {cs cs' : List FillChunk}
    (h : FillSafe levels segs (cs ++ cs')) (hpass : ∀ c ∈ cs, c.Passes levels segs) :
    FillSafe levels segs cs' := by
  induction cs with
  | nil => exact h
  | cons c cs ih =>
    obtain ⟨hacc, hvisited⟩ := hpass c List.mem_cons_self
    exact ih ((h hacc).2 hvisited) fun c' hc' => hpass c' (List.mem_cons_of_mem c hc')

lemma smallFirst_append_singleton {x : ℕ} (hno : ∀ p ∈ done, ¬p.HugeAt levels x)
    (h : ph.SmallAt levels x) : SmallFirst levels (done ++ [ph]) x := by
  induction done with
  | nil => exact .inl h
  | cons p done ih =>
    exact .inr ⟨hno p (by simp), ih fun q hq => hno q (List.mem_cons_of_mem p hq)⟩

/-! ## Addresses of pages -/

lemma two_pow_dvd_and_wnot {k : ℕ} (hk : k ≤ 64) (x : ℕ) : 2 ^ k ∣ x &&& wnot (2 ^ k - 1) := by
  have heq : x &&& wnot (2 ^ k - 1) = x % word &&& wnot (2 ^ k - 1) := by
    refine Nat.eq_of_testBit_eq fun i => ?_
    rw [Nat.testBit_and, Nat.testBit_and, testBit_wnot_pred hk, word, Nat.testBit_mod_two_pow]
    grind
  rw [heq, and_wnot_pred hk (Nat.mod_lt _ (by decide))]
  exact dvd_alignDown _ _

lemma Elf64Phdr.segStart_dvd (ph : Elf64Phdr) : pageSize ∣ ph.segStart :=
  two_pow_dvd_and_wnot (k := 12) (by decide) _

lemma Elf64Phdr.segEnd_dvd (ph : Elf64Phdr) : pageSize ∣ ph.segEnd :=
  two_pow_dvd_and_wnot (k := 12) (by decide) _

lemma Elf64Phdr.hugeStart_dvd (ph : Elf64Phdr) : pageSize2mb ∣ ph.hugeStart :=
  two_pow_dvd_and_wnot (k := 21) (by decide) _

lemma Elf64Phdr.hugeEnd_dvd (ph : Elf64Phdr) : pageSize2mb ∣ ph.hugeEnd :=
  two_pow_dvd_and_wnot (k := 21) (by decide) _

lemma dvd_lowAddr {k v : ℕ} (hk : k ≤ 12 + levels * 9) (h : 2 ^ k ∣ v) : 2 ^ k ∣ lowAddr levels v :=
  (Nat.dvd_mod_iff (Nat.pow_dvd_pow 2 hk)).mpr h

/-- The bytes of a page lie side by side. -/
lemma lowAddr_add {page d : ℕ} (hpage : pageSize ∣ page) (hd : d < pageSize) :
    lowAddr levels (page + d) = lowAddr levels page + d := by
  obtain ⟨q, rfl⟩ := hpage
  have hq : ∀ d < pageSize, (pageSize * q + d) / pageSize = q ∧ (pageSize * q + d) % pageSize = d :=
    fun d hd => ⟨by simp only [pageSize] at *; omega, by simp only [pageSize] at *; omega⟩
  have hlow : ∀ d < pageSize, lowAddr levels (pageSize * q + d) =
      d + pageSize * (q % 2 ^ (levels * 9)) := by
    intro d hd
    rw [lowAddr, Nat.pow_add, show 2 ^ 12 = pageSize from rfl, Nat.mod_mul, (hq d hd).1,
      (hq d hd).2]
  have h0 := hlow 0 (by decide)
  rw [Nat.add_zero] at h0
  rw [hlow d hd, h0]
  omega

/-! ## The invariant -/

section Invariant

variable (pages pages2mb levels top)

/-- If `x` is mapped, its 2 MiB page lies in one block. -/
def InBlock (m : Memory) (x : ℕ) : Prop :=
  ∀ a, lookup levels top m x = some a → pageSize2mb ∣ a.phys ∧
    ∀ v, v / pageSize2mb = x / pageSize2mb →
      ∃ b, lookup levels top m v = some b ∧ b.phys = a.phys + v % pageSize2mb

/-- **The invariant.**  The 4 KiB loops of the segments `painted` have run, at least in part, and
the segments `finished` are loaded. -/
structure Sheltered (s₀ : PhysState) (painted finished : List Elf64Phdr) (s : PhysState) :
    Prop where
  loading : Loading pages pages2mb levels top s₀ s
  upper : UpperKept top s₀.mem s.mem
  visited : ∀ x < lowerHalf levels, lookup levels top s.mem x ≠ none → VisitedAt levels painted x
  block : ∀ x < lowerHalf levels, pageSize2mb ∣ x → ¬SmallFirst levels painted x →
    InBlock levels top s.mem x
  mapped : ∀ p ∈ finished, ∀ x < lowerHalf levels, p.HugeAt levels x →
    lookup levels top s.mem x ≠ none

end Invariant

lemma Sheltered.paint (h : Sheltered pages pages2mb levels top s₀ painted finished s)
    (l : List Elf64Phdr) : Sheltered pages pages2mb levels top s₀ (painted ++ l) finished s :=
  ⟨h.loading, h.upper, fun x hx hne => (h.visited x hx hne).append l,
    fun x hx hal hno => h.block x hx hal fun hs => hno (hs.append l), h.mapped⟩

lemma Sheltered.of_calls (h : Sheltered pages pages2mb levels top s₀ painted finished s)
    (hmem : s'.mem = s.mem) (hcalls : s.calls ≤ s'.calls) (hcalls2 : s.calls2mb ≤ s'.calls2mb) :
    Sheltered pages pages2mb levels top s₀ painted finished s' :=
  ⟨h.loading.of_calls hmem hcalls hcalls2, hmem ▸ h.upper, hmem ▸ h.visited, hmem ▸ h.block,
    hmem ▸ h.mapped⟩

/-- The lower half consists of whole 2 MiB pages. -/
lemma lt_lowerHalf_of_block (hlev : levels = 4 ∨ levels = 5) {x v : ℕ} (hal : pageSize2mb ∣ x)
    (hx : x < lowerHalf levels) (hv : v / pageSize2mb = x / pageSize2mb) :
    v < lowerHalf levels := by
  have hrange := (div_eq_div_iff_of_dvd (by decide) hal).mp hv
  obtain ⟨q, hq⟩ : pageSize2mb ∣ lowerHalf levels := by rcases hlev with rfl | rfl <;> decide
  obtain ⟨r, rfl⟩ := hal
  rw [hq] at hx ⊢
  simp only [pageSize2mb] at *
  omega

/-- A step under which every mapped address keeps its place, and addresses outside blocks may be
mapped. -/
lemma Sheltered.of_keeps (h : Sheltered pages pages2mb levels top s₀ painted finished s)
    (hs : LoadSetting pages pages2mb levels top inUse s₀)
    (hload : Loading pages pages2mb levels top s₀ s') (hup : UpperKept top s.mem s'.mem)
    (hkeep : ∀ v < lowerHalf levels, KeepsBytes levels top s s' v)
    (hvisited : ∀ x < lowerHalf levels, lookup levels top s'.mem x ≠ none →
      lookup levels top s.mem x ≠ none ∨ VisitedAt levels painted x)
    (hnew : ∀ x < lowerHalf levels, pageSize2mb ∣ x → ¬SmallFirst levels painted x →
      lookup levels top s'.mem x ≠ none → lookup levels top s.mem x ≠ none) :
    Sheltered pages pages2mb levels top s₀ painted finished s' := by
  refine ⟨hload, h.upper.trans hup, fun x hx hne => (hvisited x hx hne).elim (h.visited x hx) id,
    fun x hx hal hno a' ha' => ?_, fun p hp x hx hat hnone => ?_⟩
  · obtain ⟨a, ha⟩ := Option.ne_none_iff_exists'.mp (hnew x hx hal hno (by simp [ha']))
    obtain ⟨hdvd, hall⟩ := h.block x hx hal hno a ha
    obtain ⟨-, a'', ha'', hphys⟩ := hkeep x hx a ha
    obtain rfl := Option.some.inj (ha'.symm.trans ha'')
    refine ⟨hphys ▸ hdvd, fun v hv => ?_⟩
    obtain ⟨b, hb, hbphys⟩ := hall v hv
    obtain ⟨-, b', hb', hbphys'⟩ := hkeep v (lt_lowerHalf_of_block hs.depth hal hx hv) b hb
    exact ⟨b', hb', by omega⟩
  · obtain ⟨a, ha⟩ := Option.ne_none_iff_exists'.mp (h.mapped p hp x hx hat)
    obtain ⟨-, a', ha', -⟩ := hkeep x hx a ha
    rw [hnone] at ha'
    exact absurd ha' (by simp)

/-- A step that changes no lookup. -/
lemma Sheltered.of_lookup_eq (h : Sheltered pages pages2mb levels top s₀ painted finished s)
    (hs : LoadSetting pages pages2mb levels top inUse s₀)
    (hload : Loading pages pages2mb levels top s₀ s') (hup : UpperKept top s.mem s'.mem)
    (heq : ∀ v < lowerHalf levels, lookup levels top s'.mem v = lookup levels top s.mem v) :
    Sheltered pages pages2mb levels top s₀ painted finished s' := by
  refine ⟨hload, h.upper.trans hup, fun x hx hne => h.visited x hx (heq x hx ▸ hne),
    fun x hx hal hno a ha => ?_, fun p hp x hx hat => ?_⟩
  · rw [heq x hx] at ha
    obtain ⟨hdvd, hall⟩ := h.block x hx hal hno a ha
    refine ⟨hdvd, fun v hv => ?_⟩
    rw [heq v (lt_lowerHalf_of_block hs.depth hal hx hv)]
    exact hall v hv
  · rw [heq x hx]
    exact h.mapped p hp x hx hat

/-! ## The mapping loops -/

/-- What a round of a 4 KiB loop does. -/
lemma mapSmall_cases {flags addr : ℕ}
    (h : mapSmall pages levels top flags addr s = some (b, s')) :
    b = false ∧ s' = { s with calls := s.calls + 1 } ∨
      b = true ∧ ((pages s.calls ≠ 0 ∧ ∃ s₁, pagingMapNoflush pages .page4kb levels top addr
          (pages s.calls) flags { s with calls := s.calls + 1 } = some s₁ ∧
          zeroPhys (pages s.calls) pageSize s₁ = some s') ∨
        ∃ g f, pagingMapNoflush pages .page4kb levels top addr g f s = some s') := by
  simp only [mapSmall, Option.bind_eq_bind, Option.bind_eq_some_iff] at h
  obtain ⟨g, -, h⟩ := h
  split_ifs at h with hg hp
  · simp only [Option.some.injEq, Prod.mk.injEq] at h
    exact .inl ⟨h.1.symm, h.2.symm⟩
  · simp only [Option.bind_eq_some_iff, Option.some.injEq, Prod.mk.injEq] at h
    obtain ⟨s₁, hmap, s₂, hzero, rfl, rfl⟩ := h
    exact .inr ⟨rfl, .inl ⟨hp, s₁, hmap, hzero⟩⟩
  · simp only [Option.bind_eq_some_iff, Option.some.injEq, Prod.mk.injEq] at h
    obtain ⟨f, -, s₁, hmap, rfl, rfl⟩ := h
    exact .inr ⟨rfl, .inr ⟨g, _, hmap⟩⟩

/-- What a round of the 2 MiB loop does. -/
lemma mapHuge_cases {flags addr : ℕ}
    (h : mapHuge pages pages2mb levels top flags addr s = some (b, s')) :
    b = false ∧ s' = { s with calls2mb := s.calls2mb + 1 } ∨
      b = true ∧ ((pages2mb s.calls2mb ≠ 0 ∧ ∃ s₁, pagingMapNoflush pages .page2mb levels top addr
          (pages2mb s.calls2mb) flags { s with calls2mb := s.calls2mb + 1 } = some s₁ ∧
          zeroPhys (pages2mb s.calls2mb) pageSize2mb s₁ = some s') ∨
        ∃ g f, pagingMapNoflush pages .page2mb levels top addr g f s = some s') := by
  simp only [mapHuge, Option.bind_eq_bind, Option.bind_eq_some_iff] at h
  obtain ⟨g, -, h⟩ := h
  split_ifs at h with hg hp
  · simp only [Option.some.injEq, Prod.mk.injEq] at h
    exact .inl ⟨h.1.symm, h.2.symm⟩
  · simp only [Option.bind_eq_some_iff, Option.some.injEq, Prod.mk.injEq] at h
    obtain ⟨s₁, hmap, s₂, hzero, rfl, rfl⟩ := h
    exact .inr ⟨rfl, .inl ⟨hp, s₁, hmap, hzero⟩⟩
  · simp only [Option.bind_eq_some_iff, Option.some.injEq, Prod.mk.injEq] at h
    obtain ⟨f, -, s₁, hmap, rfl, rfl⟩ := h
    exact .inr ⟨rfl, .inr ⟨_, _, hmap⟩⟩

/-- Zeroing memory that the table is not part of. -/
lemma zeroPhys_upper {p n : ℕ} (htop : pageSize ∣ top) (hp : pageSize ∣ p)
    (hout : top < p ∨ p + n ≤ top) (h : zeroPhys p n s = some s') : UpperKept top s.mem s'.mem := by
  rw [zeroPhys] at h
  split_ifs at h
  obtain rfl := Option.some.inj h
  refine ChangedOnly.upperKept (S := {y | ∃ x, p ≤ x ∧ x < p + n ∧ alignDown pageSize x = y})
    (fun x hx => Memory.fill_of_outside ?_) htop ?_
  · by_contra hin
    exact hx ⟨x, by omega, by omega, rfl⟩
  · rintro ⟨x, hx, hx', rfl⟩
    obtain ⟨q, rfl⟩ := hp
    simp only [alignDown, pageSize] at *
    omega

lemma Loading.mapSmall_upper (h : Loading pages pages2mb levels top s₀ s)
    (hs : LoadSetting pages pages2mb levels top inUse s₀) {flags addr : ℕ}
    (haddr : addr < lowerHalf levels)
    (hrun : Cuore.mapSmall pages levels top flags addr s = some (b, s')) :
    UpperKept top s.mem s'.mem := by
  rcases mapSmall_cases hrun with ⟨-, rfl⟩ | ⟨-, ⟨hp, s₁, hmap, hzero⟩ | ⟨g, f, hmap⟩⟩
  · exact UpperKept.refl _ _
  · have h₁ : Loading pages pages2mb levels top s₀ { s with calls := s.calls + 1 } :=
      h.of_calls rfl (Nat.le_succ _) le_rfl
    obtain ⟨hal, -⟩ := hs.fresh.page s.calls h.calls_le hp
    have hne : pages s.calls ≠ top := fun heq =>
      hs.fresh.unused s.calls h.calls_le hp (heq ▸ hs.top_inUse)
    refine (h₁.map_upper hs haddr hmap).trans (zeroPhys_upper hs.aligned.1 hal ?_ hzero)
    obtain ⟨q, hq⟩ := hal
    obtain ⟨r, hr⟩ := hs.aligned.1
    simp only [pageSize] at *
    omega
  · exact h.map_upper hs haddr hmap

lemma Loading.mapHuge_upper (h : Loading pages pages2mb levels top s₀ s)
    (hs : LoadSetting pages pages2mb levels top inUse s₀) {flags addr : ℕ}
    (haddr : addr < lowerHalf levels)
    (hrun : Cuore.mapHuge pages pages2mb levels top flags addr s = some (b, s')) :
    UpperKept top s.mem s'.mem := by
  rcases mapHuge_cases hrun with ⟨-, rfl⟩ | ⟨-, ⟨hp, s₁, hmap, hzero⟩ | ⟨g, f, hmap⟩⟩
  · exact UpperKept.refl _ _
  · have h₁ : Loading pages pages2mb levels top s₀ { s with calls2mb := s.calls2mb + 1 } :=
      h.of_calls rfl le_rfl (Nat.le_succ _)
    obtain ⟨hal, -⟩ := hs.fresh.block s.calls2mb h.calls2mb_le hp
    refine (h₁.map_upper hs haddr hmap).trans (zeroPhys_upper hs.aligned.1
      (pageSize_dvd_pageSize2mb.trans hal) ?_ hzero)
    by_contra hcon
    exact hs.fresh.unused2mb s.calls2mb h.calls2mb_le hp top (by omega) (by omega) hs.top_inUse
  · exact h.map_upper hs haddr hmap

/-- **A round of a 4 KiB loop.** -/
lemma Sheltered.mapSmall (h : Sheltered pages pages2mb levels top s₀ (done ++ [ph]) done s)
    (hs : LoadSetting pages pages2mb levels top inUse s₀) {addr flags : ℕ} (hal : pageSize ∣ addr)
    (hpart : ph.SmallPart addr) (hidx : pageIndex addr (levels - 1) < 256)
    (hflags : SegmentFlags flags)
    (hrun : Cuore.mapSmall pages levels top flags addr s = some (b, s')) :
    Sheltered pages pages2mb levels top s₀ (done ++ [ph]) done s' := by
  have hx := (lowAddr_lt_lowerHalf_iff hs.depth addr).mpr hidx
  have hxal : pageSize ∣ lowAddr levels addr := dvd_lowAddr (k := 12) (by omega) hal
  have hat : ph.SmallAt levels (lowAddr levels addr) := ⟨addr, hal, hpart, rfl⟩
  rw [← mapSmall_lowAddr hs.depth] at hrun
  generalize lowAddr levels addr = x at hx hxal hat hrun
  have hup := h.loading.mapSmall_upper hs hx hrun
  cases b with
  | false =>
    rcases mapSmall_cases hrun with ⟨-, rfl⟩ | ⟨hb, -⟩
    · exact h.of_calls rfl (Nat.le_succ _) le_rfl
    · exact absurd hb (by simp)
  | true =>
    obtain ⟨hload, hsmall⟩ := h.loading.mapSmall hs hx hxal hflags hrun
    refine h.of_keeps hs hload hup hsmall.keeps (fun y hy hne => ?_)
      fun y hy hyal hno hne hnone => ?_
    · by_cases hpage : y / pageSize = x / pageSize
      · refine .inr ⟨ph, by simp, .inl ?_⟩
        rwa [alignDown, hpage, Nat.div_mul_cancel hxal]
      · exact .inl (hsmall.off y hy hpage ▸ hne)
    -- a page that has just been mapped is the one visited, and no 2 MiB loop visited it before
    have hpage : y / pageSize = x / pageSize := by
      by_contra hoff
      exact hne (by rw [hsmall.off y hy hoff, hnone])
    have hyx : y = x := by
      obtain ⟨q, rfl⟩ := pageSize_dvd_pageSize2mb.trans hyal
      obtain ⟨r, rfl⟩ := hxal
      simp only [pageSize] at *
      omega
    subst hyx
    exact hno (smallFirst_append_singleton (fun p hp hat' => h.mapped p hp y hy hat' hnone) hat)

/-- Mapping a 2 MiB page that is mapped already, in one block. -/
lemma Sheltered.remapHuge (h : Sheltered pages pages2mb levels top s₀ painted finished s)
    (hs : LoadSetting pages pages2mb levels top inUse s₀) {x flags : ℕ} (hx : x < lowerHalf levels)
    (hflags : SegmentFlags flags) {a : Mapping} (ha : lookup levels top s.mem x = some a)
    (hdvd : pageSize2mb ∣ a.phys) (hall : ∀ v, v / pageSize2mb = x / pageSize2mb →
      ∃ b, lookup levels top s.mem v = some b ∧ b.phys = a.phys + v % pageSize2mb)
    (hrun : Cuore.mapHuge pages pages2mb levels top flags x s = some (b, s')) :
    Sheltered pages pages2mb levels top s₀ painted finished s' := by
  have hup := h.loading.mapHuge_upper hs hx hrun
  have hlt := h.loading.phys_lt hs.fresh hx ha
  obtain ⟨g, hg, hcase⟩ := h.loading.getPhys hs hx
  obtain ⟨hnone, -⟩ | ⟨a', ha', hg0, hphys⟩ := hcase
  · rw [ha] at hnone
    exact absurd hnone (by simp)
  obtain rfl := Option.some.inj (ha.symm.trans ha')
  have hphys' : g = a.phys ∨ g = a.phys + 2 ^ 63 := hphys.imp_right And.left
  -- the frame rounded down is the block itself
  have hbase : g &&& wnot (pageSize2mb - 1) = g := by
    have hdvd' : 2 ^ 21 ∣ g := by
      rcases hphys' with rfl | rfl
      · exact hdvd
      · exact Nat.dvd_add hdvd (by decide)
    rw [show pageSize2mb = 2 ^ 21 from rfl, and_wnot_pred (by decide), alignDown,
      Nat.div_mul_cancel hdvd']
    simp only [physLimit, word] at *
    omega
  obtain ⟨f, hf, hfs, -⟩ := h.loading.existingFlags hs hx hflags ha
  obtain ⟨s'', hmap, hload, -, hkeep, hback⟩ := h.loading.remap hs .page2mb hx hdvd hlt hall hphys'
    (hfs.combine flags)
  simp only [pagingMapNoflush] at hmap
  simp only [Cuore.mapHuge, hg, Option.bind_eq_bind, Option.bind_some, if_neg hg0, hbase, hf, hmap,
    Option.some.injEq, Prod.mk.injEq] at hrun
  obtain ⟨-, rfl⟩ := hrun
  exact h.of_keeps hs hload hup hkeep (fun y hy hne => .inl (hback y hy hne))
    fun y hy _ _ => hback y hy

/-- **A round of the 2 MiB loop**, if the page was not first mapped by a 4 KiB loop. -/
lemma Sheltered.mapHuge (h : Sheltered pages pages2mb levels top s₀ painted finished s)
    (hs : LoadSetting pages pages2mb levels top inUse s₀) {addr flags : ℕ}
    (hal : pageSize2mb ∣ addr)
    (hidx : pageIndex addr (levels - 1) < 256)
    (hat : ∃ p ∈ painted, p.HugeAt levels (lowAddr levels addr))
    (hblock : ¬SmallFirst levels painted (lowAddr levels addr)) (hflags : SegmentFlags flags)
    (hrun : Cuore.mapHuge pages pages2mb levels top flags addr s = some (b, s')) :
    Sheltered pages pages2mb levels top s₀ painted finished s' := by
  have hx := (lowAddr_lt_lowerHalf_iff hs.depth addr).mpr hidx
  have hxal : pageSize2mb ∣ lowAddr levels addr :=
    dvd_lowAddr (k := 21) (by have := hs.depth; omega) hal
  rw [← mapHuge_lowAddr hs.depth] at hrun
  generalize lowAddr levels addr = x at hx hxal hat hblock hrun
  cases ha : lookup levels top s.mem x with
  | some a =>
    obtain ⟨hdvd, hall⟩ := h.block x hx hxal hblock a ha
    exact h.remapHuge hs hx hflags ha hdvd hall hrun
  | none =>
    have hup := h.loading.mapHuge_upper hs hx hrun
    cases b with
    | false =>
      rcases mapHuge_cases hrun with ⟨-, rfl⟩ | ⟨hb, -⟩
      · exact h.of_calls rfl le_rfl (Nat.le_succ _)
      · exact absurd hb (by simp)
    | true =>
      obtain ⟨hload, hfresh, p, hp, hplace⟩ := h.loading.mapHuge hs hx hxal hflags ha hrun
      have hoff : ∀ v < lowerHalf levels, v / pageSize2mb ≠ x / pageSize2mb →
          lookup levels top s'.mem v = lookup levels top s.mem v := hfresh.off
      refine ⟨hload, h.upper.trans hup, fun y hy hne => ?_, fun y hy hyal hno a' ha' => ?_,
        fun q hq y hy hat => ?_⟩
      · by_cases hyx : y / pageSize2mb = x / pageSize2mb
        · obtain ⟨q, hq, hat⟩ := hat
          refine ⟨q, hq, .inr ?_⟩
          rwa [alignDown, hyx, Nat.div_mul_cancel hxal]
        · exact h.visited y hy (hoff y hy hyx ▸ hne)
      · by_cases hyx : y / pageSize2mb = x / pageSize2mb
        · -- the page is new, in the block that has been handed out for it
          have hy0 : y % pageSize2mb = 0 := Nat.mod_eq_zero_of_dvd hyal
          have heq : y = x := by
            rw [← Nat.div_mul_cancel hyal, hyx, Nat.div_mul_cancel hxal]
          subst heq
          rcases hplace with hsame | hnew
          · rw [hsame y hy, ha] at ha'
            exact absurd ha' (by simp)
          · have hphys : a'.phys = p := by
              rw [hnew y hy rfl, hy0] at ha'
              exact (Option.some.inj ha') ▸ rfl
            rw [hphys]
            exact ⟨hp, fun v hv => ⟨_, hnew v (lt_lowerHalf_of_block hs.depth hyal hy hv) hv, rfl⟩⟩
        · rw [hoff y hy hyx] at ha'
          obtain ⟨hdvd, hall⟩ := h.block y hy hyal hno a' ha'
          refine ⟨hdvd, fun v hv => ?_⟩
          rw [hoff v (lt_lowerHalf_of_block hs.depth hyal hy hv) (hv ▸ hyx)]
          exact hall v hv
      · by_cases hyx : y / pageSize2mb = x / pageSize2mb
        · rcases hplace with hsame | hnew
          · exact hsame y hy ▸ h.mapped q hq y hy hat
          · rw [hnew y hy hyx]
            simp
        · exact hoff y hy hyx ▸ h.mapped q hq y hy hat

/-- The three mapping loops of a segment. -/
lemma Sheltered.mapSegment (h : Sheltered pages pages2mb levels top s₀ (done ++ [ph]) done s)
    (hs : LoadSetting pages pages2mb levels top inUse s₀)
    (hsmall : ∀ v, pageSize ∣ v → ph.SmallPart v → pageIndex v (levels - 1) < 256)
    (hhuge : ∀ v, pageSize2mb ∣ v → ph.HugePart v → pageIndex v (levels - 1) < 256)
    (hblock : ∀ x, ph.HugeAt levels x → ¬SmallFirst levels (done ++ [ph]) x)
    (hrun : Cuore.mapSegment pages pages2mb levels top user ph s = some (b, s')) :
    Sheltered pages pages2mb levels top s₀ (done ++ [ph]) done s' := by
  have hflags := segmentFlags_pteFlags user ph
  have dmin : pageSize ∣ min ph.hugeStart ph.segEnd := by
    rcases min_choice ph.hugeStart ph.segEnd with hm | hm <;> rw [hm]
    · exact pageSize_dvd_pageSize2mb.trans ph.hugeStart_dvd
    · exact ph.segEnd_dvd
  have hpart : ∀ addr, pageSize ∣ addr → ph.SmallPart addr →
      (Cuore.mapSmall pages levels top (ph.pteFlags user) addr).Keeps
        (Sheltered pages pages2mb levels top s₀ (done ++ [ph]) done) :=
    fun addr hal hpart s b s' h hrun => h.mapSmall hs hal hpart (hsmall addr hal hpart) hflags hrun
  refine Step.Keeps.seq ?_ (Step.Keeps.seq ?_ ?_) s b s' h hrun
  · exact Step.Keeps.forAddr ph.segStart_dvd dmin fun addr hal h1 h2 =>
      hpart addr hal (.inl ⟨h1, h2⟩)
  · exact Step.Keeps.forAddr ph.hugeStart_dvd ph.hugeEnd_dvd fun addr hal h1 h2 s b s' h hrun =>
      h.mapHuge hs hal (hhuge addr hal ⟨h1, h2⟩) ⟨ph, by simp, addr, hal, ⟨h1, h2⟩, rfl⟩
        (hblock _ ⟨addr, hal, ⟨h1, h2⟩, rfl⟩) hflags hrun
  · exact Step.Keeps.forAddr (pageSize_dvd_pageSize2mb.trans ph.hugeEnd_dvd) ph.segEnd_dvd
      fun addr hal h1 h2 => hpart addr hal (.inr ⟨h1, h2⟩)

/-! ## Filling -/

/-- The `size` bytes from `start` on are mapped, through the lower slots. -/
def RangeMapped (levels top : ℕ) (m : Memory) (start size : ℕ) : Prop :=
  ∀ j < size, pageIndex (wadd start j) (levels - 1) < 256 ∧
    lookup levels top m (lowAddr levels (wadd start j)) ≠ none

lemma RangeMapped.congr {m m' : Memory} {start size : ℕ} (hlev : levels = 4 ∨ levels = 5)
    (heq : ∀ v < lowerHalf levels, lookup levels top m' v = lookup levels top m v)
    (h : RangeMapped levels top m' start size) : RangeMapped levels top m start size := by
  intro j hj
  obtain ⟨hlow, hne⟩ := h j hj
  rw [heq _ ((lowAddr_lt_lowerHalf_iff hlev _).mpr hlow)] at hne
  exact ⟨hlow, hne⟩

lemma wadd_wadd (a n j : ℕ) : wadd (wadd a n) j = wadd a (n + j) := by
  simp only [wadd, Nat.mod_add_mod, Nat.add_assoc]

lemma RangeMapped.append {m : Memory} {start n k : ℕ} (h : RangeMapped levels top m start n)
    (h' : RangeMapped levels top m (wadd start n) k) : RangeMapped levels top m start (n + k) := by
  intro j hj
  by_cases hjn : j < n
  · exact h j hjn
  · have := h' (j - n) (by omega)
    rwa [wadd_wadd, show n + (j - n) = j by omega] at this

/-- A chunk is written to a frame of the lower half. -/
lemma Sheltered.writeChunk (h : Sheltered pages pages2mb levels top s₀ painted finished s)
    (hs : LoadSetting pages pages2mb levels top inUse s₀) {start size chunk g : ℕ} (m : Memory)
    (hlt : start < word) (hsize : size ≠ 0) (hidx : pageIndex start (levels - 1) < 256)
    (hchunk : chunk = if pageSize - (start &&& (pageSize - 1)) > size then size
      else pageSize - (start &&& (pageSize - 1)))
    (hg : pagingGetPhys s.mem levels top (start &&& wnot (pageSize - 1)) = some g) (hg0 : g ≠ 0)
    (hlim : g + (start &&& (pageSize - 1)) + chunk ≤ physLimit)
    (hout : ∀ x, x < g + (start &&& (pageSize - 1)) ∨ g + (start &&& (pageSize - 1)) + chunk ≤ x →
      m x = s.mem x) :
    Sheltered pages pages2mb levels top s₀ painted finished { s with mem := m } ∧
      (∀ v < lowerHalf levels, lookup levels top m v = lookup levels top s.mem v) ∧
      RangeMapped levels top s.mem start chunk := by
  obtain ⟨hal, hstart, hoff, hpos, -⟩ := chunk_bounds hlt hchunk hsize
  clear hchunk
  generalize (start &&& wnot (pageSize - 1)) = page at *
  generalize (start &&& (pageSize - 1)) = off at *
  have hqal : pageSize ∣ lowAddr levels page := dvd_lowAddr (k := 12) (by omega) hal
  have hq : lowAddr levels page < lowerHalf levels := by
    have hlow := (lowAddr_lt_lowerHalf_iff hs.depth start).mpr hidx
    rw [← hstart, lowAddr_add hal (by omega)] at hlow
    omega
  rw [← pagingGetPhys_lowAddr hs.depth] at hg
  obtain ⟨hload, hfill, a, ha, hch⟩ := h.loading.writeChunk hs (fun j => m (g + off + j)) m hq hqal
    hoff hg hg0 hlim (fun _ _ => rfl) hout
  refine ⟨h.of_lookup_eq hs hload (hch.upperKept hs.aligned.1 fun hmem => ?_) hfill.lookup_eq,
    hfill.lookup_eq, fun j hj => ?_⟩
  · refine (h.loading.frame _ hq a ha).2 ?_
    rw [← Set.mem_singleton_iff.mp hmem]
    exact self_mem_tables _ _ _ _
  · -- the byte lies in the page of the chunk, which does not wrap
    have hend : page + pageSize ≤ word := by
      obtain ⟨q, rfl⟩ := hal
      simp only [pageSize, word] at *
      omega
    have hbyte : wadd start j = page + (off + j) := by
      rw [wadd_of_lt (by omega)]
      omega
    have hlow : lowAddr levels page + (off + j) < lowerHalf levels := by
      obtain ⟨q, hq'⟩ : pageSize ∣ lowerHalf levels := by rcases hs.depth with rfl | rfl <;> decide
      obtain ⟨r, hr⟩ := hqal
      rw [hr, hq'] at hq ⊢
      simp only [pageSize] at *
      omega
    rw [hbyte, ← lowAddr_lt_lowerHalf_iff hs.depth, lowAddr_add hal (by omega),
      lookup_page_add hqal (by omega), ha]
    exact ⟨hlow, Option.some_ne_none _⟩

/-- The page of a chunk that has been written was visited. -/
lemma Sheltered.visitedAt_of_rangeMapped
    (h : Sheltered pages pages2mb levels top s₀ painted finished s)
    (hlev : levels = 4 ∨ levels = 5) {start n : ℕ} (hlt : start < word) (hn : 0 < n)
    (hmap : RangeMapped levels top s.mem start n) :
    VisitedAt levels painted (lowAddr levels start) := by
  obtain ⟨hlow, hne⟩ := hmap 0 hn
  rw [wadd_of_lt (by omega), Nat.add_zero] at hlow hne
  exact h.visited _ ((lowAddr_lt_lowerHalf_iff hlev _).mpr hlow) hne

/-- **The copy loop.** -/
lemma Sheltered.copyLoop (hs : LoadSetting pages pages2mb levels top inUse s₀)
    {fuel start src size : ℕ} (h : Sheltered pages pages2mb levels top s₀ painted finished s)
    (hfuel : size ≤ fuel) (hlt : start < word)
    (hsafe : FillSafe levels painted (copyChunks fuel start src size))
    (hrun : Cuore.copyLoop levels top file fuel start src size s = some (b, s')) :
    Sheltered pages pages2mb levels top s₀ painted finished s' ∧
      (∀ v < lowerHalf levels, lookup levels top s'.mem v = lookup levels top s.mem v) ∧
      (b = true → RangeMapped levels top s.mem start size ∧
        ∀ c ∈ copyChunks fuel start src size, c.Passes levels painted) := by
  induction fuel generalizing s start src size with
  | zero =>
    obtain rfl : size = 0 := by omega
    simp only [Cuore.copyLoop, Step.skip, Option.some.injEq, Prod.mk.injEq] at hrun
    obtain ⟨-, rfl⟩ := hrun
    exact ⟨h, fun _ _ => rfl, fun _ => ⟨fun j hj => absurd hj (Nat.not_lt_zero j),
      fun c hc => absurd hc List.not_mem_nil⟩⟩
  | succ fuel ih =>
    rw [Cuore.copyLoop] at hrun
    by_cases hsize : size = 0
    · simp only [if_pos hsize, Option.some.injEq, Prod.mk.injEq] at hrun
      obtain ⟨-, rfl⟩ := hrun
      refine ⟨h, fun _ _ => rfl, fun _ => ⟨fun j hj => absurd hj (by omega), fun c hc => ?_⟩⟩
      rw [copyChunks, if_pos hsize] at hc
      exact absurd hc List.not_mem_nil
    rw [copyChunks, if_neg hsize] at hsafe ⊢
    simp only [if_neg hsize, Option.bind_eq_bind, Option.bind_eq_some_iff] at hrun
    obtain ⟨g, hg, hrun⟩ := hrun
    dsimp only at hsafe ⊢
    generalize hchunk : (if pageSize - (start &&& (pageSize - 1)) > size then size
      else pageSize - (start &&& (pageSize - 1))) = chunk at hrun hsafe ⊢
    split_ifs at hrun with hg0 hbad
    · simp only [Option.some.injEq, Prod.mk.injEq] at hrun
      obtain ⟨rfl, rfl⟩ := hrun
      exact ⟨h, fun _ _ => rfl, fun hb => absurd hb (by simp)⟩
    obtain ⟨-, -, -, hpos, hle⟩ := chunk_bounds hlt hchunk.symm hsize
    simp only [not_or, not_lt, Bool.not_eq_true, Bool.not_eq_false'] at hbad
    obtain ⟨hsrc, hrange, hlim⟩ := hbad
    have hacc : FillChunk.Accepted ⟨start, some (src, chunk)⟩ := by
      rintro r hr
      obtain rfl := Option.some.inj hr
      exact ⟨hsrc, hrange⟩
    obtain ⟨hidx, hrest⟩ := hsafe hacc
    obtain ⟨h₁, heq₁, hmap₁⟩ := h.writeChunk hs (s.mem.copyFrom _ chunk file src) hlt hsize hidx
      hchunk.symm hg hg0 (by omega) fun x hx => Memory.copyFrom_of_outside (by omega)
    have hvisited := h.visitedAt_of_rangeMapped hs.depth hlt hpos hmap₁
    obtain ⟨h₂, heq₂, hmap₂⟩ := ih h₁ (by omega) (wadd_lt _ _) (hrest hvisited) hrun
    refine ⟨h₂, fun v hv => (heq₂ v hv).trans (heq₁ v hv), fun hb => ?_⟩
    obtain ⟨hrange₂, hpass⟩ := hmap₂ hb
    have hall := hmap₁.append (hrange₂.congr hs.depth heq₁)
    rw [show chunk + (size - chunk) = size by omega] at hall
    exact ⟨hall, List.forall_mem_cons.mpr ⟨⟨hacc, hvisited⟩, hpass⟩⟩

/-- **The zeroing loop.** -/
lemma Sheltered.bssLoop (hs : LoadSetting pages pages2mb levels top inUse s₀)
    {fuel start size : ℕ} (h : Sheltered pages pages2mb levels top s₀ painted finished s)
    (hfuel : size ≤ fuel) (hlt : start < word)
    (hsafe : FillSafe levels painted (bssChunks fuel start size))
    (hrun : Cuore.bssLoop levels top fuel start size s = some (b, s')) :
    Sheltered pages pages2mb levels top s₀ painted finished s' ∧
      (∀ v < lowerHalf levels, lookup levels top s'.mem v = lookup levels top s.mem v) ∧
      (b = true → RangeMapped levels top s.mem start size ∧
        ∀ c ∈ bssChunks fuel start size, c.Passes levels painted) := by
  induction fuel generalizing s start size with
  | zero =>
    obtain rfl : size = 0 := by omega
    simp only [Cuore.bssLoop, Step.skip, Option.some.injEq, Prod.mk.injEq] at hrun
    obtain ⟨-, rfl⟩ := hrun
    exact ⟨h, fun _ _ => rfl, fun _ => ⟨fun j hj => absurd hj (Nat.not_lt_zero j),
      fun c hc => absurd hc List.not_mem_nil⟩⟩
  | succ fuel ih =>
    rw [Cuore.bssLoop] at hrun
    by_cases hsize : size = 0
    · simp only [if_pos hsize, Option.some.injEq, Prod.mk.injEq] at hrun
      obtain ⟨-, rfl⟩ := hrun
      refine ⟨h, fun _ _ => rfl, fun _ => ⟨fun j hj => absurd hj (by omega), fun c hc => ?_⟩⟩
      rw [bssChunks, if_pos hsize] at hc
      exact absurd hc List.not_mem_nil
    rw [bssChunks, if_neg hsize] at hsafe ⊢
    simp only [if_neg hsize, Option.bind_eq_bind, Option.bind_eq_some_iff] at hrun
    obtain ⟨g, hg, hrun⟩ := hrun
    dsimp only at hsafe ⊢
    generalize hchunk : (if pageSize - (start &&& (pageSize - 1)) > size then size
      else pageSize - (start &&& (pageSize - 1))) = chunk at hrun hsafe ⊢
    split_ifs at hrun with hg0
    · simp only [Option.some.injEq, Prod.mk.injEq] at hrun
      obtain ⟨rfl, rfl⟩ := hrun
      exact ⟨h, fun _ _ => rfl, fun hb => absurd hb (by simp)⟩
    rw [Option.bind_eq_some_iff] at hrun
    obtain ⟨s₁, hzero, hrun⟩ := hrun
    rw [zeroPhys] at hzero
    split_ifs at hzero with hlim
    obtain rfl := Option.some.inj hzero
    obtain ⟨-, -, -, hpos, hle⟩ := chunk_bounds hlt hchunk.symm hsize
    have hacc : FillChunk.Accepted ⟨start, none⟩ := fun r hr => by cases hr
    obtain ⟨hidx, hrest⟩ := hsafe hacc
    obtain ⟨h₁, heq₁, hmap₁⟩ := h.writeChunk hs (s.mem.fill _ chunk 0) hlt hsize hidx
      hchunk.symm hg hg0 (by omega) fun x hx => Memory.fill_of_outside (by omega)
    have hvisited := h.visitedAt_of_rangeMapped hs.depth hlt hpos hmap₁
    obtain ⟨h₂, heq₂, hmap₂⟩ := ih h₁ (by omega) (wadd_lt _ _) (hrest hvisited) hrun
    refine ⟨h₂, fun v hv => (heq₂ v hv).trans (heq₁ v hv), fun hb => ?_⟩
    obtain ⟨hrange₂, hpass⟩ := hmap₂ hb
    have hall := hmap₁.append (hrange₂.congr hs.depth heq₁)
    rw [show chunk + (size - chunk) = size by omega] at hall
    exact ⟨hall, List.forall_mem_cons.mpr ⟨⟨hacc, hvisited⟩, hpass⟩⟩

/-- The copy and the zeroing behind it. -/
lemma Sheltered.fillSegment (h : Sheltered pages pages2mb levels top s₀ painted finished s)
    (hs : LoadSetting pages pages2mb levels top inUse s₀) (hlt : ph.pVaddr < word)
    (hsafe : FillSafe levels painted (ph.fillChunks fileData))
    (hrun : Cuore.fillSegment levels top file fileData ph s = some (b, s')) :
    Sheltered pages pages2mb levels top s₀ painted finished s' ∧
      (∀ v < lowerHalf levels, lookup levels top s'.mem v = lookup levels top s.mem v) ∧
      (b = true → RangeMapped levels top s.mem ph.pVaddr ph.pMemsz ∧
        ∀ c ∈ ph.fillChunks fileData, c.Passes levels painted) := by
  rw [Elf64Phdr.fillChunks] at hsafe ⊢
  rcases Step.seq_cases hrun with ⟨rfl, hcopy⟩ | ⟨s₁, hcopy, hbss⟩
  · obtain ⟨h₁, heq₁, -⟩ := h.copyLoop hs le_rfl hlt hsafe.of_append hcopy
    exact ⟨h₁, heq₁, fun hb => absurd hb (by simp)⟩
  obtain ⟨h₁, heq₁, hdone⟩ := h.copyLoop hs le_rfl hlt hsafe.of_append hcopy
  obtain ⟨hmap₁, hpass₁⟩ := hdone rfl
  have hrest := hsafe.rest hpass₁
  split_ifs at hbss hrest ⊢ with hbig
  · obtain ⟨h₂, heq₂, hdone₂⟩ := h₁.bssLoop hs le_rfl (wadd_lt _ _) hrest hbss
    refine ⟨h₂, fun v hv => (heq₂ v hv).trans (heq₁ v hv), fun hb => ?_⟩
    obtain ⟨hmap₂, hpass₂⟩ := hdone₂ hb
    have hall := hmap₁.append (hmap₂.congr hs.depth heq₁)
    rw [show ph.pFilesz + (ph.pMemsz - ph.pFilesz) = ph.pMemsz by omega] at hall
    exact ⟨hall, List.forall_mem_append.mpr ⟨hpass₁, hpass₂⟩⟩
  · simp only [Step.skip, Option.some.injEq, Prod.mk.injEq] at hbss
    obtain ⟨-, rfl⟩ := hbss
    rw [List.append_nil]
    exact ⟨h₁, heq₁, fun _ => ⟨fun j hj => hmap₁ j (by omega), hpass₁⟩⟩

/-! ## The program header loop -/

/-- An address that is reached through the lower slots is not at the end of the address space. -/
lemma add_lowerHalf_le (hlev : levels = 4 ∨ levels = 5) {x : ℕ} (hx : x < word)
    (h : pageIndex x (levels - 1) < 256) : x + lowerHalf levels ≤ word := by
  rw [pageIndex_eq] at h
  simp only [word] at hx ⊢
  rcases hlev with rfl | rfl <;> simp only [lowerHalf] <;> omega

/-- The first page of every 2 MiB page that is visited holds a byte of the segment. -/
lemma Elf64Phdr.exists_byte_of_hugePart (hlev : levels = 4 ∨ levels = 5) (hvaddr : ph.pVaddr < word)
    (hhuge : ∀ v, pageSize2mb ∣ v → ph.HugePart v → pageIndex v (levels - 1) < 256)
    (hlow : ∀ j < ph.pMemsz, pageIndex (wadd ph.pVaddr j) (levels - 1) < 256) {v : ℕ}
    (hv : pageSize2mb ∣ v) (hpart : ph.HugePart v) :
    ∃ j < ph.pMemsz, wadd ph.pVaddr j / pageSize = v / pageSize := by
  obtain ⟨h1, h2⟩ := hpart
  have hH : 2 ^ 47 ≤ lowerHalf levels ∧ lowerHalf levels ≤ 2 ^ 56 ∧ pageSize2mb ∣ lowerHalf levels ∧
      ¬pageIndex (lowerHalf levels) (levels - 1) < 256 := by
    rcases hlev with rfl | rfl <;> decide
  obtain ⟨hH1, hH2, hH3, hH4⟩ := hH
  have hstart : ph.segStart = alignDown (2 ^ 12) ph.pVaddr :=
    and_wnot_pred (k := 12) (by decide) hvaddr
  have hend : ph.segEnd = alignDown (2 ^ 12) ((ph.pVaddr + ph.pMemsz + 4095) % word) := by
    have hsum : wsub (wadd (wadd ph.pVaddr ph.pMemsz) pageSize) 1 =
        (ph.pVaddr + ph.pMemsz + 4095) % word := by
      simp only [wsub, wadd, pageSize, word]
      omega
    rw [segEnd, hsum]
    exact and_wnot_pred (k := 12) (by decide) (Nat.mod_lt _ (by decide))
  have hhs : ph.hugeStart = alignDown (2 ^ 21) ((ph.segStart + 0x1FFFFF) % word) := by
    have hsum : wsub (wadd ph.segStart pageSize2mb) 1 = (ph.segStart + 0x1FFFFF) % word := by
      simp only [wsub, wadd, pageSize2mb, word]
      omega
    rw [hugeStart, hsum]
    exact and_wnot_pred (k := 21) (by decide) (Nat.mod_lt _ (by decide))
  have hhe : ph.hugeEnd = alignDown (2 ^ 21) ph.segEnd := by
    refine and_wnot_pred (k := 21) (by decide) ?_
    rw [hend]
    exact lt_of_le_of_lt (alignDown_le _ _) (Nat.mod_lt _ (by decide))
  rw [alignDown] at hstart hend hhs hhe
  -- the segment does not wrap around the end of the address space
  have hwrap : 0 < ph.pMemsz → ph.pVaddr + ph.pMemsz + lowerHalf levels ≤ word + 1 := by
    intro hpos
    have hmin := hlow (min (ph.pMemsz - 1) (word - 1 - ph.pVaddr)) (by omega)
    rw [wadd_of_lt (by omega)] at hmin
    have := add_lowerHalf_le hlev (by omega) hmin
    omega
  have hword : word = 2 ^ 64 := rfl
  by_cases hpos : 0 < ph.pMemsz
  · have hle := hwrap hpos
    rw [Nat.mod_eq_of_lt (by omega)] at hend hhs
    obtain ⟨k, rfl⟩ := hv
    simp only [pageSize2mb, pageSize] at *
    by_cases hbyte : ph.pVaddr ≤ 0x200000 * k
    · refine ⟨0x200000 * k - ph.pVaddr, by omega, ?_⟩
      rw [wadd_of_lt (by omega)]
      congr 1
      omega
    · refine ⟨0, hpos, ?_⟩
      rw [wadd_of_lt (by omega)]
      omega
  · -- an empty segment has no 2 MiB page, unless the loop starts over at zero
    exfalso
    obtain ⟨k, rfl⟩ := hv
    obtain ⟨q, hq⟩ := hH3
    have hover : ¬(ph.hugeStart = 0 ∧ lowerHalf levels < ph.hugeEnd) := fun h =>
      hH4 (hhuge _ ⟨q, hq⟩ ⟨by omega, h.2⟩)
    clear hwrap hlow hhuge
    simp only [pageSize2mb, word] at *
    omega

/-- A segment that has been filled has its 2 MiB pages mapped. -/
lemma Sheltered.finish (h : Sheltered pages pages2mb levels top s₀ painted done s)
    (hs : LoadSetting pages pages2mb levels top inUse s₀) (hvaddr : ph.pVaddr < word)
    (hhuge : ∀ v, pageSize2mb ∣ v → ph.HugePart v → pageIndex v (levels - 1) < 256)
    (hmapped : RangeMapped levels top s.mem ph.pVaddr ph.pMemsz) :
    Sheltered pages pages2mb levels top s₀ painted (done ++ [ph]) s := by
  refine ⟨h.loading, h.upper, h.visited, h.block, fun p hp x hx hat => ?_⟩
  rcases List.mem_append.mp hp with hp | hp
  · exact h.mapped p hp x hx hat
  obtain rfl := List.mem_singleton.mp hp
  obtain ⟨v, hv, hpart, rfl⟩ := hat
  obtain ⟨j, hj, hpage⟩ := Elf64Phdr.exists_byte_of_hugePart hs.depth hvaddr hhuge
    (fun j hj => (hmapped j hj).1) hv hpart
  have hval := pageSize_dvd_pageSize2mb.trans hv
  have hlowal : pageSize ∣ lowAddr levels v := dvd_lowAddr (k := 12) (by omega) hval
  obtain ⟨d, hd, hbyte⟩ : ∃ d < pageSize, wadd p.pVaddr j = v + d := by
    have := (div_eq_div_iff_of_dvd (by decide) hval).mp hpage
    exact ⟨wadd p.pVaddr j - v, by omega, by omega⟩
  have hmap := (hmapped j hj).2
  intro hnone
  apply hmap
  rw [hbyte, lowAddr_add hval hd, lookup_page_add hlowal hd, hnone]
  rfl

/-- **The program header loop**, however it ends. -/
lemma Sheltered.run (hs : LoadSetting pages pages2mb levels top inUse s₀)
    (h : Sheltered pages pages2mb levels top s₀ done done s)
    (hvaddr : ∀ ph ∈ phs, ph.pVaddr < word)
    (hsafe : KernelSafe levels fileData fileSize done phs)
    (hrun : loadSegments pages pages2mb levels top file fileData fileSize user phs s = some (b,
      s')) :
    Loading pages pages2mb levels top s₀ s' ∧ UpperKept top s₀.mem s'.mem := by
  induction phs generalizing done s with
  | nil =>
    simp only [loadSegments, Step.skip, Option.some.injEq, Prod.mk.injEq] at hrun
    exact hrun.2 ▸ ⟨h.loading, h.upper⟩
  | cons ph phs ih =>
    have hvaddr' : ∀ p ∈ phs, p.pVaddr < word := fun p hp => hvaddr p (List.mem_cons_of_mem ph hp)
    rw [loadSegments, loadSegment] at hrun
    rw [KernelSafe] at hsafe
    by_cases htype : ph.pType = ptLoad
    swap
    · -- a header of another type
      rw [if_pos htype] at hrun hsafe
      rcases Step.seq_cases hrun with ⟨-, hret⟩ | ⟨s₁, hgo, hrest⟩
      · simp [Step.skip] at hret
      · simp only [Step.skip, Option.some.injEq, Prod.mk.injEq, true_and] at hgo
        subst hgo
        exact ih h hvaddr' hsafe hrest
    rw [if_neg (not_not.mpr htype)] at hrun hsafe
    by_cases hfits : wadd ph.pOffset ph.pFilesz > fileSize
    · -- a segment that is not in the file
      rw [if_pos hfits] at hrun
      rcases Step.seq_cases hrun with ⟨-, hret⟩ | ⟨s₁, hgo, -⟩
      · simp only [Step.ret, Option.some.injEq, Prod.mk.injEq, true_and] at hret
        exact hret ▸ ⟨h.loading, h.upper⟩
      · simp [Step.ret] at hgo
    rw [if_neg hfits] at hrun hsafe
    obtain ⟨hsegment, hrestSafe⟩ := hsafe
    have hlt := hvaddr ph (by simp)
    have hmap : ∀ b s₁, Cuore.mapSegment pages pages2mb levels top user ph s = some (b, s₁) →
        Sheltered pages pages2mb levels top s₀ (done ++ [ph]) done s₁ := fun b s₁ =>
      (h.paint [ph]).mapSegment hs hsegment.small hsegment.huge hsegment.block
    rcases Step.seq_cases hrun with ⟨-, hret⟩ | ⟨s₁, hgo, hrest⟩
    · rcases Step.seq_cases hret with ⟨-, hret⟩ | ⟨s₂, hgo, hret⟩
      · exact ⟨(hmap _ _ hret).loading, (hmap _ _ hret).upper⟩
      · obtain ⟨h₁, -, -⟩ := (hmap _ _ hgo).fillSegment hs hlt hsegment.filled hret
        exact ⟨h₁.loading, h₁.upper⟩
    · obtain ⟨s₂, hmapRun, hfillRun⟩ := Step.seq_eq_some hgo
      obtain ⟨h₁, heq, hdone⟩ := (hmap _ _ hmapRun).fillSegment hs hlt hsegment.filled hfillRun
      obtain ⟨hbytes, hpass⟩ := hdone rfl
      have hfinished := h₁.finish hs hlt hsegment.huge
        (hbytes.congr hs.depth fun v hv => (heq v hv).symm)
      exact ih hfinished hvaddr' (hrestSafe hpass) hrest

/-! ## The two tables -/

/-- **The file stays in the lower half**, if the checks of its header do not fail. -/
def KernelSafeFile (levels : ℕ) (file : Memory) (fileData fileSize : ℕ) : Prop :=
  let eh := readEhdr file fileData
  fileData = 0 ∨ !eh.identOk ∨ wadd eh.ePhoff (eh.ePhnum * eh.ePhentsize) > fileSize ∨
    eh.eType ≠ 2 ∧ eh.eType ≠ 3 ∨
      KernelSafe levels fileData fileSize [] (programHeaders file fileData)

lemma programHeaders_pVaddr_lt : ∀ ph ∈ programHeaders file fileData, ph.pVaddr < word := by
  intro ph hph
  obtain ⟨i, -, rfl⟩ := List.mem_map.mp hph
  exact Memory.load_lt _ _ 8

/-- `elf64_parse` on an empty lower half, with any outcome. -/
lemma elf64Parse_sheltered (hs : LoadSetting pages pages2mb levels top inUse s)
    (hempty : ∀ i < 256, (readEntry s.mem top i).testBit 0 = false)
    (hsafe : KernelSafeFile levels file fileData fileSize) {ret : Elf64ParserRet}
    (hrun : elf64Parse pages pages2mb levels file fileData fileSize top user s = some (ret, s')) :
    Loading pages pages2mb levels top s s' ∧ UpperKept top s.mem s'.mem := by
  obtain ⟨hload, hstart⟩ := loading_start hs hempty
  have h0 : Sheltered pages pages2mb levels top s [] [] s := by
    refine ⟨hload, UpperKept.refl _ _, fun x hx hne => absurd (hstart x hx).1 hne,
      fun x hx _ _ a ha => ?_, fun p hp => absurd hp (by simp)⟩
    rw [(hstart x hx).1] at ha
    exact absurd ha (by simp)
  have hstop : ∀ r : Elf64ParserRet, some (r, s) = some (ret, s') →
      Loading pages pages2mb levels top s s' ∧ UpperKept top s.mem s'.mem := by
    intro r hr
    simp only [Option.some.injEq, Prod.mk.injEq] at hr
    exact hr.2 ▸ ⟨hload, UpperKept.refl _ _⟩
  simp only [elf64Parse] at hrun
  split_ifs at hrun with hnull hident hphdrs htype
  · exact hstop _ hrun
  · exact hstop _ hrun
  · exact hstop _ hrun
  · exact hstop _ hrun
  replace hsafe : KernelSafe levels fileData fileSize [] (programHeaders file fileData) := by
    simp only [KernelSafeFile] at hsafe
    tauto
  split at hrun
  · simp at hrun
  · rename_i s'' hsegs
    simp only [Option.some.injEq, Prod.mk.injEq] at hrun
    exact hrun.2 ▸ h0.run hs programHeaders_pVaddr_lt hsafe hsegs
  · rename_i s'' hsegs
    simp only [Option.some.injEq, Prod.mk.injEq] at hrun
    exact hrun.2 ▸ h0.run hs programHeaders_pVaddr_lt hsafe hsegs

/-- The leaf entry that the page walk for `v` ends at, with its level. -/
def hwLeaf (m : Memory) (v : ℕ) : ℕ → ℕ → Option (ℕ × ℕ)
  | 0, t =>
    let e := readEntry m t (pageIndex v 0)
    if e.testBit 0 then some (0, e) else none
  | l + 1, t =>
    let e := readEntry m t (pageIndex v (l + 1))
    if e.testBit 0 then
      if e.testBit 7 then
        if l + 1 ≤ 2 then some (l + 1, e) else none
      else hwLeaf m v l (hwAddr e)
    else none

/-- The leaf entry decides the mapping. -/
lemma hwWalk_eq_map_hwLeaf (m : Memory) (v l t : ℕ) :
    hwWalk m v l t = (hwLeaf m v l t).map fun r => leafMapping r.2 r.1 v := by
  induction l generalizing t with
  | zero =>
    rw [hwWalk, hwLeaf]
    split_ifs <;> rfl
  | succ l ih =>
    rw [hwWalk, hwLeaf]
    simp only [ih]
    split_ifs <;> rfl

lemma Agree.hwLeaf_eq {m m' : Memory} {n l t : ℕ} (h : Agree m m' n l t) {v : ℕ}
    (hv : pageIndex v l < n) : hwLeaf m' v l t = hwLeaf m v l t := by
  induction l generalizing n t with
  | zero => simp only [hwLeaf, h.self (pageIndex_lt v 0)]
  | succ l ih =>
    simp only [hwLeaf, h.self (pageIndex_lt v (l + 1))]
    split_ifs with h0 h7
    · rfl
    · rfl
    · exact ih (h.child hv ⟨h0, by simpa using h7⟩) (pageIndex_lt v l)
    · rfl

/-- Every address of the higher half has the same translation and the same leaf entry. -/
def HigherHalfKept (levels top : ℕ) (m m' : Memory) : Prop :=
  ∀ v, Canonical levels v → lowerHalf levels ≤ v →
    translate m' levels top v = translate m levels top v ∧
      hwLeaf m' v (levels - 1) top = hwLeaf m v (levels - 1) top

/-- The kernel's table, with all tables below it in use. -/
structure KernelTable (levels kernel : ℕ) (inUse : Set ℕ) (m : Memory) : Prop where
  aligned : pageSize ∣ kernel ∧ kernel < physLimit
  tables_inUse : tables m 512 (levels - 1) kernel ⊆ inUse

lemma pageIndex_of_higher (hlev : levels = 4 ∨ levels = 5) {v : ℕ} (hv : Canonical levels v)
    (hhigh : lowerHalf levels ≤ v) : 256 ≤ pageIndex v (levels - 1) := by
  obtain ⟨hlt, hsign⟩ := hv
  rw [pageIndex_eq]
  rcases hlev with rfl | rfl <;> simp only [lowerHalf, word] at * <;> omega

/-- Two top tables with the same entry for `v` have the same walk. -/
lemma hwLeaf_eq_of_entry_eq {m : Memory} {v l t k : ℕ}
    (h : readEntry m t (pageIndex v (l + 1)) = readEntry m k (pageIndex v (l + 1))) :
    hwLeaf m v (l + 1) t = hwLeaf m v (l + 1) k := by
  simp only [hwLeaf, h]

/-- It is enough that the leaf entries are the same. -/
lemma higherHalfKept_of_hwLeaf {m m' : Memory} (h : ∀ v, Canonical levels v → lowerHalf levels ≤ v →
    hwLeaf m' v (levels - 1) top = hwLeaf m v (levels - 1) top) :
    HigherHalfKept levels top m m' := by
  intro v hv hhigh
  refine ⟨?_, h v hv hhigh⟩
  rw [translate, translate, hwWalk_eq_map_hwLeaf, hwWalk_eq_map_hwLeaf, h v hv hhigh]

/-- What the call of `elf64_parse` does to the kernel's tables and to the upper slots of the new top
table. -/
lemma Cloned.parse (hc : Cloned pages top kernel s s₁) (hlev : levels = 4 ∨ levels = 5)
    (hfresh : FreshMemory pages pages2mb inUse s) (hkernel : KernelTable levels kernel inUse s.mem)
    (hsafe : KernelSafeFile levels file fileData fileSize) {ret : Elf64ParserRet}
    (hrun : elf64Parse pages pages2mb levels file fileData fileSize top user s₁ = some (ret, s')) :
    Agree s.mem s₁.mem 512 (levels - 1) kernel ∧ Agree s₁.mem s'.mem 512 (levels - 1) kernel ∧
      UpperKept top s₁.mem s'.mem := by
  have hs := hc.setting hlev hfresh
  have htop : top ∉ inUse := by
    rw [hc.top_eq.1]
    exact hfresh.unused s.calls le_rfl (hc.top_eq.1 ▸ hc.top_eq.2)
  obtain ⟨hload, hup⟩ := elf64Parse_sheltered hs (fun i hi => by rw [hc.lower i hi]; rfl) hsafe hrun
  -- the kernel's tables are neither the new top table nor pages handed out since
  have hbefore : Agree s.mem s₁.mem 512 (levels - 1) kernel := hc.changed.agree hkernel.aligned
    fun x hx hmem => htop (Set.mem_singleton_iff.mp hmem ▸ hkernel.tables_inUse hx)
  refine ⟨hbefore, hload.changed.agree hkernel.aligned fun x hx hmem => ?_, hup⟩
  rw [hbefore.tables_eq le_rfl] at hx
  rcases hmem with hmem | hmem
  · exact htop (Set.mem_singleton_iff.mp hmem ▸ hkernel.tables_inUse hx)
  · exact (hs.fresh.given_unused hmem).1 (Set.mem_insert_of_mem _ (hkernel.tables_inUse hx))

/-- `elf64_alloc` as a whole changes no leaf entry of the kernel's table, in either half. -/
lemma elf64Alloc_keeps_kernel (hlev : levels = 4 ∨ levels = 5)
    (hfresh : FreshMemory pages pages2mb inUse s) (hkernel : KernelTable levels kernel inUse s.mem)
    (hsafe : KernelSafeFile levels file fileData fileSize) {task : Option (ℕ × ℕ)}
    (hrun : elf64Alloc pages pages2mb levels file fileData fileSize kernel s = some (task, s'))
    (v : ℕ) : hwLeaf s'.mem v (levels - 1) kernel = hwLeaf s.mem v (levels - 1) kernel := by
  have hk := hkernel.tables_inUse (self_mem_tables _ _ _ _)
  rw [elf64Alloc] at hrun
  split at hrun
  · simp at hrun
  · rename_i s₁ hclone
    simp only [Option.some.injEq, Prod.mk.injEq] at hrun
    -- without a page for the top table nothing happens
    rw [cloneHigherHalf] at hclone
    split_ifs at hclone
    · simp only [Option.some.injEq, Prod.mk.injEq, true_and] at hclone
      rw [← hrun.2, ← hclone]
    · simp at hclone
  · rename_i top s₁ hclone
    split at hrun
    · simp at hrun
    · rename_i ret s₂ hparse
      simp only [Option.some.injEq, Prod.mk.injEq] at hrun
      obtain ⟨-, rfl⟩ := hrun
      have hc := cloneHigherHalf_spec hfresh hkernel.aligned.1 hk hclone
      obtain ⟨hbefore, hafter, -⟩ := hc.parse hlev hfresh hkernel hsafe hparse
      rw [hafter.hwLeaf_eq (pageIndex_lt v _), hbefore.hwLeaf_eq (pageIndex_lt v _)]

/-- **Loading an image that stays in the lower half keeps the kernel half.**  For every file that is
`KernelSafeFile`, on the table that `elf64_alloc` has prepared, with any answers of the page
allocator: whether `elf64_parse` succeeds or fails, every address of the higher half has the same
translation and the same leaf entry after the call as before it, in the kernel's table and in the
table of the process. -/
theorem elf64Parse_keeps_kernel_half (hlev : levels = 4 ∨ levels = 5)
    (hfresh : FreshMemory pages pages2mb inUse s) (hkernel : KernelTable levels kernel inUse s.mem)
    (hclone : cloneHigherHalf pages kernel s = some (some top, s₁))
    (hsafe : KernelSafeFile levels file fileData fileSize) {ret : Elf64ParserRet}
    (hrun : elf64Parse pages pages2mb levels file fileData fileSize top false s₁ = some (ret, s')) :
    HigherHalfKept levels kernel s₁.mem s'.mem ∧ HigherHalfKept levels top s₁.mem s'.mem := by
  have hk := hkernel.tables_inUse (self_mem_tables _ _ _ _)
  have hc := cloneHigherHalf_spec hfresh hkernel.aligned.1 hk hclone
  obtain ⟨hbefore, hafter, hup⟩ := hc.parse hlev hfresh hkernel hsafe hrun
  obtain ⟨l, hl⟩ : ∃ l, levels - 1 = l + 1 := ⟨levels - 2, by omega⟩
  refine ⟨higherHalfKept_of_hwLeaf fun v _ _ => hafter.hwLeaf_eq (pageIndex_lt v _),
    higherHalfKept_of_hwLeaf fun v hv hhigh => ?_⟩
  -- in the higher half, the process's table is the kernel's, before and after
  have hidx := pageIndex_of_higher hlev hv hhigh
  have hlt := pageIndex_lt v (levels - 1)
  have hcopy : readEntry s₁.mem top (pageIndex v (levels - 1)) =
      readEntry s₁.mem kernel (pageIndex v (levels - 1)) := by
    rw [hc.upper _ hidx hlt, hbefore.self hlt]
  have hcopy' : readEntry s'.mem top (pageIndex v (levels - 1)) =
      readEntry s'.mem kernel (pageIndex v (levels - 1)) := by
    rw [hup _ hidx hlt, hcopy, hafter.self hlt]
  have hsame := hafter.hwLeaf_eq (v := v) hlt
  rw [hl] at hcopy hcopy' hsame ⊢
  rw [hwLeaf_eq_of_entry_eq hcopy', hwLeaf_eq_of_entry_eq hcopy, hsame]

/-- A kernel whose table at `0x1000` has one table below it, for the start of the higher half. -/
def smallKernel : PhysState := ⟨writeEntry (fun _ => 0) 0x1000 256 0x2003, 0, 0⟩

/-- The pages that are free. -/
def kernelPages (k : ℕ) : ℕ := [0x3000, 0x4000, 0x5000, 0x6000, 0x7000, 0x8000].getD k 0

lemma smallKernel_fresh : FreshMemory kernelPages (fun _ => 0) {0x1000, 0x2000} smallKernel :=
  freshMemory_of_list (by decide) (by simp; decide) _

lemma smallKernel_table : KernelTable 4 0x1000 {0x1000, 0x2000} smallKernel.mem := by
  have hzero : ∀ i < 512, readEntry smallKernel.mem 0x2000 i = 0 := fun i hi => by
    rw [smallKernel, (changedOnly_writeEntry (by decide) (by decide)).readEntry_eq (by decide)
      (by simp) hi, readEntry_zero]
  have hother : ∀ i, i ≠ 256 → readEntry smallKernel.mem 0x1000 i = 0 := fun i hne => by
    rw [smallKernel, readEntry_writeEntry_of_index_ne (Ne.symm hne), readEntry_zero]
  have hself : readEntry smallKernel.mem 0x1000 256 = 0x2003 :=
    readEntry_writeEntry_self (by decide)
  have hchild : tables smallKernel.mem 512 2 0x2000 = {0x2000} :=
    (tables_eq_singleton (.inr fun i hi => by rw [hzero i hi]; decide)).1
  refine ⟨by decide, ?_⟩
  rintro x (hx | ⟨i, -, hpt, hx⟩)
  · exact .inl hx
  · by_cases hi : i = 256
    · rw [hi, hself, show hwAddr 0x2003 = 0x2000 by decide, hchild] at hx
      exact .inr hx
    · rw [hother i hi] at hpt
      exact absurd hpt (by decide)

/-- A file with one writable page at `vaddr`. -/
def onePageFile (vaddr : ℕ) : Memory := elfFile 0x10000 [⟨1, 6, 0, vaddr, 0, 0x10⟩]

lemma onePageFile_safe : KernelSafeFile 4 (onePageFile 0x400000) 0x10000 0x1000 := by
  have hsegs : programHeaders (onePageFile 0x400000) 0x10000 = [⟨1, 6, 0, 0x400000, 0, 0x10⟩] := by
    decide +kernel
  have hbounds : Elf64Phdr.segStart ⟨1, 6, 0, 0x400000, 0, 0x10⟩ = 0x400000 ∧
      Elf64Phdr.segEnd ⟨1, 6, 0, 0x400000, 0, 0x10⟩ = 0x401000 ∧
      Elf64Phdr.hugeStart ⟨1, 6, 0, 0x400000, 0, 0x10⟩ = 0x400000 ∧
      Elf64Phdr.hugeEnd ⟨1, 6, 0, 0x400000, 0, 0x10⟩ = 0x400000 := by decide
  obtain ⟨h1, h2, h3, h4⟩ := hbounds
  have hchunks : Elf64Phdr.fillChunks 0x10000 ⟨1, 6, 0, 0x400000, 0, 0x10⟩ =
      [⟨0x400000, none⟩] := by decide
  refine .inr (.inr (.inr (.inr ?_)))
  rw [hsegs, KernelSafe, if_neg (by decide), if_neg (by decide)]
  refine ⟨⟨fun v _ hv => ?_, fun v _ hv => ?_, ?_, ?_⟩, fun _ => trivial⟩
  · rw [Elf64Phdr.SmallPart, h1, h2, h3, h4] at hv
    rw [pageIndex_eq]
    omega
  · rw [Elf64Phdr.HugePart, h3, h4] at hv
    omega
  · rw [hchunks]
    exact fun _ => ⟨by decide, fun _ => trivial⟩
  · rintro x ⟨v, -, hv, -⟩
    rw [Elf64Phdr.HugePart, h3, h4] at hv
    omega

/-- A file in the lower half is loaded and the kernel half is as it was. -/
theorem onePageFile_keeps_kernel_half :
    ∃ s₁ ret s', cloneHigherHalf kernelPages 0x1000 smallKernel = some (some 0x3000, s₁) ∧
      elf64Parse kernelPages (fun _ => 0) 4 (onePageFile 0x400000) 0x10000 0x1000 0x3000 false s₁ =
        some (ret, s') ∧ ret.status = 1 ∧
      HigherHalfKept 4 0x1000 s₁.mem s'.mem ∧ HigherHalfKept 4 0x3000 s₁.mem s'.mem := by
  have hresult : ((cloneHigherHalf kernelPages 0x1000 smallKernel).bind fun r =>
      (elf64Parse kernelPages (fun _ => 0) 4 (onePageFile 0x400000) 0x10000 0x1000 0x3000 false
        r.2).map
        fun q => (r.1, q.1.status)) = some (some 0x3000, 1) := by decide +kernel
  obtain ⟨⟨t, s₁⟩, hclone, hresult⟩ := Option.bind_eq_some_iff.mp hresult
  obtain ⟨⟨ret, s'⟩, hrun, heq⟩ := Option.map_eq_some_iff.mp hresult
  obtain ⟨rfl, hstatus⟩ := Prod.mk.injEq _ _ _ _ ▸ heq
  exact ⟨s₁, ret, s', hclone, hrun, hstatus,
    elf64Parse_keeps_kernel_half (.inl rfl) smallKernel_fresh
    smallKernel_table hclone onePageFile_safe hrun⟩

/-- A file with its page at the start of the higher half is loaded too: the page is mapped in the
kernel's table as well as in the table of the process. -/
theorem onePageFile_touches_kernel_half :
    FreshMemory kernelPages (fun _ => 0) {0x1000, 0x2000} smallKernel ∧
      KernelTable 4 0x1000 {0x1000, 0x2000} smallKernel.mem ∧
      ∃ s₁ ret s', cloneHigherHalf kernelPages 0x1000 smallKernel = some (some 0x3000, s₁) ∧
        elf64Parse kernelPages (fun _ => 0) 4 (onePageFile 0xFFFF800000000000) 0x10000 0x1000 0x3000
          false s₁ = some (ret, s') ∧ ret.status = 1 ∧
        ¬HigherHalfKept 4 0x1000 s₁.mem s'.mem ∧ ¬HigherHalfKept 4 0x3000 s₁.mem s'.mem := by
  have hresult : ((cloneHigherHalf kernelPages 0x1000 smallKernel).bind fun r =>
      (elf64Parse kernelPages (fun _ => 0) 4 (onePageFile 0xFFFF800000000000) 0x10000 0x1000 0x3000
        false r.2).map fun q => (r.1, q.1.status,
          [translate r.2.mem 4 0x1000 0xFFFF800000000000,
            translate q.2.mem 4 0x1000 0xFFFF800000000000,
            translate r.2.mem 4 0x3000 0xFFFF800000000000,
            translate q.2.mem 4 0x3000 0xFFFF800000000000])) =
      some (some 0x3000, 1, [none, some 0x4000, none, some 0x4000]) := by decide +kernel
  obtain ⟨⟨t, s₁⟩, hclone, hresult⟩ := Option.bind_eq_some_iff.mp hresult
  obtain ⟨⟨ret, s'⟩, hrun, heq⟩ := Option.map_eq_some_iff.mp hresult
  simp only [Prod.mk.injEq, List.cons.injEq, and_true] at heq
  obtain ⟨rfl, hstatus, hk, hk', hp, hp'⟩ := heq
  refine ⟨smallKernel_fresh, smallKernel_table, s₁, ret, s', hclone, hrun, hstatus, fun hkept => ?_,
    fun hkept => ?_⟩
  · have := (hkept 0xFFFF800000000000 (by decide) (by decide)).1
    rw [hk, hk'] at this
    exact absurd this (by simp)
  · have := (hkept 0xFFFF800000000000 (by decide) (by decide)).1
    rw [hp, hp'] at this
    exact absurd this (by simp)

end Cuore
