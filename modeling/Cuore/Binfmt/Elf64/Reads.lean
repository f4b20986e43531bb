import Cuore.Binfmt.Elf64.Image

/-!
# What `elf64_parse` reads of its file

`elf64_parse` reads the fields of the ELF header before it compares anything with the size of the
file.  The two comparisons that follow are made on sums of fields that wrap, the distance of the
program headers is a field itself, and what is read of a header is not compared with that distance.

`elfReads` lists the reads of one call, with `copyReads` for the copy loop, which reads a page at a
time and only what `memcpy` lets pass.  How far a call gets depends on page tables and allocator
too; a file is safe if no call reads outside of it (`ReadsInside`).  `readsInside_iff` says which
files are.  That a file which is not can be read outside takes a call that gets as far as it can:
one where every address is mapped already (`AllMapped`).  What `elfReads` leaves out makes no
difference (`elf64Parse_congr`).
-/

namespace Cuore

/-! ## The reads -/

/-- `n` bytes at an address, as a read of the file at `fileData`, are inside of it. -/
def InFile (fileData fileSize : ℕ) (r : ℕ × ℕ) : Prop :=
  fileData ≤ r.1 ∧ r.1 + r.2 ≤ fileData + fileSize

instance (fileData fileSize : ℕ) (r : ℕ × ℕ) : Decidable (InFile fileData fileSize r) :=
  inferInstanceAs (Decidable (_ ∧ _))

/-- The bytes that `e_ident` is compared with. -/
def elfIdent : List ℕ := [0x7f, 0x45, 0x4c, 0x46, 2, 1]

/-- The comparisons of `e_ident`, up to the first that fails. -/
def identReads (file : Memory) : ℕ → List ℕ → List (ℕ × ℕ)
  | _, [] => []
  | a, c :: cs => (a, 1) :: if file.load a 1 = c then identReads file (a + 1) cs else []

/-- The chunks of the copy loop: one for each page of `copy_start` and on. -/
def dataChunks : ℕ → ℕ → ℕ → ℕ → List (ℕ × ℕ)
  | 0, _, _, _ => []
  | fuel + 1, copyStart, src, copySize =>
    if copySize = 0 then []
    else
      let off := copyStart &&& (pageSize - 1)
      let chunk := if pageSize - off > copySize then copySize else pageSize - off
      (src, chunk) :: dataChunks fuel (wadd copyStart chunk) (wadd src chunk) (copySize - chunk)

/-- The chunks of a segment. -/
def Elf64Phdr.chunks (fileData : ℕ) (ph : Elf64Phdr) : List (ℕ × ℕ) :=
  dataChunks ph.pFilesz ph.pVaddr (wadd fileData ph.pOffset) ph.pFilesz

/-- The segment is loaded: it is a `PT_LOAD` segment, and its size passes the check. -/
def Elf64Phdr.Loads (fileSize : ℕ) (ph : Elf64Phdr) : Prop :=
  ph.pType = ptLoad ∧ wadd ph.pOffset ph.pFilesz ≤ fileSize

instance (fileSize : ℕ) (ph : Elf64Phdr) : Decidable (ph.Loads fileSize) :=
  inferInstanceAs (Decidable (_ ∧ _))

/-- What one round of the program header loop reads of the header at `p`. -/
def phdrReads (fileSize p : ℕ) (ph : Elf64Phdr) : List (ℕ × ℕ) :=
  [(p, 4)] ++ (if ph.pType = ptLoad then [(p + 8, 8), (p + 32, 8)] else []) ++
    if ph.Loads fileSize then [(p + 16, 8), (p + 40, 8), (p + 4, 4)] else []

section Reads

variable (pages pages2mb : ℕ → ℕ) (levels top : ℕ)

/-- What `copyLoop` reads. -/
def copyReads (file : Memory) : ℕ → ℕ → ℕ → ℕ → PhysState → List (ℕ × ℕ)
  | 0, _, _, _, _ => []
  | fuel + 1, copyStart, src, copySize, s =>
    if copySize = 0 then []
    else
      let page := copyStart &&& wnot (pageSize - 1)
      let off := copyStart &&& (pageSize - 1)
      let chunk := if pageSize - off > copySize then copySize else pageSize - off
      match pagingGetPhys s.mem levels top page with
      | none => []
      | some phys =>
        if phys = 0 then []
        else if src = 0 ∨ !rangeIsSafe src chunk ∨ phys + off + chunk > physLimit then []
        else
          let m := s.mem.copyFrom (phys + off) chunk file src
          (src, chunk) :: copyReads file fuel (wadd copyStart chunk) (wadd src chunk)
            (copySize - chunk) { s with mem := m }

/-- What one round reads of the segment itself. -/
def dataReads (file : Memory) (fileData fileSize : ℕ) (user : Bool) (ph : Elf64Phdr)
    (s : PhysState) : List (ℕ × ℕ) :=
  if ph.Loads fileSize then
    match mapSegment pages pages2mb levels top user ph s with
    | some (true, s') =>
      copyReads levels top file ph.pFilesz ph.pVaddr (wadd fileData ph.pOffset) ph.pFilesz s'
    | _ => []
  else []

/-- What the program header loop reads, for headers at these addresses. -/
def segmentsReads (file : Memory) (fileData fileSize : ℕ) (user : Bool) :
    List ℕ → PhysState → List (ℕ × ℕ)
  | [], _ => []
  | p :: ps, s =>
    let ph := readPhdr file p
    phdrReads fileSize p ph ++
      dataReads pages pages2mb levels top file fileData fileSize user ph s ++
      match loadSegment pages pages2mb levels top file fileData fileSize user ph s with
      | some (true, s') => segmentsReads file fileData fileSize user ps s'
      | _ => []

/-- Where the program headers are. -/
def phdrAddrs (file : Memory) (fileData : ℕ) : List ℕ :=
  let eh := readEhdr file fileData
  (List.range eh.ePhnum).map fun i => wadd (wadd fileData eh.ePhoff) (i * eh.ePhentsize)

/-- What `elf64_parse` reads of the file. -/
def elfReads (file : Memory) (fileData fileSize : ℕ) (user : Bool) (s : PhysState) :
    List (ℕ × ℕ) :=
  if fileData = 0 then []
  else
    let eh := readEhdr file fileData
    identReads file fileData elfIdent ++
      (if eh.eIdent = elfIdent then [(fileData + 18, 2)] else []) ++
      if !eh.identOk then []
      else [(fileData + 32, 8), (fileData + 56, 2), (fileData + 54, 2)] ++
        if wadd eh.ePhoff (eh.ePhnum * eh.ePhentsize) > fileSize then []
        else (fileData + 16, 2) ::
          if eh.eType ≠ 2 ∧ eh.eType ≠ 3 then []
          else segmentsReads pages pages2mb levels top file fileData fileSize user
              (phdrAddrs file fileData) s ++
            match loadSegments pages pages2mb levels top file fileData fileSize user
              (programHeaders file fileData) s with
            | some (true, _) => [(fileData + 24, 8)]
            | _ => []

end Reads

/-- **Reading stays inside the file**, whatever the page tables are, and the allocator answers. -/
def ReadsInside (file : Memory) (fileData fileSize : ℕ) : Prop :=
  ∀ pages pages2mb levels top user s,
    ∀ r ∈ elfReads pages pages2mb levels top file fileData fileSize user s,
      InFile fileData fileSize r

/-! ## The condition -/

/-- The file lies in memory. -/
structure FileInMemory (fileData fileSize : ℕ) : Prop where
  nonnull : fileData ≠ 0
  end_le : fileData + fileSize ≤ word
  canonical : ∀ i < fileSize, ptrIsCanonical (fileData + i) = true

/-- The fields that are read of the program header at the offset `off`, and the data of its
segment, are in the file.  Data that are not do no harm if `memcpy` refuses the first chunk that
leaves the file. -/
structure SegmentFits (file : Memory) (fileData fileSize off : ℕ) : Prop where
  type : off + 4 ≤ fileSize
  sizes : (readPhdr file (fileData + off)).pType = ptLoad → off + 40 ≤ fileSize
  fields : (readPhdr file (fileData + off)).Loads fileSize → off + 48 ≤ fileSize
  data : (readPhdr file (fileData + off)).Loads fileSize →
    ∀ c, ((readPhdr file (fileData + off)).chunks fileData).find?
      (fun c => !decide (InFile fileData fileSize c)) = some c → ¬Accepted c

/-- The loop gets past this segment, if allocator and page tables let it. -/
def Elf64Phdr.Passed (fileData fileSize : ℕ) (ph : Elf64Phdr) : Prop :=
  ph.pType = ptLoad → ph.Loads fileSize ∧ ∀ c ∈ ph.chunks fileData, Accepted c

/-- The segments fit, up to the first that the loop cannot get past. -/
def SegmentsFit (file : Memory) (fileData fileSize : ℕ) : List ℕ → Prop
  | [] => True
  | off :: offs => SegmentFits file fileData fileSize off ∧
      ((readPhdr file (fileData + off)).Passed fileData fileSize →
        SegmentsFit file fileData fileSize offs)

/-- The offsets of the program headers. -/
def phdrOffsets (eh : Elf64Ehdr) : List ℕ :=
  (List.range eh.ePhnum).map fun i => wadd eh.ePhoff (i * eh.ePhentsize)

/-- What is read of a file is in it: the header as far as it is compared, and what the program
headers say. -/
structure ElfFits (file : Memory) (fileData fileSize : ℕ) : Prop where
  ident : ∀ k < 6, (∀ j < k, file.load (fileData + j) 1 = elfIdent.getD j 0) → k < fileSize
  machine : (readEhdr file fileData).eIdent = elfIdent → 20 ≤ fileSize
  header : (readEhdr file fileData).identOk → 58 ≤ fileSize
  segments : let eh := readEhdr file fileData
    eh.identOk → wadd eh.ePhoff (eh.ePhnum * eh.ePhentsize) ≤ fileSize →
      eh.eType = 2 ∨ eh.eType = 3 → SegmentsFit file fileData fileSize (phdrOffsets eh)

/-! ## Reads and offsets -/

section Offsets

variable {file : Memory} {fileData fileSize : ℕ} {off : ℕ}

lemma forall_mem_if {α : Type} {P : α → Prop} {c : Prop} [Decidable c] {l : List α} :
    (∀ a ∈ (if c then l else []), P a) ↔ (c → ∀ a ∈ l, P a) := by
  split_ifs with hc <;> simp [hc]

lemma forall_mem_if_not {α : Type} {P : α → Prop} {c : Prop} [Decidable c] {l : List α} :
    (∀ a ∈ (if c then [] else l), P a) ↔ (¬c → ∀ a ∈ l, P a) := by
  split_ifs with hc <;> simp [hc]

/-- The comparisons of `e_ident` read as far as they succeed. -/
lemma identReads_inside {k : ℕ} {cs : List ℕ} :
    (∀ r ∈ identReads file (fileData + k) cs, InFile fileData fileSize r) ↔
      ∀ j < cs.length, (∀ i < j, file.load (fileData + (k + i)) 1 = cs.getD i 0) →
        k + j < fileSize := by
  induction cs generalizing k with
  | nil => simp [identReads]
  | cons c cs ih =>
    have hfirst : InFile fileData fileSize (fileData + k, 1) ↔ k < fileSize := by
      unfold InFile
      dsimp only
      omega
    rw [identReads, List.forall_mem_cons, hfirst]
    constructor
    · rintro ⟨hk, hrest⟩ j hj hsame
      rcases j with _ | j
      · exact hk
      · rw [List.length_cons] at hj
        have hc : file.load (fileData + k) 1 = c := hsame 0 (Nat.succ_pos j)
        rw [if_pos hc, Nat.add_assoc] at hrest
        have := ih.mp hrest j (by omega) fun i hi => by
          rw [Nat.add_assoc, Nat.add_comm 1]
          exact hsame (i + 1) (by omega)
        omega
    · intro h
      refine ⟨h 0 (Nat.succ_pos _) fun i hi => absurd hi (Nat.not_lt_zero i), ?_⟩
      split_ifs with hc
      · rw [Nat.add_assoc]
        refine ih.mpr fun j hj hsame => ?_
        have := h (j + 1) (Nat.succ_lt_succ hj) fun i hi => by
          rcases i with _ | i
          · exact hc
          · rw [show k + (i + 1) = k + 1 + i by omega]
            exact hsame i (by omega)
        omega
      · exact fun r hr => absurd hr List.not_mem_nil

/-- A header begins in the file exactly if its offset, which does not wrap then, does. -/
lemma inFile_wadd (hfile : FileInMemory fileData fileSize) (hoff : off < word) :
    InFile fileData fileSize (wadd fileData off, 4) ↔ off + 4 ≤ fileSize := by
  have hend := hfile.end_le
  unfold InFile wadd
  dsimp only
  constructor
  · rintro ⟨hle, hle'⟩
    by_cases hlt : fileData + off < word
    · rw [Nat.mod_eq_of_lt hlt] at hle'
      omega
    · rw [Nat.mod_eq_sub_mod (by omega), Nat.mod_eq_of_lt (by omega)] at hle
      omega
  · intro hle
    rw [Nat.mod_eq_of_lt (by omega)]
    omega

/-- A chunk of the file passes the checks of `memcpy`. -/
lemma accepted_of_inFile (hfile : FileInMemory fileData fileSize) {c : ℕ × ℕ}
    (h : InFile fileData fileSize c) : Accepted c := by
  obtain ⟨src, chunk⟩ := c
  obtain ⟨hle, hle'⟩ := h
  dsimp only at hle hle'
  have hend := hfile.end_le
  refine ⟨fun hnull => hfile.nonnull ?_, ?_⟩
  · dsimp only at hnull
    omega
  unfold rangeIsSafe
  by_cases hzero : chunk = 0
  · rw [if_pos hzero]
  have hlast : wsub (wadd src chunk) 1 = src + (chunk - 1) := by
    rw [wsub_wadd_one (by omega), Nat.mod_eq_of_lt (by omega)]
    omega
  have hfirst := hfile.canonical (src - fileData) (by omega)
  have hfinal := hfile.canonical (src + (chunk - 1) - fileData) (by omega)
  rw [Nat.add_sub_cancel' hle] at hfirst
  rw [Nat.add_sub_cancel' (by omega)] at hfinal
  rw [if_neg hzero]
  dsimp only
  rw [hlast, if_neg (by omega), hfirst, hfinal]
  rfl

/-- If all that is inside is accepted, what is accepted up to the first refusal is inside exactly
if the first that is not inside is refused. -/
lemma takeWhile_inside_iff {α : Type} {p q : α → Bool} {l : List α} (hpq : ∀ a, q a → p a) :
    (∀ a ∈ l.takeWhile p, q a) ↔ ∀ a, l.find? (fun a => !q a) = some a → ¬p a := by
  induction l with
  | nil => simp
  | cons a l ih =>
    cases hq : q a with
    | true =>
      rw [List.takeWhile_cons, if_pos (hpq a hq), List.forall_mem_cons, List.find?_cons, hq]
      simp only [Bool.not_true, true_and]
      exact ih
    | false =>
      rw [List.takeWhile_cons, List.find?_cons, hq]
      simp only [Bool.not_false, Option.some.injEq, forall_eq']
      cases hp : p a with
      | true => simp [hq]
      | false => simp

/-- The data of a segment that are in the file without wrapping are in it chunk by chunk. -/
lemma dataChunks_inFile {fuel copyStart src copySize : ℕ} (hfile : FileInMemory fileData fileSize)
    (hsrc : fileData ≤ src) (hend : src + copySize ≤ fileData + fileSize) :
    ∀ c ∈ dataChunks fuel copyStart src copySize, InFile fileData fileSize c := by
  induction fuel generalizing copyStart src copySize with
  | zero => exact fun c hc => absurd hc List.not_mem_nil
  | succ fuel ih =>
    rw [dataChunks]
    split_ifs with hzero
    · exact fun c hc => absurd hc List.not_mem_nil
    dsimp only
    set chunk := if pageSize - (copyStart &&& (pageSize - 1)) > copySize then copySize
      else pageSize - (copyStart &&& (pageSize - 1)) with hchunk
    have hle : chunk ≤ copySize := by
      split_ifs at hchunk <;> omega
    clear_value chunk
    rw [List.forall_mem_cons]
    refine ⟨⟨hsrc, by dsimp only; omega⟩, ?_⟩
    by_cases hdone : copySize - chunk = 0
    · rw [hdone]
      cases fuel with
      | zero => exact fun c hc => absurd hc List.not_mem_nil
      | succ fuel =>
        rw [dataChunks, if_pos rfl]
        exact fun c hc => absurd hc List.not_mem_nil
    · have hword := hfile.end_le
      have hnext : wadd src chunk = src + chunk := wadd_of_lt (by omega)
      rw [hnext]
      exact ih (by omega) (by omega)

end Offsets

/-! ## Files that fit are read inside -/

section Sufficient

variable {pages pages2mb : ℕ → ℕ} {levels top : ℕ} {file : Memory} {fileData fileSize : ℕ}
  {user : Bool} {s s' : PhysState}

/-- The copy loop reads chunks, up to the first that `memcpy` refuses. -/
lemma mem_copyReads {fuel copyStart src copySize : ℕ} {c : ℕ × ℕ}
    (h : c ∈ copyReads levels top file fuel copyStart src copySize s) :
    c ∈ (dataChunks fuel copyStart src copySize).takeWhile fun c => decide (Accepted c) := by
  induction fuel generalizing copyStart src copySize s with
  | zero => exact absurd h List.not_mem_nil
  | succ fuel ih =>
    rw [copyReads] at h
    rw [dataChunks]
    split_ifs at h ⊢ with hzero
    · exact absurd h List.not_mem_nil
    dsimp only at h ⊢
    generalize (if pageSize - (copyStart &&& (pageSize - 1)) > copySize then copySize
      else pageSize - (copyStart &&& (pageSize - 1))) = chunk at h ⊢
    split at h
    · exact absurd h List.not_mem_nil
    · split at h
      · exact absurd h List.not_mem_nil
      split at h
      · exact absurd h List.not_mem_nil
      next hbad =>
      rw [not_or, not_or, Bool.not_eq_true', Bool.not_eq_false] at hbad
      rw [List.takeWhile_cons, if_pos (decide_eq_true ⟨hbad.1, hbad.2.1⟩)]
      exact (List.mem_cons.mp h).elim (fun h => h ▸ List.mem_cons_self)
        fun h => List.mem_cons_of_mem _ (ih h)

/-- A copy loop that ends has copied all of its chunks. -/
lemma accepted_of_copyLoop {fuel copyStart src copySize : ℕ}
    (h : copyLoop levels top file fuel copyStart src copySize s = some (true, s')) :
    ∀ c ∈ dataChunks fuel copyStart src copySize, Accepted c := by
  induction fuel generalizing copyStart src copySize s with
  | zero => exact fun c hc => absurd hc List.not_mem_nil
  | succ fuel ih =>
    rw [copyLoop] at h
    rw [dataChunks]
    split_ifs at h ⊢ with hzero
    · exact fun c hc => absurd hc List.not_mem_nil
    obtain ⟨phys, -, h⟩ := Option.bind_eq_some_iff.mp h
    dsimp only at h ⊢
    generalize (if pageSize - (copyStart &&& (pageSize - 1)) > copySize then copySize
      else pageSize - (copyStart &&& (pageSize - 1))) = chunk at h ⊢
    split_ifs at h with hphys hbad
    · cases h
    rw [not_or, not_or, Bool.not_eq_true', Bool.not_eq_false] at hbad
    exact List.forall_mem_cons.mpr ⟨⟨hbad.1, hbad.2.1⟩, ih h⟩

/-- The loop goes on behind a segment that it can get past. -/
lemma passed_of_loadSegment {ph : Elf64Phdr}
    (h : loadSegment pages pages2mb levels top file fileData fileSize user ph s = some (true, s')) :
    ph.Passed fileData fileSize := by
  intro htype
  unfold loadSegment at h
  rw [if_neg (not_not.mpr htype)] at h
  split_ifs at h with hsize
  · cases h
  obtain ⟨s₁, -, hfill⟩ := Step.seq_eq_some h
  obtain ⟨s₂, hcopy, -⟩ := Step.seq_eq_some hfill
  exact ⟨⟨htype, not_lt.mp hsize⟩, accepted_of_copyLoop hcopy⟩

/-- The data of a segment that fits are read inside. -/
lemma SegmentFits.dataReads {off : ℕ} (h : SegmentFits file fileData fileSize off)
    (hfile : FileInMemory fileData fileSize) :
    ∀ r ∈ dataReads pages pages2mb levels top file fileData fileSize user
      (readPhdr file (fileData + off)) s, InFile fileData fileSize r := by
  intro r hr
  unfold Cuore.dataReads at hr
  split_ifs at hr with hloads
  · split at hr
    · have hall := (takeWhile_inside_iff fun c hc =>
        decide_eq_true (accepted_of_inFile hfile (of_decide_eq_true hc))).mpr
          fun c hc => (h.data hloads c hc) ∘ of_decide_eq_true
      exact of_decide_eq_true (hall r (mem_copyReads hr))
    · exact absurd hr List.not_mem_nil
  · exact absurd hr List.not_mem_nil

/-- The fields that are read of a header, as a condition on its offset. -/
lemma phdrReads_inside {off : ℕ} {ph : Elf64Phdr} (htype : off + 4 ≤ fileSize) :
    (∀ r ∈ phdrReads fileSize (fileData + off) ph, InFile fileData fileSize r) ↔
      (ph.pType = ptLoad → off + 40 ≤ fileSize) ∧ (ph.Loads fileSize → off + 48 ≤ fileSize) := by
  rw [phdrReads, List.forall_mem_append, List.forall_mem_append, forall_mem_if, forall_mem_if]
  simp only [List.forall_mem_cons, List.not_mem_nil, IsEmpty.forall_iff, implies_true, and_true,
    InFile]
  constructor
  · rintro ⟨⟨-, hsizes⟩, hfields⟩
    exact ⟨fun h => by have := hsizes h; omega, fun h => by have := hfields h; omega⟩
  · rintro ⟨hsizes, hfields⟩
    refine ⟨⟨by omega, fun h => ?_⟩, fun h => ?_⟩
    · have := hsizes h
      omega
    · have := hfields h
      omega

/-- The segments that fit are read inside. -/
lemma SegmentsFit.reads {offs : List ℕ} (h : SegmentsFit file fileData fileSize offs)
    (hfile : FileInMemory fileData fileSize) :
    ∀ r ∈ segmentsReads pages pages2mb levels top file fileData fileSize user
      (offs.map (wadd fileData)) s, InFile fileData fileSize r := by
  induction offs generalizing s with
  | nil => exact fun r hr => absurd hr List.not_mem_nil
  | cons off offs ih =>
    obtain ⟨hfits, hrest⟩ := h
    have hend := hfile.end_le
    have hoff : wadd fileData off = fileData + off := wadd_of_lt (by have := hfits.type; omega)
    rw [List.map_cons, segmentsReads, hoff]
    intro r hr
    rcases List.mem_append.mp hr with hr | hr
    · rcases List.mem_append.mp hr with hr | hr
      · exact (phdrReads_inside hfits.type).mpr ⟨hfits.sizes, hfits.fields⟩ r hr
      · exact hfits.dataReads hfile r hr
    · split at hr
      · next hload => exact ih (hrest (passed_of_loadSegment hload)) r hr
      · exact absurd hr List.not_mem_nil

/-- The reads of a call, but for what its program headers say. -/
lemma elfReads_inside (hfile : FileInMemory fileData fileSize) :
    (∀ r ∈ elfReads pages pages2mb levels top file fileData fileSize user s,
      InFile fileData fileSize r) ↔
    (∀ k < 6, (∀ j < k, file.load (fileData + j) 1 = elfIdent.getD j 0) → k < fileSize) ∧
    ((readEhdr file fileData).eIdent = elfIdent → 20 ≤ fileSize) ∧
    ((readEhdr file fileData).identOk → 58 ≤ fileSize) ∧
    ((readEhdr file fileData).identOk →
      wadd (readEhdr file fileData).ePhoff ((readEhdr file fileData).ePhnum *
        (readEhdr file fileData).ePhentsize) ≤ fileSize →
      (readEhdr file fileData).eType = 2 ∨ (readEhdr file fileData).eType = 3 →
      ∀ r ∈ segmentsReads pages pages2mb levels top file fileData fileSize user
        (phdrAddrs file fileData) s, InFile fileData fileSize r) := by
  have hident := @identReads_inside file fileData fileSize 0 elfIdent
  simp only [Nat.zero_add, Nat.add_zero] at hident
  have hmachine : (∀ r ∈ [(fileData + 18, 2)], InFile fileData fileSize r) ↔ 20 ≤ fileSize := by
    simp only [List.mem_singleton, forall_eq, InFile]
    omega
  unfold elfReads
  rw [if_neg hfile.nonnull]
  dsimp only
  rw [List.forall_mem_append, List.forall_mem_append, hident, forall_mem_if, hmachine,
    forall_mem_if_not, List.forall_mem_append, forall_mem_if_not, Bool.not_eq_true',
    Bool.not_eq_false, and_assoc]
  refine and_congr_right fun _ => and_congr_right fun _ => ?_
  have hfields : (∀ r ∈ [(fileData + 32, 8), (fileData + 56, 2), (fileData + 54, 2)],
      InFile fileData fileSize r) ↔ 58 ≤ fileSize := by
    simp only [List.mem_cons, List.not_mem_nil, or_false, forall_eq_or_imp, forall_eq, InFile]
    omega
  rw [hfields, imp_and]
  refine and_congr_right fun hheader => forall_congr' fun hid => ?_
  have hsize := hheader hid
  rw [not_lt]
  refine forall_congr' fun _ => ?_
  have htype : InFile fileData fileSize (fileData + 16, 2) := by
    unfold InFile
    dsimp only
    omega
  have hentry : ∀ r ∈ (match loadSegments pages pages2mb levels top file fileData fileSize user
      (programHeaders file fileData) s with
      | some (true, _) => [(fileData + 24, 8)]
      | _ => []), InFile fileData fileSize r := by
    split
    · simp only [List.mem_singleton, forall_eq, InFile]
      omega
    · exact fun r hr => absurd hr List.not_mem_nil
  rw [List.forall_mem_cons, and_iff_right htype, forall_mem_if_not, List.forall_mem_append,
    and_iff_left hentry, not_and_or, not_not, not_not]

end Sufficient

/-! ## What is not read makes no difference -/

section Congr

open Memory

variable {pages pages2mb : ℕ → ℕ} {levels top : ℕ} {file file' : Memory} {fileData fileSize p : ℕ}
  {user : Bool} {s s' : PhysState} {ps : List ℕ}

/-- The comparisons of `e_ident` depend on what they read. -/
lemma ident_congr {cs : List ℕ} {a : ℕ} (h : ∀ r ∈ identReads file a cs, SameAt file' file r) :
    (List.range cs.length).map (fun i => file'.load (a + i) 1) = cs ↔
      (List.range cs.length).map (fun i => file.load (a + i) 1) = cs := by
  induction cs generalizing a with
  | nil => exact Iff.rfl
  | cons c cs ih =>
    have hsplit : ∀ m : Memory, (List.range (c :: cs).length).map (fun i => m.load (a + i) 1) =
        m.load a 1 :: (List.range cs.length).map fun i => m.load (a + 1 + i) 1 := by
      intro m
      rw [List.length_cons, List.range_succ_eq_map, List.map_cons, List.map_map, Nat.add_zero]
      congr 1
      refine List.map_congr_left fun i _ => ?_
      rw [Function.comp_apply, Nat.succ_eq_add_one, Nat.add_assoc, Nat.add_comm 1]
    rw [identReads, List.forall_mem_cons] at h
    rw [hsplit, hsplit, List.cons.injEq, List.cons.injEq, h.1.load_eq]
    refine and_congr_right fun hc => ih ?_
    have hrest := h.2
    rwa [if_pos hc] at hrest

/-- The checks of the header depend on what they read. -/
lemma identOk_congr (hident : ∀ r ∈ identReads file fileData elfIdent, SameAt file' file r)
    (hmachine : (readEhdr file fileData).eIdent = elfIdent →
      ∀ r ∈ [(fileData + 18, 2)], SameAt file' file r) :
    (readEhdr file' fileData).identOk = (readEhdr file fileData).identOk := by
  have hsame : (readEhdr file' fileData).eIdent = elfIdent ↔
      (readEhdr file fileData).eIdent = elfIdent := ident_congr hident
  rw [Bool.eq_iff_iff, Elf64Ehdr.identOk, Elf64Ehdr.identOk, Bool.and_eq_true, Bool.and_eq_true,
    beq_iff_eq, beq_iff_eq, beq_iff_eq, beq_iff_eq]
  refine (and_congr_left' hsame).trans (and_congr_right fun hid => ?_)
  have hload : (readEhdr file' fileData).eMachine = (readEhdr file fileData).eMachine :=
    (hmachine hid _ (List.mem_singleton_self _)).load_eq
  rw [hload]

/-- The copy loop depends on what it reads. -/
lemma copyLoop_congr {fuel copyStart src copySize : ℕ}
    (h : ∀ r ∈ copyReads levels top file fuel copyStart src copySize s, SameAt file' file r) :
    copyLoop levels top file' fuel copyStart src copySize s =
      copyLoop levels top file fuel copyStart src copySize s := by
  induction fuel generalizing copyStart src copySize s with
  | zero => rfl
  | succ fuel ih =>
    rw [copyReads] at h
    rw [copyLoop, copyLoop]
    split_ifs at h ⊢ with hzero
    · rfl
    dsimp only at h ⊢
    generalize (if pageSize - (copyStart &&& (pageSize - 1)) > copySize then copySize
      else pageSize - (copyStart &&& (pageSize - 1))) = chunk at h ⊢
    cases hphys : pagingGetPhys s.mem levels top (copyStart &&& wnot (pageSize - 1)) with
    | none => rfl
    | some phys =>
      rw [hphys] at h
      dsimp only [Option.bind_eq_bind, Option.bind_some] at h ⊢
      split_ifs at h ⊢ with hnone hrefused
      · rfl
      · rfl
      · rw [List.forall_mem_cons] at h
        rw [copyFrom_congr h.1]
        exact ih h.2

/-- The header of a segment that is loaded, and the type of any other, depend on what is read. -/
lemma readPhdr_congr (h : ∀ r ∈ phdrReads fileSize p (readPhdr file p), SameAt file' file r) :
    (readPhdr file' p).pType = (readPhdr file p).pType ∧
      ((readPhdr file p).pType = ptLoad → (readPhdr file' p).pOffset = (readPhdr file p).pOffset ∧
        (readPhdr file' p).pFilesz = (readPhdr file p).pFilesz) ∧
      ((readPhdr file p).Loads fileSize → readPhdr file' p = readPhdr file p) := by
  rw [phdrReads, List.forall_mem_append, List.forall_mem_append, List.forall_mem_singleton] at h
  obtain ⟨⟨htype, hsizes⟩, hfields⟩ := h
  rw [forall_mem_if] at hsizes hfields
  have hload : (readPhdr file p).pType = ptLoad →
      (readPhdr file' p).pOffset = (readPhdr file p).pOffset ∧
        (readPhdr file' p).pFilesz = (readPhdr file p).pFilesz := fun hl =>
    ⟨(hsizes hl (p + 8, 8) (by simp)).load_eq, (hsizes hl (p + 32, 8) (by simp)).load_eq⟩
  refine ⟨htype.load_eq, hload, fun hl => ?_⟩
  obtain ⟨hoffset, hfilesz⟩ := hload hl.1
  have hvaddr := (hfields hl (p + 16, 8) (by simp)).load_eq
  have hmemsz := (hfields hl (p + 40, 8) (by simp)).load_eq
  have hflags := (hfields hl (p + 4, 4) (by simp)).load_eq
  simp only [readPhdr, Elf64Phdr.mk.injEq] at hoffset hfilesz ⊢
  exact ⟨htype.load_eq, hflags, hoffset, hvaddr, hfilesz, hmemsz⟩

/-- One round of the program header loop depends on what it reads. -/
lemma loadSegment_congr (hphdr : ∀ r ∈ phdrReads fileSize p (readPhdr file p), SameAt file' file r)
    (hdata : ∀ r ∈ dataReads pages pages2mb levels top file fileData fileSize user (readPhdr file p)
      s, SameAt file' file r) :
    loadSegment pages pages2mb levels top file' fileData fileSize user (readPhdr file' p) s =
      loadSegment pages pages2mb levels top file fileData fileSize user (readPhdr file p) s := by
  obtain ⟨htype, hsizes, hfields⟩ := readPhdr_congr hphdr
  by_cases hl : (readPhdr file p).Loads fileSize
  · rw [dataReads, if_pos hl] at hdata
    rw [hfields hl, loadSegment, loadSegment, if_neg (not_not.mpr hl.1), if_neg (not_not.mpr hl.1),
      if_neg (not_lt.mpr hl.2), if_neg (not_lt.mpr hl.2), Step.seq, Step.seq]
    cases hmap : mapSegment pages pages2mb levels top user (readPhdr file p) s with
    | none => rfl
    | some out =>
      obtain ⟨_ | _, s₁⟩ := out
      · rfl
      · rw [hmap] at hdata
        dsimp only at hdata ⊢
        rw [fillSegment, fillSegment, Step.seq, Step.seq, copyLoop_congr hdata]
  · by_cases hload : (readPhdr file p).pType = ptLoad
    · obtain ⟨hoffset, hfilesz⟩ := hsizes hload
      have hlarge : wadd (readPhdr file p).pOffset (readPhdr file p).pFilesz > fileSize :=
        not_le.mp fun hle => hl ⟨hload, hle⟩
      rw [loadSegment, loadSegment, htype, hoffset, hfilesz, if_neg (not_not.mpr hload),
        if_neg (not_not.mpr hload), if_pos hlarge, if_pos hlarge]
    · rw [loadSegment, loadSegment, htype, if_pos hload, if_pos hload]

/-- The headers are the same as far as they matter: the types, and those of the segments loaded. -/
def SameLoaded (ph ph' : Elf64Phdr) : Prop :=
  ph'.pType = ph.pType ∧ (ph.pType = ptLoad → ph' = ph)

/-- The program header loop depends on what it reads.  If it ends, so do the headers. -/
lemma loadSegments_congr (h : ∀ r ∈ segmentsReads pages pages2mb levels top file fileData fileSize
      user ps s, SameAt file' file r) :
    loadSegments pages pages2mb levels top file' fileData fileSize user
        (ps.map (readPhdr file')) s =
      loadSegments pages pages2mb levels top file fileData fileSize user
        (ps.map (readPhdr file)) s ∧
    ∀ s', loadSegments pages pages2mb levels top file fileData fileSize user
      (ps.map (readPhdr file)) s = some (true, s') →
      ∀ p ∈ ps, SameLoaded (readPhdr file p) (readPhdr file' p) := by
  induction ps generalizing s with
  | nil => exact ⟨rfl, fun _ _ p hp => absurd hp List.not_mem_nil⟩
  | cons p ps ih =>
    rw [segmentsReads, List.forall_mem_append, List.forall_mem_append] at h
    obtain ⟨⟨hphdr, hdata⟩, hrest⟩ := h
    have hround := loadSegment_congr hphdr hdata
    obtain ⟨htype, -, hfields⟩ := readPhdr_congr hphdr
    rw [List.map_cons, List.map_cons, loadSegments, loadSegments, Step.seq, Step.seq, hround]
    cases hload : loadSegment pages pages2mb levels top file fileData fileSize user
        (readPhdr file p) s with
    | none => exact ⟨rfl, fun s' h => by cases h⟩
    | some out =>
      obtain ⟨_ | _, s₁⟩ := out
      · exact ⟨rfl, fun s' h => by cases h⟩
      · rw [hload] at hrest
        obtain ⟨heq, hsame⟩ := ih hrest
        refine ⟨heq, fun s' h => List.forall_mem_cons.mpr ⟨⟨htype, fun hl => ?_⟩, hsame s' h⟩⟩
        exact hfields (passed_of_loadSegment hload hl).1

lemma programHeaders_eq :
    programHeaders file fileData = (phdrAddrs file fileData).map (readPhdr file) := by
  rw [programHeaders, phdrAddrs, List.map_map]
  rfl

lemma highestVaddr_congr (h : ∀ p ∈ ps, SameLoaded (readPhdr file p) (readPhdr file' p)) :
    highestVaddr (ps.map (readPhdr file')) = highestVaddr (ps.map (readPhdr file)) := by
  rw [highestVaddr, highestVaddr, List.foldl_map, List.foldl_map]
  refine List.foldl_ext _ _ _ fun highest p hp => ?_
  obtain ⟨htype, hsame⟩ := h p hp
  by_cases hl : (readPhdr file p).pType = ptLoad
  · rw [hsame hl]
  · rw [if_neg fun hc => hl (htype ▸ hc.1), if_neg fun hc => hl hc.1]

/-- **`elf64_parse` depends on nothing of the file but `elfReads`.** -/
lemma elf64Parse_congr (h : ∀ r ∈ elfReads pages pages2mb levels top file fileData fileSize user s,
      SameAt file' file r) :
    elf64Parse pages pages2mb levels file' fileData fileSize top user s =
      elf64Parse pages pages2mb levels file fileData fileSize top user s := by
  rw [elf64Parse, elf64Parse]
  by_cases hnull : fileData = 0
  · rw [if_pos hnull, if_pos hnull]
  rw [elfReads, if_neg hnull] at h
  rw [if_neg hnull, if_neg hnull]
  dsimp only at h ⊢
  rw [List.forall_mem_append, List.forall_mem_append] at h
  obtain ⟨⟨hident, hmachine⟩, h⟩ := h
  have hok := identOk_congr hident (forall_mem_if.mp hmachine)
  rw [hok]
  cases hvalid : (readEhdr file fileData).identOk with
  | false => rfl
  | true =>
    rw [hvalid, Bool.not_true, if_neg Bool.false_ne_true, List.forall_mem_append] at h
    rw [Bool.not_true, if_neg Bool.false_ne_true, if_neg Bool.false_ne_true]
    obtain ⟨hfields, h⟩ := h
    have hphoff : (readEhdr file' fileData).ePhoff = (readEhdr file fileData).ePhoff :=
      (hfields (fileData + 32, 8) (by simp)).load_eq
    have hphnum : (readEhdr file' fileData).ePhnum = (readEhdr file fileData).ePhnum :=
      (hfields (fileData + 56, 2) (by simp)).load_eq
    have hphentsize : (readEhdr file' fileData).ePhentsize = (readEhdr file fileData).ePhentsize :=
      (hfields (fileData + 54, 2) (by simp)).load_eq
    have haddrs : phdrAddrs file' fileData = phdrAddrs file fileData := by
      rw [phdrAddrs, phdrAddrs, hphoff, hphnum, hphentsize]
    rw [hphoff, hphnum, hphentsize, programHeaders_eq, programHeaders_eq, haddrs]
    by_cases htable : wadd (readEhdr file fileData).ePhoff ((readEhdr file fileData).ePhnum *
        (readEhdr file fileData).ePhentsize) > fileSize
    · rw [if_pos htable, if_pos htable]
    rw [if_neg htable, List.forall_mem_cons] at h
    rw [if_neg htable, if_neg htable]
    obtain ⟨htype, h⟩ := h
    have htype' : (readEhdr file' fileData).eType = (readEhdr file fileData).eType := htype.load_eq
    rw [htype']
    by_cases hkind : (readEhdr file fileData).eType ≠ 2 ∧ (readEhdr file fileData).eType ≠ 3
    · rw [if_pos hkind, if_pos hkind]
    rw [if_neg hkind] at h
    rw [if_neg hkind, if_neg hkind]
    rw [List.forall_mem_append] at h
    obtain ⟨hloop, hentry⟩ := h
    obtain ⟨hsegments, hsame⟩ := loadSegments_congr hloop
    rw [hsegments]
    rw [programHeaders_eq] at hentry
    cases hload : loadSegments pages pages2mb levels top file fileData fileSize user
        ((phdrAddrs file fileData).map (readPhdr file)) s with
    | none => rfl
    | some out =>
      obtain ⟨_ | _, s'⟩ := out
      · rfl
      · rw [hload] at hentry
        have hentry' : (readEhdr file' fileData).eEntry = (readEhdr file fileData).eEntry :=
          (hentry _ (List.mem_singleton_self _)).load_eq
        dsimp only
        rw [hentry', highestVaddr_congr (hsame s' hload)]

end Congr

/-! ## A call that gets as far as it can -/

/-- The step goes on, and keeps `I`. -/
def Step.GoesOn (I : PhysState → Prop) (f : Step) : Prop :=
  ∀ s, I s → ∃ s', f s = some (true, s') ∧ I s'

section GoesOn

variable {I : PhysState → Prop} {f g : Step}

lemma Step.GoesOn.skip : Step.GoesOn I Step.skip := fun s hs => ⟨s, rfl, hs⟩

lemma Step.GoesOn.seq (hf : f.GoesOn I) (hg : g.GoesOn I) : (f.seq g).GoesOn I := by
  intro s hs
  obtain ⟨s₁, hrun₁, hs₁⟩ := hf s hs
  obtain ⟨s₂, hrun₂, hs₂⟩ := hg s₁ hs₁
  refine ⟨s₂, ?_, hs₂⟩
  rw [Step.seq, hrun₁]
  exact hrun₂

lemma Step.GoesOn.rounds {step : ℕ} {body : ℕ → Step} (h : ∀ addr, (body addr).GoesOn I)
    (n start : ℕ) : (Step.rounds step body n start).GoesOn I := by
  induction n generalizing start with
  | zero => exact Step.GoesOn.skip
  | succ n ih => exact (h start).seq (ih (start + step))

end GoesOn

/-- Every address is mapped, by an entry for the gigabyte at `0x40000000`, under a top table at
`0x1000` with one table below it at `0x2000`. -/
structure AllMapped (s : PhysState) : Prop where
  top : ∀ i < 512, readEntry s.mem 0x1000 i = 0x2003
  next : ∀ i < 512, readEntry s.mem 0x2000 i = 0x40000083

/-- An allocator with nothing to give. -/
def noPages (_ : ℕ) : ℕ := 0

section AllMapped

variable {s s' : PhysState} {virt : ℕ}

/-- Writing behind the two tables changes nothing. -/
lemma AllMapped.of_eq (h : AllMapped s) (hmem : ∀ x < 0x3000, s'.mem x = s.mem x) :
    AllMapped s' := by
  have hread : ∀ t i, t ≤ 0x2000 → i < 512 → readEntry s'.mem t i = readEntry s.mem t i := by
    intro t i ht hi
    rw [readEntry, readEntry]
    exact Memory.load_congr fun x _ hx => hmem x (by omega)
  exact ⟨fun i hi => (hread _ i (by decide) hi).trans (h.top i hi),
    fun i hi => (hread _ i (by decide) hi).trans (h.next i hi)⟩

lemma AllMapped.getPhys (h : AllMapped s) :
    pagingGetPhys s.mem 4 0x1000 virt = some (0x40000000 + virt % 2 ^ 30) := by
  have hlt : virt % 2 ^ 30 < 2 ^ 30 := Nat.mod_lt _ (by decide)
  have hadd : wadd (0x40000083 &&& wnot (2 ^ 30 - 1)) (virt % 2 ^ 30) =
      0x40000000 + virt % 2 ^ 30 := by
    rw [show 0x40000083 &&& wnot (2 ^ 30 - 1) = 0x40000000 by decide]
    exact wadd_of_lt (by unfold word; omega)
  rw [pagingGetPhys, getPhysFrom]
  simp only [h.top _ (pageIndex_lt virt _)]
  rw [if_neg (by decide), if_neg (by decide), if_neg (by decide),
    show 0x2003 &&& pteAddrMask = 0x2000 by decide, getPhysFrom]
  simp only [h.next _ (pageIndex_lt virt _)]
  rw [if_neg (by decide), if_neg (by decide), if_pos (by decide), Nat.and_two_pow_sub_one_eq_mod]
  exact congrArg some hadd

/-- The tables have nothing to split with, so the walk ends above its level. -/
lemma AllMapped.walk (h : AllMapped s) {target : ℕ} (htarget : target ≤ 1) :
    walkToLevel noPages virt target false 3 0x1000 s = some (none, s) ∧
      walkToLevel noPages virt target true 3 0x1000 s =
        some (none, { s with calls := s.calls + 1 }) := by
  have hstep : ∀ b, walkToLevel noPages virt target b 3 0x1000 s =
      walkToLevel noPages virt target b 2 0x2000 s := by
    intro b
    rw [walkToLevel]
    simp only [h.top _ (pageIndex_lt virt _)]
    rw [if_neg (by omega), if_neg (by decide), if_neg (by decide), if_neg (by decide)]
    rfl
  have hlast : ∀ b, walkToLevel noPages virt target b 2 0x2000 s =
      if !b then some (none, s) else some (none, { s with calls := s.calls + 1 }) := by
    intro b
    rw [walkToLevel]
    simp only [h.next _ (pageIndex_lt virt _)]
    rw [if_neg (by omega), if_neg (by decide), if_neg (by decide), if_pos (by decide)]
    rfl
  rw [hstep, hstep, hlast, hlast]
  exact ⟨rfl, rfl⟩

lemma AllMapped.existingFlags (h : AllMapped s) {flags : ℕ} :
    existingFlags noPages 4 0x1000 virt flags s = some flags := by
  unfold Cuore.existingFlags pagingGetPte
  rw [show 4 - 1 = 3 from rfl, (h.walk (Nat.zero_le 1)).1]
  rfl

lemma AllMapped.mapNoflush (h : AllMapped s) {kind : PageKind} (hkind : kind.level ≤ 1)
    {phys flags : ℕ} : ∃ s', pagingMapNoflush noPages kind 4 0x1000 virt phys flags s = some s' ∧
      AllMapped s' := by
  refine ⟨{ s with calls := s.calls + 1 }, ?_, h.of_eq fun _ _ => rfl⟩
  rw [pagingMapNoflush_eq, show 4 - 1 = 3 from rfl, (h.walk hkind).2]
  rfl

lemma AllMapped.mapSmall {flags : ℕ} :
    (mapSmall noPages 4 0x1000 flags virt).GoesOn AllMapped := by
  intro s h
  obtain ⟨s', hs', h'⟩ := @AllMapped.mapNoflush s virt h .page4kb (by decide)
    (0x40000000 + virt % 2 ^ 30) (combineFlags flags flags)
  refine ⟨s', ?_, h'⟩
  have hpos : ¬0x40000000 + virt % 2 ^ 30 = 0 := by omega
  unfold Cuore.mapSmall
  simp only [h.getPhys, h.existingFlags, Option.bind_eq_bind, Option.bind_some, if_neg hpos]
  rw [show pagingMapPageNoflush noPages 4 0x1000 virt _ _ s = some s' from hs']
  rfl

lemma AllMapped.mapHuge {flags : ℕ} :
    (mapHuge noPages noPages 4 0x1000 flags virt).GoesOn AllMapped := by
  intro s h
  obtain ⟨s', hs', h'⟩ := @AllMapped.mapNoflush s virt h .page2mb (by decide)
    ((0x40000000 + virt % 2 ^ 30) &&& wnot (pageSize2mb - 1)) (combineFlags flags flags)
  refine ⟨s', ?_, h'⟩
  have hpos : ¬0x40000000 + virt % 2 ^ 30 = 0 := by omega
  unfold Cuore.mapHuge
  simp only [h.getPhys, h.existingFlags, Option.bind_eq_bind, Option.bind_some, if_neg hpos]
  rw [show pagingMap2mbNoflush noPages 4 0x1000 virt _ _ s = some s' from hs']
  rfl

lemma AllMapped.mapSegment {user : Bool} {ph : Elf64Phdr} :
    (mapSegment noPages noPages 4 0x1000 user ph).GoesOn AllMapped :=
  (Step.GoesOn.rounds (fun _ => AllMapped.mapSmall) _ _).seq <|
    (Step.GoesOn.rounds (fun _ => AllMapped.mapHuge) _ _).seq <|
      Step.GoesOn.rounds (fun _ => AllMapped.mapSmall) _ _

/-- Where a chunk is copied to: behind the two tables. -/
lemma AllMapped.chunk (h : AllMapped s) {start chunk : ℕ}
    (hchunk : chunk ≤ pageSize - (start &&& (pageSize - 1))) :
    ∃ phys, pagingGetPhys s.mem 4 0x1000 (start &&& wnot (pageSize - 1)) = some phys ∧
      phys ≠ 0 ∧ 0x3000 ≤ phys ∧ ¬phys + (start &&& (pageSize - 1)) + chunk > physLimit := by
  refine ⟨_, h.getPhys, by omega, by omega, ?_⟩
  have hoff : (start &&& (pageSize - 1)) ≤ pageSize - 1 := Nat.and_le_right
  have hlt : (start &&& wnot (pageSize - 1)) % 2 ^ 30 < 2 ^ 30 := Nat.mod_lt _ (by decide)
  have hsize : pageSize = 4096 := rfl
  have hlimit : physLimit = 2 ^ 52 := rfl
  omega

/-- The copy loop reads its chunks, up to the first that `memcpy` refuses. -/
lemma AllMapped.copyReads (h : AllMapped s) {file : Memory} {fuel copyStart src copySize : ℕ} :
    copyReads 4 0x1000 file fuel copyStart src copySize s =
      (dataChunks fuel copyStart src copySize).takeWhile fun c => decide (Accepted c) := by
  induction fuel generalizing copyStart src copySize s with
  | zero => rfl
  | succ fuel ih =>
    rw [Cuore.copyReads, dataChunks]
    by_cases hzero : copySize = 0
    · rw [if_pos hzero, if_pos hzero]
      rfl
    rw [if_neg hzero, if_neg hzero]
    dsimp only
    generalize hchunk : (if pageSize - (copyStart &&& (pageSize - 1)) > copySize then copySize
      else pageSize - (copyStart &&& (pageSize - 1))) = chunk
    obtain ⟨phys, hphys, hne, hbehind, hlimit⟩ := @AllMapped.chunk s h copyStart chunk
      (by split_ifs at hchunk <;> omega)
    rw [hphys]
    dsimp only
    rw [if_neg hne, List.takeWhile_cons]
    by_cases hok : Accepted (src, chunk)
    · have hgo : ¬(src = 0 ∨ (!rangeIsSafe src chunk) = true ∨
          phys + (copyStart &&& (pageSize - 1)) + chunk > physLimit) := by
        rintro (hnull | hsafe | hout)
        · exact hok.1 hnull
        · rw [hok.2] at hsafe
          cases hsafe
        · exact hlimit hout
      rw [if_neg hgo, if_pos (decide_eq_true hok)]
      refine congrArg _ (ih (h.of_eq fun x hx => ?_))
      exact Memory.copyFrom_of_outside (.inl (by omega))
    · have hstop : src = 0 ∨ (!rangeIsSafe src chunk) = true ∨
          phys + (copyStart &&& (pageSize - 1)) + chunk > physLimit := by
        by_contra hgo
        rw [not_or, not_or, Bool.not_eq_true', Bool.not_eq_false] at hgo
        exact hok ⟨hgo.1, hgo.2.1⟩
      rw [if_pos hstop, if_neg (by rwa [decide_eq_true_eq])]

lemma AllMapped.copyLoop {file : Memory} {fuel copyStart src copySize : ℕ}
    (hall : ∀ c ∈ dataChunks fuel copyStart src copySize, Accepted c) :
    (copyLoop 4 0x1000 file fuel copyStart src copySize).GoesOn AllMapped := by
  induction fuel generalizing copyStart src copySize with
  | zero => exact Step.GoesOn.skip
  | succ fuel ih =>
    intro s h
    rw [dataChunks] at hall
    rw [Cuore.copyLoop]
    beta_reduce
    by_cases hzero : copySize = 0
    · rw [if_pos hzero]
      exact ⟨s, rfl, h⟩
    rw [if_neg hzero] at hall ⊢
    dsimp only at hall ⊢
    generalize hchunk : (if pageSize - (copyStart &&& (pageSize - 1)) > copySize then copySize
      else pageSize - (copyStart &&& (pageSize - 1))) = chunk at hall ⊢
    obtain ⟨phys, hphys, hne, hbehind, hlimit⟩ := @AllMapped.chunk s h copyStart chunk
      (by split_ifs at hchunk <;> omega)
    obtain ⟨hok, hrest⟩ := List.forall_mem_cons.mp hall
    have hgo : ¬(src = 0 ∨ (!rangeIsSafe src chunk) = true ∨
        phys + (copyStart &&& (pageSize - 1)) + chunk > physLimit) := by
      rintro (hnull | hsafe | hout)
      · exact hok.1 hnull
      · rw [hok.2] at hsafe
        cases hsafe
      · exact hlimit hout
    rw [hphys, Option.bind_eq_bind, Option.bind_some, if_neg hne, if_neg hgo]
    exact ih hrest _ (h.of_eq fun x hx => Memory.copyFrom_of_outside (.inl (by omega)))

lemma AllMapped.bssLoop {fuel bssStart bssSize : ℕ} :
    (bssLoop 4 0x1000 fuel bssStart bssSize).GoesOn AllMapped := by
  induction fuel generalizing bssStart bssSize with
  | zero => exact Step.GoesOn.skip
  | succ fuel ih =>
    intro s h
    rw [Cuore.bssLoop]
    beta_reduce
    by_cases hzero : bssSize = 0
    · rw [if_pos hzero]
      exact ⟨s, rfl, h⟩
    rw [if_neg hzero]
    dsimp only
    generalize hchunk : (if pageSize - (bssStart &&& (pageSize - 1)) > bssSize then bssSize
      else pageSize - (bssStart &&& (pageSize - 1))) = chunk
    obtain ⟨phys, hphys, hne, hbehind, hlimit⟩ := @AllMapped.chunk s h bssStart chunk
      (by split_ifs at hchunk <;> omega)
    rw [hphys, Option.bind_eq_bind, Option.bind_some, if_neg hne, zeroPhys, if_neg hlimit]
    exact ih _ (h.of_eq fun x hx => Memory.fill_of_outside (.inl (by omega)))

/-- A segment that the loop can get past is one that it does get past. -/
lemma AllMapped.loadSegment {file : Memory} {fileData fileSize : ℕ} {user : Bool} {ph : Elf64Phdr}
    (hpassed : ph.Passed fileData fileSize) :
    (loadSegment noPages noPages 4 0x1000 file fileData fileSize user ph).GoesOn AllMapped := by
  unfold Cuore.loadSegment
  by_cases htype : ph.pType = ptLoad
  · obtain ⟨hloads, haccepted⟩ := hpassed htype
    rw [if_neg (not_not.mpr htype), if_neg (not_lt.mpr hloads.2)]
    refine AllMapped.mapSegment.seq ((AllMapped.copyLoop haccepted).seq ?_)
    split_ifs
    · exact AllMapped.bssLoop
    · exact Step.GoesOn.skip
  · rw [if_pos htype]
    exact Step.GoesOn.skip

end AllMapped

/-! ## The result -/

section Result

variable {file : Memory} {fileData fileSize : ℕ}

/-- In a call that gets as far as it can, files that do not fit are read outside. -/
lemma AllMapped.segmentsFit {s : PhysState} {user : Bool} {offs : List ℕ} (h : AllMapped s)
    (hfile : FileInMemory fileData fileSize) (hword : ∀ off ∈ offs, off < word)
    (hreads : ∀ r ∈ segmentsReads noPages noPages 4 0x1000 file fileData fileSize user
      (offs.map (wadd fileData)) s, InFile fileData fileSize r) :
    SegmentsFit file fileData fileSize offs := by
  induction offs generalizing s with
  | nil => trivial
  | cons off offs ih =>
    obtain ⟨hoff, hword⟩ := List.forall_mem_cons.mp hword
    rw [List.map_cons, segmentsReads, List.forall_mem_append, List.forall_mem_append] at hreads
    obtain ⟨⟨hheader, hdata⟩, hrest⟩ := hreads
    have htype : off + 4 ≤ fileSize := (inFile_wadd hfile hoff).mp (hheader _ List.mem_cons_self)
    have hend := hfile.end_le
    have hpos : wadd fileData off = fileData + off := wadd_of_lt (by omega)
    rw [hpos] at hheader hdata hrest
    obtain ⟨hsizes, hfields⟩ := (phdrReads_inside htype).mp hheader
    refine ⟨⟨htype, hsizes, hfields, fun hloads c hc => ?_⟩, fun hpassed => ?_⟩
    · -- the chunks that are read are all that `memcpy` lets pass
      obtain ⟨s₁, hmap, h₁⟩ := AllMapped.mapSegment s h
      rw [dataReads, if_pos hloads, hmap] at hdata
      dsimp only at hdata
      rw [h₁.copyReads] at hdata
      have hrefused := (takeWhile_inside_iff fun c hc =>
        decide_eq_true (accepted_of_inFile hfile (of_decide_eq_true hc))).mp
          (fun c hc => decide_eq_true (hdata c hc)) c hc
      exact fun haccepted => hrefused (decide_eq_true haccepted)
    · obtain ⟨s₁, hload, h₁⟩ := AllMapped.loadSegment hpassed s h
      rw [hload] at hrest
      exact ih h₁ hword hrest

lemma phdrAddrs_eq : phdrAddrs file fileData =
    (phdrOffsets (readEhdr file fileData)).map (wadd fileData) := by
  rw [phdrAddrs, phdrOffsets, List.map_map]
  refine List.map_congr_left fun i _ => ?_
  simp only [Function.comp_apply, wadd, Nat.mod_add_mod, Nat.add_mod_mod, Nat.add_assoc]

/-- Memory in which every address is mapped. -/
def allMappedState : PhysState :=
  ⟨writeTable (writeTable (fun _ => 0) 0x1000 fun _ => 0x2003) 0x2000 fun _ => 0x40000083, 0, 0⟩

lemma allMappedState_mapped : AllMapped allMappedState := by
  obtain ⟨-, htop⟩ := @writeTable_spec (fun _ => 0) 0x1000 (fun _ => 0x2003) (by decide)
  obtain ⟨hkept, hnext⟩ := @writeTable_spec (writeTable (fun _ => 0) 0x1000 fun _ => 0x2003) 0x2000
    (fun _ => 0x40000083) (by decide)
  refine ⟨fun i hi => ?_, fun i hi => hnext i hi (by decide)⟩
  exact (hkept.readEntry_eq (by decide) (by decide) hi).trans (htop i hi (by decide))

/-- **Which files `elf64_parse` reads inside.**  For every byte string in memory, no call reads
outside of it, whatever page tables and allocator do, exactly if it holds what is read of it: the
bytes of `e_ident` up to the first that is wrong, the whole header if they are right, and of each
program header that the loop gets to the fields and the data that it asks for. -/
theorem readsInside_iff (hfile : FileInMemory fileData fileSize) :
    ReadsInside file fileData fileSize ↔ ElfFits file fileData fileSize := by
  constructor
  · intro h
    obtain ⟨hident, hmachine, hheader, hsegments⟩ := (elfReads_inside hfile).mp
      (h noPages noPages 4 0x1000 false allMappedState)
    refine ⟨hident, hmachine, hheader, fun hid hsize htype => ?_⟩
    have hreads := hsegments hid hsize htype
    rw [phdrAddrs_eq] at hreads
    refine allMappedState_mapped.segmentsFit hfile (fun off hoff => ?_) hreads
    obtain ⟨i, -, rfl⟩ := List.mem_map.mp hoff
    exact wadd_lt _ _
  · intro h pages pages2mb levels top user s
    refine (elfReads_inside hfile).mpr ⟨h.ident, h.machine, h.header, fun hid hsize htype => ?_⟩
    rw [phdrAddrs_eq]
    exact (h.segments hid hsize htype).reads hfile

/-- A header whose data are in the file fits. -/
lemma SegmentFits.of_data {off : ℕ} (hfile : FileInMemory fileData fileSize)
    (hoff : off + 48 ≤ fileSize)
    (hdata : (readPhdr file (fileData + off)).pOffset + (readPhdr file (fileData + off)).pFilesz ≤
      fileSize) : SegmentFits file fileData fileSize off := by
  refine ⟨by omega, fun _ => by omega, fun _ => hoff, fun _ c hc => ?_⟩
  have hend := hfile.end_le
  have hmem := List.mem_of_find?_eq_some hc
  have hout := List.find?_some hc
  rw [Bool.not_eq_true', decide_eq_false_iff_not] at hout
  unfold Elf64Phdr.chunks at hmem
  by_cases hzero : (readPhdr file (fileData + off)).pFilesz = 0
  · rw [hzero] at hmem
    exact absurd hmem List.not_mem_nil
  · rw [wadd_of_lt (by omega)] at hmem
    exact absurd (dataChunks_inFile hfile (Nat.le_add_right _ _) (by omega) c hmem) hout

/-- Text and data, in a file that ends with the second header. -/
theorem textAndData_inside : FileInMemory 0x10000 176 ∧
    ReadsInside (elfFile 0x10000 textAndData) 0x10000 176 := by
  have hfile : FileInMemory 0x10000 176 := ⟨by decide, by decide, by decide +kernel⟩
  refine ⟨hfile, (readsInside_iff hfile).mpr ⟨fun k hk _ => by omega, fun _ => by decide,
    fun _ => by decide, ?_⟩⟩
  intro eh _ _ _
  have hoffs : phdrOffsets eh = [64, 120] := by decide +kernel
  rw [hoffs]
  exact ⟨.of_data hfile (by decide) (by decide +kernel),
    fun _ => ⟨.of_data hfile (by decide) (by decide +kernel), fun _ => trivial⟩⟩

/-- A file that ends behind `e_machine`: the fields behind it are read all the same. -/
theorem not_readsInside_truncated : FileInMemory 0x10000 20 ∧
    ¬ReadsInside (elfFile 0x10000 []) 0x10000 20 := by
  have hfile : FileInMemory 0x10000 20 := ⟨by decide, by decide, by decide⟩
  refine ⟨hfile, fun h => ?_⟩
  obtain ⟨-, -, hheader, -⟩ := (elfReads_inside hfile).mp
    (h noPages noPages 4 0x1000 false allMappedState)
  exact absurd (hheader (by decide +kernel)) (by decide)

end Result

end Cuore
