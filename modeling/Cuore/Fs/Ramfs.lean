import Cuore.Framework.CString
import Cuore.Framework.Word
import Cuore.Tools.Mkramfs
import Mathlib.Data.Fintype.EquivFin
import Mathlib.Data.Fintype.Card

/-!
# Reading a ramfs image (`fs/ramfs.c`)

The kernel finds the files of its ramfs by name: `ramfs_get_file` indexes an array of its own
`ramfs_entry_t` behind the header and compares names with `strcmp`.  That structure has no
checksum: it is 80 bytes long, where the packer's is 84.  So the kernel's entry `i` starts
`4 * i` bytes early, and only the first one is where the packer put it.

`ReadsBack` states the round trip.  For one file it holds (`readsBack_of_single`).  For more,
a counting argument finds a file that the kernel takes from its entry `1`; the offset field
there is read four bytes early, which makes it at least `2 ^ 32`
(`le_load_offset_second`), beyond every image below that size.
-/

namespace Cuore.Ramfs

open Mkramfs

/-! ## The decoder -/

/-- `ramfs_handle_t`. -/
structure Handle where
  header : ℕ
  entries : ℕ
  base : ℕ

/-- `ramfs_file_t`. -/
structure File where
  data : ℕ
  size : ℕ
  deriving DecidableEq

/-- `sizeof(ramfs_entry_t)` of the decoder. -/
def decoderEntrySize : ℕ := 80

/-- `ramfs_init`. -/
def ramfsInit (ptr : ℕ) : Handle := ⟨ptr, ptr + 16, ptr⟩

/-- `handle->header->file_count`. -/
def Handle.fileCount (h : Handle) (m : Memory) : ℕ := m.load (h.header + 8) 4

/-- Address of `handle->entries[i]`. -/
def Handle.entry (h : Handle) (i : ℕ) : ℕ := h.entries + i * decoderEntrySize

/-- `ramfs_get_file`.  It calls `strcmp` with the entry's name first, which does not matter for
zero. -/
def ramfsGetFile (m : Memory) (h : Handle) (name : List UInt8) : File :=
  match (List.range (h.fileCount m)).find? (fun i => strcmp m name (h.entry i) = 0) with
  | some i => ⟨wadd h.base (m.load (h.entry i + 64) 8), m.load (h.entry i + 72) 8⟩
  | none => ⟨0, 0⟩

/-! ## C strings -/

/-- Two NUL-free strings that stand at one address, terminators included, are equal. -/
lemma eq_of_holds_terminated {m : Memory} {a : ℕ} {s s' : List UInt8} (hs : 0 ∉ s) (hs' : 0 ∉ s')
    (h : Holds m a (s ++ [0])) (h' : Holds m a (s' ++ [0])) : s = s' := by
  induction s generalizing a s' with
  | nil =>
    cases s' with
    | nil => rfl
    | cons c s' =>
      have : c = 0 := h'.1.symm.trans h.1
      simp [this] at hs'
  | cons c s ih =>
    cases s' with
    | nil =>
      have : c = 0 := h.1.symm.trans h'.1
      simp [this] at hs
    | cons c' s' =>
      simp only [List.mem_cons, not_or] at hs hs'
      rw [ih hs.2 hs'.2 h.2 h'.2, h.1.symm.trans h'.1]

/-! ## What the round trip means -/

/-- The inputs the round trip is about: readable files with distinct base names that are C
strings of 1 to 63 bytes, of sizes that `ftell` can report, as many as `argc` can count. -/
structure Packable (files : List Input) : Prop where
  nonempty : files ≠ []
  readable : ∀ f ∈ files, f.contents.isSome
  distinct : (files.map fun f => basename f.path).Nodup
  noNul : ∀ f ∈ files, 0 ∉ basename f.path
  namePos : ∀ f ∈ files, 0 < (basename f.path).length
  nameFits : ∀ f ∈ files, (basename f.path).length ≤ 63
  sizeFits : ∀ f ∈ files, f.data.length < 2 ^ 63
  countFits : files.length < 2 ^ 31

/-- The size of the image of `files`. -/
def imageSize (files : List Input) : ℕ :=
  dataStart files.length + (files.flatMap Input.data).length

/-- With the image at `base`, `ramfs_get_file` returns for every packed name a pointer into
the image to exactly that file's bytes, with its size, and `{NULL, 0}` for every other name. -/
structure ReadsBack (m : Memory) (base : ℕ) (files : List Input) : Prop where
  packed : ∀ f ∈ files, ∃ off, off + f.data.length ≤ imageSize files ∧
    ramfsGetFile m (ramfsInit base) (basename f.path) = ⟨base + off, f.data.length⟩ ∧
    Holds m (base + off) f.data
  other : ∀ name, 0 ∉ name → name ∉ files.map (fun f => basename f.path) →
    ramfsGetFile m (ramfsInit base) name = ⟨0, 0⟩

/-- The image of `files` has been loaded at `base`. -/
structure Loaded (m : Memory) (base : ℕ) (files : List Input) : Prop where
  holds : ∃ image, main files = some image ∧ Holds m base image
  fits : base + imageSize files < word

/-! ## Fields of a loaded image -/

section Loaded

variable {m : Memory} {base : ℕ} {files : List Input}

lemma Loaded.holds_parts (hl : Loaded m base files) (hp : Packable files) :
    Holds m base (headerBytes files.length) ∧
      Holds m (base + 16) ((entriesFrom (dataStart files.length) files).flatMap Entry.bytes) ∧
      Holds m (base + dataStart files.length) (files.flatMap Input.data) := by
  obtain ⟨image, himage, hh⟩ := hl.holds
  rw [main_eq hp.nonempty hp.readable, Option.some.injEq] at himage
  rw [← himage, holds_append, holds_append, List.length_append, length_headerBytes,
    length_flatMap_entry_bytes] at hh
  exact ⟨hh.1.1, hh.1.2, hh.2⟩

lemma Loaded.fileCount_eq (hl : Loaded m base files) (hp : Packable files) :
    (ramfsInit base).fileCount m = files.length := by
  have h := (hl.holds_parts hp).1
  rw [headerBytes, holds_append, holds_append, length_leBytes] at h
  have := h.1.2.load_leBytes
  rw [Handle.fileCount, ramfsInit, this]
  exact Nat.mod_eq_of_lt (lt_trans hp.countFits (by decide))

/-- The entries behind the first one stand `84` bytes further on. -/
lemma holds_entries_cons {a off : ℕ} {f : Input} {fs : List Input}
    (h : Holds m a ((entriesFrom off (f :: fs)).flatMap Entry.bytes)) :
    Holds m a (Entry.bytes ⟨nameField (basename f.path), off, f.data.length,
        crc32Byte f.data f.data.length⟩) ∧
      Holds m (a + 84) ((entriesFrom (off + f.data.length) fs).flatMap Entry.bytes) := by
  rw [entriesFrom, List.flatMap_cons, holds_append] at h
  rwa [Entry.length_bytes (length_nameField _)] at h

/-- The three fields of a packed entry that the kernel knows. -/
lemma holds_entry_bytes {a : ℕ} {e : Entry} (hname : e.name.length = 64)
    (h : Holds m a e.bytes) :
    Holds m a e.name ∧ m.load (a + 64) 8 = e.offset % 2 ^ 64 ∧
      m.load (a + 72) 8 = e.size % 2 ^ 64 := by
  rw [Entry.bytes, holds_append, holds_append, holds_append] at h
  simp only [List.length_append, length_leBytes, hname] at h
  exact ⟨h.1.1.1, h.1.1.2.load_leBytes, h.1.2.load_leBytes⟩

/-- A name of at most 63 bytes is terminated inside its field. -/
lemma holds_terminated_of_nameField {a : ℕ} {name : List UInt8} (hlen : name.length ≤ 63)
    (h : Holds m a (nameField name)) : Holds m a (name ++ [0]) := by
  have hsplit : nameField name = (name ++ [0]) ++ List.replicate (63 - name.length) 0 := by
    rw [nameField, List.take_of_length_le hlen, List.append_assoc,
      show 64 - name.length = 1 + (63 - name.length) by omega, List.replicate_add]
    rfl
  rw [hsplit, holds_append] at h
  exact h.1

end Loaded

/-! ## One file -/

section Single

variable {m : Memory} {base : ℕ}

/-- With one file packed, the kernel's only entry is the packer's. -/
lemma readsBack_of_single {f : Input} (hp : Packable [f]) (hl : Loaded m base [f]) :
    ReadsBack m base [f] := by
  have hmem : f ∈ [f] := List.mem_singleton_self f
  have hcount : (ramfsInit base).fileCount m = 1 := hl.fileCount_eq hp
  have hentry : (ramfsInit base).entry 0 = base + 16 := by simp [ramfsInit, Handle.entry]
  obtain ⟨-, htable, hdata⟩ := hl.holds_parts hp
  obtain ⟨hname, hoff, hsize⟩ :=
    holds_entry_bytes (length_nameField _) (holds_entries_cons htable).1
  have hstring := holds_terminated_of_nameField (hp.nameFits f hmem) hname
  have hfits := hl.fits
  have hstart : dataStart 1 < 2 ^ 64 := by decide
  replace hoff : m.load (base + 16 + 64) 8 = dataStart 1 := hoff.trans (Nat.mod_eq_of_lt hstart)
  rw [Nat.mod_eq_of_lt (lt_trans (hp.sizeFits f hmem) (by decide))] at hsize
  have hlen : imageSize [f] = dataStart 1 + f.data.length := by simp [imageSize]
  refine ⟨?_, ?_⟩
  · intro g hg
    rw [List.mem_singleton] at hg
    subst hg
    have hfind : ramfsGetFile m (ramfsInit base) (basename g.path) =
        ⟨wadd base (dataStart 1), g.data.length⟩ := by
      have hzero : strcmp m (basename g.path) (base + 16) = 0 :=
        (strcmp_eq_zero_iff (hp.noNul g hmem)).mpr hstring
      simp only [ramfsGetFile, hcount, List.range_one, List.find?_singleton, hentry, hzero,
        decide_true, if_true, hoff, hsize]
      rfl
    refine ⟨dataStart 1, hlen.ge, ?_, by simpa using hdata⟩
    rw [hfind, wadd_of_lt (by omega)]
  · intro name hnul hother
    have hne : strcmp m name (base + 16) ≠ 0 := by
      intro h
      have := eq_of_holds_terminated hnul (hp.noNul f hmem)
        ((strcmp_eq_zero_iff hnul).mp h) hstring
      simp [this] at hother
    simp [ramfsGetFile, hcount, List.range_one, hentry, hne]

end Single

/-! ## More than one file -/

section Several

variable {m : Memory} {base : ℕ} {files : List Input}

/-- A packed name that reads back is found at some entry, with the fields of that entry. -/
lemma ReadsBack.exists_entry (h : ReadsBack m base files) (hp : Packable files)
    (hl : Loaded m base files) (hbase : 0 < base) {f : Input} (hf : f ∈ files) :
    ∃ i < files.length, Holds m ((ramfsInit base).entry i) (basename f.path ++ [0]) ∧
      m.load ((ramfsInit base).entry i + 64) 8 ≤ imageSize files := by
  obtain ⟨off, hoff, hget, -⟩ := h.packed f hf
  have hfits := hl.fits
  rw [ramfsGetFile, hl.fileCount_eq hp] at hget
  split at hget
  · next i hfind =>
    refine ⟨i, List.mem_range.mp (List.mem_of_find?_eq_some hfind), ?_, ?_⟩
    · exact (strcmp_eq_zero_iff (hp.noNul f hf)).mp
        (by simpa using List.find?_some hfind)
    · have hlt := m.load_lt ((ramfsInit base).entry i + 64) 8
      have hptr : (base + m.load ((ramfsInit base).entry i + 64) 8) % word = base + off :=
        (File.mk.inj hget).1
      simp only [word] at hptr hfits
      omega
  · simp only [File.mk.injEq] at hget
    omega

/-- Every packed name sits at an entry of its own, so some name sits at entry `1`. -/
lemma ReadsBack.load_second_le (h : ReadsBack m base files) (hp : Packable files)
    (hl : Loaded m base files) (hbase : 0 < base) (htwo : 1 < files.length) :
    m.load ((ramfsInit base).entry 1 + 64) 8 ≤ imageSize files := by
  choose φ hφlt hφname hφload using
    fun i : Fin files.length => h.exists_entry hp hl hbase (files.getElem_mem i.2)
  let ψ : Fin files.length → Fin files.length := fun i => ⟨φ i, hφlt i⟩
  have hinj : Function.Injective ψ := by
    intro i j hij
    have hφ : φ i = φ j := congrArg Fin.val hij
    have hname := hφname j
    rw [← hφ] at hname
    have heq := eq_of_holds_terminated (hp.noNul _ (files.getElem_mem i.2))
      (hp.noNul _ (files.getElem_mem j.2)) (hφname i) hname
    have hnd := List.nodup_iff_injective_get.mp hp.distinct
    have := @hnd ⟨i, by simp⟩ ⟨j, by simp⟩ (by simpa using heq)
    exact Fin.ext (by simpa using this)
  obtain ⟨i, hi⟩ := Finite.surjective_of_injective hinj ⟨1, htwo⟩
  have : φ i = 1 := congrArg Fin.val hi
  rw [← this]
  exact hφload i

/-- The offset field of the kernel's entry `1` is read four bytes early: its upper half is
the lower half of the packer's. -/
lemma le_load_offset_second (hp : Packable files) (hl : Loaded m base files)
    (htwo : 1 < files.length) (hsmall : imageSize files < 2 ^ 32) :
    2 ^ 32 ≤ m.load ((ramfsInit base).entry 1 + 64) 8 := by
  obtain ⟨-, htable, -⟩ := hl.holds_parts hp
  match files, htwo with
  | f :: g :: fs, _ =>
    have hentry := (holds_entries_cons (holds_entries_cons htable).2).1
    rw [Entry.bytes, holds_append, holds_append, holds_append] at hentry
    simp only [List.length_append, length_leBytes, length_nameField] at hentry
    -- the packer's offset of the second file, and its first four bytes
    set off := dataStart (f :: g :: fs).length + f.data.length with hoff
    have hpos : 0 < off := by simp [hoff, dataStart, headerSize]
    have hlt : off < 2 ^ 32 := by
      simp only [imageSize, List.flatMap_cons, List.length_append] at hsmall
      omega
    have hlow : m.load (base + 164) 4 = off := by
      have hload : m.load (base + 16 + 84 + 64) 8 = off % 256 ^ 8 := hentry.1.1.2.load_leBytes
      rw [Nat.mod_eq_of_lt (lt_trans hlt (by decide)),
        show base + 16 + 84 + 64 = base + 164 by omega, show 8 = 4 + 4 from rfl,
        Memory.load_add] at hload
      have := m.load_lt (base + 164) 4
      omega
    have haddr : (ramfsInit base).entry 1 + 64 = base + 160 := by
      simp [ramfsInit, Handle.entry, decoderEntrySize]
    rw [haddr, show 8 = 4 + 4 from rfl, Memory.load_add, show base + 160 + 4 = base + 164 by omega,
      hlow]
    omega

/-- **The round trip, exactly.**  A single packed file reads back, whatever its size; and of
the images below 4 GiB only those of a single file do. -/
theorem readsBack_iff_single (hp : Packable files) (hl : Loaded m base files) (hbase : 0 < base) :
    (files.length = 1 → ReadsBack m base files) ∧
      (imageSize files < 2 ^ 32 → (ReadsBack m base files ↔ files.length = 1)) := by
  have hsingle : files.length = 1 → ReadsBack m base files := by
    intro hlen
    obtain ⟨f, rfl⟩ := List.length_eq_one_iff.mp hlen
    exact readsBack_of_single hp hl
  refine ⟨hsingle, fun hsmall => ⟨fun h => ?_, hsingle⟩⟩
  by_contra hlen
  have hpos : 0 < files.length := List.length_pos_iff.mpr hp.nonempty
  have hload := h.load_second_le hp hl hbase (by omega)
  have := le_load_offset_second hp hl (by omega) hsmall
  omega

end Several

/-! ## Two small images -/

/-- A memory that holds `image` at `base` and zeros elsewhere. -/
def memoryAt (base : ℕ) (image : List UInt8) : Memory := fun x => image.getD (x - base) 0

lemma holds_memoryAt (base : ℕ) (image : List UInt8) : Holds (memoryAt base image) base image := by
  rw [holds_iff_getElem]
  intro i hi
  simp [memoryAt, hi]

lemma loaded_memoryAt {base : ℕ} {files : List Input} (hp : Packable files)
    (hfits : base + imageSize files < word) :
    Loaded (memoryAt base ((main files).getD [])) base files := by
  refine ⟨⟨_, main_eq hp.nonempty hp.readable, ?_⟩, hfits⟩
  rw [main_eq hp.nonempty hp.readable]
  exact holds_memoryAt _ _

/-- The file `a` with one byte. -/
def oneFile : List Input := [⟨[97], some [1]⟩]

/-- The files `a` and `b` with one byte each. -/
def twoFiles : List Input := [⟨[97], some [1]⟩, ⟨[98], some [2]⟩]

lemma packable_oneFile : Packable oneFile := by
  constructor <;> simp [oneFile, basename, Input.data]

lemma packable_twoFiles : Packable twoFiles := by
  constructor <;> simp [twoFiles, basename, Input.data]

/-- The image of one file reads back. -/
theorem readsBack_oneFile :
    ReadsBack (memoryAt 4096 ((main oneFile).getD [])) 4096 oneFile :=
  (readsBack_iff_single packable_oneFile
    (loaded_memoryAt packable_oneFile (by decide)) (by decide)).1 rfl

/-- The image of two files does not: the kernel cannot find the second one. -/
theorem not_readsBack_twoFiles :
    Packable twoFiles ∧ Loaded (memoryAt 4096 ((main twoFiles).getD [])) 4096 twoFiles ∧
      ramfsGetFile (memoryAt 4096 ((main twoFiles).getD [])) (ramfsInit 4096) [98] = ⟨0, 0⟩ ∧
      ¬ ReadsBack (memoryAt 4096 ((main twoFiles).getD [])) 4096 twoFiles := by
  have hget : ramfsGetFile (memoryAt 4096 ((main twoFiles).getD [])) (ramfsInit 4096) [98] =
      ⟨0, 0⟩ := by decide +kernel
  refine ⟨packable_twoFiles, loaded_memoryAt packable_twoFiles (by decide), hget, fun h => ?_⟩
  obtain ⟨off, -, hb, -⟩ := h.packed ⟨[98], some [2]⟩ (by simp [twoFiles])
  rw [show basename ([98] : List UInt8) = [98] from by decide, hget] at hb
  have := (File.mk.inj hb).1
  omega

end Cuore.Ramfs
