import Cuore.Framework.Bytes

/-!
# Packing a ramfs image (`tools/mkramfs.c`)

`mkramfs` writes a 16-byte header, leaves room for one table entry per file, appends the file
contents and then seeks back to fill in the table.  The output file is modelled by its bytes
and its position, with `fwrite` and `fseek` on it, so that the order of the writes is the
source's own.  `mkramfs_eq` says what comes out: header, table and contents one after the
other.

The encoder's `ramfs_entry_t` is 84 bytes long: a 64-byte name, the offset, the size and a
CRC-32 of the contents.
-/

namespace Cuore.Mkramfs

/-! ## CRC-32 -/

/-- `crc32_fill`: entry `index` of the table, eight shifts with the reflected polynomial. -/
def crc32Fill (index : ℕ) : ℕ :=
  (List.range 8).foldl
    (fun x _ => if x % 2 = 1 then (x >>> 1) ^^^ 0xEDB88320 else x >>> 1) index

/-- `crc32_byte` over the first `bytelength` bytes of `p`; the length parameter is 32 bits
wide. -/
def crc32Byte (p : List UInt8) (bytelength : ℕ) : ℕ :=
  (p.take (bytelength % 2 ^ 32)).foldl
    (fun crc b => crc32Fill ((crc % 256) ^^^ b.toNat) ^^^ (crc >>> 8)) 0xffffffff ^^^ 0xffffffff

/-! ## The output file -/

/-- A file opened for writing: its bytes and the position of the next write. -/
structure OutFile where
  bytes : List UInt8
  pos : ℕ

/-- `fwrite`: overwrite from the position on, filling a gap behind the end with zeros.
Writing nothing leaves the file alone. -/
def OutFile.fwrite (bs : List UInt8) (f : OutFile) : OutFile :=
  if bs = [] then f else
    ⟨(f.bytes ++ List.replicate (f.pos - f.bytes.length) 0).take f.pos ++ bs ++
      f.bytes.drop (f.pos + bs.length), f.pos + bs.length⟩

/-- `fseek(f, off, SEEK_SET)`. -/
def OutFile.fseekSet (off : ℕ) (f : OutFile) : OutFile := { f with pos := off }

/-- `fseek(f, off, SEEK_CUR)`. -/
def OutFile.fseekCur (off : ℕ) (f : OutFile) : OutFile := { f with pos := f.pos + off }

/-! ## Header and table -/

/-- `RAMFS_MAGIC`. -/
def ramfsMagic : ℕ := 0x494E495452414D21

/-- `sizeof(ramfs_header_t)`. -/
def headerSize : ℕ := 16

/-- The bytes of the packed `ramfs_header_t`. -/
def headerBytes (numFiles : ℕ) : List UInt8 :=
  leBytes 8 ramfsMagic ++ leBytes 4 numFiles ++ leBytes 4 0

/-- The encoder's `ramfs_entry_t`. -/
structure Entry where
  name : List UInt8
  offset : ℕ
  size : ℕ
  checksum : ℕ

/-- An entry as `calloc` leaves it. -/
def Entry.zero : Entry := ⟨List.replicate 64 0, 0, 0, 0⟩

/-- `sizeof(ramfs_entry_t)` of the encoder. -/
def entrySize : ℕ := 84

/-- The bytes of the packed entry. -/
def Entry.bytes (e : Entry) : List UInt8 :=
  e.name ++ leBytes 8 e.offset ++ leBytes 8 e.size ++ leBytes 4 e.checksum

/-- `strncpy(name, filename, 63)` into a zeroed 64-byte field. -/
def nameField (filename : List UInt8) : List UInt8 :=
  filename.take 63 ++ List.replicate (64 - (filename.take 63).length) 0

/-! ## `main` -/

/-- An input: its path as given on the command line, and its contents if it can be opened. -/
structure Input where
  path : List UInt8
  contents : Option (List UInt8)

/-- The part of a path behind the last `/` (`strrchr`). -/
def basename (path : List UInt8) : List UInt8 :=
  (path.reverse.takeWhile (· ≠ 47)).reverse

/-- One round of the packing loop: append the contents and fill in the entry.  A file that
cannot be opened leaves its zeroed entry behind. -/
def packOne (out : OutFile × ℕ) (f : Input) : (OutFile × ℕ) × Entry :=
  match f.contents with
  | none => (out, Entry.zero)
  | some buf =>
    ((out.1.fwrite buf, out.2 + buf.length),
      ⟨nameField (basename f.path), out.2, buf.length, crc32Byte buf buf.length⟩)

/-- The packing loop: the file afterwards and the table. -/
def packAll : OutFile × ℕ → List Input → OutFile × List Entry
  | out, [] => (out.1, [])
  | out, f :: fs =>
    let (out', e) := packOne out f
    let (file, es) := packAll out' fs
    (file, e :: es)

/-- `main`: the image written for the files on the command line; without files it prints its
usage and writes none. -/
def main (files : List Input) : Option (List UInt8) :=
  if files.length < 1 then none
  else
    let numFiles := files.length
    let out := OutFile.fwrite (headerBytes numFiles) ⟨[], 0⟩
    let tablePos := out.pos
    let out := out.fseekCur (numFiles * entrySize)
    let (out, table) := packAll (out, headerSize + numFiles * entrySize) files
    let out := (out.fseekSet tablePos).fwrite (table.flatMap Entry.bytes)
    some out.bytes

/-! ## The image -/

/-- The bytes of an input that can be opened. -/
def Input.data (f : Input) : List UInt8 := f.contents.getD []

/-- The table entries of readable files whose contents start at `off`. -/
def entriesFrom : ℕ → List Input → List Entry
  | _, [] => []
  | off, f :: fs =>
    ⟨nameField (basename f.path), off, f.data.length, crc32Byte f.data f.data.length⟩ ::
      entriesFrom (off + f.data.length) fs

@[simp] lemma length_entriesFrom (off : ℕ) (fs : List Input) :
    (entriesFrom off fs).length = fs.length := by
  induction fs generalizing off with
  | nil => rfl
  | cons f fs ih => simp [entriesFrom, ih]

lemma length_nameField (filename : List UInt8) : (nameField filename).length = 64 := by
  simp only [nameField, List.length_append, List.length_replicate, List.length_take]
  omega

lemma Entry.length_bytes {e : Entry} (h : e.name.length = 64) : e.bytes.length = entrySize := by
  simp [Entry.bytes, h, entrySize]

lemma length_name_of_mem {off : ℕ} {fs : List Input} {e : Entry} (h : e ∈ entriesFrom off fs) :
    e.name.length = 64 := by
  induction fs generalizing off with
  | nil => simp [entriesFrom] at h
  | cons f fs ih =>
    rcases List.mem_cons.mp h with rfl | h
    · exact length_nameField _
    · exact ih h

lemma length_headerBytes (n : ℕ) : (headerBytes n).length = headerSize := by
  simp [headerBytes, headerSize]

/-- The output file while the contents are being appended behind a table that is still to be
written: header, and behind the gap the contents so far, unless nothing was written there. -/
def Appending (header : List UInt8) (gap : ℕ) (sofar : List UInt8) (f : OutFile) : Prop :=
  f.pos = header.length + gap + sofar.length ∧
    f.bytes = header ++ if sofar = [] then [] else List.replicate gap 0 ++ sofar

lemma Appending.fwrite {header sofar bs : List UInt8} {gap : ℕ} {f : OutFile}
    (h : Appending header gap sofar f) : Appending header gap (sofar ++ bs) (f.fwrite bs) := by
  obtain ⟨hpos, hbytes⟩ := h
  by_cases hbs : bs = []
  · subst hbs
    simpa [OutFile.fwrite, Appending] using And.intro hpos hbytes
  · rw [OutFile.fwrite, if_neg hbs]
    refine ⟨by simp only [List.length_append]; omega, ?_⟩
    rw [if_neg (by simp [hbs])]
    by_cases hso : sofar = []
    · subst hso
      simp only [if_true, List.append_nil, List.length_nil, Nat.add_zero] at hbytes hpos
      simp only [hpos, hbytes, Nat.add_sub_cancel_left, List.nil_append, List.append_assoc]
      rw [List.drop_eq_nil_of_le (by omega), List.append_nil,
        ← List.append_assoc, List.take_of_length_le (by simp), List.append_assoc]
    · rw [if_neg hso] at hbytes
      have hlen : f.bytes.length = f.pos := by
        rw [hbytes, hpos]
        simp only [List.length_append, List.length_replicate]
        omega
      rw [hlen, Nat.sub_self, List.replicate_zero, List.append_nil,
        List.take_of_length_le hlen.le, List.drop_eq_nil_of_le (by omega), List.append_nil, hbytes]
      simp only [List.append_assoc]

/-- The packing loop on readable files. -/
lemma packAll_spec {header : List UInt8} {gap : ℕ} {fs : List Input}
    (hread : ∀ f ∈ fs, f.contents.isSome) :
    ∀ (sofar : List UInt8) (file : OutFile) (off : ℕ), Appending header gap sofar file →
      Appending header gap (sofar ++ fs.flatMap Input.data) (packAll (file, off) fs).1 ∧
        (packAll (file, off) fs).2 = entriesFrom off fs := by
  induction fs with
  | nil =>
    intro sofar file off h
    simpa [packAll, entriesFrom] using h
  | cons f fs ih =>
    intro sofar file off h
    obtain ⟨buf, hbuf⟩ := Option.isSome_iff_exists.mp (hread f (by simp))
    have hdata : f.data = buf := by simp [Input.data, hbuf]
    obtain ⟨h1, h2⟩ := ih (fun g hg => hread g (List.mem_cons_of_mem _ hg)) (sofar ++ buf)
      (file.fwrite buf) (off + buf.length) h.fwrite
    simp only [packAll, packOne, hbuf, List.flatMap_cons, entriesFrom, hdata, h2]
    rw [List.append_assoc] at h1
    exact ⟨h1, trivial⟩

lemma length_flatMap_entry_bytes (off : ℕ) (fs : List Input) :
    ((entriesFrom off fs).flatMap Entry.bytes).length = fs.length * entrySize := by
  rw [List.length_flatMap, List.map_congr_left (g := fun _ => entrySize)
    (fun e he => Entry.length_bytes (length_name_of_mem he))]
  simp [Nat.mul_comm]

/-- Where the file contents start in an image of `n` files. -/
def dataStart (n : ℕ) : ℕ := headerSize + n * entrySize

/-- Writing the table into the gap completes the image. -/
lemma Appending.fwrite_table {header table sofar : List UInt8} {gap : ℕ} {f : OutFile}
    (h : Appending header gap sofar f) (htable : table.length = gap) (hgap : 0 < gap) :
    ((f.fseekSet header.length).fwrite table).bytes = header ++ table ++ sofar := by
  have hne : table ≠ [] := List.ne_nil_of_length_pos (by omega)
  obtain ⟨-, hbytes⟩ := h
  simp only [OutFile.fwrite, OutFile.fseekSet, if_neg hne, hbytes]
  split_ifs with hso
  · simp [hso]
  · rw [List.take_append_of_le_length (by simp), List.take_left, ← List.append_assoc header,
      List.drop_left' (by simp [htable])]

/-- **The image is header, table and contents in a row.** -/
lemma main_eq {files : List Input} (hne : files ≠ []) (hread : ∀ f ∈ files, f.contents.isSome) :
    main files = some (headerBytes files.length ++
      (entriesFrom (dataStart files.length) files).flatMap Entry.bytes ++
      files.flatMap Input.data) := by
  have hlen : 0 < files.length := List.length_pos_iff.mpr hne
  have hne' : headerBytes files.length ≠ [] :=
    List.ne_nil_of_length_pos (by rw [length_headerBytes]; decide)
  have hpos : (OutFile.fwrite (headerBytes files.length) ⟨[], 0⟩).pos =
      (headerBytes files.length).length := by
    simp [OutFile.fwrite, hne']
  have hstart : Appending (headerBytes files.length) (files.length * entrySize) []
      (OutFile.fseekCur (files.length * entrySize)
        (OutFile.fwrite (headerBytes files.length) ⟨[], 0⟩)) := by
    simp [Appending, OutFile.fseekCur, OutFile.fwrite, hne']
  obtain ⟨happ, htab⟩ := packAll_spec hread _ _ (dataStart files.length) hstart
  have himage := happ.fwrite_table
    (length_flatMap_entry_bytes (dataStart files.length) files) (Nat.mul_pos hlen (by decide))
  rw [main, if_neg (by omega)]
  simp only [hpos]
  rw [← dataStart, htab, himage, List.nil_append]

end Cuore.Mkramfs
