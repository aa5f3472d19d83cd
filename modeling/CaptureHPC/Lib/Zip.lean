import CaptureHPC.Lib.LittleEndian

/-!
# Archives in the ZIP format

Local entries whose sizes stand in their headers, the records of the central directory, and the
end-of-directory record.

* `Archive`: the three parts, one behind the other; `Archive.Valid`: the directory lists the entries.
* `scanDirectory`: the scan of a directory by the lengths that its records declare. A scan of records
  gives them back (`scanDirectory_records`), and it consumes what they declare (`scanDirectory_length`).
-/

namespace Lib.Zip

abbrev Bytes := List UInt8

/-- The `n` bytes from position `o` on. -/
def slice (o n : ℕ) (bytes : Bytes) : Bytes := (bytes.drop o).take n

section slice

variable {a b : Bytes} {o n : ℕ}

theorem slice_cons (byte : UInt8) (o n : ℕ) (bytes : Bytes) : slice (o + 1) n (byte :: bytes) = slice o n bytes := rfl

theorem slice_skip (h : a.length ≤ o) : slice o n (a ++ b) = slice (o - a.length) n b := by
  rw [slice, slice, List.drop_append, List.drop_eq_nil_of_le h, List.nil_append]

theorem slice_here (h : a.length = n) : slice 0 n (a ++ b) = a := by
  rw [slice, List.drop_zero, ← h, List.take_left]

theorem length_slice (h : o + n ≤ a.length) : (slice o n a).length = n := by
  rw [slice, List.length_take, List.length_drop]
  omega

/-- A slice of a prefix that contains it. -/
theorem slice_take {k : ℕ} (h : o + n ≤ k) : slice o n (a.take k) = slice o n a := by
  rw [slice, slice, List.drop_take, List.take_take, Nat.min_eq_left (by omega)]

end slice

/-! ## The three kinds of records -/

def localSignature : Bytes := [0x50, 0x4B, 3, 4]

def centralSignature : Bytes := [0x50, 0x4B, 1, 2]

def endSignature : Bytes := [0x50, 0x4B, 5, 6]

/-- An entry with its data, whose size is in the header. -/
structure LocalEntry where
  version : Vector UInt8 2
  flags : Vector UInt8 2
  method : Vector UInt8 2
  time : Vector UInt8 4
  crc : Vector UInt8 4
  /-- The size of the data when they are uncompressed. -/
  usize : Vector UInt8 4
  name : Bytes
  extra : Bytes
  data : Bytes
  name_lt : name.length < 2 ^ 16
  extra_lt : extra.length < 2 ^ 16
  data_lt : data.length < 2 ^ 32

namespace LocalEntry

def header (e : LocalEntry) : Bytes :=
  localSignature ++ (e.version.toList ++ (e.flags.toList ++ (e.method.toList ++ (e.time.toList ++ (e.crc.toList ++
    (toBytes 4 e.data.length ++ (e.usize.toList ++ (toBytes 2 e.name.length ++ toBytes 2 e.extra.length))))))))

def bytes (e : LocalEntry) : Bytes := e.header ++ (e.name ++ (e.extra ++ e.data))

def size (e : LocalEntry) : ℕ := 30 + e.name.length + e.extra.length + e.data.length

@[simp] theorem length_header (e : LocalEntry) : e.header.length = 30 := by
  simp [header, localSignature]

@[simp] theorem length_bytes (e : LocalEntry) : e.bytes.length = e.size := by
  rw [bytes, size, List.length_append, List.length_append, List.length_append, length_header]
  omega

variable (e : LocalEntry) (rest : Bytes)

theorem bytes_append : e.bytes ++ rest = localSignature ++ (e.version.toList ++ (e.flags.toList ++
    (e.method.toList ++ (e.time.toList ++ (e.crc.toList ++ (toBytes 4 e.data.length ++ (e.usize.toList ++
    (toBytes 2 e.name.length ++ (toBytes 2 e.extra.length ++ (e.name ++ (e.extra ++ (e.data ++ rest)))))))))))) := by
  simp only [bytes, header, List.append_assoc]

theorem slice_signature : slice 0 4 (e.bytes ++ rest) = localSignature := by
  rw [bytes_append]
  simp (disch := simp [localSignature]) [slice_here]

theorem slice_flags : slice 6 2 (e.bytes ++ rest) = e.flags.toList := by
  rw [bytes_append]
  simp (disch := simp [localSignature]) [slice_skip, slice_here]

theorem slice_method : slice 8 2 (e.bytes ++ rest) = e.method.toList := by
  rw [bytes_append]
  simp (disch := simp [localSignature]) [slice_skip, slice_here]

theorem slice_time : slice 10 4 (e.bytes ++ rest) = e.time.toList := by
  rw [bytes_append]
  simp (disch := simp [localSignature]) [slice_skip, slice_here]

theorem slice_crc : slice 14 4 (e.bytes ++ rest) = e.crc.toList := by
  rw [bytes_append]
  simp (disch := simp [localSignature]) [slice_skip, slice_here]

theorem slice_usize : slice 22 4 (e.bytes ++ rest) = e.usize.toList := by
  rw [bytes_append]
  simp (disch := simp [localSignature]) [slice_skip, slice_here]

theorem slice_csize : slice 18 4 (e.bytes ++ rest) = toBytes 4 e.data.length := by
  rw [bytes_append]
  simp (disch := simp [localSignature]) [slice_skip, slice_here]

theorem slice_nameLength : slice 26 2 (e.bytes ++ rest) = toBytes 2 e.name.length := by
  rw [bytes_append]
  simp (disch := simp [localSignature]) [slice_skip, slice_here]

theorem slice_extraLength : slice 28 2 (e.bytes ++ rest) = toBytes 2 e.extra.length := by
  rw [bytes_append]
  simp (disch := simp [localSignature]) [slice_skip, slice_here]

theorem slice_name : slice 30 e.name.length (e.bytes ++ rest) = e.name := by
  rw [bytes_append]
  simp (disch := simp [localSignature]) [slice_skip, slice_here]

theorem header_le_size : 30 + e.name.length ≤ e.size := by
  unfold size
  omega

end LocalEntry

/-- A record of the central directory. -/
structure CentralRecord where
  /-- The versions it was made by and is to be read with. -/
  versions : Vector UInt8 4
  flags : Vector UInt8 2
  method : Vector UInt8 2
  time : Vector UInt8 4
  crc : Vector UInt8 4
  csize : Vector UInt8 4
  usize : Vector UInt8 4
  disk : Vector UInt8 2
  attributes : Vector UInt8 6
  offset : Vector UInt8 4
  name : Bytes
  extra : Bytes
  comment : Bytes
  name_lt : name.length < 2 ^ 16
  extra_lt : extra.length < 2 ^ 16
  comment_lt : comment.length < 2 ^ 16

namespace CentralRecord

def header (r : CentralRecord) : Bytes :=
  centralSignature ++ (r.versions.toList ++ (r.flags.toList ++ (r.method.toList ++ (r.time.toList ++
    (r.crc.toList ++ (r.csize.toList ++ (r.usize.toList ++ (toBytes 2 r.name.length ++ (toBytes 2 r.extra.length ++
    (toBytes 2 r.comment.length ++ (r.disk.toList ++ (r.attributes.toList ++ r.offset.toList))))))))))))

def bytes (r : CentralRecord) : Bytes := r.header ++ (r.name ++ (r.extra ++ r.comment))

def size (r : CentralRecord) : ℕ := 46 + r.name.length + r.extra.length + r.comment.length

@[simp] theorem length_header (r : CentralRecord) : r.header.length = 46 := by
  simp [header, centralSignature]

@[simp] theorem length_bytes (r : CentralRecord) : r.bytes.length = r.size := by
  rw [bytes, size, List.length_append, List.length_append, List.length_append, length_header]
  omega

variable (r : CentralRecord) (rest : Bytes)

theorem bytes_append : r.bytes ++ rest = centralSignature ++ (r.versions.toList ++ (r.flags.toList ++
    (r.method.toList ++ (r.time.toList ++ (r.crc.toList ++ (r.csize.toList ++ (r.usize.toList ++
    (toBytes 2 r.name.length ++ (toBytes 2 r.extra.length ++ (toBytes 2 r.comment.length ++ (r.disk.toList ++
    (r.attributes.toList ++ (r.offset.toList ++ (r.name ++ (r.extra ++ (r.comment ++ rest)))))))))))))))) := by
  simp only [bytes, header, List.append_assoc]

theorem slice_signature : slice 0 4 (r.bytes ++ rest) = centralSignature := by
  rw [bytes_append]
  simp (disch := simp [centralSignature]) [slice_here]

theorem slice_nameLength : slice 28 2 (r.bytes ++ rest) = toBytes 2 r.name.length := by
  rw [bytes_append]
  simp (disch := simp [centralSignature]) [slice_skip, slice_here]

theorem slice_extraLength : slice 30 2 (r.bytes ++ rest) = toBytes 2 r.extra.length := by
  rw [bytes_append]
  simp (disch := simp [centralSignature]) [slice_skip, slice_here]

theorem slice_commentLength : slice 32 2 (r.bytes ++ rest) = toBytes 2 r.comment.length := by
  rw [bytes_append]
  simp (disch := simp [centralSignature]) [slice_skip, slice_here]

end CentralRecord

/-- The record at the end of an archive. -/
structure EndRecord where
  disks : Vector UInt8 4
  diskEntries : Vector UInt8 2
  entries : Vector UInt8 2
  dirSize : Vector UInt8 4
  dirOffset : Vector UInt8 4
  comment : Bytes
  comment_lt : comment.length < 2 ^ 16

namespace EndRecord

def bytes (d : EndRecord) : Bytes :=
  endSignature ++ (d.disks.toList ++ (d.diskEntries.toList ++ (d.entries.toList ++ (d.dirSize.toList ++
    (d.dirOffset.toList ++ (toBytes 2 d.comment.length ++ d.comment))))))

theorem length_bytes (d : EndRecord) : d.bytes.length = 22 + d.comment.length := by
  simp [bytes, endSignature]
  omega

theorem slice_signature (d : EndRecord) : slice 0 4 d.bytes = endSignature := by
  simp [bytes, endSignature, slice]

theorem slice_dirOffset (d : EndRecord) : slice 16 4 d.bytes = d.dirOffset.toList := by
  unfold bytes
  simp (disch := simp [endSignature]) [slice_skip, slice_here]

theorem bytes_ne_nil (d : EndRecord) : d.bytes ≠ [] := by
  apply List.ne_nil_of_length_pos
  rw [d.length_bytes]
  omega

end EndRecord

/-! ## Archives -/

structure Archive where
  entries : List LocalEntry
  directory : List CentralRecord
  endRecord : EndRecord

/-- The bytes of entries that follow each other. -/
def entryBytes (es : List LocalEntry) : Bytes := es.flatMap LocalEntry.bytes

def recordBytes (rs : List CentralRecord) : Bytes := rs.flatMap CentralRecord.bytes

def Archive.bytes (a : Archive) : Bytes := entryBytes a.entries ++ (recordBytes a.directory ++ a.endRecord.bytes)

/-- The record describes the entry, which is at the offset. -/
structure Describes (e : LocalEntry) (offset : ℕ) (r : CentralRecord) : Prop where
  name : r.name = e.name
  flags : r.flags = e.flags
  method : r.method = e.method
  time : r.time = e.time
  crc : r.crc = e.crc
  csize : ofBytes r.csize.toList = e.data.length
  usize : r.usize = e.usize
  offset : ofBytes r.offset.toList = offset
  disk : ofBytes r.disk.toList = 0

/-- The records describe entries that follow each other, in order. -/
def Lists : ℕ → List LocalEntry → List CentralRecord → Prop
  | _, [], [] => True
  | offset, e :: es, r :: rs => Describes e offset r ∧ Lists (offset + e.size) es rs
  | _, _, _ => False

/-- The archive is well formed. -/
structure Archive.Valid (a : Archive) : Prop where
  lists : Lists 0 a.entries a.directory
  diskEntries : ofBytes a.endRecord.diskEntries.toList = a.directory.length
  entries : ofBytes a.endRecord.entries.toList = a.directory.length
  dirSize : ofBytes a.endRecord.dirSize.toList = (recordBytes a.directory).length
  dirOffset : ofBytes a.endRecord.dirOffset.toList = (entryBytes a.entries).length
  disks : ofBytes a.endRecord.disks.toList = 0

/-- Behind the end record no place looks like one, so a reader that searches from the back finds it. -/
def Archive.EndIsLast (a : Archive) : Prop :=
  ∀ o, (entryBytes a.entries).length + (recordBytes a.directory).length < o → o + 22 ≤ a.bytes.length →
    slice o 4 a.bytes ≠ endSignature

/-- The entries that lie wholly in the first `k` bytes. -/
def wholeEntries : ℕ → List LocalEntry → List LocalEntry
  | _, [] => []
  | k, e :: es => if e.size ≤ k then e :: wholeEntries (k - e.size) es else []

theorem Lists.length_eq {es : List LocalEntry} {rs : List CentralRecord} {offset : ℕ} (h : Lists offset es rs) :
    rs.length = es.length := by
  induction es generalizing rs offset with
  | nil =>
    cases rs with
    | nil => rfl
    | cons r rs => exact h.elim
  | cons e es ih =>
    cases rs with
    | nil => exact h.elim
    | cons r rs => rw [List.length_cons, List.length_cons, ih h.2]

theorem entryBytes_cons (e : LocalEntry) (es : List LocalEntry) :
    entryBytes (e :: es) = e.bytes ++ entryBytes es := List.flatMap_cons

theorem recordBytes_cons (r : CentralRecord) (rs : List CentralRecord) :
    recordBytes (r :: rs) = r.bytes ++ recordBytes rs := List.flatMap_cons

theorem entryBytes_append (es es' : List LocalEntry) :
    entryBytes (es ++ es') = entryBytes es ++ entryBytes es' := List.flatMap_append

/-- What lies in the first `k` bytes: whole entries, and perhaps a part of the next one. -/
theorem wholeEntries_split (k : ℕ) (es : List LocalEntry) :
    ∃ rest, es = wholeEntries k es ++ rest ∧ (entryBytes (wholeEntries k es)).length ≤ k ∧
      ∀ e rest', rest = e :: rest' → k < (entryBytes (wholeEntries k es)).length + e.size := by
  induction es generalizing k with
  | nil => exact ⟨[], rfl, Nat.zero_le _, fun e rest' h => nomatch h⟩
  | cons e es ih =>
    rw [wholeEntries]
    split_ifs with hfits
    · obtain ⟨rest, hsplit, hle, hnext⟩ := ih (k - e.size)
      refine ⟨rest, ?_, ?_, fun e' rest' h => ?_⟩
      · rw [List.cons_append, ← hsplit]
      · rw [entryBytes_cons, List.length_append, e.length_bytes]
        omega
      · have := hnext e' rest' h
        rw [entryBytes_cons, List.length_append, e.length_bytes]
        omega
    · refine ⟨e :: es, rfl, Nat.zero_le _, fun e' rest' h => ?_⟩
      obtain ⟨rfl, -⟩ := List.cons.inj h
      simp [entryBytes]
      omega

theorem wholeEntries_append {k : ℕ} {es rest : List LocalEntry} {e : LocalEntry} (h : (entryBytes es).length ≤ k)
    (h' : k < (entryBytes es).length + e.size) : wholeEntries k (es ++ e :: rest) = es := by
  induction es generalizing k with
  | nil =>
    simp only [entryBytes, List.flatMap_nil, List.length_nil] at h'
    rw [List.nil_append, wholeEntries, if_neg (by omega)]
  | cons e' es ih =>
    rw [entryBytes_cons, List.length_append, e'.length_bytes] at h h'
    rw [List.cons_append, wholeEntries, if_pos (by omega), ih (by omega) (by omega)]

/-- A valid archive has fewer than `2 ^ 16` entries. -/
theorem Archive.Valid.length_entries {a : Archive} (h : a.Valid) : a.entries.length < 2 ^ 16 := by
  have hlt := ofBytes_lt a.endRecord.entries.toList
  rw [Vector.length_toList, h.entries, h.lists.length_eq] at hlt
  exact hlt

/-! ## The scan of a directory -/

/-- What a directory says about an entry. -/
structure Listed where
  name : Bytes
  crc : Bytes
  csize : Bytes
  usize : Bytes
  offset : Bytes
  deriving DecidableEq

/-- The length of the record at the front, as it declares it. -/
def declaredSize (bytes : Bytes) : ℕ :=
  46 + ofBytes (slice 28 2 bytes) + ofBytes (slice 30 2 bytes) + ofBytes (slice 32 2 bytes)

/-- What the record at the front lists. -/
def listed (bytes : Bytes) : Listed where
  name := slice 46 (ofBytes (slice 28 2 bytes)) bytes
  crc := slice 16 4 bytes
  csize := slice 20 4 bytes
  usize := slice 24 4 bytes
  offset := slice 42 4 bytes

/-- The scan: what is listed, and the bytes behind the last record. -/
def scanDirectory : ℕ → Bytes → List Listed × Bytes
  | 0, bytes => ([], bytes)
  | fuel + 1, bytes =>
    if slice 0 4 bytes = centralSignature ∧ declaredSize bytes ≤ bytes.length then
      let (rest, tail) := scanDirectory fuel (bytes.drop (declaredSize bytes))
      (listed bytes :: rest, tail)
    else ([], bytes)

/-- What a record lists. -/
def CentralRecord.listing (r : CentralRecord) : Listed where
  name := r.name
  crc := r.crc.toList
  csize := r.csize.toList
  usize := r.usize.toList
  offset := r.offset.toList

section Record

variable (r : CentralRecord) (rest : Bytes)

theorem CentralRecord.declaredSize_bytes : declaredSize (r.bytes ++ rest) = r.size := by
  rw [declaredSize, r.slice_nameLength, r.slice_extraLength, r.slice_commentLength, ofBytes_toBytes_of_lt r.name_lt,
    ofBytes_toBytes_of_lt r.extra_lt, ofBytes_toBytes_of_lt r.comment_lt, CentralRecord.size]

theorem CentralRecord.listed_bytes : listed (r.bytes ++ rest) = r.listing := by
  have hname : slice 46 r.name.length (r.bytes ++ rest) = r.name := by
    rw [r.bytes_append]
    simp (disch := simp [centralSignature]) [slice_skip, slice_here]
  rw [listed, r.slice_nameLength, ofBytes_toBytes_of_lt r.name_lt, hname, r.bytes_append]
  simp (disch := simp [centralSignature]) [slice_skip, slice_here, CentralRecord.listing]

end Record

theorem scanDirectory_step {fuel : ℕ} {bytes : Bytes} (hsignature : slice 0 4 bytes = centralSignature)
    (hsize : declaredSize bytes ≤ bytes.length) :
    scanDirectory (fuel + 1) bytes =
      (listed bytes :: (scanDirectory fuel (bytes.drop (declaredSize bytes))).1,
        (scanDirectory fuel (bytes.drop (declaredSize bytes))).2) := by
  rw [scanDirectory, if_pos ⟨hsignature, hsize⟩]

theorem scanDirectory_stop {fuel : ℕ} {bytes : Bytes} (hsignature : slice 0 4 bytes ≠ centralSignature) :
    scanDirectory fuel bytes = ([], bytes) := by
  cases fuel with
  | zero => rfl
  | succ fuel => rw [scanDirectory, if_neg fun h => hsignature h.1]

/-- **A scan of records gives them back.** -/
theorem scanDirectory_records {fuel : ℕ} {rs : List CentralRecord} {tail : Bytes} (hfuel : rs.length ≤ fuel)
    (htail : slice 0 4 tail ≠ centralSignature) :
    scanDirectory fuel (recordBytes rs ++ tail) = (rs.map CentralRecord.listing, tail) := by
  induction rs generalizing fuel with
  | nil => exact scanDirectory_stop htail
  | cons r rs ih =>
    cases fuel with
    | zero => exact absurd hfuel (Nat.not_succ_le_zero _)
    | succ fuel =>
      have hdrop : (r.bytes ++ (recordBytes rs ++ tail)).drop r.size = recordBytes rs ++ tail := by
        rw [← r.length_bytes, List.drop_left]
      rw [recordBytes_cons, List.append_assoc,
        scanDirectory_step (r.slice_signature _) (by rw [r.declaredSize_bytes]; simp), r.declaredSize_bytes, hdrop,
        ih (Nat.le_of_succ_le_succ hfuel), r.listed_bytes, List.map_cons]

theorem length_name_listed {bytes : Bytes} (h : declaredSize bytes ≤ bytes.length) :
    (listed bytes).name.length = ofBytes (slice 28 2 bytes) := by
  unfold declaredSize at h
  exact length_slice (by omega)

/-- **A scan consumes what the records declare.** -/
theorem scanDirectory_length (fuel : ℕ) (bytes : Bytes) :
    (scanDirectory fuel bytes).2.length + ((scanDirectory fuel bytes).1.map fun r => 46 + r.name.length).sum ≤
      bytes.length := by
  induction fuel generalizing bytes with
  | zero => simp [scanDirectory]
  | succ fuel ih =>
    unfold scanDirectory
    split_ifs with h
    · have hrest := ih (bytes.drop (declaredSize bytes))
      have hname := length_name_listed h.2
      have hsize : 46 + ofBytes (slice 28 2 bytes) ≤ declaredSize bytes := by
        unfold declaredSize
        omega
      rw [List.length_drop] at hrest
      simp only [List.map_cons, List.sum_cons]
      omega
    · simp

end Lib.Zip
