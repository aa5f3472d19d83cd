import CaptureHPC.Proof.ZippaSteps

/-!
# Archives that are not cut

* `process_entry`, `process_record`: a call at a whole entry or record goes on behind it.
* `process_entries`: so whole entries are collected, one after the other.
* `processZipFile_intact`: the processing of an archive comes to its end record and repairs nothing.
-/

namespace CaptureHPC

open Lib Zip

variable {arg : String} {z : Zippa}

theorem slice_behind (a b : Bytes) (k n : ℕ) : slice (a.length + k) n (a ++ b) = slice k n b := by
  rw [slice_skip (Nat.le_add_right _ _), Nat.add_sub_cancel_left]

theorem slice_at (a b : Bytes) (n : ℕ) : slice a.length n (a ++ b) = slice 0 n b := slice_behind a b 0 n

/-- Where an entry ends. -/
theorem localNext_entry (a : Bytes) (e : LocalEntry) (rest : Bytes) :
    localNext (a ++ (e.bytes ++ rest)) a.length = wrap ((a.length + e.size : ℕ) : ℤ) := by
  rw [localNext, slice_behind, slice_behind, slice_behind, e.slice_nameLength, e.slice_extraLength, e.slice_csize,
    ofBytes_toBytes_of_lt e.name_lt, ofBytes_toBytes_of_lt e.extra_lt, ofBytes_toBytes_of_lt e.data_lt,
    LocalEntry.size]
  push_cast
  ring_nf

theorem centralNext_record (a : Bytes) (r : CentralRecord) (rest : Bytes) :
    centralNext (a ++ (r.bytes ++ rest)) a.length = wrap ((a.length + r.size : ℕ) : ℤ) := by
  rw [centralNext, slice_behind, slice_behind, slice_behind, r.slice_nameLength, r.slice_extraLength,
    r.slice_commentLength, ofBytes_toBytes_of_lt r.name_lt, ofBytes_toBytes_of_lt r.extra_lt,
    ofBytes_toBytes_of_lt r.comment_lt, CentralRecord.size]
  push_cast
  ring_nf

section Whole

variable {data a rest : Bytes} {fuel : ℕ} (hdata : data.length < 2 ^ 31)
include hdata

/-- A call at an entry, with something behind it. -/
theorem process_entry {e : LocalEntry} (hshape : data = a ++ (e.bytes ++ rest)) (hrest : rest ≠ []) :
    (processZipFile arg data (fuel + 1) a.length).run z =
      (processZipFile arg data fuel ((a ++ e.bytes).length : ℕ)).run
        { z with lastOffset := a.length, lfes := z.lfes ++ [entryAt data a.length] } := by
  subst hshape
  have hpos : 0 < rest.length := List.length_pos_iff.2 hrest
  have hsize : 30 ≤ e.size := by
    unfold LocalEntry.size
    omega
  have hlength : (a ++ (e.bytes ++ rest)).length = a.length + e.size + rest.length := by
    simp only [List.length_append, LocalEntry.length_bytes]
    omega
  have hsignature : slice a.length 4 (a ++ (e.bytes ++ rest)) = localSignature := by
    rw [slice_at, e.slice_signature]
  rw [process_run hdata (by omega), if_pos hsignature, processLocal_run hdata rfl (by omega), localNext_entry,
    wrap_eq (by omega) (by omega), if_pos (by omega), List.length_append, e.length_bytes]

/-- A call at a record of the directory. -/
theorem process_record {r : CentralRecord} (hshape : data = a ++ (r.bytes ++ rest)) (hrest : rest ≠ []) :
    (processZipFile arg data (fuel + 1) a.length).run z =
      (processZipFile arg data fuel ((a ++ r.bytes).length : ℕ)).run { z with lastOffset := a.length } := by
  subst hshape
  have hpos : 0 < rest.length := List.length_pos_iff.2 hrest
  have hsize : 46 ≤ r.size := by
    unfold CentralRecord.size
    omega
  have hlength : (a ++ (r.bytes ++ rest)).length = a.length + r.size + rest.length := by
    simp only [List.length_append, CentralRecord.length_bytes]
    omega
  have hsignature : slice a.length 4 (a ++ (r.bytes ++ rest)) = centralSignature := by
    rw [slice_at, r.slice_signature]
  have hlocal : slice a.length 4 (a ++ (r.bytes ++ rest)) ≠ localSignature := by
    rw [hsignature]
    decide
  rw [process_run hdata (by omega), if_neg hlocal, if_pos hsignature, processCentral_run hdata (by omega),
    centralNext_record, wrap_eq (by omega) (by omega), if_pos (by omega), List.length_append, r.length_bytes]

/-- A call at the end record is the last one. -/
theorem process_endRecord {d : EndRecord} (hshape : data = a ++ d.bytes) :
    (processZipFile arg data (fuel + 1) a.length).run z = .ok () { z with lastOffset := a.length } := by
  subst hshape
  have hlength : (a ++ d.bytes).length = a.length + (22 + d.comment.length) := by
    rw [List.length_append, d.length_bytes]
  have hsignature : slice a.length 4 (a ++ d.bytes) = endSignature := by
    rw [slice_at]
    simp [EndRecord.bytes, endSignature, slice]
  have hlocal : slice a.length 4 (a ++ d.bytes) ≠ localSignature := by
    rw [hsignature]
    decide
  have hcentral : slice a.length 4 (a ++ d.bytes) ≠ centralSignature := by
    rw [hsignature]
    decide
  rw [process_run hdata (by omega), if_neg hlocal, if_neg hcentral, if_pos hsignature,
    processEnd_run hdata (by omega)]

/-! ## Entries that follow each other -/

/-- What is collected of entries that follow each other from `o` on. -/
def entriesAt (data : Bytes) : ℕ → List LocalEntry → List LocalFileEntry
  | _, [] => []
  | o, e :: es => entryAt data o :: entriesAt data (o + e.size) es

omit hdata in
theorem entriesAt_append (data : Bytes) (o : ℕ) (e : LocalEntry) (es : List LocalEntry)
    (lfes : List LocalFileEntry) :
    lfes ++ [entryAt data o] ++ entriesAt data (o + e.size) es = lfes ++ entriesAt data o (e :: es) := by
  rw [entriesAt, List.append_assoc, List.singleton_append]

/-- **Whole entries are collected**, as long as something is behind them. The call sets the offset itself. -/
theorem process_entries {es : List LocalEntry}
    (hshape : data = a ++ (entryBytes es ++ rest)) (hrest : rest ≠ []) :
    (processZipFile arg data (fuel + 1 + es.length) a.length).run z =
      (processZipFile arg data (fuel + 1) ((a ++ entryBytes es).length : ℕ)).run
        { z with lfes := z.lfes ++ entriesAt data a.length es } := by
  induction es generalizing a z with
  | nil => simp [entryBytes, entriesAt]
  | cons e es ih =>
    have hne : entryBytes es ++ rest ≠ [] := List.append_ne_nil_of_right_ne_nil _ hrest
    have hhere : data = a ++ (e.bytes ++ (entryBytes es ++ rest)) := by
      rw [hshape, entryBytes_cons, List.append_assoc]
    have hthere : data = (a ++ e.bytes) ++ (entryBytes es ++ rest) := by
      rw [hhere, List.append_assoc]
    have hbehind : a ++ entryBytes (e :: es) = a ++ e.bytes ++ entryBytes es := by
      rw [entryBytes_cons, List.append_assoc]
    have hsize : (a ++ e.bytes).length = a.length + e.size := by
      rw [List.length_append, e.length_bytes]
    rw [List.length_cons, ← Nat.add_assoc, process_entry hdata hhere hne, ih hthere, hbehind, hsize,
      ← entriesAt_append]
    rfl

theorem process_records {rs : List CentralRecord}
    (hshape : data = a ++ (recordBytes rs ++ rest)) (hrest : rest ≠ []) :
    (processZipFile arg data (fuel + 1 + rs.length) a.length).run z =
      (processZipFile arg data (fuel + 1) ((a ++ recordBytes rs).length : ℕ)).run z := by
  induction rs generalizing a z with
  | nil => simp [recordBytes]
  | cons r rs ih =>
    have hne : recordBytes rs ++ rest ≠ [] := List.append_ne_nil_of_right_ne_nil _ hrest
    have hhere : data = a ++ (r.bytes ++ (recordBytes rs ++ rest)) := by
      rw [hshape, recordBytes_cons, List.append_assoc]
    have hthere : data = (a ++ r.bytes) ++ (recordBytes rs ++ rest) := by
      rw [hhere, List.append_assoc]
    have hbehind : a ++ recordBytes (r :: rs) = a ++ r.bytes ++ recordBytes rs := by
      rw [recordBytes_cons, List.append_assoc]
    rw [List.length_cons, ← Nat.add_assoc, process_record hdata hhere hne, ih hthere, hbehind]
    rfl

/-! ## Whole archives -/

end Whole

/-- **Intact archives are left alone**: the processing returns and has written no file. -/
theorem processZipFile_intact (arg : String) (a : Archive) (h : a.bytes.length < 2 ^ 31) (fuel : ℕ)
    (hfuel : a.entries.length + a.directory.length < fuel) :
    ∃ z, (processZipFile arg a.bytes fuel 0).run {} = .ok () z ∧ z.files = [] := by
  obtain ⟨n, rfl⟩ := Nat.exists_eq_add_of_lt hfuel
  have hfuels : a.entries.length + a.directory.length + n + 1 = n + a.directory.length + 1 + a.entries.length := by
    omega
  have hrest : recordBytes a.directory ++ a.endRecord.bytes ≠ [] :=
    List.append_ne_nil_of_right_ne_nil _ a.endRecord.bytes_ne_nil
  have hentries : a.bytes = [] ++ (entryBytes a.entries ++ (recordBytes a.directory ++ a.endRecord.bytes)) := rfl
  have hrecords : a.bytes = entryBytes a.entries ++ (recordBytes a.directory ++ a.endRecord.bytes) := rfl
  have hend : a.bytes = (entryBytes a.entries ++ recordBytes a.directory) ++ a.endRecord.bytes := by
    rw [hrecords, List.append_assoc]
  refine ⟨{ lastOffset := (entryBytes a.entries ++ recordBytes a.directory).length,
            lfes := entriesAt a.bytes 0 a.entries }, ?_, rfl⟩
  calc (processZipFile arg a.bytes (a.entries.length + a.directory.length + n + 1) 0).run {}
      = (processZipFile arg a.bytes (n + a.directory.length + 1 + a.entries.length) (([] : Bytes).length : ℕ)).run {} :=
        by rw [hfuels]; rfl
    _ = (processZipFile arg a.bytes (n + 1 + a.directory.length) ((entryBytes a.entries).length : ℕ)).run
          { lfes := entriesAt a.bytes 0 a.entries } := by
        rw [process_entries h hentries hrest, Nat.add_right_comm]
        rfl
    _ = (processZipFile arg a.bytes (n + 1) ((entryBytes a.entries ++ recordBytes a.directory).length : ℕ)).run
          { lfes := entriesAt a.bytes 0 a.entries } := process_records h hrecords a.endRecord.bytes_ne_nil
    _ = _ := process_endRecord h hend

theorem smallArchive_intact :
    ∃ z, (processZipFile "upload.zip" smallArchive.bytes 5 0).run {} = .ok () z ∧ z.files = [] :=
  processZipFile_intact "upload.zip" smallArchive length_smallArchive_lt 5 (by decide)

end CaptureHPC
