import CaptureHPC.Proof.ZippaSteps

/-!
# The directory that a repair writes

* `recordOf`: the record that an entry gets. It is written as it is when the entry declares no extra field
  (`centralDirectoryEntry_eq`); otherwise the extra field is declared and left out.
* `WellFormed`: a scan of the directory lists the entries and ends at the end record, which agrees.
* `repairZipFile_wellFormed`: the directory is well formed if and only if no entry declares an extra field
  and the counts and sizes fit in their fields.
-/

namespace CaptureHPC

open Lib Zip

variable {lfes : List LocalFileEntry}

/-! ## Numbers in the records -/

/-- The length of a record without extra field and comment. -/
def recordLength (lfe : LocalFileEntry) : ℕ := 46 + lfe.fname.toList.length

@[simp] theorem length_intBytes (n : Int32) : (intBytes n).length = 4 := length_toBytes 4 _

theorem ofBytes_intBytes_ofNat (n : ℕ) : ofBytes (intBytes (Int32.ofNat n)) = n % 2 ^ 32 := by
  rw [intBytes, Int32.toUInt32_ofNat', UInt32.toNat_ofNat', ofBytes_toBytes]
  omega

theorem ofBytes_directoryLength (lfes : List LocalFileEntry) :
    ofBytes (intBytes (directoryLength lfes)) = (lfes.map recordLength).sum % 2 ^ 32 := by
  have hfold (start : Int32) :
      (lfes.foldl (fun cdelen lfe => cdelen + Int32.ofNat (lfe.fname.toList.length + 46)) start).toUInt32.toNat =
        (start.toUInt32.toNat + (lfes.map recordLength).sum) % 2 ^ 32 := by
    induction lfes generalizing start with
    | nil =>
      have hlt := start.toUInt32.toNat_lt
      rw [List.foldl_nil, List.map_nil, List.sum_nil, Nat.add_zero, Nat.mod_eq_of_lt hlt]
    | cons lfe lfes ih =>
      rw [List.foldl_cons, ih, List.map_cons, List.sum_cons, Int32.toUInt32_add, UInt32.toNat_add,
        Int32.toUInt32_ofNat', UInt32.toNat_ofNat', recordLength]
      omega
  have hzero : (0 : Int32).toUInt32.toNat = 0 := rfl
  rw [intBytes, directoryLength, hfold, ofBytes_toBytes, hzero]
  omega

/-! ## One record -/

/-- What is to be listed of an entry. -/
def listingOf (lfe : LocalFileEntry) : Zip.Listed where
  name := lfe.fname.toList
  crc := lfe.crc32.toList
  csize := lfe.cfsize.toList
  usize := lfe.ucfsize.toList
  offset := intBytes lfe.myoffset

section Record

variable (lfe : LocalFileEntry) (rest : Bytes)

theorem fname_length : lfe.fname.toList.length = ofBytes lfe.fnamelen.toList := Vector.length_toList

theorem length_centralDirectoryEntry : (centralDirectoryEntry lfe).length = recordLength lfe := by
  simp [centralDirectoryEntry, centralSignature, recordLength]
  omega

theorem slice_centralDirectoryEntry : slice 0 4 (centralDirectoryEntry lfe ++ rest) = centralSignature := by
  simp [centralDirectoryEntry, centralSignature, slice]

/-- The record declares the extra field that it does not have. -/
theorem declaredSize_centralDirectoryEntry :
    declaredSize (centralDirectoryEntry lfe ++ rest) = recordLength lfe + ofBytes lfe.fxtrlen.toList := by
  have hname : slice 28 2 (centralDirectoryEntry lfe ++ rest) = lfe.fnamelen.toList := by
    simp (disch := simp) [centralDirectoryEntry, centralSignature, slice_cons, slice_skip, slice_here]
  have hextra : slice 30 2 (centralDirectoryEntry lfe ++ rest) = lfe.fxtrlen.toList := by
    simp (disch := simp) [centralDirectoryEntry, centralSignature, slice_cons, slice_skip, slice_here]
  have hcomment : slice 32 2 (centralDirectoryEntry lfe ++ rest) = [0, 0] := by
    simp (disch := simp) [centralDirectoryEntry, centralSignature, slice_cons, slice_skip]
    rfl
  rw [declaredSize, hname, hextra, hcomment, recordLength, fname_length, show ofBytes [0, 0] = 0 from rfl, Nat.add_zero]

/-- The record of an entry. -/
def recordOf : CentralRecord where
  versions := #v[0x14, 0, 0x14, 0]
  flags := lfe.gpbf
  method := lfe.compMethod
  time := lfe.timestamp
  crc := lfe.crc32
  csize := lfe.cfsize
  usize := lfe.ucfsize
  disk := #v[0, 0]
  attributes := #v[0, 0, 0, 0, 0, 0]
  offset := ⟨(intBytes lfe.myoffset).toArray, by simp⟩
  name := lfe.fname.toList
  extra := []
  comment := []
  name_lt := by
    have hlt := ofBytes_lt lfe.fnamelen.toList
    rw [Vector.length_toList] at hlt
    rw [fname_length]
    exact hlt
  extra_lt := by decide
  comment_lt := by decide

theorem toBytes_two_ofBytes (v : Vector UInt8 2) : toBytes 2 (ofBytes v.toList) = v.toList := by
  have h := toBytes_ofBytes v.toList
  rwa [Vector.length_toList] at h

theorem centralDirectoryEntry_eq (h : ofBytes lfe.fxtrlen.toList = 0) :
    centralDirectoryEntry lfe = (recordOf lfe).bytes := by
  have hextra : lfe.fxtrlen.toList = [0, 0] := by
    rw [← toBytes_two_ofBytes, h]
    rfl
  have hzero : toBytes 2 0 = [0, 0] := rfl
  simp [centralDirectoryEntry, CentralRecord.bytes, CentralRecord.header, recordOf, hextra, toBytes_two_ofBytes, hzero]

theorem listing_recordOf : (recordOf lfe).listing = listingOf lfe := by
  simp [CentralRecord.listing, listingOf, recordOf]

end Record

/-! ## The scan -/

theorem length_records : (lfes.flatMap centralDirectoryEntry).length = (lfes.map recordLength).sum := by
  simp only [List.length_flatMap, length_centralDirectoryEntry]

theorem records_eq (h : ∀ lfe ∈ lfes, ofBytes lfe.fxtrlen.toList = 0) :
    lfes.flatMap centralDirectoryEntry = recordBytes (lfes.map recordOf) := by
  rw [recordBytes, List.flatMap_map]
  exact List.flatMap_congr fun lfe hlfe => centralDirectoryEntry_eq lfe (h lfe hlfe)

/-- With no extra fields a scan gives the entries back. -/
theorem scan_records {fuel : ℕ} {tail : Bytes} (h : ∀ lfe ∈ lfes, ofBytes lfe.fxtrlen.toList = 0)
    (hfuel : lfes.length ≤ fuel) (htail : slice 0 4 tail ≠ centralSignature) :
    scanDirectory fuel (lfes.flatMap centralDirectoryEntry ++ tail) = (lfes.map listingOf, tail) := by
  rw [records_eq h, scanDirectory_records (by rwa [List.length_map]) htail, List.map_map]
  exact congrArg (·, tail) (List.map_congr_left fun lfe _ => listing_recordOf lfe)

/-- A scan that gives the entries back has met no declared extra field: it would have consumed too much. -/
theorem extra_of_scan {fuel : ℕ} {tail : Bytes}
    (h : scanDirectory fuel (lfes.flatMap centralDirectoryEntry ++ tail) = (lfes.map listingOf, tail)) :
    ∀ lfe ∈ lfes, ofBytes lfe.fxtrlen.toList = 0 := by
  induction lfes generalizing fuel with
  | nil => exact fun lfe hlfe => absurd hlfe List.not_mem_nil
  | cons lfe lfes ih =>
    cases fuel with
    | zero => cases h
    | succ fuel =>
      rw [List.flatMap_cons, List.append_assoc] at h
      have hdeclared := declaredSize_centralDirectoryEntry lfe (lfes.flatMap centralDirectoryEntry ++ tail)
      by_cases hsize : declaredSize (centralDirectoryEntry lfe ++ (lfes.flatMap centralDirectoryEntry ++ tail)) ≤
          (centralDirectoryEntry lfe ++ (lfes.flatMap centralDirectoryEntry ++ tail)).length
      · rw [scanDirectory_step (slice_centralDirectoryEntry lfe _) hsize, List.map_cons, Prod.mk.injEq,
          List.cons.injEq] at h
        obtain ⟨⟨-, hrest⟩, htail⟩ := h
        have hlength := scanDirectory_length fuel ((centralDirectoryEntry lfe ++
          (lfes.flatMap centralDirectoryEntry ++ tail)).drop (declaredSize (centralDirectoryEntry lfe ++
            (lfes.flatMap centralDirectoryEntry ++ tail))))
        have hsum : ((lfes.map listingOf).map fun r => 46 + r.name.length).sum = (lfes.map recordLength).sum := by
          rw [List.map_map]
          rfl
        rw [hrest, htail, hsum, List.length_drop, hdeclared] at hlength
        rw [hdeclared] at hsize
        simp only [List.length_append, length_centralDirectoryEntry, length_records] at hlength hsize
        have hzero : ofBytes lfe.fxtrlen.toList = 0 := by omega
        rw [hdeclared, hzero, Nat.add_zero, ← length_centralDirectoryEntry, List.drop_left] at hrest htail
        rw [List.forall_mem_cons]
        exact ⟨hzero, ih (Prod.ext hrest htail)⟩
      · rw [scanDirectory, if_neg fun hboth => hsize hboth.2] at h
        cases h

/-! ## The end record -/

section EndRecord

variable (n : ℕ) (dirsize diroffset : Int32)

theorem centralDirectoryEndEntry_signature : slice 0 4 (centralDirectoryEndEntry n dirsize diroffset) = endSignature := by
  simp [centralDirectoryEndEntry, endSignature, slice]

theorem centralDirectoryEndEntry_entries :
    slice 8 2 (centralDirectoryEndEntry n dirsize diroffset) = toBytes 2 n ∧
      slice 10 2 (centralDirectoryEndEntry n dirsize diroffset) = toBytes 2 n := by
  constructor <;> simp (disch := simp) [centralDirectoryEndEntry, endSignature, slice_cons, slice_skip, slice_here]

theorem centralDirectoryEndEntry_dirsize :
    slice 12 4 (centralDirectoryEndEntry n dirsize diroffset) = intBytes dirsize := by
  simp (disch := simp) [centralDirectoryEndEntry, endSignature, slice_cons, slice_skip, slice_here]

theorem centralDirectoryEndEntry_diroffset :
    slice 16 4 (centralDirectoryEndEntry n dirsize diroffset) = intBytes diroffset := by
  simp (disch := simp) [centralDirectoryEndEntry, endSignature, slice_cons, slice_skip, slice_here]

end EndRecord

/-! ## What a repair writes -/

/-- The directory at `offset`, scanned by the lengths that it declares, lists the entries and ends at the end
record, whose counts, size and offset are those of what was written. -/
structure WellFormed (written : Bytes) (offset : ℕ) (lfes : List LocalFileEntry) (tail : Bytes) : Prop where
  scan : scanDirectory written.length (written.drop offset) = (lfes.map listingOf, tail)
  signature : slice 0 4 tail = endSignature
  diskEntries : ofBytes (slice 8 2 tail) = lfes.length
  entries : ofBytes (slice 10 2 tail) = lfes.length
  dirSize : ofBytes (slice 12 4 tail) + tail.length + offset = written.length
  dirOffset : ofBytes (slice 16 4 tail) = offset

theorem length_copyPrefix (data : Bytes) (offset : ℕ) : (copyPrefix data offset).length = offset := by
  rw [copyPrefix, List.length_append, List.length_take, List.length_replicate]
  omega

theorem drop_repaired (data : Bytes) (offset : ℕ) :
    (repaired data offset lfes).drop offset = lfes.flatMap centralDirectoryEntry ++
      centralDirectoryEndEntry lfes.length (directoryLength lfes) (Int32.ofNat offset) := by
  have hlength := length_copyPrefix data offset
  rw [repaired, List.drop_append_of_le_length hlength.ge, List.drop_eq_nil_of_le hlength.le, List.nil_append]

theorem length_repaired (data : Bytes) (offset : ℕ) : (repaired data offset lfes).length =
    offset + (lfes.map recordLength).sum +
      (centralDirectoryEndEntry lfes.length (directoryLength lfes) (Int32.ofNat offset)).length := by
  rw [repaired, List.length_append, List.length_append, length_copyPrefix, length_records, Nat.add_assoc]

/-- The entries that a directory can describe. -/
structure Describable (lfes : List LocalFileEntry) : Prop where
  extra : ∀ lfe ∈ lfes, ofBytes lfe.fxtrlen.toList = 0
  count : lfes.length < 2 ^ 16
  size : (lfes.map recordLength).sum < 2 ^ 32

theorem wellFormed_repaired {data : Bytes} {offset : ℕ} (ho : offset < 2 ^ 31) (h : Describable lfes) :
    WellFormed (repaired data offset lfes) offset lfes
      (centralDirectoryEndEntry lfes.length (directoryLength lfes) (Int32.ofNat offset)) := by
  have hlength := @length_repaired lfes data offset
  have hentries := centralDirectoryEndEntry_entries lfes.length (directoryLength lfes) (Int32.ofNat offset)
  have hcount : ofBytes (toBytes 2 lfes.length) = lfes.length := ofBytes_toBytes_of_lt h.count
  have hsignature := centralDirectoryEndEntry_signature lfes.length (directoryLength lfes) (Int32.ofNat offset)
  have hle : lfes.length ≤ (lfes.map recordLength).sum := by
    clear hlength hentries hcount hsignature h
    induction lfes with
    | nil => exact le_rfl
    | cons lfe lfes ih =>
      rw [List.map_cons, List.sum_cons, List.length_cons, recordLength]
      omega
  constructor
  · rw [drop_repaired]
    refine scan_records h.extra (by omega) ?_
    rw [hsignature]
    decide
  · exact hsignature
  · rw [hentries.1, hcount]
  · rw [hentries.2, hcount]
  · rw [centralDirectoryEndEntry_dirsize, ofBytes_directoryLength, Nat.mod_eq_of_lt h.size, hlength]
    omega
  · rw [centralDirectoryEndEntry_diroffset, ofBytes_intBytes_ofNat]
    omega

theorem describable_of_wellFormed {data : Bytes} {offset : ℕ}
    (h : WellFormed (repaired data offset lfes) offset lfes
      (centralDirectoryEndEntry lfes.length (directoryLength lfes) (Int32.ofNat offset))) : Describable lfes := by
  have hscan := h.scan
  have hcount := h.diskEntries
  have hsize := h.dirSize
  rw [drop_repaired] at hscan
  rw [(centralDirectoryEndEntry_entries _ _ _).1, ofBytes_toBytes] at hcount
  rw [centralDirectoryEndEntry_dirsize, ofBytes_directoryLength, length_repaired] at hsize
  exact ⟨extra_of_scan hscan, by omega, by omega⟩

/-- **The rebuilt directory is well formed** if and only if no entry declares an extra field, there are fewer
than `2 ^ 16` entries, and the records have fewer than `2 ^ 32` bytes. -/
theorem repairZipFile_wellFormed (fname : String) (data : Bytes) (offset : ℤ) (ho : offset < 2 ^ 31)
    (lfes : List LocalFileEntry) (z : Zippa) :
    (∃ written, (repairZipFile fname data offset lfes).run z =
        .ok () { z with files := z.files ++ [(fname ++ "a", written)] } ∧
      WellFormed written offset.toNat lfes
        (centralDirectoryEndEntry lfes.length (directoryLength lfes) (Int32.ofNat offset.toNat))) ↔
      0 ≤ offset ∧ Describable lfes := by
  unfold repairZipFile
  rcases lt_or_ge offset 0 with hneg | hnonneg
  · rw [if_pos hneg]
    constructor
    · rintro ⟨written, hrun, -⟩
      cases hrun
    · rintro ⟨hnonneg, -⟩
      omega
  · rw [if_neg (by omega)]
    constructor
    · rintro ⟨written, hrun, hwell⟩
      injection hrun with _ hstate
      injection hstate with _ _ hfiles
      obtain rfl : repaired data offset.toNat lfes = written := by simpa using hfiles
      exact ⟨hnonneg, describable_of_wellFormed hwell⟩
    · rintro ⟨-, hdescribable⟩
      exact ⟨_, rfl, wellFormed_repaired (by omega) hdescribable⟩

/-- The entries of a small archive. -/
def smallEntries : List LocalFileEntry := [entryAt smallArchive.bytes 0, entryAt smallArchive.bytes 33]

theorem smallEntries_repaired :
    ∃ written, (repairZipFile "upload.zip" smallArchive.bytes 65 smallEntries).run {} =
        .ok () { files := [("upload.zip" ++ "a", written)] } ∧
      WellFormed written 65 smallEntries
        (centralDirectoryEndEntry 2 (directoryLength smallEntries) (Int32.ofNat 65)) :=
  (repairZipFile_wellFormed "upload.zip" smallArchive.bytes 65 (by decide) smallEntries {}).2
    ⟨by decide, by decide +kernel, by decide, by decide +kernel⟩

/-- An entry that declares an extra field of one byte. -/
def extraEntry : LocalFileEntry :=
  entryAt (localSignature ++ (List.replicate 24 0 ++ [1, 0, 7])) 0

/-- The scan takes the first byte of the end record for the extra field. -/
theorem extra_breaks_directory :
    ¬ ∃ written, (repairZipFile "upload.zip" (localSignature ++ (List.replicate 24 0 ++ [1, 0, 7])) 31
        [extraEntry]).run {} = .ok () { files := [("upload.zip" ++ "a", written)] } ∧
      WellFormed written 31 [extraEntry]
        (centralDirectoryEndEntry 1 (directoryLength [extraEntry]) (Int32.ofNat 31)) := by
  rintro ⟨written, hrun, hwell⟩
  injection hrun with _ hstate
  injection hstate with _ _ hfiles
  obtain rfl : repaired (localSignature ++ (List.replicate 24 0 ++ [1, 0, 7])) 31 [extraEntry] = written := by
    simpa using hfiles
  have hscan := congrArg (fun scanned => scanned.2.length) hwell.scan
  revert hscan
  decide

end CaptureHPC
