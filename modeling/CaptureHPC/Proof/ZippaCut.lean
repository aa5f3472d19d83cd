import CaptureHPC.Proof.ZippaDirectory
import CaptureHPC.Proof.ZippaIntact
import CaptureHPC.Proof.ZippaTotal

/-!
# What is repaired of a cut archive

* `archive_repaired`: whole entries without extra fields and the directory that is written for them are a
  valid archive; `offset_of_archive`: in a valid archive the directory begins where the entries end.
* `process_writes`: a file is written only at an offset where a header or an entry is cut (`Repairs`).
* `processZipFile_repairs`: so the entries in front of the cut are kept if and only if the cut falls behind
  the signature of the next one, and in front of its end.
-/

namespace CaptureHPC

open Lib Zip

variable {arg : String} {z : Zippa}

/-! ## The records of whole entries -/

section Entry

variable {data a rest : Bytes} {e : LocalEntry} (hshape : data = a ++ (e.bytes ++ rest))
include hshape

theorem vectorAt_entry {k n : ℕ} (h : k + n ≤ e.size) :
    (vectorAt data (a.length + k) n).toList = slice k n (e.bytes ++ rest) := by
  have hlength : a.length + k + n ≤ data.length := by
    rw [hshape, List.length_append, List.length_append, e.length_bytes]
    omega
  rw [vectorAt_toList hlength, hshape, slice_behind]

theorem vectorAt_eq {k n : ℕ} {v : Vector UInt8 n} (h : k + n ≤ 30) (hv : slice k n (e.bytes ++ rest) = v.toList) :
    vectorAt data (a.length + k) n = v := by
  have hsize := e.header_le_size
  apply Vector.toList_inj.1
  rw [vectorAt_entry hshape (by omega), hv]

theorem entryAt_fxtrlen : (entryAt data a.length).fxtrlen.toList = toBytes 2 e.extra.length := by
  have hsize := e.header_le_size
  rw [← e.slice_extraLength rest]
  exact vectorAt_entry hshape (by omega)

theorem entryAt_fname : (entryAt data a.length).fname.toList = e.name := by
  have hsize := e.header_le_size
  have hlength : ofBytes (vectorAt data (a.length + 26) 2).toList = e.name.length := by
    rw [vectorAt_entry hshape (by omega), e.slice_nameLength, ofBytes_toBytes_of_lt e.name_lt]
  change (vectorAt data (a.length + 30) (ofBytes (vectorAt data (a.length + 26) 2).toList)).toList = _
  rw [hlength, vectorAt_entry hshape hsize, e.slice_name]

theorem entryAt_cfsize : (entryAt data a.length).cfsize.toList = toBytes 4 e.data.length := by
  have hsize := e.header_le_size
  rw [← e.slice_csize rest]
  exact vectorAt_entry hshape (by omega)

/-- The record of an entry describes it. -/
theorem describes_entryAt (ho : a.length < 2 ^ 31) :
    Describes e a.length (recordOf (entryAt data a.length)) where
  name := entryAt_fname hshape
  flags := vectorAt_eq hshape (by decide) (e.slice_flags rest)
  method := vectorAt_eq hshape (by decide) (e.slice_method rest)
  time := vectorAt_eq hshape (by decide) (e.slice_time rest)
  crc := vectorAt_eq hshape (by decide) (e.slice_crc rest)
  csize := by
    rw [recordOf, entryAt_cfsize hshape, ofBytes_toBytes_of_lt e.data_lt]
  usize := vectorAt_eq hshape (by decide) (e.slice_usize rest)
  offset := by
    have hoffset : (recordOf (entryAt data a.length)).offset.toList = intBytes (Int32.ofNat a.length) := by
      rw [← Int32.ofInt_eq_ofNat]
      simp [recordOf, entryAt]
    rw [hoffset, ofBytes_intBytes_ofNat]
    omega
  disk := rfl

end Entry

section Entries

variable {data rest : Bytes} {es : List LocalEntry}

theorem lists_entriesAt {a : Bytes} (hshape : data = a ++ (entryBytes es ++ rest))
    (hsize : (a ++ entryBytes es).length < 2 ^ 31) :
    Lists a.length es ((entriesAt data a.length es).map recordOf) := by
  induction es generalizing a with
  | nil => trivial
  | cons e es ih =>
    have hhere : data = a ++ (e.bytes ++ (entryBytes es ++ rest)) := by
      rw [hshape, entryBytes_cons, List.append_assoc]
    have hnext := ih (a := a ++ e.bytes) (by rw [hhere, List.append_assoc])
      (by rwa [entryBytes_cons, ← List.append_assoc] at hsize)
    rw [List.length_append, e.length_bytes] at hnext
    rw [List.length_append] at hsize
    exact ⟨describes_entryAt hhere (by omega), hnext⟩

/-- Entries without extra fields declare none. -/
theorem extra_entriesAt {a : Bytes} (hshape : data = a ++ (entryBytes es ++ rest)) (hplain : ∀ e ∈ es, e.extra = []) :
    ∀ lfe ∈ entriesAt data a.length es, ofBytes lfe.fxtrlen.toList = 0 := by
  induction es generalizing a with
  | nil => exact fun lfe hlfe => absurd hlfe List.not_mem_nil
  | cons e es ih =>
    have hhere : data = a ++ (e.bytes ++ (entryBytes es ++ rest)) := by
      rw [hshape, entryBytes_cons, List.append_assoc]
    have hnext := ih (a := a ++ e.bytes) (by rw [hhere, List.append_assoc])
      fun e' he' => hplain e' (List.mem_cons_of_mem _ he')
    rw [List.length_append, e.length_bytes] at hnext
    rw [entriesAt, List.forall_mem_cons, entryAt_fxtrlen hhere, hplain e List.mem_cons_self]
    exact ⟨rfl, hnext⟩

theorem length_entriesAt (data : Bytes) (o : ℕ) (es : List LocalEntry) : (entriesAt data o es).length = es.length := by
  induction es generalizing o with
  | nil => rfl
  | cons e es ih => rw [entriesAt, List.length_cons, ih, List.length_cons]

/-- A record is at most 16 bytes longer than its entry. -/
theorem recordLength_entriesAt {a : Bytes} (hshape : data = a ++ (entryBytes es ++ rest)) :
    ((entriesAt data a.length es).map recordLength).sum ≤ 16 * es.length + (entryBytes es).length := by
  induction es generalizing a with
  | nil => exact Nat.zero_le _
  | cons e es ih =>
    have hhere : data = a ++ (e.bytes ++ (entryBytes es ++ rest)) := by
      rw [hshape, entryBytes_cons, List.append_assoc]
    have hnext := ih (a := a ++ e.bytes) (by rw [hhere, List.append_assoc])
    have hsize := e.header_le_size
    rw [List.length_append, e.length_bytes] at hnext
    rw [entriesAt, List.map_cons, List.sum_cons, recordLength, entryAt_fname hhere, entryBytes_cons,
      List.length_append, e.length_bytes, List.length_cons]
    omega

end Entries

/-! ## The end record that is written -/

/-- No place of the end record looks like another one. -/
theorem centralDirectoryEndEntry_once {n j : ℕ} {dirsize diroffset : Int32} (hpos : 0 < j) (hj : j ≤ 8) :
    slice j 4 (centralDirectoryEndEntry n dirsize diroffset) ≠ endSignature := by
  intro h
  rcases Nat.lt_or_eq_of_le hj with hlt | rfl
  · interval_cases j <;>
      simp [centralDirectoryEndEntry, endSignature, slice, toBytes] at h
  · -- the two counts are the same
    have hcounts : slice 8 4 (centralDirectoryEndEntry n dirsize diroffset) = toBytes 2 n ++ toBytes 2 n := by
      simp [centralDirectoryEndEntry, endSignature, slice, toBytes]
    rw [hcounts] at h
    simp [toBytes, endSignature] at h
    have h1 := h.1
    have h3 := h.2.2.1
    rw [h1] at h3
    exact absurd h3 (by decide)

theorem length_centralDirectoryEndEntry (n : ℕ) (dirsize diroffset : Int32) :
    (centralDirectoryEndEntry n dirsize diroffset).length = 30 := by
  have hcomment : repairedComment.length = 8 := by decide
  simp [centralDirectoryEndEntry, endSignature, hcomment]

theorem size_toBytes_two (n : ℕ) : (toBytes 2 n).toArray.size = 2 := by simp

theorem size_intBytes (i : Int32) : (intBytes i).toArray.size = 4 := by simp

theorem length_repairedComment_lt : repairedComment.length < 2 ^ 16 := by decide

/-- The end record as a record of the format. -/
def repairedEndRecord (n : ℕ) (dirsize diroffset : Int32) : EndRecord where
  disks := intOf 0 0 0 0
  diskEntries := ⟨(toBytes 2 n).toArray, size_toBytes_two n⟩
  entries := ⟨(toBytes 2 n).toArray, size_toBytes_two n⟩
  dirSize := ⟨(intBytes dirsize).toArray, size_intBytes dirsize⟩
  dirOffset := ⟨(intBytes diroffset).toArray, size_intBytes diroffset⟩
  comment := repairedComment
  comment_lt := length_repairedComment_lt

theorem repairedEndRecord_bytes (n : ℕ) (dirsize diroffset : Int32) :
    (repairedEndRecord n dirsize diroffset).bytes = centralDirectoryEndEntry n dirsize diroffset := by
  have hcomment : toBytes 2 repairedComment.length = [8, 0] := by decide
  simp [EndRecord.bytes, centralDirectoryEndEntry, repairedEndRecord, intOf, hcomment]

/-! ## Repaired archives -/

section Archive

variable {data : Bytes}

/-- What is behind the directory of a repaired file. -/
theorem slice_repaired (data : Bytes) (o j n : ℕ) (lfes : List LocalFileEntry) :
    slice (o + (lfes.map recordLength).sum + j) n (repaired data o lfes) =
      slice j n (centralDirectoryEndEntry lfes.length (directoryLength lfes) (Int32.ofNat o)) := by
  have hlength : (copyPrefix data o ++ lfes.flatMap centralDirectoryEntry).length =
      o + (lfes.map recordLength).sum := by
    rw [List.length_append, length_copyPrefix, length_records]
  rw [repaired, ← List.append_assoc, ← hlength, slice_behind]

/-- **Whole entries without extra fields** and the directory that is written for them are a valid archive. -/
theorem archive_repaired {rest : Bytes} {es : List LocalEntry} (hshape : data = entryBytes es ++ rest)
    (hplain : ∀ e ∈ es, e.extra = []) (hcount : es.length < 2 ^ 16) (hsize : (entryBytes es).length < 2 ^ 31) :
    ∃ a : Archive, a.Valid ∧ a.EndIsLast ∧ a.entries = es ∧
      a.bytes = repaired data (entryBytes es).length (entriesAt data 0 es) := by
  set lfes := entriesAt data 0 es with hlfes
  have hshape' : data = [] ++ (entryBytes es ++ rest) := hshape
  have hlists : Lists 0 es (lfes.map recordOf) := lists_entriesAt hshape' hsize
  have hextra : ∀ lfe ∈ lfes, ofBytes lfe.fxtrlen.toList = 0 := extra_entriesAt hshape' hplain
  have hlength : lfes.length = es.length := length_entriesAt data 0 es
  have hsum : (lfes.map recordLength).sum ≤ 16 * es.length + (entryBytes es).length := recordLength_entriesAt hshape'
  have hrecords : (recordBytes (lfes.map recordOf)).length = (lfes.map recordLength).sum := by
    rw [← records_eq hextra, length_records]
  have hprefix : copyPrefix data (entryBytes es).length = entryBytes es := by
    rw [copyPrefix, hshape, List.take_left, List.length_append, Nat.sub_eq_zero_of_le (Nat.le_add_right _ _),
      List.replicate_zero, List.append_nil]
  let a : Archive := ⟨es, lfes.map recordOf,
    repairedEndRecord lfes.length (directoryLength lfes) (Int32.ofNat (entryBytes es).length)⟩
  have hbytes : a.bytes = repaired data (entryBytes es).length lfes := by
    rw [Archive.bytes, repaired, hprefix, records_eq hextra, repairedEndRecord_bytes]
  have hentries : ofBytes (toBytes 2 lfes.length) = (lfes.map recordOf).length := by
    rw [List.length_map]
    exact ofBytes_toBytes_of_lt (by omega)
  refine ⟨a, ⟨hlists, hentries, hentries, ?_, ?_, rfl⟩, ?_, rfl, hbytes⟩
  · change ofBytes (intBytes (directoryLength lfes)) = (recordBytes (lfes.map recordOf)).length
    rw [ofBytes_directoryLength, hrecords]
    omega
  · change ofBytes (intBytes (Int32.ofNat (entryBytes es).length)) = (entryBytes es).length
    rw [ofBytes_intBytes_ofNat]
    omega
  · -- behind its beginning the end record has no other one
    intro o ho ho'
    change (entryBytes es).length + (recordBytes (lfes.map recordOf)).length < o at ho
    rw [hrecords] at ho
    rw [hbytes] at ho' ⊢
    rw [length_repaired, length_centralDirectoryEndEntry] at ho'
    obtain ⟨j, rfl⟩ := Nat.exists_eq_add_of_lt ho
    rw [Nat.add_assoc _ j, slice_repaired]
    exact centralDirectoryEndEntry_once (by omega) (by omega)

/-- **In a valid archive the directory begins where the entries end.** -/
theorem offset_of_archive {a : Archive} (hvalid : a.Valid) (hlast : a.EndIsLast) {o : ℕ}
    {lfes : List LocalFileEntry} (ho : o < 2 ^ 31) (h : a.bytes = repaired data o lfes) :
    (entryBytes a.entries).length = o := by
  set t := (entryBytes a.entries).length + (recordBytes a.directory).length with ht
  have hsplit : a.bytes = (entryBytes a.entries ++ recordBytes a.directory) ++ a.endRecord.bytes := by
    rw [Archive.bytes, List.append_assoc]
  have htlength : (entryBytes a.entries ++ recordBytes a.directory).length = t := List.length_append
  have hlength : a.bytes.length = t + (22 + a.endRecord.comment.length) := by
    rw [hsplit, List.length_append, htlength, a.endRecord.length_bytes]
  have hlength' : a.bytes.length = o + (lfes.map recordLength).sum + 30 := by
    rw [h, length_repaired, length_centralDirectoryEndEntry]
  have hat (j n : ℕ) : slice (t + j) n a.bytes = slice j n a.endRecord.bytes := by
    rw [hsplit, ← htlength, slice_behind]
  -- the end record that was written is not behind that of the archive, nor in front of it
  have hle : o + (lfes.map recordLength).sum ≤ t := by
    by_contra hlt
    refine hlast (o + (lfes.map recordLength).sum) (by omega) (by omega) ?_
    have hhere := slice_repaired data o 0 4 lfes
    rw [Nat.add_zero, ← h] at hhere
    rw [hhere, centralDirectoryEndEntry_signature]
  obtain ⟨j, hj⟩ := Nat.exists_eq_add_of_le hle
  have hsignature := hat 0 4
  rw [Nat.add_zero, a.endRecord.slice_signature, hj, h, slice_repaired] at hsignature
  have hzero : j = 0 := by
    by_contra hne
    exact centralDirectoryEndEntry_once (Nat.pos_of_ne_zero hne) (by omega) hsignature
  have hoffset := hat 16 4
  rw [a.endRecord.slice_dirOffset, hj, hzero, Nat.add_zero, h, slice_repaired,
    centralDirectoryEndEntry_diroffset] at hoffset
  have hvalue := hvalid.dirOffset
  rw [← hoffset, ofBytes_intBytes_ofNat] at hvalue
  omega

end Archive

/-! ## Where a file is written -/

/-- A call at `o` repairs: a header is cut, or the entry behind a complete one. -/
inductive Repairs (data : Bytes) (o : ℕ) : Prop
  | localEntry (room : o + 4 ≤ data.length) (signature : slice o 4 data = localSignature) (int : o + 30 < 2 ^ 31)
      (cut : o + 30 ≤ data.length → data.length ≤ localNext data o)
  | central (signature : slice o 4 data = centralSignature) (cut : data.length < o + 30)
  | last (signature : slice o 4 data = endSignature) (cut : data.length < o + 20)

/-- There is room for the signature. -/
theorem Repairs.room {data : Bytes} {o : ℕ} (h : Repairs data o) : o + 4 ≤ data.length := by
  have hfour (hslice : (slice o 4 data).length = 4) : o + 4 ≤ data.length := by
    rw [slice, List.length_take, List.length_drop] at hslice
    omega
  rcases h with ⟨room, -, -, -⟩ | ⟨hcentral, -⟩ | ⟨hend, -⟩
  · exact room
  · exact hfour (by rw [hcentral]; rfl)
  · exact hfour (by rw [hend]; rfl)

/-- The files that were written between two states, each where a call repairs. -/
def Writes (arg : String) (data : Bytes) (z z' : Zippa) : Prop :=
  ∃ new, z'.files = z.files ++ new ∧
    ∀ f ∈ new, ∃ o lfes, o < 2 ^ 31 ∧ Repairs data o ∧ f = (arg ++ "a", repaired data o lfes)

variable {data : Bytes}

theorem Writes.of_same {z' : Zippa} (h : z'.files = z.files) : Writes arg data z z' :=
  ⟨[], by rw [h, List.append_nil], fun f hf => absurd hf List.not_mem_nil⟩

theorem Writes.of_repair {z' : Zippa} {o : ℕ} {lfes : List LocalFileEntry} (ho : o < 2 ^ 31) (hrepairs : Repairs data o)
    (h : z'.files = z.files ++ [(arg ++ "a", repaired data o lfes)]) : Writes arg data z z' :=
  ⟨_, h, fun _ hf => ⟨o, lfes, ho, hrepairs, List.mem_singleton.1 hf⟩⟩

theorem Writes.trans {z' z'' : Zippa} (h : Writes arg data z z') (h' : Writes arg data z' z'') :
    Writes arg data z z'' := by
  obtain ⟨new, hfiles, hnew⟩ := h
  obtain ⟨new', hfiles', hnew'⟩ := h'
  refine ⟨new ++ new', by rw [hfiles', hfiles, List.append_assoc], fun f hf => ?_⟩
  rcases List.mem_append.1 hf with hf | hf
  · exact hnew f hf
  · exact hnew' f hf

instance : Std.Refl (Writes arg data) := ⟨fun _ => .of_same rfl⟩

instance : IsTrans Zippa (Writes arg data) := ⟨fun _ _ _ => Writes.trans⟩

theorem Reads.keeps {α : Type} {m : ZippaM α} (h : Reads m) : Keeps (Writes arg data) m := by
  intro z
  rcases h z with ⟨a, ha⟩ | hfails
  · rw [ha]
    exact .of_same rfl
  · rw [show m.run z = _ from hfails]
    exact .of_same rfl

/-- An optional repair in front of a program. -/
theorem writes_behind {c : Prop} [Decidable c] {f : Unit → ZippaM Unit} {o : ℕ} (hz : z.lastOffset = o)
    (ho : o < 2 ^ 31) (hc : c → Repairs data o) (hf : Keeps (Writes arg data) (f ())) :
    Writes arg data z (final ((if c then repairLast arg data >>= f else f ()).run z)) := by
  split_ifs with h
  · rw [run_bind_ok (repairLast_run hz)]
    exact (Writes.of_repair ho (hc h) rfl).trans (hf _)
  · exact hf z

theorem lt_of_lt_wrap {o k : ℕ} (ho : o < 2 ^ 31) (hk : k < 2 ^ 31) (h : data.length < wrap ((o : ℤ) + k)) :
    data.length < o + k := by
  rcases lt_or_ge ((o : ℤ) + k) (2 ^ 31) with hint | hint
  · rw [wrap_eq (by omega) hint] at h
    omega
  · rw [wrap_large hint (by omega)] at h
    omega

/-- **A file is written only where a call repairs.** -/
theorem process_writes (hdata : data.length < 2 ^ 31) (fuel : ℕ) {o : ℤ} (ho : -2 ^ 31 ≤ o) (ho' : o < 2 ^ 31)
    (z : Zippa) : Writes arg data z (final ((processZipFile arg data fuel o).run z)) := by
  induction fuel generalizing o z with
  | zero => exact .of_same rfl
  | succ fuel ih =>
    by_cases hroom : o + 4 ≤ data.length
    · rcases lt_or_ge o 0 with hneg | hnonneg
      · rw [process_negative hneg ho hroom]
        exact .of_same rfl
      · lift o to ℕ using hnonneg
        have hz : ({ z with lastOffset := o } : Zippa).lastOffset = o := rfl
        have hstart : Writes arg data z { z with lastOffset := o } := .of_same rfl
        rw [process_run hdata (by omega)]
        split_ifs with hlocal hcentral hend
        · rcases lt_or_ge data.length (o + 30) with hshort | hfits
          · rcases lt_or_ge (o + 30) (2 ^ 31) with hint | hint
            · rw [processLocal_short hz hint hshort]
              exact .of_repair (by omega) (.localEntry (by omega) hlocal hint fun hfits => absurd hfits (by omega)) rfl
            · rw [show EStateM.run _ _ = _ from processLocal_overflow hz (by omega) hint]
              exact hstart
          · rw [processLocal_run hdata hz hfits]
            split_ifs with hnext
            · exact (Writes.of_same rfl).trans (ih (localNext_int o).1 (localNext_int o).2 _)
            · exact .of_repair (by omega) (.localEntry (by omega) hlocal (by omega) fun _ => not_lt.1 hnext) rfl
        · refine hstart.trans ?_
          unfold processCentral
          refine writes_behind hz (by omega)
            (fun hshort => .central hcentral (lt_of_lt_wrap (by omega) (by decide) hshort)) ?_
          refine keeps_bind (readBytes_reads _ _ _).keeps fun n => ?_
          refine keeps_bind (readBytes_reads _ _ _).keeps fun x => ?_
          refine keeps_bind (readBytes_reads _ _ _).keeps fun c => ?_
          intro t
          dsimp only
          split_ifs with hnext
          · exact ih (le_wrap _) (wrap_lt _) t
          · exact .of_same rfl
        · refine hstart.trans ?_
          unfold processEnd
          refine writes_behind hz (by omega)
            (fun hshort => .last hend (lt_of_lt_wrap (by omega) (by decide) hshort)) ?_
          exact keeps_bind (readBytes_reads _ _ _).keeps fun n => keeps_pure ()
        · exact hstart
    · rw [process_short ho' ho (by omega)]
      exact .of_same rfl

/-! ## Cut archives -/

/-- The processing ends, and it has written one file: a valid archive of the entries. -/
def LeavesArchive (arg : String) (data : Bytes) (es : List LocalEntry) : Prop :=
  ∃ (fuel : ℕ) (a : Archive), a.Valid ∧ a.EndIsLast ∧ a.entries = es ∧
    (∀ z, (processZipFile arg data fuel 0).run {} ≠ .error .outOfFuel z) ∧
    (final ((processZipFile arg data fuel 0).run {})).files = [(arg ++ "a", a.bytes)]

/-- The cut falls behind the signature of an entry and in front of its end. The header of the entry ends
within the `int`s, and so does the entry, when its header is complete. -/
def CutInEntry (es : List LocalEntry) (k : ℕ) : Prop :=
  ∃ whole e rest, es = whole ++ e :: rest ∧
    (entryBytes whole).length + 4 ≤ k ∧ k < (entryBytes whole).length + e.size ∧
    (entryBytes whole).length + 30 < 2 ^ 31 ∧
    ((entryBytes whole).length + 30 ≤ k → (k : ℤ) ≤ wrap ((entryBytes whole).length + e.size))

section Cut

variable {es whole rest : List LocalEntry} {e : LocalEntry} {k : ℕ}

theorem localNext_take {o : ℕ} (h : o + 30 ≤ k) : localNext (data.take k) o = localNext data o := by
  rw [localNext, localNext, slice_take (by omega), slice_take (by omega), slice_take (by omega)]

/-- The bytes in front of a cut. -/
theorem take_entryBytes (h : (entryBytes whole).length ≤ k) :
    (entryBytes (whole ++ rest)).take k =
      entryBytes whole ++ (entryBytes rest).take (k - (entryBytes whole).length) := by
  rw [entryBytes_append, List.take_append, List.take_of_length_le h]

theorem signature_cut (h : (entryBytes whole).length + 4 ≤ k) :
    slice (entryBytes whole).length 4 ((entryBytes (whole ++ e :: rest)).take k) = localSignature := by
  rw [slice_take h, entryBytes_append, entryBytes_cons, slice_at, e.slice_signature]

theorem localNext_cut (h : (entryBytes whole).length + 30 ≤ k) :
    localNext ((entryBytes (whole ++ e :: rest)).take k) (entryBytes whole).length =
      wrap ((entryBytes whole).length + e.size) := by
  rw [localNext_take h, entryBytes_append, entryBytes_cons, localNext_entry, Nat.cast_add]

/-- At the entry that is cut, a call repairs under the condition. -/
theorem repairs_cut (hk : k ≤ (entryBytes (whole ++ e :: rest)).length) :
    Repairs ((entryBytes (whole ++ e :: rest)).take k) (entryBytes whole).length ↔
      (entryBytes whole).length + 4 ≤ k ∧ (entryBytes whole).length + 30 < 2 ^ 31 ∧
        ((entryBytes whole).length + 30 ≤ k → (k : ℤ) ≤ wrap ((entryBytes whole).length + e.size)) := by
  have hlength : ((entryBytes (whole ++ e :: rest)).take k).length = k := List.length_take_of_le hk
  constructor
  · intro hrepairs
    have room := hrepairs.room
    rw [hlength] at room
    rcases hrepairs with ⟨-, -, hint, hcut⟩ | ⟨hcentral, -⟩ | ⟨hend, -⟩
    · refine ⟨room, hint, fun h => ?_⟩
      rw [hlength, localNext_cut h] at hcut
      exact hcut h
    · exact absurd (hcentral.symm.trans (signature_cut room)) centralSignature_ne_local
    · exact absurd (hend.symm.trans (signature_cut room)) endSignature_ne_local
  · rintro ⟨room, hint, hcut⟩
    refine .localEntry (by rwa [hlength]) (signature_cut room) hint fun h => ?_
    rw [hlength] at h ⊢
    rw [localNext_cut h]
    exact hcut h

/-- Where a call repairs, its file is written and the processing ends. -/
theorem run_repairs (hdata : data.length < 2 ^ 31) {o : ℕ} (h : Repairs data o) (hlocal : slice o 4 data = localSignature) :
    (∀ t, (processZipFile arg data 1 o).run z ≠ .error .outOfFuel t) ∧
      (final ((processZipFile arg data 1 o).run z)).files = z.files ++ [(arg ++ "a", repaired data o z.lfes)] := by
  have hz : ({ z with lastOffset := o } : Zippa).lastOffset = o := rfl
  obtain ⟨room, -, hint, hcut⟩ | ⟨hcentral, -⟩ | ⟨hend, -⟩ := h
  · rw [process_run hdata room, if_pos hlocal]
    rcases lt_or_ge data.length (o + 30) with hshort | hfits
    · rw [processLocal_short hz hint hshort]
      exact ⟨fun t herr => (by cases herr), rfl⟩
    · rw [processLocal_run hdata hz hfits, if_neg (not_lt.2 (hcut hfits))]
      exact ⟨fun t herr => (by cases herr), rfl⟩
  · exact absurd (hcentral.symm.trans hlocal) centralSignature_ne_local
  · exact absurd (hend.symm.trans hlocal) endSignature_ne_local

end Cut

/-- The file was written where a call repairs, which is where the entries end. -/
theorem LeavesArchive.repairs {data : Bytes} {es : List LocalEntry} (hdata : data.length < 2 ^ 31)
    (h : LeavesArchive arg data es) : Repairs data (entryBytes es).length := by
  obtain ⟨fuel, a, hvalid, hlast, rfl, -, hfiles⟩ := h
  obtain ⟨new, hnew, hall⟩ := @process_writes arg data hdata fuel 0 (by decide) (by decide) {}
  have hmem : (arg ++ "a", a.bytes) ∈ new := by
    rw [hfiles, List.nil_append] at hnew
    rw [← hnew]
    exact List.mem_singleton_self _
  obtain ⟨o, lfes, ho, hrepairs, hfile⟩ := hall _ hmem
  rw [offset_of_archive hvalid hlast ho (Prod.mk.inj hfile).2]
  exact hrepairs

/-- **The entries in front of the cut are kept** if and only if the cut falls in an entry, behind its
signature: at the end of an entry the last complete one is lost, and in a signature nothing is repaired. -/
theorem processZipFile_repairs (arg : String) (a : Archive) (ha : a.Valid) (hplain : ∀ e ∈ a.entries, e.extra = [])
    (k : ℕ) (hk : k ≤ (entryBytes a.entries).length) (hint : k < 2 ^ 31) :
    LeavesArchive arg (a.bytes.take k) (wholeEntries k a.entries) ↔ CutInEntry a.entries k := by
  have hdata : a.bytes.take k = (entryBytes a.entries).take k := by
    rw [Archive.bytes, List.take_append_of_le_length hk]
  have hlength : ((entryBytes a.entries).take k).length = k := List.length_take_of_le hk
  rw [hdata]
  constructor
  · intro hleaves
    have hrepairs := hleaves.repairs (by omega)
    obtain ⟨rest, hsplit, hle, hnext⟩ := wholeEntries_split k a.entries
    cases rest with
    | nil =>
      -- the cut is at the end of the last entry
      have hroom := hrepairs.room
      rw [List.append_nil] at hsplit
      rw [hlength, ← hsplit] at hroom
      omega
    | cons e rest =>
      have hcut := hnext e rest rfl
      have hk' := hk
      rw [hsplit] at hk'
      have hrepairs' := (repairs_cut hk').1 (by rwa [← hsplit])
      exact ⟨_, e, rest, hsplit, hrepairs'.1, hcut, hrepairs'.2⟩
  · rintro ⟨whole, e, rest, hsplit, hroom, hend, hheader, hcut⟩
    have hwhole : wholeEntries k a.entries = whole := by
      rw [hsplit]
      exact wholeEntries_append (by omega) hend
    have hcount := ha.length_entries
    rw [hwhole]
    rw [hsplit] at hplain hk hlength hcount ⊢
    rw [List.length_append] at hcount
    have hshape := @take_entryBytes whole (e :: rest) k (by omega)
    have hpart : (entryBytes (e :: rest)).take (k - (entryBytes whole).length) ≠ [] := by
      intro hnil
      have hzero := congrArg List.length hnil
      rw [hshape, List.length_append, hzero, List.length_nil] at hlength
      omega
    obtain ⟨a', hvalid, hlast, hentries, hbytes⟩ := archive_repaired hshape
      (fun e' he' => hplain e' (List.mem_append_left _ he')) (by omega) (by omega)
    have hrepairs := (repairs_cut hk).2 ⟨hroom, hheader, hcut⟩
    have hsignature := @signature_cut whole rest e k hroom
    set cut := (entryBytes (whole ++ e :: rest)).take k with hcutdef
    have hrun : (processZipFile arg cut (1 + whole.length) 0).run {} =
        (processZipFile arg cut 1 ((entryBytes whole).length : ℕ)).run { lfes := entriesAt cut 0 whole } :=
      @process_entries arg {} _ [] _ 0 (by omega) whole hshape hpart
    have hwrites := @run_repairs arg { lfes := entriesAt cut 0 whole } _ (by omega) _ hrepairs hsignature
    rw [← hrun, ← hbytes] at hwrites
    exact ⟨1 + whole.length, a', hvalid, hlast, hentries, hwrites.1, hwrites.2⟩

/-- An archive of two empty files, `a` and `b`. -/
def twoFiles : Archive where
  entries := [smallFile 97 (intOf 0 0 0 0) [] (by decide), smallFile 98 (intOf 0 0 0 0) [] (by decide)]
  directory := [smallRecord 97 0 0 (intOf 0 0 0 0), smallRecord 98 31 0 (intOf 0 0 0 0)]
  endRecord := {
    disks := intOf 0 0 0 0, diskEntries := shortOf 2 0, entries := shortOf 2 0, dirSize := intOf 94 0 0 0,
    dirOffset := intOf 62 0 0 0, comment := [], comment_lt := length_nil_lt_short }

theorem twoFiles_valid : twoFiles.Valid where
  lists := ⟨⟨rfl, rfl, rfl, rfl, rfl, rfl, rfl, rfl, rfl⟩, ⟨rfl, rfl, rfl, rfl, rfl, rfl, rfl, rfl, rfl⟩, trivial⟩
  diskEntries := by decide
  entries := by decide
  dirSize := by decide
  dirOffset := by decide
  disks := by decide

/-- A cut in the header of `b` keeps `a`. -/
theorem twoFiles_cut : LeavesArchive "upload.zip" (twoFiles.bytes.take 40) (wholeEntries 40 twoFiles.entries) := by
  have hplain : ∀ e ∈ twoFiles.entries, e.extra = [] := by decide
  refine (processZipFile_repairs "upload.zip" twoFiles twoFiles_valid hplain 40 (by decide) (by decide)).2 ?_
  exact ⟨[smallFile 97 (intOf 0 0 0 0) [] (by decide)], smallFile 98 (intOf 0 0 0 0) [] (by decide), [], rfl, by decide,
    by decide, by decide, fun h => absurd h (by decide)⟩

/-- A cut at the end of `a` loses it. -/
theorem twoFiles_boundary :
    ¬ LeavesArchive "upload.zip" (twoFiles.bytes.take 31) (wholeEntries 31 twoFiles.entries) := fun h =>
  absurd (h.repairs (by decide)).room (by decide)

end CaptureHPC
