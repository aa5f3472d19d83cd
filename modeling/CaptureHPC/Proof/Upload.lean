import CaptureHPC.Proof.Base64
import CaptureHPC.Proof.ElementText
import CaptureHPC.Proof.FileError
import CaptureHPC.Proof.UrlFactory
import CaptureHPC.Spec.Upload

/-!
# A file on its way from the client to the server

The client sends a file as base64 in parts, and the server writes behind each other what it decodes. The
parser may cut the text of a part into chunks, of which the handler keeps the last.

* `receive_part`: what the decoder makes of that is written if it is as long as the part.
* `upload_arrives_iff`: so the server finishes the file that was sent if and only if for every part the decoder makes of
  the last chunk what it makes of the whole text. If nothing but blanks comes before the last chunk, it does.
-/

namespace CaptureHPC

open Lib Sax TextHandler Cpp Cpp.FileUploader

/-! ## The text of a part -/

/-- The letters of base64 are in this range. -/
theorem letter_range (n : ℕ) : 32 < (Base64.letter n).toNat ∧ (Base64.letter n).toNat < 128 := by
  have h : ∀ k < 64, 32 < (Base64.letter k).toNat ∧ (Base64.letter k).toNat < 128 := by decide +kernel
  rw [← Base64.letter_mod]
  exact h _ (Nat.mod_lt _ (by decide))

theorem encode_range (bytes : List UInt8) : ∀ b ∈ Base64.encode bytes, 32 < b.toNat ∧ b.toNat < 128 := by
  have hpad : 32 < ('='.toUInt8).toNat ∧ ('='.toUInt8).toNat < 128 := by decide
  fun_induction Base64.encode bytes with
  | case1 a b c bytes n ih => simpa [letter_range] using ih
  | case2 a b n => simp [letter_range, hpad]
  | case3 a n => simp [letter_range, hpad]
  | case4 => simp

/-- Bytes below 128 are read as their characters. -/
theorem ofUnits_dataString {data : List UInt8} (h : ∀ b ∈ data, 32 < b.toNat ∧ b.toNat < 128) :
    ofUnits (Element.dataString data) = data.map fun b => charOf b.toNat := by
  have hall : data.takeWhile (· ≠ 0) = data := by
    rw [List.takeWhile_eq_self_iff]
    intro b hb
    have := (h b hb).1
    rw [decide_eq_true_eq]
    rintro rfl
    exact absurd this (by decide)
  unfold Element.dataString
  rw [hall]
  induction data with
  | nil => rfl
  | cons b data ih =>
    obtain ⟨hlow, hhigh⟩ := h b List.mem_cons_self
    have hunit : (b.toUInt16).toNat = b.toNat := UInt8.toNat_toUInt16 b
    have hsurrogate : isHigh b.toUInt16 = false := by
      unfold isHigh
      rw [hunit]
      simp only [decide_eq_false_iff_not, Bool.and_eq_false_imp, decide_eq_true_eq]
      omega
    rw [List.map_cons, if_pos hhigh, ofUnits_cons hsurrogate, hunit, List.map_cons,
      ih (fun c hc => h c (List.mem_cons_of_mem _ hc)) (by
        rw [List.takeWhile_eq_self_iff] at hall ⊢
        exact fun c hc => hall c (List.mem_cons_of_mem _ hc))]

/-- The text that stands for these bytes. -/
def partText (bytes : List UInt8) : List Char := ofUnits (Element.dataString (Base64.encode bytes))

/-- There is no blank in the text. -/
theorem not_blank_partText (bytes : List UInt8) : ∀ c ∈ partText bytes, isBlank c = false := by
  intro c hc
  rw [partText, ofUnits_dataString (encode_range bytes)] at hc
  obtain ⟨b, hb, rfl⟩ := List.mem_map.1 hc
  obtain ⟨hlow, hhigh⟩ := encode_range bytes b hb
  have hchar : (charOf b.toNat).toNat = b.toNat := by
    have h : ∀ k < 128, (charOf k).toNat = k := by decide +kernel
    exact h _ hhigh
  unfold isBlank
  rw [hchar]
  simp only [decide_eq_false_iff_not, not_le]
  exact hlow

/-! ## A document -/

theorem text_lit (s : String) : text (lit s) = s := by
  rw [text, lit, ofUnits_units, String.ofList_toList]

theorem parseInt_decimal {n : ℕ} (h : n < 2 ^ 31) : parseInt (some (text (decimal n))) = some (Int32.ofNat n) := by
  rw [decimal, text_lit, parseInt_toString, if_pos h]

theorem chunks_textContent (chunks : List (List Char)) : (textContent chunks).chunks = chunks := by
  induction chunks with
  | nil => rfl
  | cons chunk chunks ih => exact congrArg (chunk :: ·) ih

theorem nodes_textContent (datum : List (List Char) → List Char) (chunks : List (List Char)) :
    (textContent chunks).nodes datum = [] := by
  induction chunks with
  | nil => rfl
  | cons chunk chunks ih => exact ih

variable {group : Option String} {decodeBuffer : List Char → Option (List UInt8)} {s s' : FileReceivers} {f : OutputFile}

theorem receive_document (name : String) (as : List (String × String)) (chunks : List (List Char)) :
    s.receive group decodeBuffer (Content.element name as (textContent chunks) .done).reports =
      s.endElement group decodeBuffer (.mk name as (latest trim [] chunks) []) := by
  unfold FileReceivers.receive
  rw [run_document, chunks_textContent, nodes_textContent, Option.bind_some, List.foldlM_cons]
  exact bind_pure _

/-- What is known of the decoder: it reads what was encoded. -/
def Decodes (decodeBuffer : List Char → Option (List UInt8)) : Prop := ∀ bytes, decodeBuffer (partText bytes) = some bytes

/-- The decoder makes of the last chunk, without the blanks at its ends, what it makes of the text. -/
def SameDecoded (decodeBuffer : List Char → Option (List UInt8)) (text : List Char) (chunks : List (List Char)) : Prop :=
  decodeBuffer (latest trim [] chunks) = decodeBuffer text

/-- A text without blanks that comes whole is what is decoded. -/
theorem sameDecoded_of_blankBefore {text : List Char} {chunks : List (List Char)} (h : BlankBefore chunks)
    (hchunks : chunks.flatten = text) (htext : ∀ c ∈ text, isBlank c = false) :
    SameDecoded decodeBuffer text chunks := by
  unfold SameDecoded
  rw [(latest_eq_trim_iff chunks).2 h, hchunks, trim_eq_self htext]

/-- The bounds of a part are as far apart as it is long. -/
theorem partSize_eq {offset length : ℕ} (h : offset + length < 2 ^ 31) :
    (Int32.ofNat (offset + length) - Int32.ofNat offset).toInt = length := by
  have hsub : Int32.ofNat (offset + length) - Int32.ofNat offset = Int32.ofNat length := by
    rw [Int32.ofNat_add, Int32.add_comm, Int32.add_sub_cancel]
  rw [hsub, Int32.toInt_ofNat_of_lt (by omega)]

/-- The element of a part, if its text comes in these chunks. -/
def partNode (file : WString) (offset : ℕ) (bytes : List UInt8) (chunks : List (List Char)) : Node String Char :=
  .mk "part" [("name", text file), ("part-start", text (decimal offset)), ("encoding", "base64"),
    ("part-end", text (decimal (offset + bytes.length : ℕ)))] (latest trim [] chunks) []

/-- What the text is decoded to is written if it is as long as the part. -/
theorem receiveFilePart_partNode {file : WString} {offset : ℕ} {bytes : List UInt8} (hlen : offset + bytes.length < 2 ^ 31)
    (chunks : List (List Char)) (written : List UInt8) :
    TextHandler.receiveFilePart decodeBuffer (partNode file offset bytes chunks) written =
      some (((decodeBuffer (latest trim [] chunks)).map fun buffer =>
        if buffer.length = bytes.length then written ++ buffer else written).getD written) := by
  have hstart : parseInt ((partNode file offset bytes chunks).get "part-start") = some (Int32.ofNat offset) :=
    parseInt_decimal (by omega)
  have hend : parseInt ((partNode file offset bytes chunks).get "part-end") = some (Int32.ofNat (offset + bytes.length)) :=
    parseInt_decimal hlen
  have hencoding : (partNode file offset bytes chunks).get "encoding" = some "base64" := rfl
  have hdata : (partNode file offset bytes chunks).data = latest trim [] chunks := rfl
  unfold TextHandler.receiveFilePart
  rw [hstart, hend, hencoding, hdata]
  simp only [partSize_eq hlen, if_true, Nat.cast_inj]
  cases decodeBuffer (latest trim [] chunks) with
  | none => rfl
  | some buffer => rfl

theorem receive_partNode {file : WString} {offset : ℕ} {bytes : List UInt8} {chunks : List (List Char)}
    (hf : s.clientFileReceivers (some (text file)) = some f) :
    s.receive group decodeBuffer ((FileUploader.part file offset bytes).reports chunks) =
      (TextHandler.receiveFilePart decodeBuffer (partNode file offset bytes chunks) f.written).map fun written =>
        s.put (some (text file)) (some { f with written }) := by
  have hname : (partNode file offset bytes chunks).get "name" = some (text file) := rfl
  have hpart : (partNode file offset bytes chunks).name = "part" := rfl
  unfold FileUploader.part Message.reports
  simp only [List.map_cons, List.map_nil, text_lit]
  rw [receive_document, ← partNode]
  unfold FileReceivers.endElement
  rw [hname, hpart]
  simp only [hf]
  rw [if_neg (by decide), if_pos trivial]

variable (group) in
/-- **A part.** What is written for it is no longer than it is, and is the part if the decoder reads it. -/
theorem receive_part (hd : Decodes decodeBuffer) {file : WString} {offset : ℕ} {bytes : List UInt8}
    (hlen : offset + bytes.length < 2 ^ 31) (chunks : List (List Char))
    (hf : s.clientFileReceivers (some (text file)) = some f) : ∃ got,
    s.receive group decodeBuffer ((FileUploader.part file offset bytes).reports chunks) =
      some (s.put (some (text file)) (some { f with written := f.written ++ got })) ∧
    got.length ≤ bytes.length ∧ (bytes ≠ [] → (got = bytes ↔ SameDecoded decodeBuffer (partText bytes) chunks)) := by
  unfold SameDecoded
  rw [receive_partNode hf, receiveFilePart_partNode hlen, hd]
  cases decodeBuffer (latest trim [] chunks) with
  | none =>
    refine ⟨[], ?_, Nat.zero_le _, fun hne => iff_of_false (fun h => hne h.symm) nofun⟩
    simp only [Option.map_none, Option.map_some, Option.getD_none, List.append_nil]
  | some buffer =>
    -- what has another length is dropped
    by_cases hsize : buffer.length = bytes.length
    · refine ⟨buffer, ?_, hsize.le, fun _ => Option.some_inj.symm⟩
      simp only [if_pos hsize, Option.map_some, Option.getD_some]
    · refine ⟨[], ?_, Nat.zero_le _, fun hne => iff_of_false (fun h => hne h.symm) fun h => hsize ?_⟩
      · simp only [if_neg hsize, Option.map_some, Option.getD_some, List.append_nil]
      · rw [Option.some.inj h]

/-! ## The parts of a file -/

theorem put_put (s : FileReceivers) (name : Option String) (f f' : Option OutputFile) :
    (s.put name f).put name f' = s.put name f' := by
  unfold FileReceivers.put
  rw [Function.update_idem]

@[simp] theorem put_self (s : FileReceivers) (name : Option String) (f : Option OutputFile) :
    (s.put name f).clientFileReceivers name = f := Function.update_self _ _ _

variable (group) in
theorem receive_parts (hd : Decodes decodeBuffer) {file : WString} {blocks : List (List UInt8)}
    (hne : ∀ bytes ∈ blocks, bytes ≠ [])
    {offset : ℕ} (hlen : offset + blocks.flatten.length < 2 ^ 31) {cuts : List (List (List Char))}
    (hcuts : List.Forall₂ (fun m cut => cut.flatten = Message.text m) (parts file offset blocks) cuts)
    (hf : s.clientFileReceivers (some (text file)) = some f) : ∃ got,
    s.receiveAll group decodeBuffer ((parts file offset blocks).zip cuts) =
      some (s.put (some (text file)) (some { f with written := f.written ++ got })) ∧
    got.length ≤ blocks.flatten.length ∧
    (got = blocks.flatten ↔ ∀ p ∈ (parts file offset blocks).zip cuts, SameDecoded decodeBuffer (Message.text p.1) p.2) := by
  -- the offset and the file grow with each part
  induction blocks generalizing offset cuts s f with
  | nil =>
    cases hcuts
    refine ⟨[], ?_, le_rfl, iff_of_true rfl fun _ h => absurd h List.not_mem_nil⟩
    rw [List.append_nil, FileReceivers.put, ← hf, Function.update_eq_self]
    rfl
  | cons bytes blocks ih =>
    rw [parts, List.forall₂_cons_left_iff] at hcuts
    obtain ⟨cut, cuts, hcut, hcuts, rfl⟩ := hcuts
    rw [List.flatten_cons, List.length_append] at hlen
    have hfit : offset + bytes.length < 2 ^ 31 := by omega
    obtain ⟨got1, hrun1, hle1, hgot1⟩ := receive_part group hd hfit cut hf
    have hrest : offset + bytes.length + blocks.flatten.length < 2 ^ 31 := by omega
    obtain ⟨got2, hrun2, hle2, hgot2⟩ := ih (fun b hb => hne b (List.mem_cons_of_mem _ hb)) hrest hcuts
      (put_self s (some (text file)) (some { f with written := f.written ++ got1 }))
    refine ⟨got1 ++ got2, ?_, ?_, ?_⟩
    · rw [parts, FileReceivers.receiveAll, List.zip_cons_cons, List.foldlM_cons, hrun1]
      refine hrun2.trans ?_
      rw [put_put, List.append_assoc]
    · rw [List.flatten_cons, List.length_append, List.length_append]
      exact Nat.add_le_add hle1 hle2
    · have hone : got1 = bytes ↔ SameDecoded decodeBuffer (Message.text (part file offset bytes)) cut :=
        hgot1 (hne bytes List.mem_cons_self)
      rw [parts, List.zip_cons_cons, List.forall_mem_cons, List.flatten_cons, ← hgot2, ← hone]
      constructor
      · -- nothing of a later part makes up for what is missing of this one
        intro h
        have hlength := congrArg List.length h
        rw [List.length_append, List.length_append] at hlength
        exact List.append_inj h (by omega)
      · rintro ⟨rfl, rfl⟩
        rfl

/-- The chunks of messages that follow each other. -/
theorem cuts_append {ms ms' : List Message} {cuts : List (List (List Char))}
    (h : List.Forall₂ (fun m cut => cut.flatten = Message.text m) (ms ++ ms') cuts) : ∃ before after, cuts = before ++ after ∧
      List.Forall₂ (fun m cut => cut.flatten = Message.text m) ms before ∧
      List.Forall₂ (fun m cut => cut.flatten = Message.text m) ms' after := by
  induction ms generalizing cuts with
  | nil => exact ⟨[], cuts, rfl, .nil, h⟩
  | cons m ms ih =>
    rw [List.cons_append, List.forall₂_cons_left_iff] at h
    obtain ⟨cut, cuts, hcut, hcuts, rfl⟩ := h
    obtain ⟨before, after, rfl, hbefore, hafter⟩ := ih hcuts
    exact ⟨cut :: before, after, rfl, .cons hcut hbefore, hafter⟩

/-! ## The beginning and the end -/

/-- A message that is not a part. -/
theorem receive_xml (name : String) (atts : List (WString × WString)) (chunks : List (List Char)) :
    s.receive group decodeBuffer ((Message.xml (lit name) atts).reports chunks) =
      s.endElement group decodeBuffer (.mk name (atts.map fun a => (text a.1, text a.2)) [] []) := by
  show s.receive group decodeBuffer
    (Content.element (text (lit name)) (atts.map fun a => (text a.1, text a.2)) (textContent []) .done).reports = _
  rw [text_lit]
  exact receive_document name _ []

/-- The attributes of a file, as they arrive. -/
theorem map_fileAttributes (file : WString) (length : ℤ) :
    (fileAttributes file length).map (fun a => (text a.1, text a.2)) =
      [("name", text file), ("size", text (decimal length)), ("type", text (fileType file))] := by
  rw [fileAttributes]
  simp only [List.map_cons, List.map_nil, text_lit]

/-- The name of the file that a receiver writes. -/
def uploadName (group : Option String) (file : WString) : String :=
  match group with
  | some g => "log/changes/" ++ g ++ "." ++ text (fileType file)
  | none => text file

/-- **The beginning.** A receiver is put under the name of the file. -/
theorem receive_file {file : WString} {length : ℕ} (hlen : length < 2 ^ 31) (chunks : List (List Char))
    (hs : s.clientFileReceivers (some (text file)) = none) :
    s.receive group decodeBuffer ((Message.xml (lit "file") (fileAttributes file length)).reports chunks) =
      some (s.put (some (text file)) (some { fileName := uploadName group file })) := by
  have hsize : parseInt (some (text (decimal length))) = some (Int32.ofNat length) := parseInt_decimal hlen
  rw [receive_xml, map_fileAttributes]
  unfold FileReceivers.endElement
  rw [show (Node.mk "file" _ [] [] : Node String Char).get "name" = some (text file) from rfl,
    show (Node.mk "file" _ [] [] : Node String Char).name = "file" from rfl]
  simp only [hs, if_true]
  unfold FileReceivers.fileName
  rw [show (Node.mk "file" _ [] [] : Node String Char).get "size" = some (text (decimal length)) from rfl, hsize]
  cases group with
  | none => rfl
  | some g => rfl

/-- **The end.** The receiver is closed and removed. -/
theorem receive_finished {file : WString} {length : ℤ} (chunks : List (List Char))
    (hf : s.clientFileReceivers (some (text file)) = some f) :
    s.receive group decodeBuffer ((Message.xml (lit "file-finished") (fileAttributes file length)).reports chunks) =
      some { s.put (some (text file)) none with finished := s.finished ++ [f] } := by
  rw [receive_xml, map_fileAttributes]
  unfold FileReceivers.endElement
  rw [show (Node.mk "file-finished" _ [] [] : Node String Char).get "name" = some (text file) from rfl,
    show (Node.mk "file-finished" _ [] [] : Node String Char).name = "file-finished" from rfl]
  simp only [hf]
  rw [if_neg (by decide), if_neg (by decide), if_pos trivial]

/-- A text that is empty comes whole. -/
theorem latest_of_nil {chunks : List (List Char)} (h : chunks.flatten = []) : latest trim [] chunks = [] := by
  have hblank : BlankBefore chunks := by
    intro chunk hchunk c hc
    rw [List.flatten_eq_nil_iff.1 h chunk (List.dropLast_subset _ hchunk)] at hc
    exact absurd hc List.not_mem_nil
  rw [(latest_eq_trim_iff chunks).2 hblank, h]
  rfl

/-- The texts of the messages have no blanks. -/
theorem not_blank_text {file : WString} {offset : ℕ} {blocks : List (List UInt8)} :
    ∀ m ∈ parts file offset blocks, ∀ c ∈ Message.text m, isBlank c = false := by
  induction blocks generalizing offset with
  | nil => exact fun m hm => absurd hm List.not_mem_nil
  | cons bytes blocks ih =>
    rw [parts, List.forall_mem_cons]
    exact ⟨not_blank_partText bytes, ih⟩

/-- The messages of a file that is accepted. -/
theorem sendFile_messages {content : List UInt8} {answers : Answers} (h : Answers.Accepts answers content)
    (hlen : content.length < 2 ^ 31) (file : WString) (s : FileUploader) {fuel : ℕ} (hfuel : content.length < fuel) :
    ∃ blocks s', sendFile fuel answers file s = some (true, s') ∧
      s'.sent = s.sent ++ .xml (lit "file") (fileAttributes file content.length) ::
        (parts file 0 blocks ++ [.xml (lit "file-finished") (fileAttributes file content.length)]) ∧
      blocks.flatten = content ∧ Blocks blocks := by
  have hbegun : content.length - 0 < fuel := Nat.lt_of_le_of_lt (Nat.sub_le ..) hfuel
  obtain ⟨blocks, stream, hblocks, hflat, hrun⟩ :=
    sendParts_run (s := begun s file content) hlen rfl rfl (Nat.zero_le _) hbegun
  rw [sendFile_accepted h, show (0 : UInt32) = UInt32.ofNat 0 from rfl, hrun]
  refine ⟨blocks, _, rfl, ?_, hflat, hblocks⟩
  show s.sent ++ [_] ++ parts file 0 blocks ++ [_] = _
  rw [List.append_assoc, List.append_assoc, List.singleton_append]

/-- **An upload.** The server finishes one file, under its name, and it is the file that was sent if and only
if for every message the decoder makes of the last chunk what it makes of the text. So it is if nothing but blanks comes
before the last chunks. -/
theorem upload_arrives_iff {content : List UInt8} {answers : Answers} (hd : Decodes decodeBuffer)
    (h : Answers.Accepts answers content) (hlen : content.length < 2 ^ 31) (file : WString) (s : FileUploader) {fuel : ℕ}
    (hfuel : content.length < fuel) {r : FileReceivers} (hr : r.clientFileReceivers (some (text file)) = none) :
    ∃ s' messages, sendFile fuel answers file s = some (true, s') ∧ s'.sent = s.sent ++ messages ∧
      ∀ cuts, List.Forall₂ (fun m cut => cut.flatten = Message.text m) messages cuts →
        (∃ written, r.receiveAll group decodeBuffer (messages.zip cuts) =
            some { r with finished := r.finished ++ [⟨uploadName group file, written⟩] } ∧
          (written = content ↔ ∀ p ∈ messages.zip cuts, SameDecoded decodeBuffer (Message.text p.1) p.2)) ∧
        ((∀ cut ∈ cuts, BlankBefore cut) → ∀ p ∈ messages.zip cuts, SameDecoded decodeBuffer (Message.text p.1) p.2) := by
  obtain ⟨blocks, s', hsend, hsent, hflat, hblocks⟩ := sendFile_messages h hlen file s hfuel
  set atts := fileAttributes file content.length with hatts
  refine ⟨s', .xml (lit "file") atts :: (parts file 0 blocks ++ [.xml (lit "file-finished") atts]), hsend, hsent, ?_⟩
  -- The chunks of the first message, of the parts, and of the last one.
  intro cuts hcuts
  rw [List.forall₂_cons_left_iff] at hcuts
  obtain ⟨cut, cuts, hcut, hcuts, rfl⟩ := hcuts
  obtain ⟨middle, last, rfl, hmiddle, hlast⟩ := cuts_append hcuts
  rw [List.forall₂_cons_left_iff] at hlast
  obtain ⟨finish, rest, hfinish, hrest, rfl⟩ := hlast
  cases hrest
  have hzip : (parts file 0 blocks ++ [Message.xml (lit "file-finished") atts]).zip (middle ++ [finish]) =
      (parts file 0 blocks).zip middle ++ [(Message.xml (lit "file-finished") atts, finish)] :=
    List.zip_append hmiddle.length_eq
  have hfirst : SameDecoded decodeBuffer (Message.text (.xml (lit "file") atts)) cut :=
    congrArg decodeBuffer (latest_of_nil hcut)
  have hlast : SameDecoded decodeBuffer (Message.text (.xml (lit "file-finished") atts)) finish :=
    congrArg decodeBuffer (latest_of_nil hfinish)
  have hall : (∀ p ∈ (Message.xml (lit "file") atts, cut) :: ((parts file 0 blocks).zip middle ++
        [(Message.xml (lit "file-finished") atts, finish)]), SameDecoded decodeBuffer (Message.text p.1) p.2) ↔
      ∀ p ∈ (parts file 0 blocks).zip middle, SameDecoded decodeBuffer (Message.text p.1) p.2 := by
    rw [List.forall_mem_cons, List.forall_mem_append, List.forall_mem_singleton]
    exact ⟨fun hp => hp.2.1, fun hp => ⟨hfirst, hp, hlast⟩⟩
  rw [List.zip_cons_cons, hzip, hall]
  refine ⟨?_, fun hblank p hp => ?_⟩
  · have hfit : 0 + blocks.flatten.length < 2 ^ 31 := by
      rw [hflat, zero_add]
      exact hlen
    obtain ⟨got, hparts, -, hgot⟩ := receive_parts group hd (fun b hb => (hblocks b hb).1) hfit hmiddle
      (put_self r (some (text file)) (some { fileName := uploadName group file }))
    rw [put_put, List.nil_append] at hparts
    refine ⟨got, ?_, by rw [← hflat, hgot]⟩
    -- the name is free again
    have hback : (r.put (some (text file)) none).clientFileReceivers = r.clientFileReceivers := by
      rw [FileReceivers.put, ← hr, Function.update_eq_self]
    rw [FileReceivers.receiveAll] at hparts ⊢
    rw [List.foldlM_cons, receive_file hlen cut hr, Option.bind_eq_bind, Option.bind_some,
      List.foldlM_append, hparts, Option.bind_eq_bind, Option.bind_some, List.foldlM_cons,
      receive_finished finish (put_self _ _ _), put_put]
    show some (FileReceivers.mk (r.put (some (text file)) none).clientFileReceivers _) = _
    rw [hback]
    rfl
  · obtain ⟨hm, hcut⟩ := List.of_mem_zip hp
    refine sameDecoded_of_blankBefore (hblank p.2 (List.mem_cons_of_mem _ (List.mem_append_left _ hcut))) ?_
      (not_blank_text p.1 hm)
    exact (List.forall₂_iff_zip.1 hmiddle).2 hp

/-- The bytes of letters. -/
def lettersOf (data : List Char) : List UInt8 := data.map fun c => UInt8.ofNat c.toNat

theorem lettersOf_partText (bytes : List UInt8) : lettersOf (partText bytes) = Base64.encode bytes := by
  rw [lettersOf, partText, ofUnits_dataString (encode_range bytes), List.map_map]
  refine (List.map_congr_left fun b hb => ?_).trans (List.map_id _)
  have hchar : ∀ k < 128, (charOf k).toNat = k := by decide +kernel
  rw [Function.comp_apply, hchar _ (encode_range bytes b hb).2, UInt8.ofNat_toNat]
  rfl

/-- A decoder of base64. -/
theorem decodes_decode : Decodes fun data => Base64.decode (lettersOf data) := by
  intro bytes
  show Base64.decode (lettersOf (partText bytes)) = some bytes
  rw [lettersOf_partText, Base64.decode_text]

/-- A file of two blocks, in the group `1`. -/
theorem upload_arrives_twoBlocks : ∃ s' messages,
    sendFile 8194 ⟨true, some 8193, some (List.replicate 8193 0x50), false, true⟩ (lit "a.zip") {} = some (true, s') ∧
    s'.sent = ({} : FileUploader).sent ++ messages ∧
    ∀ cuts, List.Forall₂ (fun m cut => cut.flatten = Message.text m) messages cuts →
      (∃ written, ({} : FileReceivers).receiveAll (some "1") (fun data => Base64.decode (lettersOf data))
          (messages.zip cuts) = some { ({} : FileReceivers) with
            finished := ({} : FileReceivers).finished ++ [⟨uploadName (some "1") (lit "a.zip"), written⟩] } ∧
        (written = List.replicate 8193 0x50 ↔ ∀ p ∈ messages.zip cuts,
          SameDecoded (fun data => Base64.decode (lettersOf data)) (Message.text p.1) p.2)) ∧
      ((∀ cut ∈ cuts, BlankBefore cut) → ∀ p ∈ messages.zip cuts,
        SameDecoded (fun data => Base64.decode (lettersOf data)) (Message.text p.1) p.2) := by
  have hlen : (List.replicate 8193 (0x50 : UInt8)).length = 8193 := List.length_replicate
  exact upload_arrives_iff decodes_decode ⟨rfl, by rw [hlen]; rfl, rfl, rfl, rfl⟩ (by rw [hlen]; decide) _ _
    (by rw [hlen]; decide) rfl

end CaptureHPC
