import CaptureHPC.Spec.FileUploader

/-!
# The parts of an uploaded file

* `Base64.decode_text`: the text of a part stands for the bytes that were read.
* `sendFilePart_run`: a part is the next block of the file; the count is zero when the block is
  not full.
* `sendFile_tiles`: the parts of an accepted file are its bytes, cut into blocks.
-/

namespace CaptureHPC.Cpp

/-! ## Base64 -/

namespace Base64

/-- The six bits of a letter. -/
def bitsOf (b : UInt8) : Option ℕ := (List.range 64).find? fun n => letter n == b

/-- The bytes a text in base64 stands for. -/
def decode : List UInt8 → Option (List UInt8)
  | [] => some []
  | a :: b :: c :: d :: text =>
    match bitsOf a, bitsOf b, bitsOf c, bitsOf d with
    | some n1, some n2, some n3, some n4 =>
      let n := n1 * 262144 + n2 * 4096 + n3 * 64 + n4
      (decode text).map fun bytes =>
        UInt8.ofNat (n / 65536) :: UInt8.ofNat (n / 256) :: UInt8.ofNat n :: bytes
    | some n1, some n2, some n3, none =>
      let n := n1 * 262144 + n2 * 4096 + n3 * 64
      if d = '='.toUInt8 ∧ text = [] then some [UInt8.ofNat (n / 65536), UInt8.ofNat (n / 256)] else none
    | some n1, some n2, none, none =>
      let n := n1 * 262144 + n2 * 4096
      if c = '='.toUInt8 ∧ d = '='.toUInt8 ∧ text = [] then some [UInt8.ofNat (n / 65536)] else none
    | _, _, _, _ => none
  | _ => none

theorem letter_mod (n : ℕ) : letter (n % 64) = letter n := by
  unfold letter
  rw [Nat.mod_mod]

theorem bitsOf_letter (n : ℕ) : bitsOf (letter n) = some (n % 64) := by
  have h : ∀ k < 64, bitsOf (letter k) = some k := by decide +kernel
  rw [← letter_mod]
  exact h _ (Nat.mod_lt _ (by decide))

theorem bitsOf_pad : bitsOf '='.toUInt8 = none := by decide

theorem ofNat_eq {a : UInt8} {n : ℕ} (h : n % 256 = a.toNat) : UInt8.ofNat n = a := by
  apply UInt8.toNat.inj
  rw [UInt8.toNat_ofNat', ← h]

theorem block_zero (a b : UInt8) : block a b 0 = a.toNat * 65536 + b.toNat * 256 := by
  rw [block, UInt8.toNat_zero, Nat.add_zero]

section Decode

variable {a b c d : UInt8} {n1 n2 n3 n4 : ℕ} {text : List UInt8}

theorem decode_four (ha : bitsOf a = some n1) (hb : bitsOf b = some n2) (hc : bitsOf c = some n3)
    (hd : bitsOf d = some n4) : decode (a :: b :: c :: d :: text) = (decode text).map fun bytes =>
      UInt8.ofNat ((n1 * 262144 + n2 * 4096 + n3 * 64 + n4) / 65536) ::
        UInt8.ofNat ((n1 * 262144 + n2 * 4096 + n3 * 64 + n4) / 256) ::
        UInt8.ofNat (n1 * 262144 + n2 * 4096 + n3 * 64 + n4) :: bytes := by
  simp only [decode, ha, hb, hc, hd]

theorem decode_three (ha : bitsOf a = some n1) (hb : bitsOf b = some n2) (hc : bitsOf c = some n3) :
    decode [a, b, c, '='.toUInt8] = some [UInt8.ofNat ((n1 * 262144 + n2 * 4096 + n3 * 64) / 65536),
      UInt8.ofNat ((n1 * 262144 + n2 * 4096 + n3 * 64) / 256)] := by
  simp only [decode, ha, hb, hc, bitsOf_pad, and_self, if_true]

theorem decode_two (ha : bitsOf a = some n1) (hb : bitsOf b = some n2) :
    decode [a, b, '='.toUInt8, '='.toUInt8] = some [UInt8.ofNat ((n1 * 262144 + n2 * 4096) / 65536)] := by
  simp only [decode, ha, hb, bitsOf_pad, and_self, if_true]

end Decode

/-- **The text stands for the bytes.** -/
theorem decode_text (bytes : List UInt8) : decode (encode bytes) = some bytes := by
  fun_induction encode bytes with
  | case1 a b c bytes n ih =>
    have ha := a.toNat_lt
    have hb := b.toNat_lt
    have hc := c.toNat_lt
    have hn : n = a.toNat * 65536 + b.toNat * 256 + c.toNat := rfl
    clear_value n
    rw [decode_four (bitsOf_letter _) (bitsOf_letter _) (bitsOf_letter _) (bitsOf_letter _), ih, Option.map_some,
      ofNat_eq (a := a) (by omega), ofNat_eq (a := b) (by omega), ofNat_eq (a := c) (by omega)]
  | case2 a b n =>
    have ha := a.toNat_lt
    have hb := b.toNat_lt
    have hn : n = a.toNat * 65536 + b.toNat * 256 := block_zero a b
    clear_value n
    rw [decode_three (bitsOf_letter _) (bitsOf_letter _) (bitsOf_letter _),
      ofNat_eq (a := a) (by omega), ofNat_eq (a := b) (by omega)]
  | case3 a n =>
    have ha := a.toNat_lt
    have hn : n = a.toNat * 65536 := by
      rw [show n = block a 0 0 from rfl, block_zero, UInt8.toNat_zero]
      omega
    clear_value n
    rw [decode_two (bitsOf_letter _) (bitsOf_letter _), ofNat_eq (a := a) (by omega)]
  | case4 => rfl

end Base64

namespace FileUploader

/-! ## One part -/

/-- The bytes a part is made from. -/
def blockAt (content : List UInt8) (offset : ℕ) : List UInt8 := (content.drop offset).take 8192

theorem toInt32_ofNat {n : ℕ} (h : n < 2 ^ 31) : (UInt32.ofNat n).toInt32.toInt = n := by
  have hn : (UInt32.ofNat n).toNat = n := UInt32.toNat_ofNat_of_lt' (by simpa [UInt32.size] using by omega)
  show (UInt32.ofNat n).toBitVec.toInt = n
  rw [BitVec.toInt_eq_toNat_bmod, UInt32.toNat_toBitVec, hn, Int.bmod_eq_of_le (by omega) (by omega)]

theorem seek_run {content : List UInt8} {offset : ℕ} (s : FileStream) (hs : s.content = content)
    (ho : offset < 2 ^ 31) :
    s.seek (UInt32.ofNat offset).toInt32 = { content := content, position := offset, eof := false } := by
  unfold FileStream.seek
  rw [toInt32_ofNat ho, if_pos (Int.natCast_nonneg _), Int.toNat_natCast, hs]

theorem read_run (content : List UInt8) (offset : ℕ) :
    FileStream.read { content := content, position := offset, eof := false } 8192 =
      (blockAt content offset,
        { content := content, position := offset + (blockAt content offset).length,
          eof := decide ((blockAt content offset).length < 8192) }) := rfl

/-- The part of these bytes, its bounds as numbers. -/
def part (fileName : WString) (offset : ℕ) (bytes : List UInt8) : Message :=
  .element (.mk (lit "part")
    [(lit "name", fileName), (lit "part-start", decimal offset), (lit "encoding", lit "base64"),
      (lit "part-end", decimal (offset + bytes.length : ℕ))]
    (Base64.encode bytes) [])

theorem partElement_eq (fileName : WString) {offset : ℕ} {bytes : List UInt8}
    (h : offset + bytes.length < 2 ^ 31) :
    Message.element (partElement fileName (UInt32.ofNat offset) bytes) = part fileName offset bytes := by
  have ho : (UInt32.ofNat offset).toNat = offset :=
    UInt32.toNat_ofNat_of_lt' (by simpa [UInt32.size] using by omega)
  rw [partElement, part, ho, ← UInt32.ofNat_add, toInt32_ofNat h]

variable {content : List UInt8} {s : FileUploader}

/-- **One part.** The block at the offset is sent unless it is empty. -/
theorem sendFilePart_run (hlen : content.length < 2 ^ 31) (hs : s.fileOpened = true)
    (hc : s.pFileStream.content = content) {offset : ℕ} (ho : offset ≤ content.length) :
    ∃ stream : FileStream, stream.content = content ∧ s.sendFilePart (UInt32.ofNat offset) 8192 =
      (if (blockAt content offset).length < 8192 then 0 else 8192,
        { s with
          pFileStream := stream
          sent := s.sent ++ (if blockAt content offset = [] then []
            else [part s.fileName offset (blockAt content offset)]) }) := by
  have hblock : offset + (blockAt content offset).length < 2 ^ 31 := by
    rw [blockAt, List.length_take, List.length_drop]
    omega
  have hle : (blockAt content offset).length ≤ 8192 := List.length_take_le _ _
  refine ⟨⟨content, offset + (blockAt content offset).length,
    decide ((blockAt content offset).length < 8192)⟩, rfl, ?_⟩
  unfold sendFilePart
  rw [if_pos hs, seek_run _ hc (by omega), show (8192 : UInt32).toNat = 8192 from rfl, read_run]
  simp only [List.length_pos_iff, partElement_eq s.fileName hblock]
  by_cases hshort : (blockAt content offset).length < 8192
  · by_cases hempty : blockAt content offset = []
    · simp [hempty]
    · simp [hshort, hempty]
  · have hfull : (blockAt content offset).length = 8192 := Nat.le_antisymm hle (Nat.not_lt.1 hshort)
    have hne : blockAt content offset ≠ [] := by
      intro h
      rw [h] at hfull
      cases hfull
    simp [hfull, hne]

/-! ## The loop -/

/-- The parts of blocks that follow each other in the file. -/
def parts (fileName : WString) : ℕ → List (List UInt8) → List Message
  | _, [] => []
  | offset, bytes :: blocks => part fileName offset bytes :: parts fileName (offset + bytes.length) blocks

/-- Blocks of at most 8192 bytes, none of them empty. -/
def Blocks (blocks : List (List UInt8)) : Prop := ∀ bytes ∈ blocks, bytes ≠ [] ∧ bytes.length ≤ 8192

/-- **The loop.** From an offset on, it sends the rest of the file. -/
theorem sendParts_run (hlen : content.length < 2 ^ 31) {fuel offset : ℕ} (hs : s.fileOpened = true)
    (hc : s.pFileStream.content = content) (ho : offset ≤ content.length)
    (hfuel : content.length - offset < fuel) :
    ∃ blocks stream, Blocks blocks ∧ blocks.flatten = content.drop offset ∧
      sendParts fuel (UInt32.ofNat offset) s =
        some { s with pFileStream := stream, sent := s.sent ++ parts s.fileName offset blocks } := by
  induction fuel generalizing offset s with
  | zero => omega
  | succ fuel ih =>
    obtain ⟨stream, hstream, hpart⟩ := sendFilePart_run hlen hs hc ho
    have hdrop : blockAt content offset ++ content.drop (offset + 8192) = content.drop offset := by
      rw [blockAt, ← List.drop_drop, List.take_append_drop]
    have hle : (blockAt content offset).length ≤ 8192 := List.length_take_le _ _
    unfold sendParts
    rw [hpart]
    by_cases hshort : (blockAt content offset).length < 8192
    · -- a short block is the last one
      have hend : content.drop (offset + 8192) = [] := by
        rw [blockAt, List.length_take, List.length_drop] at hshort
        exact List.drop_eq_nil_of_le (by omega)
      rw [hend, List.append_nil] at hdrop
      simp only [if_pos hshort]
      rw [if_neg (by decide)]
      by_cases hempty : blockAt content offset = []
      · refine ⟨[], stream, by simp [Blocks], ?_, ?_⟩
        · rw [← hdrop, hempty]; rfl
        · simp only [hempty, if_true, parts]
      · refine ⟨[blockAt content offset], stream, ?_, ?_, ?_⟩
        · simpa [Blocks] using ⟨hempty, hle⟩
        · simpa using hdrop
        · simp only [if_neg hempty, parts]
    · have hfull : (blockAt content offset).length = 8192 := Nat.le_antisymm hle (Nat.not_lt.1 hshort)
      have hne : blockAt content offset ≠ [] := by
        intro h
        rw [h] at hfull
        cases hfull
      have hnext : offset + 8192 ≤ content.length := by
        rw [blockAt, List.length_take, List.length_drop] at hfull
        omega
      simp only [if_neg hshort, if_neg hne]
      obtain ⟨blocks, stream', hblocks, hflat, hrun⟩ := ih (s := { s with
        pFileStream := stream
        sent := s.sent ++ [part s.fileName offset (blockAt content offset)] }) hs hstream hnext (by omega)
      refine ⟨blockAt content offset :: blocks, stream', ?_, ?_, ?_⟩
      · intro bytes hb
        rcases List.mem_cons.1 hb with rfl | hb
        · exact ⟨hne, hle⟩
        · exact hblocks bytes hb
      · rw [List.flatten_cons, hflat, hdrop]
      · rw [if_pos (by decide), show (8192 : UInt32) = UInt32.ofNat 8192 from rfl, ← UInt32.ofNat_add, hrun,
          parts, hfull, List.append_assoc, List.singleton_append]

/-- The server accepts the file. -/
structure Answers.Accepts (answers : Answers) (content : List UInt8) : Prop where
  isConnected : answers.isConnected = true
  fileSize : answers.fileSize = some (content.length : ℤ)
  opened : answers.opened = some content
  timeout : answers.timeout = false
  accepted : answers.accepted = true

/-- The state in which the loop begins. -/
def begun (s : FileUploader) (file : WString) (content : List UInt8) : FileUploader where
  fileAccepted := true
  fileOpened := true
  busy := true
  fileName := file
  pFileStream := { content := content }
  sent := s.sent ++ [.xml (lit "file") (fileAttributes file content.length)]

theorem sendFile_accepted {answers : Answers} (h : Answers.Accepts answers content) (file : WString) (fuel : ℕ) :
    sendFile fuel answers file s = (sendParts fuel 0 (begun s file content)).map fun s =>
      (true, { s with
        sent := s.sent ++ [.xml (lit "file-finished") (fileAttributes file content.length)]
        fileOpened := false
        busy := false }) := by
  unfold sendFile
  rw [h.isConnected, h.fileSize, h.opened]
  simp [h.timeout, h.accepted, begun]

/-- The bytes that the data of a message stands for. -/
def decoded : Message → Option (List UInt8)
  | .element (.mk _ _ data _) => Base64.decode data
  | .xml .. => none

theorem decoded_parts (fileName : WString) (offset : ℕ) (blocks : List (List UInt8)) :
    (parts fileName offset blocks).map decoded = blocks.map some := by
  induction blocks generalizing offset with
  | nil => rfl
  | cons bytes blocks ih =>
    rw [parts, List.map_cons, List.map_cons, ih]
    exact congrArg (· :: _) (Base64.decode_text bytes)

/-- **The parts tile the file**: the bytes that they stand for are the file's. -/
theorem sendFile_tiles (answers : Answers) (h : Answers.Accepts answers content) (hlen : content.length < 2 ^ 31)
    (file : WString) (s : FileUploader) (fuel : ℕ) (hfuel : content.length < fuel) :
    ∃ blocks s', sendFile fuel answers file s = some (true, s') ∧
      s'.sent = s.sent ++ [.xml (lit "file") (fileAttributes file content.length)] ++ parts file 0 blocks ++
        [.xml (lit "file-finished") (fileAttributes file content.length)] ∧
      (parts file 0 blocks).map decoded = blocks.map some ∧
      blocks.flatten = content ∧ ∀ bytes ∈ blocks, bytes ≠ [] ∧ bytes.length ≤ 8192 := by
  have hbegun : content.length - 0 < fuel := Nat.lt_of_le_of_lt (Nat.sub_le ..) hfuel
  obtain ⟨blocks, stream, hblocks, hflat, hrun⟩ :=
    sendParts_run (s := begun s file content) hlen rfl rfl (Nat.zero_le _) hbegun
  rw [sendFile_accepted h, show (0 : UInt32) = UInt32.ofNat 0 from rfl, hrun]
  exact ⟨blocks, _, rfl, rfl, decoded_parts file 0 blocks, hflat, hblocks⟩

/-- A full block and the byte behind it. -/
def twoBlocks : List UInt8 := List.replicate 8192 0x50 ++ [0x4B]

theorem length_twoBlocks : twoBlocks.length = 8193 := by
  rw [twoBlocks, List.length_append, List.length_replicate]
  rfl

theorem sendFile_twoBlocks : ∃ blocks s',
    sendFile 8194 ⟨true, some 8193, some twoBlocks, false, true⟩ (lit "a.zip") {} = some (true, s') ∧
    s'.sent = ({} : FileUploader).sent ++ [.xml (lit "file") (fileAttributes (lit "a.zip") twoBlocks.length)] ++
      parts (lit "a.zip") 0 blocks ++ [.xml (lit "file-finished") (fileAttributes (lit "a.zip") twoBlocks.length)] ∧
    (parts (lit "a.zip") 0 blocks).map decoded = blocks.map some ∧
    blocks.flatten = twoBlocks ∧ ∀ bytes ∈ blocks, bytes ≠ [] ∧ bytes.length ≤ 8192 := by
  have haccepts : Answers.Accepts ⟨true, some 8193, some twoBlocks, false, true⟩ twoBlocks :=
    ⟨rfl, by rw [length_twoBlocks]; rfl, rfl, rfl, rfl⟩
  exact sendFile_tiles _ haccepts (by rw [length_twoBlocks]; decide) _ _ _ (by rw [length_twoBlocks]; decide)

end FileUploader

end CaptureHPC.Cpp
