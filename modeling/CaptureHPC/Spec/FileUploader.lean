import CaptureHPC.Spec.ClientXml

/-!
# The upload of a file

`FileUploader` of the client, with `Base64::encode` and the C stream it reads.

* The stream reads without errors. `fseek` takes a `long`, which has 32 bits.
* What the system and the server answer is an input (`Answers`); nobody else uses the stream
  while the file is sent.
* The loop of `sendFile` has fuel; there is no result when it runs out.
-/

namespace CaptureHPC.Cpp

/-- A file opened for reading in binary mode. -/
structure FileStream where
  content : List UInt8 := []
  position : ℕ := 0
  eof : Bool := false

namespace FileStream

/-- `fseek` from the start of the file, which clears the end-of-file indicator. A negative offset
is an error. -/
def seek (s : FileStream) (offset : Int32) : FileStream :=
  if 0 ≤ offset.toInt then { s with position := offset.toInt.toNat, eof := false } else s

/-- `fread`. The indicator is set when the file ends before `size` bytes are read. -/
def read (s : FileStream) (size : ℕ) : List UInt8 × FileStream :=
  let bytes := if s.eof then [] else (s.content.drop s.position).take size
  (bytes, { s with position := s.position + bytes.length, eof := s.eof || bytes.length < size })

end FileStream

namespace Base64

/-- `b64_list`. -/
def b64List : List Char := "ABCDEFGHIJKLMNOPQRSTUVWXYZabcdefghijklmnopqrstuvwxyz0123456789+/".toList

/-- The letter of six bits. -/
def letter (n : ℕ) : UInt8 := (b64List.getD (n % 64) 'A').toUInt8

/-- `block`: the bits of three bytes. -/
def block (a b c : UInt8) : ℕ := a.toNat * 65536 + b.toNat * 256 + c.toNat

/-- `encode`. The bytes missing in the last block are zero, and its last letters are replaced by `=`. -/
def encode : List UInt8 → List UInt8
  | a :: b :: c :: bytes =>
    let n := block a b c
    letter (n / 262144) :: letter (n / 4096) :: letter (n / 64) :: letter n :: encode bytes
  | [a, b] =>
    let n := block a b 0
    [letter (n / 262144), letter (n / 4096), letter (n / 64), '='.toUInt8]
  | [a] =>
    let n := block a 0 0
    [letter (n / 262144), letter (n / 4096), '='.toUInt8, '='.toUInt8]
  | [] => []

end Base64

/-- A message of the client. -/
inductive Message
  | xml (elementName : WString) (vAttributes : List (WString × WString))
  | element (e : Element)

/-- What the system and the server answer. -/
structure Answers where
  isConnected : Bool
  /-- `getFileSize`. -/
  fileSize : Option ℤ
  /-- `_wfopen_s`. -/
  opened : Option (List UInt8)
  timeout : Bool
  /-- A file-accept arrives during the wait. -/
  accepted : Bool

structure FileUploader where
  fileAccepted : Bool := false
  fileOpened : Bool := false
  busy : Bool := false
  fileName : WString := []
  pFileStream : FileStream := {}
  sent : List Message := []

namespace FileUploader

/-- `boost::lexical_cast<std::wstring>`. -/
def decimal (n : ℤ) : WString := lit (toString n)

/-- The element of `sendFilePart`. -/
def partElement (fileName : WString) (offset : UInt32) (bytes : List UInt8) : Element :=
  .mk (lit "part")
    [(lit "name", fileName), (lit "part-start", decimal offset.toNat), (lit "encoding", lit "base64"),
      (lit "part-end", decimal (offset + UInt32.ofNat bytes.length).toInt32.toInt)]
    (Base64.encode bytes) []

/-- `sendFilePart`: the count of bytes it returns is zero at the end of the file. -/
def sendFilePart (s : FileUploader) (offset size : UInt32) : UInt32 × FileUploader :=
  if s.fileOpened then
    let (bytes, stream) := (s.pFileStream.seek offset.toInt32).read size.toNat
    let s := { s with pFileStream := stream }
    let s := if 0 < bytes.length then
        { s with sent := s.sent ++ [.element (partElement s.fileName offset bytes)] }
      else s
    (if s.pFileStream.eof then 0 else UInt32.ofNat bytes.length, s)
  else (0, s)

/-- The loop of `sendFile`. -/
def sendParts : ℕ → UInt32 → FileUploader → Option FileUploader
  | 0, _, _ => none
  | fuel + 1, offset, s =>
    let (bytesRead, s) := s.sendFilePart offset 8192
    if 0 < bytesRead then sendParts fuel (offset + bytesRead) s else some s

/-- `file.substr(file.find_last_of(L".") + 1)`. -/
def fileType (file : WString) : WString := (file.reverse.takeWhile (· ≠ 0x2E)).reverse

/-- The attributes of file and file-finished. -/
def fileAttributes (file : WString) (fileSize : ℤ) : List (WString × WString) :=
  [(lit "name", file), (lit "size", decimal fileSize), (lit "type", fileType file)]

/-- `sendFile`: whether it returns true. -/
def sendFile (fuel : ℕ) (answers : Answers) (file : WString) (s : FileUploader) : Option (Bool × FileUploader) :=
  if answers.isConnected = false then some (false, s)
  else
    let s := { s with busy := true, fileName := file }
    match answers.fileSize, answers.opened with
    | none, _ | _, none => some (false, { s with busy := false })
    | some fileSize, some content =>
      let atts := fileAttributes file fileSize
      let s := { s with
        fileOpened := true
        pFileStream := { content := content }
        sent := s.sent ++ [.xml (lit "file") atts]
        fileAccepted := s.fileAccepted || answers.accepted }
      if answers.timeout || !s.fileAccepted then
        some (false, { s with busy := false, fileOpened := false })
      else
        (sendParts fuel 0 s).map fun s =>
          (true, { s with sent := s.sent ++ [.xml (lit "file-finished") atts], fileOpened := false, busy := false })

/-- `boost::lexical_cast<int>`, which reads the digits of ASCII only; an exception when the text is no number or does
not fit. -/
def lexicalCast (text : WString) : Option Int32 :=
  if (ofUnits text).all fun c => c.toNat < 0x80 then parseInt (some (String.ofList (ofUnits text))) else none

/-- The loop of `onReceiveFileErrorEvent` over the attributes. -/
def errorRange : List (WString × WString) → Int32 × Int32 → Option (Int32 × Int32)
  | [], range => some range
  | (name, value) :: atts, (first, last) =>
    if name = lit "part-start" then (lexicalCast value).bind fun n => errorRange atts (n, last)
    else if name = lit "part-end" then (lexicalCast value).bind fun n => errorRange atts (first, n)
    else errorRange atts (first, last)

/-- `onReceiveFileErrorEvent`. The size that is computed from the range is not used. -/
def onReceiveFileErrorEvent (s : FileUploader) (atts : List (WString × WString)) : Option FileUploader :=
  (errorRange atts (0, 0)).map fun (first, last) =>
    if first ≠ 0 ∧ last ≠ 0 then (s.sendFilePart first.toUInt32 last.toUInt32).2 else s

end FileUploader

end CaptureHPC.Cpp
