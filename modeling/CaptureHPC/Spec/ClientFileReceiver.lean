import CaptureHPC.Spec.Download

/-!
# What a receiver writes

`ClientFileReceiver.receiveFilePart` with the file it writes to, which is a stream: an accepted part
is written behind the one before it.

* The base64 decoder is a parameter; it has no result when it throws an `IOException`.
* The file could be opened and the disk does not fail.
-/

namespace CaptureHPC

/-- The attributes and the text of a part. -/
structure FilePart where
  partStart : Option String
  partEnd : Option String
  encoding : Option String
  data : String
  deriving DecidableEq

namespace ClientFileReceiver

variable (decodeBuffer : String → Option (List UInt8))

/-- `receiveFilePart`; no result when a number or the encoding is missing or malformed. -/
def receiveFilePart (outputFile : List UInt8) (p : FilePart) : Option (List UInt8) := do
  let partStart ← parseInt p.partStart
  let partEnd ← parseInt p.partEnd
  let partSize := partEnd - partStart
  let encoding ← p.encoding
  if encoding = "base64" then
    match decodeBuffer p.data with
    | none => some outputFile
    | some buffer => if (buffer.length : ℤ) = partSize.toInt then some (outputFile ++ buffer) else some outputFile
  else some outputFile

/-- The file behind these parts. An exception ends the event thread, and the file is never finished. -/
def receive (parts : List FilePart) : Option (List UInt8) := parts.foldlM (receiveFilePart decodeBuffer) []

end ClientFileReceiver

end CaptureHPC
