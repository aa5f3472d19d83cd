import CaptureHPC.Spec.ElementText
import CaptureHPC.Spec.FileUploader

/-!
# The files a server receives

`ClientEventController.endElement` for the messages about files, with what the receivers write, and
what the parser reports of the messages that the client sends.

* The tags of a message arrive as they were sent; the parser may cut the text of a part into chunks.
* The base64 decoder is a parameter. The files can be opened, and the disk does not fail.
* `group` is `getGroupAsFileName` of the group that the client visits.
-/

namespace CaptureHPC

open Lib Sax Cpp

namespace Cpp

/-- A string as the server reads it. -/
def text (w : WString) : String := String.ofList (ofUnits w)

/-- Text and nothing else, in chunks. -/
def textContent (chunks : List (List Char)) : Content String Char := chunks.foldr .text .done

/-- What the parser reports of a message, if it cuts its text into these chunks. -/
def Message.reports (chunks : List (List Char)) : Message → List (Report String Char)
  | .xml name atts => (Content.element (text name) (atts.map fun a => (text a.1, text a.2)) .done .done).reports
  | .element (.mk name atts _ _) =>
    (Content.element (text name) (atts.map fun a => (text a.1, text a.2)) (textContent chunks) .done).reports

/-- The text of a message. -/
def Message.text : Message → List Char
  | .xml .. => []
  | .element (.mk _ _ data _) => ofUnits (Element.dataString data)

end Cpp

/-- A file that a receiver writes. -/
structure OutputFile where
  fileName : String
  written : List UInt8 := []
  deriving DecidableEq

/-- The map `clientFileReceivers`, and the files that are finished. -/
structure FileReceivers where
  clientFileReceivers : Option String → Option OutputFile := fun _ => none
  finished : List OutputFile := []

namespace FileReceivers

/-- `clientFileReceivers.put`, or `remove`. -/
def put (s : FileReceivers) (name : Option String) (f : Option OutputFile) : FileReceivers :=
  { s with clientFileReceivers := Function.update s.clientFileReceivers name f }

/-- The name of the file that the constructor of `ClientFileReceiver` opens; none for an exception. -/
def fileName (group : Option String) (e : Node String Char) : Option String :=
  match parseInt (e.get "size"), group with
  | none, _ => none
  | some _, some g => (e.get "type").map fun type => "log/changes/" ++ g ++ "." ++ type
  | some _, none => e.get "name"

/-- `endElement` for a document about a file. -/
def endElement (group : Option String) (decodeBuffer : List Char → Option (List UInt8)) (s : FileReceivers)
    (e : Node String Char) : Option FileReceivers :=
  let name := e.get "name"
  if e.name = "file" then
    (fileName group e).map fun fileName =>
      match s.clientFileReceivers name with
      | some _ => s
      | none => s.put name (some { fileName })
  else if e.name = "part" then
    match s.clientFileReceivers name with
    | none => some s
    | some f =>
      (TextHandler.receiveFilePart decodeBuffer e f.written).map fun written => s.put name (some { f with written })
  else if e.name = "file-finished" then
    match s.clientFileReceivers name with
    | none => some s
    | some f => some { s.put name none with finished := s.finished ++ [f] }
  else some s

/-- A document, as the parser reports it. -/
def receive (group : Option String) (decodeBuffer : List Char → Option (List UInt8)) (s : FileReceivers)
    (reports : List (Report String Char)) : Option FileReceivers :=
  (reports.foldlM (TextHandler.sax TextHandler.trim) {}).bind fun h => h.handled.foldlM (endElement group decodeBuffer) s

/-- The documents of messages with their chunks, one after the other. -/
def receiveAll (group : Option String) (decodeBuffer : List Char → Option (List UInt8)) (s : FileReceivers)
    (messages : List (Message × List (List Char))) : Option FileReceivers :=
  messages.foldlM (fun s m => receive group decodeBuffer s (m.1.reports m.2)) s

end FileReceivers

end CaptureHPC
