import CaptureHPC.Lib.Machine
import CaptureHPC.Spec.Java

/-!
# Downloads of a client, and its disconnection

`ClientEventController.endElement` for the messages about files, `ClientFileReceiver`, and
`Client.disconnect` beside them. The threads share `downloading` and `zipName` without a lock, so each
read and each write is one step.

* A client has an event thread for each connection. A message is handled in three parts: what it
  will write is computed from what the thread alone knows, then the writes follow one by one.
* Any thread may lose the connection, once. `disconnect` is the list of what is left of it: it enters
  itself again when the client's state has been changed in the meantime, and an exception ends it.
* `setSocket` sets the state itself when it fails, so `disconnect` is never called.
* The base64 decoder is a parameter; whether a file can be opened is an input.
* `history` records, newest first, what the event threads wrote and which lines `disconnect` has passed. The two lines
  behind its test are passed in any case; only the test decides whether they do something.
-/

namespace CaptureHPC

open Lib

/-- A message about a file. The attributes may be missing. -/
inductive FileMessage
  /-- `group` is `getGroupAsFileName` of the group that is visited. -/
  | file (name size type group : Option String) (opened : Bool)
  | part (name partStart partEnd encoding : Option String) (data : String)
  | fileFinished (name : Option String)

/-- What a message writes to the client. -/
inductive Access
  /-- `setDownloading(true)` of `file`. -/
  | file (name : Option String)
  /-- `setZipName`. -/
  | zip (name : Option String) (zipName : String)
  /-- `setDownloading(true)` of `part`. -/
  | part (name : Option String)
  /-- `setDownloading(false)` of `file-finished`. -/
  | fileFinished (name : Option String)
  deriving DecidableEq

/-- An event thread: `clientFileReceivers` with their open files, what its message is still to
write, and whether an exception has ended it. -/
structure EventThread where
  clientFileReceivers : List (Option String × Bool) := []
  writes : List Access := []
  running : Bool := true
  deriving DecidableEq

namespace EventThread

/-- The message ends by an exception. -/
def throws (t : EventThread) (writes : List Access) : EventThread := { t with writes, running := false }

/-- `clientFileReceivers.put` where there is none of that name. -/
def put (t : EventThread) (name : Option String) (opened : Bool) : EventThread :=
  if (t.clientFileReceivers.lookup name).isSome then t
  else { t with clientFileReceivers := t.clientFileReceivers ++ [(name, opened)] }

/-- `equalsIgnoreCase("zip")`; the dotless and the dotted i count as an i. -/
def isZip (type : String) : Bool :=
  match type.toList with
  | [z, i, p] => (z = 'z' ∨ z = 'Z') ∧ (i = 'i' ∨ i = 'I' ∨ i = 'ı' ∨ i = 'İ') ∧ (p = 'p' ∨ p = 'P')
  | _ => false

/-- `file`, with the constructor of `ClientFileReceiver`. -/
def file (t : EventThread) (name size type group : Option String) (opened : Bool) : EventThread :=
  match parseInt size with
  | none => t.throws [.file name]
  | some _ =>
    match group, type with
    | some _, none => t.throws [.file name]
    | some g, some y =>
      let f := "log/changes/" ++ g ++ "." ++ y
      { t.put name opened with writes := if isZip y then [.file name, .zip name f] else [.file name] }
    | none, _ =>
      match name with
      | none => t.throws [.file name]
      | some _ => { t.put name opened with writes := [.file name] }

/-- `receiveFilePart` returns. -/
def receiveFilePart (decodeBuffer : String → Option (List UInt8)) (opened : Bool)
    (partStart partEnd encoding : Option String) (data : String) : Bool :=
  match parseInt partStart, parseInt partEnd, encoding with
  | some s, some e, some enc =>
    if enc = "base64" then
      match decodeBuffer data with
      | none => true
      | some buffer => if (buffer.length : ℤ) = (e - s).toInt then opened else true
    else true
  | _, _, _ => false

/-- The branches of `endElement` for a message about a file. -/
def endElement (decodeBuffer : String → Option (List UInt8)) (t : EventThread) : FileMessage → EventThread
  | .file name size type group opened => t.file name size type group opened
  | .part name partStart partEnd encoding data =>
    match t.clientFileReceivers.lookup name with
    | none => t
    | some opened =>
      if receiveFilePart decodeBuffer opened partStart partEnd encoding data then { t with writes := [.part name] }
      else t.throws []
  | .fileFinished name =>
    match t.clientFileReceivers.lookup name with
    | none => { t with writes := [.fileFinished name] }
    | some true =>
      { t with
        clientFileReceivers := t.clientFileReceivers.filter (·.1 ≠ name)
        writes := [.fileFinished name] }
    | some false => t.throws [.fileFinished name]

end EventThread

/-- What is left of a call of `disconnect`. -/
inductive DisconnectOp
  /-- `this.downloading = false`. -/
  | clear
  /-- `getClientState() != DISCONNECTED`, in the `finally` block. -/
  | recheck
  /-- `if (downloading)`. -/
  | test
  /-- `setDownloading(false)`, if the test found the flag set. -/
  | reset (found : Bool)
  /-- `z.repair(zipName)`, if it did. -/
  | repair (found : Bool)
  deriving DecidableEq

/-- What the threads did, and where `disconnect` was. -/
inductive Entry
  | wrote (a : Access)
  /-- `clientState` became `DISCONNECTED`. -/
  | lost
  | reentered
  | cleared
  | tested
  | resetPassed
  | repairPassed
  deriving DecidableEq

/-- A client, its event threads, and the thread that disconnects it. -/
structure Download where
  downloading : Bool := false
  zipName : Option String := none
  threads : List EventThread := []
  disconnecting : List DisconnectOp := []
  /-- What `Zippa.repair` was given. -/
  repaired : List (Option String) := []
  history : List Entry := []
  deriving DecidableEq

inductive DownloadStep
  /-- A connection of the client begins. -/
  | connect
  /-- A thread handles its next message. -/
  | receive (i : ℕ) (m : FileMessage)
  /-- A thread's next write. -/
  | write (i : ℕ)
  /-- `setClientState(DISCONNECTED)`. -/
  | lose
  /-- The `catch` of `setSocket`. -/
  | socketFails
  /-- `disconnect` goes on. The flag says whether the client's state was changed behind it. -/
  | disconnect (changed : Bool)
  /-- `disconnect` ends by an exception. -/
  | throws

namespace Download

def disconnectBody : List DisconnectOp := [.clear, .recheck, .test]

/-- A write of an event thread. -/
def wrote (s : Download) : Access → Download
  | .file n => { s with downloading := true, history := .wrote (.file n) :: s.history }
  | .zip n z => { s with zipName := some z, history := .wrote (.zip n z) :: s.history }
  | .part n => { s with downloading := true, history := .wrote (.part n) :: s.history }
  | .fileFinished n => { s with downloading := false, history := .wrote (.fileFinished n) :: s.history }

/-- The next operation of `disconnect`. -/
def disconnect (s : Download) (changed : Bool) : Option Download :=
  match s.disconnecting with
  | [] => none
  | .clear :: rest =>
    some { s with downloading := false, disconnecting := rest, history := .cleared :: s.history }
  | .recheck :: rest =>
    if changed then some { s with disconnecting := disconnectBody ++ rest, history := .reentered :: s.history }
    else some { s with disconnecting := rest }
  | .test :: rest =>
    some { s with
      disconnecting := .reset s.downloading :: .repair s.downloading :: rest
      history := .tested :: s.history }
  | .reset found :: rest =>
    some { s with
      downloading := if found then false else s.downloading
      disconnecting := rest
      history := .resetPassed :: s.history }
  | .repair found :: rest =>
    some { s with
      repaired := if found then s.repaired ++ [s.zipName] else s.repaired
      disconnecting := rest
      history := .repairPassed :: s.history }

def step (decodeBuffer : String → Option (List UInt8)) (s : Download) : DownloadStep → Option Download
  | .connect => some { s with threads := s.threads ++ [{}] }
  | .receive i m =>
    match s.threads[i]? with
    | some t =>
      if t.running ∧ t.writes = [] then some { s with threads := s.threads.set i (t.endElement decodeBuffer m) }
      else none
    | none => none
  | .write i =>
    match s.threads[i]? with
    | some t =>
      match t.writes with
      | a :: rest => some ({ s with threads := s.threads.set i { t with writes := rest } }.wrote a)
      | [] => none
    | none => none
  | .lose =>
    if .lost ∈ s.history then none
    else some { s with disconnecting := disconnectBody, history := .lost :: s.history }
  | .socketFails => if .lost ∈ s.history then none else some { s with history := .lost :: s.history }
  | .disconnect changed => s.disconnect changed
  | .throws =>
    match s.disconnecting with
    | .clear :: _ | .recheck :: _ => some { s with disconnecting := [] }
    | _ => none

/-- The client is disconnected. -/
def Over (s : Download) : Prop := .lost ∈ s.history ∧ s.disconnecting = []

instance (s : Download) : Decidable s.Over := inferInstanceAs (Decidable (_ ∧ _))

end Download

end CaptureHPC
