import CaptureHPC.Lib.Program
import CaptureHPC.Spec.StateChange

/-!
# URLs and their controller

`Url`, `UrlsController` and the `Stats` and log they write. The objects of the program
live in a heap, here a function from numbers to records; an object is named by its number.

* The clock is `now`; `new Date()` reads it.
* What `Url` reads and nobody sets back to null (`visitStartTime`, `visitFinishTime`) is an
  `Option`; using a missing one is a null pointer.
* The log and the change files are lists; a failing disk is not modelled.
-/

namespace CaptureHPC

open Lib

inductive ErrorCode
  | ok | prestart | start | finish | postfinish | networkError | processError | timeoutError
  | visitationUnableToStartClient | visitationMultipleErrors | visitationException
  | visitationWarning | captureClientInactivity | vmStalled | captureClientConnectionReset
  | socketError | invalidUrl | peProcessTerminatedForcefully | peProcessAlreadyTerminated
  | peProcessPathNotFound | peSentUrlToDisconnectedClient | neCantDownloadTempFile
  | invalidErrorCodeFromClient
  deriving DecidableEq, Repr

namespace ErrorCode

/-- `ERROR_CODES.values()`, in the order of their declaration. -/
def values : List ErrorCode :=
  [ok, prestart, start, finish, postfinish, networkError, processError, timeoutError,
    visitationUnableToStartClient, visitationMultipleErrors, visitationException,
    visitationWarning, captureClientInactivity, vmStalled, captureClientConnectionReset,
    socketError, invalidUrl, peProcessTerminatedForcefully, peProcessAlreadyTerminated,
    peProcessPathNotFound, peSentUrlToDisconnectedClient, neCantDownloadTempFile,
    invalidErrorCodeFromClient]

def errorCode : ErrorCode → ℤ
  | ok => 0x00000000
  | prestart => 0x10000101
  | start => 0x10000102
  | finish => 0x10000103
  | postfinish => 0x10000104
  | networkError => 0x10000110
  | processError => 0x10000111
  | timeoutError => 0x10000112
  | visitationUnableToStartClient => 0x10000114
  | visitationMultipleErrors => 0x10000113
  | visitationException => 0x10000200
  | visitationWarning => 0x10000300
  | captureClientInactivity => 0x10004000
  | vmStalled => 0x10004100
  | captureClientConnectionReset => 0x10004200
  | socketError => 0x10004300
  | invalidUrl => 0x10007000
  | peProcessTerminatedForcefully => 0x10005000
  | peProcessAlreadyTerminated => 0x10005001
  | peProcessPathNotFound => 0x10005002
  | peSentUrlToDisconnectedClient => 0x10005003
  | neCantDownloadTempFile => 0x10005000
  | invalidErrorCodeFromClient => 0x10006000

/-- The loop of `setMajorErrorCode`: the last constant with this code, else the one for
invalid codes. -/
def ofCode (code : ℤ) : ErrorCode :=
  values.foldl (fun found e => if code = e.errorCode then e else found) invalidErrorCodeFromClient

end ErrorCode

inductive UrlState
  | none | queued | visiting | visited | error
  deriving DecidableEq, Repr

structure Url where
  url : String
  id : ℤ
  clientProgram : String
  visitTime : Int32
  majorErrorCode : ErrorCode := .ok
  minorErrorCode : ℤ := 0
  malicious : Option Bool := none
  urlState : UrlState := .none
  visitStartTime : Option ℤ := none
  visitFinishTime : Option ℤ := none
  firstStateChange : Option ℤ := none
  retryCount : ℕ := 0
  groupID : ℤ := 0
  processingIP : Option String := none
  logFile : Bool := false
  changes : List String := []
  deriving DecidableEq

instance : Inhabited Url := ⟨{ url := "", id := 0, clientProgram := "", visitTime := 0 }⟩

/-- `getEscapedUrl`. -/
def Url.escapedUrl (x : Url) : String := urlEncode x.url

def Url.effectiveId (x : Url) : ℤ := if x.id ≠ -1 then x.id else x.groupID

/-- The errors after which a URL is not worth another visit have the retry label F. -/
def Url.retryLabel (x : Url) : Bool :=
  !(x.majorErrorCode ∈ [ErrorCode.ok, .timeoutError, .visitationMultipleErrors, .visitationWarning,
    .networkError] || 0 < x.retryCount)

inductive LogEvent
  | queued | duplicate | sending | visiting | visited | malicious | benign
  | error (major : ErrorCode) (minor : ℤ)
  deriving DecidableEq

/-- A line of the log: date, address, the flag T or F, the event, and the URL. -/
structure LogEntry where
  date : ℤ
  ip : Option String
  flag : Bool
  event : LogEvent
  effectiveId : ℤ
  url : String
  deriving DecidableEq

structure Stats where
  visiting : ℕ := 0
  visited : ℕ := 0
  safe : ℕ := 0
  malicious : ℕ := 0
  urlError : ℕ := 0
  clientInactivity : ℕ := 0
  vmStalled : ℕ := 0
  visitingTimes : List ℤ := []
  firstStateChanges : List ℤ := []

namespace Stats

/-- `classificationDelay * 1000`, computed as an `int`. -/
def delayInMillis (classificationDelay : Int32) : ℤ := (classificationDelay * 1000).toInt

def addUrlVisitingTime (start finish : ℤ) (classificationDelay : Int32) (s : Stats) : Stats :=
  { s with visitingTimes := s.visitingTimes ++
      [(finish - start - delayInMillis classificationDelay).tdiv 1000] }

def addFirstStateChangeTime (firstStateChange finish : Option ℤ) (classificationDelay : Int32)
    (s : Stats) : Stats :=
  match firstStateChange, finish with
  | some first, some finish => { s with firstStateChanges := s.firstStateChanges ++
      [(first - (finish - delayInMillis classificationDelay)).tdiv 1000] }
  | _, _ => s

end Stats

/-- The URLs, the `UrlsController`, and the log, statistics and clock they use. -/
structure UrlsController where
  url : ℕ → Url := fun _ => default
  size : ℕ := 0
  urlQueue : List ℕ := []
  visitingList : List ℕ := []
  visitedList : List ℕ := []
  errorUrlList : List ℕ := []
  log : List LogEntry := []
  stats : Stats := {}
  now : ℤ := 0

abbrev UrlsM := EStateM Exn UrlsController

namespace UrlsController

/-- The entry about a URL as it is now. -/
def entry (x : Url) (date : ℤ) (flag : Bool) (event : LogEvent) : LogEntry :=
  ⟨date, x.processingIP, flag, event, x.effectiveId, x.url⟩

def writeToLog (e : LogEntry) (s : UrlsController) : UrlsController := { s with log := s.log ++ [e] }

def setUrl (u : ℕ) (x : Url) (s : UrlsController) : UrlsController :=
  { s with url := Function.update s.url u x }

def addStats (f : Stats → Stats) (s : UrlsController) : UrlsController := { s with stats := f s.stats }

/-- `update`, called after each change of a URL's state. -/
def update (u : ℕ) (s : UrlsController) : UrlsController :=
  let x := s.url u
  match x.urlState with
  | .visiting => { s with visitingList := s.visitingList ++ [u] }
  | .visited => { s with visitingList := s.visitingList.erase u, visitedList := s.visitedList ++ [u] }
  | .error =>
    let s := { s with visitingList := s.visitingList.erase u }
    if u ∈ s.errorUrlList then s
    else
      let e := entry x s.now x.retryLabel (.error x.majorErrorCode x.minorErrorCode)
      { s.writeToLog e with errorUrlList := s.errorUrlList ++ [u] }
  | _ => s

/-- `inUrlQueue`. -/
def inUrlQueue (x : Url) (s : UrlsController) : Bool :=
  s.urlQueue.any fun u => equalsIgnoreCase x.escapedUrl (s.url u).escapedUrl &&
    x.clientProgram == (s.url u).clientProgram && x.visitTime == (s.url u).visitTime

/-- `addUrl`: a duplicate of a queued URL is only logged. -/
def addUrl (x : Url) (s : UrlsController) : UrlsController :=
  if s.inUrlQueue x then
    s.writeToLog ⟨s.now, some "0.0.0.0", false, .duplicate, x.effectiveId, x.url⟩
  else
    let s' := { s.setUrl s.size x with size := s.size + 1, urlQueue := s.urlQueue ++ [s.size] }
    s'.writeToLog ⟨s.now, some "0.0.0.0", true, .queued, x.effectiveId, x.url⟩

/-- `takeUrl`. Which URL comes first in the priority queue is left to `pick`. -/
def takeUrl (pick : ℕ) (s : UrlsController) : Option (ℕ × UrlsController) :=
  match s.urlQueue[pick % s.urlQueue.length]? with
  | none => none
  | some u => some (u, { s with urlQueue := s.urlQueue.eraseIdx (pick % s.urlQueue.length) })

end UrlsController

namespace Url

open UrlsController

def modifyUrl (u : ℕ) (f : Url → Url) : UrlsM Unit := modify fun s => s.setUrl u (f (s.url u))

/-- `setMajorErrorCode`. -/
def setMajorErrorCode (u : ℕ) (code : ℤ) : UrlsM Unit :=
  modifyUrl u fun x => { x with majorErrorCode := ErrorCode.ofCode code }

def setMinorErrorCode (u : ℕ) (code : ℤ) : UrlsM Unit :=
  modifyUrl u fun x => { x with minorErrorCode := code }

def setMalicious (u : ℕ) (malicious : Bool) : UrlsM Unit :=
  modifyUrl u fun x => { x with malicious := some malicious }

/-- `setVisitStartTime(new Date())`. -/
def setVisitStartTime (u : ℕ) : UrlsM Unit :=
  modify fun s => s.setUrl u { s.url u with visitStartTime := some s.now }

/-- `setVisitFinishTime(new Date())`. -/
def setVisitFinishTime (u : ℕ) : UrlsM Unit :=
  modify fun s => s.setUrl u { s.url u with visitFinishTime := some s.now }

def closeEventLog (u : ℕ) : UrlsM Unit := modifyUrl u fun x => { x with logFile := false }

/-- The branch of `setUrlState` for VISITING. -/
def logVisiting (u : ℕ) : UrlsM Unit := do
  let x := (← get).url u
  match x.visitStartTime with
  | none => throw .nullPointer
  | some date =>
    modify (addStats fun s => { s with visiting := s.visiting + 1 })
    modify (writeToLog (entry x date true .visiting))

/-- The visiting time of a URL whose visit has ended. -/
def logVisitingTime (x : Url) : UrlsM Unit :=
  match x.visitStartTime, x.visitFinishTime with
  | some start, some finish => modify (addStats (Stats.addUrlVisitingTime start finish x.visitTime))
  | _, _ => throw .nullPointer

/-- The log of a malicious URL. -/
def logMalicious (x : Url) (date : ℤ) : UrlsM Unit := do
  modify (addStats fun s => { s with malicious := s.malicious + 1 })
  modify (addStats (Stats.addFirstStateChangeTime x.firstStateChange x.visitFinishTime x.visitTime))
  modify (writeToLog (entry x date x.retryLabel .malicious))

/-- The log of a visited URL's verdict. -/
def logVerdict (x : Url) (date : ℤ) : UrlsM Unit :=
  if x.malicious = some true then logMalicious x date
  else do
    modify (addStats fun s => { s with safe := s.safe + 1 })
    modify (writeToLog (entry x date false .benign))

/-- The branch of `setUrlState` for VISITED. -/
def logVisited (u : ℕ) : UrlsM Unit := do
  let s ← get
  modify (writeToLog (entry (s.url u) s.now true .visited))
  modify (addStats fun s => { s with visited := s.visited + 1 })
  logVisitingTime (s.url u)
  logVerdict (s.url u) s.now
  closeEventLog u

/-- The log of a URL in error; one without a verdict is not logged here. -/
def logFailure (x : Url) (date : ℤ) : UrlsM Unit :=
  match x.malicious with
  | some true => logMalicious x date
  | some false => do
    modify (addStats fun s => { s with urlError := s.urlError + 1 })
    modify (writeToLog (entry x date x.retryLabel (.error x.majorErrorCode x.minorErrorCode)))
  | none => pure ()

/-- The branch of `setUrlState` for ERROR. -/
def logError (u : ℕ) : UrlsM Unit := do
  let s ← get
  logFailure (s.url u) s.now
  closeEventLog u

/-- What `setUrlState` does in the new state. -/
def logState (u : ℕ) : UrlState → UrlsM Unit
  | .visiting => logVisiting u
  | .visited => logVisited u
  | .error => logError u
  | _ => pure ()

def setUrlState (u : ℕ) (newState : UrlState) : UrlsM Unit := do
  let s ← get
  if (s.url u).urlState = newState then
    pure ()
  else
    modifyUrl u fun x => { x with urlState := newState }
    logState u newState
    modify (UrlsController.update u)

/-- The parts of a line between the separators `","`. -/
def splitFields : List Char → List Char → List (List Char)
  | part, '"' :: ',' :: '"' :: cs => part.reverse :: splitFields [] cs
  | part, c :: cs => splitFields (c :: part) cs
  | part, [] => [part.reverse]

/-- `event.split("\",\"")`: without the empty parts at the end. -/
def splitEvent (event : String) : List String :=
  ((splitFields [] event.toList).rdropWhile List.isEmpty).map String.ofList

/-- Open the change file, whose name needs the start of the visit. -/
def openLog (u : ℕ) : UrlsM Unit := do
  let s ← get
  if (s.url u).logFile = false ∧ (s.url u).visitStartTime = none then throw .nullPointer
  else modifyUrl u fun x => { x with logFile := true }

/-- `writeEventToLog`: the verdict becomes malicious, unless the time cannot be read. -/
def writeEventToLog (sdf : SimpleDateFormat) (u : ℕ) (event : String) : UrlsM Unit := do
  openLog u
  let s ← get
  match (s.url u).firstStateChange with
  | some _ => modifyUrl u fun x => { x with malicious := some true, changes := x.changes ++ [event] }
  | none =>
    match (splitEvent event)[1]? with
    | none => throw .arrayIndexOutOfBounds
    | some date =>
      match sdf.parse date with
      | none => pure ()
      | some date => modifyUrl u fun x =>
          { x with firstStateChange := some date, malicious := some true, changes := x.changes ++ [event] }

end Url

end CaptureHPC
