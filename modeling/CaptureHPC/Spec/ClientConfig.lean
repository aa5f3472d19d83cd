import CaptureHPC.Spec.Visitor
import CaptureHPC.Spec.WideText

/-!
# The client-config plugin

`Application_ClientConfigManager::visitGroup` with `FileDownloader::Download` and `ProcessHandler`.

* What the network, the processes and the clock do for a URL is an input (`UrlRun`): whether its download succeeds,
  which process is started for it, and whether waiting for its window to open or to close times out.
* How long the visit sleeps is left out, but the first URL is asked for it.
* `executed`, `closed` and `terminated` are histories. `towlower` is a parameter.
-/

namespace CaptureHPC.Cpp

namespace ErrorCodes

def captureVisitationNetworkError : UInt32 := 0x10000110
def captureVisitationProcessError : UInt32 := 0x10000111
def captureNeCantDownloadTempFile : UInt32 := 0x10005000
def captureNeConnectErrorDlTempFile : UInt32 := 0x10005001

end ErrorCodes

open ErrorCodes

def slash : WChar := 0x2F

/-- An entry of `applicationsMap`. -/
structure Application where
  path : WString
  downloadURL : Bool
  deriving DecidableEq

/-- How a visit ends that does not return. -/
inductive VisitFault
  /-- A handler is used that is null. -/
  | nullHandler
  /-- `substr` throws. -/
  | outOfRange
  /-- An element of a vector is used that is not there. -/
  | subscript
  deriving DecidableEq

inductive DownloadOutcome
  | connectTimeout
  | downloadTimeout
  | downloaded
  deriving DecidableEq

structure UrlRun where
  download : DownloadOutcome
  /-- 0 if no process is created. -/
  processId : UInt32
  openTimesOut : Bool
  lastError : UInt32
  closeTimesOut : Bool
  /-- The processes that are listed when the handler closes its own, with their names. Each can be opened. -/
  processes : List (UInt32 × WString)

/-- What a visit keeps of a URL. -/
structure UrlResult where
  processId : UInt32 := 0
  majorErrorCode : UInt32 := 0
  minorErrorCode : UInt32 := 0
  deriving DecidableEq

namespace FileDownloader

/-- The status that `Download` returns. -/
def status : DownloadOutcome → UInt32
  | .connectTimeout => captureNeConnectErrorDlTempFile
  | .downloadTimeout => captureNeCantDownloadTempFile
  | .downloaded => 0

/-- `Download`: the status, and the file that is named after the extension of the URL. -/
def download (tempPath what : WString) (outcome : DownloadOutcome) : Except VisitFault (UInt32 × WString) :=
  match substr what (findLastOf what dot) npos with
  | some extension => .ok (status outcome, tempPath ++ lit "tempFile" ++ extension)
  | none => .error .outOfRange

end FileDownloader

structure ProcessHandler where
  fullPathToExe : WString
  parameters : WString
  processId : UInt32 := 0
  deriving DecidableEq

namespace ProcessHandler

/-- What stands behind the last backslash. -/
def exeName (fullPathToExe : WString) : WString := fullPathToExe.drop (findLastOf fullPathToExe backslash + 1).toNat

/-- The constructor: the first parameter is the name of the program, and a blank is put in front of the others. -/
def new (fullPathToExe parameters : WString) : ProcessHandler :=
  let blank := lit " "
  { fullPathToExe := fullPathToExe
    parameters := exeName fullPathToExe ++
      if parameters ≠ [] ∧ ¬blank <+: parameters then blank ++ parameters else parameters }

/-- The name of a process is that of the program. -/
def SameName (towlower : WChar → WChar) (fullPathToExe name : WString) : Prop :=
  name.map towlower = (exeName fullPathToExe).map towlower

instance (towlower : WChar → WChar) (fullPathToExe name : WString) : Decidable (SameName towlower fullPathToExe name) :=
  inferInstanceAs (Decidable (_ = _))

/-- `closeProcess`: the processes it terminates, its own, if there is one, and then all those with the name of the
program. -/
def closeProcess (towlower : WChar → WChar) (ph : ProcessHandler) (processes : List (UInt32 × WString)) : List UInt32 :=
  (if ph.processId = 0 then [] else [ph.processId]) ++
    (processes.filter fun p => p.1 ≠ 0 ∧ SameName towlower ph.fullPathToExe p.2).map Prod.fst

end ProcessHandler

structure GroupVisit where
  visitEvent : VisitEvent
  url : ℕ → UrlResult := fun _ => {}
  processHandlers : ℕ → Option ProcessHandler := fun _ => none
  error : Bool := false
  executed : List ℕ := []
  closed : List ℕ := []
  terminated : List UInt32 := []

namespace GroupVisit

variable (towlower : WChar → WChar) (tempPath : WString)

/-- The codes of a URL and of the event. -/
def setError (i : ℕ) (major minor : UInt32) (s : GroupVisit) : GroupVisit :=
  { s with
    visitEvent := s.visitEvent.setErrorCode major
    url := Function.update s.url i { s.url i with majorErrorCode := major, minorErrorCode := minor } }

/-- The program is started with the URL or the file. -/
def execute (application : Application) (r : UrlRun) (i : ℕ) (urlPath : WString) (s : GroupVisit) : GroupVisit :=
  let ph := { ProcessHandler.new application.path urlPath with processId := r.processId }
  let s := { s with
    processHandlers := Function.update s.processHandlers i (some ph)
    url := Function.update s.url i { s.url i with processId := r.processId }
    executed := s.executed ++ [i] }
  if r.openTimesOut then { s.setError i captureVisitationProcessError r.lastError with error := true } else s

/-- The body of the first loop. -/
def openUrl (application : Application) (r : UrlRun) (i : ℕ) (s : GroupVisit) : Except VisitFault GroupVisit :=
  match s.visitEvent.urls[i]? with
  | none => .error .subscript
  | some url =>
    if application.downloadURL then
      match substr url (findLastOf url slash) npos with
      | none => .error .outOfRange
      | some _ => do
        let (downloadStatus, file) ← FileDownloader.download tempPath url r.download
        if downloadStatus > 0 then .ok (s.setError i captureVisitationNetworkError downloadStatus)
        else .ok (s.execute application r i file)
    else .ok (s.execute application r i url)

/-- The body of the closing loop. -/
def closeUrl (r : UrlRun) (i : ℕ) (s : GroupVisit) : Except VisitFault GroupVisit :=
  match s.processHandlers i with
  | none => .error .nullHandler
  | some ph =>
    let s := { s with
      closed := s.closed ++ [i]
      terminated := s.terminated ++ ph.closeProcess towlower r.processes }
    .ok (if r.closeTimesOut then s.setError i captureVisitationProcessError 0 else s)

/-- `visitGroup`. -/
def visitGroup (applicationsMap : WString → Option Application) (runs : ℕ → UrlRun) (visitEvent : VisitEvent) :
    Except VisitFault GroupVisit :=
  match applicationsMap visitEvent.program with
  | none => .ok { visitEvent := visitEvent.setErrorCode captureVisitationProcessError }
  | some application => do
    let indices := List.range visitEvent.urls.length
    let s ← indices.foldlM (fun s i => openUrl tempPath application (runs i) i s) { visitEvent }
    if s.error = false ∧ visitEvent.urls = [] then .error .subscript
    else indices.foldlM (fun s i => closeUrl towlower (runs i) i s) s

end GroupVisit

end CaptureHPC.Cpp
