import CaptureHPC.Spec.FileUploader

/-!
# The events that the analyzer reports

`Time::timefieldToString`, and what `Analyzer::sendSystemEvent` sends for the events of the three monitors.

* The fields of a time are those of a clock, so they are not negative.
-/

namespace CaptureHPC.Cpp

open FileUploader

/-- `TIME_FIELDS`, without the day of the week. -/
structure TimeFields where
  wYear : ℕ
  wMonth : ℕ
  wDay : ℕ
  wHour : ℕ
  wMinute : ℕ
  wSecond : ℕ
  wMilliseconds : ℕ
  deriving DecidableEq

/-- `Time::timefieldToString`. -/
def timefieldToString (time : TimeFields) : WString :=
  decimal time.wDay ++ lit "/" ++ decimal time.wMonth ++ lit "/" ++ decimal time.wYear ++ lit " " ++
    decimal time.wHour ++ lit ":" ++ decimal time.wMinute ++ lit ":" ++ decimal time.wSecond ++ lit "." ++
    decimal time.wMilliseconds

/-- What the slots of the analyzer are called with. -/
inductive SystemEvent
  | process (created : Bool) (time : TimeFields) (parentProcessId : UInt32) (parentProcess : WString)
      (processId : UInt32) (process : WString)
  | registry (registryEventType : WString) (time : TimeFields) (processId : UInt32)
      (processPath registryEventPath : WString)
  | file (fileEventType : WString) (time : TimeFields) (processId : UInt32) (processPath fileEventPath : WString)
  deriving DecidableEq

namespace Analyzer

/-- The attributes of the document that `sendSystemEvent` sends. -/
def sendSystemEvent (type time : WString) (processId : UInt32) (process action object1 object2 : WString) :
    List (WString × WString) :=
  [(lit "time", time), (lit "type", type), (lit "processId", decimal processId.toNat), (lit "process", process),
    (lit "action", action), (lit "object1", object1), (lit "object2", object2)]

/-- `onProcessEvent`, `onRegistryEvent` and `onFileEvent`: the attributes that are sent. -/
def onEvent : SystemEvent → List (WString × WString)
  | .process created time parentProcessId parentProcess processId process =>
    sendSystemEvent (lit "process") (timefieldToString time) parentProcessId parentProcess
      (if created then lit "created" else lit "terminated") (decimal processId.toNat) process
  | .registry registryEventType time processId processPath registryEventPath =>
    sendSystemEvent (lit "registry") (timefieldToString time) processId processPath registryEventType registryEventPath
      (lit "-1")
  | .file fileEventType time processId processPath fileEventPath =>
    sendSystemEvent (lit "file") (timefieldToString time) processId processPath fileEventType fileEventPath (lit "-1")

/-- The document of an event. -/
def document (event : SystemEvent) : WString := Server.sendXML (lit "system-event") (onEvent event)

end Analyzer

end CaptureHPC.Cpp
