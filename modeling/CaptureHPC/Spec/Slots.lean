import CaptureHPC.Spec.SystemEvents
import CaptureHPC.Spec.Visitor

/-!
# The slots of the analyzer

The threads of the client while it visits. The visitor's thread notifies the analyzer (`Visitor::run`,
`Analyzer::update`, `start` and `stop`), and each monitor has a thread that calls its slot (`onProcessEvent`,
`onRegistryEvent` and `onFileEvent`).

* Each of these threads may call the slot of the process monitor as well: a path that is not in the process map makes
  `ProcessManager::getProcessPath` call `ProcessMonitor::onProcessEvent`. It does so before the thread's own signal.
* A signal calls its slot if it is connected. To disconnect a slot is not to wait until it has returned.
* All threads share `malicious`. The visitor's thread reads it for a document and sends the document later.
* A message is not sent when the server is not connected, or when `send` fails; whether it is, is an input.
* An error of a visit has none of the codes of the notifications.
* What `start` and `stop` do besides is left out.
-/

namespace CaptureHPC.Cpp

open Lib ErrorCodes

inductive EventMonitor
  | process
  | registry
  | file
  deriving DecidableEq

/-- The monitor that signals an event. -/
def SystemEvent.monitor : SystemEvent → EventMonitor
  | .process .. => .process
  | .registry .. => .registry
  | .file .. => .file

/-- Where the thread of a monitor is: in a slot, which has set `malicious` or not yet. -/
inductive SlotPoint
  | idle
  | called (event : SystemEvent)
  | flagged (event : SystemEvent)
  deriving DecidableEq

/-- What the visitor's thread does in the analyzer, one access to shared state at a time. -/
inductive AnalyzerOp
  | reset
  | connect (m : EventMonitor)
  | disconnect (m : EventMonitor)
  | addMalicious (eventType : UInt32)
  | sendElement
  deriving DecidableEq

namespace Analyzer

def start : List AnalyzerOp := [.reset, .connect .process, .connect .registry, .connect .file]

def stop : List AnalyzerOp := [.disconnect .process, .disconnect .registry, .disconnect .file]

/-- `update`. -/
def updateOps (eventType : UInt32) : List AnalyzerOp :=
  if eventType = captureVisitationPrestart then start
  else if eventType = captureVisitationStart then [.addMalicious eventType, .sendElement]
  else if eventType = captureVisitationFinish then stop ++ [.addMalicious eventType, .sendElement]
  else if eventType = captureVisitationPostfinish then []
  else stop ++ [.addMalicious eventType, .sendElement]

end Analyzer

/-- What comes of `visitGroup`. -/
structure VisitOutcome where
  throws : Bool
  errorCode : UInt32
  isCode : errorCode ∉ [captureVisitationPrestart, captureVisitationStart, captureVisitationFinish,
    captureVisitationPostfinish]

/-- The notifications of a visit. -/
def Visitor.visitOps (o : VisitOutcome) : List AnalyzerOp :=
  Analyzer.updateOps captureVisitationPrestart ++ Analyzer.updateOps captureVisitationStart ++
    (if o.throws then Analyzer.updateOps captureVisitationException else []) ++
    (if o.errorCode ≠ captureVisitationOk then Analyzer.updateOps o.errorCode
      else Analyzer.updateOps captureVisitationFinish) ++
    Analyzer.updateOps captureVisitationPostfinish

/-- What is seen of a run. The thread in a slot is that of the monitor `m`. -/
inductive SlotMark
  | reset
  | called (m : EventMonitor) (event : SystemEvent)
  | flagged (m : EventMonitor) (event : SystemEvent)
  /-- The slot has handed its event to the server, and it was sent or not. -/
  | returned (m : EventMonitor) (event : SystemEvent) (written : Bool)
  /-- The visitor's thread has read `malicious` for a document. -/
  | made (eventType : UInt32) (malicious : Bool)
  | report (eventType : UInt32) (malicious : Bool)
  deriving DecidableEq

/-- The `history` has the last mark first. -/
structure Slots where
  /-- Nothing sets it before the first visit. -/
  malicious : Bool
  connected : EventMonitor → Bool := fun _ => false
  /-- Where the threads of the monitors are. -/
  slot : EventMonitor → SlotPoint := fun _ => .idle
  /-- The rest of the visit. -/
  todo : List AnalyzerOp := []
  /-- The type and the flag of the document that is being made. -/
  element : Option (UInt32 × Bool) := none
  history : List SlotMark := []

namespace Slots

/-- An operation of the visitor's thread. -/
def perform (s : Slots) (written : Bool) : AnalyzerOp → Option Slots
  | .reset => some { s with malicious := false, history := .reset :: s.history }
  | .connect m => some { s with connected := Function.update s.connected m true }
  | .disconnect m => some { s with connected := Function.update s.connected m false }
  | .addMalicious eventType =>
    some { s with element := some (eventType, s.malicious), history := .made eventType s.malicious :: s.history }
  | .sendElement =>
    match s.element with
    | none => none
    | some (eventType, malicious) =>
      some { s with
        element := none
        history := if written then .report eventType malicious :: s.history else s.history }

end Slots

inductive SlotStep
  | visit (o : VisitOutcome)
  | visitor (written : Bool)
  | signal (m : EventMonitor) (event : SystemEvent)
  | flag (m : EventMonitor)
  | send (m : EventMonitor) (written : Bool)

/-- A step of a thread. -/
def Slots.step (s : Slots) : SlotStep → Option Slots
  | .visit o => if s.todo = [] then some { s with todo := Visitor.visitOps o } else none
  | .visitor written =>
    match s.todo with
    | [] => none
    | op :: todo => { s with todo := todo }.perform written op
  | .signal m event =>
    if s.slot m = .idle ∧ (event.monitor = m ∨ event.monitor = .process) then
      if s.connected event.monitor then
        some { s with slot := Function.update s.slot m (.called event)
                      history := .called m event :: s.history }
      else some s
    else none
  | .flag m =>
    match s.slot m with
    | .called event =>
      some { s with malicious := true, slot := Function.update s.slot m (.flagged event)
                    history := .flagged m event :: s.history }
    | _ => none
  | .send m written =>
    match s.slot m with
    | .flagged event =>
      some { s with slot := Function.update s.slot m .idle, history := .returned m event written :: s.history }
    | _ => none

end CaptureHPC.Cpp
