import CaptureHPC.Lib.Machine
import CaptureHPC.Spec.ClientXml

/-!
# The client's visitor

`Visitor::run` and `Visitor::onServerEvent`, `VisitEvent`, and `Analyzer::update`.

* `hQueueNotEmpty` is an auto-reset event: setting it lets the visitor's thread go on when it
  waits, and is remembered, once, when it does not.
* One thread receives the server's events. An operation of `toVisit` is one step.
* An application plugin calls `setErrorCode` with some codes and returns or throws. What the
  monitors and the clock say at a notification is an input (`Seen`).
-/

namespace CaptureHPC.Cpp

open Lib

namespace ErrorCodes

def captureVisitationOk : UInt32 := 0
def captureVisitationPrestart : UInt32 := 0x10000101
def captureVisitationStart : UInt32 := 0x10000102
def captureVisitationFinish : UInt32 := 0x10000103
def captureVisitationPostfinish : UInt32 := 0x10000104
def captureVisitationMultipleErrors : UInt32 := 0x10000113
def captureVisitationException : UInt32 := 0x10000200

end ErrorCodes

open ErrorCodes

structure VisitEvent where
  identifier : WString
  program : WString
  algorithm : WString := lit "seq"
  urls : List WString
  errorCode : UInt32 := captureVisitationOk
  deriving DecidableEq

namespace VisitEvent

def setErrorCode (e : VisitEvent) (error : UInt32) : VisitEvent :=
  { e with errorCode := if e.errorCode ≠ captureVisitationOk then captureVisitationMultipleErrors else error }

def isError (e : VisitEvent) : Bool := e.errorCode ≠ captureVisitationOk

end VisitEvent

/-- What a message takes from the clock and the monitors. -/
structure Seen where
  time : WString
  malicious : Bool
  deriving DecidableEq

/-- The document of a visit event. -/
structure VisitMessage where
  visitEvent : VisitEvent
  errorCode : Option UInt32
  type : WString
  seen : Seen
  deriving DecidableEq

/-- `Analyzer::update`: the document that is sent. -/
def Analyzer.update (eventType : UInt32) (visitEvent : VisitEvent) (seen : Seen) : Option VisitMessage :=
  if eventType = captureVisitationPrestart then none
  else if eventType = captureVisitationStart then some ⟨visitEvent, none, lit "start", seen⟩
  else if eventType = captureVisitationFinish then some ⟨visitEvent, none, lit "finish", seen⟩
  else if eventType = captureVisitationPostfinish then none
  else some ⟨visitEvent, some eventType, lit "error", seen⟩

/-- What an application plugin does with an event, and what is seen at each notification. -/
structure Behaviour where
  errorCodes : List UInt32
  throws : Bool
  prestart : Seen
  start : Seen
  exception : Seen
  terminal : Seen
  postfinish : Seen

namespace Visitor

/-- `applicationPlugin->visitGroup(visitEvent)`. -/
def visitGroup (b : Behaviour) (visitEvent : VisitEvent) : VisitEvent :=
  b.errorCodes.foldl VisitEvent.setErrorCode visitEvent

/-- The body of the loop of `run` behind the plugin of `algorithm`: the documents sent. -/
def visit (algorithm : WString) (visitEvent : VisitEvent) (b : Behaviour) : List VisitMessage :=
  let visitEvent := { visitEvent with algorithm := algorithm }
  let visited := visitGroup b visitEvent
  (Analyzer.update captureVisitationPrestart visitEvent b.prestart).toList ++
    (Analyzer.update captureVisitationStart visitEvent b.start).toList ++
    (if b.throws then (Analyzer.update captureVisitationException visited b.exception).toList else []) ++
    (if visited.isError then (Analyzer.update visited.errorCode visited b.terminal).toList
      else (Analyzer.update captureVisitationFinish visited b.terminal).toList) ++
    (Analyzer.update captureVisitationPostfinish visited b.postfinish).toList

/-- The loop over the events that are dequeued. `applicationMap` gives the algorithm of the
plugin for a program. -/
def sent (applicationMap : WString → Option WString) (visits : List (VisitEvent × Behaviour)) : List VisitMessage :=
  visits.flatMap fun v =>
    match applicationMap v.1.program with
    | some algorithm => visit algorithm v.1 v.2
    | none => []

end Visitor

/-- Where the visitor's thread is in its loop. -/
inductive VisitorPoint
  | atWait
  | blocked
  /-- Behind `WaitForSingleObject`, before `toVisit.front()`. -/
  | woken
  | visiting
  deriving DecidableEq

/-- `accepted` and `visited` are histories, and so is `unnoticed`: how often the event was set
when it was set already. -/
structure VisitorQueue where
  toVisit : List VisitEvent := []
  hQueueNotEmpty : Bool := false
  visitor : VisitorPoint := .atWait
  /-- The receiving thread is between `toVisit.push` and `SetEvent`. -/
  arriving : Bool := false
  accepted : List VisitEvent := []
  visited : List VisitEvent := []
  unnoticed : ℕ := 0
  deriving DecidableEq

inductive VisitorStep
  | onServerEvent (visitEvent : VisitEvent)
  | setEvent
  | waitForSingleObject
  | front
  | finish

namespace VisitorQueue

/-- `SetEvent(hQueueNotEmpty)`. -/
def setEvent (s : VisitorQueue) : VisitorQueue :=
  if s.visitor = .blocked then { s with visitor := .woken }
  else { s with hQueueNotEmpty := true, unnoticed := s.unnoticed + s.hQueueNotEmpty.toNat }

def step (s : VisitorQueue) : VisitorStep → Option VisitorQueue
  | .onServerEvent visitEvent =>
    if s.arriving then none
    else if visitEvent.urls.length > 0 then
      some { s with
        toVisit := s.toVisit ++ [visitEvent]
        accepted := s.accepted ++ [visitEvent]
        arriving := true }
    else some s
  | .setEvent => if s.arriving then some { s with arriving := false }.setEvent else none
  | .waitForSingleObject =>
    if s.visitor = .atWait then
      if s.hQueueNotEmpty then some { s with hQueueNotEmpty := false, visitor := .woken }
      else some { s with visitor := .blocked }
    else none
  | .front =>
    match s.visitor, s.toVisit with
    | .woken, visitEvent :: rest =>
      some { s with toVisit := rest, visited := s.visited ++ [visitEvent], visitor := .visiting }
    | _, _ => none
  | .finish => if s.visitor = .visiting then some { s with visitor := .atWait } else none

end VisitorQueue

end CaptureHPC.Cpp
