import CaptureHPC.Lib.Machine

/-!
# The process driver's events

`ProcessCallback` and the request IOCTL_CAPTURE_GET_PROCINFO of the driver, and the loop of
`ProcessMonitor::run`.

* `eNewProcessEvent` is a notification event: setting it lets the monitor's thread go on when
  it waits, and a wait that begins while it is set returns at once.
* Callbacks run beside each other and beside the thread's requests. Each statement that
  touches the queue, its counter or the event is a step.
* The thread's buffer holds one event, and no allocation fails.
-/

namespace CaptureHPC.Driver

open Lib

/-- How far a callback has come: its event is queued, counted, and the event has been set. -/
inductive CallbackPoint
  | queued
  | counted
  | set
  deriving DecidableEq

/-- Where the monitor's thread is in its loop, and in its request. -/
inductive MonitorPoint
  | atWait
  | blocked
  | woken
  /-- The list is not empty. -/
  | removing
  | removed
  /-- Behind `nQueuedProcessEvents--`. -/
  | counted
  | set
  deriving DecidableEq

structure ProcessManager (Packet : Type) where
  lQueuedProcessEvents : List Packet := []
  nQueuedProcessEvents : UInt32 := 0
  eNewProcessEvent : Bool := false
  /-- The callbacks that are running. -/
  callbacks : List CallbackPoint := []
  monitor : MonitorPoint := .atWait

inductive ProcessStep (Packet : Type)
  /-- A callback begins, and queues its event. -/
  | insertTail (packet : Packet)
  /-- The next statement of the callback with this index. -/
  | callback (i : ℕ)
  | waitForSingleObject
  /-- The next statement of the request. -/
  | request

namespace ProcessManager

variable {Packet : Type}

def keSetEvent (s : ProcessManager Packet) : ProcessManager Packet :=
  { s with eNewProcessEvent := true, monitor := if s.monitor = .blocked then .woken else s.monitor }

def keClearEvent (s : ProcessManager Packet) : ProcessManager Packet := { s with eNewProcessEvent := false }

def setCallbacks (s : ProcessManager Packet) (callbacks : List CallbackPoint) : ProcessManager Packet :=
  { s with callbacks := callbacks }

def setMonitor (s : ProcessManager Packet) (monitor : MonitorPoint) : ProcessManager Packet :=
  { s with monitor := monitor }

def callback (s : ProcessManager Packet) (i : ℕ) : Option (ProcessManager Packet) :=
  match s.callbacks[i]? with
  | none => none
  | some .queued =>
    some { s with
      nQueuedProcessEvents := s.nQueuedProcessEvents + 1
      callbacks := s.callbacks.set i .counted }
  | some .counted => some (s.keSetEvent.setCallbacks (s.callbacks.set i .set))
  | some .set => some (s.keClearEvent.setCallbacks (s.callbacks.eraseIdx i))

def request (s : ProcessManager Packet) : Option (ProcessManager Packet) :=
  match s.monitor with
  | .woken => some (s.setMonitor (if s.lQueuedProcessEvents.isEmpty then .atWait else .removing))
  | .removing =>
    match s.lQueuedProcessEvents with
    | [] => none
    | _ :: rest => some { s with lQueuedProcessEvents := rest, monitor := .removed }
  | .removed => some { s with nQueuedProcessEvents := s.nQueuedProcessEvents - 1, monitor := .counted }
  | .counted =>
    -- notify that process events are still queued
    if s.nQueuedProcessEvents ≠ 0 then some (s.keSetEvent.setMonitor .set) else some (s.setMonitor .atWait)
  | .set => some (s.keClearEvent.setMonitor .atWait)
  | _ => none

def step (s : ProcessManager Packet) : ProcessStep Packet → Option (ProcessManager Packet)
  | .insertTail packet =>
    some { s with
      lQueuedProcessEvents := s.lQueuedProcessEvents ++ [packet]
      callbacks := s.callbacks ++ [.queued] }
  | .callback i => s.callback i
  | .waitForSingleObject =>
    if s.monitor = .atWait then some (s.setMonitor (if s.eNewProcessEvent then .woken else .blocked)) else none
  | .request => s.request

end ProcessManager

end CaptureHPC.Driver
