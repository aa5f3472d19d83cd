import CaptureHPC.Lib.Machine
import CaptureHPC.Lib.Monitor
import CaptureHPC.Spec.Client

/-!
# The monitors of a client

`Client.run`, `setVisitingUrlGroup`, `send`, `setClientState` and `disconnect`, and
`VirtualMachine.setState`, as far as they take the monitor of the client's `urlRetriever` and
the monitor of its machine, and as far as the states decide about it.

* Each thread has the statements it has still to do, the next one first (`stack`). A call is
  replaced by its body.
* Any thread but the retriever may make any of the calls, one after the other, and so may the
  worker of the machine's server in a block that is synchronized on the machine.
* `wait` gives the monitor up, and may return at any time once the monitor is free.
* Whether a write succeeds, and whether `takeUrlGroup` returns a group, is an input.
-/

namespace CaptureHPC

open Lib

inductive LockThread
  | urlRetriever
  | other (t : ℕ)
  deriving DecidableEq

inductive LockOp
  | setClientState (newState : ClientState)
  /-- The body of `setClientState`, inside the synchronized block. -/
  | clientState (newState : ClientState)
  | setState (newState : VmState)
  /-- The body of `setState`. -/
  | vmState (newState : VmState)
  | setClient (isThis : Bool)
  /-- `setState`, if the machine does not wait to be reverted. -/
  | revertVm
  /-- `setClientState(DISCONNECTED)`, if that is not the state. -/
  | recheck
  | send
  | enterVm
  | exitVm
  /-- `synchronized (urlRetriever) { urlRetriever.notifyAll(); }` begins. -/
  | notifyAll
  | exitRetriever
  /-- The synchronized block of `run` begins. -/
  | enterRetriever
  | loop
  | visit
  | sendVisit
  | awaitingVisiting
  | wait
  /-- `wait` returns once the monitor is entered as often as it was. -/
  | resume (again : ℕ)
  deriving DecidableEq

/-- The client's thread starts with `run`. -/
def started : LockThread → List LockOp
  | .urlRetriever => [.enterRetriever]
  | .other _ => []

structure ClientLocks where
  clientState : ClientState := .connecting
  vmState : VmState := .stopped
  /-- `virtualMachine.client` is this client. -/
  vmClient : Bool := false
  urlRetriever : Monitor LockThread := .free
  virtualMachine : Monitor LockThread := .free
  stack : LockThread → List LockOp := started

/-- What another thread calls. -/
inductive LockRequest
  | setClientState (newState : ClientState)
  | setState (newState : VmState)
  | setClient
  | send
  /-- The worker reverts the machine, and sets these states while it holds its monitor. -/
  | revert (states : List VmState)

def LockRequest.ops : LockRequest → List LockOp
  | setClientState newState => [.setClientState newState]
  | setState newState => [.setState newState]
  | setClient => [.setClient true]
  | send => [.send]
  | revert states => .enterVm :: states.map .setState ++ [.exitVm]

inductive LockStep
  | call (t : ℕ) (request : LockRequest)
  /-- The next statement of a thread. -/
  | next (t : LockThread) (input : Bool)

namespace ClientLocks

def setVm (s : ClientLocks) (m : Monitor LockThread) : ClientLocks := { s with virtualMachine := m }

def setRetriever (s : ClientLocks) (m : Monitor LockThread) : ClientLocks := { s with urlRetriever := m }

/-- The states after the statement, and the statements that take its place. -/
def exec (t : LockThread) (input : Bool) (s : ClientLocks) : LockOp → Option (ClientLocks × List LockOp)
  | .setClientState newState => some (s, [.enterVm, .clientState newState, .exitVm])
  | .clientState newState =>
    if s.clientState = newState then some (s, [])
    else
      some ({ s with clientState := newState },
        if newState = .waiting then [.setState .running, .notifyAll]
        else if newState = .disconnected then [.setClient false, .revertVm, .recheck, .notifyAll]
        else if newState = .connected then [.send, .send, .send]
        else [])
  | .setState newState => some (s, [.enterVm, .vmState newState, .exitVm])
  | .vmState newState =>
    if newState = s.vmState then some (s, [])
    else
      some ({ s with vmState := newState },
        if newState = .waitingToBeReverted ∧ s.vmClient = true ∧ s.clientState ≠ .disconnected then
          [.setClientState .disconnected]
        else [])
  | .setClient isThis => some ({ s with vmClient := isThis }, [])
  | .revertVm => some (s, if s.vmState ≠ .waitingToBeReverted then [.setState .waitingToBeReverted] else [])
  | .recheck => some (s, if s.clientState ≠ .disconnected then [.setClientState .disconnected] else [])
  | .send => some (s, if s.clientState ≠ .disconnected ∧ input = false then [.setClientState .disconnected] else [])
  | .enterVm => (s.virtualMachine.enter t).map fun m => (s.setVm m, [])
  | .exitVm => (s.virtualMachine.exit t).map fun m => (s.setVm m, [])
  | .notifyAll => (s.urlRetriever.enter t).map fun m => (s.setRetriever m, [.exitRetriever])
  | .enterRetriever => (s.urlRetriever.enter t).map fun m => (s.setRetriever m, [.loop, .exitRetriever])
  | .exitRetriever => (s.urlRetriever.exit t).map fun m => (s.setRetriever m, [])
  | .loop =>
    some (s, if s.clientState = .disconnected then []
      else if s.clientState = .waiting then [.visit, .wait, .loop] else [.wait, .loop])
  | .visit => some (s, if input then [.sendVisit] else [])
  | .sendVisit =>
    some (s, if s.clientState = .disconnected then []
      else if input then [.awaitingVisiting] else [.setClientState .disconnected])
  | .awaitingVisiting => some ({ s with clientState := .awaitingVisiting }, [])
  | .wait =>
    match s.urlRetriever with
    | .held u again => if u = t then some (s.setRetriever .free, [.resume again]) else none
    | .free => none
  | .resume again =>
    match s.urlRetriever with
    | .free => some (s.setRetriever (.held t again), [])
    | .held .. => none

def next (s : ClientLocks) (t : LockThread) (input : Bool) : Option ClientLocks :=
  match s.stack t with
  | [] => none
  | op :: rest => (s.exec t input op).map fun r => { r.1 with stack := Function.update r.1.stack t (r.2 ++ rest) }

def step (s : ClientLocks) : LockStep → Option ClientLocks
  | .call t request =>
    if s.stack (.other t) = [] then some { s with stack := Function.update s.stack (.other t) request.ops } else none
  | .next t input => s.next t input

end ClientLocks

end CaptureHPC
