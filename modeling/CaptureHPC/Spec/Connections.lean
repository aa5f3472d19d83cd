import CaptureHPC.Lib.Machine
import CaptureHPC.Spec.Client

/-!
# Connections, clients and virtual machines

`parseConnectEvent` and `parseReconnectEvent` of `ClientEventController`, and how a `Client` and
its `VirtualMachine` change each other's state.

* A connection is a `ClientEventController` with its socket and its thread. A message about connections is handled in
  one step.
* The url-retriever of a client reads its state, sends and writes its state in steps of their own. Where the handling
  of a message of a visit sets the state, that is a step, too: the client may have been disconnected meanwhile.
* A write to a socket may fail; whether the options of a new client are written is an input.
* What a disconnect does to the client's group, and the observers of a client, are left out.
-/

namespace CaptureHPC

open Lib

structure Connection where
  client : Option ℕ := none
  /-- The server has closed the socket. -/
  closed : Bool := false
  /-- The thread does not read any more. -/
  ended : Bool := false
  deriving DecidableEq

/-- Where the url-retriever of a client is. -/
inductive RetrieverPoint
  | idle
  /-- The client was WAITING, and `takeUrlGroup` is called. -/
  | taking
  /-- The visit-event has been sent. -/
  | sent
  deriving DecidableEq

structure ConnectedClient where
  virtualMachine : ℕ := 0
  clientState : ClientState := .connecting
  /-- The connection with the client's socket. -/
  clientSocket : ℕ := 0
  urlRetriever : RetrieverPoint := .idle
  deriving DecidableEq

structure ConnectedMachine where
  vmState : VmState := .stopped
  client : Option ℕ := none
  deriving DecidableEq

/-- The clients with an index below `nClients` are those that have been made. -/
structure Connections where
  connection : ℕ → Connection := fun _ => {}
  client : ℕ → ConnectedClient := fun _ => {}
  nClients : ℕ := 0
  vm : ℕ → ConnectedMachine := fun _ => {}

inductive ConnectionStep
  /-- A connect message, with the machine it names if there is one. -/
  | connect (con : ℕ) (vm : Option ℕ) (written : Bool)
  | reconnect (con : ℕ) (vm : Option ℕ)
  /-- The end of the connection is read, or reading fails. -/
  | lose (con : ℕ)
  /-- The client is set to DISCONNECTED: at the end of a visit, by a failed write or by `reset`. -/
  | disconnect (c : ℕ)
  /-- `setState` of a machine, by its server or the state checker. -/
  | setState (v : ℕ) (newState : VmState)
  /-- The url-retriever finds the client WAITING. -/
  | retrieve (c : ℕ)
  /-- It has a group, and sends the visit-event. -/
  | send (c : ℕ) (written : Bool)
  /-- It sets AWAITING_VISITING. -/
  | awaitVisiting (c : ℕ)
  /-- The client is set to VISITING, at the start of a visit. -/
  | start (c : ℕ)
  /-- The client is set to WAITING, at the end of a visit. -/
  | finish (c : ℕ)

namespace Connections

def setClient (s : Connections) (c : ℕ) (x : ConnectedClient) : Connections :=
  { s with client := Function.update s.client c x }

def setVm (s : Connections) (v : ℕ) (x : ConnectedMachine) : Connections :=
  { s with vm := Function.update s.vm v x }

def setConnection (s : Connections) (con : ℕ) (x : Connection) : Connections :=
  { s with connection := Function.update s.connection con x }

/-- `clientSocket.close()`. -/
def close (s : Connections) (con : ℕ) : Connections := s.setConnection con { s.connection con with closed := true }

/-- `Client.disconnect`. The machine's client is null before its state changes, so the change
disconnects nobody. -/
def disconnect (s : Connections) (c : ℕ) : Connections :=
  let s := s.setVm (s.client c).virtualMachine { client := none, vmState := .waitingToBeReverted }
  s.close (s.client c).clientSocket

/-- `setClientState(DISCONNECTED)`. -/
def setDisconnected (s : Connections) (c : ℕ) : Connections :=
  if (s.client c).clientState = .disconnected then s
  else (s.setClient c { s.client c with clientState := .disconnected }).disconnect c

/-- `setClientState(CONNECTED)`. The options are sent: a write that fails disconnects the client, and the
options after it are not written. -/
def setConnected (s : Connections) (c : ℕ) (written : Bool) : Connections :=
  let s := s.setClient c { s.client c with clientState := .connected }
  if written then s else s.setDisconnected c

/-- `setClientState(WAITING)`. -/
def setWaiting (s : Connections) (c : ℕ) : Connections :=
  if (s.client c).clientState = .waiting then s
  else
    let s := s.setClient c { s.client c with clientState := .waiting }
    let v := (s.client c).virtualMachine
    s.setVm v { s.vm v with vmState := .running }

/-- `setClientState(VISITING)`. -/
def setVisiting (s : Connections) (c : ℕ) : Connections := s.setClient c { s.client c with clientState := .visiting }

/-- `VirtualMachine.setState`. -/
def setState (s : Connections) (v : ℕ) (newState : VmState) : Connections :=
  if newState = (s.vm v).vmState then s
  else
    let s := s.setVm v { s.vm v with vmState := newState }
    match newState, (s.vm v).client with
    | .waitingToBeReverted, some c => s.setDisconnected c
    | _, _ => s

/-- `Client.setSocket`. A socket that is closed has no output stream; then the state is set without
`setClientState`. -/
def setSocket (s : Connections) (c con : ℕ) : Connections :=
  let x := { s.client c with clientSocket := con }
  s.setClient c (if (s.connection con).closed then { x with clientState := .disconnected } else x)

/-- `parseConnectEvent` for a machine. Without an output stream the first option is a null pointer: the new
client is left in the state CONNECTED, and the thread ends. -/
def parseConnectEvent (s : Connections) (con v : ℕ) (written : Bool) : Connections :=
  let c := s.nClients
  let s := { s with client := Function.update s.client c {}, nClients := c + 1 }
  let s := s.setConnection con { s.connection con with client := some c }
  let s := s.setSocket c con
  let s := s.setClient c { s.client c with virtualMachine := v }
  let s := s.setVm v { s.vm v with client := some c }
  if (s.connection con).closed then
    -- nothing is written, and the state stays CONNECTED
    let s := s.setConnected c true
    s.setConnection con { s.connection con with ended := true }
  else (s.setConnected c written).setWaiting c

/-- `parseReconnectEvent` for a machine. -/
def parseReconnectEvent (s : Connections) (con v : ℕ) : Connections :=
  let s := s.setConnection con { s.connection con with client := (s.vm v).client }
  match (s.vm v).client with
  | none => s
  | some c => (s.close (s.client c).clientSocket).setSocket c con

/-- The first part of the loop of the url-retriever. -/
def retrieve (s : Connections) (c : ℕ) : Option Connections :=
  if (s.client c).urlRetriever = .idle ∧ (s.client c).clientState = .waiting then
    some (s.setClient c { s.client c with urlRetriever := .taking })
  else none

/-- `send` in `setVisitingUrlGroup`. Nothing is sent to a client that is DISCONNECTED. -/
def send (s : Connections) (c : ℕ) (written : Bool) : Option Connections :=
  if (s.client c).urlRetriever = .taking then
    if (s.client c).clientState ≠ .disconnected ∧ written then
      some (s.setClient c { s.client c with urlRetriever := .sent })
    else some ((s.setClient c { s.client c with urlRetriever := .idle }).setDisconnected c)
  else none

/-- The end of `setVisitingUrlGroup`, which looks neither at the state nor takes a lock. -/
def awaitVisiting (s : Connections) (c : ℕ) : Option Connections :=
  if (s.client c).urlRetriever = .sent then
    some (s.setClient c { s.client c with urlRetriever := .idle, clientState := .awaitingVisiting })
  else none

/-- The loop of the thread ends when the socket is closed. -/
def loop (s : Connections) (con : ℕ) : Connections :=
  if (s.connection con).closed then s.setConnection con { s.connection con with ended := true } else s

/-- The thread handles a message about this machine. -/
def receive (s : Connections) (con : ℕ) (vm : Option ℕ) (handle : ℕ → Connections) : Option Connections :=
  if (s.connection con).ended then none else some ((vm.elim s handle).loop con)

def step (s : Connections) : ConnectionStep → Option Connections
  | .connect con vm written => s.receive con vm fun v => s.parseConnectEvent con v written
  | .reconnect con vm => s.receive con vm fun v => s.parseReconnectEvent con v
  | .lose con => some (s.setConnection con { s.connection con with ended := true })
  | .disconnect c => if c < s.nClients then some (s.setDisconnected c) else none
  | .setState v newState => some (s.setState v newState)
  | .retrieve c => if c < s.nClients then s.retrieve c else none
  | .send c written => if c < s.nClients then s.send c written else none
  | .awaitVisiting c => if c < s.nClients then s.awaitVisiting c else none
  | .start c => if c < s.nClients then some (s.setVisiting c) else none
  | .finish c => if c < s.nClients then some (s.setWaiting c) else none

end Connections

end CaptureHPC
