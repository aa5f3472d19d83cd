import CaptureHPC.Lib.KeyedSet
import CaptureHPC.Spec.Client

/-!
# The pinger

`ClientsPinger`: clients notify it of their states, and a timer runs it.

* Its tree sets order clients by `Client.compareTo`, which compares the `vmUniqueId` of their
  machines. A machine is that id here, and `vmUniqueId` gives the one of a client.
* What a failing ping notifies arrives after the run that sent it: the run has its clients by
  then.
-/

namespace CaptureHPC

open Lib

inductive PingerStep
  /-- A client notifies, and this is its state. -/
  | update (client : ℕ) (clientState : ClientState)
  /-- The timer. `clientState` gives the states that the run sees. -/
  | run (clientState : ℕ → ClientState)

structure ClientsPinger (vmUniqueId : ℕ → String) where
  clients : KeyedSet vmUniqueId := .empty
  toRemove : KeyedSet vmUniqueId := .empty
  toAdd : KeyedSet vmUniqueId := .empty
  /-- The clients that the latest run sent a ping to. -/
  pinged : List ℕ := []

namespace ClientsPinger

variable {vmUniqueId : ℕ → String}

def update (s : ClientsPinger vmUniqueId) (client : ℕ) (clientState : ClientState) : ClientsPinger vmUniqueId :=
  if clientState = .disconnected then { s with toRemove := s.toRemove.add client }
  else if clientState = .connected then { s with toAdd := s.toAdd.add client }
  else s

def run (s : ClientsPinger vmUniqueId) (clientState : ℕ → ClientState) : ClientsPinger vmUniqueId :=
  let clients := (s.clients.addAll s.toAdd).removeAll s.toRemove
  { clients := clients
    pinged := clients.elems.filter fun c => clientState c ≠ .connecting ∨ clientState c ≠ .disconnected }

def step (s : ClientsPinger vmUniqueId) : PingerStep → ClientsPinger vmUniqueId
  | .update client clientState => s.update client clientState
  | .run clientState => s.run clientState

/-- The pinger after these steps. -/
def after (vmUniqueId : ℕ → String) (steps : List PingerStep) : ClientsPinger vmUniqueId := steps.foldl step {}

end ClientsPinger

namespace PingerStep

variable (vmUniqueId : ℕ → String) (vm : String)

/-- Does this step notify that a client of the machine is connected? -/
def connects : PingerStep → Option ℕ
  | update client .connected => if vmUniqueId client = vm then some client else none
  | _ => none

/-- Does it notify that one is disconnected? -/
def disconnects : PingerStep → Bool
  | update client .disconnected => vmUniqueId client = vm
  | _ => false

def isRun : PingerStep → Bool
  | run _ => true
  | update .. => false

/-- What is known of the machine's client once this step is taken, too. -/
def learn (known : Option ℕ) (step : PingerStep) : Option ℕ :=
  if step.disconnects vmUniqueId vm then none else (step.connects vmUniqueId vm).or known

/-- The client of the machine's latest notification, if that was CONNECTED. -/
def latest (steps : List PingerStep) : Option ℕ := steps.foldl (learn vmUniqueId vm) none

/-- The client of the machine's first CONNECTED. -/
def firstConnected (steps : List PingerStep) : Option ℕ := steps.findSome? (connects vmUniqueId vm)

end PingerStep

end CaptureHPC
