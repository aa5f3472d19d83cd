import CaptureHPC.Spec.Client

/-!
# Disconnecting, from the machine and from the client

`VirtualMachine.setState`, `Client.setClientState` and `Client.disconnect` as they call each other,
and the notifications of a machine's observers.

* The recursion has fuel.
* A machine's observer only queues work: a notification is recorded with the state that it finds.
* The pinger, which observes clients, and the options sent to a new client are left out, as in
  `Spec/Client.lean`. The socket of a client that is disconnected is open.
-/

namespace CaptureHPC

open Lib

/-- The server, and what the observers of machines were told. -/
structure Watched where
  world : World
  notified : List (ℕ × VmState) := []

abbrev WatchedM := EStateM Fault Watched

/-- Run a program of the server. -/
def onWorld {α : Type} (m : ServerM α) : WatchedM α := fun s =>
  match m.run s.world with
  | .ok a w => .ok a { s with world := w }
  | .error e w => .error (.exception e) { s with world := w }

namespace Watched

/-- `notifyObservers` of a machine. -/
def notifyObservers (v : ℕ) : WatchedM Unit :=
  modify fun s => { s with notified := s.notified ++ [(v, (s.world.vm v).vmState)] }

/-- The rest of `disconnect`, behind the release of the machine. -/
def closeConnection (c : ℕ) : ServerM Unit := do
  Client.onVisitingGroup c fun g => UrlGroup.setUrlGroupState g .error
  modifyClient c fun x => { x with downloading := false, socketOpen := false }
  Client.disconnectSecond c

mutual

/-- `VirtualMachine.setState`. -/
def setState : ℕ → ℕ → VmState → WatchedM Unit
  | 0, _, _ => throw .outOfFuel
  | fuel + 1, v, newState => do
    onWorld (modify fun w => w.setVm v { w.vm v with vmStateTimeChange := w.now })
    let s ← get
    if newState = (s.world.vm v).vmState then pure ()
    else
      onWorld (modifyVm v fun x => { x with vmState := newState })
      if newState = .waitingToBeReverted then
        match (s.world.vm v).client with
        | none => pure ()
        | some c => if (s.world.client c).clientState ≠ .disconnected then setClientState fuel c .disconnected
      notifyObservers v

/-- `Client.setClientState`. -/
def setClientState : ℕ → ℕ → ClientState → WatchedM Unit
  | 0, _, _ => throw .outOfFuel
  | fuel + 1, c, newState => do
    let s ← get
    if (s.world.client c).clientState = newState then pure ()
    else
      onWorld (modifyClient c fun x => { x with clientState := newState })
      match newState with
      | .waiting => setState fuel (s.world.client c).virtualMachine .running
      | .disconnected => disconnect fuel c
      | _ => pure ()

/-- `Client.disconnect`. -/
def disconnect : ℕ → ℕ → WatchedM Unit
  | 0, _ => throw .outOfFuel
  | fuel + 1, c => do
    let s ← get
    let v := (s.world.client c).virtualMachine
    onWorld (modifyVm v fun x => { x with client := none })
    let s ← get
    if (s.world.vm v).vmState ≠ .waitingToBeReverted then setState fuel v .waitingToBeReverted
    onWorld (closeConnection c)
    let s ← get
    if (s.world.client c).clientState ≠ .disconnected then setClientState fuel c .disconnected

end

end Watched

end CaptureHPC
