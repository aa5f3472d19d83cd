import CaptureHPC.Lib.Machine
import CaptureHPC.Spec.Client

/-!
# The revert queue of a virtual machine server

`VBoxServer` and `VMwareServer` share this code: `setState` of their machines, which notifies
the server, and the worker thread that takes revert items from `queuedWorkItems`.

* A call of `setState` changes the state and notifies while it holds the machine's monitor.
  `update` looks the machine up in the queue and adds an item, two operations of the queue.
* The worker peeks an item, holds the machine's monitor while it reverts it, and removes the
  item after it has let the monitor go.
* Work items are equal when their machines have the same `vmUniqueId`, compared as references.
-/

namespace CaptureHPC

open Lib

inductive MonitorOwner
  | worker
  | call (t : ℕ)
  deriving DecidableEq

/-- Where a call of `setState` is. -/
inductive StateCall
  | outside
  | notifying (vm : ℕ)
  /-- In `revertVirtualMachineStateAsync`, and `contains` returned false. -/
  | adding (vm : ℕ)
  deriving DecidableEq

/-- Where the worker is in its loop. -/
inductive RevertWorker
  | idle
  | peeked (vm : ℕ)
  | reverting (vm : ℕ)
  /-- Behind the synchronized block, before the `finally` block. -/
  | released (vm : ℕ)
  deriving DecidableEq

structure VirtualMachineServer where
  vmState : ℕ → VmState := fun _ => .stopped
  monitor : ℕ → Option MonitorOwner := fun _ => none
  queuedWorkItems : List ℕ := []
  call : ℕ → StateCall := fun _ => .outside
  worker : RevertWorker := .idle

inductive RevertStep
  | setState (t vm : ℕ) (newState : VmState)
  /-- A `setState` in which disconnecting the machine's client throws. -/
  | setStateThrows (t vm : ℕ)
  | contains (t : ℕ)
  | add (t : ℕ)
  | peek
  | startRevert
  /-- The worker's own `setState` when the revert is over. -/
  | endRevert (success : Bool)
  /-- The synchronized block is left, at its end or by an exception. -/
  | release
  | remove

namespace VirtualMachineServer

variable (vmUniqueId : ℕ → ℕ)

/-- Is an item for this machine equal to an item in the queue? -/
def queued (s : VirtualMachineServer) (vm : ℕ) : Bool :=
  s.queuedWorkItems.any fun w => vmUniqueId w = vmUniqueId vm

def step (s : VirtualMachineServer) : RevertStep → Option VirtualMachineServer
  | .setState t vm newState =>
    if s.call t = .outside ∧ s.monitor vm = none then
      if newState = s.vmState vm then some s
      else
        let s := { s with vmState := Function.update s.vmState vm newState }
        -- for any other state `update` does nothing
        if newState = .waitingToBeReverted then
          some { s with
            monitor := Function.update s.monitor vm (some (.call t))
            call := Function.update s.call t (.notifying vm) }
        else some s
    else none
  | .setStateThrows t vm =>
    if s.call t = .outside ∧ s.monitor vm = none then
      some { s with vmState := Function.update s.vmState vm .waitingToBeReverted }
    else none
  | .contains t =>
    match s.call t with
    | .notifying vm =>
      if s.queued vmUniqueId vm then
        some { s with
          monitor := Function.update s.monitor vm none
          call := Function.update s.call t .outside }
      else some { s with call := Function.update s.call t (.adding vm) }
    | _ => none
  | .add t =>
    match s.call t with
    | .adding vm =>
      some { s with
        queuedWorkItems := s.queuedWorkItems ++ [vm]
        monitor := Function.update s.monitor vm none
        call := Function.update s.call t .outside }
    | _ => none
  | .peek =>
    match s.worker, s.queuedWorkItems with
    | .idle, vm :: _ => some { s with worker := .peeked vm }
    | _, _ => none
  | .startRevert =>
    match s.worker with
    | .peeked vm =>
      if s.monitor vm = none then
        some { s with
          vmState := Function.update s.vmState vm .reverting
          monitor := Function.update s.monitor vm (some .worker)
          worker := .reverting vm }
      else none
    | _ => none
  | .endRevert success =>
    match s.worker with
    | .reverting vm =>
      some { s with vmState := Function.update s.vmState vm (if success then .running else .error) }
    | _ => none
  | .release =>
    match s.worker with
    | .reverting vm =>
      some { s with monitor := Function.update s.monitor vm none, worker := .released vm }
    | _ => none
  | .remove =>
    match s.worker with
    | .released vm =>
      some { s with
        queuedWorkItems := s.queuedWorkItems.eraseP fun w => vmUniqueId w = vmUniqueId vm
        worker := .idle }
    | _ => none

/-- No thread is inside the notification, and the worker is between two iterations. -/
def Quiescent (s : VirtualMachineServer) : Prop := (∀ t, s.call t = .outside) ∧ s.worker = .idle

end VirtualMachineServer

end CaptureHPC
