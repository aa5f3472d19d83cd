import CaptureHPC.Spec.TakeCalls

/-!
# The monitor of the queues

The thread of `UrlGroupsController` that ends the server when `terminate` is set, beside the calls
of `takeUrlGroup`, of `setUrlGroupState` and of `update`.

* Each `size()` that the monitor reads is one step, and so is each operation on a list in `update`.
* A group is known by its index. `update` splits a group or puts it back under conditions on its
  data; what it does is an input here.
* `underway` and `entries` are histories. A group is under way that was taken, and has neither been VISITED nor gone
  to ERROR since. `entries` counts the starts of visits of the group that `update` has handled, less the ends; an end
  that comes when the count is zero leaves it there.
-/

namespace CaptureHPC

open Lib

/-- Where the monitor is in its loop. `second` says which of the two checks it makes. -/
inductive MonitorThread
  | sleeping
  /-- `visitingList.size()` comes next. -/
  | visiting (second : Bool)
  /-- That was zero, and `urlGroupQueue.size()` comes next. -/
  | groups (second : Bool)
  /-- Both were zero, and `getQueueSize()` comes next. -/
  | urls (second : Bool)
  /-- The first check has found all empty. -/
  | waiting
  /-- The second has, too. -/
  | exited
  deriving DecidableEq

/-- Where a thread is in a call of `setUrlGroupState`. -/
inductive UpdateCall
  | outside
  /-- The state is set. -/
  | notified (g : ℕ)
  | adding (g : ℕ)
  | removing (g : ℕ) (error : Bool)
  | pushing (gs : List ℕ)
  deriving DecidableEq

/-- What `update` does with a group once it is removed from the list. -/
inductive Requeue
  | nothing | split | retry

structure QueueMonitor where
  takes : TakeCalls := {}
  /-- The group that a call of `takeUrlGroup` has returned to its client. -/
  holds : ℕ → Option ℕ := fun _ => none
  nGroups : ℕ := 0
  urlGroupState : ℕ → UrlGroupState := fun _ => .none
  visitingList : List ℕ := []
  update : ℕ → UpdateCall := fun _ => .outside
  monitor : MonitorThread := .sleeping
  underway : ℕ → Bool := fun _ => false
  entries : ℕ → ℕ := fun _ => 0

inductive QueueStep
  | addUrl
  | call
  /-- The next operation of a call of `takeUrlGroup`. -/
  | next (i pick : ℕ)
  /-- A thread sets the state of the group that this call has returned. -/
  | setUrlGroupState (t i : ℕ) (newState : UrlGroupState)
  /-- The next operation of `update` in this thread. -/
  | update (t : ℕ) (requeue : Requeue)
  /-- An exception ends the call. -/
  | throw (t : ℕ)
  | monitor

namespace TakeCalls

/-- What this call has returned. -/
def group? (s : TakeCalls) (i : ℕ) : Option TakenGroup :=
  match s.calls[i]? with
  | some (.returned urlGroup) => urlGroup
  | _ => none

end TakeCalls

namespace QueueMonitor

variable (groupSize : ℤ)

/-- The call's client has this group from now on. -/
def hold (s : QueueMonitor) (i g : ℕ) : QueueMonitor :=
  { s with holds := Function.update s.holds i (some g), underway := Function.update s.underway g true }

/-- A group that a call has made is a new one. -/
def returned (s : QueueMonitor) (i : ℕ) : QueueMonitor :=
  match s.takes.group? i with
  | some (.popped g) => s.hold i g
  | some (.made _) => { s.hold i s.nGroups with nGroups := s.nGroups + 1 }
  | none => s

def setUpdate (s : QueueMonitor) (t : ℕ) (c : UpdateCall) : QueueMonitor :=
  { s with update := Function.update s.update t c }

/-- `setUrlGroupState`, up to `update`. -/
def setUrlGroupState (s : QueueMonitor) (t g : ℕ) (newState : UrlGroupState) : QueueMonitor :=
  let ends := newState = .visited ∨ newState = .error
  { s with
    urlGroupState := Function.update s.urlGroupState g newState
    underway := if ends then Function.update s.underway g false else s.underway }.setUpdate t (.notified g)

/-- `update`. -/
def updateNext (s : QueueMonitor) (t : ℕ) (requeue : Requeue) : Option QueueMonitor :=
  match s.update t with
  | .outside => none
  | .notified g =>
    some (s.setUpdate t (match s.urlGroupState g with
      | .visiting => .adding g
      | .visited => .removing g false
      | .error => .removing g true
      | _ => .outside))
  | .adding g =>
    let s := { s with entries := Function.update s.entries g (s.entries g + 1) }
    some ({ s with visitingList := s.visitingList ++ [g] }.setUpdate t .outside)
  | .removing g error =>
    let s := { s with entries := Function.update s.entries g (s.entries g - 1) }
    let s := { s with visitingList := s.visitingList.erase g }
    match requeue with
    | .nothing => some (s.setUpdate t .outside)
    | .split => some ({ s with nGroups := s.nGroups + 2 }.setUpdate t (.pushing [s.nGroups, s.nGroups + 1]))
    -- only the branch of ERROR puts the group itself back
    | .retry => if error then some (s.setUpdate t (.pushing [g])) else none
  | .pushing [] => some (s.setUpdate t .outside)
  | .pushing (g :: gs) =>
    (s.takes.step groupSize (.push g)).map fun takes => { s with takes := takes }.setUpdate t (.pushing gs)

/-- The next line of the monitor's `run`. -/
def monitorNext (s : QueueMonitor) : MonitorThread :=
  match s.monitor with
  | .sleeping => .visiting false
  | .visiting second => if s.visitingList.length = 0 then .groups second else .sleeping
  | .groups second => if s.takes.urlGroupQueue.length = 0 then .urls second else .sleeping
  | .urls second =>
    if s.takes.urlQueue.length = 0 then (if second then .exited else .waiting) else .sleeping
  | .waiting => .visiting true
  | .exited => .exited

def step (s : QueueMonitor) (a : QueueStep) : Option QueueMonitor :=
  if s.monitor = .exited then none
  else
    match a with
    | .addUrl => (s.takes.step groupSize .addUrl).map fun takes => { s with takes := takes }
    | .call => (s.takes.step groupSize .call).map fun takes => { s with takes := takes }
    | .next i pick => (s.takes.step groupSize (.next i pick)).map fun takes => { s with takes := takes }.returned i
    | .setUrlGroupState t i newState =>
      match s.update t, s.holds i with
      -- a client sets the state of its own group
      | .outside, some g => some (s.setUrlGroupState t g newState)
      | _, _ => none
    | .update t requeue => s.updateNext groupSize t requeue
    | .throw t => some (s.setUpdate t .outside)
    | .monitor => some { s with monitor := s.monitorNext }

end QueueMonitor

end CaptureHPC
