import CaptureHPC.Lib.Halving
import CaptureHPC.Spec.Groups
import CaptureHPC.Spec.TakeCalls

/-!
# Calls of the controllers beside each other

`UrlsController.addUrl`, `UrlGroupsController.takeUrlGroup` and `UrlGroup.setUrlGroupState` with the
`update` that it calls, for any number of calls of each at a time. None of them holds a lock. Each read and
each write of what the calls share is one step.

* `takes` has the two queues and the calls of `takeUrlGroup`. A URL is its place in `urls`. A removal finds no
  URL in the queue: it asks for a new object.
* `addUrl` looks at a snapshot of the queue (`inUrlQueue`), and adds the URL later.
* A call of `setUrlGroupState` is for a group that `takeUrlGroup` has returned. Whether its algorithm is dac and it
  is malicious, when `update` asks, is an input. What the call does to the URLs of the group is left out, but it
  may throw: then the call leaves before `update`, or before `update` asks for a retry. It also leaves before
  `update` when another call's `notifyObservers` has cleared what its `setChanged` has set.
* `urlGroup.getErrorCount() <= 1` decides on a retry; `networkReset` is always true.
* `putBack` is a history.
-/

namespace CaptureHPC

open Lib

/-- How a group was made: by a call of `takeUrlGroup`, or as a half of another one. -/
inductive GroupSource
  | call (i : ℕ)
  | half (g : ℕ) (second : Bool)
  deriving DecidableEq

/-- What the calls read and write of a group. -/
structure CalledGroup where
  urlList : List ℕ := []
  source : GroupSource := .call 0
  urlGroupState : UrlGroupState := .none
  errorCount : ℕ := 0

/-- Where a call of `setUrlGroupState` for the group `g` is. -/
inductive GroupCall
  | started (g : ℕ) (newState : UrlGroupState)
  /-- `urlGroupState` is written. -/
  | written (g : ℕ)
  /-- It was ERROR. -/
  | counting (g : ℕ)
  /-- `errorCount` was read. -/
  | counted (g n : ℕ)
  /-- In `update`, which compares the state with VISITING, with VISITED and with ERROR. -/
  | ifVisiting (g : ℕ)
  | ifVisited (g : ℕ)
  | ifError (g : ℕ)
  /-- One half is pushed next. -/
  | dividing (g : ℕ) (second : Bool)
  /-- `getErrorCount()` is read. -/
  | ifRetry (g : ℕ)
  | retrying (g : ℕ)
  | returned (g : ℕ)
  deriving DecidableEq

/-- What `inUrlQueue` asks of two URLs. -/
def Url.duplicates (url url1 : Url) : Bool :=
  equalsIgnoreCase url.escapedUrl url1.escapedUrl && url.clientProgram == url1.clientProgram &&
    url.visitTime == url1.visitTime

structure GroupCalls where
  takes : TakeCalls := {}
  urls : List Url := []
  /-- The URLs that are not in the queue and will be added. -/
  adding : List Url := []
  group : ℕ → CalledGroup := fun _ => {}
  size : ℕ := 0
  calls : List GroupCall := []
  putBack : List ℕ := []

inductive GroupStep
  | inUrlQueue (url : Url)
  | addUrl (k : ℕ)
  | takeUrlGroup
  | take (i pick : ℕ)
  | setUrlGroupState (g : ℕ) (newState : UrlGroupState)
  /-- The next operation of a call of `setUrlGroupState`. -/
  | update (j : ℕ) (dacMalicious leaves : Bool)

namespace GroupCalls

variable (groupSize : ℤ)

def inUrlQueue (s : GroupCalls) (url : Url) : Bool :=
  s.takes.urlQueue.any fun u => s.urls[u]?.any fun url1 => url.duplicates url1

/-- The constructor of `UrlGroup`. -/
def new (s : GroupCalls) (urlList : List ℕ) (source : GroupSource) : GroupCalls :=
  { s with group := Function.update s.group s.size { urlList := urlList, source := source }, size := s.size + 1 }

def push (s : GroupCalls) (g : ℕ) : GroupCalls :=
  { s with takes.urlGroupQueue := g :: s.takes.urlGroupQueue, takes.pushed := g :: s.takes.pushed }

/-- A call of `takeUrlGroup` that has taken its URLs makes the group that it returns. -/
def returnGroup (s : GroupCalls) (i : ℕ) : GroupCalls :=
  match s.takes.calls[i]? with
  | some (.returned (some (.made urlList))) => s.new urlList (.call i)
  | _ => s

/-- How many calls have returned the group. -/
def turns (s : GroupCalls) (g : ℕ) : ℕ :=
  s.takes.calls.count (.returned (some (.popped g))) +
    if g < s.size then match (s.group g).source with | .call _ => 1 | .half .. => 0 else 0

def setCall (s : GroupCalls) (j : ℕ) (c : GroupCall) : GroupCalls := { s with calls := s.calls.set j c }

def setGroup (s : GroupCalls) (g : ℕ) (x : CalledGroup) : GroupCalls :=
  { s with group := Function.update s.group g x }

/-- Which call of `update` comes to the halves. -/
def divides (s : GroupCalls) (g : ℕ) (dacMalicious : Bool) : Bool :=
  dacMalicious && decide ((s.group g).urlList.length > 1)

/-- The next operation of a call of `setUrlGroupState`. -/
def update (s : GroupCalls) (j : ℕ) (dacMalicious leaves : Bool) : Option GroupCalls :=
  match s.calls[j]? with
  | some (.started g newState) =>
    some ((s.setGroup g { s.group g with urlGroupState := newState }).setCall j (.written g))
  | some (.written g) =>
    some (s.setCall j (if (s.group g).urlGroupState = .error then .counting g else .ifVisiting g))
  | some (.counting g) => some (s.setCall j (.counted g (s.group g).errorCount))
  | some (.counted g n) => some ((s.setGroup g { s.group g with errorCount := n + 1 }).setCall j (.ifVisiting g))
  | some (.ifVisiting g) =>
    -- an exception for a URL, or no notification: `update` is not reached
    some (s.setCall j (if leaves ∨ (s.group g).urlGroupState = .visiting then .returned g else .ifVisited g))
  | some (.ifVisited g) =>
    some (s.setCall j (if (s.group g).urlGroupState = .visited then
      if s.divides g dacMalicious then .dividing g false else .returned g
    else .ifError g))
  | some (.ifError g) =>
    some (s.setCall j (if (s.group g).urlGroupState = .error then
      if s.divides g dacMalicious then .dividing g false else .ifRetry g
    else .returned g))
  | some (.dividing g second) =>
    some (((s.new (half second (s.group g).urlList) (.half g second)).push s.size).setCall j
      (if second then .returned g else .dividing g true))
  | some (.ifRetry g) =>
    -- the group has no error code, or a change of state throws
    some (s.setCall j (if ¬leaves ∧ (s.group g).errorCount ≤ 1 then .retrying g else .returned g))
  | some (.retrying g) => some ({ s.push g with putBack := g :: s.putBack }.setCall j (.returned g))
  | some (.returned _) | none => none

def step (s : GroupCalls) : GroupStep → Option GroupCalls
  | .inUrlQueue url => some (if s.inUrlQueue url then s else { s with adding := s.adding ++ [url] })
  | .addUrl k =>
    match s.adding[k]? with
    | some url => (s.takes.step groupSize .addUrl).map fun t =>
        { s with takes := t, urls := s.urls ++ [url], adding := s.adding.eraseIdx k }
    | none => none
  | .takeUrlGroup => (s.takes.step groupSize .call).map fun t => { s with takes := t }
  | .take i pick => (s.takes.step groupSize (.next i pick)).map fun t => { s with takes := t }.returnGroup i
  | .setUrlGroupState g newState =>
    if 0 < s.turns g then some { s with calls := s.calls ++ [.started g newState] } else none
  | .update j dacMalicious leaves => s.update j dacMalicious leaves

end GroupCalls

end CaptureHPC
