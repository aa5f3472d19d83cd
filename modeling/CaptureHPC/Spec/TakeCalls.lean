import CaptureHPC.Lib.Machine
import CaptureHPC.Spec.Groups

/-!
# Calls of `takeUrlGroup` beside each other

`UrlGroupsController.takeUrlGroup` and `UrlsController.takeUrl`, for any number of calls at a
time. Each operation of a queue is one step, and other threads push groups and add URLs
between the steps.

* `urlGroupQueue` is a deque: `push` and `pop` work on its head, and `pop` throws when it is
  empty. `urlQueue.take` blocks while that queue is empty; which URL comes first is an input.
* A URL that is added is a new object. A group may be pushed again.
* `pushed` and `added` are histories.
-/

namespace CaptureHPC

open Lib

/-- What `takeUrlGroup` returns: a group of the queue, or a new one of these URLs. -/
inductive TakenGroup
  | popped (g : ℕ)
  | made (urlList : List ℕ)
  deriving DecidableEq

/-- Where a call is. -/
inductive TakeCall
  | started
  /-- `urlGroupQueue.size()` was not zero. -/
  | popping
  /-- It was zero: `getQueueSize()` is compared with the group size. -/
  | sizing
  /-- `initialUrlGroupSize` becomes `getQueueSize()`. -/
  | resizing
  /-- At the head of the loop, or at `isEmpty()` in `takeUrl`. -/
  | filling (left : ℕ) (urlList : List ℕ)
  /-- `urlQueue` was not empty. -/
  | taking (left : ℕ) (urlList : List ℕ)
  | returned (urlGroup : Option TakenGroup)
  | threw
  deriving DecidableEq

structure TakeCalls where
  urlGroupQueue : List ℕ := []
  urlQueue : List ℕ := []
  calls : List TakeCall := []
  /-- The groups that were pushed, and how many URLs were added. -/
  pushed : List ℕ := []
  added : ℕ := 0
  deriving DecidableEq

inductive TakeStep
  | push (g : ℕ)
  | addUrl
  | call
  /-- The next operation of a call. The number says which URL `take` returns. -/
  | next (i pick : ℕ)

namespace TakeCalls

variable (groupSize : ℤ)

/-- The loop begins: `initialUrlGroupSize` is replaced when it is zero. -/
def fill (initialUrlGroupSize : ℤ) : TakeCall :=
  .filling (if initialUrlGroupSize = 0 then 1 else initialUrlGroupSize).toNat []

/-- The call with this index goes on. -/
def setCall (s : TakeCalls) (i : ℕ) (c : TakeCall) : TakeCalls := { s with calls := s.calls.set i c }

def next (s : TakeCalls) (i pick : ℕ) : Option TakeCalls :=
  match s.calls[i]? with
  | some .started => some (s.setCall i (if s.urlGroupQueue.length = 0 then .sizing else .popping))
  | some .popping =>
    match s.urlGroupQueue with
    | g :: rest => some ({ s with urlGroupQueue := rest }.setCall i (.returned (some (.popped g))))
    | [] => some (s.setCall i .threw)
  | some .sizing => some (s.setCall i (if s.urlQueue.length < groupSize then .resizing else fill groupSize))
  | some .resizing => some (s.setCall i (fill s.urlQueue.length))
  | some (.filling 0 urlList) =>
    some (s.setCall i (.returned (if urlList.length > 0 then some (.made urlList) else none)))
  | some (.filling (left + 1) urlList) =>
    some (s.setCall i (if s.urlQueue.isEmpty then .filling left urlList else .taking left urlList))
  | some (.taking left urlList) =>
    match s.urlQueue[pick]? with
    | some u => some ({ s with urlQueue := s.urlQueue.eraseIdx pick }.setCall i (.filling left (urlList ++ [u])))
    | none => none
  | some (.returned _) | some .threw | none => none

def step (s : TakeCalls) : TakeStep → Option TakeCalls
  | .push g => some { s with urlGroupQueue := g :: s.urlGroupQueue, pushed := g :: s.pushed }
  | .addUrl => some { s with urlQueue := s.urlQueue ++ [s.added], added := s.added + 1 }
  | .call => some { s with calls := s.calls ++ [.started] }
  | .next i pick => s.next groupSize i pick

end TakeCalls

end CaptureHPC
