import CaptureHPC.Lib.Machine

/-!
# The workers of the Internet Explorer plugins

`visitGroup` and `InternetExplorerWorker`, which the two Internet Explorer plugins share but for
the kind of instance that visits a URL.

* A step is one of the thread in `visitGroup` or of one worker. The look at a worker and what
  it is given are one step: until its event is set, a worker that is not busy can only signal
  an earlier visit.
* The events are auto-reset. A wait returns the lowest worker whose event is set and resets it,
  or times out.
* URLs are numbered in the order of the group. `given` and `visited` are histories.
-/

namespace CaptureHPC.Cpp

open Lib

@[irreducible] def maxWorkerThreads : ℕ := 60

inductive WorkerPoint
  | waiting
  | visiting (url : ℕ)
  /-- Not busy any more, and `worker_finished` is still to be set. -/
  | visited
  deriving DecidableEq

/-- The entries of one worker in the static arrays, and where it is in its loop. -/
structure Worker where
  busy : Bool := false
  data : Option ℕ := none
  hasData : Bool := false
  finished : Bool := false
  point : WorkerPoint := .waiting
  deriving DecidableEq

namespace Worker

/-- What `visitGroup` does to the worker that it gives a URL. -/
def give (w : Worker) (url : ℕ) : Worker := { w with data := some url, busy := true, hasData := true }

/-- The wait for `worker_has_data` is over. -/
def start (w : Worker) : Worker :=
  match w.data with
  | some url => { w with hasData := false, point := .visiting url }
  | none => { w with hasData := false }

def endVisit (w : Worker) : Worker := { w with busy := false, point := .visited }

def signal (w : Worker) : Worker := { w with finished := true, point := .waiting }

/-- The wait has returned this worker. -/
def reset (w : Worker) : Worker := { w with finished := false }

end Worker

inductive LoopPoint
  | scanning (i : ℕ)
  | waiting
  /-- The wait returned this worker. -/
  | returned (index : Fin maxWorkerThreads)
  | exited
  deriving DecidableEq

structure VisitGroup where
  nUrls : ℕ := 0
  nVisitedUrls : ℕ := 0
  toVisit : ℕ := 0
  nVisiting : ℕ := 0
  loop : LoopPoint := .exited
  worker : Fin maxWorkerThreads → Worker := fun _ => {}
  given : List (Fin maxWorkerThreads × ℕ) := []
  visited : List ℕ := []

inductive PoolStep
  | visitGroup (nUrls : ℕ)
  | loop
  | worker (i : Fin maxWorkerThreads)

namespace VisitGroup

def setWorker (s : VisitGroup) (i : Fin maxWorkerThreads) (w : Worker) : VisitGroup :=
  { s with worker := Function.update s.worker i w }

/-- The condition of the outer loop. -/
def loopHead (s : VisitGroup) : LoopPoint := if s.nVisitedUrls < s.nUrls then .scanning 0 else .exited

def visitGroup (s : VisitGroup) (nUrls : ℕ) : Option VisitGroup :=
  if s.loop = .exited then
    some { s with
      nUrls := nUrls
      nVisitedUrls := 0
      toVisit := 0
      nVisiting := 0
      given := []
      visited := []
      loop := if 0 < nUrls then .scanning 0 else .exited }
  else none

def setLoop (s : VisitGroup) (loop : LoopPoint) : VisitGroup := { s with loop := loop }

/-- The body of the inner loop. -/
def scan (s : VisitGroup) (i : Fin maxWorkerThreads) : VisitGroup :=
  if !(s.worker i).busy && s.nVisiting < s.nUrls then
    { s with
      toVisit := s.toVisit + 1
      nVisiting := s.nVisiting + 1
      given := s.given ++ [(i, s.toVisit)]
      worker := Function.update s.worker i ((s.worker i).give s.toVisit) }
  else s

/-- The worker that a wait returns. -/
def signalled (s : VisitGroup) : Option (Fin maxWorkerThreads) :=
  (List.finRange maxWorkerThreads).find? fun i => (s.worker i).finished

/-- The test behind the wait. -/
def count (s : VisitGroup) (i : Fin maxWorkerThreads) : VisitGroup :=
  if !(s.worker i).busy then { s with nVisitedUrls := s.nVisitedUrls + 1 } else s

def stepLoop (s : VisitGroup) : Option VisitGroup :=
  match s.loop with
  | .scanning i =>
    if h : i < maxWorkerThreads then some ((s.scan ⟨i, h⟩).setLoop (.scanning (i + 1)))
    else some (s.setLoop .waiting)
  | .waiting =>
    match s.signalled with
    | some i => some ((s.setWorker i (s.worker i).reset).setLoop (.returned i))
    -- WAIT_TIMEOUT is no index of a worker
    | none => some (s.setLoop s.loopHead)
  | .returned i => some ((s.count i).setLoop (s.count i).loopHead)
  | .exited => none

def internetExplorerWorker (s : VisitGroup) (i : Fin maxWorkerThreads) : Option VisitGroup :=
  match (s.worker i).point with
  | .waiting => if (s.worker i).hasData then some (s.setWorker i (s.worker i).start) else none
  | .visiting url =>
    some { s with
      visited := s.visited ++ [url]
      worker := Function.update s.worker i (s.worker i).endVisit }
  | .visited => some (s.setWorker i (s.worker i).signal)

def step (s : VisitGroup) : PoolStep → Option VisitGroup
  | .visitGroup nUrls => s.visitGroup nUrls
  | .loop => s.stepLoop
  | .worker i => s.internetExplorerWorker i

def AllVisited (s : VisitGroup) : Prop := ∀ url < s.nUrls, url ∈ s.visited

/-- Every worker waits, and has nothing to do. -/
def Idle (s : VisitGroup) : Prop := ∀ i, (s.worker i).point = .waiting ∧ (s.worker i).hasData = false

/-- No event of a finished visit is set, and the loop has none in hand that it is still to count. -/
def NoneFinished (s : VisitGroup) : Prop :=
  (∀ i, (s.worker i).finished = false) ∧ ∀ i, s.loop ≠ .returned i

end VisitGroup

end CaptureHPC.Cpp
