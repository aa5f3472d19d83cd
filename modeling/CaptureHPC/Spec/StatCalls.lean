import CaptureHPC.Lib.Machine
import CaptureHPC.Spec.Urls

/-!
# Changes of state beside each other

`Url.setUrlState` for any number of URLs at a time. A call has the lock of its URL and no other one. The counters
of `Stats` are static fields that no lock guards: `Stats.visited++` reads the field and writes it later. A line of
the log is one step, since `writeToLog` is synchronized.

* The verdict that a call reads is an input, and so is whether the call throws: VISITING for a missing start of the
  visit, VISITED for a missing time when the visiting time is computed.
* The lists of `Stats` are left out, and `UrlsController.update` with its lists and its own line.
-/

namespace CaptureHPC

open Lib

/-- The counters that changes of state raise. -/
inductive StatCounter
  | visiting | visited | safe | malicious | urlError
  deriving DecidableEq

/-- The field of `Stats`. -/
def Stats.counter (s : Stats) : StatCounter → ℕ
  | .visiting => s.visiting
  | .visited => s.visited
  | .safe => s.safe
  | .malicious => s.malicious
  | .urlError => s.urlError

/-- The counter that goes with a line. -/
def LogEvent.counter : LogEvent → Option StatCounter
  | visiting => some .visiting
  | visited => some .visited
  | benign => some .safe
  | malicious => some .malicious
  | error .. => some .urlError
  | queued | duplicate | sending => none

/-- A counter is raised, or the line is written that goes with it. -/
inductive StatOp
  | raise (k : StatCounter)
  | line (k : StatCounter)
  deriving DecidableEq

/-- What `setUrlState` does to the counters and to the log when the state is a new one. -/
def Url.statOps (newState : UrlState) (malicious : Option Bool) (throws : Bool) : List StatOp :=
  match newState, malicious with
  | .visiting, _ => if throws then [] else [.raise .visiting, .line .visiting]
  | .visited, malicious => [.line .visited, .raise .visited] ++
    if throws then [] else if malicious = some true then [.raise .malicious, .line .malicious]
    else [.raise .safe, .line .safe]
  | .error, some true => [.raise .malicious, .line .malicious]
  | .error, some false => [.raise .urlError, .line .urlError]
  | _, _ => []

/-- A call, with the operations that are to come. -/
structure StatCall where
  url : ℕ
  left : List StatOp
  /-- What was read of the counter that is to be written next. -/
  read : Option ℕ := none

structure StatCalls where
  urlState : ℕ → UrlState := fun _ => .none
  counter : StatCounter → ℕ := fun _ => 0
  log : List StatCounter := []
  calls : List StatCall := []

inductive StatStep
  | setUrlState (u : ℕ) (newState : UrlState) (malicious : Option Bool) (throws : Bool)
  /-- The next operation of a call. -/
  | next (i : ℕ)

namespace StatCalls

/-- Another call has the lock of the URL. -/
def locked (s : StatCalls) (u : ℕ) : Bool := s.calls.any fun c => c.url == u && !c.left.isEmpty

def setUrlState (s : StatCalls) (u : ℕ) (newState : UrlState) (malicious : Option Bool) (throws : Bool) : StatCalls :=
  if s.urlState u = newState then s
  else
    { s with
      urlState := Function.update s.urlState u newState
      calls := s.calls ++ [{ url := u, left := Url.statOps newState malicious throws }] }

def setCall (s : StatCalls) (i : ℕ) (c : StatCall) : StatCalls := { s with calls := s.calls.set i c }

def next (s : StatCalls) (i : ℕ) : Option StatCalls :=
  match s.calls[i]? with
  | some ⟨u, .raise k :: left, none⟩ => some (s.setCall i ⟨u, .raise k :: left, some (s.counter k)⟩)
  | some ⟨u, .raise k :: left, some n⟩ =>
    some ({ s with counter := Function.update s.counter k (n + 1) }.setCall i ⟨u, left, none⟩)
  | some ⟨u, .line k :: left, _⟩ => some ({ s with log := s.log ++ [k] }.setCall i ⟨u, left, none⟩)
  | some ⟨_, [], _⟩ | none => none

def step (s : StatCalls) : StatStep → Option StatCalls
  | .setUrlState u newState malicious throws =>
    if s.locked u then none else some (s.setUrlState u newState malicious throws)
  | .next i => s.next i

end StatCalls

end CaptureHPC
