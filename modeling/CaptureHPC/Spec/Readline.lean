import CaptureHPC.Spec.EventController

/-!
# The lines that the server's reader gets

`ClientEventController.myReadline`, one character after the other, and the loop of `run` around it.

* A reader is given by the characters that are left, behind which comes the end of the stream or an `IOException`.
* Whether the socket is closed before a line, and whether a line is handled without an exception, are inputs.
-/

namespace CaptureHPC

structure BufferedReader where
  chars : List Char
  /-- Behind the characters comes an `IOException`. -/
  fails : Bool := false
  deriving DecidableEq

/-- How the loop of `run` ends. -/
inductive LoopEnd
  | socketClosed
  | null
  | disconnected
  | exception
  deriving DecidableEq

namespace BufferedReader

/-- What stands for an `IOException`. -/
def disconnected : List Char := "Disconnected".toList

/-- The loop of `myReadline`: what it returns when `val` is read already, and what is left. -/
def readlineFrom (fails : Bool) : Option (List Char) → List Char → Option (List Char) × List Char
  | val, [] => (if fails then some disconnected else val, [])
  | val, c :: chars =>
    if c = '\n' then (val, chars) else readlineFrom fails (some (val.getD [] ++ [c])) chars

def myReadline (r : BufferedReader) : Option (List Char) × BufferedReader :=
  let (val, chars) := readlineFrom r.fails none r.chars
  (val, { r with chars := chars })

/-- The loop of `run`: how it ends, and the reader with what is left. -/
def run (closed : BufferedReader → Bool) (handles : BufferedReader → List Char → Bool) :
    ℕ → BufferedReader → Option (LoopEnd × BufferedReader)
  | 0, _ => none
  | fuel + 1, r =>
    if closed r then some (.socketClosed, r)
    else match r.myReadline with
      | (none, rest) => some (.null, rest)
      | (some buffer, rest) =>
        if buffer = disconnected then some (.disconnected, rest)
        else if buffer.length > 0 ∧ !handles r buffer then some (.exception, rest)
        else run closed handles fuel rest

end BufferedReader

end CaptureHPC
