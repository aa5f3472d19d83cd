import CaptureHPC.Lib.Binary64
import CaptureHPC.Lib.Split
import CaptureHPC.Spec.ElementText

/-!
# Fields and floating-point numbers in texts

`String.split` at a text that has no special characters of a pattern, and `Double.parseDouble`.
-/

namespace CaptureHPC

open Lib

/-- `s.split(sep)`: a text in one part is kept as it is, else the empty parts at the end are left out. -/
def splitText (sep s : List Char) : List (List Char) :=
  match split sep s with
  | [part] => [part]
  | parts => parts.rdropWhile List.isEmpty

namespace ParseDouble

/-- Digits, and digits behind a point; there must be some. -/
def digits (isDigit : Char → Bool) (cs : List Char) : Option ((List Char × List Char) × List Char) :=
  let (whole, rest) := cs.span isDigit
  let (fraction, rest) := match rest with
    | '.' :: rest => rest.span isDigit
    | _ => ([], rest)
  if whole = [] ∧ fraction = [] then none else some ((whole, fraction), rest)

/-- A number with an optional sign. -/
def exponentValue (cs : List Char) : Option (ℤ × List Char) :=
  let (negative, cs) := match cs with
    | '-' :: cs => (true, cs)
    | '+' :: cs => (false, cs)
    | _ => (false, cs)
  let (exponent, rest) := cs.span Char.isDigit
  if exponent = [] then none else some (Binary64.signed negative (Nat.ofDigitChars 10 exponent 0 : ℤ), rest)

/-- What may stand behind a number. -/
def isSuffix (cs : List Char) : Bool := cs ∈ [[], ['f'], ['F'], ['d'], ['D']]

def decimal (cs : List Char) : Option ℚ≥0 := do
  let ((whole, fraction), rest) ← digits Char.isDigit cs
  let (exponent, rest) ← match rest with
    | c :: rest => if c = 'e' ∨ c = 'E' then exponentValue rest else some (0, c :: rest)
    | [] => some (0, [])
  if isSuffix rest then some (Nat.ofDigitChars 10 (whole ++ fraction) 0 * 10 ^ (exponent - fraction.length))
  else none

/-- A hexadecimal number, which needs an exponent. -/
def hexadecimal (cs : List Char) : Option ℚ≥0 := do
  let ((whole, fraction), rest) ← digits (fun c => (hexValue c).isSome) cs
  let (exponent, rest) ← match rest with
    | c :: rest => if c = 'p' ∨ c = 'P' then exponentValue rest else none
    | [] => none
  let mantissa := (whole ++ fraction).foldl (fun n c => 16 * n + (hexValue c).getD 0) 0
  if isSuffix rest then some (mantissa * 2 ^ (exponent - 4 * fraction.length)) else none

/-- What may stand behind the sign. -/
def unsigned (negative : Bool) (cs : List Char) : Option Binary64 :=
  if cs = ['N', 'a', 'N'] then some .nan
  else if cs = ['I', 'n', 'f', 'i', 'n', 'i', 't', 'y'] then some (.infinite negative)
  else match cs with
    | '0' :: 'x' :: cs | '0' :: 'X' :: cs => (hexadecimal cs).map (Binary64.ofMagnitude negative)
    | cs => (decimal cs).map (Binary64.ofMagnitude negative)

end ParseDouble

/-- `Double.parseDouble`; `none` is `NumberFormatException`. -/
def parseDouble (s : String) : Option Binary64 :=
  match TextHandler.trim s.toList with
  | '-' :: cs => ParseDouble.unsigned true cs
  | '+' :: cs => ParseDouble.unsigned false cs
  | cs => ParseDouble.unsigned false cs

example : parseDouble " -12.50e-1f " = some (Binary64.ofMagnitude true (5 / 4)) := by decide +kernel
example : parseDouble "0x1.8p1" = some (Binary64.ofMagnitude false 3) := by decide +kernel
example : parseDouble "1.5:" = none := by decide

end CaptureHPC
