import CaptureHPC.Lib.Regex
import CaptureHPC.Spec.WideText

/-!
# The regular expressions of exclusions

What the documentation of `boost::wregex` says of its Perl syntax with `icase`, for patterns without braces and without
`*`, `?`, `|` and wildcards.

* A pattern is given by its tokens. A special character that is escaped stands for itself.
* Which characters a bracket expression stands for is left open, and so is where a repeated expression begins: `Denotes`
  has every reading. Two plus signs are a possessive repeat, which matches less.
* A brace is taken for special even where it does not begin a repeat: what it is there is not said.
-/

namespace CaptureHPC.Boost

open Lib Cpp

/-- The characters that may have a meaning of their own. -/
def special : List WChar := lit ".[\x7b\x7d()\\*+?|^$"

/-- Those that are in the patterns below. -/
def operators : List WChar := lit "[()+^$"

def plusSign : WChar := 0x2B

inductive RegexToken
  | ordinary (c : WChar)
  | escaped (c : WChar)
  | operator (c : WChar)
  deriving DecidableEq

namespace RegexToken

def text : RegexToken → WString
  | ordinary c => [c]
  | escaped c => [backslash, c]
  | operator c => [c]

def WellFormed : RegexToken → Prop
  | ordinary c => c ∉ special
  | escaped c => c ∈ special
  | operator c => c ∈ operators

def isOperator : RegexToken → Bool
  | operator _ => true
  | _ => false

/-- The character that the token is, or stands for. -/
def char : RegexToken → WChar
  | ordinary c => c
  | escaped c => c
  | operator c => c

end RegexToken

open RegexToken

def patternOf (ts : List RegexToken) : WString := ts.flatMap text

/-- The expressions that a pattern may be read as. `translate` is what `icase` compares. -/
inductive Denotes (translate : WChar → WChar) : List RegexToken → Regex WChar → Prop
  | empty : Denotes translate [] .empty
  | ordinary (c : WChar) : Denotes translate [.ordinary c] (.sat fun d => translate d = translate c)
  | escaped (c : WChar) : Denotes translate [.escaped c] (.sat fun d => translate d = translate c)
  | start : Denotes translate [.operator 0x5E] .start
  | finish : Denotes translate [.operator 0x24] .finish
  | group {ts : List RegexToken} {r : Regex WChar} (h : Denotes translate ts r) :
      Denotes translate (.operator 0x28 :: (ts ++ [.operator 0x29])) r
  | bracket {ts : List RegexToken} (p : WChar → Prop) (h : ts ≠ []) :
      Denotes translate (.operator 0x5B :: (ts ++ [.ordinary 0x5D])) (.sat p)
  | plus {ts : List RegexToken} {r : Regex WChar} (h : Denotes translate ts r) :
      Denotes translate (ts ++ [.operator plusSign]) (.plus r)
  | cat {ts us : List RegexToken} {r s : Regex WChar} (hr : Denotes translate ts r) (hs : Denotes translate us s) :
      Denotes translate (ts ++ us) (.cat r s)

/-- The pattern has an anchor. -/
def Anchored (ts : List RegexToken) : Prop := .operator 0x5E ∈ ts ∨ .operator 0x24 ∈ ts

/-- The regular expressions of the library: which patterns are accepted, and what they match as a whole. -/
structure RegexLibrary where
  valid : WString → Bool
  regexMatch : WString → WString → Bool
  translate : WChar → WChar
  newline : WChar → Bool

/-- What is documented of them. -/
structure RegexLibrary.Documented (e : RegexLibrary) : Prop where
  /-- The operators are not letters. -/
  caseless : ∀ c o, o ∈ operators → e.translate c = e.translate o → c = o
  /-- Characters that are not special, and escaped ones, can be put together. -/
  literal : ∀ ts, (∀ t ∈ ts, t.WellFormed) → (∀ t ∈ ts, t.isOperator = false) → e.valid (patternOf ts) = true
  /-- A pattern that is accepted has a reading, and matches no more. It matches all of it if no repeat is possessive and
  no anchor meets a newline. -/
  denotes : ∀ ts, (∀ t ∈ ts, t.WellFormed) → e.valid (patternOf ts) = true → ∃ r, Denotes e.translate ts r ∧
    (∀ t, e.regexMatch (patternOf ts) t = true → r.Matches (e.newline ·) [] t []) ∧
    (¬[.operator plusSign, .operator plusSign] <:+: ts → ∀ t, (Anchored ts → ∀ c ∈ t, e.newline c = false) →
      r.Matches (e.newline ·) [] t [] → e.regexMatch (patternOf ts) t = true)

end CaptureHPC.Boost
