import CaptureHPC.Spec.Wide

/-!
# The client's URL codec

`Url::encode` and `Url::decode` of Url.cpp, on UTF-16 units.
-/

namespace CaptureHPC.Cpp.Url

/-- A lower-case hexadecimal digit. -/
def hexDigit (n : ℕ) : Char := Char.ofNat (if n < 10 then 0x30 + n else 0x57 + n)

/-- The table `hexenc`. -/
def hexenc (b : ℕ) : WString := units ['%', hexDigit (b / 16), hexDigit (b % 16)]

/-- The units `encode` leaves as they are: letters, digits and `-`, `_`, `.`, `!`, `~`, `*`,
`'`, `(`, `)`. -/
def isSafe (n : ℕ) : Bool :=
  (0x41 ≤ n && n ≤ 0x5A) || (0x61 ≤ n && n ≤ 0x7A) || (0x30 ≤ n && n ≤ 0x39) ||
    n ∈ [0x2D, 0x5F, 0x2E, 0x21, 0x7E, 0x2A, 0x27, 0x28, 0x29]

/-- The body of the loop of `encode`. -/
def encodeChar (wch : WChar) : WString :=
  let n := wch.toNat
  if isSafe n then [wch]
  else if n = 0x20 then [0x2B]
  else if n ≤ 0x7F then hexenc n
  else if n ≤ 0x7FF then hexenc (0xC0 ||| n >>> 6) ++ hexenc (0x80 ||| n &&& 0x3F)
  else hexenc (0xE0 ||| n >>> 12) ++ hexenc (0x80 ||| n >>> 6 &&& 0x3F) ++ hexenc (0x80 ||| n &&& 0x3F)

def encode (text : WString) : WString := text.flatMap encodeChar

/-- `wcstol` of `0x` and two more units. -/
def wcstol (a b : WChar) : ℕ :=
  match hexValue (charOf a.toNat), hexValue (charOf b.toNat) with
  | none, _ => 0
  | some x, none => x
  | some x, some y => 16 * x + y

/-- The variables of the loop of `decode`. -/
structure Decoder where
  decoded : WString := []
  sequence : ℤ := 0
  conwch : ℕ := 0

namespace Decoder

def push (d : Decoder) (wch : WChar) : Decoder := { d with decoded := d.decoded ++ [wch] }

/-- What `decode` does with the byte of an escape. -/
def byte (d : Decoder) (tconwch : ℕ) : Decoder :=
  if tconwch ≤ 0x7F then d.push (UInt16.ofNat tconwch)
  else if tconwch ≤ 0xBF then
    let part := tconwch &&& 0x3F
    let conwch := d.conwch ||| (if d.sequence = 2 then part <<< 6 else part)
    let d := { d with sequence := d.sequence - 1, conwch := conwch }
    if d.sequence = 0 then d.push (UInt16.ofNat conwch) else d
  else if tconwch ≤ 0xDF then { d with conwch := (tconwch &&& 0x1F) <<< 6, sequence := 1 }
  else if tconwch ≤ 0xEF then { d with conwch := (tconwch &&& 0xF) <<< 12, sequence := 2 }
  else d

end Decoder

/-- The loop of `decode`: an escape needs two units after the percent sign. -/
def decodeFrom (d : Decoder) : WString → Decoder
  | [] => d
  | [wch] => d.push wch
  | [wch, a] => (d.push wch).push a
  | wch :: a :: b :: r =>
    if wch = 0x25 then decodeFrom (d.byte (wcstol a b)) r else decodeFrom (d.push wch) (a :: b :: r)

def decode (text : WString) : WString := (decodeFrom {} text).decoded

end CaptureHPC.Cpp.Url
