import CaptureHPC.Spec.Wide

/-!
# The documents a client sends

`Element::toString` of Element.h, and `sendXML` and `xml_escape` of Server.cpp, while the
client is connected. Only `sendXML` escapes the attributes.
-/

namespace CaptureHPC.Cpp

/-- A wide string literal. -/
def lit (s : String) : WString := units s.toList

inductive Element
  | mk (name : WString) (attributes : List (WString × WString)) (data : List UInt8)
    (childElements : List Element)

namespace Element

def attributesString (attributes : List (WString × WString)) : WString :=
  attributes.flatMap fun a => lit " " ++ a.1 ++ lit "=\"" ++ a.2 ++ lit "\""

/-- The data as text: a `char` is signed, and a NUL ends the string that is appended. -/
def dataString (data : List UInt8) : WString :=
  (data.takeWhile (· ≠ 0)).map fun b => if b.toNat < 0x80 then b.toUInt16 else 0xFF00 + b.toUInt16

mutual

def toStringWithoutNewLine : Element → WString
  | .mk name attributes data childElements =>
    lit "<" ++ name ++ attributesString attributes ++ lit ">" ++ childrenString childElements ++
      dataString data ++ lit "</" ++ name ++ lit ">"

def childrenString : List Element → WString
  | [] => []
  | e :: es => toStringWithoutNewLine e ++ childrenString es

end

/-- `toString`. -/
def document (e : Element) : WString := toStringWithoutNewLine e ++ lit "\r\n"

end Element

namespace Server

/-- What `xml_escape` puts in the place of a unit. -/
def entityOf (w : WChar) : Option WString :=
  if w = 0x26 then some (lit "&amp;")
  else if w = 0x3C then some (lit "&lt;")
  else if w = 0x3E then some (lit "&gt;")
  else if w = 0x22 then some (lit "&quot;")
  else if w = 0x27 then some (lit "&apos;")
  else none

/-- The body of the loop of `xml_escape`. -/
def escapeAt (escaped : WString) (i : ℕ) : WString :=
  match escaped[i]?.bind entityOf with
  | some entity => escaped.take i ++ entity ++ escaped.drop (i + 1)
  | none => escaped

/-- `xml_escape`. The positions go up to the length of `xml`, not of `escaped`. -/
def xmlEscape (xml : WString) : WString := (List.range xml.length).foldl escapeAt xml

/-- The document of `sendXML`. -/
def sendXML (elementName : WString) (vAttributes : List (WString × WString)) : WString :=
  lit "<" ++ elementName ++
    (vAttributes.flatMap fun a => lit " " ++ a.1 ++ lit "=\"" ++ xmlEscape a.2 ++ lit "\"") ++ lit "/>\r\n"

end Server

end CaptureHPC.Cpp
