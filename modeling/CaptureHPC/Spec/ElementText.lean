import CaptureHPC.Lib.Sax
import CaptureHPC.Spec.EventController

/-!
# Elements and their text

The handlers that build the elements, on the server (`ClientEventController`, with the
element's text) and on the client (`EventController`), and `ClientFileReceiver.receiveFilePart`.

* `currentElement` and its parents are a list, innermost first; an element is kept apart from
  its parent until it ends. A step without a result uses a null `currentElement`.
* On the client a string is what `mbstowcs_s` has made of the parser's.
* The decoder of base64 is an input.
-/

namespace CaptureHPC

open Lib Sax

namespace TextHandler

/-- A character that `String.trim` removes from the ends. -/
def isBlank (c : Char) : Bool := c.toNat ≤ 0x20

/-- `String.trim`. -/
def trim (s : List Char) : List Char := ((s.dropWhile isBlank).reverse.dropWhile isBlank).reverse

end TextHandler

/-- The server's handler, with the text of the elements. -/
structure TextHandler (ν β : Type) where
  currentElement : List (Node ν β) := []
  handled : List (Node ν β) := []

namespace TextHandler

variable {ν β : Type}

def sax (trim : List β → List β) (s : TextHandler ν β) : Report ν β → Option (TextHandler ν β)
  | .startElement name atts => some { s with currentElement := .mk name atts [] [] :: s.currentElement }
  | .characters ch =>
    match s.currentElement with
    | [] => none
    | e :: rest => some { s with currentElement := e.setData (trim ch) :: rest }
  | .endElement _ =>
    match s.currentElement with
    | [] => none
    | [root] => some { currentElement := [], handled := s.handled ++ [root] }
    | e :: parent :: rest => some { s with currentElement := Node.addChild e parent :: rest }

/-- `receiveFilePart`: what is in the output file afterwards. There is no result when an attribute is
missing or no number. -/
def receiveFilePart (decodeBuffer : List Char → Option (List UInt8)) (element : Node String Char)
    (outputFile : List UInt8) : Option (List UInt8) :=
  match parseInt (element.get "part-start"), parseInt (element.get "part-end"), element.get "encoding" with
  | some partStart, some partEnd, some encoding =>
    let partSize := partEnd - partStart
    if encoding = "base64" then
      match decodeBuffer element.data with
      | some buffer => some (if (buffer.length : ℤ) = partSize.toInt then outputFile ++ buffer else outputFile)
      | none => some outputFile
    else some outputFile
  | _, _, _ => none

end TextHandler

namespace Cpp

/-- The client's handler. `notified` are the root elements that `notifyListeners` has given to the
listeners of their names. -/
structure EventController where
  currentElement : List (Node WString UInt8) := []
  notified : List (Node WString UInt8) := []

namespace EventController

/-- `notifyListeners`. -/
def notifyListeners (s : EventController) (root : Node WString UInt8) : EventController :=
  if root.name.length > 0 then { currentElement := [], notified := s.notified ++ [root] } else s

def sax (s : EventController) : Report WString UInt8 → Option EventController
  | .startElement name atts =>
    match s.currentElement with
    | [] => some { s with currentElement := [.mk name atts [] []] }
    | e :: rest =>
      if e.name ≠ name then some { s with currentElement := .mk name atts [] [] :: e :: rest }
      else some { s with currentElement := e.addAttributes atts :: rest }
  | .characters ch =>
    match s.currentElement with
    | [] => none
    | e :: rest => some { s with currentElement := e.setData ch :: rest }
  | .endElement name =>
    match s.currentElement with
    | [] => none
    | [root] => some (s.notifyListeners root)
    | e :: parent :: rest =>
      if e.name = name then some { s with currentElement := Node.addChild e parent :: rest } else some s

end EventController

end Cpp

end CaptureHPC
