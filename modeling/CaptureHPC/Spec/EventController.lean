import CaptureHPC.Lib.Xml
import CaptureHPC.Spec.Client
import CaptureHPC.Spec.Wide

/-!
# The server's reader

`ClientEventController`: `myReadline` takes a line from a client's connection, the XML reader
reports its tags, and `startElement` and `endElement` put the elements together. A root
element that ends is handled.
-/

namespace CaptureHPC

open Lib

/-- `myReadline`: the characters up to a newline or the end, null if there are none; and
what is left. -/
def myReadline (input : List Char) : Option (List Char) × List Char :=
  let val := input.takeWhile (· ≠ '\n')
  (if val = [] then none else some val, (input.dropWhile (· ≠ '\n')).drop 1)

/-! ## The XML reader -/

/-- What the XML reader reports. -/
inductive SaxEvent
  | startElement (name : String) (atts : List (String × String))
  | endElement

mutual

/-- The reports about an element. -/
def saxEvents : Xml.Tree String → List SaxEvent
  | .mk name atts children => .startElement name atts :: saxEventsList children ++ [.endElement]

def saxEventsList : List (Xml.Tree String) → List SaxEvent
  | [] => []
  | t :: ts => saxEvents t ++ saxEventsList ts

end

/-- `currentElement` and its parents, innermost first, and the elements handled. An element
is kept apart from its parent until it ends. -/
structure ClientEventController where
  currentElement : List Element := []
  handled : List Element := []

namespace ClientEventController

/-- `parent.childElements.add`. -/
def addChild (child : Element) : Element → Element
  | .mk name attributes childElements => .mk name attributes (childElements ++ [child])

def sax (s : ClientEventController) : SaxEvent → ClientEventController
  | .startElement name atts => { s with currentElement := .mk name atts [] :: s.currentElement }
  | .endElement =>
    match s.currentElement with
    | [] => s
    | [root] => { currentElement := [], handled := s.handled ++ [root] }
    | e :: parent :: rest => { s with currentElement := addChild e parent :: rest }

end ClientEventController

/-- The elements handled for a line, and whether it is well-formed. An element that does not
end is not handled. -/
def readXML (line : List Char) : List Element × Bool :=
  match Xml.parse line with
  | none => ([], false)
  | some (t, rest) =>
    (((saxEvents (t.map String.ofList)).foldl ClientEventController.sax {}).handled, Xml.isMisc rest.length rest)

/-! ## Elements as trees -/

mutual

/-- An element with its strings as the client's. -/
def Element.wide : Element → Xml.Tree WString
  | .mk name attributes childElements =>
    .mk (units name.toList) (attributes.map (Prod.map (units ·.toList) (units ·.toList))) (wideList childElements)

def Element.wideList : List Element → List (Xml.Tree WString)
  | [] => []
  | e :: es => Element.wide e :: Element.wideList es

end

mutual

/-- The element of a tree. -/
def Element.ofTree : Xml.Tree String → Element
  | .mk name attributes children => .mk name attributes (ofTreeList children)

def Element.ofTreeList : List (Xml.Tree String) → List Element
  | [] => []
  | t :: ts => Element.ofTree t :: Element.ofTreeList ts

end

namespace ClientEventController

mutual

/-- The reports about an element inside another one add it to that one. -/
theorem foldl_saxEvents (t : Xml.Tree String) (name : String) (atts : List (String × String)) (es rest : List Element)
    (hs : List Element) : (saxEvents t).foldl sax ⟨.mk name atts es :: rest, hs⟩ =
      ⟨.mk name atts (es ++ [Element.ofTree t]) :: rest, hs⟩ := by
  match t with
  | .mk n as children =>
    rw [saxEvents, List.cons_append, List.foldl_cons, List.foldl_append, sax,
      foldl_saxEventsList children n as [] (.mk name atts es :: rest) hs]
    rfl

theorem foldl_saxEventsList (ts : List (Xml.Tree String)) (name : String) (atts : List (String × String))
    (es rest : List Element) (hs : List Element) : (saxEventsList ts).foldl sax ⟨.mk name atts es :: rest, hs⟩ =
      ⟨.mk name atts (es ++ Element.ofTreeList ts) :: rest, hs⟩ := by
  match ts with
  | [] => rw [Element.ofTreeList, List.append_nil]; rfl
  | t :: ts =>
    rw [saxEventsList, List.foldl_append, foldl_saxEvents t, foldl_saxEventsList ts, List.append_assoc]
    rfl

end

/-- **The handler builds the tree that the reader reports.** -/
theorem handled_saxEvents (t : Xml.Tree String) : ((saxEvents t).foldl sax {}).handled = [Element.ofTree t] := by
  cases t with
  | mk n as children =>
    rw [saxEvents, List.cons_append, List.foldl_cons, List.foldl_append, sax,
      foldl_saxEventsList children n as [] [] []]
    rfl

end ClientEventController

mutual

/-- The strings of a tree, through the server's elements. -/
theorem wide_ofTree (t : Xml.Tree (List Char)) : (Element.ofTree (t.map String.ofList)).wide = t.map units := by
  match t with
  | .mk n as children =>
    rw [Xml.Tree.map, Element.ofTree, Element.wide, Xml.Tree.map, wideList_ofTreeList children, List.map_map]
    simp [Function.comp_def, Prod.map]

theorem wideList_ofTreeList (ts : List (Xml.Tree (List Char))) :
    Element.wideList (Element.ofTreeList (Xml.Tree.mapList String.ofList ts)) = Xml.Tree.mapList units ts := by
  match ts with
  | [] => rfl
  | t :: ts =>
    rw [Xml.Tree.mapList, Element.ofTreeList, Element.wideList, wide_ofTree t, wideList_ofTreeList ts, Xml.Tree.mapList]

end

end CaptureHPC
