import CaptureHPC.Spec.ClientUrl
import CaptureHPC.Spec.ElementText
import CaptureHPC.Spec.Receive
import CaptureHPC.Spec.SystemEvents

/-!
# A visit on the client

What the client makes of the documents of the server (`EventController::receiveServerEvent`,
`Visitor::onServerEvent` and `createUrl`), and the element in which it reports a visit (`toElement` of
`VisitEvent` and `Url`, with what `Analyzer::update` adds).

* The documents are of ASCII characters and well-formed.
* `Time::getCurrentTime` writes a time as `Time::timefieldToString` does.
-/

namespace CaptureHPC.Cpp

open Lib Sax FileUploader

mutual

/-- The content that begins with an element without text. -/
def contentOf : Xml.Tree WString → Content WString UInt8 → Content WString UInt8
  | .mk name atts children, rest => .element name atts (contentsOf children) rest

def contentsOf : List (Xml.Tree WString) → Content WString UInt8
  | [] => .done
  | t :: ts => contentOf t (contentsOf ts)

end

/-- The bytes of a text of ASCII characters. -/
def asciiBytes (cs : List Char) : List UInt8 := cs.map fun c => UInt8.ofNat c.toNat

/-- The elements that the listeners get for a document. -/
def EventController.receiveServerEvent (xmlDocument : List UInt8) : Option (List (Node WString UInt8)) :=
  match Xml.parse (xmlDocument.map fun b => charOf b.toNat) with
  | none => none
  | some (t, rest) =>
    if Xml.isMisc rest.length rest then
      ((contentOf (t.map units) .done).reports.foldlM EventController.sax {}).map EventController.notified
    else none

/-- A `Url`. -/
structure VisitUrl where
  url : WString := []
  program : WString := []
  visitTime : Int32 := 0
  processId : UInt32 := 0
  visited : Bool := false
  majorErrorCode : UInt32 := 0
  minorErrorCode : UInt32 := 0
  deriving DecidableEq

/-- A `VisitEvent` with its `Url`s. -/
structure UrlVisit where
  identifier : WString := []
  program : WString := []
  urls : List VisitUrl := []
  deriving DecidableEq

namespace Visitor

/-- `getAttributeValue`. -/
def getAttributeValue (attributes : List (WString × WString)) (name : String) : WString :=
  (attributes.lookup (lit name)).getD []

/-- The body of the loop of `createUrl`. -/
def readAttribute (u : VisitUrl) (a : WString × WString) : Option VisitUrl :=
  if a.1 = lit "url" then some { u with url := a.2 }
  else if a.1 = lit "program" then some { u with program := a.2 }
  else if a.1 = lit "time" then (lexicalCast a.2).map fun time => { u with visitTime := time }
  else some u

/-- `createUrl`; no result for a time that is no number. -/
def createUrl (attributes : List (WString × WString)) : Option VisitUrl :=
  (attributes.foldlM readAttribute {}).map fun u => { u with url := Url.decode u.url }

/-- The items of a visit-event. -/
def createUrls (program : WString) (visitTime : Int32) : List (Node WString UInt8) → Option (List VisitUrl)
  | [] => some []
  | .mk name attributes _ _ :: es => do
    if name = lit "item" then
      let u ← createUrl attributes
      let us ← createUrls program visitTime es
      some ({ u with program := program, visitTime := visitTime } :: us)
    else createUrls program visitTime es

/-- The visit of an element. -/
def visitOf : Node WString UInt8 → Option UrlVisit
  | .mk name attributes _ childElements =>
    if name = lit "visit-event" then do
      let program := getAttributeValue attributes "program"
      let visitTime ← lexicalCast (getAttributeValue attributes "time")
      let urls ← createUrls program visitTime childElements
      some ⟨getAttributeValue attributes "identifier", program, urls⟩
    else some {}

/-- `onServerEvent`. -/
def onServerEvent (toVisit : List UrlVisit) (element : Node WString UInt8) : Option (List UrlVisit) :=
  (visitOf element).map fun visitEvent => if visitEvent.urls.length > 0 then toVisit ++ [visitEvent] else toVisit

/-- The documents that are received. The visitor listens to visit-events. -/
def receive (toVisit : List UrlVisit) (documents : List (List UInt8)) : Option (List UrlVisit) :=
  documents.foldlM (fun toVisit xmlDocument =>
    (EventController.receiveServerEvent xmlDocument).bind fun elements =>
      elements.foldlM (fun toVisit e => if e.name = lit "visit-event" then onServerEvent toVisit e else some toVisit)
        toVisit) toVisit

end Visitor

/-- `boost::lexical_cast<std::wstring>` of a `bool`. -/
def flag (b : Bool) : WString := lit (if b then "1" else "0")

/-- `Url::toElement`. -/
def VisitUrl.toElement (u : VisitUrl) (currentTime : TimeFields) : Element :=
  .mk (lit "item")
    [(lit "url", Url.encode u.url), (lit "processId", decimal u.processId.toNat), (lit "program", u.program),
      (lit "major-error-code", decimal u.majorErrorCode.toNat), (lit "minor-error-code", decimal u.minorErrorCode.toNat),
      (lit "time", timefieldToString currentTime), (lit "visited", flag u.visited)] [] []

/-- What a report says besides the visit. Each item has the time at which it is written. -/
structure ReportData where
  algorithm : WString
  currentTime : TimeFields
  itemTimes : ℕ → TimeFields
  errorCode : Option UInt32
  type : WString
  malicious : Bool

/-- `VisitEvent::toElement`, and the attributes that `Analyzer::update` adds. -/
def UrlVisit.toElement (v : UrlVisit) (r : ReportData) : Element :=
  .mk (lit "visit-event")
    ([(lit "identifier", v.identifier), (lit "program", v.program), (lit "time", timefieldToString r.currentTime),
        (lit "algorithm", r.algorithm)] ++
      (r.errorCode.map fun code => (lit "error-code", decimal code.toInt32.toInt)).toList ++
      [(lit "type", r.type), (lit "malicious", flag r.malicious)])
    [] (v.urls.zipIdx.map fun u => u.1.toElement (r.itemTimes u.2))

end CaptureHPC.Cpp
