import CaptureHPC.Proof.Echo
import CaptureHPC.Proof.ElementText
import CaptureHPC.Proof.Evidence
import CaptureHPC.Proof.Framing
import CaptureHPC.Proof.SystemEvents
import CaptureHPC.Spec.Visits

/-!
# A visit, from the server to the client and back
-/

namespace CaptureHPC

open Lib Sax Cpp Cpp.FileUploader

/-! ## The document -/

/-- The text of an item. -/
def itemText (url : List Char) : List Char :=
  '<' :: ("item".toList ++ (Xml.attributesText [⟨"url".toList, url⟩] ++ Xml.closing true))

/-- The element of an item. -/
def itemTree (url : List Char) : Xml.Tree (List Char) := .mk "item".toList [("url".toList, url)] []

/-- The text of a visit-event. -/
def visitText (identifier program time : List Char) (urls : List (List Char)) : List Char :=
  '<' :: ("visit-event".toList ++ (Xml.attributesText [⟨"identifier".toList, identifier⟩, ⟨"program".toList, program⟩,
    ⟨"time".toList, time⟩] ++ (Xml.closing false ++ (urls.flatMap itemText ++ "</visit-event>".toList))))

/-- The element of a visit-event. -/
def visitTree (identifier program time : List Char) (urls : List (List Char)) : Xml.Tree (List Char) :=
  .mk "visit-event".toList [("identifier".toList, identifier), ("program".toList, program), ("time".toList, time)]
    (urls.map itemTree)

/-- A text that stands for itself between quotes. -/
def PlainText (cs : List Char) : Prop := ∀ c ∈ cs, Xml.isPlain c = true

theorem startTag_plain {name : List Char} (as : List Xml.Written) (hname : Xml.isName name = true)
    (hnames : Xml.NamesOk (as.map Xml.Written.name)) (hplain : ∀ a ∈ as, PlainText a.text) (empty : Bool)
    (rest : List Char) :
    Xml.startTag (name ++ (Xml.attributesText as ++ (Xml.closing empty ++ rest))) =
      some (name, as.map fun a => (a.name, a.text), empty, rest) := by
  have hlen : as.length = (as.map Xml.Written.text).length := (List.length_map _).symm
  have hreads : ∀ p ∈ as.zip (as.map Xml.Written.text), Xml.Reads p.1.text p.2 := by
    intro p hp
    rw [← List.map_prod_left_eq_zip, List.mem_map] at hp
    obtain ⟨a, ha, rfl⟩ := hp
    exact (Xml.reads_self_iff _).2 (hplain a ha)
  rw [Xml.startTag_of_reads hname hlen hnames hreads, List.zip_map']

theorem content_items {urls : List (List Char)} (h : ∀ url ∈ urls, PlainText url) {fuel : ℕ}
    (hfuel : urls.length < fuel) (rest : List Char) : Xml.content fuel (urls.flatMap itemText ++ '<' :: '/' :: rest) =
      some (urls.map itemTree, '<' :: '/' :: rest) := by
  induction urls generalizing fuel with
  | nil =>
    obtain ⟨k, rfl⟩ : ∃ k, fuel = k + 1 := ⟨fuel - 1, by omega⟩
    exact Xml.content_end k rest
  | cons url urls ih =>
    obtain ⟨k, rfl⟩ : ∃ k, fuel = k + 1 := ⟨fuel - 1, by omega⟩
    rw [List.length_cons] at hfuel
    have hrest := ih (fun v hv => h v (List.mem_cons_of_mem _ hv)) (show urls.length < k by omega)
    have hname : Xml.isName "item".toList = true := by decide
    have hnames : Xml.NamesOk ["url".toList] := ⟨by decide, by decide⟩
    have hstart := startTag_plain [⟨"url".toList, url⟩] hname hnames
      (by simpa using h url List.mem_cons_self) true (urls.flatMap itemText ++ '<' :: '/' :: rest)
    rw [List.flatMap_cons, itemText, List.cons_append, List.cons_append, List.append_assoc, List.append_assoc,
      List.append_assoc, Xml.content_element hname, Xml.element, hstart, Option.bind_eq_bind, Option.bind_some]
    dsimp only
    rw [if_pos rfl, Option.bind_some]
    dsimp only
    rw [hrest]
    rfl

/-- **The document is read.** -/
theorem parse_visitText {identifier program time : List Char} {urls : List (List Char)}
    (hidentifier : PlainText identifier) (hprogram : PlainText program) (htime : PlainText time)
    (hurls : ∀ url ∈ urls, PlainText url) :
    Xml.parse (visitText identifier program time urls) = some (visitTree identifier program time urls, []) := by
  have hname : Xml.isName "visit-event".toList = true := by decide
  have hnames : Xml.NamesOk ["identifier".toList, "program".toList, "time".toList] :=
    ⟨by decide, by decide⟩
  have hstart := startTag_plain [⟨"identifier".toList, identifier⟩, ⟨"program".toList, program⟩,
    ⟨"time".toList, time⟩] hname hnames (by simpa using ⟨hidentifier, hprogram, htime⟩) false
    (urls.flatMap itemText ++ "</visit-event>".toList)
  have hcontent := fun fuel (hfuel : urls.length < fuel) => content_items hurls hfuel "visit-event>".toList
  have hlength : ∀ us : List (List Char), us.length ≤ (us.flatMap itemText).length := by
    intro us
    induction us with
    | nil => exact Nat.le_refl 0
    | cons u us ih =>
      rw [List.flatMap_cons, List.length_append, List.length_cons, itemText, List.length_cons]
      omega
  rw [visitText, Xml.parse, Xml.element, hstart, Option.bind_eq_bind, Option.bind_some]
  dsimp only
  rw [if_neg (by decide)]
  rw [show "</visit-event>".toList = '<' :: '/' :: "visit-event>".toList from rfl, hcontent _ (by
    have := hlength urls
    simp only [List.length_append]
    omega)]
  rfl

/-! ## What the server sends -/

section sent

variable (s : UrlGroupsController) (g : ℕ)

/-- The texts of the URLs, as they are sent. -/
def escapedUrls : List (List Char) := (s.urlsOf g).map fun u => (s.urls.url u).escapedUrl.toList

theorem toList_toVisitEvent : (Client.toVisitEvent g s).toList = visitText (toString g).toList
    (s.group g).clientProgram.toList (intToString (s.group g).visitTime).toList (escapedUrls s g) := by
  unfold Client.toVisitEvent visitText escapedUrls UrlGroupsController.urlsOf
  simp only [String.toList_append, String.toList_join, List.flatMap_map]
  simp [Xml.attributesText, Xml.closing, itemText]

end sent

/-- What `URLEncoder` writes. -/
theorem encodeByte_plain {b : ℕ} (hb : b < 256) : ∀ c ∈ encodeByte b, Xml.isPlain c = true ∧ c.toNat < 128 := by
  have hunreserved : ∀ n < 256, isUnreserved n = true →
      Xml.isPlain (Char.ofNat n) = true ∧ (Char.ofNat n).toNat < 128 := by
    decide +kernel
  have hhex : ∀ n < 16, Xml.isPlain (hexDigit n) = true ∧ (hexDigit n).toNat < 128 := by decide
  unfold encodeByte
  split_ifs with h1 h2
  · simpa using hunreserved b hb h1
  · simp
    decide
  · simp only [escape, List.forall_mem_cons]
    exact ⟨by decide, hhex _ (by omega), hhex _ (by omega), fun _ h => absurd h List.not_mem_nil⟩

theorem urlEncode_plain (url : String) : ∀ c ∈ (urlEncode url).toList, Xml.isPlain c = true ∧ c.toNat < 128 := by
  intro c hc
  rw [urlEncode, String.toList_ofList, List.mem_flatMap] at hc
  obtain ⟨b, hb, hc⟩ := hc
  obtain ⟨x, -, hb⟩ := List.mem_flatMap.1 hb
  exact encodeByte_plain (utf8Encode_lt x b hb) c hc

/-! ## What the client gets -/

/-- Characters of one byte that is not NUL. -/
def Ascii (cs : List Char) : Prop := ∀ c ∈ cs, 0 < c.toNat ∧ c.toNat < 128

theorem Ascii.chars {cs : List Char} (h : Ascii cs) : (asciiBytes cs).map (fun b => charOf b.toNat) = cs := by
  unfold asciiBytes
  rw [List.map_map]
  refine (List.map_congr_left fun c hc => ?_).trans (List.map_id cs)
  have hlt := (h c hc).2
  rw [Function.comp_apply, UInt8.toNat_ofNat_of_lt' (show c.toNat < 256 by omega), charOf_toNat]
  rfl

theorem Ascii.not_mem {cs : List Char} (h : Ascii cs) : 0 ∉ asciiBytes cs := by
  intro hmem
  obtain ⟨c, hc, heq⟩ := List.mem_map.1 hmem
  have hpos := h c hc
  have hzero := congrArg UInt8.toNat heq
  rw [UInt8.toNat_ofNat_of_lt' (show c.toNat < 256 by omega), UInt8.toNat_zero] at hzero
  omega

theorem ascii_attributesText {as : List Xml.Written} (h : ∀ a ∈ as, Ascii a.name ∧ Ascii a.text) :
    Ascii (Xml.attributesText as) := by
  intro c hc
  obtain ⟨a, ha, hc⟩ := List.mem_flatMap.1 hc
  simp only [List.mem_cons, List.mem_append, List.not_mem_nil, or_false] at hc
  rcases hc with rfl | hc | rfl | rfl | hc | rfl
  · decide
  · exact (h a ha).1 c hc
  · decide
  · decide
  · exact (h a ha).2 c hc
  · decide

theorem Ascii.append {cs ds : List Char} (hc : Ascii cs) (hd : Ascii ds) : Ascii (cs ++ ds) :=
  List.forall_mem_append.2 ⟨hc, hd⟩

theorem Ascii.cons {c : Char} {cs : List Char} (hc : 0 < c.toNat ∧ c.toNat < 128) (h : Ascii cs) : Ascii (c :: cs) :=
  List.forall_mem_cons.2 ⟨hc, h⟩

theorem ascii_visitText {identifier program time : List Char} {urls : List (List Char)} (hidentifier : Ascii identifier)
    (hprogram : Ascii program) (htime : Ascii time) (hurls : ∀ url ∈ urls, Ascii url) :
    Ascii (visitText identifier program time urls) := by
  have hlits : Ascii "visit-event".toList ∧ Ascii "identifier".toList ∧ Ascii "program".toList ∧ Ascii "time".toList ∧
      Ascii "item".toList ∧ Ascii "url".toList ∧ Ascii "</visit-event>".toList ∧ Ascii (Xml.closing true) ∧
      Ascii (Xml.closing false) := by
    simp [Ascii, Xml.closing]
  obtain ⟨hevent, h1, h2, h3, hitem, hurl, hend, htrue, hfalse⟩ := hlits
  have hitems : Ascii (urls.flatMap itemText) := by
    intro c hc
    obtain ⟨url, hmem, hc⟩ := List.mem_flatMap.1 hc
    have hatts : Ascii (Xml.attributesText [⟨"url".toList, url⟩]) :=
      ascii_attributesText (by simpa using ⟨hurl, hurls url hmem⟩)
    exact Ascii.cons (by decide) (hitem.append (hatts.append htrue)) c hc
  have hatts : Ascii (Xml.attributesText [⟨"identifier".toList, identifier⟩, ⟨"program".toList, program⟩,
      ⟨"time".toList, time⟩]) :=
    ascii_attributesText (by simpa using ⟨⟨h1, hidentifier⟩, ⟨h2, hprogram⟩, h3, htime⟩)
  exact Ascii.cons (by decide) (hevent.append (hatts.append (hfalse.append (hitems.append hend))))

/-- The element of an item, as the client builds it. -/
def itemNode (url : List Char) : Node WString UInt8 := .mk (lit "item") [(lit "url", units url)] [] []

theorem contentsOf_items (urls : List (List Char)) :
    (contentsOf (Xml.Tree.mapList units (urls.map itemTree))).NoRepeat (lit "visit-event") ∧
      (contentsOf (Xml.Tree.mapList units (urls.map itemTree))).chunks = [] ∧
      (contentsOf (Xml.Tree.mapList units (urls.map itemTree))).nodes (latest id []) = urls.map itemNode := by
  induction urls with
  | nil => exact ⟨trivial, rfl, rfl⟩
  | cons url urls ih =>
    obtain ⟨hno, hchunks, hnodes⟩ := ih
    refine ⟨⟨by decide, trivial, hno⟩, hchunks, ?_⟩
    show itemNode url :: _ = _
    rw [List.map_cons]
    exact congrArg _ hnodes

/-- The element of a visit-event, as the client builds it. -/
def visitNode (identifier program time : List Char) (urls : List (List Char)) : Node WString UInt8 :=
  .mk (lit "visit-event")
    [(lit "identifier", units identifier), (lit "program", units program), (lit "time", units time)] []
    (urls.map itemNode)

/-- **The client builds the element.** -/
theorem receiveServerEvent_visitText {identifier program time : List Char} {urls : List (List Char)}
    (hidentifier : PlainText identifier ∧ Ascii identifier) (hprogram : PlainText program ∧ Ascii program)
    (htime : PlainText time ∧ Ascii time) (hurls : ∀ url ∈ urls, PlainText url ∧ Ascii url) :
    EventController.receiveServerEvent (asciiBytes (visitText identifier program time urls)) =
      some [visitNode identifier program time urls] := by
  have hascii := ascii_visitText hidentifier.2 hprogram.2 htime.2 fun url h => (hurls url h).2
  obtain ⟨hno, hchunks, hnodes⟩ := contentsOf_items urls
  have hrun := (EventController.document_iff (lit "visit-event") (by decide)
    [(lit "identifier", units identifier), (lit "program", units program), (lit "time", units time)]
    (contentsOf (Xml.Tree.mapList units (urls.map itemTree))) (latest id [])).2
    ⟨hno, rfl, (Content.nodes_eq_iff _).1 rfl⟩
  unfold EventController.receiveServerEvent
  rw [hascii.chars, parse_visitText hidentifier.1 hprogram.1 htime.1 fun url h => (hurls url h).1]
  show Option.map _ ((Content.element (lit "visit-event") _ _ .done).reports.foldlM EventController.sax {}) = _
  rw [hnodes, hchunks] at hrun
  refine (congrArg _ hrun).trans ?_
  rfl

/-- A number is written in characters that stand for themselves. -/
theorem plain_toString (n : ℤ) : PlainText (toString n).toList ∧ Ascii (toString n).toList := by
  have hall : ∀ k < 58, 45 ≤ k → Xml.isPlain (Char.ofNat k) = true := by decide
  obtain ⟨m, hm⟩ := toString_chars n
  have hchars : ∀ c ∈ (toString n).toList, 45 ≤ c.toNat ∧ c.toNat ≤ 57 := by
    intro c hc
    rw [hm, List.mem_append] at hc
    rcases hc with hc | hc
    · split_ifs at hc
      · rw [List.mem_singleton.1 hc]
        decide
      · exact absurd hc List.not_mem_nil
    · have hdigit := Decimal.isDigit_bounds (Nat.isDigit_of_mem_toDigits (by decide) (by decide) hc)
      omega
  refine ⟨fun c hc => ?_, fun c hc => ?_⟩
  · obtain ⟨hlow, hhigh⟩ := hchars c hc
    have := hall c.toNat (by omega) hlow
    rwa [Char.ofNat_toNat] at this
  · have := hchars c hc
    omega

/-- The visit of a visit-event. -/
def visitFor (identifier program : List Char) (visitTime : Int32) (urls : List (List Char)) : UrlVisit :=
  ⟨units identifier, units program, urls.map fun url =>
    { url := Cpp.Url.decode (units url), program := units program, visitTime := visitTime }⟩

theorem createUrls_items (program : WString) (visitTime : Int32) (urls : List (List Char)) :
    Visitor.createUrls program visitTime (urls.map itemNode) = some (urls.map fun url =>
      { url := Cpp.Url.decode (units url), program := program, visitTime := visitTime }) := by
  induction urls with
  | nil => rfl
  | cons url urls ih =>
    have hurl : Visitor.createUrl [(lit "url", units url)] = some { url := Cpp.Url.decode (units url) } := rfl
    rw [List.map_cons, itemNode, Visitor.createUrls, if_pos rfl, hurl, ih]
    rfl

/-- **The client makes the visit.** -/
theorem receive_visitText (toVisit : List UrlVisit) {identifier program : List Char} {visitTime : Int32}
    {urls : List (List Char)} (hidentifier : PlainText identifier ∧ Ascii identifier)
    (hprogram : PlainText program ∧ Ascii program) (hurls : ∀ url ∈ urls, PlainText url ∧ Ascii url) (hne : urls ≠ []) :
    Visitor.receive toVisit [asciiBytes (visitText identifier program (intToString visitTime).toList urls)] =
      some (toVisit ++ [visitFor identifier program visitTime urls]) := by
  have htime : PlainText (intToString visitTime).toList ∧ Ascii (intToString visitTime).toList :=
    plain_toString visitTime.toInt
  have hcast : lexicalCast (units (intToString visitTime).toList) = some visitTime := by
    exact (lexicalCast_toString visitTime.toInt).trans (parseInt_intToString visitTime)
  have hvisit : Visitor.visitOf (visitNode identifier program (intToString visitTime).toList urls) =
      some (visitFor identifier program visitTime urls) := by
    rw [visitNode, Visitor.visitOf, if_pos rfl]
    show (lexicalCast (units (intToString visitTime).toList)).bind _ = _
    rw [hcast, Option.bind_some]
    show (Visitor.createUrls (units program) visitTime (urls.map itemNode)).bind _ = _
    rw [createUrls_items]
    rfl
  have hserver : Visitor.onServerEvent toVisit (visitNode identifier program (intToString visitTime).toList urls) =
      some (toVisit ++ [visitFor identifier program visitTime urls]) := by
    have hpos : (visitFor identifier program visitTime urls).urls.length > 0 := by
      rw [visitFor, List.length_map]
      exact List.length_pos_iff_ne_nil.2 hne
    rw [Visitor.onServerEvent, hvisit, Option.map_some, if_pos hpos]
  have hname : (visitNode identifier program (intToString visitTime).toList urls).name = lit "visit-event" := rfl
  unfold Visitor.receive
  rw [List.foldlM_cons, receiveServerEvent_visitText hidentifier hprogram htime hurls, Option.bind_some,
    List.foldlM_cons, if_pos hname, hserver]
  rfl

end CaptureHPC
