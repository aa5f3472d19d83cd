import CaptureHPC.Proof.Escape
import CaptureHPC.Spec.EventController

/-!
# From the client's elements to the server's

`sendXML_arrives_iff`, `document_arrives_iff`: when the element that the server handles has
the strings of the one the client sent. `sendXML` escapes its attributes, up to where its loop
reaches; `Element::toString` does not.
-/

namespace CaptureHPC

open Lib

/-- What the client sends is one line, which is well-formed, and the one element handled for
it has the strings of the tree. -/
def Arrives (sent : WString) (t : Xml.Tree WString) : Prop :=
  ∃ line e, myReadline (ofUnits sent) = (some line, []) ∧ readXML line = ([e], true) ∧ e.wide = t

/-! ## The line -/

theorem myReadline_iff {body line : List Char} (hne : body ≠ []) :
    myReadline (body ++ ['\r', '\n']) = (some line, []) ↔ '\n' ∉ body ∧ line = body ++ ['\r'] := by
  by_cases h : '\n' ∈ body
  · refine iff_of_false (fun hread => ?_) fun hb => hb.1 h
    -- the line ends in the body, and something is left
    obtain ⟨pre, post, rfl, hpre⟩ := List.eq_append_cons_of_mem h
    obtain ⟨-, hdrop⟩ := Xml.takeWhile_append (p := (· ≠ '\n')) pre ('\n' :: (post ++ ['\r', '\n']))
      (fun c hc => by simpa using fun heq : c = '\n' => hpre (heq ▸ hc)) (by simp)
    have hrest := congrArg Prod.snd hread
    unfold myReadline at hrest
    rw [List.append_assoc, List.cons_append, hdrop] at hrest
    simp at hrest
  · obtain ⟨htake, hdrop⟩ := Xml.takeWhile_append (p := (· ≠ '\n')) (body ++ ['\r']) ['\n']
      (by
        intro c hc
        rcases List.mem_append.1 hc with hc | hc
        · simpa using fun heq : c = '\n' => h (heq ▸ hc)
        · rw [List.mem_singleton.1 hc]
          decide) (by simp)
    have hsplit : body ++ ['\r', '\n'] = body ++ ['\r'] ++ ['\n'] := by simp
    unfold myReadline
    rw [hsplit, htake, hdrop]
    dsimp only
    rw [if_neg (by simp)]
    constructor
    · intro heq
      cases heq
      exact ⟨h, rfl⟩
    · rintro ⟨-, rfl⟩
      rfl

/-- What arrives is what the XML reader makes of the text before the newline. -/
theorem arrives_iff {sent : WString} {body : List Char} {t : Xml.Tree WString} (hne : body ≠ [])
    (hsent : ofUnits sent = body ++ ['\r', '\n']) : Arrives sent t ↔ '\n' ∉ body ∧ ∃ s rest,
      Xml.parse (body ++ ['\r']) = some (s, rest) ∧ Xml.isMisc rest.length rest = true ∧ s.map units = t := by
  unfold Arrives
  rw [hsent]
  constructor
  · rintro ⟨line, e, hline, hread, rfl⟩
    obtain ⟨hnl, rfl⟩ := (myReadline_iff hne).1 hline
    refine ⟨hnl, ?_⟩
    unfold readXML at hread
    cases hp : Xml.parse (body ++ ['\r']) with
    | none =>
      rw [hp] at hread
      cases hread
    | some tr =>
      obtain ⟨s, rest⟩ := tr
      rw [hp] at hread
      dsimp only at hread
      rw [ClientEventController.handled_saxEvents, Prod.mk.injEq, List.cons.injEq] at hread
      obtain ⟨⟨rfl, -⟩, hmisc⟩ := hread
      exact ⟨s, rest, rfl, hmisc, (wide_ofTree s).symm⟩
  · rintro ⟨hnl, s, rest, hp, hmisc, rfl⟩
    refine ⟨_, Element.ofTree (s.map String.ofList), (myReadline_iff hne).2 ⟨hnl, rfl⟩, ?_, wide_ofTree s⟩
    unfold readXML
    rw [hp]
    dsimp only
    rw [ClientEventController.handled_saxEvents, hmisc]

/-! ## The text that is sent -/

namespace Cpp

theorem ofUnits_lit_append (s : String) (w : WString) : ofUnits (lit s ++ w) = s.toList ++ ofUnits w :=
  ofUnits_units_append s.toList w

theorem isLow_unitsOf (c : Char) : ∀ w ∈ (unitsOf c).head?, isLow w = false := by
  intro w hw
  unfold unitsOf at hw
  have hc := not_surrogate c
  dsimp only at hw
  split_ifs at hw with h
  · cases hw
    exact (unit_not_surrogate h).2
  · cases hw
    unfold isLow
    rw [toNat_ofNat (by omega)]
    simp
    omega

/-- A string, and a literal after it. -/
theorem ofUnits_append_lit (a : WString) {s : String} (hs : s.toList ≠ []) (w : WString) :
    ofUnits (a ++ (lit s ++ w)) = ofUnits a ++ (s.toList ++ ofUnits w) := by
  rw [ofUnits_append, ofUnits_lit_append]
  intro x hx
  unfold lit at hx
  cases hl : s.toList with
  | nil => exact absurd hl hs
  | cons c cs =>
    rw [hl, units_cons, List.append_assoc, List.head?_append_of_ne_nil _ (unitsOf_ne_nil c)] at hx
    exact isLow_unitsOf c x hx

/-- An attribute as it arrives, `f` being what is done to its value. -/
def written (f : WString → WString) (a : WString × WString) : Xml.Written := ⟨ofUnits a.1, ofUnits (f a.2)⟩

theorem ofUnits_attributes (f : WString → WString) (as : List (WString × WString)) (s : String)
    (w : WString) : ofUnits ((as.flatMap fun a => lit " " ++ a.1 ++ lit "=\"" ++ f a.2 ++ lit "\"") ++ (lit s ++ w)) =
      Xml.attributesText (as.map (written f)) ++ (s.toList ++ ofUnits w) := by
  induction as with
  | nil => exact ofUnits_lit_append s w
  | cons a as ih =>
    rw [List.flatMap_cons, List.map_cons, Xml.attributesText_cons, ← ih]
    simp only [List.append_assoc]
    rw [ofUnits_lit_append, ofUnits_append_lit _ (by decide), ofUnits_append_lit _ (by decide)]
    rfl

/-- A string that is a local XML name. -/
def IsXmlName (w : WString) : Prop := wellFormed w = true ∧ Xml.isName (ofUnits w) = true

instance (w : WString) : Decidable (IsXmlName w) := inferInstanceAs (Decidable (_ ∧ _))

/-- The names of attributes: distinct, and none declares a namespace. -/
def AttributeNames (names : List WString) : Prop :=
  names.Nodup ∧ ∀ n ∈ names, IsXmlName n ∧ n ≠ lit "xmlns"

instance (names : List WString) : Decidable (AttributeNames names) := inferInstanceAs (Decidable (_ ∧ _))

theorem ofUnits_injOn {a b : WString} (ha : wellFormed a = true) (hb : wellFormed b = true)
    (h : ofUnits a = ofUnits b) : a = b := by
  rw [← (units_ofUnits_iff a).2 ha, h, (units_ofUnits_iff b).2 hb]

theorem AttributeNames.namesOk {as : List (WString × WString)} (h : AttributeNames (as.map Prod.fst))
    (f : WString → WString) : Xml.NamesOk ((as.map (written f)).map Xml.Written.name) := by
  have hmap : (as.map (written f)).map Xml.Written.name = (as.map Prod.fst).map ofUnits := by
    rw [List.map_map, List.map_map]
    rfl
  rw [hmap]
  constructor
  · exact List.Nodup.map_on (fun a ha b hb hab => ofUnits_injOn (h.2 a ha).1.1 (h.2 b hb).1.1 hab) h.1
  · intro n hn
    obtain ⟨w, hw, rfl⟩ := List.mem_map.1 hn
    refine ⟨(h.2 w hw).1.2, fun heq => (h.2 w hw).2 ?_⟩
    rw [← (units_ofUnits_iff w).2 (h.2 w hw).1.1, heq]
    rfl

/-- The attributes that are to be read. -/
theorem zip_written (f : WString → WString) (as : List (WString × WString)) :
    ((as.map (written f)).map Xml.Written.name).zip (as.map fun a => ofUnits a.2) =
      as.map (Prod.map ofUnits ofUnits) := by
  induction as with
  | nil => rfl
  | cons a as ih =>
    simp only [List.map_cons, List.zip_cons_cons, ih]
    rfl

/-- The pairs of what is written and what is to be read. -/
theorem forall_zip_written {f : WString → WString} {as : List (WString × WString)} {P : Xml.Written → List Char → Prop} :
    (∀ p ∈ (as.map (written f)).zip (as.map fun a => ofUnits a.2), P p.1 p.2) ↔
      ∀ a ∈ as, P (written f a) (ofUnits a.2) := by
  induction as with
  | nil => simp
  | cons a as ih =>
    rw [List.map_cons, List.map_cons, List.zip_cons_cons, List.forall_mem_cons, List.forall_mem_cons, ih]

/-- Attributes whose strings are those of the client. -/
theorem map_units_iff {ps : List (List Char × List Char)} {as : List (WString × WString)} :
    ps.map (Prod.map units units) = as ↔
      ps = as.map (Prod.map ofUnits ofUnits) ∧ ∀ a ∈ as, wellFormed a.1 = true ∧ wellFormed a.2 = true := by
  constructor
  · rintro rfl
    constructor
    · rw [List.map_map]
      simp [Function.comp_def, Prod.map, ofUnits_units]
    · intro a ha
      obtain ⟨p, -, rfl⟩ := List.mem_map.1 ha
      constructor <;> rw [← units_ofUnits_iff] <;> exact congrArg units (ofUnits_units _)
  · rintro ⟨rfl, hwf⟩
    rw [List.map_map]
    conv_rhs => rw [← List.map_id as]
    refine List.map_congr_left fun a ha => ?_
    exact Prod.ext ((units_ofUnits_iff _).2 (hwf a ha).1) ((units_ofUnits_iff _).2 (hwf a ha).2)

/-! ## `sendXML` -/

namespace Server

/-- A value that `xml_escape` does right by, and that the reader keeps. -/
structure Escapable (v : WString) : Prop where
  wellFormed : wellFormed v = true
  kept : ∀ c ∈ ofUnits v, Xml.isKept c = true
  scanned : ∀ c ∈ unscanned v.length (ofUnits v), textEntity c = none

instance (v : WString) : Decidable (Escapable v) :=
  decidable_of_iff (CaptureHPC.wellFormed v = true ∧ (ofUnits v).all Xml.isKept = true ∧
      (unscanned v.length (ofUnits v)).all (fun c => (textEntity c).isNone) = true) <| by
    rw [List.all_eq_true, List.all_eq_true]
    simp only [Option.isNone_iff_eq_none]
    exact ⟨fun h => ⟨h.1, h.2.1, h.2.2⟩, fun h => ⟨h.wellFormed, h.kept, h.scanned⟩⟩

/-- The element arrives, and each value is escaped without markup and can be unescaped. -/
def Survives (elementName : WString) (vAttributes : List (WString × WString)) : Prop :=
  Arrives (sendXML elementName vAttributes) (.mk elementName vAttributes []) ∧
    ∀ a ∈ vAttributes, Xml.expand (ofUnits (xmlEscape a.2)) = some (ofUnits a.2) ∧
      markupFree (ofUnits (xmlEscape a.2)) = true

theorem reads_xmlEscape_iff (v : WString) :
    Xml.expand (ofUnits (xmlEscape v)) = some (ofUnits v) ∧ markupFree (ofUnits (xmlEscape v)) = true ↔
      (∀ c ∈ ofUnits v, Xml.isKept c = true) ∧ ∀ c ∈ unscanned v.length (ofUnits v), textEntity c = none := by
  rw [xmlEscape_eq, ofUnits_escapeUpTo]
  exact reads_escapeText_iff _ _

theorem kept_not_newline {cs : List Char} (h : ∀ c ∈ cs, Xml.isKept c = true) : '\n' ∉ cs := fun hn =>
  absurd (h _ hn) (by decide)

/-- An escaped text has no newline that the text did not have. -/
theorem newline_escapeText {k : ℕ} {cs : List Char} (h : '\n' ∉ cs) : '\n' ∉ escapeText k cs := by
  induction cs generalizing k with
  | nil => exact List.not_mem_nil
  | cons c cs ih =>
    rw [List.mem_cons, not_or] at h
    rw [escapeText]
    split_ifs with hk
    · rw [List.mem_cons, not_or]
      exact h
    · rw [List.mem_append, not_or]
      refine ⟨?_, ih h.2⟩
      unfold textEntity
      split_ifs
      all_goals first | (rw [Option.getD_some]; decide) | (rw [Option.getD_none, List.mem_singleton]; exact h.1)

theorem newline_name {s : List Char} (h : Xml.isName s = true) : '\n' ∉ s := fun hn =>
  absurd (Xml.isName_all h _ hn) (by decide)

/-- Attributes without newlines. -/
theorem newline_attributesText {as : List Xml.Written} (h : ∀ a ∈ as, '\n' ∉ a.name ∧ '\n' ∉ a.text) :
    '\n' ∉ Xml.attributesText as := by
  unfold Xml.attributesText
  rw [List.mem_flatMap]
  rintro ⟨a, ha, hn⟩
  obtain ⟨h1, h2⟩ := h a ha
  simp only [List.mem_cons, List.mem_append, List.not_mem_nil, or_false] at hn
  rcases hn with hn | hn | hn | hn | hn | hn
  · exact absurd hn (by decide)
  · exact h1 hn
  · exact absurd hn (by decide)
  · exact absurd hn (by decide)
  · exact h2 hn
  · exact absurd hn (by decide)

/-- **When `sendXML` delivers.** The element comes to the server with its attributes, each
escaped as it should be, exactly if every value is well-formed, has only characters that the
reader keeps, and is scanned to its last markup character. -/
theorem sendXML_survives_iff {elementName : WString} {vAttributes : List (WString × WString)}
    (hname : IsXmlName elementName) (hattrs : AttributeNames (vAttributes.map Prod.fst)) :
    Survives elementName vAttributes ↔ ∀ a ∈ vAttributes, Escapable a.2 := by
  have hsent : ofUnits (sendXML elementName vAttributes) =
      ('<' :: (ofUnits elementName ++ (Xml.attributesText (vAttributes.map (written xmlEscape)) ++ ['/', '>']))) ++
        ['\r', '\n'] := by
    unfold sendXML
    rw [List.append_assoc, List.append_assoc, ofUnits_lit_append]
    have hrest := ofUnits_attributes xmlEscape vAttributes "/>\r\n" []
    rw [List.append_nil] at hrest
    cases vAttributes with
    | nil =>
      have := ofUnits_append_lit elementName (s := "/>\r\n") (by decide) []
      rw [List.append_nil] at this
      rw [List.flatMap_nil, List.nil_append, this]
      simp [ofUnits, Xml.attributesText]
    | cons a as =>
      rw [List.flatMap_cons] at hrest ⊢
      simp only [List.append_assoc] at hrest ⊢
      rw [ofUnits_append_lit _ (by decide), ← ofUnits_lit_append, hrest]
      simp [ofUnits]
  have hlen : (vAttributes.map (written xmlEscape)).length = (vAttributes.map fun a => ofUnits a.2).length := by
    rw [List.length_map, List.length_map]
  have hnames := hattrs.namesOk xmlEscape
  have hparse : ∀ l, Xml.parse (('<' :: (ofUnits elementName ++
      (Xml.attributesText (vAttributes.map (written xmlEscape)) ++ ['/', '>']))) ++ l) =
      Xml.element (Xml.content ((ofUnits elementName ++
        (Xml.attributesText (vAttributes.map (written xmlEscape)) ++ ['/', '>'])) ++ l).length.succ)
      (ofUnits elementName ++ (Xml.attributesText (vAttributes.map (written xmlEscape)) ++ (Xml.closing true ++ l))) := by
    intro l
    rw [List.cons_append, Xml.parse, List.append_assoc, List.append_assoc]
    rfl
  unfold Survives
  rw [arrives_iff (List.cons_ne_nil _ _) hsent, hparse]
  constructor
  · rintro ⟨⟨-, s, rest, hp, -, hs⟩, hall⟩ a ha
    obtain ⟨hkept, hscanned⟩ := (reads_xmlEscape_iff a.2).1 (hall a ha)
    refine ⟨?_, hkept, hscanned⟩
    unfold Xml.element at hp
    obtain ⟨⟨n, ps, empty, r⟩, hstart, hp⟩ := Option.bind_eq_some_iff.1 hp
    dsimp only at hp
    have hattributes : ∀ n cs, s = Xml.Tree.mk n ps cs → wellFormed a.2 = true := by
      rintro n cs rfl
      rw [Xml.Tree.map, Xml.Tree.mk.injEq] at hs
      exact ((map_units_iff.1 hs.2.1).2 a ha).2
    cases empty with
    | true =>
      rw [if_pos rfl] at hp
      cases hp
      exact hattributes _ _ rfl
    | false =>
      rw [if_neg (by decide)] at hp
      obtain ⟨⟨cs, r1⟩, -, hp⟩ := Option.bind_eq_some_iff.1 hp
      obtain ⟨r2, -, hp⟩ := Option.bind_eq_some_iff.1 hp
      cases hp
      exact hattributes _ _ rfl
  · intro h
    have hreads : ∀ a ∈ vAttributes, Xml.expand (ofUnits (xmlEscape a.2)) = some (ofUnits a.2) ∧
        markupFree (ofUnits (xmlEscape a.2)) = true := fun a ha =>
      (reads_xmlEscape_iff a.2).2 ⟨(h a ha).kept, (h a ha).scanned⟩
    have hstart := Xml.startTag_of_reads hname.2 hlen hnames
      (forall_zip_written (P := fun w v => Xml.Reads w.text v) |>.2 fun a ha =>
        ⟨quote_of_markupFree (hreads a ha).2, (hreads a ha).1⟩) true ['\r']
    rw [zip_written] at hstart
    refine ⟨⟨?_, .mk (ofUnits elementName) (vAttributes.map (Prod.map ofUnits ofUnits)) [], ['\r'], ?_, rfl, ?_⟩, hreads⟩
    · rw [List.mem_cons, List.mem_append, List.mem_append, not_or, not_or, not_or]
      refine ⟨by decide, newline_name hname.2, newline_attributesText fun a ha => ?_, by decide⟩
      obtain ⟨b, hb, rfl⟩ := List.mem_map.1 ha
      refine ⟨newline_name (hattrs.2 _ (List.mem_map_of_mem hb)).1.2, ?_⟩
      show '\n' ∉ ofUnits (xmlEscape b.2)
      rw [xmlEscape_eq, ofUnits_escapeUpTo]
      exact newline_escapeText (kept_not_newline (h b hb).kept)
    · unfold Xml.element
      rw [hstart]
      rfl
    · rw [Xml.Tree.map, (units_ofUnits_iff _).2 hname.1, map_units_iff.2 ⟨rfl, fun a ha => ?_⟩]
      · rfl
      · exact ⟨(hattrs.2 _ (List.mem_map_of_mem ha)).1.1, (h a ha).wellFormed⟩

/-- An event about a file with an ampersand in its name. -/
theorem sendXML_survives_iff_ampersand : Survives (lit "system-event")
    [(lit "type", lit "file"), (lit "object1", lit "C:\\a&b.exe")] :=
  (sendXML_survives_iff (by decide) (by decide)).2 (by decide)

/-- **An ampersand is not escaped**: for `&&` the loop ends inside the first entity. -/
theorem ampersand_unescaped : ¬ Survives (lit "system-event") [(lit "object1", lit "&&")] := by
  rintro ⟨-, h⟩
  exact absurd (h _ List.mem_cons_self).2 (by decide)

end Server

end Cpp

end CaptureHPC
