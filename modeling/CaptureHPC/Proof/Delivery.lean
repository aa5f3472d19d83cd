import CaptureHPC.Proof.ElementTrip
import CaptureHPC.Spec.Upload

/-!
# Messages that arrive

* `sendXML_arrives`: a message of `sendXML` arrives if its values are escaped well.
* `document_arrives`: an element arrives if its values stand for themselves.
* `get_of_wide`: the server then finds each attribute by its name.
-/

namespace CaptureHPC

open Lib

namespace Cpp

namespace Server

/-- The text of a message that is sent. -/
theorem ofUnits_sendXML (elementName : WString) (vAttributes : List (WString × WString)) :
    ofUnits (sendXML elementName vAttributes) = ('<' :: (ofUnits elementName ++
      (Xml.attributesText (vAttributes.map (written xmlEscape)) ++ Xml.closing true))) ++ ['\r', '\n'] := by
  have hrest := ofUnits_attributes xmlEscape vAttributes "/>\r\n" []
  rw [List.append_nil] at hrest
  unfold sendXML
  rw [List.append_assoc, List.append_assoc, ofUnits_lit_append]
  cases vAttributes with
  | nil =>
    have hclose := ofUnits_append_lit elementName (s := "/>\r\n") (by decide) []
    rw [List.append_nil] at hclose
    rw [List.flatMap_nil, List.nil_append, hclose]
    simp [ofUnits, Xml.attributesText, Xml.closing]
  | cons a as =>
    rw [List.flatMap_cons] at hrest ⊢
    simp only [List.append_assoc] at hrest ⊢
    rw [ofUnits_append_lit _ (by decide), ← ofUnits_lit_append, hrest]
    simp [ofUnits, Xml.closing]

/-- **A message arrives** if its values are escaped well. -/
theorem sendXML_arrives {elementName : WString} {vAttributes : List (WString × WString)} (hname : IsXmlName elementName)
    (hattrs : AttributeNames (vAttributes.map Prod.fst)) (h : ∀ a ∈ vAttributes, Escapable a.2) :
    Arrives (sendXML elementName vAttributes) (.mk elementName vAttributes []) := by
  have hlen : (vAttributes.map (written xmlEscape)).length = (vAttributes.map fun a => ofUnits a.2).length := by
    rw [List.length_map, List.length_map]
  have hreads : ∀ a ∈ vAttributes, Xml.Reads (ofUnits (xmlEscape a.2)) (ofUnits a.2) := fun a ha => by
    obtain ⟨hexpand, hfree⟩ := (reads_xmlEscape_iff a.2).2 ⟨(h a ha).kept, (h a ha).scanned⟩
    exact ⟨quote_of_markupFree hfree, hexpand⟩
  have hstart := Xml.startTag_of_reads hname.2 hlen (hattrs.namesOk xmlEscape)
    (forall_zip_written (P := fun w v => Xml.Reads w.text v) |>.2 hreads) true ['\r']
  rw [zip_written] at hstart
  rw [arrives_iff (List.cons_ne_nil _ _) (ofUnits_sendXML elementName vAttributes)]
  refine ⟨?_, .mk (ofUnits elementName) (vAttributes.map (Prod.map ofUnits ofUnits)) [], ['\r'], ?_, rfl, ?_⟩
  · -- no name and no value has a newline
    rw [List.mem_cons, List.mem_append, List.mem_append, not_or, not_or, not_or]
    refine ⟨by decide, newline_name hname.2, newline_attributesText fun a ha => ?_, by decide⟩
    obtain ⟨b, hb, rfl⟩ := List.mem_map.1 ha
    refine ⟨newline_name (hattrs.2 _ (List.mem_map_of_mem hb)).1.2, ?_⟩
    show '\n' ∉ ofUnits (xmlEscape b.2)
    rw [xmlEscape_eq, ofUnits_escapeUpTo]
    exact newline_escapeText (kept_not_newline (h b hb).kept)
  · rw [List.cons_append, List.append_assoc, List.append_assoc, Xml.parse, Xml.element, hstart]
    rfl
  · rw [Xml.Tree.map, (units_ofUnits_iff _).2 hname.1, map_units_iff.2 ⟨rfl, fun a ha => ?_⟩]
    · rfl
    · exact ⟨(hattrs.2 _ (List.mem_map_of_mem ha)).1.1, (h a ha).wellFormed⟩

end Server

end Cpp

open Cpp

/-! ## The element that arrives -/

/-- The server finds an attribute by its name. -/
theorem get_of_wide {e : Element} {name : WString} {atts : List (WString × WString)}
    {children : List (Xml.Tree WString)} (h : e.wide = .mk name atts children) (key : String) :
    e.get key = (atts.lookup (lit key)).map text := by
  obtain ⟨n, as, es⟩ := e
  rw [Element.wide, Xml.Tree.mk.injEq] at h
  obtain ⟨-, rfl, -⟩ := h
  unfold Element.get
  dsimp only
  induction as with
  | nil => rfl
  | cons a as ih =>
    obtain ⟨k, v⟩ := a
    by_cases hk : key = k
    · subst hk
      have hvalue : text (units v.toList) = v := by rw [text, ofUnits_units, String.ofList_toList]
      show List.lookup key ((key, v) :: as) = Option.map text (List.lookup (lit key) ((lit key, units v.toList) :: _))
      rw [List.lookup_cons_self, List.lookup_cons_self, Option.map_some, hvalue]
    · have hne : (key == k) = false := beq_eq_false_iff_ne.2 hk
      have hunits : (lit key == units k.toList) = false := by
        rw [beq_eq_false_iff_ne]
        intro h
        have hchars := congrArg ofUnits h
        rw [lit, ofUnits_units, ofUnits_units, String.toList_inj] at hchars
        exact hk hchars
      rw [List.map_cons, List.lookup_cons, hne, List.lookup_cons]
      dsimp only [Prod.map_fst]
      rw [hunits]
      exact ih

end CaptureHPC
