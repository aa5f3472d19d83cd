import CaptureHPC.Proof.Trip

/-!
# Whole elements

`Element::toString` writes the attributes and the data of every level as they are.

* The text of an element is read as an element of the same strings if every value stands for itself between quotes and
  the data is text without elements (`element_of_values`).
* Conversely, when no data has a tag (`reads_element`, by recursion over the element and the text that follows it). Data
  that has one makes more tags than are read, unless a comment or the like hides some (`noMarkup_of_arrives`).
-/

namespace CaptureHPC.Cpp

open Lib

namespace Element

/-! ## What holds on every level -/

mutual

/-- A property of the name, the attributes and the data of every level. -/
def All (P : WString → List (WString × WString) → List UInt8 → Prop) : Element → Prop
  | .mk name attributes data childElements => P name attributes data ∧ AllList P childElements

def AllList (P : WString → List (WString × WString) → List UInt8 → Prop) : List Element → Prop
  | [] => True
  | e :: es => All P e ∧ AllList P es

end

mutual

/-- The strings of an element. -/
def tree : Element → Xml.Tree WString
  | .mk name attributes _ childElements => .mk name attributes (treeList childElements)

def treeList : List Element → List (Xml.Tree WString)
  | [] => []
  | e :: es => tree e :: treeList es

end

/-- Local XML names, and the attributes of an element have different ones. -/
def NamesOk : Element → Prop := All fun name attributes _ =>
  IsXmlName name ∧ AttributeNames (attributes.map Prod.fst)

/-- Data that is text of one line, as base64 is. -/
def DataOk : Element → Prop := All fun _ _ data =>
  Xml.IsText (ofUnits (dataString data)) ∧ '\n' ∉ ofUnits (dataString data)

/-- Data without tags and other markup. -/
def NoMarkup : Element → Prop := All fun _ _ data => '<' ∉ ofUnits (dataString data)

/-- Nothing starts a comment, a CDATA section or a processing instruction. -/
def NoDeclarations : Element → Prop := All fun _ attributes data =>
  (∀ a ∈ attributes, Xml.noDeclaration (ofUnits a.2) = true) ∧ Xml.noDeclaration (ofUnits (dataString data)) = true

/-- A value that stands for itself. -/
def Literal (v : WString) : Prop := wellFormed v = true ∧ ∀ c ∈ ofUnits v, Xml.isPlain c = true

instance (v : WString) : Decidable (Literal v) :=
  decidable_of_iff (wellFormed v = true ∧ (ofUnits v).all Xml.isPlain = true) (by rw [List.all_eq_true]; rfl)

def ValuesOk : Element → Prop := All fun _ attributes _ => ∀ a ∈ attributes, Literal a.2

/-! ## The text of an element -/

/-- The attributes as they are written. -/
def attributesOf (attributes : List (WString × WString)) : List Xml.Written := attributes.map (written fun v => v)

/-- The end of an element. -/
def ending (name : WString) (data : List UInt8) (rest : List Char) : List Char :=
  ofUnits (dataString data) ++ '<' :: '/' :: (ofUnits name ++ '>' :: rest)

mutual

/-- The text of an element after its `<`, and what follows it. -/
def textThen : Element → List Char → List Char
  | .mk name attributes data childElements, rest =>
    ofUnits name ++ (Xml.attributesText (attributesOf attributes) ++
      (Xml.closing false ++ textListThen childElements (ending name data rest)))

def textListThen : List Element → List Char → List Char
  | [], rest => rest
  | e :: es, rest => '<' :: textThen e (textListThen es rest)

end

mutual

theorem ofUnits_toString (e : Element) (w : WString) :
    ofUnits (toStringWithoutNewLine e ++ w) = '<' :: textThen e (ofUnits w) := by
  match e with
  | .mk name attributes data childElements =>
    have hend : ofUnits (dataString data ++ (lit "</" ++ (name ++ (lit ">" ++ w)))) = ending name data (ofUnits w) := by
      rw [ofUnits_append_lit _ (by decide), ofUnits_append_lit _ (by decide)]
      rfl
    have hattrs := ofUnits_attributes (fun v => v) attributes ">"
      (childrenString childElements ++ (dataString data ++ (lit "</" ++ (name ++ (lit ">" ++ w)))))
    rw [ofUnits_childrenString, hend] at hattrs
    rw [toStringWithoutNewLine, textThen]
    simp only [List.append_assoc]
    rw [ofUnits_lit_append]
    cases attributes with
    | nil =>
      rw [attributesString, List.flatMap_nil, List.nil_append, ofUnits_append_lit _ (by decide),
        ofUnits_childrenString, hend]
      rfl
    | cons a as =>
      rw [attributesString]
      rw [List.flatMap_cons] at hattrs ⊢
      simp only [List.append_assoc] at hattrs ⊢
      rw [ofUnits_append_lit _ (by decide), ← ofUnits_lit_append, hattrs]
      rfl

theorem ofUnits_childrenString (es : List Element) (w : WString) :
    ofUnits (childrenString es ++ w) = textListThen es (ofUnits w) := by
  match es with
  | [] => rfl
  | e :: es => rw [childrenString, List.append_assoc, ofUnits_toString e, ofUnits_childrenString es, textListThen]

end

/-! ## Values that are read -/

theorem fits_written (a : WString × WString) : Xml.Fits (written (fun v => v) a) (ofUnits a.2) :=
  .inr (Nat.le_refl _)

theorem length_attributesOf (attributes : List (WString × WString)) :
    (attributesOf attributes).length = (attributes.map fun a => ofUnits a.2).length := by
  rw [attributesOf, List.length_map, List.length_map]

/-- A start tag that is read with the attributes of the element. -/
theorem literal_of_startTag {name : WString} {attributes : List (WString × WString)} (hname : IsXmlName name)
    (hattrs : AttributeNames (attributes.map Prod.fst)) {rest r n : List Char} {ps : List (List Char × List Char)}
    {empty : Bool} (h : Xml.startTag (ofUnits name ++ (Xml.attributesText (attributesOf attributes) ++
      (Xml.closing false ++ rest))) = some (n, ps, empty, r)) (hps : ps.map (Prod.map units units) = attributes) :
    (∀ a ∈ attributes, Literal a.2) ∧ n = ofUnits name ∧ empty = false ∧ r = rest := by
  obtain ⟨rfl, hwf⟩ := map_units_iff.1 hps
  rw [← zip_written (fun v => v)] at h
  obtain ⟨hreads, hrest⟩ := Xml.reads_of_startTag hname.2 (length_attributesOf attributes)
    (hattrs.namesOk fun v => v)
    (forall_zip_written (P := fun w v => Xml.Fits w v) |>.2 fun a _ => fits_written a) h
  refine ⟨fun a ha => ⟨(hwf a ha).2, ?_⟩, hrest⟩
  exact (Xml.reads_self_iff _).1 ((forall_zip_written (P := fun w v => Xml.Reads w.text v)).1 hreads a ha)

/-- The data is of one line if the text is. -/
theorem newline_ending {name : WString} {data : List UInt8} {rest : List Char} (h : '\n' ∉ ending name data rest) :
    '\n' ∉ ofUnits (dataString data) := fun hmem => h (List.mem_append_left _ hmem)

mutual

theorem textThen_suffix (e : Element) (rest : List Char) : rest <:+ textThen e rest := by
  match e with
  | .mk name attributes data childElements =>
    have hend : rest <:+ ending name data rest :=
      ⟨ofUnits (dataString data) ++ '<' :: '/' :: (ofUnits name ++ ['>']), by simp [ending]⟩
    rw [textThen]
    refine ((hend.trans (textListThen_suffix childElements _)).trans ?_)
    exact ((List.suffix_append _ _).trans (List.suffix_append _ _)).trans (List.suffix_append _ _)

theorem textListThen_suffix (es : List Element) (rest : List Char) : rest <:+ textListThen es rest := by
  match es with
  | [] => exact List.suffix_refl _
  | e :: es =>
    rw [textListThen]
    exact ((textListThen_suffix es rest).trans (textThen_suffix e _)).trans (List.suffix_cons _ _)

end

theorem newline_textThen_rest {e : Element} {rest : List Char} (h : '\n' ∉ textThen e rest) : '\n' ∉ rest :=
  fun hmem => h ((textThen_suffix e rest).subset hmem)

theorem textThen_name {e : Element} (hn : NamesOk e) (rest : List Char) :
    ∃ n l, Xml.isName n = true ∧ textThen e rest = n ++ l := by
  cases e with
  | mk name attributes data childElements => exact ⟨_, _, hn.1.1.2, rfl⟩

mutual

/-- **A text that is read as its element** has values that stand for themselves, and data that is text. -/
theorem reads_element (e : Element) (hn : NamesOk e) (hm : NoMarkup e) {fuel : ℕ} {rest r : List Char}
    (hline : '\n' ∉ textThen e rest) {t : Xml.Tree (List Char)}
    (h : Xml.element (Xml.content fuel) (textThen e rest) = some (t, r)) (ht : t.map units = e.tree) :
    (ValuesOk e ∧ DataOk e) ∧ r = rest := by
  match e with
  | .mk name attributes data childElements =>
    obtain ⟨⟨hname, hattrs⟩, hns⟩ := hn
    obtain ⟨hmarkup, hms⟩ := hm
    rw [textThen] at h hline
    simp only [List.mem_append, not_or] at hline
    unfold Xml.element at h
    obtain ⟨⟨n, ps, empty, r1⟩, hstart, h⟩ := Option.bind_eq_some_iff.1 h
    dsimp only at h
    cases empty with
    | true =>
      -- the tag that was written is not that of an empty element
      rw [if_pos rfl] at h
      cases h
      rw [Xml.Tree.map, tree, Xml.Tree.mk.injEq] at ht
      cases (literal_of_startTag hname hattrs hstart ht.2.1).2.2.1
    | false =>
      rw [if_neg (by decide)] at h
      obtain ⟨⟨ts, r2⟩, hcontent, h⟩ := Option.bind_eq_some_iff.1 h
      obtain ⟨r3, hend, h⟩ := Option.bind_eq_some_iff.1 h
      cases h
      rw [Xml.Tree.map, tree, Xml.Tree.mk.injEq] at ht
      -- the start tag was read to its end, so the children are read from theirs
      obtain ⟨hvalues, rfl, -, rfl⟩ := literal_of_startTag hname hattrs hstart ht.2.1
      obtain ⟨hall, hdata, rfl⟩ := reads_list childElements hns hms hmarkup hline.2.2.2 hcontent ht.2.2
      rw [Xml.endTag_name] at hend
      cases hend
      exact ⟨⟨⟨hvalues, hall.1⟩, hdata, hall.2⟩, rfl⟩

theorem reads_list (es : List Element) (hn : AllList (fun name attributes _ =>
      IsXmlName name ∧ AttributeNames (attributes.map Prod.fst)) es)
    (hm : AllList (fun _ _ data => '<' ∉ ofUnits (dataString data)) es)
    {name : WString} {data : List UInt8} (hdata : '<' ∉ ofUnits (dataString data)) {fuel : ℕ} {rest r : List Char}
    (hline : '\n' ∉ textListThen es (ending name data rest)) {ts : List (Xml.Tree (List Char))}
    (h : Xml.content fuel (textListThen es (ending name data rest)) = some (ts, r))
    (ht : Xml.Tree.mapList units ts = treeList es) :
    (AllList (fun _ attributes _ => ∀ a ∈ attributes, Literal a.2) es ∧
        AllList (fun _ _ data => Xml.IsText (ofUnits (dataString data)) ∧ '\n' ∉ ofUnits (dataString data)) es) ∧
      (Xml.IsText (ofUnits (dataString data)) ∧ '\n' ∉ ofUnits (dataString data)) ∧
      r = '<' :: '/' :: (ofUnits name ++ '>' :: rest) := by
  match es with
  | [] =>
    obtain ⟨htext, -, hr⟩ := Xml.text_of_content hdata h
    exact ⟨⟨trivial, trivial⟩, ⟨htext _ (Nat.le_refl _), newline_ending hline⟩, hr⟩
  | e :: es =>
    cases fuel with
    | zero => cases h
    | succ fuel =>
      obtain ⟨hne, hnes⟩ := hn
      obtain ⟨hme, hmes⟩ := hm
      rw [textListThen] at h hline
      rw [List.mem_cons, not_or] at hline
      obtain ⟨n, l, hname, hl⟩ := textThen_name hne (textListThen es (ending name data rest))
      rw [hl, Xml.content_element hname, ← hl] at h
      obtain ⟨⟨t, r1⟩, hfirst, h⟩ := Option.bind_eq_some_iff.1 h
      obtain ⟨⟨ts', r2⟩, hrest, heq⟩ := Option.map_eq_some_iff.1 h
      cases heq
      rw [Xml.Tree.mapList, treeList, List.cons.injEq] at ht
      obtain ⟨⟨hvalues, hdatas⟩, rfl⟩ := reads_element e hne hme hline.2 hfirst ht.1
      obtain ⟨hall, hok, rfl⟩ := reads_list es hnes hmes hdata (newline_textThen_rest hline.2) hrest ht.2
      exact ⟨⟨⟨hvalues, hall.1⟩, hdatas, hall.2⟩, hok, rfl⟩

end

/-! ## Values that stand for themselves -/

theorem length_textThen (e : Element) (rest : List Char) : rest.length ≤ (textThen e rest).length :=
  (textThen_suffix e rest).length_le

theorem startTag_of_literal {name : WString} {attributes : List (WString × WString)} (hname : IsXmlName name)
    (hattrs : AttributeNames (attributes.map Prod.fst)) (hvalues : ∀ a ∈ attributes, Literal a.2) (rest : List Char) :
    Xml.startTag (ofUnits name ++ (Xml.attributesText (attributesOf attributes) ++ (Xml.closing false ++ rest))) =
      some (ofUnits name, attributes.map (Prod.map ofUnits ofUnits), false, rest) := by
  rw [← zip_written (fun v => v)]
  refine Xml.startTag_of_reads hname.2 (length_attributesOf attributes) (hattrs.namesOk fun v => v) ?_ false rest
  exact (forall_zip_written (P := fun w v => Xml.Reads w.text v)).2 fun a ha =>
    (Xml.reads_self_iff _).2 (hvalues a ha).2

mutual

/-- **An element whose values stand for themselves is read.** -/
theorem element_of_values (e : Element) (hn : NamesOk e) (hd : DataOk e) (hv : ValuesOk e) {fuel : ℕ}
    {rest : List Char} (hfuel : (textThen e rest).length ≤ fuel) :
    Xml.element (Xml.content fuel) (textThen e rest) = some (e.tree.map ofUnits, rest) := by
  match e with
  | .mk name attributes data childElements =>
    obtain ⟨⟨hname, hattrs⟩, hns⟩ := hn
    obtain ⟨⟨hdata, -⟩, hds⟩ := hd
    obtain ⟨hvalues, hvs⟩ := hv
    rw [textThen] at hfuel ⊢
    have hlist := list_of_values childElements hns hds hvs name hdata rest fuel
      (by simp only [List.length_append] at hfuel; omega)
    unfold Xml.element
    rw [startTag_of_literal hname hattrs hvalues, Option.bind_eq_bind, Option.bind_some]
    dsimp only
    rw [if_neg (by decide), hlist, Option.bind_eq_bind, Option.bind_some]
    dsimp only
    rw [Xml.endTag_name]
    rfl

theorem list_of_values (es : List Element) (hn : AllList (fun name attributes _ =>
      IsXmlName name ∧ AttributeNames (attributes.map Prod.fst)) es)
    (hd : AllList (fun _ _ data => Xml.IsText (ofUnits (dataString data)) ∧ '\n' ∉ ofUnits (dataString data)) es)
    (hv : AllList (fun _ attributes _ => ∀ a ∈ attributes, Literal a.2) es)
    (name : WString) {data : List UInt8} (hdata : Xml.IsText (ofUnits (dataString data))) (rest : List Char) (fuel : ℕ)
    (hfuel : (textListThen es (ending name data rest)).length ≤ fuel) :
    Xml.content fuel (textListThen es (ending name data rest)) =
      some (Xml.Tree.mapList ofUnits (treeList es), '<' :: '/' :: (ofUnits name ++ '>' :: rest)) := by
  match es with
  | [] =>
    rw [textListThen, ending] at hfuel ⊢
    rw [List.length_append, List.length_cons] at hfuel
    obtain ⟨k, hk, hcontent⟩ := Xml.content_text hdata
    obtain ⟨m, rfl⟩ : ∃ m, fuel = m + 1 + k := ⟨fuel - 1 - k, by omega⟩
    rw [hcontent, Xml.content_end]
    rfl
  | e :: es =>
    obtain ⟨hne, hnes⟩ := hn
    obtain ⟨hde, hdes⟩ := hd
    obtain ⟨hve, hves⟩ := hv
    obtain ⟨n, l, hname, hl⟩ := textThen_name hne (textListThen es (ending name data rest))
    rw [textListThen] at hfuel ⊢
    rw [List.length_cons] at hfuel
    obtain ⟨k, rfl⟩ : ∃ k, fuel = k + 1 := ⟨fuel - 1, by omega⟩
    have hlength := length_textThen e (textListThen es (ending name data rest))
    rw [hl, Xml.content_element hname, ← hl, element_of_values e hne hde hve (by omega), Option.bind_some]
    dsimp only
    rw [list_of_values es hnes hdes hves _ hdata _ _ (by omega)]
    rfl

end

/-! ## The line -/

mutual

theorem textThen_append (e : Element) (as bs : List Char) : textThen e (as ++ bs) = textThen e as ++ bs := by
  match e with
  | .mk name attributes data childElements =>
    have h := textListThen_append childElements (ending name data as) bs
    rw [textThen, textThen]
    simp only [ending, List.append_assoc, List.cons_append] at h ⊢
    rw [h]

theorem textListThen_append (es : List Element) (as bs : List Char) :
    textListThen es (as ++ bs) = textListThen es as ++ bs := by
  match es with
  | [] => rfl
  | e :: es =>
    rw [textListThen, textListThen, textListThen_append es, textThen_append e, List.cons_append]

end

theorem newline_literal {v : WString} (h : Literal v) : '\n' ∉ ofUnits v := fun hn =>
  absurd (h.2 _ hn) (by decide)

mutual

theorem newline_textThen (e : Element) (hn : NamesOk e) (hd : DataOk e) (hv : ValuesOk e) {rest : List Char}
    (hrest : '\n' ∉ rest) : '\n' ∉ textThen e rest := by
  match e with
  | .mk name attributes data childElements =>
    obtain ⟨⟨hname, hattrs⟩, hns⟩ := hn
    obtain ⟨⟨-, hdata⟩, hds⟩ := hd
    obtain ⟨hvalues, hvs⟩ := hv
    have hattributes : '\n' ∉ Xml.attributesText (attributesOf attributes) := by
      refine Server.newline_attributesText fun a ha => ?_
      obtain ⟨b, hb, rfl⟩ := List.mem_map.1 ha
      exact ⟨Server.newline_name (hattrs.2 _ (List.mem_map_of_mem hb)).1.2, newline_literal (hvalues b hb)⟩
    have hending : '\n' ∉ ending name data rest := by
      unfold ending
      simp only [List.mem_append, List.mem_cons, not_or]
      exact ⟨hdata, by decide, by decide, Server.newline_name hname.2, by decide, hrest⟩
    have hlist := newline_textListThen childElements hns hds hvs hending
    rw [textThen]
    simp only [List.mem_append, not_or]
    exact ⟨Server.newline_name hname.2, hattributes, by decide, hlist⟩

theorem newline_textListThen (es : List Element) (hn : AllList (fun name attributes _ =>
      IsXmlName name ∧ AttributeNames (attributes.map Prod.fst)) es)
    (hd : AllList (fun _ _ data => Xml.IsText (ofUnits (dataString data)) ∧ '\n' ∉ ofUnits (dataString data)) es)
    (hv : AllList (fun _ attributes _ => ∀ a ∈ attributes, Literal a.2) es) {rest : List Char}
    (hrest : '\n' ∉ rest) : '\n' ∉ textListThen es rest := by
  match es with
  | [] => exact hrest
  | e :: es =>
    rw [textListThen, List.mem_cons, not_or]
    exact ⟨by decide, newline_textThen e hn.1 hd.1 hv.1 (newline_textListThen es hn.2 hd.2 hv.2 hrest)⟩

end

mutual

/-- Well-formed strings come back. -/
theorem map_tree (e : Element) (hn : NamesOk e) (hv : ValuesOk e) : (e.tree.map ofUnits).map units = e.tree := by
  match e with
  | .mk name attributes data childElements =>
    obtain ⟨⟨hname, hattrs⟩, hns⟩ := hn
    obtain ⟨hvalues, hvs⟩ := hv
    rw [tree, Xml.Tree.map, Xml.Tree.map, (units_ofUnits_iff name).2 hname.1, map_treeList childElements hns hvs,
      map_units_iff.2 ⟨rfl, fun a ha => ⟨(hattrs.2 _ (List.mem_map_of_mem ha)).1.1, (hvalues a ha).1⟩⟩]

theorem map_treeList (es : List Element) (hn : AllList (fun name attributes _ =>
      IsXmlName name ∧ AttributeNames (attributes.map Prod.fst)) es)
    (hv : AllList (fun _ attributes _ => ∀ a ∈ attributes, Literal a.2) es) :
    Xml.Tree.mapList units (Xml.Tree.mapList ofUnits (treeList es)) = treeList es := by
  match es with
  | [] => rfl
  | e :: es =>
    rw [treeList, Xml.Tree.mapList, Xml.Tree.mapList, map_tree e hn.1 hv.1, map_treeList es hn.2 hv.2]

end

theorem ofUnits_document (e : Element) : ofUnits e.document = ('<' :: textThen e []) ++ ['\r', '\n'] := by
  rw [document, ofUnits_toString, List.cons_append, ← textThen_append, List.nil_append]
  rfl

theorem parse_document (e : Element) : Xml.parse ('<' :: textThen e [] ++ ['\r']) =
    Xml.element (Xml.content ((textThen e ['\r']).length + 1)) (textThen e ['\r']) := by
  rw [List.cons_append, ← textThen_append, List.nil_append]
  rfl

/-- **An element arrives** if its values stand for themselves and its data is text. -/
theorem document_arrives {e : Element} (hn : NamesOk e) (hd : DataOk e) (hv : ValuesOk e) :
    Arrives e.document e.tree := by
  rw [arrives_iff (List.cons_ne_nil _ _) (ofUnits_document e), parse_document]
  refine ⟨?_, e.tree.map ofUnits, ['\r'], element_of_values e hn hd hv (Nat.le_succ _), rfl, map_tree e hn hv⟩
  rw [List.mem_cons, not_or]
  exact ⟨by decide, newline_textThen e hn hd hv List.not_mem_nil⟩

/-! ## Tags in the data -/

mutual

/-- How many `<` the data of an element have. -/
def marks : Element → ℕ
  | .mk _ _ data childElements => (ofUnits (dataString data)).count '<' + marksList childElements

def marksList : List Element → ℕ
  | [] => 0
  | e :: es => marks e + marksList es

end

mutual

theorem noMarkup_of_marks (e : Element) (h : marks e = 0) : NoMarkup e := by
  match e with
  | .mk name attributes data childElements =>
    rw [marks, Nat.add_eq_zero_iff] at h
    exact ⟨List.count_eq_zero.1 h.1, noMarkup_of_marksList childElements h.2⟩

theorem noMarkup_of_marksList (es : List Element) (h : marksList es = 0) :
    AllList (fun _ _ data => '<' ∉ ofUnits (dataString data)) es := by
  match es with
  | [] => exact trivial
  | e :: es =>
    rw [marksList, Nat.add_eq_zero_iff] at h
    exact ⟨noMarkup_of_marks e h.1, noMarkup_of_marksList es h.2⟩

end

mutual

/-- The text has two tags for each element, and what its data have. -/
theorem count_textThen (e : Element) (rest : List Char) :
    2 * e.tree.size + marks e + rest.count '<' ≤ (textThen e rest).count '<' + 1 := by
  match e with
  | .mk name attributes data childElements =>
    have hlist := count_textListThen childElements (ending name data rest)
    have hend : (ofUnits (dataString data)).count '<' + 1 + rest.count '<' ≤ (ending name data rest).count '<' := by
      rw [ending, List.count_append, List.count_cons_self, List.count_cons_of_ne (by decide), List.count_append,
        List.count_cons_of_ne (by decide)]
      omega
    rw [textThen, tree, Xml.Tree.size, marks, List.count_append, List.count_append, List.count_append]
    omega

theorem count_textListThen (es : List Element) (rest : List Char) :
    2 * Xml.Tree.sizeList (treeList es) + marksList es + rest.count '<' ≤ (textListThen es rest).count '<' := by
  match es with
  | [] =>
    rw [treeList, Xml.Tree.sizeList, marksList, textListThen]
    omega
  | e :: es =>
    have hfirst := count_textThen e (textListThen es rest)
    have hrest := count_textListThen es rest
    rw [treeList, Xml.Tree.sizeList, marksList, textListThen, List.count_cons_self]
    omega

end

theorem noDeclaration_attributesText {attributes : List (WString × WString)}
    (hnames : AttributeNames (attributes.map Prod.fst))
    (hvalues : ∀ a ∈ attributes, Xml.noDeclaration (ofUnits a.2) = true) {rest : List Char}
    (hrest : Xml.noDeclaration rest = true) :
    Xml.noDeclaration (Xml.attributesText (attributesOf attributes) ++ rest) = true := by
  have hall : ∀ a ∈ attributes, Xml.isName (ofUnits a.1) = true := fun a ha =>
    (hnames.2 _ (List.mem_map_of_mem ha)).1.2
  clear hnames
  induction attributes with
  | nil => exact hrest
  | cons a as ih =>
    rw [List.forall_mem_cons] at hvalues hall
    have hread : Xml.attributesText (attributesOf (a :: as)) ++ rest = ' ' :: (ofUnits a.1 ++
        ('=' :: '"' :: (ofUnits a.2 ++ '"' :: (Xml.attributesText (attributesOf as) ++ rest)))) :=
      Xml.attributesText_cons (written (fun v => v) a) (attributesOf as) rest
    rw [hread, Xml.noDeclaration_cons (by decide), Xml.noDeclaration_name hall.1, Xml.noDeclaration_cons (by decide),
      Xml.noDeclaration_cons (by decide), Xml.noDeclaration_append (by decide), Xml.noDeclaration_cons (by decide),
      ih hvalues.2 hall.2, Bool.and_true]
    exact hvalues.1

mutual

theorem noDeclaration_textThen (e : Element) (hn : NamesOk e) (h : NoDeclarations e) {rest : List Char}
    (hrest : Xml.noDeclaration rest = true) : Xml.noDeclaration (textThen e rest) = true := by
  match e with
  | .mk name attributes data childElements =>
    obtain ⟨⟨hname, hattrs⟩, hns⟩ := hn
    obtain ⟨⟨hvalues, hdata⟩, hs⟩ := h
    have hend : Xml.noDeclaration (ending name data rest) = true := by
      rw [ending, Xml.noDeclaration_append (by decide), Xml.noDeclaration_tag (by decide),
        Xml.noDeclaration_cons (by decide), Xml.noDeclaration_name hname.2, Xml.noDeclaration_cons (by decide), hdata,
        hrest]
      rfl
    have hlist := noDeclaration_textListThen childElements hns hs hend
    rw [textThen, Xml.noDeclaration_name hname.2]
    refine noDeclaration_attributesText hattrs hvalues ?_
    exact (Xml.noDeclaration_cons (by decide) _).trans hlist

theorem noDeclaration_textListThen (es : List Element) (hn : AllList (fun name attributes _ =>
      IsXmlName name ∧ AttributeNames (attributes.map Prod.fst)) es)
    (h : AllList (fun _ attributes data => (∀ a ∈ attributes, Xml.noDeclaration (ofUnits a.2) = true) ∧
      Xml.noDeclaration (ofUnits (dataString data)) = true) es) {rest : List Char}
    (hrest : Xml.noDeclaration rest = true) : Xml.noDeclaration (textListThen es rest) = true := by
  match es with
  | [] => exact hrest
  | e :: es =>
    have htail := noDeclaration_textListThen es hn.2 h.2 hrest
    have hfirst := noDeclaration_textThen e hn.1 h.1 htail
    obtain ⟨n, l, hname, hl⟩ := textThen_name hn.1 (textListThen es rest)
    obtain ⟨c, cs, rfl, hc⟩ := Xml.isName_head hname
    have hmarks := Xml.isNameStart_ne hc
    rw [textListThen, hl, List.cons_append, Xml.noDeclaration_tag ⟨hmarks.2.2.2.1, hmarks.2.2.2.2⟩, ← List.cons_append,
      ← hl]
    exact hfirst

end

/-- **An element with a tag in its data does not arrive** if nothing hides tags: there would be more of them than its
tree has. -/
theorem noMarkup_of_reads {e : Element} (hn : NamesOk e) (h : NoDeclarations e) {t : Xml.Tree (List Char)}
    {rest : List Char} {fuel : ℕ} (hread : Xml.element (Xml.content fuel) (textThen e ['\r']) = some (t, rest))
    (hmisc : Xml.isMisc rest.length rest = true) (ht : t.map units = e.tree) : NoMarkup e := by
  have hplain : Xml.noDeclaration (textThen e ['\r']) = true := noDeclaration_textThen e hn h rfl
  obtain ⟨hle, hsuffix⟩ := Xml.element_count
    (fun l ts l' hl => Xml.content_count (Xml.noDeclaration_suffix hplain hl)) hread
  have hrest : rest.count '<' = 0 :=
    List.count_eq_zero.2 (Xml.isMisc_lt (Xml.noDeclaration_suffix hplain hsuffix) hmisc)
  have hsize : t.size = e.tree.size := by rw [← ht, Xml.Tree.size_map]
  have hcount := count_textThen e ['\r']
  exact noMarkup_of_marks e (by omega)

/-- **When an element arrives**: if every value of every level stands for itself between quotes and all data is text of
one line; and only then, unless the markup in it hides tags. -/
theorem document_arrives_iff {e : Element} (hn : NamesOk e) :
    (ValuesOk e → DataOk e → Arrives e.document e.tree) ∧
      (NoMarkup e ∨ NoDeclarations e → Arrives e.document e.tree → ValuesOk e ∧ DataOk e) := by
  refine ⟨fun hv hd => document_arrives hn hd hv, fun hm harrives => ?_⟩
  rw [arrives_iff (List.cons_ne_nil _ _) (ofUnits_document e), parse_document] at harrives
  obtain ⟨hline, s, rest, hp, hmisc, hs⟩ := harrives
  have hline : '\n' ∉ textThen e ['\r'] := by
    rw [List.mem_cons, not_or] at hline
    have hend : textThen e ['\r'] = textThen e [] ++ ['\r'] := textThen_append e [] ['\r']
    rw [hend, List.mem_append, not_or]
    exact ⟨hline.2, by decide⟩
  -- where nothing hides tags, they are counted
  have hm : NoMarkup e := hm.elim id fun h => noMarkup_of_reads hn h hp hmisc hs
  exact (reads_element e hn hm hline hp hs).1

/-- The item of a URL, and a visit-event with it and data. -/
def visit (program : String) (data : List UInt8) : Element :=
  .mk (lit "visit-event") [(lit "type", lit "finish"), (lit "program", lit program)] []
    [.mk (lit "item") [(lit "url", lit "http%3a%2f%2fa.b%2f"), (lit "processId", lit "10")] data []]

theorem namesOk_visit (program : String) (data : List UInt8) : NamesOk (visit program data) := by
  have hattrs : AttributeNames [lit "type", lit "program"] := by decide
  exact ⟨⟨by decide, hattrs⟩, ⟨⟨by decide, by decide⟩, trivial⟩, trivial⟩

/-- A reference and a comment in the data are read over. -/
theorem document_arrives_iff_plain :
    Arrives (visit "iexplorebulk" ("&amp;<!-- -->QUI=".toList.map Char.toUInt8)).document
      (visit "iexplorebulk" ("&amp;<!-- -->QUI=".toList.map Char.toUInt8)).tree :=
  (document_arrives_iff (namesOk_visit _ _)).1 ⟨by decide, ⟨by decide, trivial⟩, trivial⟩
    ⟨⟨by decide, by decide⟩, ⟨⟨by decide +kernel, by decide⟩, trivial⟩, trivial⟩

/-- **A visit-event is not read**: an ampersand in the program is written as it is. -/
theorem program_unescaped : ¬ Arrives (visit "a&b" []).document (visit "a&b" []).tree := by
  rintro ⟨line, e, hline, hread, -⟩
  have hnone : ((myReadline (ofUnits (visit "a&b" []).document)).1.map fun l => (readXML l).2) = some false := by
    decide +kernel
  rw [hline, Option.map_some, hread] at hnone
  cases hnone

end Element

end CaptureHPC.Cpp
