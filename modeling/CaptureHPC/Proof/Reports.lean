import CaptureHPC.Proof.UrlTexts
import CaptureHPC.Proof.Visits

/-!
# A visit that comes back

The element in which a client reports a visit says which group was visited, and what became of each of its
URLs. It arrives, since its values stand for themselves: the URLs are encoded, and the rest are numbers, times,
and the program that the server has sent without escaping it.

Meanwhile the server goes on. The URLs of a group and their texts stay, so it finds each URL again.

* `report_arrives`: what the client reports of a visit arrives.
* `visit_comes_back`: the server finds the URLs that it has sent, no two of which have the same encoding.
-/

namespace CaptureHPC

open Lib Cpp Cpp.FileUploader

namespace Cpp

/-! ## Values that stand for themselves -/

theorem literal_units {cs : List Char} (h : PlainText cs) : Element.Literal (units cs) := by
  refine ⟨?_, fun c hc => h c ?_⟩
  · rw [← units_ofUnits_iff, ofUnits_units]
  · rwa [ofUnits_units] at hc

theorem literal_decimal (n : ℤ) : Element.Literal (decimal n) := literal_units (plain_toString n).1

theorem digits_plain (n : ℕ) : PlainText (Nat.toDigits 10 n) := by
  have h := (plain_toString n).1
  rwa [show (toString (n : ℤ)).toList = Nat.toDigits 10 n by simp [toString, Int.repr, Nat.repr]] at h

theorem literal_time (t : TimeFields) : Element.Literal (timefieldToString t) := by
  rw [TimeFields.timefieldToString_eq]
  refine literal_units fun c hc => ?_
  unfold TimeFields.chars at hc
  simp only [List.mem_append, List.mem_cons] at hc
  rcases hc with h | rfl | h | rfl | h | rfl | h | rfl | h | rfl | h | rfl | h
  all_goals first | exact digits_plain _ _ h | decide

theorem literal_flag (b : Bool) : Element.Literal (flag b) := by
  cases b <;> decide

/-- What a unit is encoded to stands for itself, whatever the unit is. -/
theorem encodeChar_plain (wch : WChar) : ∃ cs, PlainText cs ∧ Url.encodeChar wch = units cs := by
  have hsafe : ∀ n < 0x80, Url.isSafe n = true → Xml.isPlain (Char.ofNat n) = true ∧ (Char.ofNat n).toNat = n := by
    decide +kernel
  have hhex : ∀ n < 16, Xml.isPlain (Url.hexDigit n) = true := by decide
  have hplus : PlainText ['+'] := by
    intro c hc
    rw [List.mem_singleton.1 hc]
    decide
  rw [Url.encodeChar_eq]
  split_ifs with h1 h2
  · obtain ⟨hplain, hnat⟩ := hsafe _ (Url.isSafe_lt h1) h1
    have hlt := Url.isSafe_lt h1
    refine ⟨[Char.ofNat wch.toNat], by simpa [PlainText] using hplain, ?_⟩
    rw [units_cons, units_nil, List.append_nil, Url.ascii_units (by omega), hnat, UInt16.ofNat_toNat]
  · exact ⟨['+'], hplus, rfl⟩
  · refine ⟨(Url.unitBytes wch.toNat).flatMap Url.escape, fun c hc => ?_, ?_⟩
    · obtain ⟨b, hb, hc⟩ := List.mem_flatMap.1 hc
      have hlt := Url.unitBytes_lt wch.toNat_lt hb
      simp only [Url.escape, List.mem_cons, List.not_mem_nil, or_false] at hc
      rcases hc with rfl | rfl | rfl
      · decide
      · exact hhex _ (by omega)
      · exact hhex _ (by omega)
    · rw [units, List.flatMap_assoc]
      rfl

theorem literal_encode (text : WString) : Element.Literal (Url.encode text) := by
  have hplain : ∃ cs, PlainText cs ∧ Url.encode text = units cs := by
    induction text with
    | nil => exact ⟨[], fun c hc => absurd hc List.not_mem_nil, rfl⟩
    | cons wch text ih =>
      obtain ⟨cs, hcs, hchar⟩ := encodeChar_plain wch
      obtain ⟨ds, hds, hrest⟩ := ih
      refine ⟨cs ++ ds, List.forall_mem_append.2 ⟨hcs, hds⟩, ?_⟩
      rw [units_append, ← hchar, ← hrest]
      rfl
  obtain ⟨cs, hcs, h⟩ := hplain
  rw [h]
  exact literal_units hcs

/-! ## The report -/

theorem allList_iff (P : WString → List (WString × WString) → List UInt8 → Prop) (es : List Element) :
    Element.AllList P es ↔ ∀ e ∈ es, e.All P := by
  induction es with
  | nil => exact ⟨fun _ _ h => absurd h List.not_mem_nil, fun _ => trivial⟩
  | cons e es ih => rw [Element.AllList, List.forall_mem_cons, ih]

theorem treeList_eq (es : List Element) : Element.treeList es = es.map Element.tree := by
  induction es with
  | nil => rfl
  | cons e es ih => rw [Element.treeList, List.map_cons, ih]

theorem no_data : Xml.IsText (ofUnits (Element.dataString [])) ∧ '\n' ∉ ofUnits (Element.dataString []) :=
  ⟨rfl, List.not_mem_nil⟩

/-- Texts that a report holds as they are. -/
structure ReportData.Ok (r : ReportData) : Prop where
  algorithm : Element.Literal r.algorithm
  type : Element.Literal r.type

/-- **What the client reports arrives**, if the texts that it does not encode stand for themselves. -/
theorem report_arrives {v : UrlVisit} {r : ReportData} (hr : r.Ok) (hidentifier : Element.Literal v.identifier)
    (hprogram : Element.Literal v.program) (hurls : ∀ u ∈ v.urls, Element.Literal u.program) :
    Arrives (v.toElement r).document (v.toElement r).tree := by
  have hnames : AttributeNames [lit "url", lit "processId", lit "program", lit "major-error-code",
      lit "minor-error-code", lit "time", lit "visited"] := by
    decide
  have hitem : ∀ e ∈ v.urls.zipIdx.map fun u => u.1.toElement (r.itemTimes u.2),
      e.NamesOk ∧ e.DataOk ∧ e.ValuesOk := by
    intro e he
    obtain ⟨⟨u, i⟩, hu, rfl⟩ := List.mem_map.1 he
    have hmem : u ∈ v.urls := List.fst_mem_of_mem_zipIdx hu
    refine ⟨⟨⟨by decide, hnames⟩, trivial⟩, ⟨no_data, trivial⟩, ⟨?_, trivial⟩⟩
    simp only [List.forall_mem_cons, List.not_mem_nil, false_imp_iff, implies_true, and_true]
    exact ⟨literal_encode _, literal_decimal _, hurls u hmem, literal_decimal _, literal_decimal _, literal_time _,
      literal_flag _⟩
  refine Element.document_arrives ⟨⟨by decide, ?_⟩, ?_⟩ ⟨no_data, ?_⟩ ⟨?_, ?_⟩
  · cases hcode : r.errorCode with
    | none =>
      show AttributeNames [lit "identifier", lit "program", lit "time", lit "algorithm", lit "type", lit "malicious"]
      decide
    | some code =>
      show AttributeNames [lit "identifier", lit "program", lit "time", lit "algorithm", lit "error-code", lit "type",
        lit "malicious"]
      decide
  · exact (allList_iff _ _).2 fun e he => (hitem e he).1
  · exact (allList_iff _ _).2 fun e he => (hitem e he).2.1
  · intro a ha
    simp only [List.mem_append, List.mem_cons, List.not_mem_nil, or_false, Option.mem_toList,
      Option.map_eq_some_iff] at ha
    rcases ha with (((rfl | rfl | rfl | rfl) | ⟨code, -, rfl⟩) | rfl | rfl)
    · exact hidentifier
    · exact hprogram
    · exact literal_time _
    · exact hr.algorithm
    · exact literal_decimal _
    · exact hr.type
    · exact literal_flag _
  · exact (allList_iff _ _).2 fun e he => (hitem e he).2.2

end Cpp

/-! ## The element that arrives -/

/-- The same attribute of each of several elements. -/
theorem map_get_of_wide {α : Type} {es : List Element} {xs : List α} {f : α → Xml.Tree WString} {key : String}
    (value : α → Option String) (h : Element.wideList es = xs.map f)
    (hvalue : ∀ x (e : Element), e.wide = f x → e.get key = value x) : es.map (·.get key) = xs.map value := by
  induction es generalizing xs with
  | nil =>
    cases xs with
    | nil => rfl
    | cons x xs => cases h
  | cons e es ih =>
    cases xs with
    | nil => cases h
    | cons x xs =>
      rw [Element.wideList, List.map_cons, List.cons.injEq] at h
      rw [List.map_cons, List.map_cons, hvalue x e h.1, ih h.2]

theorem childElements_of_wide {e : Element} {name : WString} {atts : List (WString × WString)}
    {children : List (Xml.Tree WString)} (h : e.wide = .mk name atts children) :
    Element.wideList e.childElements = children := by
  obtain ⟨n, as, es⟩ := e
  rw [Element.wide, Xml.Tree.mk.injEq] at h
  exact h.2.2

/-- What the server finds in a report: the group, and the names of the URLs. -/
theorem get_of_report {v : UrlVisit} {r : ReportData} {e : Element} (h : e.wide = (v.toElement r).tree) :
    e.get "identifier" = some (text v.identifier) ∧
      e.childElements.map (·.get "url") = v.urls.map fun u => some (text (Cpp.Url.encode u.url)) := by
  refine ⟨get_of_wide h "identifier", ?_⟩
  have hchildren := childElements_of_wide h
  rw [treeList_eq, List.map_map] at hchildren
  refine (map_get_of_wide (fun u : VisitUrl × ℕ => some (text (Cpp.Url.encode u.1.url))) hchildren
    fun u item hitem => get_of_wide hitem "url").trans ?_
  have hfst : v.urls.zipIdx.map Prod.fst = v.urls := List.zipIdx_map_fst 0 v.urls
  conv_rhs => rw [← hfst, List.map_map]
  rfl

/-! ## The way there and back -/

section wayBack

open UrlGroup UrlGroupsController

variable {cfg : Config} {sdf : SimpleDateFormat} {w w' : World} {g u : ℕ} {s : UrlGroupsController}

/-- The item that the client makes of a URL names what the URL's own text names. -/
theorem named_echo (hurl : ∀ c ∈ (s.urls.url u).url.toList, c.toNat < 0x10000 ∧ c ≠ ' ') :
    named g s (some (echo (s.urls.url u).escapedUrl)) = named g s (some (s.urls.url u).escapedUrl) := by
  have hecho : urlDecode (echo (s.urls.url u).escapedUrl) = some (s.urls.url u).url := urlDecode_echo hurl
  rw [named_escapedUrl]
  unfold named
  rw [Option.bind_some, hecho, Option.bind_some]
  rfl

/-- What a visit leaves of it. -/
structure VisitedAs (v v' : UrlVisit) : Prop where
  identifier : v'.identifier = v.identifier
  program : v'.program = v.program
  urls : v'.urls.map (fun u => (u.url, u.program)) = v.urls.map fun u => (u.url, u.program)

/-- **What the client reports of a visit that it was sent.** -/
theorem report_of_visit {identifier program : List Char} {visitTime : Int32} {urls : List (List Char)}
    (hidentifier : PlainText identifier) (hprogram : PlainText program) {v : UrlVisit} {r : ReportData} (hr : r.Ok)
    (hv : VisitedAs (visitFor identifier program visitTime urls) v) :
    ∃ received e, myReadline (ofUnits (v.toElement r).document) = (some received, []) ∧ readXML received = ([e], true) ∧
      e.get "identifier" = some (String.ofList identifier) ∧
      e.childElements.map (·.get "url") = urls.map fun url => some (echo (String.ofList url)) := by
  have hprograms : ∀ u ∈ v.urls, Cpp.Element.Literal u.program := by
    intro u hu
    have hmem := List.mem_map_of_mem (f := fun u : VisitUrl => (u.url, u.program)) hu
    rw [hv.urls, visitFor, List.map_map, List.mem_map] at hmem
    obtain ⟨url, -, heq⟩ := hmem
    rw [← (Prod.mk.inj heq).2]
    exact literal_units hprogram
  obtain ⟨received, e, hline, hxml, hwide⟩ := report_arrives hr (hv.identifier ▸ literal_units hidentifier)
    (hv.program ▸ literal_units hprogram) hprograms
  obtain ⟨hget, hitems⟩ := get_of_report hwide
  refine ⟨received, e, hline, hxml, ?_, ?_⟩
  · rw [hget, hv.identifier]
    show some (String.ofList (ofUnits (units identifier))) = _
    rw [ofUnits_units]
  · have hurls := congrArg (List.map fun p : WString × WString => some (text (Cpp.Url.encode p.1))) hv.urls
    rw [List.map_map, List.map_map] at hurls
    refine hitems.trans (hurls.trans ?_)
    rw [visitFor, List.map_map]
    refine List.map_congr_left fun url _ => ?_
    rw [echo, String.toList_ofList]
    rfl

/-- The bytes that the client gets for a group. -/
def sentBytes (g : ℕ) (s : UrlGroupsController) : List UInt8 := asciiBytes (Client.toVisitEvent g s).toList ++ [0]

theorem plain_escapedUrls : ∀ url ∈ escapedUrls s g, PlainText url ∧ Ascii url := by
  intro url hurl
  obtain ⟨u, -, rfl⟩ := List.mem_map.1 hurl
  have hpos : ∀ c ∈ (s.urls.url u).escapedUrl.toList, 0 < c.toNat := by
    intro c hc
    have hkept := (urlEncode_plain _ c hc).1
    rw [Nat.pos_iff_ne_zero]
    intro hzero
    have hnul : c = Char.ofNat 0 := by rw [← hzero, Char.ofNat_toNat]
    rw [hnul] at hkept
    revert hkept
    decide
  exact ⟨fun c hc => (urlEncode_plain _ c hc).1, fun c hc => ⟨hpos c hc, (urlEncode_plain _ c hc).2⟩⟩

/-- **The client gets the visit**, if it gets no chunk of less than three bytes. -/
theorem receive_sentBytes
    (hprogram : PlainText (s.group g).clientProgram.toList ∧ Ascii (s.group g).clientProgram.toList)
    {chunks : List (List UInt8)} (hchunks : ∀ c ∈ chunks, 2 < c.length) (hstream : chunks.flatten = sentBytes g s)
    (toVisit : List UrlVisit) :
    Visitor.receive toVisit (ServerReceive.run (chunks.map .bytes)).documents =
      some (toVisit ++ [visitFor (toString g).toList (s.group g).clientProgram.toList (s.group g).visitTime
        (escapedUrls s g)]) := by
  have hidentifier : PlainText (toString g).toList ∧ Ascii (toString g).toList := plain_toString g
  have htext := toList_toVisitEvent s g
  have hne : escapedUrls s g ≠ [] := by
    unfold escapedUrls
    rw [Ne, List.map_eq_nil_iff]
    exact (s.group g).nonempty
  have hfree : ∀ d ∈ [asciiBytes (Client.toVisitEvent g s).toList], 0 ∉ d := by
    intro d hd
    rw [List.mem_singleton.1 hd, htext]
    have htexts : ∀ url ∈ escapedUrls s g, Ascii url := fun url h => (plain_escapedUrls url h).2
    exact (ascii_visitText hidentifier.2 hprogram.2 (plain_toString _).2 htexts).not_mem
  have hsent : sentBytes g s = terminated 0 [asciiBytes (Client.toVisitEvent g s).toList] := by
    simp [sentBytes, terminated]
  have hscan := ServerReceive.scan_of_large hchunks {}
  rw [hstream, hsent] at hscan
  have hdocuments : (ServerReceive.run (chunks.map .bytes)).documents = [asciiBytes (Client.toVisitEvent g s).toList] :=
    congrArg Scan.units (hscan.trans (Scan.scan_terminated hfree []))
  rw [hdocuments, htext]
  exact receive_visitText toVisit hidentifier hprogram plain_escapedUrls hne

/-- **A visit comes back.** A group whose URLs have different encodings is sent in any state that the server
reaches. The client gets the URLs, and when it reports them the server finds each of them again, whatever it has
done meanwhile. -/
theorem visit_comes_back (hreach : Reaches (World.act cfg sdf) anyStep {} w)
    (hlater : Reaches (World.act cfg sdf) anyStep w w') (hg : g < w.groups.size)
    (hprogram : PlainText (w.groups.group g).clientProgram.toList ∧ Ascii (w.groups.group g).clientProgram.toList)
    (hurls : ∀ u ∈ w.groups.urlsOf g, ∀ c ∈ (w.groups.urls.url u).url.toList, c.toNat < 0x10000 ∧ c ≠ ' ')
    (hapart : Apart w.groups.urls (w.groups.urlsOf g)) {chunks : List (List UInt8)}
    (hchunks : ∀ c ∈ chunks, 2 < c.length) (hstream : chunks.flatten = sentBytes g w.groups) (toVisit : List UrlVisit) :
    ∃ v, Visitor.receive toVisit (ServerReceive.run (chunks.map .bytes)).documents = some (toVisit ++ [v]) ∧
      ∀ v' r, VisitedAs v v' → r.Ok → ∃ received e,
        myReadline (ofUnits (v'.toElement r).document) = (some received, []) ∧ readXML received = ([e], true) ∧
        e.get "identifier" = some (toString g) ∧
        e.childElements.map (fun item => (UrlGroup.getUrl g (item.get "url")).run w'.groups) =
          (w.groups.urlsOf g).map fun u => .ok u w'.groups := by
  refine ⟨_, receive_sentBytes hprogram hchunks hstream toVisit, fun v' r hv' hr => ?_⟩
  obtain ⟨received, e, hline, hxml, hget, hitems⟩ := report_of_visit (plain_toString g).1 hprogram.1 hr hv'
  refine ⟨received, e, hline, hxml, ?_, ?_⟩
  · rw [hget]
    exact congrArg some String.ofList_toList
  · -- the URLs and their texts stay
    obtain ⟨-, hsame, hkeys⟩ := (moves_later hreach hlater).keys (lineage_of_reaches hreach) hg
    have hlist : (w'.groups.group g).urlList = w.groups.urlsOf g := hsame
    have htexts : ∀ u ∈ w.groups.urlsOf g, (w'.groups.urls.url u).url = (w.groups.urls.url u).url := fun u hu =>
      congrArg Prod.fst (hkeys u hu)
    have hlater : Apart w'.groups.urls (w'.groups.group g).urlList := by
      rw [hlist]
      intro u hu v hv huv
      have hold : SameText w.groups.urls u v := by
        unfold SameText Url.escapedUrl at huv ⊢
        rwa [htexts u hu, htexts v hv] at huv
      exact hapart u hu v hv hold
    have hfind : ∀ u ∈ w.groups.urlsOf g,
        (UrlGroup.getUrl g (some (echo (w.groups.urls.url u).escapedUrl))).run w'.groups = .ok u w'.groups := by
      intro u hu
      have hesc : (w.groups.urls.url u).escapedUrl = (w'.groups.urls.url u).escapedUrl := by
        unfold Url.escapedUrl
        rw [htexts u hu]
      rw [hesc]
      refine getUrl_run ((named_echo ?_).trans (named_own hlater (hlist ▸ hu)))
      rw [htexts u hu]
      exact hurls u hu
    have hmap := congrArg (List.map fun name => (UrlGroup.getUrl g name).run w'.groups) hitems
    rw [List.map_map] at hmap
    refine hmap.trans ?_
    unfold escapedUrls
    rw [List.map_map, List.map_map]
    refine List.map_congr_left fun u hu => ?_
    rw [Function.comp_apply, Function.comp_apply, String.ofList_toList]
    exact hfind u hu

/-- Two URLs are taken as one group. -/
def takeTwo : World := World.micros (groupsOf 2) .utc {} (splitTwo.take 4)

theorem visit_comes_back_two : ∃ v,
    Visitor.receive [] (ServerReceive.run ([sentBytes 0 takeTwo.groups].map .bytes)).documents = some ([] ++ [v]) ∧
    ∀ v' r, VisitedAs v v' → r.Ok → ∃ received e,
      myReadline (ofUnits (v'.toElement r).document) = (some received, []) ∧ readXML received = ([e], true) ∧
      e.get "identifier" = some (toString 0) ∧
      e.childElements.map (fun item => (UrlGroup.getUrl 0 (item.get "url")).run
          (takeTwo.micro (groupsOf 2) .utc (.awaitVisiting 0)).groups) =
        (takeTwo.groups.urlsOf 0).map fun u => .ok u (takeTwo.micro (groupsOf 2) .utc (.awaitVisiting 0)).groups := by
  have hurls : ((takeTwo.groups.urlsOf 0).all fun u =>
      (takeTwo.groups.urls.url u).url.toList.all fun c => decide (c.toNat < 0x10000 ∧ c ≠ ' ')) = true := by
    decide +kernel
  have hprogram : (takeTwo.groups.group 0).clientProgram = "ie" := by decide +kernel
  have hlength : [sentBytes 0 takeTwo.groups].all (fun c => decide (2 < c.length)) = true := by decide +kernel
  have hapart : Apart takeTwo.groups.urls (takeTwo.groups.urlsOf 0) := by decide +kernel
  have hreach : Reaches (World.act (groupsOf 2) .utc) anyStep {} takeTwo := reaches_micros _
  have hlater : Reaches (World.act (groupsOf 2) .utc) anyStep takeTwo
      (takeTwo.micro (groupsOf 2) .utc (.awaitVisiting 0)) :=
    Reaches.start.next (a := .piece (.awaitVisiting 0)) trivial rfl
  refine visit_comes_back hreach hlater
    (by decide +kernel) ?_ (fun u hu c hc => ?_) hapart (fun c hc => ?_) (List.append_nil _) []
  · rw [hprogram]
    exact ⟨List.all_eq_true.1 (show "ie".toList.all Xml.isPlain = true by decide), by simp [Ascii]⟩
  · exact of_decide_eq_true (List.all_eq_true.1 (List.all_eq_true.1 hurls u hu) c hc)
  · exact of_decide_eq_true (List.all_eq_true.1 hlength c hc)

end wayBack

end CaptureHPC
