import CaptureHPC.Spec.ClientXml
import CaptureHPC.Spec.ElementText

/-!
# What the handlers make of a document

* Both handlers keep the last chunk of an element's text (`latest`), so the text is whole when
  nothing of it came before that chunk (`serverText_iff`, `text_whole_iff`).
* The client's handler puts an element that has the name of the current one into that one. A
  run that does so builds fewer elements than the document has (`count_run`), so it builds the
  document only if no element stands in one of its name (`document_iff`, `tree_built_iff`).
-/

namespace CaptureHPC

open Lib Sax

namespace TextHandler

section build

variable {ν β : Type} {trim : List β → List β}

/-- The content of an element goes into that element. -/
theorem foldlM_reports (c : Content ν β) (n : ν) (as : List (ν × ν)) (d : List β) (cs rest hs : List (Node ν β)) :
    c.reports.foldlM (sax trim) ⟨.mk n as d cs :: rest, hs⟩ =
      some ⟨.mk n as (latest trim d c.chunks) (cs ++ c.nodes (latest trim [])) :: rest, hs⟩ := by
  induction c generalizing n as d cs rest with
  | done => rw [Content.nodes, List.append_nil]; rfl
  | text chunk r ih =>
    rw [Content.reports, List.foldlM_cons, Content.chunks, latest_cons]
    exact ih n as (trim chunk) cs rest
  | element n' as' c r ihc ihr =>
    show (c.reports ++ Report.endElement n' :: r.reports).foldlM (sax trim)
      ⟨.mk n' as' [] [] :: .mk n as d cs :: rest, hs⟩ = _
    rw [List.foldlM_append, ihc n' as' [] [] (.mk n as d cs :: rest)]
    refine (ihr n as d (cs ++ [.mk n' as' (latest trim [] c.chunks) (c.nodes (latest trim []))]) rest).trans ?_
    rw [List.append_assoc]
    rfl

/-- **The server's handler builds the elements**, each with the last chunk of its text. -/
theorem run_document (n : ν) (as : List (ν × ν)) (c : Content ν β) :
    (Content.element n as c .done).reports.foldlM (sax trim) {} =
      some ⟨[], [.mk n as (latest trim [] c.chunks) (c.nodes (latest trim []))]⟩ := by
  show (c.reports ++ [Report.endElement n]).foldlM (sax trim) ⟨[.mk n as [] []], []⟩ = _
  rw [List.foldlM_append, foldlM_reports]
  rfl

end build

section forget

/-! The handler without the text is the one of `ClientEventController`. -/

mutual

def forgetNode : Node String Char → Element
  | .mk n as _ cs => .mk n as (forgetList cs)

def forgetList : List (Node String Char) → List Element
  | [] => []
  | c :: cs => forgetNode c :: forgetList cs

end

theorem forgetList_append (cs ds : List (Node String Char)) : forgetList (cs ++ ds) = forgetList cs ++ forgetList ds := by
  induction cs with
  | nil => rfl
  | cons c cs ih => rw [List.cons_append, forgetList, ih, forgetList, List.cons_append]

def forget (s : TextHandler String Char) : ClientEventController := ⟨forgetList s.currentElement, forgetList s.handled⟩

def forgetReport : Report String Char → Option SaxEvent
  | .startElement n as => some (.startElement n as)
  | .characters _ => none
  | .endElement _ => some .endElement

/-- **Without the text** a step is one of the handler without text, or none. -/
theorem forget_sax {trim : List Char → List Char} {s s' : TextHandler String Char} {r : Report String Char}
    (h : s.sax trim r = some s') : s'.forget = (forgetReport r).elim s.forget s.forget.sax := by
  cases r with
  | startElement n as =>
    obtain rfl := Option.some.inj h
    rfl
  | characters ch =>
    obtain ⟨current, handled⟩ := s
    cases current with
    | nil => exact nomatch h
    | cons e rest =>
      obtain rfl := Option.some.inj h
      cases e
      rfl
  | endElement n =>
    obtain ⟨current, handled⟩ := s
    match current, h with
    | [root], h =>
      obtain rfl := Option.some.inj h
      simp only [forget, forgetList_append]
      rfl
    | e :: .mk pn pas pd pcs :: rest, h =>
      obtain rfl := Option.some.inj h
      simp only [forget, forgetList, forgetNode, Node.addChild, forgetList_append]
      rfl

end forget

section text

/-- The text of an element, cut into chunks, is whole at the end: nothing but blanks comes before the last
chunk. -/
def BlankBefore (chunks : List (List Char)) : Prop := ∀ chunk ∈ chunks.dropLast, ∀ c ∈ chunk, isBlank c = true

theorem trim_append_of_blank {ws : List Char} (h : ∀ c ∈ ws, isBlank c = true) (s : List Char) :
    trim (ws ++ s) = trim s := by
  unfold trim
  rw [List.dropWhile_append_of_pos h]

/-- `trim` removes no other character. -/
theorem countP_trim (s : List Char) : (trim s).countP (fun c => !isBlank c) = s.countP (fun c => !isBlank c) := by
  have hdrop : ∀ t : List Char, (t.dropWhile isBlank).countP (fun c => !isBlank c) = t.countP (fun c => !isBlank c) := by
    intro t
    have hblank : (t.takeWhile isBlank).countP (fun c => !isBlank c) = 0 := by
      rw [List.countP_eq_zero]
      intro c hc
      rw [List.mem_takeWhile_imp hc]
      decide
    have happend := congrArg (List.countP fun c => !isBlank c) (List.takeWhile_append_dropWhile (p := isBlank) (l := t))
    rw [List.countP_append, hblank, Nat.zero_add] at happend
    exact happend
  unfold trim
  rw [List.countP_reverse, hdrop, List.countP_reverse, hdrop]

theorem latest_eq_trim_iff (chunks : List (List Char)) :
    latest trim [] chunks = trim chunks.flatten ↔ BlankBefore chunks := by
  induction chunks using List.reverseRecOn with
  | nil => exact iff_of_true rfl fun _ h => nomatch h
  | append_singleton chunks last _ =>
    unfold latest BlankBefore
    rw [List.getLast?_concat, List.dropLast_concat, List.flatten_append, List.flatten_singleton]
    constructor
    · intro h chunk hchunk c hc
      have hcount := congrArg (List.countP fun c => !isBlank c) h
      rw [Option.map_some, Option.getD_some, countP_trim, countP_trim, List.countP_append] at hcount
      have hzero : chunks.flatten.countP (fun c => !isBlank c) = 0 := by omega
      have hblank := List.countP_eq_zero.1 hzero c (List.mem_flatten.2 ⟨chunk, hchunk, hc⟩)
      simpa using hblank
    · intro h
      refine (trim_append_of_blank (fun c hc => ?_) last).symm
      obtain ⟨chunk, hchunk, hmem⟩ := List.mem_flatten.1 hc
      exact h chunk hchunk c hmem

end text

/-- **The text on the server.** The data of all elements is their whole text, trimmed, exactly if nothing but
blanks comes before the last chunk of each. -/
theorem serverText_iff (n : String) (as : List (String × String)) (c : Content String Char) :
    (Content.element n as c .done).reports.foldlM (sax trim) {} =
        some ⟨[], [.mk n as (trim c.chunks.flatten) (c.nodes fun chunks => trim chunks.flatten)]⟩ ↔
      BlankBefore c.chunks ∧ c.Each BlankBefore := by
  rw [run_document, Option.some.injEq, TextHandler.mk.injEq, List.singleton_inj, Node.mk.injEq, latest_eq_trim_iff,
    Content.nodes_eq_iff, Content.Each.congr latest_eq_trim_iff]
  simp only [true_and]

end TextHandler

namespace Cpp.EventController

variable {s s' : EventController}

/-- Where no element has the name of the one it stands in, the content of an element goes into that
element. -/
theorem foldlM_reports (c : Content WString UInt8) (n : WString) (hc : c.NoRepeat n) (as : List (WString × WString))
    (d : List UInt8) (cs rest hs : List (Node WString UInt8)) :
    c.reports.foldlM sax ⟨.mk n as d cs :: rest, hs⟩ =
      some ⟨.mk n as (latest id d c.chunks) (cs ++ c.nodes (latest id [])) :: rest, hs⟩ := by
  induction c generalizing n as d cs rest with
  | done => rw [Content.nodes, List.append_nil]; rfl
  | text chunk r ih =>
    rw [Content.reports, List.foldlM_cons, Content.chunks, latest_cons]
    exact ih n hc as chunk cs rest
  | element n' as' c r ihc ihr =>
    obtain ⟨hne, hc, hr⟩ := hc
    rw [Content.reports, List.cons_append, List.foldlM_cons]
    have hstart : sax ⟨.mk n as d cs :: rest, hs⟩ (.startElement n' as') =
        some ⟨.mk n' as' [] [] :: .mk n as d cs :: rest, hs⟩ := if_pos hne
    have hend : sax ⟨.mk n' as' (latest id [] c.chunks) ([] ++ c.nodes (latest id [])) :: .mk n as d cs :: rest, hs⟩
        (.endElement n') =
        some ⟨.mk n as d (cs ++ [.mk n' as' (latest id [] c.chunks) (c.nodes (latest id []))]) :: rest, hs⟩ := if_pos rfl
    rw [hstart]
    show (c.reports ++ Report.endElement n' :: r.reports).foldlM sax _ = _
    rw [List.foldlM_append, ihc n' hc as' [] [] (.mk n as d cs :: rest)]
    show (Report.endElement n' :: r.reports).foldlM sax _ = _
    rw [List.foldlM_cons, hend]
    refine (ihr n hr as d _ rest).trans ?_
    rw [List.append_assoc]
    rfl

/-- The elements there are. -/
def count (s : EventController) : ℕ := Node.countList s.currentElement + Node.countList s.notified

/-- A step builds at most one element, and only a start tag does. -/
theorem count_sax {r : Report WString UInt8} (h : s.sax r = some s') :
    s'.count ≤ s.count + match r with
      | .startElement .. => 1
      | _ => 0 := by
  obtain ⟨current, notified⟩ := s
  cases r with
  | startElement n as =>
    cases current with
    | nil =>
      obtain rfl := Option.some.inj h
      simp [count, Node.countList, Node.count]
      omega
    | cons e rest =>
      simp only [sax] at h
      split_ifs at h <;> obtain rfl := Option.some.inj h
      · simp [count, Node.countList, Node.count]
        omega
      · simp [count, Node.countList, Node.count_addAttributes]
  | characters ch =>
    cases current with
    | nil => cases h
    | cons e rest =>
      obtain rfl := Option.some.inj h
      simp [count, Node.countList, Node.count_setData]
  | endElement n =>
    cases current with
    | nil => cases h
    | cons e rest =>
      cases rest with
      | nil =>
        simp only [sax, notifyListeners] at h
        split_ifs at h <;> obtain rfl := Option.some.inj h
        · simp [count, Node.countList, Node.countList_append]
          omega
        · simp
      | cons parent rest =>
        simp only [sax] at h
        split_ifs at h <;> obtain rfl := Option.some.inj h
        · simp [count, Node.countList, Node.count_addChild]
          omega
        · simp

/-- A run builds at most the elements that are reported. -/
theorem count_run (c : Content WString UInt8) (h : c.reports.foldlM sax s = some s') :
    s'.count ≤ s.count + c.size := by
  induction c generalizing s s' with
  | done =>
    obtain rfl := Option.some.inj h
    exact Nat.le_refl _
  | text chunk r ih =>
    rw [Content.reports, List.foldlM_cons] at h
    obtain ⟨t, hchars, hr⟩ := Option.bind_eq_some_iff.1 h
    exact Nat.le_trans (ih hr) (Nat.add_le_add_right (count_sax hchars) _)
  | element n as c r ihc ihr =>
    rw [Content.reports, List.cons_append, List.foldlM_cons] at h
    obtain ⟨t, hstart, h⟩ := Option.bind_eq_some_iff.1 h
    rw [List.foldlM_append] at h
    obtain ⟨u, hc, h⟩ := Option.bind_eq_some_iff.1 h
    rw [List.foldlM_cons] at h
    obtain ⟨v, hend, hr⟩ := Option.bind_eq_some_iff.1 h
    have h1 := count_sax hstart
    have h2 := ihc hc
    have h3 := count_sax hend
    have h4 := ihr hr
    rw [Content.size]
    dsimp only at h1 h3
    omega

/-- A run that builds all the elements puts none into an element of its name. -/
theorem noRepeat_of_count (c : Content WString UInt8) (n : WString) (as : List (WString × WString)) (d : List UInt8)
    (cs rest hs : List (Node WString UInt8)) (h : c.reports.foldlM sax ⟨.mk n as d cs :: rest, hs⟩ = some s')
    (hcount : s'.count = count ⟨.mk n as d cs :: rest, hs⟩ + c.size) : c.NoRepeat n := by
  induction c generalizing n as d cs rest s' with
  | done => trivial
  | text chunk r ih =>
    rw [Content.reports, List.foldlM_cons] at h
    exact ih n as chunk cs rest h hcount
  | element n' as' c r ihc ihr =>
    rw [Content.reports, List.cons_append, List.foldlM_cons] at h
    obtain ⟨t, hstart, h⟩ := Option.bind_eq_some_iff.1 h
    rw [List.foldlM_append] at h
    obtain ⟨u, hc, h⟩ := Option.bind_eq_some_iff.1 h
    rw [List.foldlM_cons] at h
    obtain ⟨v, hend, hr⟩ := Option.bind_eq_some_iff.1 h
    have h1 := count_sax hstart
    have h2 := count_run c hc
    have h3 := count_sax hend
    have h4 := count_run r hr
    rw [Content.size] at hcount
    dsimp only at h1 h3
    by_cases hne : n ≠ n'
    · obtain rfl : (⟨.mk n' as' [] [] :: .mk n as d cs :: rest, hs⟩ : EventController) = t :=
        Option.some.inj ((if_pos hne).symm.trans hstart)
      have hin : c.NoRepeat n' := ihc n' as' [] [] (.mk n as d cs :: rest) hc (by omega)
      have hafter : s'.count = v.count + r.size := by omega
      refine ⟨hne, hin, ?_⟩
      obtain rfl := Option.some.inj ((foldlM_reports c n' hin as' [] [] (.mk n as d cs :: rest) hs).symm.trans hc)
      obtain rfl := Option.some.inj ((if_pos rfl).symm.trans hend)
      exact ihr n as d _ rest hr hafter
    · -- the element is put into the current one, so that one is missing
      obtain rfl : (⟨Node.addAttributes as' (.mk n as d cs) :: rest, hs⟩ : EventController) = t :=
        Option.some.inj ((if_neg hne).symm.trans hstart)
      have hmerged : count ⟨Node.addAttributes as' (.mk n as d cs) :: rest, hs⟩ =
          count ⟨.mk n as d cs :: rest, hs⟩ := by
        simp only [count, Node.countList, Node.count_addAttributes]
      omega

/-- **What the client's handler builds**: a document, with data that `f` makes of the chunks, exactly if no
element has the name of the one it stands in and `f` gives the last chunk of each. -/
theorem document_iff (n : WString) (hname : n ≠ []) (as : List (WString × WString)) (c : Content WString UInt8)
    (f : List (List UInt8) → List UInt8) :
    (Content.element n as c .done).reports.foldlM sax {} = some ⟨[], [.mk n as (f c.chunks) (c.nodes f)]⟩ ↔
      c.NoRepeat n ∧ latest id [] c.chunks = f c.chunks ∧ c.Each fun chunks => latest id [] chunks = f chunks := by
  have hrun : (Content.element n as c .done).reports.foldlM sax {} =
      (c.reports.foldlM sax ⟨[.mk n as [] []], []⟩).bind fun s => s.sax (.endElement n) := by
    show (c.reports ++ [Report.endElement n]).foldlM sax ⟨[.mk n as [] []], []⟩ = _
    rw [List.foldlM_append]
    refine congrArg _ (funext fun s => ?_)
    rw [List.foldlM_cons]
    exact bind_pure _
  rw [hrun, ← Content.nodes_eq_iff]
  constructor
  · intro h
    obtain ⟨u, hc, hend⟩ := Option.bind_eq_some_iff.1 h
    have hcount := count_sax hend
    simp only [count, Node.countList, Node.count, Content.countList_nodes] at hcount
    have hle := count_run c hc
    have hno : c.NoRepeat n := by
      refine noRepeat_of_count c n as [] [] [] [] hc ?_
      simp only [count, Node.countList, Node.count] at hle ⊢
      omega
    rw [foldlM_reports c n hno] at h
    have heq := Option.some.inj ((congrArg some (if_pos (List.length_pos_iff_ne_nil.2 hname))).symm.trans h)
    simpa [hno] using heq
  · rintro ⟨hno, hdata, hnodes⟩
    rw [foldlM_reports c n hno, ← hdata, ← hnodes]
    exact congrArg some (if_pos (List.length_pos_iff_ne_nil.2 hname))

/-- There is no text, only tags. -/
def Tags (c : Content WString UInt8) : Prop := c.chunks = [] ∧ c.Each (· = [])

/-- The element, with all that stands in it and without data. -/
def tree (n : WString) (as : List (WString × WString)) (c : Content WString UInt8) : Node WString UInt8 :=
  .mk n as [] (c.nodes fun _ => [])

/-- **The client's handler builds the tree**, notifies once, with it, and uses no null element, exactly if no
element has the name of the one it stands in. The server's handler builds the tree in any case. -/
theorem tree_built_iff (n : WString) (hname : n ≠ []) (as : List (WString × WString)) (c : Content WString UInt8)
    (hc : Tags c) :
    ((Content.element n as c .done).reports.foldlM sax {} = some ⟨[], [tree n as c]⟩ ↔ c.NoRepeat n) ∧
      (Content.element n as c .done).reports.foldlM (TextHandler.sax id) {} = some ⟨[], [tree n as c]⟩ := by
  have hnodes : c.nodes (latest id []) = c.nodes fun _ => [] := by
    rw [Content.nodes_eq_iff]
    exact Content.Each.imp (fun chunks (h : chunks = []) => by rw [h]; rfl) c hc.2
  constructor
  · refine (document_iff n hname as c fun _ => []).trans ?_
    rw [← Content.nodes_eq_iff, hc.1]
    exact and_iff_left ⟨rfl, hnodes⟩
  · rw [TextHandler.run_document, hc.1, hnodes]
    rfl

/-- An element in an element of another name. -/
theorem tree_built_nested : (Content.element (lit "a") [] (.element (lit "b") [] .done .done) .done).reports.foldlM
    sax {} = some ⟨[], [tree (lit "a") [] (.element (lit "b") [] .done .done)]⟩ :=
  (tree_built_iff (lit "a") (by decide) [] (.element (lit "b") [] .done .done) ⟨rfl, rfl, trivial, trivial⟩).1.2
    ⟨by decide, trivial, trivial⟩

/-- An element in an element of its name: the root is notified when the inner one ends, and the last tag finds
no element. -/
theorem tree_repeated : (Content.element (lit "a") [] (.element (lit "a") [] .done .done) .done).reports.foldlM
    sax {} = none := rfl

/-- All of a text is in its last chunk. -/
def AtOnce (chunks : List (List UInt8)) : Prop := ∀ chunk ∈ chunks.dropLast, chunk = []

theorem latest_eq_flatten_iff (chunks : List (List UInt8)) : latest id [] chunks = chunks.flatten ↔ AtOnce chunks := by
  induction chunks using List.reverseRecOn with
  | nil => exact iff_of_true rfl fun _ h => nomatch h
  | append_singleton chunks last _ =>
    unfold latest AtOnce
    rw [List.getLast?_concat, List.dropLast_concat, List.flatten_append, List.flatten_singleton]
    show last = chunks.flatten ++ last ↔ _
    rw [List.self_eq_append_left, List.flatten_eq_nil_iff]

end Cpp.EventController

open TextHandler Cpp Cpp.EventController

/-- **Element text**: the data of all elements of a document is their whole text, on the server (where it is
trimmed) exactly if nothing but blanks comes before the last chunk of each element's text; on the client
exactly if nothing does and no element has the name of the one it stands in. A part of a file whose text
comes so is decoded and written. -/
theorem text_whole_iff (n : String) (as : List (String × String)) (c : Content String Char)
    (n' : WString) (hname : n' ≠ []) (as' : List (WString × WString)) (c' : Content WString UInt8) :
    ((Content.element n as c .done).reports.foldlM (TextHandler.sax trim) {} =
        some ⟨[], [.mk n as (trim c.chunks.flatten) (c.nodes fun chunks => trim chunks.flatten)]⟩ ↔
      BlankBefore c.chunks ∧ c.Each BlankBefore) ∧
    ((Content.element n' as' c' .done).reports.foldlM Cpp.EventController.sax {} =
        some ⟨[], [.mk n' as' c'.chunks.flatten (c'.nodes List.flatten)]⟩ ↔
      c'.NoRepeat n' ∧ AtOnce c'.chunks ∧ c'.Each AtOnce) ∧
    ∀ (decodeBuffer : List Char → Option (List UInt8)) (bytes outputFile : List UInt8) (partStart partEnd : Int32),
      BlankBefore c.chunks → parseInt (as.lookup "part-start") = some partStart →
      parseInt (as.lookup "part-end") = some partEnd → as.lookup "encoding" = some "base64" →
      decodeBuffer (trim c.chunks.flatten) = some bytes → (bytes.length : ℤ) = (partEnd - partStart).toInt →
      ∃ e, (Content.element n as c .done).reports.foldlM (TextHandler.sax trim) {} = some ⟨[], [e]⟩ ∧
        receiveFilePart decodeBuffer e outputFile = some (outputFile ++ bytes) := by
  refine ⟨serverText_iff n as c, ?_, ?_⟩
  · rw [document_iff n' hname, latest_eq_flatten_iff, Content.Each.congr latest_eq_flatten_iff]
  · intro decodeBuffer bytes outputFile partStart partEnd hblank hstart hend hencoding hdecode hlength
    refine ⟨_, run_document n as c, ?_⟩
    rw [(latest_eq_trim_iff c.chunks).2 hblank]
    unfold receiveFilePart
    simp only [Node.get, Node.data, hstart, hend, hencoding, hdecode, if_true, if_pos hlength]

/-- A part of one byte, behind chunks of blanks and empty ones. -/
theorem text_whole_behind :
    (∃ e, (Content.element "part" [("part-start", "0"), ("part-end", "1"), ("encoding", "base64")]
          (.text [' ', '\n'] (.text [] (.text ['Q', 'Q', '=', '='] .done))) .done).reports.foldlM
            (TextHandler.sax trim) {} = some ⟨[], [e]⟩ ∧
        receiveFilePart (fun s => if s = ['Q', 'Q', '=', '='] then some [65] else none) e [] = some [65]) ∧
      (Content.element (lit "part") [] (.text [] (.text [] (.text [81, 81, 61, 61] .done))) .done).reports.foldlM
        Cpp.EventController.sax {} = some ⟨[], [.mk (lit "part") [] [81, 81, 61, 61] []]⟩ :=
  ⟨(text_whole_iff "part" [("part-start", "0"), ("part-end", "1"), ("encoding", "base64")]
      (.text [' ', '\n'] (.text [] (.text ['Q', 'Q', '=', '='] .done))) (lit "part") (by decide) [] .done).2.2
      (fun s => if s = ['Q', 'Q', '=', '='] then some [65] else none) [65] [] 0 1
      (by simp [BlankBefore, Content.chunks, isBlank]) (by decide) (by decide) rfl (by decide) (by decide),
    (text_whole_iff "part" [] .done (lit "part") (by decide) [] (.text [] (.text [] (.text [81, 81, 61, 61] .done)))).2.1.2
      ⟨trivial, by unfold AtOnce; decide, trivial⟩⟩

/-- The same part in two chunks: the second takes the place of the first, on both sides. -/
theorem text_split :
    (Content.element "part" [] (.text ['Q', 'Q'] (.text ['=', '='] .done)) .done).reports.foldlM
        (TextHandler.sax trim) {} = some ⟨[], [.mk "part" [] ['=', '='] []]⟩ ∧
      (Content.element (lit "part") [] (.text [81, 81] (.text [61, 61] .done)) .done).reports.foldlM
        Cpp.EventController.sax {} = some ⟨[], [.mk (lit "part") [] [61, 61] []]⟩ ∧
      trim ['Q', 'Q', '=', '='] ≠ ['=', '='] :=
  ⟨rfl, rfl, by decide⟩

end CaptureHPC
