import CaptureHPC.Proof.UrlFactory
import CaptureHPC.Spec.UrlIntake

/-!
# What a line does to the intake

* `getUrl_caught_iff`: which texts the factory reads or rejects with the exception that is caught.
* `read_handled`, `handled_harmless`: what one line does.
* `intake_survives_iff`: all lines are dealt with if and only if none of them ends the thread.
-/

namespace CaptureHPC

open Lib

variable {validUri : String → Bool} {options : UrlOptions}

/-! ## What the factory throws -/

namespace UrlFactory

/-- A URL, or the exception that `addUrlEvent` catches. -/
def Caught (r : Except UrlException PriorityUrl) : Prop := (∃ url, r = .ok url) ∨ r = .error .uriSyntax

/-- The fields are those of one of the forms of a line, and their numbers are numbers. -/
def Fields : List String → Prop
  | [_] | [_, _] => True
  | [_, _, field] => parseInt field ≠ none ∨ parseDouble field ≠ none
  | [_, _, time, score] => parseInt time ≠ none ∧ parseDouble score ≠ none
  | _ => False

theorem caught_newUrl (u : String) (c : Option String) (t : Int32) (p : Binary64) (n : ℤ) :
    Caught (newUrl validUri options (some u) c t p n) := by
  by_cases h : validUri u = true
  · exact .inl ⟨_, by rw [newUrl, if_pos h]⟩
  · exact .inr (by rw [newUrl, if_neg h])

theorem not_caught_numberFormat : ¬Caught (.error .numberFormat) := by
  rintro (⟨url, h⟩ | h) <;> cases h

theorem not_caught_nullPointer : ¬Caught (.error .nullPointer) := by
  rintro (⟨url, h⟩ | h) <;> cases h

theorem parseUrl_none_id (u c : Option String) (t : Option Int32) (p : Option Binary64) :
    parseUrl validUri options u c t p none = .error .numberFormat := by
  unfold parseUrl
  split
  · rename_i h
    cases h
  · rfl

theorem not_caught_no_id (visitTime : Int32) (splitUrl : List String) :
    ¬Caught (getUrlFrom validUri options visitTime splitUrl none) := by
  unfold getUrlFrom
  split <;> simp only [parseUrl_none_id, catchNumberFormat_error] <;> exact not_caught_numberFormat

theorem getUrlFrom_caught_iff (visitTime : Int32) (splitUrl : List String) (n : ℤ) :
    Caught (getUrlFrom validUri options visitTime splitUrl (some n)) ↔ Fields splitUrl := by
  match splitUrl with
  | [] => exact iff_of_false not_caught_nullPointer not_false
  | [url] => exact iff_of_true (caught_newUrl _ _ _ _ _) trivial
  | [url, field] =>
    refine iff_of_true ?_ trivial
    rw [getUrlFrom]
    cases parseInt field with
    | some t => simpa using caught_newUrl ..
    | none =>
      cases parseDouble field with
      | some p => simpa using caught_newUrl ..
      | none => simpa using caught_newUrl ..
  | [url, client, field] =>
    rw [getUrlFrom, Fields]
    cases parseInt field with
    | some t => exact iff_of_true (by simpa using caught_newUrl ..) (.inl (Option.some_ne_none t))
    | none =>
      cases parseDouble field with
      | some p => exact iff_of_true (by simpa using caught_newUrl ..) (.inr (Option.some_ne_none p))
      | none => exact iff_of_false (by simpa using not_caught_numberFormat) (not_or.2 ⟨fun h => h rfl, fun h => h rfl⟩)
  | [url, client, time, score] =>
    rw [getUrlFrom, Fields]
    cases parseInt time with
    | none => exact iff_of_false (by simpa using not_caught_numberFormat) (fun h => h.1 rfl)
    | some t =>
      cases parseDouble score with
      | none => exact iff_of_false (by simpa using not_caught_numberFormat) (fun h => h.2 rfl)
      | some p => exact iff_of_true (caught_newUrl _ _ _ _ _) ⟨Option.some_ne_none t, Option.some_ne_none p⟩
  | _ :: _ :: _ :: _ :: _ :: _ => exact iff_of_false not_caught_nullPointer not_false

/-- A text that does not end the thread: the default visit time and the id are numbers, and the fields are as
they should be. -/
def Readable (options : UrlOptions) (url id : String) : Prop :=
  parseInt options.clientDefaultVisitTime ≠ none ∧ parseLong id ≠ none ∧ Fields (splitTokenizedUrl url)

/-- **Which texts are read, or rejected by the exception that is caught.** -/
theorem getUrl_caught_iff (validUri : String → Bool) (options : UrlOptions) (url id : String) :
    Caught (getUrl validUri options url id) ↔ Readable options url id := by
  unfold getUrl Readable
  cases parseInt options.clientDefaultVisitTime with
  | none => exact iff_of_false not_caught_numberFormat (fun h => h.1 rfl)
  | some visitTime =>
    cases parseLong id with
    | none => exact iff_of_false (not_caught_no_id _ _) (fun h => h.2.1 rfl)
    | some n => simpa using getUrlFrom_caught_iff visitTime _ n

end UrlFactory

/-! ## What is dealt with -/

namespace Intake

/-- A text is dealt with: its URL is put into the queue, unless one like it is there and that is logged; or the
text makes no URL, and that is logged. -/
def Dealt (validUri : String → Bool) (options : UrlOptions) (s : Intake) (url id : String) (s' : Intake) : Prop :=
  (∃ u, UrlFactory.getUrl validUri options url id = .ok u ∧
    (s'.urlQueue.Perm (u :: s.urlQueue) ∧ s'.log = s.log ++ [.queued u] ∨
      UrlQueue.inUrlQueue u s.urlQueue = true ∧ s'.urlQueue = s.urlQueue ∧ s'.log = s.log ++ [.duplicate u])) ∨
  ((∀ u, UrlFactory.getUrl validUri options url id ≠ .ok u) ∧ s'.urlQueue = s.urlQueue ∧
    s'.log = s.log ++ [.invalid url])

/-- The texts of a line are dealt with one after the other; a line without texts is ignored. -/
inductive DealtAll (validUri : String → Bool) (options : UrlOptions) : Intake → List (String × String) → Intake → Prop
  | nil (s : Intake) : DealtAll validUri options s [] s
  | cons {s s' s'' : Intake} {url id : String} {us : List (String × String)} (h : Dealt validUri options s url id s')
      (hus : DealtAll validUri options s' us s'') : DealtAll validUri options s ((url, id) :: us) s''

theorem dealt_addUrl {s : Intake} {url id : String} {u : PriorityUrl}
    (h : UrlFactory.getUrl validUri options url id = .ok u) : Dealt validUri options s url id (addUrl u s) := by
  refine .inl ⟨u, h, ?_⟩
  by_cases hin : UrlQueue.inUrlQueue u s.urlQueue = true
  · rw [addUrl, if_pos hin]
    exact .inr ⟨hin, rfl, rfl⟩
  · rw [addUrl, if_neg hin, UrlQueue.addUrl, if_neg hin]
    exact .inl ⟨PriorityQueue.offer_perm _ _, rfl⟩

/-- A text is dealt with exactly if the factory does not throw what nobody catches. -/
theorem addUrlEvent_returns_iff (validUri : String → Bool) (s : Intake) (url id : String) :
    (∃ s', (addUrlEvent validUri options url id).run s = .ok ⟨⟩ s') ↔ UrlFactory.Readable options url id := by
  rw [← UrlFactory.getUrl_caught_iff validUri, addUrlEvent]
  cases hget : UrlFactory.getUrl validUri options url id with
  | ok u => exact iff_of_true ⟨_, rfl⟩ (.inl ⟨u, rfl⟩)
  | error e =>
    cases e with
    | uriSyntax => exact iff_of_true ⟨_, rfl⟩ (.inr rfl)
    | numberFormat => exact iff_of_false (by rintro ⟨s', h⟩; cases h) UrlFactory.not_caught_numberFormat
    | nullPointer => exact iff_of_false (by rintro ⟨s', h⟩; cases h) UrlFactory.not_caught_nullPointer

theorem addUrlEvent_dealt {s s' : Intake} {url id : String}
    (h : (addUrlEvent validUri options url id).run s = .ok ⟨⟩ s') : Dealt validUri options s url id s' := by
  rw [addUrlEvent] at h
  cases hget : UrlFactory.getUrl validUri options url id with
  | ok u =>
    rw [hget] at h
    cases h
    exact dealt_addUrl hget
  | error e =>
    rw [hget] at h
    cases e with
    | uriSyntax =>
      cases h
      refine .inr ⟨fun u hu => ?_, rfl, rfl⟩
      rw [hget] at hu
      cases hu
    | numberFormat => cases h
    | nullPointer => cases h

theorem addUrlEvents_returns_iff (validUri : String → Bool) (s : Intake) (us : List (String × String)) :
    (∃ s', (forM us fun u => addUrlEvent validUri options u.1 u.2).run s = .ok ⟨⟩ s') ↔
      ∀ u ∈ us, UrlFactory.Readable options u.1 u.2 := by
  induction us generalizing s with
  | nil => exact iff_of_true ⟨s, rfl⟩ (by simp)
  | cons u us ih =>
    rw [List.forM_cons, List.forall_mem_cons, ← addUrlEvent_returns_iff validUri s u.1 u.2]
    constructor
    · rintro ⟨s', hrun⟩
      obtain ⟨_, t, hu, hus⟩ := run_bind_eq_ok hrun
      exact ⟨⟨t, hu⟩, (ih t).1 ⟨s', hus⟩⟩
    · rintro ⟨⟨t, ht⟩, hus⟩
      obtain ⟨s', hrun⟩ := (ih t).2 hus
      exact ⟨s', by rw [run_bind_ok ht, hrun]⟩

theorem addUrlEvents_dealt {s s' : Intake} {us : List (String × String)}
    (h : (forM us fun u => addUrlEvent validUri options u.1 u.2).run s = .ok ⟨⟩ s') :
    DealtAll validUri options s us s' := by
  induction us generalizing s with
  | nil =>
    cases h
    exact .nil _
  | cons u us ih =>
    rw [List.forM_cons] at h
    obtain ⟨_, t, hu, hus⟩ := run_bind_eq_ok h
    exact .cons (addUrlEvent_dealt hu) (ih hus)

end Intake

/-! ## Lines -/

namespace Source

/-- The command that ends the thread. -/
def stop : Source → Ending
  | .socket => .exit
  | .file _ => .endOfUrls

/-- The texts and ids that a line hands on, or nothing when it is the command that ends the thread. -/
def urls : Source → String → Option (List (String × String))
  | .socket, mesg =>
    match ServerController.urlOf mesg with
    | some u => some [u]
    | none => if mesg = "exit" then none else some []
  | .file preprocess, line =>
    let text := String.ofList (TextHandler.trim line.toList)
    if line = "" then some []
    else if equalsIgnoreCase text "end" then none
    else if ['#'] <+: text.toList then some []
    else some ((preprocess text).map fun url => (url, "-1"))

theorem read_eq (source : Source) (text : String) : source.read validUri options text =
    match source.urls text with
    | some us => forM us fun u => Intake.addUrlEvent validUri options u.1 u.2
    | none => throw source.stop := by
  cases source with
  | socket =>
    rw [read, ServerController.parse, urls]
    cases ServerController.urlOf text with
    | some u =>
      show _ = forM [u] fun u => Intake.addUrlEvent validUri options u.1 u.2
      rw [List.forM_cons, List.forM_nil]
      exact (bind_pure _).symm
    | none =>
      by_cases hexit : text = "exit"
      · rw [if_pos hexit, if_pos hexit]
        rfl
      · rw [if_neg hexit, if_neg hexit]
        rfl
  | file preprocess =>
    simp only [read, Preprocessor.readInputUrl, urls]
    split_ifs with hempty hend hcomment
    · rfl
    · rfl
    · rfl
    · show _ = forM ((preprocess _).map fun url => (url, "-1")) fun u => Intake.addUrlEvent validUri options u.1 u.2
      rw [List.forM_map]
      rfl

/-- A line that does not end the thread: not the command to do so, and with texts that can be read. -/
def Harmless (options : UrlOptions) (source : Source) (text : String) : Prop :=
  ∃ us, source.urls text = some us ∧ ∀ u ∈ us, UrlFactory.Readable options u.1 u.2

/-- The thread has come to a line, deals with its texts and goes on. -/
def Handled (validUri : String → Bool) (options : UrlOptions) (source : Source) (r : Reading) (text : String) : Prop :=
  r.ending = none ∧ ∃ us s, source.urls text = some us ∧
    (source.read validUri options text).run r.intake = .ok ⟨⟩ s ∧ Intake.DealtAll validUri options r.intake us s

theorem handled_of_harmless (validUri : String → Bool) {source : Source} {r : Reading} {text : String} (hr : r.ending = none)
    (h : source.Harmless options text) : source.Handled validUri options r text := by
  obtain ⟨us, hus, hread⟩ := h
  obtain ⟨s, hs⟩ := (Intake.addUrlEvents_returns_iff validUri r.intake us).2 hread
  exact ⟨hr, us, s, hus, by rw [read_eq, hus]; exact hs, Intake.addUrlEvents_dealt hs⟩

theorem harmless_of_handled {source : Source} {r : Reading} {text : String}
    (h : source.Handled validUri options r text) : source.Harmless options text := by
  obtain ⟨-, us, s, hus, hrun, -⟩ := h
  rw [read_eq, hus] at hrun
  exact ⟨us, hus, (Intake.addUrlEvents_returns_iff validUri r.intake us).1 ⟨s, hrun⟩⟩

/-- A line that is handled does not end the thread, and what others do with the queue never does. -/
theorem ending_step {source : Source} {r : Reading} {e : IntakeEvent} (hr : r.ending = none)
    (h : ∀ text, e = .line text → source.Harmless options text) : (source.step validUri options r e).ending = none := by
  cases e with
  | line text =>
    obtain ⟨-, us, s, -, hrun, -⟩ := handled_of_harmless validUri hr (h text rfl)
    rw [step, if_pos hr, hrun]
  | elsewhere call => exact hr

theorem ending_run {source : Source} {r : Reading} {events : List IntakeEvent} (hr : r.ending = none)
    (h : ∀ text, .line text ∈ events → source.Harmless options text) :
    (source.run validUri options r events).ending = none := by
  induction events generalizing r with
  | nil => exact hr
  | cons e events ih =>
    refine ih (ending_step hr ?_) fun text hin => h text (List.mem_cons_of_mem _ hin)
    rintro text rfl
    exact h text List.mem_cons_self

/-- **All lines are dealt with exactly if none of them ends the thread.** Whatever other threads do with the
queue in between, each line is reached, its URLs are in the queue or logged, and the next line is read. -/
theorem intake_survives_iff (validUri : String → Bool) (options : UrlOptions) (source : Source) (s : Intake)
    (events : List IntakeEvent) :
    (∀ before text after, events = before ++ .line text :: after →
      source.Handled validUri options (source.run validUri options { intake := s } before) text) ↔
      ∀ text, .line text ∈ events → source.Harmless options text := by
  constructor
  · intro h text hin
    obtain ⟨before, after, hevents⟩ := List.append_of_mem hin
    exact harmless_of_handled (h before text after hevents)
  · rintro h before text after rfl
    have hbefore : ∀ text, .line text ∈ before → source.Harmless options text :=
      fun text hin => h text (List.mem_append_left _ hin)
    exact handled_of_harmless validUri (ending_run rfl hbefore) (h text (by simp))

/-- An id that is not a number: the URL behind it is never read. -/
theorem badId_stops :
    let options : UrlOptions := ⟨"iexplore", some "10"⟩
    let events := [IntakeEvent.line "addurl http://a/ x", .line "addurl http://b/"]
    ¬(∀ before text after, events = before ++ .line text :: after →
      Source.socket.Handled (fun _ => true) options (Source.socket.run (fun _ => true) options {} before) text) ∧
      Source.socket.run (fun _ => true) options {} events =
        { intake := {}, ending := some (.thrown .numberFormat) } := by
  have hrun : ∀ s : Intake, (Source.socket.read (fun _ => true) ⟨"iexplore", some "10"⟩ "addurl http://a/ x").run s =
      .error (.thrown .numberFormat) s := by
    intro s
    have hurl : ServerController.urlOf "addurl http://a/ x" = some ("http://a/", "x") := by decide
    have hget : UrlFactory.getUrl (fun _ => true) ⟨"iexplore", some "10"⟩ "http://a/" "x" = .error .numberFormat := by
      decide
    rw [read, ServerController.parse, hurl]
    simp only [Intake.addUrlEvent, hget]
    rfl
  constructor
  · intro h
    obtain ⟨-, us, s, -, hs, -⟩ := h [] "addurl http://a/ x" [.line "addurl http://b/"] rfl
    rw [hrun] at hs
    cases hs
  · have hfirst : Source.socket.step (fun _ => true) ⟨"iexplore", some "10"⟩ {} (.line "addurl http://a/ x") =
        { intake := {}, ending := some (.thrown .numberFormat) } := by
      rw [step, if_pos rfl, hrun]
    rw [run, List.foldl_cons, hfirst]
    rfl

end Source

end CaptureHPC
