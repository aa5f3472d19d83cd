import CaptureHPC.Spec.Visitor

/-!
# The visitor's events

* The events in `toVisit` are those that the visitor has been woken for, or will be, and one
  for each time that the event was set when it was set already (`Owed.length`). So the queue
  does not underflow, and it starves after a burst and only then (`visitor_served`).
* Which codes and exceptions a plugin may end with for one start and one terminal message
  (`one_terminal_iff`).
-/

namespace CaptureHPC.Cpp

open Lib

namespace VisitorQueue

variable {s s' : VisitorQueue} {a : VisitorStep}

/-- What every step keeps. -/
structure Owed (s : VisitorQueue) : Prop where
  order : s.visited ++ s.toVisit = s.accepted
  length : s.toVisit.length =
    s.unnoticed + s.hQueueNotEmpty.toNat + (if s.visitor = .woken then 1 else 0) + s.arriving.toNat
  blocked : s.visitor = .blocked → s.hQueueNotEmpty = false

theorem Owed.start : Owed {} := ⟨rfl, rfl, fun _ => rfl⟩

theorem Owed.arrive (h : s.Owed) (hidle : s.arriving = false) (visitEvent : VisitEvent) :
    Owed { s with
      toVisit := s.toVisit ++ [visitEvent]
      accepted := s.accepted ++ [visitEvent]
      arriving := true } where
  order := by
    rw [← h.order, List.append_assoc]
  length := by
    have hlength := h.length
    rw [hidle, Bool.toNat_false] at hlength
    rw [List.length_append, List.length_singleton, hlength]
    rfl
  blocked := h.blocked

/-- The event is set: the thread goes on, or the event is remembered, or it was so already. -/
theorem Owed.setEvent (h : s.Owed) (harriving : s.arriving = true) :
    ({ s with arriving := false } : VisitorQueue).setEvent.Owed := by
  have hlength := h.length
  rw [harriving, Bool.toNat_true] at hlength
  unfold VisitorQueue.setEvent
  by_cases hblocked : s.visitor = .blocked
  · rw [if_pos hblocked]
    refine ⟨h.order, ?_, fun h => nomatch h⟩
    rw [hblocked, if_neg (by decide)] at hlength
    show s.toVisit.length = s.unnoticed + s.hQueueNotEmpty.toNat + 1 + 0
    omega
  · rw [if_neg hblocked]
    refine ⟨h.order, ?_, fun hb => absurd hb hblocked⟩
    show s.toVisit.length = s.unnoticed + s.hQueueNotEmpty.toNat + 1 + (if s.visitor = .woken then 1 else 0) + 0
    omega

theorem Owed.wait (h : s.Owed) (hwait : s.visitor = .atWait) : (s.hQueueNotEmpty = true →
    Owed { s with hQueueNotEmpty := false, visitor := .woken }) ∧
    (s.hQueueNotEmpty = false → Owed { s with visitor := .blocked }) := by
  have hlength := h.length
  rw [hwait, if_neg (by decide)] at hlength
  constructor
  · intro hset
    rw [hset, Bool.toNat_true] at hlength
    refine ⟨h.order, ?_, fun h => nomatch h⟩
    rw [hlength]
    rfl
  · intro hreset
    exact ⟨h.order, hlength, fun _ => hreset⟩

theorem Owed.front (h : s.Owed) (hwoken : s.visitor = .woken) {visitEvent : VisitEvent} {rest : List VisitEvent}
    (hq : s.toVisit = visitEvent :: rest) :
    Owed { s with toVisit := rest, visited := s.visited ++ [visitEvent], visitor := .visiting } where
  order := by
    have horder := h.order
    rw [hq] at horder
    rw [← horder, List.append_assoc]
    rfl
  length := by
    have hlength := h.length
    rw [hq, hwoken, if_pos rfl, List.length_cons] at hlength
    dsimp only
    rw [if_neg (by decide)]
    omega
  blocked h := nomatch h

theorem Owed.finish (h : s.Owed) (hvisiting : s.visitor = .visiting) : Owed { s with visitor := .atWait } where
  order := h.order
  length := by
    have hlength := h.length
    rw [hvisiting] at hlength
    exact hlength
  blocked h := nomatch h

/-- **One step.** -/
theorem Owed.step (h : s.Owed) (hstep : s.step a = some s') : s'.Owed := by
  cases a with
  | onServerEvent visitEvent =>
    simp only [VisitorQueue.step] at hstep
    split_ifs at hstep with harriving hurls
    · exact Option.some.inj hstep ▸ h.arrive (by simpa using harriving) visitEvent
    · exact Option.some.inj hstep ▸ h
  | setEvent =>
    simp only [VisitorQueue.step] at hstep
    split_ifs at hstep with harriving
    exact Option.some.inj hstep ▸ h.setEvent harriving
  | waitForSingleObject =>
    simp only [VisitorQueue.step] at hstep
    split_ifs at hstep with hwait hset
    · exact Option.some.inj hstep ▸ (h.wait hwait).1 hset
    · exact Option.some.inj hstep ▸ (h.wait hwait).2 (by simpa using hset)
  | front =>
    simp only [VisitorQueue.step] at hstep
    split at hstep
    · rename_i hwoken hq
      exact Option.some.inj hstep ▸ h.front hwoken hq
    · exact absurd hstep (by simp)
  | finish =>
    simp only [VisitorQueue.step] at hstep
    split_ifs at hstep with hvisiting
    exact Option.some.inj hstep ▸ h.finish hvisiting

/-- When the event is set it is not set already. -/
def FindsReset (s : VisitorQueue) : VisitorStep → Prop
  | .setEvent => s.hQueueNotEmpty = false
  | _ => True

instance (s : VisitorQueue) (a : VisitorStep) : Decidable (s.FindsReset a) :=
  match a with
  | .setEvent => inferInstanceAs (Decidable (s.hQueueNotEmpty = false))
  | .onServerEvent _ | .waitForSingleObject | .front | .finish => .isTrue trivial

theorem unnoticed_step (hfinds : FindsReset s a) (hstep : s.step a = some s') : s'.unnoticed = s.unnoticed := by
  cases a with
  | onServerEvent visitEvent =>
    simp only [VisitorQueue.step] at hstep
    split_ifs at hstep <;> exact Option.some.inj hstep ▸ rfl
  | setEvent =>
    simp only [VisitorQueue.step, VisitorQueue.setEvent] at hstep
    have hreset : s.hQueueNotEmpty = false := hfinds
    split_ifs at hstep
    · exact Option.some.inj hstep ▸ rfl
    · obtain rfl := Option.some.inj hstep
      show s.unnoticed + s.hQueueNotEmpty.toNat = s.unnoticed
      rw [hreset]
      rfl
  | waitForSingleObject =>
    simp only [VisitorQueue.step] at hstep
    split_ifs at hstep <;> exact Option.some.inj hstep ▸ rfl
  | front =>
    simp only [VisitorQueue.step] at hstep
    split at hstep
    · exact Option.some.inj hstep ▸ rfl
    · exact absurd hstep (by simp)
  | finish =>
    simp only [VisitorQueue.step] at hstep
    split_ifs at hstep
    exact Option.some.inj hstep ▸ rfl

/-- The thread never takes the front of an empty queue, and visits the events in the order of
their arrival, each once. -/
structure InOrder (s : VisitorQueue) : Prop where
  front : s.visitor = .woken → s.toVisit ≠ []
  order : s.visited ++ s.toVisit = s.accepted

/-- The thread is blocked while an event waits and none is arriving. -/
def Starves (s : VisitorQueue) : Prop := s.visitor = .blocked ∧ s.arriving = false ∧ s.toVisit ≠ []

theorem Owed.inOrder (h : s.Owed) : s.InOrder where
  front hwoken hnil := by
    have hlength := h.length
    rw [hwoken, if_pos rfl, hnil, List.length_nil] at hlength
    omega
  order := h.order

theorem Owed.starves_iff (h : s.Owed) :
    s.Starves ↔ s.visitor = .blocked ∧ s.arriving = false ∧ s.unnoticed ≠ 0 := by
  unfold Starves
  refine and_congr_right fun hblocked => and_congr_right fun hidle => ?_
  have hlength := h.length
  rw [h.blocked hblocked, hblocked, hidle, if_neg (by decide)] at hlength
  rw [← List.length_pos_iff_ne_nil, hlength]
  simp [Nat.pos_iff_ne_zero]

/-- **The visitor's queue.** In every run the events are visited in order and the queue does not
underflow, and the visitor starves exactly when the event has been set when it was set already; so
in the runs in which that never happens it does not starve. -/
theorem visitor_served (s : VisitorQueue) :
    (Reaches step anyStep {} s → s.InOrder ∧
      (s.Starves ↔ s.visitor = .blocked ∧ s.arriving = false ∧ s.unnoticed ≠ 0)) ∧
      (Reaches step FindsReset {} s → s.InOrder ∧ ¬ s.Starves) := by
  constructor
  · intro h
    have howed : s.Owed := h.invariant Owed.start fun _ _ _ hs _ hstep => hs.step hstep
    exact ⟨howed.inOrder, howed.starves_iff⟩
  · intro h
    have howed : s.Owed := h.invariant Owed.start fun _ _ _ hs _ hstep => hs.step hstep
    have hnoticed : s.unnoticed = 0 :=
      h.invariant (P := fun s => s.unnoticed = 0) rfl fun _ _ _ hs hok hstep => (unnoticed_step hok hstep).trans hs
    exact ⟨howed.inOrder, fun hstarves => (howed.starves_iff.1 hstarves).2.2 hnoticed⟩

def emptyUrl : VisitEvent := { identifier := [], program := [], urls := [[]] }

def secondUrl : VisitEvent := { identifier := lit "2", program := [], urls := [[]] }

/-- An event arrives before the thread waits, and another one while it visits. -/
def inTurn : List VisitorStep :=
  [.onServerEvent emptyUrl, .setEvent, .waitForSingleObject, .front, .onServerEvent secondUrl, .setEvent, .finish,
    .waitForSingleObject, .front, .finish, .waitForSingleObject]

theorem visitor_served_inTurn : ∃ s : VisitorQueue, run (guarded step FindsReset) {} inTurn = some s ∧
    s.visited = [emptyUrl, secondUrl] ∧ s.InOrder ∧ ¬ s.Starves := by
  obtain ⟨s, hs, hvisited⟩ : ∃ s, run (guarded step FindsReset) {} inTurn = some s ∧ s.visited = [emptyUrl, secondUrl] :=
    ⟨_, rfl, rfl⟩
  exact ⟨s, hs, hvisited, (visitor_served s).2 (.of_guarded hs)⟩

/-- Two events arrive before the thread waits. -/
def burst : List VisitorStep :=
  [.onServerEvent emptyUrl, .setEvent, .onServerEvent emptyUrl, .setEvent, .waitForSingleObject, .front, .finish,
    .waitForSingleObject]

/-- The second is not visited. -/
theorem burst_starves : ∃ s, run step {} burst = some s ∧ s.Starves :=
  ⟨_, rfl, rfl, rfl, by simp⟩

end VisitorQueue

open ErrorCodes

/-- The document is about this event. -/
def VisitMessage.Concerns (m : VisitMessage) (e : VisitEvent) : Prop :=
  m.visitEvent.identifier = e.identifier ∧ m.visitEvent.program = e.program ∧ m.visitEvent.urls = e.urls

namespace Visitor

variable {e : VisitEvent} {b : Behaviour} {algorithm : WString}

section errorCode

variable {codes : List UInt32}

theorem foldl_setErrorCode_of_isError (h : e.errorCode ≠ captureVisitationOk) (hcodes : codes ≠ []) :
    (codes.foldl VisitEvent.setErrorCode e).errorCode = captureVisitationMultipleErrors := by
  induction codes generalizing e with
  | nil => exact absurd rfl hcodes
  | cons c codes ih =>
    have hset : (e.setErrorCode c).errorCode = captureVisitationMultipleErrors := if_pos h
    rw [List.foldl_cons]
    by_cases hnil : codes = []
    · rw [hnil]
      exact hset
    · exact ih (by rw [hset]; decide) hnil

/-- The code of an event is the first that is not OK, or says that there were several. -/
theorem foldl_setErrorCode (h : e.errorCode = captureVisitationOk) :
    (codes.foldl VisitEvent.setErrorCode e).errorCode =
      match codes.dropWhile (· = captureVisitationOk) with
      | [] => captureVisitationOk
      | [c] => c
      | _ => captureVisitationMultipleErrors := by
  induction codes generalizing e with
  | nil => exact h
  | cons c codes ih =>
    have hset : (e.setErrorCode c).errorCode = c := if_neg (not_not.2 h)
    rw [List.foldl_cons]
    by_cases hc : c = captureVisitationOk
    · rw [List.dropWhile_cons, if_pos (decide_eq_true hc)]
      exact ih (hset.trans hc)
    · rw [List.dropWhile_cons, if_neg (by simpa using hc)]
      cases codes with
      | nil => exact hset
      | cons d codes => exact foldl_setErrorCode_of_isError (by rw [hset]; exact hc) (by simp)

end errorCode

/-- The plugin leaves nothing of the event but its code changed. -/
theorem visitGroup_concerns : (visitGroup b e).identifier = e.identifier ∧ (visitGroup b e).program = e.program ∧
    (visitGroup b e).urls = e.urls := by
  unfold visitGroup
  induction b.errorCodes generalizing e with
  | nil => exact ⟨rfl, rfl, rfl⟩
  | cons c codes ih => exact ih (e := e.setErrorCode c)

/-- Once the codes that say OK are dropped, these codes alone, or none, are left. -/
def reported (b : Behaviour) : List UInt32 := b.errorCodes.dropWhile (· = captureVisitationOk)

/-- A plugin that returns does not leave an event with a code that says prestart, start or
postfinish; and one that throws leaves it with one that says prestart or postfinish. -/
def EndsOnce (b : Behaviour) : Prop :=
  if b.throws then reported b = [captureVisitationPrestart] ∨ reported b = [captureVisitationPostfinish]
  else reported b ≠ [captureVisitationPrestart] ∧ reported b ≠ [captureVisitationStart] ∧
    reported b ≠ [captureVisitationPostfinish]

def IsStart (e : VisitEvent) (m : VisitMessage) : Prop := m.type = lit "start" ∧ m.Concerns e

def IsTerminal (e : VisitEvent) (m : VisitMessage) : Prop :=
  (m.type = lit "finish" ∨ m.type = lit "error") ∧ m.Concerns e

section update

variable {c : UInt32} {seen : Seen} {m : VisitMessage}

theorem update_eq_none : Analyzer.update c e seen = none ↔
    c = captureVisitationPrestart ∨ c = captureVisitationPostfinish := by
  unfold Analyzer.update
  split_ifs with h1 h2 h3 h4
  · exact iff_of_true rfl (.inl h1)
  · exact iff_of_false (by simp) (by rw [h2]; decide)
  · exact iff_of_false (by simp) (by rw [h3]; decide)
  · exact iff_of_true rfl (.inr h4)
  · exact iff_of_false (by simp) (not_or.2 ⟨h1, h4⟩)

theorem update_some (h : Analyzer.update c e seen = some m) : m.visitEvent = e ∧
    (c = captureVisitationStart ∧ m.type = lit "start" ∨
      c ≠ captureVisitationStart ∧ (m.type = lit "finish" ∨ m.type = lit "error")) := by
  unfold Analyzer.update at h
  split_ifs at h with h1 h2 h3 h4 <;> obtain rfl := Option.some.inj h
  · exact ⟨rfl, .inl ⟨h2, rfl⟩⟩
  · exact ⟨rfl, .inr ⟨h2, .inl rfl⟩⟩
  · exact ⟨rfl, .inr ⟨h2, .inr rfl⟩⟩

end update

theorem start_ne_terminal {m : VisitMessage} (hstart : m.type = lit "start") :
    ¬ (m.type = lit "finish" ∨ m.type = lit "error") := by
  rw [hstart]
  decide

/-- The code that the visit ends with. -/
def endCode (visited : VisitEvent) : UInt32 :=
  if visited.isError then visited.errorCode else captureVisitationFinish

/-- What is sent after the start message. -/
def tail (algorithm : WString) (e : VisitEvent) (b : Behaviour) : List VisitMessage :=
  let visited := visitGroup b { e with algorithm := algorithm }
  (if b.throws then [⟨visited, some captureVisitationException, lit "error", b.exception⟩] else []) ++
    (Analyzer.update (endCode visited) visited b.terminal).toList

theorem visit_eq : visit algorithm e b =
    ⟨{ e with algorithm := algorithm }, none, lit "start", b.start⟩ :: tail algorithm e b := by
  have hexception : ∀ v : VisitEvent, (Analyzer.update captureVisitationException v b.exception).toList =
      [⟨v, some captureVisitationException, lit "error", b.exception⟩] := fun _ => rfl
  have hend : ∀ v : VisitEvent, (if v.isError then (Analyzer.update v.errorCode v b.terminal).toList
      else (Analyzer.update captureVisitationFinish v b.terminal).toList) =
      (Analyzer.update (endCode v) v b.terminal).toList := by
    intro v
    unfold endCode
    split_ifs <;> rfl
  unfold visit
  dsimp only
  rw [hend, hexception]
  exact List.append_nil _

theorem endCode_eq (h : e.errorCode = captureVisitationOk) : endCode (visitGroup b e) =
    match reported b with
    | [] => captureVisitationFinish
    | [c] => c
    | _ => captureVisitationMultipleErrors := by
  have hcode : (visitGroup b e).errorCode = _ := foldl_setErrorCode h
  have hhead : ∀ c codes, reported b = c :: codes → c ≠ captureVisitationOk := by
    intro c codes hc
    have hnot := List.head?_dropWhile_not (fun x => decide (x = captureVisitationOk)) b.errorCodes
    rw [show b.errorCodes.dropWhile (fun x => decide (x = captureVisitationOk)) = c :: codes from hc] at hnot
    simpa using hnot
  rw [endCode, VisitEvent.isError, hcode]
  rw [show b.errorCodes.dropWhile (fun x => decide (x = captureVisitationOk)) = reported b from rfl]
  cases hr : reported b with
  | nil => rfl
  | cons c codes =>
    cases codes with
    | nil => exact if_pos (decide_eq_true (hhead c [] hr))
    | cons d codes => rfl

theorem endCode_iff (h : e.errorCode = captureVisitationOk) {c : UInt32} (hfinish : c ≠ captureVisitationFinish)
    (hmultiple : c ≠ captureVisitationMultipleErrors) : endCode (visitGroup b e) = c ↔ reported b = [c] := by
  rw [endCode_eq h]
  cases hr : reported b with
  | nil => exact iff_of_false (fun hc => hfinish hc.symm) (by simp)
  | cons d codes =>
    cases codes with
    | nil => simp
    | cons d' codes => exact iff_of_false (fun hc => hmultiple hc.symm) (by simp)

theorem endsOnce_iff (h : e.errorCode = captureVisitationOk) : EndsOnce b ↔
    if b.throws then endCode (visitGroup b e) = captureVisitationPrestart ∨
      endCode (visitGroup b e) = captureVisitationPostfinish
    else endCode (visitGroup b e) ≠ captureVisitationPrestart ∧ endCode (visitGroup b e) ≠ captureVisitationStart ∧
      endCode (visitGroup b e) ≠ captureVisitationPostfinish := by
  rw [Ne, Ne, Ne, endCode_iff h (by decide) (by decide), endCode_iff h (by decide) (by decide),
    endCode_iff h (by decide) (by decide)]
  rfl

/-- After the start message a single terminal message is sent exactly if the plugin ends so. -/
theorem tail_iff (algorithm : WString) (h : e.errorCode = captureVisitationOk) :
    (∃ m, tail algorithm e b = [m] ∧ IsTerminal e m) ↔ EndsOnce b := by
  have hconcerns := visitGroup_concerns (b := b) (e := { e with algorithm := algorithm })
  rw [endsOnce_iff (e := { e with algorithm := algorithm }) h, tail]
  generalize visitGroup b { e with algorithm := algorithm } = visited at hconcerns
  cases hu : Analyzer.update (endCode visited) visited b.terminal with
  | none =>
    -- nothing is sent for the code, so only the exception's error message is there
    have hcode := update_eq_none.1 hu
    split_ifs with hthrows
    · exact iff_of_true ⟨_, rfl, .inr rfl, hconcerns⟩ hcode
    · refine iff_of_false (by simp) ?_
      rintro ⟨hpre, -, hpost⟩
      exact hcode.elim hpre hpost
  | some m =>
    obtain ⟨hevent, htype⟩ := update_some hu
    have hcode := mt update_eq_none.2 (hu ▸ Option.some_ne_none m)
    rw [not_or] at hcode
    split_ifs with hthrows
    · exact iff_of_false (by simp) (not_or.2 hcode)
    · rcases htype with ⟨hstart, htype⟩ | ⟨hstart, htype⟩
      · refine iff_of_false ?_ (fun h => h.2.1 hstart)
        rintro ⟨m', hm, hterminal, -⟩
        obtain rfl : m = m' := List.singleton_inj.1 hm
        exact start_ne_terminal htype hterminal
      · refine iff_of_true ⟨m, rfl, htype, ?_⟩ ⟨hcode.1, hstart, hcode.2⟩
        rw [VisitMessage.Concerns, hevent]
        exact hconcerns

theorem tail_length (algorithm : WString) (e : VisitEvent) (b : Behaviour) : (tail algorithm e b).length ≤ 2 := by
  unfold tail
  dsimp only
  rw [List.length_append]
  have hexception : (if b.throws then [(⟨visitGroup b { e with algorithm := algorithm }, some captureVisitationException,
    lit "error", b.exception⟩ : VisitMessage)] else []).length ≤ 1 := by split_ifs <;> simp
  have hend : (Analyzer.update (endCode (visitGroup b { e with algorithm := algorithm }))
    (visitGroup b { e with algorithm := algorithm }) b.terminal).toList.length ≤ 1 := by
    cases Analyzer.update _ _ b.terminal <;> simp
  omega

/-- A start message and a terminal message for each event, and nothing else. -/
def OneTerminal : List (VisitEvent × Behaviour) → List VisitMessage → Prop
  | [], ms => ms = []
  | v :: vs, ms => ∃ start terminal rest, ms = start :: terminal :: rest ∧ IsStart v.1 start ∧
      IsTerminal v.1 terminal ∧ OneTerminal vs rest

section sent

variable {applicationMap : WString → Option WString} {v : VisitEvent × Behaviour} {vs : List (VisitEvent × Behaviour)}

/-- There is a plugin for the event. -/
def hasPlugin (applicationMap : WString → Option WString) (v : VisitEvent × Behaviour) : Bool :=
  (applicationMap v.1.program).isSome

theorem sent_cons (h : applicationMap v.1.program = some algorithm) :
    sent applicationMap (v :: vs) = visit algorithm v.1 v.2 ++ sent applicationMap vs := by
  rw [sent, List.flatMap_cons, h]
  rfl

theorem sent_cons_none (h : applicationMap v.1.program = none) :
    sent applicationMap (v :: vs) = sent applicationMap vs := by
  rw [sent, List.flatMap_cons, h]
  rfl

/-- What is sent begins with a start message. -/
theorem sent_head {m : VisitMessage} {rest : List VisitMessage} (h : sent applicationMap vs = m :: rest) :
    m.type = lit "start" := by
  induction vs with
  | nil => exact nomatch h
  | cons v vs ih =>
    cases hmap : applicationMap v.1.program with
    | none => exact ih (sent_cons_none hmap ▸ h)
    | some algorithm =>
      rw [sent_cons hmap, visit_eq, List.cons_append, List.cons.injEq] at h
      exact h.1 ▸ rfl

/-- The messages of one event, and those of the events after it. -/
theorem oneTerminal_cons (hmap : applicationMap v.1.program = some algorithm)
    (hv : v.1.errorCode = captureVisitationOk) {vs' : List (VisitEvent × Behaviour)} :
    OneTerminal (v :: vs') (sent applicationMap (v :: vs)) ↔
      EndsOnce v.2 ∧ OneTerminal vs' (sent applicationMap vs) := by
  rw [sent_cons hmap, visit_eq, List.cons_append, ← tail_iff algorithm hv]
  constructor
  · rintro ⟨start, terminal, rest, heq, -, hterminal, hrest⟩
    obtain ⟨-, heq⟩ := List.cons.inj heq
    match htail : tail algorithm v.1 v.2, heq with
    | [], heq => exact absurd hterminal.1 (start_ne_terminal (sent_head heq))
    | [m], heq =>
      obtain ⟨rfl, rfl⟩ := List.cons.inj heq
      exact ⟨⟨m, rfl, hterminal⟩, hrest⟩
    | [m, m'], heq =>
      -- a third message is a start message, or nothing comes after it
      obtain ⟨rfl, rfl⟩ := List.cons.inj heq
      cases vs' with
      | nil => exact nomatch hrest
      | cons w vs' =>
        obtain ⟨start', terminal', rest', heq', -, hterminal', -⟩ := hrest
        obtain ⟨-, heq'⟩ := List.cons.inj heq'
        exact absurd hterminal'.1 (start_ne_terminal (sent_head heq'))
    | m :: m' :: m'' :: ms, heq =>
      have hlength := tail_length algorithm v.1 v.2
      rw [htail] at hlength
      simp at hlength
  · rintro ⟨⟨m, htail, hterminal⟩, hrest⟩
    rw [htail]
    exact ⟨_, m, _, rfl, ⟨rfl, rfl, rfl, rfl⟩, hterminal, hrest⟩

/-- **One terminal message for each visit**, for all events that are dequeued, exactly if each plugin ends
its visit so. -/
theorem one_terminal_iff (applicationMap : WString → Option WString) (vs : List (VisitEvent × Behaviour))
    (hvs : ∀ v ∈ vs, v.1.errorCode = captureVisitationOk) :
    OneTerminal (vs.filter (hasPlugin applicationMap)) (sent applicationMap vs) ↔
      ∀ v ∈ vs, hasPlugin applicationMap v → EndsOnce v.2 := by
  induction vs with
  | nil => exact iff_of_true rfl (by simp)
  | cons v vs ih =>
    have hrest := ih fun w hw => hvs w (List.mem_cons_of_mem _ hw)
    rw [List.forall_mem_cons]
    cases hmap : applicationMap v.1.program with
    | none =>
      have hno : ¬ hasPlugin applicationMap v := by simp [hasPlugin, hmap]
      rw [List.filter_cons_of_neg hno, sent_cons_none hmap, hrest]
      exact ⟨fun h => ⟨fun hv => absurd hv hno, h⟩, fun h => h.2⟩
    | some algorithm =>
      have hyes : hasPlugin applicationMap v := by simp [hasPlugin, hmap]
      rw [List.filter_cons_of_pos hyes, oneTerminal_cons hmap (hvs v List.mem_cons_self), hrest]
      exact and_congr_left fun _ => ⟨fun h _ => h, fun h => h hyes⟩

def silent : Seen := ⟨[], false⟩

/-- A plugin that throws. -/
def throwing : Behaviour := ⟨[], true, silent, silent, silent, silent, silent⟩

def returning : Behaviour := ⟨[], false, silent, silent, silent, silent, silent⟩

/-- A plugin that sets two error codes. -/
def failing : Behaviour := { returning with errorCodes := [0x10000111, captureVisitationException] }

/-- A visit that ends well, one that ends with an error, and one that nothing is said of. -/
def threeVisits : List (VisitEvent × Behaviour) :=
  [({ VisitorQueue.emptyUrl with identifier := lit "1" }, returning),
    ({ VisitorQueue.emptyUrl with identifier := lit "2" }, failing),
    ({ VisitorQueue.emptyUrl with program := lit "none" }, throwing)]

/-- There is no plugin for the last one. -/
def emptyProgram (program : WString) : Option WString := if program = [] then some (lit "seq") else none

theorem one_terminal_three :
    OneTerminal (threeVisits.filter (hasPlugin emptyProgram)) (sent emptyProgram threeVisits) :=
  (one_terminal_iff emptyProgram threeVisits (by decide)).2 (by
    intro v hv hplugin
    simp only [threeVisits, List.mem_cons, List.not_mem_nil, or_false] at hv
    rcases hv with rfl | rfl | rfl
    · exact ⟨by decide, by decide, by decide⟩
    · exact ⟨by decide, by decide, by decide⟩
    · exact absurd hplugin (by decide))

/-- After an exception an error and a finish message are sent. -/
theorem throwing_ends_twice :
    ¬ OneTerminal ([(VisitorQueue.emptyUrl, throwing)].filter (hasPlugin some))
      (sent some [(VisitorQueue.emptyUrl, throwing)]) := by
  rintro ⟨start, terminal, rest, heq, -, -, hrest⟩
  obtain ⟨-, heq⟩ := List.cons.inj heq
  obtain ⟨-, rfl⟩ := List.cons.inj heq
  exact nomatch hrest

end sent

end Visitor

end CaptureHPC.Cpp
