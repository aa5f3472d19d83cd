import CaptureHPC.Spec.Slots

/-!
# What a report says of the events

A slot sets `malicious` before it sends its event, and the analyzer clears it when a visit begins. But a slot
may run when a visit begins, or while its report is made. So the report and the events need not agree.

`slots_sound`: the events that the threads call slots with are handed to the server, in order. A report says what was
flagged in its visit when `malicious` was read for it. From then on each thread can flag one event more, and one that it
hands over was flagged before the visit; so a visit whose last report says benign has at most two events of each thread.
-/

namespace CaptureHPC.Cpp

open Lib ErrorCodes

variable {s s' : Slots} {m : EventMonitor} {h : List SlotMark}

/-! ## Histories -/

namespace SlotMark

def isReset : SlotMark → Bool
  | reset => true
  | _ => false

def calledBy (m : EventMonitor) : SlotMark → Bool
  | called m' _ => m' = m
  | _ => false

def flaggedBy (m : EventMonitor) : SlotMark → Bool
  | flagged m' _ => m' = m
  | _ => false

def returnedBy (m : EventMonitor) : SlotMark → Bool
  | returned m' _ _ => m' = m
  | _ => false

end SlotMark

/-- What has happened since `malicious` was cleared. -/
def sinceReset (h : List SlotMark) : List SlotMark := h.takeWhile fun x => !x.isReset

/-- How often a thread has called a slot, set `malicious` there, and handed over its event, since then. -/
def calls (m : EventMonitor) (h : List SlotMark) : ℕ := (sinceReset h).countP (SlotMark.calledBy m)

def flags (m : EventMonitor) (h : List SlotMark) : ℕ := (sinceReset h).countP (SlotMark.flaggedBy m)

def returns (m : EventMonitor) (h : List SlotMark) : ℕ := (sinceReset h).countP (SlotMark.returnedBy m)

theorem sinceReset_cons {x : SlotMark} (hx : x.isReset = false) (h : List SlotMark) :
    sinceReset (x :: h) = x :: sinceReset h := by
  rw [sinceReset, List.takeWhile_cons_of_pos (by simpa using hx)]
  rfl

section marks

variable {x : SlotMark}

theorem calls_cons (hx : x.isReset = false) : calls m (x :: h) = calls m h + if x.calledBy m then 1 else 0 := by
  rw [calls, sinceReset_cons hx, List.countP_cons, calls]

theorem flags_cons (hx : x.isReset = false) : flags m (x :: h) = flags m h + if x.flaggedBy m then 1 else 0 := by
  rw [flags, sinceReset_cons hx, List.countP_cons, flags]

theorem returns_cons (hx : x.isReset = false) :
    returns m (x :: h) = returns m h + if x.returnedBy m then 1 else 0 := by
  rw [returns, sinceReset_cons hx, List.countP_cons, returns]

theorem flags_append {l : List SlotMark} (hl : ∀ x ∈ l, x.isReset = false) :
    flags m (l ++ h) = l.countP (SlotMark.flaggedBy m) + flags m h := by
  induction l with
  | nil => exact (Nat.zero_add _).symm
  | cons x l ih =>
    rw [List.forall_mem_cons] at hl
    rw [List.cons_append, flags_cons hl.1, ih hl.2, List.countP_cons]
    omega

end marks

/-- The events that a thread has called a slot with, the last one first. -/
def calledEvents (m : EventMonitor) (h : List SlotMark) : List SystemEvent :=
  h.filterMap fun
    | .called m' event => if m' = m then some event else none
    | _ => none

/-- The events that it has handed over. -/
def returnedEvents (m : EventMonitor) (h : List SlotMark) : List SystemEvent :=
  h.filterMap fun
    | .returned m' event _ => if m' = m then some event else none
    | _ => none

/-! ## One thread -/

namespace SlotPoint

/-- The event that is not sent yet. -/
def pending : SlotPoint → List SystemEvent
  | idle => []
  | called event => [event]
  | flagged event => [event]

/-- Whether `malicious` is yet to be set, and whether it has been. -/
def waiting : SlotPoint → ℕ
  | called _ => 1
  | _ => 0

def raised : SlotPoint → ℕ
  | flagged _ => 1
  | _ => 0

theorem waiting_le (p : SlotPoint) : p.waiting ≤ 1 := by cases p <;> simp [waiting]

theorem raised_le (p : SlotPoint) : p.raised ≤ 1 := by cases p <;> simp [raised]

end SlotPoint

/-- How the marks of a monitor's thread go with where it is. -/
structure Balance (m : EventMonitor) (p : SlotPoint) (h : List SlotMark) : Prop where
  order : calledEvents m h = p.pending ++ returnedEvents m h
  returned : returns m h + p.raised ≤ flags m h + 1
  flagged : flags m h + p.waiting ≤ calls m h + 1

namespace Balance

variable {p : SlotPoint} {event : SystemEvent}

theorem start (m : EventMonitor) : Balance m .idle [] := ⟨rfl, Nat.zero_le _, Nat.zero_le _⟩

/-- What is left over when `malicious` is cleared. -/
theorem reset (hb : Balance m p h) : Balance m p (.reset :: h) := by
  have hwaiting := p.waiting_le
  have hraised := p.raised_le
  refine ⟨hb.order, ?_, ?_⟩
  · show 0 + p.raised ≤ 0 + 1
    omega
  · show 0 + p.waiting ≤ 0 + 1
    omega

/-- A mark that is not about the thread. -/
theorem other {x : SlotMark} (hb : Balance m p h) (hx : x.isReset = false) (hcalled : x.calledBy m = false)
    (hflagged : x.flaggedBy m = false) (hreturned : x.returnedBy m = false) : Balance m p (x :: h) := by
  refine ⟨?_, ?_, ?_⟩
  · have hsame : calledEvents m (x :: h) = calledEvents m h ∧ returnedEvents m (x :: h) = returnedEvents m h := by
      cases x with
      | called m' event => exact ⟨List.filterMap_cons_none (if_neg (of_decide_eq_false hcalled)), rfl⟩
      | returned m' event written => exact ⟨rfl, List.filterMap_cons_none (if_neg (of_decide_eq_false hreturned))⟩
      | reset | flagged | made | report => exact ⟨rfl, rfl⟩
    rw [hsame.1, hsame.2]
    exact hb.order
  · rw [returns_cons hx, flags_cons hx, hreturned, hflagged]
    exact hb.returned
  · rw [flags_cons hx, calls_cons hx, hflagged, hcalled]
    exact hb.flagged

theorem call (hb : Balance m .idle h) (event : SystemEvent) : Balance m (.called event) (.called m event :: h) := by
  have hreturned := hb.returned
  have hflagged := hb.flagged
  refine ⟨?_, ?_, ?_⟩
  · have hnew : calledEvents m (.called m event :: h) = event :: calledEvents m h :=
      List.filterMap_cons_some (if_pos rfl)
    exact hnew.trans (congrArg (event :: ·) hb.order)
  · rw [returns_cons rfl, flags_cons rfl]
    simpa [SlotMark.returnedBy, SlotMark.flaggedBy, SlotPoint.raised] using hreturned
  · rw [flags_cons rfl, calls_cons rfl]
    simp [SlotMark.calledBy, SlotMark.flaggedBy, SlotPoint.waiting] at hflagged ⊢
    omega

theorem flag (hb : Balance m (.called event) h) : Balance m (.flagged event) (.flagged m event :: h) := by
  have hreturned := hb.returned
  have hflagged := hb.flagged
  refine ⟨hb.order, ?_, ?_⟩
  · rw [returns_cons rfl, flags_cons rfl]
    simp [SlotMark.returnedBy, SlotMark.flaggedBy, SlotPoint.raised] at hreturned ⊢
    omega
  · rw [flags_cons rfl, calls_cons rfl]
    simp [SlotMark.calledBy, SlotMark.flaggedBy, SlotPoint.waiting] at hflagged ⊢
    omega

theorem send (hb : Balance m (.flagged event) h) (written : Bool) :
    Balance m .idle (.returned m event written :: h) := by
  have hreturned := hb.returned
  have hflagged := hb.flagged
  refine ⟨?_, ?_, ?_⟩
  · have hnew : returnedEvents m (.returned m event written :: h) = event :: returnedEvents m h :=
      List.filterMap_cons_some (if_pos rfl)
    exact hb.order.trans hnew.symm
  · rw [returns_cons rfl, flags_cons rfl]
    simp [SlotMark.returnedBy, SlotMark.flaggedBy, SlotPoint.raised] at hreturned ⊢
    omega
  · rw [flags_cons rfl, calls_cons rfl]
    simpa [SlotMark.calledBy, SlotMark.flaggedBy, SlotPoint.waiting] using hflagged

end Balance

/-! ## The visitor's thread -/

/-- What the rest of a visit relies on. A report other than that of the start is made and sent while no slot is
connected, and after `malicious` was cleared. -/
def Ready : List AnalyzerOp → Bool → (EventMonitor → Bool) → Option UInt32 → Prop
  | [], _, _, element => element = none
  | .reset :: ops, _, connected, element => element = none ∧ Ready ops true connected none
  | .connect m :: ops, cleared, connected, element =>
    element = none ∧ Ready ops cleared (Function.update connected m true) none
  | .disconnect m :: ops, cleared, connected, element =>
    element = none ∧ Ready ops cleared (Function.update connected m false) none
  | .addMalicious eventType :: ops, cleared, connected, element =>
    element = none ∧ cleared = true ∧ (eventType ≠ captureVisitationStart → ∀ m, connected m = false) ∧
      Ready ops cleared connected (some eventType)
  | .sendElement :: ops, cleared, connected, element =>
    (∃ eventType, element = some eventType ∧ (eventType ≠ captureVisitationStart → ∀ m, connected m = false)) ∧
      Ready ops cleared connected none

theorem stopped (c : EventMonitor → Bool) : Function.update (Function.update (Function.update c .process false)
    .registry false) .file false = fun _ => false := by
  funext m
  cases m <;> rfl

/-- The slots are disconnected before a report. -/
theorem ready_report (eventType : UInt32) {c : EventMonitor → Bool} {ops : List AnalyzerOp}
    (hops : Ready ops true (fun _ => false) none) :
    Ready (Analyzer.stop ++ [.addMalicious eventType, .sendElement] ++ ops) true c none := by
  refine ⟨rfl, rfl, rfl, rfl, rfl, ?_⟩
  rw [stopped]
  exact ⟨fun _ _ => rfl, ⟨eventType, rfl, fun _ _ => rfl⟩, hops⟩

theorem updateOps_error {errorCode : UInt32} (h : errorCode ∉ [captureVisitationPrestart, captureVisitationStart,
    captureVisitationFinish, captureVisitationPostfinish]) :
    Analyzer.updateOps errorCode = Analyzer.stop ++ [.addMalicious errorCode, .sendElement] := by
  simp only [List.mem_cons, List.not_mem_nil, or_false, not_or] at h
  obtain ⟨h1, h2, h3, h4⟩ := h
  rw [Analyzer.updateOps, if_neg h1, if_neg h2, if_neg h3, if_neg h4]

/-- **A visit keeps to it.** -/
theorem ready_visit (o : VisitOutcome) (cleared : Bool) (c : EventMonitor → Bool) :
    Ready (Visitor.visitOps o) cleared c none := by
  have hexception : Analyzer.updateOps captureVisitationException =
      Analyzer.stop ++ [.addMalicious captureVisitationException, .sendElement] := updateOps_error (by decide)
  have hend : ∀ c, Ready ((if o.errorCode ≠ captureVisitationOk then Analyzer.updateOps o.errorCode
      else Analyzer.updateOps captureVisitationFinish) ++ Analyzer.updateOps captureVisitationPostfinish)
      true c none := by
    intro c
    split_ifs
    · rw [updateOps_error o.isCode]
      exact ready_report _ rfl
    · exact ready_report captureVisitationFinish rfl
  have hrest : ∀ c, Ready ((if o.throws then Analyzer.updateOps captureVisitationException else []) ++
      ((if o.errorCode ≠ captureVisitationOk then Analyzer.updateOps o.errorCode
        else Analyzer.updateOps captureVisitationFinish) ++ Analyzer.updateOps captureVisitationPostfinish))
      true c none := by
    intro c
    -- an exception makes a report of its own
    rcases Bool.eq_false_or_eq_true o.throws with hthrows | hthrows
    · rw [if_pos hthrows, hexception]
      exact ready_report _ (hend _)
    · rw [if_neg (by simp [hthrows]), List.nil_append]
      exact hend c
  unfold Visitor.visitOps
  rw [List.append_assoc, List.append_assoc, List.append_assoc]
  exact ⟨rfl, rfl, rfl, rfl, rfl, rfl, fun h => absurd rfl h, ⟨_, rfl, fun h => absurd rfl h⟩, hrest _⟩

/-- A document is sent before anything else is done. -/
theorem Ready.disconnected {ops : List AnalyzerOp} {cleared : Bool} {c : EventMonitor → Bool} {eventType : UInt32}
    (h : Ready ops cleared c (some eventType)) (ht : eventType ≠ captureVisitationStart) : ∀ m, c m = false := by
  cases ops with
  | nil => cases h
  | cons op ops =>
    cases op with
    | sendElement =>
      obtain ⟨⟨t, heq, hc⟩, -⟩ := h
      cases heq
      exact hc ht
    | reset | connect | disconnect | addMalicious => cases h.1

/-! ## All threads -/

/-- What a report says of the marks before it. It was made when `malicious` was read, and says whether an event had been
flagged in the visit; if the slots were disconnected then, each thread flags one event more at most. Of each
thread at most one event that is handed over was flagged before the visit, and at most one slot that sets
`malicious` was called before it. -/
structure Sound (eventType : UInt32) (malicious : Bool) (before : List SlotMark) : Prop where
  made : ∃ between earlier, before = between ++ .made eventType malicious :: earlier ∧
    (∀ x ∈ between, x.isReset = false) ∧ (malicious = true ↔ ∃ m, 0 < flags m earlier) ∧
    (eventType ≠ captureVisitationStart → ∀ m, between.countP (SlotMark.flaggedBy m) ≤ 1)
  late : ∀ m, returns m before ≤ flags m before + 1 ∧ flags m before ≤ calls m before + 1
  benign : malicious = false → eventType ≠ captureVisitationStart → ∀ m, returns m before ≤ 2

/-- `malicious` was cleared, in this history. -/
def cleared (h : List SlotMark) : Bool := h.any SlotMark.isReset

/-- A document is being made: what there is between its reading of `malicious` and now. -/
def Pending (s : Slots) (eventType : UInt32) (malicious : Bool) : Prop :=
  ∃ between earlier, s.history = between ++ .made eventType malicious :: earlier ∧
    (∀ x ∈ between, x.isReset = false) ∧ (malicious = true ↔ ∃ m, 0 < flags m earlier) ∧
    (eventType ≠ captureVisitationStart → ∀ m, between.countP (SlotMark.flaggedBy m) + (s.slot m).waiting ≤ 1)

structure Consistent (s : Slots) : Prop where
  balance : ∀ m, Balance m (s.slot m) s.history
  ready : Ready s.todo (cleared s.history) s.connected (s.element.map Prod.fst)
  verdict : cleared s.history = true → (s.malicious = true ↔ ∃ m, 0 < flags m s.history)
  element : ∀ eventType malicious, s.element = some (eventType, malicious) → Pending s eventType malicious
  reports : ∀ after eventType malicious before, s.history = after ++ .report eventType malicious :: before →
    Sound eventType malicious before

theorem Consistent.start (malicious : Bool) : Consistent { malicious := malicious } where
  balance := .start
  ready := rfl
  verdict h := by cases h
  element _ _ h := by cases h
  reports after _ _ _ h := by simp at h

/-- A mark that is no report says nothing new. -/
theorem reports_cons {x : SlotMark} (hx : ∀ t b, x ≠ .report t b)
    (hold : ∀ after t b before, h = after ++ .report t b :: before → Sound t b before) {after before : List SlotMark}
    {t : UInt32} {b : Bool} (heq : x :: h = after ++ .report t b :: before) : Sound t b before := by
  cases after with
  | nil => exact absurd (List.cons.inj heq).1 (hx t b)
  | cons y after => exact hold after t b before (List.cons.inj heq).2

/-- The document that is being made is sound. -/
theorem Pending.sound {t : UInt32} {b : Bool} (hp : Pending s t b) (hbalance : ∀ m, Balance m (s.slot m) s.history) :
    Sound t b s.history := by
  obtain ⟨between, earlier, hhistory, hbetween, hread, hlater⟩ := hp
  refine ⟨⟨between, earlier, hhistory, hbetween, hread, fun ht m => (Nat.le_add_right _ _).trans (hlater ht m)⟩,
    fun m => ⟨?_, ?_⟩, fun hb ht m => ?_⟩
  · exact (Nat.le_add_right _ _).trans (hbalance m).returned
  · exact (Nat.le_add_right _ _).trans (hbalance m).flagged
  · -- at most one of them was flagged in the visit, and at most one before it
    have hzero : flags m earlier = 0 := by
      by_contra hne
      rw [hread.2 ⟨m, Nat.pos_of_ne_zero hne⟩] at hb
      cases hb
    have hflags : flags m s.history = between.countP (SlotMark.flaggedBy m) := by
      rw [hhistory, flags_append hbetween, flags_cons rfl, hzero]
      rfl
    have hone := hlater ht m
    have hreturned := (hbalance m).returned
    omega

/-- A step of the visitor's thread. -/
theorem Consistent.perform {op : AnalyzerOp} {todo : List AnalyzerOp} {written : Bool} (hc : Consistent s)
    (htodo : s.todo = op :: todo) (h : { s with todo := todo }.perform written op = some s') : Consistent s' := by
  obtain ⟨hbalance, hready, hverdict, helement, hreports⟩ := hc
  rw [htodo] at hready
  cases op with
  | reset =>
    cases h
    have hnone : s.element = none := Option.map_eq_none_iff.1 hready.1
    refine ⟨fun m => (hbalance m).reset, hready.1 ▸ hready.2, fun _ => ?_, fun t b he => ?_,
      fun after t b before heq => ?_⟩
    · constructor
      · intro hfalse
        cases hfalse
      · rintro ⟨m, hm⟩
        cases hm
    · rw [show s.element = some (t, b) from he] at hnone
      cases hnone
    · exact reports_cons (fun _ _ hne => by cases hne) hreports heq
  | connect m =>
    cases h
    exact ⟨hbalance, hready.1 ▸ hready.2, hverdict, helement, hreports⟩
  | disconnect m =>
    cases h
    exact ⟨hbalance, hready.1 ▸ hready.2, hverdict, helement, hreports⟩
  | addMalicious eventType =>
    cases h
    obtain ⟨-, hcleared, -, hrest⟩ := hready
    have hflags : ∀ m, flags m (.made eventType s.malicious :: s.history) = flags m s.history := fun m => flags_cons rfl
    refine ⟨fun m => (hbalance m).other rfl rfl rfl rfl, hrest, fun hcleared => ?_, fun t b he => ?_,
      fun after t b before heq => reports_cons (fun _ _ hne => by cases hne) hreports heq⟩
    · simp only [hflags]
      exact hverdict hcleared
    · cases he
      exact ⟨[], s.history, rfl, fun x hx => absurd hx List.not_mem_nil, hverdict hcleared,
        fun _ m => (Nat.zero_add _).trans_le (s.slot m).waiting_le⟩
  | sendElement =>
    obtain ⟨-, hrest⟩ := hready
    simp only [Slots.perform] at h
    split at h
    · cases h
    · rename_i t b he
      cases h
      have hsound : Sound t b s.history := (helement t b he).sound hbalance
      cases written with
      -- a report that is not sent leaves no mark
      | false => exact ⟨hbalance, hrest, hverdict, fun _ _ he => (nomatch he), hreports⟩
      | true =>
        have hflags : ∀ m, flags m (.report t b :: s.history) = flags m s.history := fun m => flags_cons rfl
        refine ⟨fun m => (hbalance m).other rfl rfl rfl rfl, hrest, fun hcleared => ?_, fun _ _ he => ?_,
          fun after t' b' before heq => ?_⟩
        · simp only [if_true, hflags]
          exact hverdict hcleared
        · cases he
        · cases after with
          | nil =>
            cases heq
            exact hsound
          | cons y after => exact hreports after t' b' before (List.cons.inj heq).2

/-- A step of a monitor's thread. -/
theorem Consistent.monitor {x : SlotMark} {p : SlotPoint} {malicious : Bool} (hc : Consistent s)
    (hx : x.isReset = false) (hreport : ∀ t b, x ≠ .report t b) (hbalance : Balance m p (x :: s.history))
    (hothers : ∀ i ≠ m, x.calledBy i = false ∧ x.flaggedBy i = false ∧ x.returnedBy i = false)
    (hverdict : cleared s.history = true → (malicious = true ↔ ∃ i, 0 < flags i (x :: s.history)))
    (hcount : (∀ i, s.connected i = false) →
      (if x.flaggedBy m then 1 else 0) + p.waiting ≤ (s.slot m).waiting) :
    Consistent { s with malicious := malicious, slot := Function.update s.slot m p, history := x :: s.history } := by
  have hcleared : cleared (x :: s.history) = cleared s.history := by
    rw [cleared, List.any_cons, hx]
    rfl
  refine ⟨fun i => ?_, ?_, fun h => hverdict (hcleared ▸ h), fun t b he => ?_,
    fun after t b before heq => reports_cons hreport hc.reports heq⟩
  · show Balance i (Function.update s.slot m p i) (x :: s.history)
    by_cases hi : i = m
    · rw [hi, Function.update_self]
      exact hbalance
    · obtain ⟨hcalled, hflagged, hreturned⟩ := hothers i hi
      rw [Function.update_of_ne hi]
      exact (hc.balance i).other hx hcalled hflagged hreturned
  · show Ready s.todo (cleared (x :: s.history)) s.connected (s.element.map Prod.fst)
    rw [hcleared]
    exact hc.ready
  · obtain ⟨between, earlier, hhistory, hbetween, hread, hlater⟩ := hc.element t b he
    refine ⟨x :: between, earlier, congrArg (x :: ·) hhistory, List.forall_mem_cons.2 ⟨hx, hbetween⟩, hread,
      fun ht i => ?_⟩
    have hold := hlater ht i
    have hready := hc.ready
    rw [show s.element = some (t, b) from he, Option.map_some] at hready
    show (x :: between).countP (SlotMark.flaggedBy i) + (Function.update s.slot m p i).waiting ≤ 1
    rw [List.countP_cons]
    -- the slots are disconnected while there is a report to send, so no new event comes in
    by_cases hi : i = m
    · subst hi
      have hnew := hcount (hready.disconnected ht)
      rw [Function.update_self]
      omega
    · rw [Function.update_of_ne hi, (hothers i hi).2.1]
      simpa using hold

theorem Consistent.step {a : SlotStep} (hc : Consistent s) (h : s.step a = some s') : Consistent s' := by
  cases a with
  | visit o =>
    simp only [Slots.step] at h
    split_ifs at h with htodo
    cases h
    have hready := hc.ready
    rw [htodo] at hready
    have hnone : s.element.map Prod.fst = none := hready
    refine ⟨hc.balance, ?_, hc.verdict, hc.element, hc.reports⟩
    rw [hnone]
    exact ready_visit o _ _
  | visitor written =>
    simp only [Slots.step] at h
    split at h
    · cases h
    · exact hc.perform ‹_› h
  | signal m event =>
    simp only [Slots.step] at h
    split_ifs at h with hidle hconnected
    · cases h
      have hbalance := hc.balance m
      rw [hidle.1] at hbalance
      refine hc.monitor rfl (fun _ _ hne => by cases hne) (hbalance.call event) (fun i hi => ?_) ?_ fun hfalse => ?_
      · exact ⟨decide_eq_false (Ne.symm hi), rfl, rfl⟩
      · exact hc.verdict
      -- a slot that is disconnected is not called
      · rw [hfalse event.monitor] at hconnected
        cases hconnected
    · cases h
      exact hc
  | flag m =>
    simp only [Slots.step] at h
    split at h
    · rename_i event hslot
      cases h
      have hbalance := hc.balance m
      rw [hslot] at hbalance
      have hflags : flags m (.flagged m event :: s.history) = flags m s.history + 1 := by
        rw [flags_cons rfl, SlotMark.flaggedBy, if_pos (decide_eq_true rfl)]
      refine hc.monitor rfl (fun _ _ hne => by cases hne) hbalance.flag (fun i hi => ?_) (fun _ => ?_) fun _ => ?_
      · exact ⟨rfl, decide_eq_false (Ne.symm hi), rfl⟩
      · exact ⟨fun _ => ⟨m, by omega⟩, fun _ => rfl⟩
      · rw [hslot, SlotMark.flaggedBy, if_pos (decide_eq_true rfl)]
        exact Nat.le_refl _
    · cases h
  | send m written =>
    simp only [Slots.step] at h
    split at h
    · rename_i event hslot
      cases h
      have hbalance := hc.balance m
      rw [hslot] at hbalance
      refine hc.monitor rfl (fun _ _ hne => by cases hne) (hbalance.send written) (fun i hi => ?_) ?_ fun _ => ?_
      · exact ⟨rfl, rfl, decide_eq_false (Ne.symm hi)⟩
      · exact hc.verdict
      · rw [hslot]
        exact Nat.le_refl _
    · cases h

/-- **The slots and the reports**, however the threads go. What a thread calls slots with is handed to the server, in
order, and every report is sound. -/
theorem slots_sound {malicious : Bool} (h : Reaches Slots.step anyStep { malicious := malicious } s) :
    (∀ m, calledEvents m s.history = (s.slot m).pending ++ returnedEvents m s.history) ∧
      ∀ after eventType malicious before, s.history = after ++ .report eventType malicious :: before →
        Sound eventType malicious before := by
  have hc : Consistent s := h.invariant (.start malicious) fun _ _ _ hc _ hstep => hc.step hstep
  exact ⟨fun m => (hc.balance m).order, hc.reports⟩

/-- A file event is flagged in one visit and sent in the next. The thread of the file monitor then does not know the path
of a process, and calls the slot of the process monitor; that event is flagged when the report has been made. -/
def lateSlots : List SlotStep :=
  let outcome : VisitOutcome := ⟨false, captureVisitationOk, by decide⟩
  let time : TimeFields := ⟨2008, 2, 29, 9, 5, 7, 3⟩
  let event : SystemEvent := .file (lit "Write") time 4 (lit "C:\\a.exe") (lit "C:\\x.txt")
  let miss : SystemEvent := .process true time 4 (lit "C:\\a.exe") 8 (lit "C:\\b.exe")
  let begins : List SlotStep := .visit outcome :: List.replicate 6 (.visitor true)
  begins ++ [SlotStep.signal .file event, SlotStep.flag .file] ++ List.replicate 5 (SlotStep.visitor true) ++ begins ++
    [SlotStep.send .file true, SlotStep.signal .file miss] ++ List.replicate 4 (SlotStep.visitor true) ++
    [SlotStep.flag .file, SlotStep.send .file false, SlotStep.visitor true]

theorem slots_sound_late : ∃ s, run Slots.step { malicious := false } lateSlots = some s ∧
    (∀ m, calledEvents m s.history = (s.slot m).pending ++ returnedEvents m s.history) ∧
      ∀ after eventType malicious before, s.history = after ++ .report eventType malicious :: before →
        Sound eventType malicious before := by
  obtain ⟨s, hs⟩ := Option.isSome_iff_exists.1
    (show (run Slots.step { malicious := false } lateSlots).isSome = true by decide)
  exact ⟨s, hs, slots_sound (Reaches.of_run (fun _ _ _ => trivial) hs)⟩

/-- The second report says benign, and two events have been handed over since the visit began. -/
example : (run Slots.step { malicious := false } lateSlots).map
    (fun s => (s.history.head?, returns .file s.history.tail)) =
    some (some (.report captureVisitationFinish false), 2) := by
  decide

end CaptureHPC.Cpp
