import CaptureHPC.Proof.UrlSteps
import CaptureHPC.Spec.StatCalls

/-!
# The counters, whatever the order of the calls

Two calls that raise one counter may both read it before one of them writes it, and then one raise is lost.

* `setUrlState_ops`: a change of state by itself does to the statistics and the log what `Url.statOps` lists.
* `counters_bounded`: in every run a counter is at most the number of its lines, up to what the calls under way have
  still to raise and to write; and it is exactly that in the runs in which no call reads a counter that another one
  has read and will write (`Serial`).
-/

namespace CaptureHPC

open Lib

/-- The counter and the value that a call is to write next. -/
def StatCall.raising (c : StatCall) : Option (StatCounter × ℕ) :=
  match c.left, c.read with
  | .raise k :: _, some n => some (k, n)
  | _, _ => none

/-- Each counter is raised as often as its line is written. -/
theorem statOps_balanced (newState : UrlState) (malicious : Option Bool) (throws : Bool) (k : StatCounter) :
    (Url.statOps newState malicious throws).count (.raise k) = (Url.statOps newState malicious throws).count (.line k) := by
  cases newState <;> cases malicious with
  | none => cases throws <;> cases k <;> rfl
  | some verdict => cases verdict <;> cases throws <;> cases k <;> rfl

/-! ## One change of state by itself -/

namespace UrlsController

variable {t t' t'' : UrlsController} {ops ops' : List StatOp}

/-- The lines of a counter. -/
def linesOf (t : UrlsController) (k : StatCounter) : ℕ := t.log.countP fun x => x.event.counter == some k

/-- What the statistics and the log gain. The list of errors has lines of errors of its own. -/
structure Gains (t t' : UrlsController) (ops : List StatOp) : Prop where
  counter : ∀ k, t'.stats.counter k = t.stats.counter k + ops.count (.raise k)
  lines : ∀ k ≠ .urlError, t'.linesOf k = t.linesOf k + ops.count (.line k)

theorem Gains.same (stats : t'.stats = t.stats) (log : t'.log = t.log) : t.Gains t' [] :=
  ⟨fun k => by rw [stats]; rfl, fun k _ => by rw [linesOf, log]; rfl⟩

theorem Gains.trans (h : t.Gains t' ops) (h' : t'.Gains t'' ops') : t.Gains t'' (ops ++ ops') :=
  ⟨fun k => by rw [h'.counter, h.counter, List.count_append, Nat.add_assoc],
    fun k hk => by rw [h'.lines k hk, h.lines k hk, List.count_append, Nat.add_assoc]⟩

theorem gains_line {x : LogEntry} {k : StatCounter} (hx : x.event.counter = some k) :
    t.Gains (t.writeToLog x) [.line k] := by
  refine ⟨fun j => rfl, fun j _ => ?_⟩
  unfold linesOf writeToLog
  rw [List.countP_append, List.countP_singleton, hx, List.count_singleton]
  cases j <;> cases k <;> rfl

theorem gains_raise {k : StatCounter} {f : Stats → Stats}
    (hf : ∀ j, (f t.stats).counter j = t.stats.counter j + [StatOp.raise k].count (.raise j)) :
    t.Gains (t.addStats f) [.raise k] := ⟨hf, fun _ _ => rfl⟩

theorem gains_update (t : UrlsController) (u : ℕ) : t.Gains (t.update u) [] := by
  unfold UrlsController.update
  dsimp only
  split
  · exact .same rfl rfl
  · exact .same rfl rfl
  · split_ifs
    · exact .same rfl rfl
    · refine ⟨fun _ => rfl, fun k hk => ?_⟩
      show (t.log ++ [_]).countP _ = t.log.countP _ + 0
      rw [List.countP_append, List.countP_singleton]
      cases k with
      | urlError => exact absurd rfl hk
      | visiting | visited | safe | malicious => rfl
  · exact .same rfl rfl

theorem gains_logMalicious (x : Url) (date : ℤ) (t : UrlsController) : ∃ t', (Url.logMalicious x date).run t = .ok () t' ∧
    t.Gains t' [.raise .malicious, .line .malicious] := by
  have hraise : t.Gains (t.addStats fun s => { s with malicious := s.malicious + 1 }) [.raise .malicious] :=
    gains_raise fun k => by cases k <;> rfl
  have htime (t : UrlsController) : t.Gains
      (t.addStats (Stats.addFirstStateChangeTime x.firstStateChange x.visitFinishTime x.visitTime)) [] := by
    refine ⟨fun k => ?_, fun k _ => rfl⟩
    unfold addStats Stats.addFirstStateChangeTime
    cases x.firstStateChange <;> cases x.visitFinishTime <;> cases k <;> rfl
  exact ⟨_, rfl, (hraise.trans (htime _)).trans (gains_line rfl)⟩

theorem gains_logVerdict (x : Url) (date : ℤ) (t : UrlsController) : ∃ t', (Url.logVerdict x date).run t = .ok () t' ∧
    t.Gains t' (if x.malicious = some true then [.raise .malicious, .line .malicious]
      else [.raise .safe, .line .safe]) := by
  unfold Url.logVerdict
  split_ifs
  · exact gains_logMalicious x date t
  · have hraise : t.Gains (t.addStats fun s => { s with safe := s.safe + 1 }) [.raise .safe] :=
      gains_raise fun k => by cases k <;> rfl
    exact ⟨_, rfl, hraise.trans (gains_line rfl)⟩

theorem gains_logVisiting (u : ℕ) (t : UrlsController) : ∃ throws,
    t.Gains (final ((Url.logVisiting u >>= fun _ => modify (UrlsController.update u) : UrlsM Unit).run t))
      (Url.statOps .visiting (t.url u).malicious throws) := by
  cases hstart : (t.url u).visitStartTime with
  | none =>
    have hrun : (Url.logVisiting u).run t = .error .nullPointer t := by
      unfold Url.logVisiting
      rw [EStateM.run_bind, EStateM.run_get]
      dsimp only
      rw [hstart]
      rfl
    rw [run_bind_error hrun]
    exact ⟨true, .same rfl rfl⟩
  | some date =>
    have hrun : (Url.logVisiting u).run t = .ok () ((t.addStats fun s => { s with visiting := s.visiting + 1 }).writeToLog
        (entry (t.url u) date true .visiting)) := by
      unfold Url.logVisiting
      rw [EStateM.run_bind, EStateM.run_get]
      dsimp only
      rw [hstart]
      rfl
    have hraise : t.Gains (t.addStats fun s => { s with visiting := s.visiting + 1 }) [.raise .visiting] :=
      gains_raise fun k => by cases k <;> rfl
    rw [run_bind_ok hrun]
    exact ⟨false, (hraise.trans (gains_line rfl)).trans (gains_update _ u)⟩

theorem gains_logVisited (u : ℕ) (t : UrlsController) : ∃ throws,
    t.Gains (final ((Url.logVisited u >>= fun _ => modify (UrlsController.update u) : UrlsM Unit).run t))
      (Url.statOps .visited (t.url u).malicious throws) := by
  set t1 : UrlsController := (t.writeToLog (entry (t.url u) t.now true .visited)).addStats
    fun s => { s with visited := s.visited + 1 } with ht1
  have hline : t.Gains (t.writeToLog (entry (t.url u) t.now true .visited)) [.line .visited] := gains_line rfl
  have h1 : t.Gains t1 [.line .visited, .raise .visited] := hline.trans (gains_raise fun k => by cases k <;> rfl)
  have hrun : ∀ {r}, (do
      Url.logVisitingTime (t.url u)
      Url.logVerdict (t.url u) t.now
      Url.closeEventLog u : UrlsM Unit).run t1 = r → (Url.logVisited u).run t = r := fun hr =>
    (run_bind_ok rfl).trans ((run_bind_ok rfl).trans ((run_bind_ok rfl).trans hr))
  cases htime : (Url.logVisitingTime (t.url u)).run t1 with
  | ok _ t2 =>
    obtain ⟨t3, hverdict, h3⟩ := gains_logVerdict (t.url u) t.now t2
    have h2 : t1.Gains t2 [] := by
      unfold Url.logVisitingTime at htime
      split at htime
      · cases htime
        exact ⟨fun k => by cases k <;> rfl, fun _ _ => rfl⟩
      · cases htime
    rw [run_bind_ok (hrun ((run_bind_ok htime).trans ((run_bind_ok hverdict).trans rfl)))]
    refine ⟨false, ?_⟩
    have hclosed : t3.Gains (t3.setUrl u { t3.url u with logFile := false }) [] := .same rfl rfl
    have hall := ((h1.trans h2).trans h3).trans (hclosed.trans (gains_update _ u))
    simp only [List.append_nil] at hall
    exact hall
  | error e t2 =>
    have h2 : t2 = t1 := by
      unfold Url.logVisitingTime at htime
      split at htime
      · cases htime
      · cases htime
        rfl
    rw [run_bind_error (hrun (run_bind_error htime)), h2]
    exact ⟨true, h1⟩

theorem gains_logError (u : ℕ) (t : UrlsController) (throws : Bool) :
    t.Gains (final ((Url.logError u >>= fun _ => modify (UrlsController.update u) : UrlsM Unit).run t))
      (Url.statOps .error (t.url u).malicious throws) := by
  obtain ⟨t2, hfailure, h2⟩ : ∃ t2, (Url.logFailure (t.url u) t.now).run t = .ok () t2 ∧
      t.Gains t2 (Url.statOps .error (t.url u).malicious throws) := by
    unfold Url.logFailure
    cases (t.url u).malicious with
    | none => exact ⟨t, rfl, .same rfl rfl⟩
    | some verdict =>
      cases verdict with
      | true => exact gains_logMalicious (t.url u) t.now t
      | false =>
        have hraise : t.Gains (t.addStats fun s => { s with urlError := s.urlError + 1 }) [.raise .urlError] :=
          gains_raise fun k => by cases k <;> rfl
        exact ⟨_, rfl, hraise.trans (gains_line rfl)⟩
  have hrun : (Url.logError u).run t = .ok () (t2.setUrl u { t2.url u with logFile := false }) :=
    (run_bind_ok rfl).trans ((run_bind_ok hfailure).trans rfl)
  rw [run_bind_ok hrun]
  have hclosed : t2.Gains (t2.setUrl u { t2.url u with logFile := false }) [] := .same rfl rfl
  have hall := h2.trans (hclosed.trans (gains_update _ u))
  simp only [List.append_nil] at hall
  exact hall

/-- **A change of state by itself does what `statOps` lists.** -/
theorem setUrlState_ops {u : ℕ} {st : UrlState} (hst : (t.url u).urlState ≠ st) : ∃ throws,
    t.Gains (final ((Url.setUrlState u st).run t)) (Url.statOps st (t.url u).malicious throws) := by
  rw [setUrlState_eq, if_neg hst]
  set t1 := t.setUrl u { t.url u with urlState := st } with ht1
  have h1 : t.Gains t1 [] := .same rfl rfl
  have hself : (t1.url u).malicious = (t.url u).malicious := by
    rw [ht1, setUrl_self]
  rw [← hself]
  cases st with
  | none | queued => exact ⟨false, h1.trans (gains_update t1 u)⟩
  | visiting =>
    obtain ⟨throws, h2⟩ := gains_logVisiting u t1
    exact ⟨throws, h1.trans h2⟩
  | visited =>
    obtain ⟨throws, h2⟩ := gains_logVisited u t1
    exact ⟨throws, h1.trans h2⟩
  | error => exact ⟨false, h1.trans (gains_logError u t1 false)⟩

end UrlsController

/-! ## Calls beside each other -/

namespace StatCalls

/-- The counter that a call reads next. -/
def reading (s : StatCalls) (i : ℕ) : Option StatCounter :=
  match s.calls[i]? with
  | some ⟨_, .raise k :: _, none⟩ => some k
  | _ => none

/-- No call reads a counter that another one has read and will write. -/
def Serial (s : StatCalls) : StatStep → Prop
  | .next i => ∀ k ∈ s.reading i, ∀ c ∈ s.calls, c.raising.map Prod.fst ≠ some k
  | .setUrlState .. => True

instance (s : StatCalls) (a : StatStep) : Decidable (s.Serial a) :=
  match a with
  | .next i => inferInstanceAs (Decidable (∀ k ∈ s.reading i, ∀ c ∈ s.calls, c.raising.map Prod.fst ≠ some k))
  | .setUrlState .. => .isTrue trivial

variable {s s' : StatCalls} {a : StatStep} {c c' : StatCall} {i j n : ℕ} {k : StatCounter}

/-- How often the calls have still to do this. -/
def toCome (s : StatCalls) (op : StatOp) : ℕ := (s.calls.flatMap StatCall.left).count op

/-- The lines of a counter that were written or will be: how often the raising of it has begun. -/
def begun (s : StatCalls) (k : StatCounter) : ℕ := s.log.count k + s.toCome (.line k)

/-- **What a step can do.** -/
inductive Does (s : StatCalls) : StatStep → StatCalls → Prop
  | stays (u : ℕ) (newState : UrlState) (malicious : Option Bool) (throws : Bool) :
      Does s (.setUrlState u newState malicious throws) s
  | calls (u : ℕ) (newState : UrlState) (malicious : Option Bool) (throws : Bool) :
      Does s (.setUrlState u newState malicious throws) { s with
        urlState := Function.update s.urlState u newState
        calls := s.calls ++ [{ url := u, left := Url.statOps newState malicious throws }] }
  | reads (i u : ℕ) (k : StatCounter) (left : List StatOp) (call : s.calls[i]? = some ⟨u, .raise k :: left, none⟩) :
      Does s (.next i) (s.setCall i ⟨u, .raise k :: left, some (s.counter k)⟩)
  | writes (i u n : ℕ) (k : StatCounter) (left : List StatOp) (call : s.calls[i]? = some ⟨u, .raise k :: left, some n⟩) :
      Does s (.next i) ({ s with counter := Function.update s.counter k (n + 1) }.setCall i ⟨u, left, none⟩)
  | logs (i u : ℕ) (k : StatCounter) (left : List StatOp) (read : Option ℕ)
      (call : s.calls[i]? = some ⟨u, .line k :: left, read⟩) :
      Does s (.next i) ({ s with log := s.log ++ [k] }.setCall i ⟨u, left, none⟩)

theorem does_of_step (h : s.step a = some s') : s.Does a s' := by
  cases a with
  | setUrlState u newState malicious throws =>
    simp only [step] at h
    split_ifs at h
    obtain rfl := Option.some.inj h
    unfold setUrlState
    split_ifs
    · exact .stays u newState malicious throws
    · exact .calls u newState malicious throws
  | next i =>
    simp only [step, next] at h
    split at h
    case h_1 u k left hcall =>
      obtain rfl := Option.some.inj h
      exact .reads i u k left hcall
    case h_2 u k left n hcall =>
      obtain rfl := Option.some.inj h
      exact .writes i u n k left hcall
    case h_3 u k left read hcall =>
      obtain rfl := Option.some.inj h
      exact .logs i u k left read hcall
    case h_4 | h_5 => exact nomatch h

theorem toCome_set {t : StatCalls} (hcall : s.calls[i]? = some c) (ht : t.calls = s.calls.set i c') (op : StatOp) :
    t.toCome op + c.left.count op = s.toCome op + c'.left.count op := by
  have hcount := (flatMap_set_perm StatCall.left hcall c').count_eq op
  rw [List.count_append, List.count_append, ← ht] at hcount
  unfold toCome
  omega

theorem toCome_concat {t : StatCalls} (ht : t.calls = s.calls ++ [c]) (op : StatOp) :
    t.toCome op = s.toCome op + c.left.count op := by
  unfold toCome
  rw [ht, List.flatMap_append, List.count_append, List.flatMap_singleton]

theorem raising_none {u : ℕ} {left : List StatOp} : (⟨u, left, none⟩ : StatCall).raising = none := by
  unfold StatCall.raising
  split
  · exact nomatch ‹(none : Option ℕ) = some _›
  · rfl

/-- **What a step does to a counter**: either its value stays, and so do the raises to come, but for a call that
begins, or a call writes the value that it has read. -/
theorem Does.amounts (h : s.Does a s') (k : StatCounter) :
    (s'.counter k = s.counter k ∧ ∃ b, s'.toCome (.raise k) = s.toCome (.raise k) + b ∧ s'.begun k = s.begun k + b) ∨
      ∃ (i : ℕ) (c : StatCall) (n : ℕ), s.calls[i]? = some c ∧ c.raising = some (k, n) ∧
        (∀ d : StatCall, s'.calls[i]? = some d → d.raising = none) ∧ s'.counter k = n + 1 ∧
        s'.toCome (.raise k) + 1 = s.toCome (.raise k) ∧ s'.begun k = s.begun k := by
  cases h with
  | stays => exact .inl ⟨rfl, 0, rfl, rfl⟩
  | calls u newState malicious throws =>
    have hcome (op : StatOp) := toCome_concat (s := s) (c := ⟨u, Url.statOps newState malicious throws, none⟩)
      (t := { s with
        urlState := Function.update s.urlState u newState
        calls := s.calls ++ [⟨u, Url.statOps newState malicious throws, none⟩] }) rfl op
    refine .inl ⟨rfl, (Url.statOps newState malicious throws).count (.raise k), hcome _, ?_⟩
    rw [begun, hcome, statOps_balanced, ← Nat.add_assoc]
    rfl
  | reads i u l left call =>
    have hraise := toCome_set (t := s.setCall i ⟨u, .raise l :: left, some (s.counter l)⟩) call rfl (.raise k)
    have hline := toCome_set (t := s.setCall i ⟨u, .raise l :: left, some (s.counter l)⟩) call rfl (.line k)
    exact .inl ⟨rfl, 0, Nat.add_right_cancel hraise, congrArg (s.log.count k + ·) (Nat.add_right_cancel hline)⟩
  | writes i u n l left call =>
    set t : StatCalls := { s with counter := Function.update s.counter l (n + 1) }.setCall i ⟨u, left, none⟩ with ht
    have hraise := toCome_set (t := t) call rfl (.raise k)
    have hline := toCome_set (t := t) call rfl (.line k)
    have hbegun : t.begun k = s.begun k := by
      rw [List.count_cons_of_ne (by simp)] at hline
      exact congrArg (s.log.count k + ·) (Nat.add_right_cancel hline)
    by_cases hk : k = l
    · subst hk
      -- the counter that is written
      refine .inr ⟨i, _, n, call, rfl, fun d hd => ?_, Function.update_self _ _ _, ?_, hbegun⟩
      · rw [show t.calls = s.calls.set i ⟨u, left, none⟩ from rfl,
          List.getElem?_set_self (List.getElem?_eq_some_iff.1 call).1] at hd
        obtain rfl := Option.some.inj hd
        exact raising_none
      · rw [List.count_cons_self] at hraise
        dsimp only at hraise
        omega
    · rw [List.count_cons_of_ne (by simpa using Ne.symm hk)] at hraise
      exact .inl ⟨Function.update_of_ne hk _ _, 0, Nat.add_right_cancel hraise, hbegun⟩
  | logs i u l left read call =>
    set t : StatCalls := { s with log := s.log ++ [l] }.setCall i ⟨u, left, none⟩ with ht
    have hraise := toCome_set (t := t) call rfl (.raise k)
    have hline := toCome_set (t := t) call rfl (.line k)
    rw [List.count_cons_of_ne (by simp)] at hraise
    refine .inl ⟨rfl, 0, Nat.add_right_cancel hraise, ?_⟩
    show (s.log ++ [l]).count k + t.toCome (.line k) = s.log.count k + s.toCome (.line k)
    rw [List.count_append, List.count_singleton]
    rw [List.count_cons] at hline
    dsimp only at hline
    -- a line that was to come is written
    by_cases hk : l = k
    · subst hk
      simp only [beq_self_eq_true, if_true] at hline ⊢
      omega
    · have hne : (StatOp.line l == StatOp.line k) = false := by simpa using hk
      have hne' : (l == k) = false := by simpa using hk
      simp only [hne, hne', Bool.false_eq_true, if_false] at hline ⊢
      omega

/-- **Which calls have read a counter**: those that had before, and one that reads it now. -/
theorem Does.raising (h : s.Does a s') {d : StatCall} (hd : s'.calls[j]? = some d) (hk : d.raising = some (k, n)) :
    s.calls[j]? = some d ∨ a = .next j ∧ s.reading j = some k ∧ n = s.counter k ∧ s'.counter = s.counter := by
  have hset : ∀ {i : ℕ} {e : StatCall}, (s.calls.set i e)[j]? = some d → d = e ∧ i = j ∨ s.calls[j]? = some d :=
    fun {i e} he => by
      by_cases hij : i = j
      · subst hij
        have hlt : i < s.calls.length := by
          have := (List.getElem?_eq_some_iff.1 he).1
          rwa [List.length_set] at this
        rw [List.getElem?_set_self hlt] at he
        exact .inl ⟨(Option.some.inj he).symm, rfl⟩
      · rw [List.getElem?_set_ne hij] at he
        exact .inr he
  cases h with
  | stays => exact .inl hd
  | calls u newState malicious throws =>
    obtain hj | hj := Nat.lt_or_ge j s.calls.length
    · exact .inl ((List.getElem?_append_left hj).symm.trans hd)
    · rw [List.getElem?_append_right hj, List.getElem?_singleton] at hd
      split_ifs at hd
      obtain rfl := Option.some.inj hd
      rw [raising_none] at hk
      cases hk
  | reads i u l left call =>
    obtain ⟨rfl, rfl⟩ | hold := hset hd
    · obtain ⟨rfl, rfl⟩ := Prod.mk.inj (Option.some.inj hk)
      refine .inr ⟨rfl, ?_, rfl, rfl⟩
      unfold reading
      rw [call]
    · exact .inl hold
  | writes i u m l left call =>
    obtain ⟨rfl, rfl⟩ | hold := hset hd
    · rw [raising_none] at hk
      cases hk
    · exact .inl hold
  | logs i u l left read call =>
    obtain ⟨rfl, rfl⟩ | hold := hset hd
    · rw [raising_none] at hk
      cases hk
    · exact .inl hold

/-! ## Every run -/

/-- No value of a counter, and none that was read of it, is above what the raises that are over make. -/
structure Bounded (s : StatCalls) : Prop where
  counter : ∀ k, s.counter k + s.toCome (.raise k) ≤ s.begun k
  reads : ∀ c ∈ s.calls, ∀ k n, c.raising = some (k, n) → n + s.toCome (.raise k) ≤ s.begun k

theorem Bounded.step (hs : s.Bounded) (hstep : s.step a = some s') : s'.Bounded := by
  have hdoes := does_of_step hstep
  -- a value that was within the bound still is
  have hkeep : ∀ k n, n + s.toCome (.raise k) ≤ s.begun k → n + s'.toCome (.raise k) ≤ s'.begun k := fun k n h => by
    obtain ⟨-, b, hcome, hbegun⟩ | ⟨i, c, m, -, -, -, -, hcome, hbegun⟩ := hdoes.amounts k
    · omega
    · omega
  refine ⟨fun k => ?_, fun d hd k n hraising => ?_⟩
  · obtain ⟨hvalue, -⟩ | ⟨i, c, n, hcall, hraising, -, hvalue, hcome, hbegun⟩ := hdoes.amounts k
    · rw [hvalue]
      exact hkeep k _ (hs.counter k)
    · have hread := hs.reads c (List.mem_of_getElem? hcall) k n hraising
      omega
  · obtain ⟨j, hd⟩ := List.mem_iff_getElem?.1 hd
    obtain hold | ⟨-, -, rfl, -⟩ := hdoes.raising hd hraising
    · exact hkeep k n (hs.reads d (List.mem_of_getElem? hold) k n hraising)
    · exact hkeep k _ (hs.counter k)

/-! ## Runs in which raises of one counter do not overlap -/

/-- A counter is what the raises that are over make, and one call at most has read it. -/
structure Exact (s : StatCalls) : Prop where
  counter : ∀ k, s.counter k + s.toCome (.raise k) = s.begun k
  reads : ∀ c ∈ s.calls, ∀ k n, c.raising = some (k, n) → n = s.counter k
  one : ∀ (i j : ℕ) (c d : StatCall) (k : StatCounter) (n m : ℕ), s.calls[i]? = some c → s.calls[j]? = some d →
    c.raising = some (k, n) → d.raising = some (k, m) → i = j

theorem Exact.step (hs : s.Exact) (hok : s.Serial a) (hstep : s.step a = some s') : s'.Exact := by
  have hdoes := does_of_step hstep
  -- no call that had read a counter is there when another one reads it
  have hfree : ∀ {i j : ℕ} {c : StatCall} {k : StatCounter} {n : ℕ}, a = .next j → s.reading j = some k →
      s.calls[i]? = some c → c.raising ≠ some (k, n) := fun {i j c k n} ha hreading hcall hraising => by
    subst ha
    exact hok k hreading c (List.mem_of_getElem? hcall) (by rw [hraising]; rfl)
  refine ⟨fun k => ?_, fun d hd k n hraising => ?_, fun i j c d k n m hc hd hck hdk => ?_⟩
  · have hcounter := hs.counter k
    obtain ⟨hvalue, b, hcome, hbegun⟩ | ⟨i, c, n, hcall, hraising, -, hvalue, hcome, hbegun⟩ := hdoes.amounts k
    · omega
    · have hread := hs.reads c (List.mem_of_getElem? hcall) k n hraising
      omega
  · obtain ⟨j, hd⟩ := List.mem_iff_getElem?.1 hd
    obtain hold | ⟨-, -, rfl, hsame⟩ := hdoes.raising hd hraising
    · have hread := hs.reads d (List.mem_of_getElem? hold) k n hraising
      obtain ⟨hvalue, -⟩ | ⟨i, c, m, hcall, hwriter, hover, -⟩ := hdoes.amounts k
      · exact hread.trans hvalue.symm
      · -- the call that writes is this one, and it is over
        obtain rfl := hs.one j i d c k n m hold hcall hraising hwriter
        rw [hover d hd] at hraising
        cases hraising
    · rw [hsame]
  · obtain hc | ⟨hac, hreadc, -⟩ := hdoes.raising hc hck <;> obtain hd | ⟨had, hreadd, -⟩ := hdoes.raising hd hdk
    · exact hs.one i j c d k n m hc hd hck hdk
    · exact absurd hck (hfree had hreadd hc)
    · exact absurd hdk (hfree hac hreadc hd)
    · exact StatStep.next.inj (hac.symm.trans had)

theorem bounded_of_reaches (h : Reaches step anyStep {} s) : s.Bounded := by
  refine h.invariant (P := Bounded) ⟨fun k => le_rfl, fun c hc => absurd hc List.not_mem_nil⟩ fun s a s' hs _ hstep => ?_
  exact hs.step hstep

theorem exact_of_reaches (h : Reaches step Serial {} s) : s.Exact := by
  refine h.invariant (P := Exact) ⟨fun k => rfl, fun c hc => absurd hc List.not_mem_nil, fun i j c d k n m hc => ?_⟩
    fun s a s' hs hok hstep => hs.step hok hstep
  exact nomatch hc

/-- Two URLs come to VISITING and to VISITED, one after the other where they raise a counter. -/
def inTurn : List StatStep :=
  [.setUrlState 0 .visiting none false, .setUrlState 1 .visiting none false, .next 0, .next 0, .next 1, .next 0, .next 1,
    .next 1, .setUrlState 0 .visited none false, .setUrlState 1 .visited (some true) false, .next 2, .next 3, .next 2,
    .next 2, .next 3, .next 2, .next 3, .next 3, .next 2, .next 3, .next 2, .next 3]

/-- Both calls read the counter before they write it: two lines, and one raise. -/
example : (run step {} [.setUrlState 0 .visiting none false, .setUrlState 1 .visiting none false, .next 0, .next 1,
    .next 0, .next 1, .next 0, .next 1]).map (fun s => (s.counter .visiting, s.log.count .visiting)) = some (1, 2) := by
  decide +kernel

end StatCalls

end CaptureHPC
