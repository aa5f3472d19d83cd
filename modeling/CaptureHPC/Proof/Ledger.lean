import CaptureHPC.Proof.Serving

/-!
# The statistics and the log

Each counter of the server is the number of its lines in the log, in every state that the server
reaches (`ledger_of_reaches`). It stays so when a handler throws halfway: a counter and its line are
never apart when something can throw. For a visited URL the visiting time is computed in between and
can throw; such a URL counts as visited, but it has no verdict and no visiting time.

Here a change of state is done without another one beside it. `StatCalls` has those beside each other.
-/

namespace CaptureHPC

open Lib UrlsController

variable {cfg : Config} {sdf : SimpleDateFormat} {w : World} {n : ℤ} {A B : ℕ → Prop} {u : ℕ}
  {s s' : UrlGroupsController} {t t' : UrlsController} {x : LogEntry}

/-- What is counted: the URLs that were added, the first counters of `Stats`, and the errors, which are
the counter `urlError` and the list of URLs in error. -/
inductive Counter
  | queued | visiting | visited | safe | malicious | error
  deriving DecidableEq

namespace Counter

def value (t : UrlsController) : Counter → ℕ
  | queued => t.size
  | visiting => t.stats.visiting
  | visited => t.stats.visited
  | safe => t.stats.safe
  | malicious => t.stats.malicious
  | error => t.stats.urlError + t.errorUrlList.length

/-- The lines of a counter. -/
def counts : Counter → LogEvent → Bool
  | queued, .queued => true
  | visiting, .visiting => true
  | visited, .visited => true
  | safe, .benign => true
  | malicious, .malicious => true
  | error, .error .. => true
  | _, _ => false

/-- The number of its lines. -/
def lines (log : List LogEntry) (k : Counter) : ℕ := log.countP fun x => k.counts x.event

end Counter

/-- The statistics and the lists agree with the log. -/
structure Ledger (t : UrlsController) : Prop where
  agree : ∀ k : Counter, k.value t = k.lines t.log
  times : t.stats.visitingTimes.length = t.visitedList.length
  ended : t.visitedList.length ≤ t.stats.visited
  verdicts : t.visitedList.length ≤ t.stats.safe + t.stats.malicious
  changes : t.stats.firstStateChanges.length ≤ t.stats.malicious
  nodup : t.errorUrlList.Nodup
  listed : ∀ u, (t.url u).urlState = .error → u ∈ t.errorUrlList

theorem Ledger.start : Ledger {} where
  agree k := by cases k <;> rfl
  times := rfl
  ended := le_rfl
  verdicts := le_rfl
  changes := le_rfl
  nodup := List.nodup_nil
  listed _ h := by cases h

theorem lines_append (log L : List LogEntry) (k : Counter) : k.lines (log ++ L) = k.lines log + k.lines L :=
  List.countP_append

/-- Lines are written and counted. -/
theorem agree_append {L : List LogEntry} (h : ∀ k : Counter, k.value t = k.lines t.log) (hlog : t'.log = t.log ++ L)
    (hvalue : ∀ k : Counter, k.value t' = k.value t + k.lines L) (k : Counter) : k.value t' = k.lines t'.log := by
  rw [hlog, lines_append, hvalue, h]

/-- A record is edited, and the URL is not in ERROR by that. -/
theorem Ledger.setUrl (h : Ledger t) {y : Url} (hy : y.urlState = .error → (t.url u).urlState = .error) :
    Ledger (t.setUrl u y) :=
  { h with
    listed := fun v hv => by
      by_cases hvu : v = u
      · rw [hvu, setUrl_self] at hv
        exact hvu ▸ h.listed u (hy hv)
      · rw [setUrl_of_ne hvu] at hv
        exact h.listed v hv }

/-- A line that is not counted. -/
theorem Ledger.line (h : Ledger t) (hx : ∀ k : Counter, k.counts x.event = false) : Ledger (t.writeToLog x) :=
  { h with
    agree := agree_append (t := t) (L := [x]) h.agree rfl fun k => by
      rw [Counter.lines, List.countP_singleton, hx]
      cases k <;> rfl }

/-- A URL is added. -/
theorem Ledger.addUrl (h : Ledger t) {y : Url} (hy : y.urlState ≠ .error) : Ledger (t.addUrl y) := by
  unfold UrlsController.addUrl
  split_ifs
  · exact h.line fun k => by cases k <;> rfl
  · have hset := h.setUrl (u := t.size) (y := y) fun h => absurd h hy
    exact { hset with agree := agree_append (t := t) h.agree rfl fun k => by cases k <;> rfl }

/-! ## Changes of state -/

/-- VISITING: the counter and the line, or nothing when there is no start time. -/
theorem Ledger.logVisiting (h : Ledger t) (hu : (t.url u).urlState = .visiting) : Ledger
    (final ((Url.logVisiting u >>= fun _ => modify (UrlsController.update u) : UrlsM Unit).run t)) := by
  cases hstart : (t.url u).visitStartTime with
  | none =>
    have hrun : (Url.logVisiting u).run t = .error .nullPointer t := by
      unfold Url.logVisiting
      rw [EStateM.run_bind, EStateM.run_get]
      dsimp only
      rw [hstart]
      rfl
    rw [run_bind_error hrun]
    exact h
  | some date =>
    set t1 : UrlsController := (t.addStats fun s => { s with visiting := s.visiting + 1 }).writeToLog
      (entry (t.url u) date true .visiting) with ht1
    have hrun : (Url.logVisiting u).run t = .ok () t1 := by
      unfold Url.logVisiting
      rw [EStateM.run_bind, EStateM.run_get]
      dsimp only
      rw [hstart]
      rfl
    rw [run_bind_ok hrun]
    show Ledger (t1.update u)
    unfold UrlsController.update
    dsimp only
    rw [show (t1.url u).urlState = .visiting from hu]
    exact { h with agree := agree_append (t := t) h.agree rfl fun k => by cases k <;> rfl }

/-- The lines and the counters of the verdict that a visit or a failure ends with. -/
structure Verdict (t t' : UrlsController) : Prop where
  agree : (∀ k : Counter, k.value t = k.lines t.log) → ∀ k : Counter, k.value t' = k.lines t'.log
  times : t'.stats.visitingTimes = t.stats.visitingTimes
  visited : t'.stats.visited = t.stats.visited
  verdicts : t.stats.safe + t.stats.malicious ≤ t'.stats.safe + t'.stats.malicious
  changes : t.stats.firstStateChanges.length ≤ t.stats.malicious →
    t'.stats.firstStateChanges.length ≤ t'.stats.malicious
  visitedList : t'.visitedList = t.visitedList
  errorList : t'.errorUrlList = t.errorUrlList
  url : t'.url = t.url

theorem Verdict.refl (t : UrlsController) : Verdict t t := ⟨id, rfl, rfl, le_rfl, id, rfl, rfl, rfl⟩

theorem logMalicious_verdict (y : Url) (date : ℤ) (t : UrlsController) : ∃ t', (Url.logMalicious y date).run t = .ok () t' ∧
    Verdict t t' ∧ t'.stats.safe + t'.stats.malicious = t.stats.safe + t.stats.malicious + 1 := by
  refine ⟨_, rfl, ⟨fun h => agree_append (t := t) h rfl fun k => ?_, ?_, ?_, ?_, fun h => ?_, rfl, rfl, rfl⟩, ?_⟩
  all_goals simp only [writeToLog, addStats, Stats.addFirstStateChangeTime]
  · cases k <;> cases y.firstStateChange <;> cases y.visitFinishTime <;> rfl
  · cases y.firstStateChange <;> cases y.visitFinishTime <;> rfl
  · cases y.firstStateChange <;> cases y.visitFinishTime <;> rfl
  · cases y.firstStateChange <;> cases y.visitFinishTime <;> exact Nat.le_succ _
  · cases y.firstStateChange <;> cases y.visitFinishTime
    · exact Nat.le_succ_of_le h
    · exact Nat.le_succ_of_le h
    · exact Nat.le_succ_of_le h
    · show (t.stats.firstStateChanges ++ [_]).length ≤ _
      rw [List.length_append]
      exact Nat.succ_le_succ h
  · cases y.firstStateChange <;> cases y.visitFinishTime <;> rfl

theorem logVerdict_verdict (y : Url) (date : ℤ) (t : UrlsController) : ∃ t', (Url.logVerdict y date).run t = .ok () t' ∧
    Verdict t t' ∧ t'.stats.safe + t'.stats.malicious = t.stats.safe + t.stats.malicious + 1 := by
  unfold Url.logVerdict
  split_ifs
  · exact logMalicious_verdict y date t
  · refine ⟨_, rfl, ⟨fun h => agree_append (t := t) h rfl fun k => by cases k <;> rfl, rfl, rfl, ?_, id, rfl, rfl,
      rfl⟩, ?_⟩
    all_goals simp only [writeToLog, addStats]
    all_goals omega

theorem logFailure_verdict (y : Url) (date : ℤ) (t : UrlsController) : ∃ t', (Url.logFailure y date).run t = .ok () t' ∧
    Verdict t t' := by
  unfold Url.logFailure
  split
  · obtain ⟨t', hrun, hverdict, -⟩ := logMalicious_verdict y date t
    exact ⟨t', hrun, hverdict⟩
  · refine ⟨_, rfl, fun h => agree_append (t := t) h rfl fun k => ?_, rfl, rfl, le_rfl, id, rfl, rfl, rfl⟩
    cases k with
    | error => exact Nat.add_right_comm _ _ _
    | queued | visiting | visited | safe | malicious => rfl
  · exact ⟨t, rfl, .refl t⟩

/-- VISITED: the line and the counter, and then the visiting time, the verdict and the list, or nothing
when a time is missing. -/
theorem Ledger.logVisited (h : Ledger t) (hu : (t.url u).urlState = .visited) : Ledger
    (final ((Url.logVisited u >>= fun _ => modify (UrlsController.update u) : UrlsM Unit).run t)) := by
  set t1 : UrlsController := (t.writeToLog (entry (t.url u) t.now true .visited)).addStats
    fun s => { s with visited := s.visited + 1 } with ht1
  have h1 : Ledger t1 :=
    { h with
      agree := agree_append (t := t) h.agree rfl fun k => by cases k <;> rfl
      ended := Nat.le_succ_of_le h.ended }
  have hrun : ∀ {r}, (do
      Url.logVisitingTime (t.url u)
      Url.logVerdict (t.url u) t.now
      Url.closeEventLog u : UrlsM Unit).run t1 = r → (Url.logVisited u).run t = r := fun hr =>
    (run_bind_ok rfl).trans ((run_bind_ok rfl).trans ((run_bind_ok rfl).trans hr))
  by_cases htimes : (t.url u).visitStartTime.isSome ∧ (t.url u).visitFinishTime.isSome
  · obtain ⟨start, hstart⟩ := Option.isSome_iff_exists.1 htimes.1
    obtain ⟨finish, hfinish⟩ := Option.isSome_iff_exists.1 htimes.2
    set t2 : UrlsController := t1.addStats (Stats.addUrlVisitingTime start finish (t.url u).visitTime) with ht2
    have htime : (Url.logVisitingTime (t.url u)).run t1 = .ok () t2 := by
      unfold Url.logVisitingTime
      rw [hstart, hfinish]
      rfl
    obtain ⟨t3, hverdict, hv, hone⟩ := logVerdict_verdict (t.url u) t.now t2
    rw [run_bind_ok (hrun ((run_bind_ok htime).trans ((run_bind_ok hverdict).trans rfl)))]
    show Ledger ((t3.setUrl u { t3.url u with logFile := false }).update u)
    have hstate : ((t3.setUrl u { t3.url u with logFile := false }).url u).urlState = .visited := by
      rw [setUrl_self, hv.url]
      exact hu
    unfold UrlsController.update
    dsimp only
    rw [hstate]
    have hsame : ∀ v, ((t3.setUrl u { t3.url u with logFile := false }).url v).urlState = (t.url v).urlState := fun v =>
      (same_setUrl (f := Url.urlState) (by rfl) v).trans (congrArg (fun f : ℕ → Url => (f v).urlState) hv.url)
    refine ⟨hv.agree h1.agree, ?_, ?_, ?_, hv.changes h1.changes, ?_, fun v hve => ?_⟩
    · show t3.stats.visitingTimes.length = (t3.visitedList ++ [u]).length
      rw [hv.times, hv.visitedList, List.length_append]
      show (t1.stats.visitingTimes ++ [_]).length = _
      rw [List.length_append]
      exact congrArg (· + 1) h.times
    · show (t3.visitedList ++ [u]).length ≤ t3.stats.visited
      rw [hv.visited, hv.visitedList, List.length_append]
      exact Nat.succ_le_succ h.ended
    · show (t3.visitedList ++ [u]).length ≤ t3.stats.safe + t3.stats.malicious
      rw [hone, hv.visitedList, List.length_append]
      exact Nat.succ_le_succ h.verdicts
    · exact hv.errorList ▸ h.nodup
    · have hmem := h.listed v ((hsame v).symm.trans hve)
      exact hv.errorList ▸ hmem
  · have htime : (Url.logVisitingTime (t.url u)).run t1 = .error .nullPointer t1 := by
      unfold Url.logVisitingTime
      split
      · rename_i hstart hfinish
        exact absurd ⟨by rw [hstart]; rfl, by rw [hfinish]; rfl⟩ htimes
      · rfl
    rw [run_bind_error (hrun (run_bind_error htime))]
    exact h1

/-- ERROR: the line of the failure, and the first time also the line and the list of errors. -/
theorem Ledger.logError (h : Ledger t) (u : ℕ) : Ledger
    (final ((Url.logError u >>= fun _ => modify (UrlsController.update u) : UrlsM Unit).run
      (t.setUrl u { t.url u with urlState := .error }))) := by
  set t1 := t.setUrl u { t.url u with urlState := .error } with ht1
  obtain ⟨t2, hfailure, hv⟩ := logFailure_verdict (t1.url u) t1.now t1
  have hrun : (Url.logError u).run t1 = .ok () (t2.setUrl u { t2.url u with logFile := false }) :=
    (run_bind_ok rfl).trans ((run_bind_ok hfailure).trans rfl)
  rw [run_bind_ok hrun]
  set t3 := t2.setUrl u { t2.url u with logFile := false } with ht3
  have hsame : ∀ v, v ≠ u → (t3.url v).urlState = (t.url v).urlState := fun v hv' => by
    rw [ht3, setUrl_of_ne hv', hv.url, ht1, setUrl_of_ne hv']
  have herror : (t3.url u).urlState = .error := by
    rw [ht3, setUrl_self, hv.url, ht1, setUrl_self]
  show Ledger (t3.update u)
  unfold UrlsController.update
  dsimp only
  rw [herror]
  dsimp only
  have htimes : t2.stats.visitingTimes.length = t2.visitedList.length := by
    rw [hv.times, hv.visitedList]
    exact h.times
  have hended : t2.visitedList.length ≤ t2.stats.visited := by
    rw [hv.visited, hv.visitedList]
    exact h.ended
  have hverdicts : t2.visitedList.length ≤ t2.stats.safe + t2.stats.malicious := by
    rw [hv.visitedList]
    exact h.verdicts.trans hv.verdicts
  have hlist : t2.errorUrlList = t.errorUrlList := hv.errorList
  split_ifs with hmem
  · refine ⟨hv.agree h.agree, htimes, hended, hverdicts, hv.changes h.changes, hv.errorList ▸ h.nodup, fun v hve => ?_⟩
    by_cases hvu : v = u
    · rw [hvu]
      exact hmem
    · have hlisted := h.listed v ((hsame v hvu).symm.trans hve)
      exact hlist ▸ hlisted
  · refine ⟨agree_append (t := t2) (hv.agree h.agree) rfl fun k => ?_, htimes, hended, hverdicts, hv.changes h.changes,
      ?_, fun v hve => ?_⟩
    · cases k with
      | error =>
        show t2.stats.urlError + (t2.errorUrlList ++ [u]).length = _
        rw [List.length_append]
        rfl
      | queued | visiting | visited | safe | malicious => rfl
    · show (t2.errorUrlList ++ [u]).Nodup
      have hnot : u ∉ t2.errorUrlList := hmem
      rw [List.nodup_append]
      refine ⟨hlist ▸ h.nodup, List.nodup_singleton u, fun a ha b hb => ?_⟩
      rw [List.mem_singleton.1 hb]
      rintro rfl
      exact hnot ha
    · show v ∈ t2.errorUrlList ++ [u]
      rw [List.mem_append, List.mem_singleton]
      by_cases hvu : v = u
      · exact .inr hvu
      · have hlisted := h.listed v ((hsame v hvu).symm.trans hve)
        exact .inl (hlist ▸ hlisted)

/-- A change of a URL's state, also one that throws. -/
theorem Ledger.setUrlState (h : Ledger t) (u : ℕ) (st : UrlState) : Ledger (final ((Url.setUrlState u st).run t)) := by
  rw [setUrlState_eq]
  split_ifs
  · exact h
  · have hset : st ≠ .error → Ledger (t.setUrl u { t.url u with urlState := st }) := fun hst =>
      h.setUrl fun he => absurd he hst
    have hself : ((t.setUrl u { t.url u with urlState := st }).url u).urlState = st := by rw [setUrl_self]
    cases st with
    | visiting => exact (hset nofun).logVisiting hself
    | visited => exact (hset nofun).logVisited hself
    | error => exact h.logError u
    | none | queued =>
      show Ledger (UrlsController.update u _)
      unfold UrlsController.update
      dsimp only
      rw [hself]
      exact hset nofun

/-! ## Runs -/

theorem Ledger.urlMove (h : Ledger t) (hmove : UrlMove B t t') : Ledger t' := by
  cases hmove with
  | edit u y _ state _ => exact h.setUrl fun he => state ▸ he
  | state u st => exact h.setUrlState u st
  | sending e he => exact h.line fun k => by rw [he]; cases k <;> rfl
  | queue q =>
    have hsame : ∀ k : Counter, k.value (t.withQueue q) = k.value t := fun k => by cases k <;> rfl
    exact { h with agree := fun k => (hsame k).trans (h.agree k) }
  | clock now =>
    have hsame : ∀ k : Counter, k.value { t with now := now } = k.value t := fun k => by cases k <;> rfl
    exact { h with agree := fun k => (hsame k).trans (h.agree k) }
  | counted a b => exact { h with agree := fun k => (by cases k <;> rfl : k.value _ = k.value t).trans (h.agree k) }

theorem Ledger.urlMoves (h : Ledger t) (hmoves : UrlMoves B t t') : Ledger t' := by
  induction hmoves with
  | refl => exact h
  | tail _ hmove ih => exact ih.urlMove hmove

theorem Ledger.move (h : Ledger s.urls) (hmove : GroupMove n A s s') : Ledger s'.urls := by
  cases hmove with
  | urls t _ _ moves => exact h.urlMoves moves
  | add => exact h.addUrl nofun
  | take _ _ _ _ moves => exact h.urlMoves moves
  | work _ _ _ _ _ ht => exact h.urlMoves ht.urls
  | react _ _ _ _ _ moves => exact h.urlMoves moves

theorem ledger_of_moves (h : GroupMoves n A {} s) : Ledger s.urls := by
  induction h with
  | refl => exact .start
  | tail _ hmove ih => exact ih.move hmove

/-- **The statistics agree with the log**, in every state that the server reaches. -/
theorem ledger_of_reaches (h : Reaches (World.act cfg sdf) anyStep {} w) : Ledger w.groups.urls :=
  ledger_of_moves (moves_of_anyStep h)

end CaptureHPC
