import CaptureHPC.Spec.ClientConfig

/-!
# Which visits the client-config plugin survives

* `openUrl_cases`: what the first loop does for one URL.
* `Opened.next`, `opening_ok`: after the first loop there is a handler exactly for the URLs that were not skipped.
* `closing_ok`, `closing_error`: the closing loop needs a handler for each URL.
* `terminated_iff`: which processes are terminated.
* `visitGroup_iff`: so a visit closes what it started exactly if no download fails and no other process has the name
  of the program.
-/

namespace CaptureHPC.Cpp.GroupVisit

open ErrorCodes

variable {towlower : WChar → WChar} {tempPath url : WString} {application : Application} {r : UrlRun} {runs : ℕ → UrlRun}
  {i j k n : ℕ} {s s' : GroupVisit} {e : VisitFault} {visitEvent : VisitEvent}
  {applicationsMap : WString → Option Application}

/-- The download for a URL is needed and fails. -/
def Fails (application : Application) (r : UrlRun) : Prop := application.downloadURL = true ∧ r.download ≠ .downloaded

instance : Decidable (Fails application r) := inferInstanceAs (Decidable (_ ∧ _))

/-- The text of a URL that is downloaded has a slash and a dot. -/
def HasExtension (application : Application) (url : WString) : Prop :=
  application.downloadURL = true → slash ∈ url ∧ dot ∈ url

/-! ## Texts -/

theorem substr_last_of_mem {c : WChar} (h : c ∈ url) : ∃ t, substr url (findLastOf url c) npos = some t := by
  obtain ⟨t, u, hrev, ht⟩ := List.eq_append_cons_of_mem (List.mem_reverse.2 h)
  have hsplit : url = u.reverse ++ c :: t.reverse := by
    rw [← List.reverse_reverse url, hrev]
    simp
  rw [hsplit, findLastOf_append _ (by simpa using ht)]
  exact ⟨_, substr_to_end _ _⟩

theorem substr_last_of_not_mem {c : WChar} (h : c ∉ url) : substr url (findLastOf url c) npos = none := by
  have hnpos : findLastOf url c = npos := by
    rw [findLastOf, List.idxOf?_eq_none_iff.2 (by simpa using h)]
  rw [hnpos, substr, if_neg]
  rintro ⟨h, -⟩
  exact absurd h (by decide)

theorem status_pos (outcome : DownloadOutcome) : FileDownloader.status outcome > 0 ↔ outcome ≠ .downloaded := by
  cases outcome <;> decide

/-! ## One URL -/

/-- **The first loop for one URL**: an exception for want of an extension, a URL that is skipped, or a program that is
started. -/
theorem openUrl_cases (tempPath : WString) (application : Application) (r : UrlRun)
    (hurl : s.visitEvent.urls[i]? = some url) :
    (¬HasExtension application url ∧ openUrl tempPath application r i s = .error .outOfRange) ∨
    (HasExtension application url ∧ Fails application r ∧
      openUrl tempPath application r i s =
        .ok (s.setError i captureVisitationNetworkError (FileDownloader.status r.download))) ∨
    (HasExtension application url ∧ ¬Fails application r ∧
      ∃ urlPath, openUrl tempPath application r i s = .ok (s.execute application r i urlPath)) := by
  unfold openUrl HasExtension Fails
  rw [hurl]
  cases happ : application.downloadURL with
  | false =>
    refine .inr (.inr ⟨?_, ?_, url, rfl⟩)
    · intro h
      cases h
    · rintro ⟨h, -⟩
      cases h
  | true =>
    simp only [if_true, forall_const, true_and]
    by_cases hslash : slash ∈ url
    · obtain ⟨file, hfile⟩ := substr_last_of_mem hslash
      rw [hfile]
      unfold FileDownloader.download
      by_cases hdot : dot ∈ url
      · obtain ⟨extension, hextension⟩ := substr_last_of_mem hdot
        rw [hextension]
        simp only [bind, Except.bind, status_pos]
        by_cases hdownload : r.download = .downloaded
        · rw [if_neg (not_not.2 hdownload)]
          exact .inr (.inr ⟨⟨hslash, hdot⟩, not_not.2 hdownload, _, rfl⟩)
        · rw [if_pos hdownload]
          exact .inr (.inl ⟨⟨hslash, hdot⟩, hdownload, rfl⟩)
      · rw [substr_last_of_not_mem hdot]
        exact .inl ⟨fun h => hdot h.2, rfl⟩
    · rw [substr_last_of_not_mem hslash]
      exact .inl ⟨fun h => hslash h.1, rfl⟩

/-! ## The first loop -/

theorem foldlM_range_succ {α β : Type} (f : β → ℕ → Except α β) (b : β) (n : ℕ) :
    (List.range (n + 1)).foldlM f b = ((List.range n).foldlM f b).bind fun c => f c n := by
  rw [List.range_succ, List.foldlM_append]
  simp only [List.foldlM_cons, List.foldlM_nil, bind_pure]
  rfl

/-- The first rounds of the first loop. -/
def opening (tempPath : WString) (application : Application) (runs : ℕ → UrlRun) (visitEvent : VisitEvent) (k : ℕ) :
    Except VisitFault GroupVisit :=
  (List.range k).foldlM (fun s i => openUrl tempPath application (runs i) i s) { visitEvent }

/-- What holds after the first rounds. -/
structure Opened (application : Application) (runs : ℕ → UrlRun) (visitEvent : VisitEvent) (k : ℕ) (s : GroupVisit) :
    Prop where
  urls : s.visitEvent.urls = visitEvent.urls
  hasExtension : ∀ i < k, ∀ url, visitEvent.urls[i]? = some url → HasExtension application url
  handlers : ∀ i < k, s.processHandlers i = none ↔ Fails application (runs i)
  executed : s.executed = (List.range k).filter fun i => ¬Fails application (runs i)
  closed : s.closed = []
  terminated : s.terminated = []
  failed : ∀ i < k, Fails application (runs i) →
    (s.url i).majorErrorCode = captureVisitationNetworkError ∧
      (s.url i).minorErrorCode = FileDownloader.status (runs i).download
  /-- A handler is for the program and its process. -/
  handler : ∀ i ph, s.processHandlers i = some ph →
    i < k ∧ ph.fullPathToExe = application.path ∧ ph.processId = (runs i).processId

theorem opened_start (visitEvent : VisitEvent) : Opened application runs visitEvent 0 { visitEvent } where
  urls := rfl
  hasExtension := fun i hi => absurd hi (Nat.not_lt_zero i)
  handlers := fun i hi => absurd hi (Nat.not_lt_zero i)
  executed := rfl
  closed := rfl
  terminated := rfl
  failed := fun i hi => absurd hi (Nat.not_lt_zero i)
  handler := fun _ _ h => by cases h

theorem url_setError (i j : ℕ) (major minor : UInt32) (s : GroupVisit) :
    (s.setError i major minor).url j =
      if j = i then { s.url i with majorErrorCode := major, minorErrorCode := minor } else s.url j :=
  Function.update_apply s.url i _ j

/-- Starting a program leaves the other URLs alone, and puts in a handler. -/
theorem execute_spec (application : Application) (r : UrlRun) (i : ℕ) (urlPath : WString) (s : GroupVisit) :
    (s.execute application r i urlPath).visitEvent.urls = s.visitEvent.urls ∧
      (s.execute application r i urlPath).processHandlers =
        Function.update s.processHandlers i
          (some { ProcessHandler.new application.path urlPath with processId := r.processId }) ∧
      (s.execute application r i urlPath).executed = s.executed ++ [i] ∧
      (s.execute application r i urlPath).closed = s.closed ∧
      (s.execute application r i urlPath).terminated = s.terminated ∧
      ∀ j ≠ i, (s.execute application r i urlPath).url j = s.url j := by
  unfold execute
  cases r.openTimesOut with
  | true =>
    refine ⟨rfl, rfl, rfl, rfl, rfl, fun j hj => ?_⟩
    simp only [if_true]
    rw [url_setError, if_neg hj]
    exact Function.update_of_ne hj _ _
  | false =>
    refine ⟨rfl, rfl, rfl, rfl, rfl, fun j hj => ?_⟩
    exact Function.update_of_ne hj _ _

/-- **One round of the first loop.** -/
theorem Opened.next (h : Opened application runs visitEvent k s) (hk : k < visitEvent.urls.length)
    (hs : openUrl tempPath application (runs k) k s = .ok s') : Opened application runs visitEvent (k + 1) s' := by
  have hurl : s.visitEvent.urls[k]? = some visitEvent.urls[k] := by
    rw [h.urls]
    exact List.getElem?_eq_getElem hk
  have hnone : s.processHandlers k = none := by
    cases hhandler : s.processHandlers k with
    | none => rfl
    | some ph => exact absurd (h.handler k ph hhandler).1 (lt_irrefl k)
  -- a statement about the rounds so far, and about this one
  have hsplit : ∀ {P : ℕ → Prop}, (∀ i < k, P i) → P k → ∀ i < k + 1, P i := by
    intro P hold hnew i hi
    rcases Nat.lt_succ_iff_lt_or_eq.1 hi with hlt | rfl
    · exact hold i hlt
    · exact hnew
  have hextension : HasExtension application visitEvent.urls[k] →
      ∀ i < k + 1, ∀ url, visitEvent.urls[i]? = some url → HasExtension application url := by
    intro hnew
    refine hsplit h.hasExtension fun url hurl' => ?_
    rw [List.getElem?_eq_getElem hk, Option.some.injEq] at hurl'
    exact hurl' ▸ hnew
  rcases openUrl_cases tempPath application (runs k) hurl with
    ⟨-, herror⟩ | ⟨hext, hfails, hskip⟩ | ⟨hext, hruns, urlPath, hexecute⟩
  · rw [herror] at hs
    cases hs
  · obtain rfl := Except.ok.inj (hskip.symm.trans hs)
    refine ⟨h.urls, hextension hext, hsplit h.handlers (iff_of_true hnone hfails), ?_, h.closed, h.terminated,
      ?_, ?_⟩
    · rw [List.range_succ, List.filter_append, ← h.executed, List.filter_singleton,
        decide_eq_false (not_not.2 hfails), cond_false, List.append_nil]
      rfl
    · refine hsplit (fun i hi hold => ?_) fun _ => ?_
      · rw [url_setError, if_neg (by omega)]
        exact h.failed i hi hold
      · rw [url_setError, if_pos rfl]
        exact ⟨rfl, rfl⟩
    · intro i ph hhandler
      obtain ⟨hlt, hpath⟩ := h.handler i ph hhandler
      exact ⟨by omega, hpath⟩
  · obtain rfl := Except.ok.inj (hexecute.symm.trans hs)
    obtain ⟨hurls, hhandlers, hexecuted, hclosed, hterminated, hother⟩ :=
      execute_spec application (runs k) k urlPath s
    refine ⟨hurls.trans h.urls, hextension hext, ?_, ?_, hclosed.trans h.closed, hterminated.trans h.terminated, ?_, ?_⟩
    · rw [hhandlers]
      refine hsplit (fun i hi => ?_) ?_
      · rw [Function.update_of_ne (by omega)]
        exact h.handlers i hi
      · rw [Function.update_self]
        exact iff_of_false (Option.some_ne_none _) hruns
    · rw [hexecuted, List.range_succ, List.filter_append, ← h.executed, List.filter_singleton,
        decide_eq_true hruns, cond_true]
    · refine hsplit (fun i hi hold => ?_) fun hfails => absurd hfails hruns
      rw [hother i (by omega)]
      exact h.failed i hi hold
    · intro i ph hhandler
      rw [hhandlers] at hhandler
      by_cases hi : i = k
      · subst hi
        rw [Function.update_self, Option.some.injEq] at hhandler
        subst hhandler
        exact ⟨Nat.lt_succ_self i, rfl, rfl⟩
      · rw [Function.update_of_ne hi] at hhandler
        obtain ⟨hlt, hpath⟩ := h.handler i ph hhandler
        exact ⟨by omega, hpath⟩

theorem opening_succ (k : ℕ) : opening tempPath application runs visitEvent (k + 1) =
    (opening tempPath application runs visitEvent k).bind fun s => openUrl tempPath application (runs k) k s :=
  foldlM_range_succ _ _ k

theorem opening_opened (hk : k ≤ visitEvent.urls.length) (hs : opening tempPath application runs visitEvent k = .ok s) :
    Opened application runs visitEvent k s := by
  induction k generalizing s with
  | zero =>
    obtain rfl := Except.ok.inj hs
    exact opened_start visitEvent
  | succ k ih =>
    rw [opening_succ] at hs
    cases hbefore : opening tempPath application runs visitEvent k with
    | error e =>
      rw [hbefore] at hs
      cases hs
    | ok before =>
      rw [hbefore] at hs
      exact (ih (by omega) hbefore).next (by omega) hs

/-- **The first loop ends** unless the text of a URL makes it throw. -/
theorem opening_ok (tempPath : WString) (hk : k ≤ visitEvent.urls.length)
    (h : ∀ i < k, ∀ url, visitEvent.urls[i]? = some url → HasExtension application url) :
    ∃ s, opening tempPath application runs visitEvent k = .ok s := by
  induction k with
  | zero => exact ⟨_, rfl⟩
  | succ k ih =>
    obtain ⟨before, hbefore⟩ := ih (by omega) fun i hi => h i (by omega)
    have hopened := opening_opened (by omega) hbefore
    have hurl : visitEvent.urls[k]? = some visitEvent.urls[k] := List.getElem?_eq_getElem hk
    have hurl' : before.visitEvent.urls[k]? = some visitEvent.urls[k] := by
      rw [hopened.urls]
      exact hurl
    rw [opening_succ, hbefore]
    rcases openUrl_cases tempPath application (runs k) hurl' with
      ⟨hext, -⟩ | ⟨-, -, hskip⟩ | ⟨-, -, urlPath, hexecute⟩
    · exact absurd (h k (Nat.lt_succ_self k) _ hurl) hext
    · exact ⟨_, hskip⟩
    · exact ⟨_, hexecute⟩

/-! ## The closing loop -/

/-- The first rounds of the closing loop. -/
def closing (towlower : WChar → WChar) (runs : ℕ → UrlRun) (s : GroupVisit) (k : ℕ) : Except VisitFault GroupVisit :=
  (List.range k).foldlM (fun s i => closeUrl towlower (runs i) i s) s

theorem closing_succ (s : GroupVisit) (k : ℕ) : closing towlower runs s (k + 1) =
    (closing towlower runs s k).bind fun s => closeUrl towlower (runs k) k s :=
  foldlM_range_succ _ _ k

/-- The processes that are terminated for a handler. -/
def terminatedFor (towlower : WChar → WChar) (r : UrlRun) (handler : Option ProcessHandler) : List UInt32 :=
  handler.elim [] (·.closeProcess towlower r.processes)

/-- What holds after the first rounds of the closing loop. -/
structure Closed (towlower : WChar → WChar) (runs : ℕ → UrlRun) (s : GroupVisit) (k : ℕ) (s' : GroupVisit) : Prop where
  handlers : s'.processHandlers = s.processHandlers
  executed : s'.executed = s.executed
  closed : s'.closed = s.closed ++ List.range k
  terminated : s'.terminated =
    s.terminated ++ (List.range k).flatMap fun i => terminatedFor towlower (runs i) (s.processHandlers i)

theorem closeUrl_none (h : s.processHandlers i = none) : closeUrl towlower r i s = .error .nullHandler := by
  unfold closeUrl
  rw [h]

theorem closeUrl_some (towlower : WChar → WChar) (r : UrlRun) {ph : ProcessHandler}
    (h : s.processHandlers i = some ph) :
    ∃ s', closeUrl towlower r i s = .ok s' ∧ s'.processHandlers = s.processHandlers ∧ s'.executed = s.executed ∧
      s'.closed = s.closed ++ [i] ∧ s'.terminated = s.terminated ++ ph.closeProcess towlower r.processes := by
  unfold closeUrl
  rw [h]
  cases r.closeTimesOut <;> exact ⟨_, rfl, rfl, rfl, rfl, rfl⟩

/-- **With a handler for each URL**, every one of them is closed. -/
theorem closing_ok (towlower : WChar → WChar) (runs : ℕ → UrlRun) (h : ∀ i < k, s.processHandlers i ≠ none) :
    ∃ s', closing towlower runs s k = .ok s' ∧ Closed towlower runs s k s' := by
  induction k with
  | zero => exact ⟨s, rfl, rfl, rfl, (List.append_nil _).symm, (List.append_nil _).symm⟩
  | succ k ih =>
    obtain ⟨before, hbefore, hclosed⟩ := ih fun i hi => h i (by omega)
    obtain ⟨ph, hph⟩ := Option.ne_none_iff_exists'.1 (h k (Nat.lt_succ_self k))
    obtain ⟨s', hs', hhandlers, hexecuted, hnow, hterminated⟩ :=
      closeUrl_some towlower (runs k) (hclosed.handlers ▸ hph : before.processHandlers k = some ph)
    rw [closing_succ, hbefore]
    refine ⟨s', hs', hhandlers.trans hclosed.handlers, hexecuted.trans hclosed.executed, ?_, ?_⟩
    · rw [hnow, hclosed.closed, List.range_succ, List.append_assoc]
    · rw [hterminated, hclosed.terminated, List.range_succ, List.flatMap_append, List.append_assoc,
        List.flatMap_singleton, hph]
      rfl

/-- **Without one**, the loop uses a null handler. -/
theorem closing_error (hi : i < k) (h : s.processHandlers i = none) :
    closing towlower runs s k = .error .nullHandler := by
  induction k generalizing i with
  | zero => omega
  | succ k ih =>
    rw [closing_succ]
    by_cases hall : ∀ j < k, s.processHandlers j ≠ none
    · -- the earlier handlers are closed, and this is the one that is null
      have hik : i = k := by
        by_contra hne
        exact hall i (by omega) h
      subst hik
      obtain ⟨before, hbefore, hclosed⟩ := closing_ok towlower runs hall
      rw [hbefore]
      exact closeUrl_none (hclosed.handlers ▸ h)
    · push Not at hall
      obtain ⟨j, hj, hnone⟩ := hall
      rw [ih hj hnone]
      rfl

/-! ## Visits -/

/-- The visit ends, and uses no null handler; each handler that was made is closed once, and the processes that are
terminated are exactly those that were started; and the URLs whose downloads failed keep the error and the status. -/
def Survives (towlower : WChar → WChar) (tempPath : WString) (applicationsMap : WString → Option Application)
    (runs : ℕ → UrlRun) (visitEvent : VisitEvent) : Prop :=
  ∃ s, visitGroup towlower tempPath applicationsMap runs visitEvent = .ok s ∧ s.closed = s.executed ∧
    (∀ processId, processId ∈ s.terminated ↔ processId ≠ 0 ∧ ∃ i ∈ s.executed, (runs i).processId = processId) ∧
    ∀ application, applicationsMap visitEvent.program = some application →
      ∀ i < visitEvent.urls.length, Fails application (runs i) →
        (s.url i).majorErrorCode = captureVisitationNetworkError ∧
          (s.url i).minorErrorCode = FileDownloader.status (runs i).download

/-- What happens for a program that is known, with the two loops. -/
theorem visitGroup_eq (happ : applicationsMap visitEvent.program = some application) :
    visitGroup towlower tempPath applicationsMap runs visitEvent =
      (opening tempPath application runs visitEvent visitEvent.urls.length).bind fun s =>
        if s.error = false ∧ visitEvent.urls = [] then .error .subscript
        else closing towlower runs s visitEvent.urls.length := by
  unfold visitGroup
  rw [happ]
  rfl

/-- No round fails: there are URLs, their texts have an extension where they are downloaded, and the downloads
succeed. -/
def AllOpen (application : Application) (runs : ℕ → UrlRun) (visitEvent : VisitEvent) : Prop :=
  visitEvent.urls ≠ [] ∧
    ∀ i url, visitEvent.urls[i]? = some url → HasExtension application url ∧ ¬Fails application (runs i)

/-- What a visit of a known program that ends has been through. -/
theorem visitGroup_ok (happ : applicationsMap visitEvent.program = some application)
    (hs : visitGroup towlower tempPath applicationsMap runs visitEvent = .ok s) :
    ∃ opened, visitEvent.urls ≠ [] ∧ Opened application runs visitEvent visitEvent.urls.length opened ∧
      (∀ i < visitEvent.urls.length, opened.processHandlers i ≠ none) ∧
      Closed towlower runs opened visitEvent.urls.length s := by
  rw [visitGroup_eq happ] at hs
  cases hopening : opening tempPath application runs visitEvent visitEvent.urls.length with
  | error e =>
    rw [hopening] at hs
    cases hs
  | ok opened =>
    have hopened := opening_opened le_rfl hopening
    have hne : visitEvent.urls ≠ [] := by
      intro hempty
      rw [hempty] at hopening
      obtain rfl := Except.ok.inj hopening
      rw [hempty] at hs
      cases hs
    rw [hopening] at hs
    have hloop : closing towlower runs opened visitEvent.urls.length = .ok s := by
      rw [← hs]
      exact (if_neg fun h => hne h.2).symm
    -- the closing loop would have used a null handler
    have hhandlers : ∀ i < visitEvent.urls.length, opened.processHandlers i ≠ none := by
      intro i hi hnone
      rw [closing_error hi hnone] at hloop
      cases hloop
    obtain ⟨s', hs', hclosed⟩ := closing_ok towlower runs hhandlers
    obtain rfl := Except.ok.inj (hs'.symm.trans hloop)
    exact ⟨opened, hne, hopened, hhandlers, hclosed⟩

/-- It has been through all its URLs. -/
theorem visitGroup_all (happ : applicationsMap visitEvent.program = some application)
    (hs : visitGroup towlower tempPath applicationsMap runs visitEvent = .ok s) :
    AllOpen application runs visitEvent ∧ s.executed = List.range visitEvent.urls.length ∧
      s.closed = List.range visitEvent.urls.length := by
  obtain ⟨opened, hne, hopened, hhandlers, hclosed⟩ := visitGroup_ok happ hs
  have hfails : ∀ i < visitEvent.urls.length, ¬Fails application (runs i) := fun i hi hfails =>
    hhandlers i hi ((hopened.handlers i hi).2 hfails)
  refine ⟨⟨hne, fun i url hurl => ?_⟩, ?_, ?_⟩
  · obtain ⟨hi, -⟩ := List.getElem?_eq_some_iff.1 hurl
    exact ⟨hopened.hasExtension i hi url hurl, hfails i hi⟩
  · rw [hclosed.executed, hopened.executed]
    exact List.filter_eq_self.2 fun i hi => decide_eq_true (hfails i (List.mem_range.1 hi))
  · rw [hclosed.closed, hopened.closed, List.nil_append]

/-- **With all its URLs open**, a visit ends. -/
theorem visitGroup_ends (towlower : WChar → WChar) (tempPath : WString)
    (happ : applicationsMap visitEvent.program = some application) (hall : AllOpen application runs visitEvent) :
    ∃ s, visitGroup towlower tempPath applicationsMap runs visitEvent = .ok s := by
  obtain ⟨opened, hopening⟩ := opening_ok tempPath (le_refl visitEvent.urls.length) fun i _ url hurl =>
    (hall.2 i url hurl).1
  have hopened := opening_opened le_rfl hopening
  have hhandlers : ∀ i < visitEvent.urls.length, opened.processHandlers i ≠ none := by
    intro i hi hnone
    exact (hall.2 i _ (List.getElem?_eq_getElem hi)).2 ((hopened.handlers i hi).1 hnone)
  obtain ⟨s, hs, -⟩ := closing_ok towlower runs hhandlers
  refine ⟨s, ?_⟩
  rw [visitGroup_eq happ, hopening]
  exact (if_neg fun h => hall.1 h.2).trans hs

theorem mem_closeProcess (ph : ProcessHandler) (processes : List (UInt32 × WString)) (processId : UInt32) :
    processId ∈ ph.closeProcess towlower processes ↔ processId ≠ 0 ∧ (ph.processId = processId ∨
      ∃ name, (processId, name) ∈ processes ∧ ProcessHandler.SameName towlower ph.fullPathToExe name) := by
  unfold ProcessHandler.closeProcess
  rw [List.mem_append]
  constructor
  -- the own process comes first, then all that match the name of the program
  · rintro (hown | hlisted)
    · split_ifs at hown with hzero
      · cases hown
      · obtain rfl := List.mem_singleton.1 hown
        exact ⟨hzero, .inl rfl⟩
    · obtain ⟨⟨p, name⟩, hp, rfl⟩ := List.mem_map.1 hlisted
      rw [List.mem_filter, decide_eq_true_eq] at hp
      exact ⟨hp.2.1, .inr ⟨name, hp.1, hp.2.2⟩⟩
  · rintro ⟨hzero, rfl | ⟨name, hp, hname⟩⟩
    · rw [if_neg hzero]
      exact .inl (List.mem_singleton_self _)
    · exact .inr (List.mem_map.2 ⟨_, List.mem_filter.2 ⟨hp, decide_eq_true ⟨hzero, hname⟩⟩, rfl⟩)

/-- **The processes that a visit terminates** are those it started, and those that were listed under the name of the
program when one of its handlers was closed. -/
theorem terminated_iff (happ : applicationsMap visitEvent.program = some application)
    (hs : visitGroup towlower tempPath applicationsMap runs visitEvent = .ok s) (processId : UInt32) :
    processId ∈ s.terminated ↔ processId ≠ 0 ∧ ∃ i < visitEvent.urls.length, (runs i).processId = processId ∨
      ∃ name, (processId, name) ∈ (runs i).processes ∧ ProcessHandler.SameName towlower application.path name := by
  obtain ⟨opened, -, hopened, hhandlers, hclosed⟩ := visitGroup_ok happ hs
  rw [hclosed.terminated, hopened.terminated, List.nil_append, List.mem_flatMap]
  have hone : ∀ i < visitEvent.urls.length,
      (processId ∈ terminatedFor towlower (runs i) (opened.processHandlers i) ↔
        processId ≠ 0 ∧ ((runs i).processId = processId ∨ ∃ name, (processId, name) ∈ (runs i).processes ∧
          ProcessHandler.SameName towlower application.path name)) := by
    intro i hi
    obtain ⟨ph, hph⟩ := Option.ne_none_iff_exists'.1 (hhandlers i hi)
    obtain ⟨-, hpath, hid⟩ := hopened.handler i ph hph
    rw [hph, ← hpath, ← hid]
    exact mem_closeProcess ph _ _
  simp only [List.mem_range]
  rw [← exists_and_left]
  exact exists_congr fun i => ⟨fun h => ⟨((hone i h.1).1 h.2).1, h.1, ((hone i h.1).1 h.2).2⟩,
    fun h => ⟨h.2.1, (hone i h.2.1).2 ⟨h.1, h.2.2⟩⟩⟩

/-- Whatever is listed under the name of the program when a handler is closed is a process that the visit started. -/
def OnlyStarted (towlower : WChar → WChar) (application : Application) (runs : ℕ → UrlRun) (visitEvent : VisitEvent) :
    Prop :=
  ∀ i < visitEvent.urls.length, ∀ processId name, (processId, name) ∈ (runs i).processes → processId ≠ 0 →
    ProcessHandler.SameName towlower application.path name → ∃ j < visitEvent.urls.length, (runs j).processId = processId

/-- **What is terminated is what was started** exactly if nothing else has the name of the program. -/
theorem terminated_started_iff (happ : applicationsMap visitEvent.program = some application)
    (hs : visitGroup towlower tempPath applicationsMap runs visitEvent = .ok s) :
    (∀ processId, processId ∈ s.terminated ↔ processId ≠ 0 ∧ ∃ i ∈ s.executed, (runs i).processId = processId) ↔
      OnlyStarted towlower application runs visitEvent := by
  rw [(visitGroup_all happ hs).2.1]
  simp only [List.mem_range]
  constructor
  · intro h i hi processId name hlisted hzero hname
    have hterminated := (terminated_iff happ hs processId).2 ⟨hzero, i, hi, .inr ⟨name, hlisted, hname⟩⟩
    exact ((h processId).1 hterminated).2
  · intro h processId
    rw [terminated_iff happ hs]
    refine and_congr_right fun hzero => ⟨?_, ?_⟩
    · rintro ⟨i, hi, hown | ⟨name, hlisted, hname⟩⟩
      · exact ⟨i, hi, hown⟩
      · exact h i hi processId name hlisted hzero hname
    · rintro ⟨i, hi, hown⟩
      exact ⟨i, hi, .inl hown⟩

/-- **A visit closes exactly what it started, and leaves the errors of failed downloads, exactly if** the program is
unknown, or there are URLs, none of them fails, and no other process has the name of the program. -/
theorem visitGroup_iff (towlower : WChar → WChar) (tempPath : WString) (applicationsMap : WString → Option Application)
    (runs : ℕ → UrlRun) (visitEvent : VisitEvent) :
    Survives towlower tempPath applicationsMap runs visitEvent ↔
      ∀ application, applicationsMap visitEvent.program = some application →
        AllOpen application runs visitEvent ∧ OnlyStarted towlower application runs visitEvent := by
  constructor
  · rintro ⟨s, hs, -, hterminated, -⟩ application happ
    exact ⟨(visitGroup_all happ hs).1, (terminated_started_iff happ hs).1 hterminated⟩
  · intro h
    cases happ : applicationsMap visitEvent.program with
    | none =>
      have hvisit : visitGroup towlower tempPath applicationsMap runs visitEvent =
          .ok { visitEvent := visitEvent.setErrorCode captureVisitationProcessError } := by
        unfold visitGroup
        rw [happ]
      refine ⟨_, hvisit, rfl, ?_, fun application hsome => ?_⟩
      · simp
      · rw [happ] at hsome
        cases hsome
    | some application =>
      obtain ⟨hall, honly⟩ := h application happ
      obtain ⟨s, hs⟩ := visitGroup_ends towlower tempPath happ hall
      obtain ⟨-, hexecuted, hclosed⟩ := visitGroup_all happ hs
      refine ⟨s, hs, hclosed.trans hexecuted.symm, (terminated_started_iff happ hs).2 honly, ?_⟩
      intro application' happ' i hi hfailed
      obtain rfl := Option.some.inj (happ.symm.trans happ')
      exact absurd hfailed (hall.2 i _ (List.getElem?_eq_getElem hi)).2

def reader : Application := { path := lit "C:\\reader.exe", downloadURL := true }

/-- A process is started, and no waiting times out. -/
def readerRun (download : DownloadOutcome) : UrlRun :=
  { download := download, processId := 100, openTimesOut := false, lastError := 0, closeTimesOut := false,
    processes := [] }

/-- Two documents are to be read. -/
def twoDocuments : VisitEvent :=
  { identifier := [], program := lit "reader", urls := [lit "http://a/1.pdf", lit "http://a/2.pdf"] }

/-- The first download fails: the closing loop uses a null handler. -/
theorem twoDocuments_fault :
    ¬Survives id (lit "temp\\") (fun _ => some reader)
      (fun i => readerRun (if i = 0 then .connectTimeout else .downloaded)) twoDocuments := by
  rintro ⟨s, hs, -⟩
  have hfault : visitGroup id (lit "temp\\") (fun _ => some reader)
      (fun i => readerRun (if i = 0 then .connectTimeout else .downloaded)) twoDocuments = .error .nullHandler := by
    rfl
  rw [hfault] at hs
  cases hs

end CaptureHPC.Cpp.GroupVisit
