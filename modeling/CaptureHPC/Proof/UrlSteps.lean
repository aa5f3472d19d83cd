import CaptureHPC.Spec.Execution

/-!
# What the programs on URLs change

* `UrlsFrame L` says what every program on the URLs `L` leaves alone, whether it returns or
  throws: the queue, the other URLs, and what a URL is made of.
* `Same f` says that a program changes no URL's `f` (its verdict, its error code).
* `setUrlState_ok` and `setUrlState_returns`: what `setUrlState` sets, and when it returns.
-/

namespace CaptureHPC

open Lib Url UrlsController

/-- `y` is the URL `x` at a later time: times that were set stay set. -/
structure Url.Later (x y : Url) : Prop where
  url : y.url = x.url
  program : y.clientProgram = x.clientProgram
  started : x.visitStartTime.isSome → y.visitStartTime.isSome
  finished : x.visitFinishTime.isSome → y.visitFinishTime.isSome

theorem Url.Later.rfl' {x : Url} : x.Later x := ⟨rfl, rfl, fun h => h, fun h => h⟩

theorem Url.Later.trans {x y z : Url} (h : x.Later y) (h' : y.Later z) : x.Later z :=
  ⟨h'.url.trans h.url, h'.program.trans h.program, h'.started ∘ h.started, h'.finished ∘ h.finished⟩

theorem Url.Later.escapedUrl {x y : Url} (h : x.Later y) : y.escapedUrl = x.escapedUrl := by
  rw [Url.escapedUrl, Url.escapedUrl, h.url]

/-- Only the URLs in `L` changed, and they are still the same URLs. -/
structure UrlsFrame (L : List ℕ) (s s' : UrlsController) : Prop where
  size : s'.size = s.size
  queue : s'.urlQueue = s.urlQueue
  now : s'.now = s.now
  others : ∀ u ∉ L, s'.url u = s.url u
  later : ∀ u, (s.url u).Later (s'.url u)

variable {L L' : List ℕ} {s s' s'' : UrlsController} {u : ℕ}

theorem UrlsFrame.rfl' : UrlsFrame L s s := ⟨rfl, rfl, rfl, fun _ _ => rfl, fun _ => Url.Later.rfl'⟩

theorem UrlsFrame.trans (h : UrlsFrame L s s') (h' : UrlsFrame L s' s'') : UrlsFrame L s s'' where
  size := h'.size.trans h.size
  queue := h'.queue.trans h.queue
  now := h'.now.trans h.now
  others u hu := (h'.others u hu).trans (h.others u hu)
  later u := (h.later u).trans (h'.later u)

instance : Std.Refl (UrlsFrame L) := ⟨fun _ => UrlsFrame.rfl'⟩

instance : IsTrans UrlsController (UrlsFrame L) := ⟨fun _ _ _ => UrlsFrame.trans⟩

theorem UrlsFrame.mono (h : UrlsFrame L s s') (hL : L ⊆ L') : UrlsFrame L' s s' :=
  { h with others := fun u hu => h.others u fun hmem => hu (hL hmem) }

/-- No URL's `f` changed. -/
def Same {β : Type} (f : Url → β) (s s' : UrlsController) : Prop := ∀ u, f (s'.url u) = f (s.url u)

variable {β : Type} {f : Url → β}

instance : Std.Refl (Same f) := ⟨fun _ _ => rfl⟩

instance : IsTrans UrlsController (Same f) := ⟨fun _ _ _ h h' u => (h' u).trans (h u)⟩

/-- Nothing but the log, the statistics and the controller's lists changed. -/
structure OnlyLogs (s s' : UrlsController) : Prop where
  size : s'.size = s.size
  queue : s'.urlQueue = s.urlQueue
  now : s'.now = s.now
  url : s'.url = s.url

theorem OnlyLogs.trans (h : OnlyLogs s s') (h' : OnlyLogs s' s'') : OnlyLogs s s'' :=
  ⟨h'.size.trans h.size, h'.queue.trans h.queue, h'.now.trans h.now, h'.url.trans h.url⟩

instance : Std.Refl OnlyLogs := ⟨fun _ => ⟨rfl, rfl, rfl, rfl⟩⟩

instance : IsTrans UrlsController OnlyLogs := ⟨fun _ _ _ => OnlyLogs.trans⟩

theorem OnlyLogs.frame (h : OnlyLogs s s') : UrlsFrame L s s' :=
  ⟨h.size, h.queue, h.now, fun u _ => by rw [h.url], fun u => by rw [h.url]; exact Url.Later.rfl'⟩

theorem OnlyLogs.same (h : OnlyLogs s s') : Same f s s' := fun u => by rw [h.url]

theorem onlyLogs_writeToLog (e : LogEntry) : OnlyLogs s (s.writeToLog e) := ⟨rfl, rfl, rfl, rfl⟩

theorem onlyLogs_addStats (f : Stats → Stats) : OnlyLogs s (s.addStats f) := ⟨rfl, rfl, rfl, rfl⟩

theorem onlyLogs_update (u : ℕ) : OnlyLogs s (s.update u) := by
  unfold UrlsController.update
  dsimp only
  split
  · exact ⟨rfl, rfl, rfl, rfl⟩
  · exact ⟨rfl, rfl, rfl, rfl⟩
  · split <;> exact ⟨rfl, rfl, rfl, rfl⟩
  · exact ⟨rfl, rfl, rfl, rfl⟩

@[simp] theorem setUrl_self (u : ℕ) (x : Url) : (s.setUrl u x).url u = x := Function.update_self _ _ _

theorem setUrl_of_ne {v : ℕ} (h : v ≠ u) (x : Url) : (s.setUrl u x).url v = s.url v :=
  Function.update_of_ne h _ _

/-- A new record for a URL of `L` that is the same URL. -/
theorem frame_setUrl (hu : u ∈ L) {x : Url} (hx : (s.url u).Later x) : UrlsFrame L s (s.setUrl u x) := by
  refine ⟨rfl, rfl, rfl, fun v hv => setUrl_of_ne (by rintro rfl; exact hv hu) x, fun v => ?_⟩
  by_cases hv : v = u
  · subst hv
    rw [setUrl_self]
    exact hx
  · rw [setUrl_of_ne hv]
    exact Url.Later.rfl'

theorem same_setUrl {x : Url} (hx : f x = f (s.url u)) : Same f s (s.setUrl u x) := by
  intro v
  by_cases hv : v = u
  · subst hv
    rw [setUrl_self, hx]
  · rw [setUrl_of_ne hv]

/-! ## Every program on `L` keeps the frame -/

theorem keeps_writeToLog (e : LogEntry) : Keeps OnlyLogs (modify (writeToLog e) : UrlsM Unit) :=
  keeps_modify fun _ => onlyLogs_writeToLog e

theorem keeps_addStats (f : Stats → Stats) : Keeps OnlyLogs (modify (addStats f) : UrlsM Unit) :=
  keeps_modify fun _ => onlyLogs_addStats f

theorem keeps_logVisiting (u : ℕ) : Keeps OnlyLogs (logVisiting u) := by
  refine keeps_bind keeps_get fun s => ?_
  dsimp only
  split
  · exact keeps_throw _
  · exact keeps_bind (keeps_addStats _) fun _ => keeps_writeToLog _

theorem keeps_logVisitingTime (x : Url) : Keeps OnlyLogs (logVisitingTime x) := by
  unfold logVisitingTime
  split
  · exact keeps_addStats _
  · exact keeps_throw _

theorem keeps_logMalicious (x : Url) (date : ℤ) : Keeps OnlyLogs (logMalicious x date) :=
  keeps_bind (keeps_addStats _) fun _ => keeps_bind (keeps_addStats _) fun _ => keeps_writeToLog _

theorem keeps_logVerdict (x : Url) (date : ℤ) : Keeps OnlyLogs (logVerdict x date) := by
  unfold logVerdict
  split
  · exact keeps_logMalicious x date
  · exact keeps_bind (keeps_addStats _) fun _ => keeps_writeToLog _

theorem keeps_logFailure (x : Url) (date : ℤ) : Keeps OnlyLogs (logFailure x date) := by
  unfold logFailure
  split
  · exact keeps_logMalicious x date
  · exact keeps_bind (keeps_addStats _) fun _ => keeps_writeToLog _
  · exact keeps_pure _

theorem keeps_modifyUrl (hu : u ∈ L) {g : Url → Url} (h : ∀ x : Url, x.Later (g x)) :
    Keeps (UrlsFrame L) (modifyUrl u g) := keeps_modify fun _ => frame_setUrl hu (h _)

theorem same_modifyUrl (u : ℕ) {g : Url → Url} (h : ∀ x, f (g x) = f x) :
    Keeps (Same f) (modifyUrl u g) := keeps_modify fun _ => same_setUrl (h _)

/-- What a log may change of its URL: whether the change file is open. -/
def LogFrame (u : ℕ) (s s' : UrlsController) : Prop :=
  ∃ b, OnlyLogs (s.setUrl u { s.url u with logFile := b }) s'

theorem LogFrame.of_onlyLogs (h : OnlyLogs s s') : LogFrame u s s' :=
  ⟨(s.url u).logFile, h.size, h.queue, h.now, h.url.trans (Function.update_eq_self u s.url).symm⟩

instance : Std.Refl (LogFrame u) := ⟨fun s => .of_onlyLogs (refl s)⟩

instance : IsTrans UrlsController (LogFrame u) where
  trans s s' s'' := by
    rintro ⟨b, h⟩ ⟨b', h'⟩
    refine ⟨b', h'.size.trans h.size, h'.queue.trans h.queue, h'.now.trans h.now, h'.url.trans ?_⟩
    show Function.update s'.url u _ = Function.update s.url u _
    rw [h.url]
    show Function.update (Function.update s.url u _) u _ = _
    rw [Function.update_idem, setUrl_self]

theorem keeps_logState (u : ℕ) (st : UrlState) : Keeps (LogFrame u) (logState u st) := by
  have logs : ∀ {m : UrlsM Unit}, Keeps OnlyLogs m → Keeps (LogFrame u) m :=
    fun h s => LogFrame.of_onlyLogs (h s)
  have close : Keeps (LogFrame u) (closeEventLog u) := keeps_modify fun s => ⟨false, refl _⟩
  unfold logState
  split
  · exact logs (keeps_logVisiting u)
  · exact keeps_bind keeps_get fun s => keeps_bind (logs (keeps_writeToLog _)) fun _ =>
      keeps_bind (logs (keeps_addStats _)) fun _ => keeps_bind (logs (keeps_logVisitingTime _)) fun _ =>
        keeps_bind (logs (keeps_logVerdict _ _)) fun _ => close
  · exact keeps_bind keeps_get fun s => keeps_bind (logs (keeps_logFailure _ _)) fun _ => close
  · exact keeps_pure _

theorem LogFrame.frame (h : LogFrame u s s') (hu : u ∈ L) : UrlsFrame L s s' := by
  obtain ⟨b, h⟩ := h
  have hset : UrlsFrame L s (s.setUrl u { s.url u with logFile := b }) :=
    frame_setUrl hu ⟨rfl, rfl, id, id⟩
  exact hset.trans h.frame

theorem LogFrame.same (h : LogFrame u s s') (hf : ∀ x b, f { x with logFile := b } = f x) : Same f s s' := by
  obtain ⟨b, h⟩ := h
  intro v
  rw [h.url]
  exact same_setUrl (hf _ _) v

theorem keeps_setUrlState (hu : u ∈ L) (st : UrlState) : Keeps (UrlsFrame L) (setUrlState u st) := by
  refine keeps_bind keeps_get fun s => ?_
  split
  · exact keeps_pure _
  · refine keeps_bind (keeps_modifyUrl hu fun _ => ⟨rfl, rfl, id, id⟩) fun _ => ?_
    exact keeps_bind (fun s => (keeps_logState u st s).frame hu) fun _ =>
      keeps_modify fun s => (onlyLogs_update u).frame

theorem same_setUrlState (hf : ∀ x b, f { x with logFile := b } = f x)
    (hst : ∀ x st, f { x with urlState := st } = f x) (u : ℕ) (st : UrlState) :
    Keeps (Same f) (setUrlState u st) := by
  refine keeps_bind keeps_get fun s => ?_
  split
  · exact keeps_pure _
  · exact keeps_bind (same_modifyUrl u fun x => hst x st) fun _ =>
      keeps_bind (fun s => (keeps_logState u st s).same hf) fun _ => keeps_modify fun s => (onlyLogs_update u).same

theorem keeps_openLog (hu : u ∈ L) : Keeps (UrlsFrame L) (Url.openLog u) := by
  refine keeps_bind keeps_get fun s => ?_
  split
  · exact keeps_throw _
  · exact keeps_modifyUrl hu fun _ => ⟨rfl, rfl, id, id⟩

theorem keeps_writeEventToLog (sdf : SimpleDateFormat) (hu : u ∈ L) (event : String) :
    Keeps (UrlsFrame L) (Url.writeEventToLog sdf u event) := by
  refine keeps_bind (keeps_openLog hu) fun _ => keeps_bind keeps_get fun s => ?_
  split
  · exact keeps_modifyUrl hu fun _ => ⟨rfl, rfl, id, id⟩
  · split
    · exact keeps_throw _
    · split
      · exact keeps_pure _
      · exact keeps_modifyUrl hu fun _ => ⟨rfl, rfl, id, id⟩

theorem keeps_setMalicious (hu : u ∈ L) (b : Bool) : Keeps (UrlsFrame L) (Url.setMalicious u b) :=
  keeps_modifyUrl hu fun _ => ⟨rfl, rfl, id, id⟩

theorem keeps_setMaliciousByMap (hu : u ∈ L) (b : Bool) (map : Option UrlMap) :
    Keeps (UrlsFrame L) (UrlGroup.setMaliciousByMap b map u) := by
  refine keeps_bind keeps_get fun s => ?_
  split
  · exact keeps_setMalicious hu b
  · split
    · exact keeps_throw _
    · exact keeps_setMalicious hu _

theorem keeps_setMajorErrorCode (hu : u ∈ L) (code : ℤ) : Keeps (UrlsFrame L) (setMajorErrorCode u code) :=
  keeps_modifyUrl hu fun _ => ⟨rfl, rfl, id, id⟩

theorem keeps_setErrorOfUrl (hu : u ∈ L) (code : ErrorCode) :
    Keeps (UrlsFrame L) (UrlGroup.setErrorOfUrl code u) :=
  keeps_bind (keeps_setMajorErrorCode hu _) fun _ => keeps_setUrlState hu _

theorem keeps_setStateOfUrl (hu : u ∈ L) (st : UrlGroupState) (code : ErrorCode) :
    Keeps (UrlsFrame L) (UrlGroup.setStateOfUrl st code u) := by
  unfold UrlGroup.setStateOfUrl
  split
  · exact keeps_setUrlState hu _
  · exact keeps_bind keeps_get fun s => keeps_setUrlState hu _
  · refine keeps_bind (keeps_bind keeps_get fun s => ?_) fun _ => keeps_setUrlState hu _
    split
    · exact keeps_setMajorErrorCode hu _
    · exact keeps_pure _
  · exact keeps_pure _

theorem keeps_setItemCodes (hu : u ∈ L) (major minor : Option String) :
    Keeps (UrlsFrame L) (Client.setItemCodes u major minor) := by
  unfold Client.setItemCodes
  split
  · exact keeps_throw _
  · exact keeps_bind (keeps_setMajorErrorCode hu _) fun _ => keeps_throw _
  · exact keeps_bind (keeps_setMajorErrorCode hu _) fun _ =>
      keeps_modifyUrl hu fun _ => ⟨rfl, rfl, id, id⟩

theorem keeps_setVisitStartTime (hu : u ∈ L) : Keeps (UrlsFrame L) (Url.setVisitStartTime u) :=
  keeps_modify fun _ => frame_setUrl hu ⟨rfl, rfl, fun _ => rfl, id⟩

theorem keeps_setVisitFinishTime (hu : u ∈ L) : Keeps (UrlsFrame L) (Url.setVisitFinishTime u) :=
  keeps_modify fun _ => frame_setUrl hu ⟨rfl, rfl, id, fun _ => rfl⟩

theorem frame_forM {op : ℕ → UrlsM Unit} (h : ∀ u ∈ L, Keeps (UrlsFrame [u]) (op u)) :
    Keeps (UrlsFrame L) (forM L op) :=
  keeps_forM fun u hu s => (h u hu s).mono (by simpa using hu)

/-! ## The verdict and the error code -/

theorem same_setItemCodes (hmaj : ∀ x c, f { x with majorErrorCode := c } = f x)
    (hmin : ∀ x c, f { x with minorErrorCode := c } = f x) (u : ℕ) (major minor : Option String) :
    Keeps (Same f) (Client.setItemCodes u major minor) := by
  unfold Client.setItemCodes
  split
  · exact keeps_throw _
  · exact keeps_bind (same_modifyUrl u fun x => hmaj x _) fun _ => keeps_throw _
  · exact keeps_bind (same_modifyUrl u fun x => hmaj x _) fun _ => same_modifyUrl u fun x => hmin x _

theorem same_setMaliciousByMap (hf : ∀ x b, f { x with malicious := b } = f x) (u : ℕ) (b : Bool)
    (map : Option UrlMap) : Keeps (Same f) (UrlGroup.setMaliciousByMap b map u) := by
  refine keeps_bind keeps_get fun s => ?_
  split
  · exact same_modifyUrl u fun x => hf x _
  · split
    · exact keeps_throw _
    · exact same_modifyUrl u fun x => hf x _

theorem same_writeEventToLog (sdf : SimpleDateFormat) (u : ℕ) (event : String) :
    Keeps (Same Url.majorErrorCode) (Url.writeEventToLog sdf u event) := by
  have hopen : Keeps (Same Url.majorErrorCode) (Url.openLog u) := by
    refine keeps_bind keeps_get fun s => ?_
    split
    · exact keeps_throw _
    · exact same_modifyUrl u fun _ => rfl
  refine keeps_bind hopen fun _ => keeps_bind keeps_get fun s => ?_
  split
  · exact same_modifyUrl u fun _ => rfl
  · split
    · exact keeps_throw _
    · split
      · exact keeps_pure _
      · exact same_modifyUrl u fun _ => rfl

/-! ## Changes of state -/

theorem setUrlState_eq (u : ℕ) (st : UrlState) (s : UrlsController) : (setUrlState u st).run s =
    if (s.url u).urlState = st then .ok () s
    else (logState u st >>= fun _ => modify (UrlsController.update u)).run
      (s.setUrl u { s.url u with urlState := st }) := by
  unfold setUrlState
  rw [EStateM.run_bind, EStateM.run_get]
  dsimp only
  split_ifs with h
  · rfl
  · exact run_bind_ok rfl

/-- A change of state that returns has set the state. -/
theorem setUrlState_ok {st : UrlState} (h : (setUrlState u st).run s = .ok () s') :
    (s'.url u).urlState = st := by
  rw [setUrlState_eq] at h
  split_ifs at h with hst
  · cases h
    exact hst
  · obtain ⟨_, t, hlog, hup⟩ := run_bind_eq_ok h
    cases hup
    obtain ⟨b, ht⟩ := (keeps_logState u st).of_ok hlog
    rw [(onlyLogs_update u).url, ht.url, setUrl_self, setUrl_self]

/-- A URL can go to the state: its visit has times. -/
def Ready (st : UrlState) (x : Url) : Prop :=
  (st = .visiting → x.visitStartTime.isSome) ∧
    (st = .visited → x.visitStartTime.isSome ∧ x.visitFinishTime.isSome)

theorem logVerdict_returns (x : Url) (date : ℤ) (s : UrlsController) :
    ∃ s', (logVerdict x date).run s = .ok () s' := by
  unfold logVerdict
  split <;> exact ⟨_, rfl⟩

theorem logFailure_returns (x : Url) (date : ℤ) (s : UrlsController) :
    ∃ s', (logFailure x date).run s = .ok () s' := by
  unfold logFailure
  split <;> exact ⟨_, rfl⟩

theorem logState_returns {st : UrlState} (h : Ready st (s.url u)) :
    ∃ s', (logState u st).run s = .ok () s' := by
  cases st with
  | none | queued => exact ⟨s, rfl⟩
  | visiting =>
    obtain ⟨d, hd⟩ := Option.isSome_iff_exists.1 (h.1 rfl)
    show ∃ s', (logVisiting u).run s = .ok () s'
    unfold logVisiting
    rw [EStateM.run_bind, EStateM.run_get]
    dsimp only
    rw [hd]
    exact ⟨_, rfl⟩
  | visited =>
    obtain ⟨d, hd⟩ := Option.isSome_iff_exists.1 (h.2 rfl).1
    obtain ⟨d', hd'⟩ := Option.isSome_iff_exists.1 (h.2 rfl).2
    have htime : ∀ t, ∃ s', (logVisitingTime (s.url u)).run t = .ok () s' := by
      intro t
      unfold logVisitingTime
      rw [hd, hd']
      exact ⟨_, rfl⟩
    obtain ⟨s1, h1⟩ := htime (addStats (fun s => { s with visited := s.visited + 1 })
      (writeToLog (entry (s.url u) s.now true .visited) s))
    obtain ⟨s2, h2⟩ := logVerdict_returns (s.url u) s.now s1
    exact ⟨_, (run_bind_ok rfl).trans ((run_bind_ok rfl).trans ((run_bind_ok rfl).trans
      ((run_bind_ok h1).trans ((run_bind_ok h2).trans rfl))))⟩
  | error =>
    obtain ⟨s1, h1⟩ := logFailure_returns (s.url u) s.now s
    exact ⟨_, (run_bind_ok rfl).trans ((run_bind_ok h1).trans rfl)⟩

/-- **A URL goes to a state** it is ready for. -/
theorem setUrlState_returns {st : UrlState} (h : Ready st (s.url u)) :
    ∃ s', (setUrlState u st).run s = .ok () s' := by
  rw [setUrlState_eq]
  split_ifs with hst
  · exact ⟨s, rfl⟩
  · have hready : Ready st ((s.setUrl u { s.url u with urlState := st }).url u) := by
      rw [setUrl_self]
      exact h
    obtain ⟨s1, h1⟩ := logState_returns hready
    exact ⟨_, (run_bind_ok h1).trans rfl⟩

theorem setErrorOfUrl_returns (code : ErrorCode) (u : ℕ) (s : UrlsController) :
    ∃ s', (UrlGroup.setErrorOfUrl code u).run s = .ok () s' := by
  obtain ⟨s', hs'⟩ := setUrlState_returns (s := s.setUrl u _) (u := u) (show Ready .error _ from ⟨nofun, nofun⟩)
  exact ⟨s', (run_bind_ok rfl).trans hs'⟩

/-- A loop over URLs whose body returns wherever the loop can be. -/
theorem forM_returns {op : ℕ → UrlsM Unit} {P : Url → Prop} (hkeep : ∀ u ∈ L, Keeps (UrlsFrame [u]) (op u))
    (hP : ∀ x y : Url, x.Later y → P x → P y) (hop : ∀ u ∈ L, ∀ s, P (s.url u) → ∃ s', (op u).run s = .ok () s')
    (hs : ∀ u ∈ L, P (s.url u)) : ∃ s', (forM L op).run s = .ok () s' := by
  obtain ⟨s', h, -⟩ := forM_ok (I := fun _ t => ∀ u ∈ L, P (t.url u)) (g := op) (l := L) hs (by
    intro d x r t hl ht
    have hx : x ∈ L := by rw [hl]; simp
    obtain ⟨t', ht'⟩ := hop x hx t (ht x hx)
    exact ⟨t', ht', fun u hu => hP _ _ (((hkeep x hx).of_ok ht').later u) (ht u hu)⟩)
  exact ⟨s', h⟩

/-- After a loop over URLs that returns, a property holds of each URL in it, if each round
gives it to its URL and the later rounds for other URLs do not touch it. -/
theorem forM_urls {op : ℕ → UrlsM Unit} {Q : ℕ → Url → Prop} (hkeep : ∀ u ∈ L, Keeps (UrlsFrame [u]) (op u))
    (hop : ∀ u ∈ L, ∀ t t', UrlsFrame L s t → (op u).run t = .ok () t' → Q u (t'.url u))
    (h : (forM L op).run s = .ok () s') : ∀ u ∈ L, Q u (s'.url u) := by
  have hI := forM_eq_ok (I := fun d t => UrlsFrame L s t ∧ ∀ u ∈ d, Q u (t.url u)) ⟨UrlsFrame.rfl', by simp⟩ (by
    intro d x r t t' hl hI ht
    have hx : x ∈ L := by rw [hl]; simp
    have hframe := (hkeep x hx).of_ok ht
    refine ⟨hI.1.trans (hframe.mono (by simpa using hx)), fun u hu => ?_⟩
    by_cases hux : u = x
    · rw [hux]
      exact hop x hx t t' hI.1 ht
    · rw [hframe.others u (by simpa using hux)]
      rcases List.mem_append.1 hu with hu | hu
      · exact hI.2 u hu
      · exact absurd (List.mem_singleton.1 hu) hux) h
  exact hI.2

end CaptureHPC
