import CaptureHPC.Proof.Frames

/-!
# The handlers of the event thread, part by part

A handler that returns ran all its parts, and each part is a program on a group. The lemmas
here say which parts these are and what they do to the verdicts and error codes of the URLs.
-/

namespace CaptureHPC

open Lib Client UrlGroup

variable {cfg : Config} {sdf : SimpleDateFormat} {w w' : World} {c g u : ℕ} {e item : Element}
  {s s' : UrlGroupsController} {map : UrlMap}

/-! ## Verdicts and error codes under the programs on a group -/

/-- A relation on the URLs, as one on the groups' controller. -/
def OnUrls (R : UrlsController → UrlsController → Prop) (s s' : UrlGroupsController) : Prop := R s.urls s'.urls

section OnUrls

variable {R : UrlsController → UrlsController → Prop}

instance [Std.Refl R] : Std.Refl (OnUrls R) := ⟨fun s => refl s.urls⟩

instance [IsTrans UrlsController R] : IsTrans UrlGroupsController (OnUrls R) :=
  ⟨fun _ _ _ h h' => IsTrans.trans (r := R) _ _ _ h h'⟩

theorem keeps_onUrls {α : Type} {m : UrlsM α} (h : Keeps R m) : Keeps (OnUrls R) (onUrls m) :=
  keeps_zoom h fun _ _ h => h

theorem onUrls_modifyGroup [Std.Refl R] (g : ℕ) (f : UrlGroup → UrlGroup) :
    Keeps (OnUrls R) (modifyGroup g f) := fun s => refl s.urls

end OnUrls

variable {β : Type} {f : Url → β}

theorem urls_setVisitFinishTime (g : ℕ) (time : Option String) :
    Keeps (OnUrls Eq) (UrlGroup.setVisitFinishTime sdf g time) := by
  unfold UrlGroup.setVisitFinishTime
  split
  · exact fun s => rfl
  · split <;> exact fun s => rfl

theorem same_setMalicious (hf : ∀ x b, f { x with malicious := b } = f x) (algorithm : Option String) (b : Bool)
    (map : Option UrlMap) : Keeps (OnUrls (Same f)) (UrlGroup.setMalicious g algorithm b map) := by
  refine keeps_bind (onUrls_modifyGroup g _) fun _ => keeps_bind keeps_get fun s => ?_
  cases algorithm with
  | none => exact keeps_throw _
  | some algorithm =>
    dsimp only
    split_ifs
    · exact keeps_onUrls (keeps_forM fun u _ => same_setMaliciousByMap hf u b map)
    · exact keeps_onUrls (keeps_forM fun u _ => same_modifyUrl u fun x => hf x _)
    · split
      · exact keeps_onUrls (same_modifyUrl _ fun x => hf x _)
      · exact keeps_pure _

theorem same_writeMapToLog (map : UrlMap) :
    Keeps (OnUrls (Same Url.majorErrorCode)) (writeMapToLog sdf g map) := by
  refine keeps_bind keeps_get fun s => keeps_onUrls (keeps_forM fun u _ => keeps_bind keeps_get fun _ => ?_)
  dsimp only
  split
  · exact keeps_pure _
  · split
    · exact keeps_pure _
    · exact same_writeEventToLog sdf u _

/-! ## Items -/

/-- The URL of the group that the text `uri` names. -/
def named (g : ℕ) (s : UrlGroupsController) (uri : Option String) : Option ℕ :=
  (uri.bind urlDecode).bind fun decodedURI => (s.group g).urlList.find? fun u =>
    equalsIgnoreCase (s.urls.url u).escapedUrl (urlEncode decodedURI)

theorem getUrl_run {uri : Option String} (h : named g s uri = some u) : (getUrl g uri).run s = .ok u s := by
  obtain ⟨d, hd, hfind⟩ := Option.bind_eq_some_iff.1 h
  obtain ⟨text, rfl, htext⟩ := Option.bind_eq_some_iff.1 hd
  unfold getUrl
  rw [EStateM.run_bind, EStateM.run_get]
  dsimp only
  rw [htext]
  dsimp only
  rw [hfind]
  rfl

theorem getUrl_ok {uri : Option String} (h : (getUrl g uri).run s = .ok u s') :
    s' = s ∧ named g s uri = some u := by
  unfold getUrl at h
  rw [EStateM.run_bind, EStateM.run_get] at h
  dsimp only at h
  cases uri with
  | none => cases h
  | some text =>
    dsimp only at h
    cases hd : urlDecode text with
    | none =>
      rw [hd] at h
      cases h
    | some d =>
      rw [hd] at h
      dsimp only at h
      cases hfind : (s.group g).urlList.find? fun u => equalsIgnoreCase (s.urls.url u).escapedUrl (urlEncode d) with
      | none =>
        rw [hfind] at h
        cases h
      | some v =>
        rw [hfind] at h
        cases h
        refine ⟨rfl, ?_⟩
        rw [named, Option.bind_some, hd, Option.bind_some, hfind]

/-- What a name means depends on the group's list and the texts of the URLs. -/
theorem named_later (hlist : (s'.group g).urlList = (s.group g).urlList)
    (hlater : ∀ v, (s.urls.url v).Later (s'.urls.url v)) (uri : Option String) : named g s' uri = named g s uri := by
  unfold named
  refine congrArg (Option.bind _) (funext fun d => ?_)
  have he : (fun u => equalsIgnoreCase (s'.urls.url u).escapedUrl (urlEncode d)) =
      fun u => equalsIgnoreCase (s.urls.url u).escapedUrl (urlEncode d) := by
    funext v
    exact congrArg (equalsIgnoreCase · (urlEncode d)) (hlater v).escapedUrl
  rw [hlist, he]

/-- What a name means stays the same. -/
theorem named_congr (h : GroupFrame g s s') (uri : Option String) : named g s' uri = named g s uri :=
  named_later h.urlList h.urls.later uri

/-- **An item that is handled** names a URL of the group, whose process and codes it gives. -/
structure ItemRun (finish : Bool) (handler : StateChangeHandler) (sdf : SimpleDateFormat) (g : ℕ)
    (item : Element) (s : UrlGroupsController) (change : String × String) (s' : UrlGroupsController)
    (u : ℕ) (processId : Int32) (major : String) : Prop where
  names : named g s (item.get "url") = some u
  pid : parseInt (item.get "processId") = some processId
  text : item.get "major-error-code" = some major
  change : change = ((s.urls.url u).url, handler.getStateChangesCSV sdf processId)
  group : s'.group = s.group
  verdict : Same Url.malicious s.urls s'.urls
  finished : (s'.urls.url u).visitFinishTime.isSome
  others : ∀ v ≠ u, s'.urls.url v = s.urls.url v
  code : keepsCode finish major = false → (s'.urls.url u).majorErrorCode = (s.urls.url u).majorErrorCode
  codeOk : (s.urls.url u).majorErrorCode = .ok → parseLong (some major) = some 0 →
    (s'.urls.url u).majorErrorCode = .ok

theorem setItemCodes_ok {major minor : Option String} {t t' : UrlsController}
    (h : (setItemCodes u major minor).run t = .ok () t') :
    ∃ code, parseLong major = some code ∧ (t'.url u).majorErrorCode = ErrorCode.ofCode code := by
  unfold setItemCodes at h
  cases hmaj : parseLong major with
  | none =>
    rw [hmaj] at h
    cases h
  | some code =>
    rw [hmaj] at h
    refine ⟨code, rfl, ?_⟩
    cases hmin : parseLong minor with
    | none =>
      rw [hmin] at h
      cases h
    | some minor =>
      rw [hmin] at h
      cases h
      rw [setUrl_self, setUrl_self]

theorem parseItem_ok {finish : Bool} {handler : StateChangeHandler} {change : String × String}
    (h : (parseItem finish handler sdf g item).run s = .ok change s') :
    ∃ u processId major, ItemRun finish handler sdf g item s change s' u processId major := by
  obtain ⟨u, s1, hurl, hrest⟩ := run_bind_eq_ok h
  clear h
  obtain ⟨rfl, hnames⟩ := getUrl_ok hurl
  cases hpid : parseInt (item.get "processId") with
  | none =>
    rw [hpid] at hrest
    cases hrest
  | some processId =>
    rw [hpid] at hrest
    obtain ⟨_, s2, hfin, hcodes⟩ := run_bind_eq_ok hrest
    clear hrest
    obtain ⟨t, ht, rfl⟩ := run_zoom_eq_ok hfin
    -- the URL `u` has a finish time now, and nothing else is different
    have hlater := (keeps_setVisitFinishTime (L := [u]) (by simp)).of_ok ht
    have hurl : t.url u = { s1.urls.url u with visitFinishTime := some s1.urls.now } := by
      cases ht
      exact setUrl_self _ _
    have hothers : ∀ v ≠ u, t.url v = s1.urls.url v := fun v hv => hlater.others v (by simpa using hv)
    have hmal : Same Url.malicious s1.urls t := by
      intro v
      by_cases hv : v = u
      · rw [hv, hurl]
      · rw [hothers v hv]
    have htext : (t.url u).url = (s1.urls.url u).url := (hlater.later u).url
    obtain ⟨_, _, hget, hmajor⟩ := run_bind_eq_ok hcodes
    clear hcodes
    cases hget
    cases hmaj : item.get "major-error-code" with
    | none =>
      rw [hmaj] at hmajor
      cases hmajor
    | some major =>
      rw [hmaj] at hmajor
      refine ⟨u, processId, major, ?_⟩
      dsimp only at hmajor
      split_ifs at hmajor with hkeep
      · obtain ⟨_, s3, hset, hpure⟩ := run_bind_eq_ok hmajor
        cases hpure
        obtain ⟨t', ht', rfl⟩ := run_zoom_eq_ok hset
        obtain ⟨code, hcode, hof⟩ := setItemCodes_ok ht'
        have hframe := (keeps_setItemCodes (L := [u]) (by simp) (some major) _).of_ok ht'
        have hmal' := (same_setItemCodes (f := Url.malicious) (fun _ _ => rfl) (fun _ _ => rfl) u _ _).of_ok ht'
        refine ⟨hnames, hpid, hmaj, by rw [htext], rfl, fun v => (hmal' v).trans (hmal v), ?_, fun v hv => ?_,
          fun hfalse => ?_, fun _ hzero => ?_⟩
        · exact (hframe.later u).finished (by
            show (t.url u).visitFinishTime.isSome
            rw [hurl]
            rfl)
        · exact (hframe.others v (by simpa using hv)).trans (hothers v hv)
        · rw [hkeep] at hfalse
          cases hfalse
        · rw [hcode] at hzero
          cases hzero
          exact hof
      · cases hmajor
        refine ⟨hnames, hpid, hmaj, by rw [htext], rfl, hmal, ?_, hothers, fun _ => ?_, fun hok _ => ?_⟩
        · show (t.url u).visitFinishTime.isSome
          rw [hurl]
          rfl
        · show (t.url u).majorErrorCode = _
          rw [hurl]
        · show (t.url u).majorErrorCode = _
          rw [hurl]
          exact hok

/-- The text of `u` and the process id that the item gives, when items are handled. -/
inductive ItemsRun (finish : Bool) (handler : StateChangeHandler) (sdf : SimpleDateFormat) (g : ℕ) :
    List Element → UrlGroupsController → UrlMap → UrlGroupsController → Prop
  | nil (s : UrlGroupsController) : ItemsRun finish handler sdf g [] s [] s
  | cons {item : Element} {items : List Element} {s s1 s2 : UrlGroupsController} {change : String × String}
      {map : UrlMap} {u : ℕ} {processId : Int32} {major : String}
      (frame : GroupFrame g s s1) (head : ItemRun finish handler sdf g item s change s1 u processId major)
      (tail : ItemsRun finish handler sdf g items s1 map s2) :
      ItemsRun finish handler sdf g (item :: items) s (map ++ [change]) s2

theorem parseItems_ok {finish : Bool} {handler : StateChangeHandler} {items : List Element} :
    ∀ {s s' : UrlGroupsController} {map : UrlMap}, (parseItems finish handler sdf g items).run s = .ok map s' →
      ItemsRun finish handler sdf g items s map s' := by
  induction items with
  | nil =>
    intro s s' map h
    cases h
    exact .nil s
  | cons item items ih =>
    intro s s' map h
    obtain ⟨change, s1, hitem, hrest⟩ := run_bind_eq_ok h
    obtain ⟨map1, s2, hitems, hpure⟩ := run_bind_eq_ok hrest
    cases hpure
    obtain ⟨u, processId, major, hrun⟩ := parseItem_ok hitem
    exact .cons ((frame_parseItem finish handler sdf item).of_ok hitem) hrun (ih hitems)

/-- An item that can be handled: its process id is a number, and so are the codes that are kept. -/
structure Conforms (finish : Bool) (item : Element) : Prop where
  pid : (parseInt (item.get "processId")).isSome
  codes : ∃ major, item.get "major-error-code" = some major ∧ (keepsCode finish major = true →
    (parseLong (some major)).isSome ∧ (parseLong (item.get "minor-error-code")).isSome)

/-- An item that conforms and names a URL is handled. -/
theorem parseItem_returns {finish : Bool} (handler : StateChangeHandler) (sdf : SimpleDateFormat)
    (hc : Conforms finish item) (hnames : named g s (item.get "url") = some u) :
    ∃ change s', (parseItem finish handler sdf g item).run s = .ok change s' := by
  obtain ⟨processId, hpid⟩ := Option.isSome_iff_exists.1 hc.pid
  obtain ⟨major, hmajor, hcodes⟩ := hc.codes
  have hfin : (Url.setVisitFinishTime u).run s.urls =
      .ok () (s.urls.setUrl u { s.urls.url u with visitFinishTime := some s.urls.now }) := rfl
  set t := s.urls.setUrl u { s.urls.url u with visitFinishTime := some s.urls.now } with ht
  suffices hrest : ∃ change s', (do
      let s ← get
      let change := ((s.urls.url u).url, handler.getStateChangesCSV sdf processId)
      if keepsCode finish major then
        onUrls (setItemCodes u (some major) (item.get "minor-error-code"))
        pure change
      else pure change : GroupsM (String × String)).run { s with urls := t } = .ok change s' by
    obtain ⟨change, s', hrest⟩ := hrest
    refine ⟨change, s', (run_bind_ok (getUrl_run hnames)).trans ?_⟩
    rw [hpid, hmajor]
    exact (run_bind_ok (onUrls_run hfin)).trans hrest
  rw [EStateM.run_bind, EStateM.run_get]
  dsimp only
  split_ifs with hkeep
  · obtain ⟨code, hcode⟩ := Option.isSome_iff_exists.1 (hcodes hkeep).1
    obtain ⟨minor, hminor⟩ := Option.isSome_iff_exists.1 (hcodes hkeep).2
    have hset : ∃ t', (setItemCodes u (some major) (item.get "minor-error-code")).run t = .ok () t' := by
      unfold setItemCodes
      rw [hcode, hminor]
      exact ⟨_, rfl⟩
    obtain ⟨t', ht'⟩ := hset
    exact ⟨_, _, (run_bind_ok (onUrls_run ht')).trans rfl⟩
  · exact ⟨_, _, rfl⟩

/-- Items that conform and name URLs are handled. -/
theorem parseItems_returns {finish : Bool} (handler : StateChangeHandler) (sdf : SimpleDateFormat) {items : List Element} :
    ∀ {s : UrlGroupsController}, (∀ item ∈ items, Conforms finish item ∧
      (named g s (item.get "url")).isSome) → ∃ map s', (parseItems finish handler sdf g items).run s = .ok map s' := by
  induction items with
  | nil => exact fun _ => ⟨[], _, rfl⟩
  | cons item items ih =>
    intro s h
    obtain ⟨u, hu⟩ := Option.isSome_iff_exists.1 (h item List.mem_cons_self).2
    obtain ⟨change, s1, h1⟩ := parseItem_returns handler sdf (h item List.mem_cons_self).1 hu
    have hframe := (frame_parseItem finish handler sdf item).of_ok h1
    obtain ⟨map, s2, h2⟩ := ih (s := s1) fun item hmem => by
      rw [named_congr hframe]
      exact h item (List.mem_cons_of_mem _ hmem)
    exact ⟨_, s2, (run_bind_ok h1).trans ((run_bind_ok h2).trans rfl)⟩

section ItemsRun

variable {finish : Bool} {handler : StateChangeHandler} {items : List Element}

theorem ItemsRun.frame (h : ItemsRun finish handler sdf g items s map s') : GroupFrame g s s' := by
  induction h with
  | nil s => exact refl s
  | cons hframe _ _ ih => exact hframe.trans ih

theorem ItemsRun.group (h : ItemsRun finish handler sdf g items s map s') : s'.group = s.group := by
  induction h with
  | nil s => rfl
  | cons _ hhead _ ih => rw [ih, hhead.group]

theorem ItemsRun.verdict (h : ItemsRun finish handler sdf g items s map s') : Same Url.malicious s.urls s'.urls := by
  induction h with
  | nil s => exact refl s.urls
  | cons _ hhead _ ih => exact IsTrans.trans (r := Same Url.malicious) _ _ _ hhead.verdict ih

/-- Every URL that an item names has a finish time. -/
theorem ItemsRun.finished (h : ItemsRun finish handler sdf g items s map s') {item : Element} (hitem : item ∈ items)
    (hnames : named g s (item.get "url") = some u) : (s'.urls.url u).visitFinishTime.isSome := by
  induction h with
  | nil s => cases hitem
  | @cons first items s s1 s2 change map v processId major hframe hhead htail ih =>
    rcases List.mem_cons.1 hitem with rfl | hmem
    · obtain rfl : v = u := Option.some.inj (hhead.names.symm.trans hnames)
      exact (htail.frame.urls.later v).finished hhead.finished
    · exact ih hmem ((named_congr hframe _).trans hnames)

/-- A URL for which every item reports a dropped code keeps the code it has. -/
theorem ItemsRun.code (h : ItemsRun finish handler sdf g items s map s')
    (hu : ∀ item ∈ items, named g s (item.get "url") = some u →
      ∀ major, item.get "major-error-code" = some major → keepsCode finish major = false) :
    (s'.urls.url u).majorErrorCode = (s.urls.url u).majorErrorCode := by
  induction h with
  | nil s => rfl
  | @cons item items s s1 s2 change map v processId major hframe hhead htail ih =>
    rw [ih fun item hmem hnames => hu item (List.mem_cons_of_mem _ hmem) ((named_congr hframe _).symm.trans hnames)]
    by_cases hv : u = v
    · subst hv
      exact hhead.code (hu item List.mem_cons_self hhead.names major hhead.text)
    · rw [hhead.others u hv]

end ItemsRun

/-! ## The finish message -/

namespace World

/-- The machine of the client that sent a message has been in contact. -/
def contacted (c : ℕ) (w : World) : World :=
  w.setVm (w.client c).virtualMachine { w.vm (w.client c).virtualMachine with lastContact := w.now }

/-- The client reported its algorithm with a visit-event. -/
def told (c : ℕ) (e : Element) (w : World) : World :=
  (w.contacted c).setClient c { w.client c with algorithm := e.get "algorithm" }

end World

theorem handleMessage_event (hn : e.name = "system-event") :
    (handleMessage cfg sdf c e).run w = (parseEvent sdf c e).run (w.contacted c) := by
  unfold handleMessage
  rw [if_pos hn]
  exact (run_bind_ok rfl).trans (run_bind_ok rfl)

/-- A visit-event of a known type goes to its handler. -/
theorem handleMessage_visit (hn : e.name = "visit-event") {type : String} (ht : e.get "type" = some type) :
    (handleMessage cfg sdf c e).run w = (if type = "start" then parseStart sdf c e
      else if type = "finish" then parseFinish cfg sdf c e
      else if type = "error" then parseError cfg sdf c e else pure () : ServerM Unit).run (w.told c e) := by
  have hne : e.name ≠ "system-event" := by
    rw [hn]
    decide
  unfold handleMessage
  rw [if_neg hne, if_pos hn]
  refine (run_bind_ok rfl).trans ((run_bind_ok rfl).trans ((run_bind_ok rfl).trans ?_))
  rw [ht]
  rfl

theorem visiting_ok {w' : World} (h : (visiting c).run w = .ok g w') :
    w' = w ∧ (w.client c).visitingUrlGroup = some g := by
  unfold visiting at h
  rw [EStateM.run_bind, EStateM.run_get] at h
  dsimp only at h
  cases hg : (w.client c).visitingUrlGroup with
  | none =>
    rw [hg] at h
    cases h
  | some i =>
    rw [hg] at h
    cases h
    exact ⟨rfl, rfl⟩

theorem onGroups_ok {α : Type} {m : GroupsM α} {a : α} (h : (onGroups m).run w = .ok a w') :
    ∃ s, m.run w.groups = .ok a s ∧ w' = { w with groups := s } := run_zoom_eq_ok h

/-- `flushStateChangeHandler` writes the changes or does nothing. -/
theorem flushIfBulk_ok (h : (flushIfBulk sdf c g map).run w = .ok () w') : ∃ s, w' = { w with groups := s } ∧
    (s = w.groups ∨ (w.client c).algorithm = some "bulk" ∧ (writeMapToLog sdf g map).run w.groups = .ok () s) := by
  unfold flushIfBulk at h
  rw [EStateM.run_bind, EStateM.run_get] at h
  dsimp only at h
  split_ifs at h with hsize
  · cases ha : (w.client c).algorithm with
    | none =>
      rw [ha] at h
      cases h
    | some algorithm =>
      rw [ha] at h
      dsimp only at h
      split_ifs at h with hbulk
      · obtain ⟨s, hs, rfl⟩ := onGroups_ok h
        exact ⟨s, rfl, .inr ⟨by rw [hbulk], hs⟩⟩
      · cases h
        exact ⟨w.groups, rfl, .inl rfl⟩
  · cases h
    exact ⟨w.groups, rfl, .inl rfl⟩

/-- The end of a visit with the verdict `b`, and then a change of the client's state. -/
structure VisitEnd (c g : ℕ) (b : Bool) (map : UrlMap) (st : ClientState) (w : World) (s4 : UrlGroupsController)
    (w' : World) : Prop where
  verdict : (UrlGroup.setMalicious g (w.client c).algorithm b (some map)).run w.groups = .ok () s4
  visited : (setUrlGroupState g .visited).run s4 = .ok () w'.groups
  frame : ClientFrame c w w'
  state : (w'.client c).clientState = st
  group : (w'.client c).visitingUrlGroup = none

theorem endVisit_ok {b : Bool} {st : ClientState}
    (h : (endVisit c g b map >>= fun _ => setClientState c st).run w = .ok () w') :
    ∃ s4, VisitEnd c g b map st w s4 w' := by
  obtain ⟨_, w2, hend, hstate⟩ := run_bind_eq_ok h
  have hend : ((onGroups do
      UrlGroup.setMalicious g (w.client c).algorithm b (some map)
      UrlGroup.setUrlGroupState g .visited) >>= fun _ =>
        modifyClient c fun x => { x with visitingUrlGroup := none }).run w = .ok () w2 := hend
  obtain ⟨_, w1, hgroups, hclient⟩ := run_bind_eq_ok hend
  obtain ⟨s, hs, rfl⟩ := onGroups_ok hgroups
  obtain ⟨_, s4, hmal, hvis⟩ := run_bind_eq_ok hs
  cases hclient
  set w2 : World := ({ w with groups := s } : World).setClient c { w.client c with visitingUrlGroup := none } with hw2
  have hnone : (w2.client c).visitingUrlGroup = none := by rw [hw2, World.setClient_self]
  obtain ⟨w3, hrun, hframe, hsame, hst, hnone3⟩ := setClientState_idle st hnone
  have hrun' : (setClientState c st).run w2 = .ok () w' := hstate
  rw [hrun] at hrun'
  cases hrun'
  refine ⟨s4, hmal, by rw [hsame]; exact hvis, ?_, hst, hnone3⟩
  have hset : ClientFrame c { w with groups := s } w2 := clientFrame_setClient rfl
  exact ((clientFrame_groups s).trans hset).trans hframe

/-- **A finish message that is handled**, part by part. -/
theorem parseFinish_ok (h : (parseFinish cfg sdf c e).run w = .ok () w') : ∃ g s1 s2 s3 s4 map b,
    (w.client c).visitingUrlGroup = some g ∧
    (UrlGroup.setVisitFinishTime sdf g (e.get "time")).run w.groups = .ok () s1 ∧
    ItemsRun true (w.client c).stateChangeHandler sdf g e.childElements s1 map s2 ∧
    (b = true ↔ (s2.group g).malicious = true ∨ e.get "malicious" = some "1") ∧
    (s3 = s2 ∨ (w.client c).algorithm = some "bulk" ∧ (writeMapToLog sdf g map).run s2 = .ok () s3) ∧
    VisitEnd c g b map (if b then .disconnected else afterBenign cfg) { w with groups := s3 } s4 w' := by
  obtain ⟨g, w1, hg, h1⟩ := run_bind_eq_ok h
  obtain ⟨rfl, hg⟩ := visiting_ok hg
  obtain ⟨_, _, hget, h2⟩ := run_bind_eq_ok h1
  cases hget
  obtain ⟨_, w2, ht, h3⟩ := run_bind_eq_ok h2
  obtain ⟨s1, htime, rfl⟩ := onGroups_ok ht
  obtain ⟨map, w3, hi, h4⟩ := run_bind_eq_ok h3
  obtain ⟨s2, hitems, rfl⟩ := onGroups_ok hi
  unfold finishVerdict at h4
  rw [EStateM.run_bind, EStateM.run_get] at h4
  dsimp only at h4
  split_ifs at h4 with hnone hmal
  · cases h4
  · obtain ⟨_, w4, hfl, hend⟩ := run_bind_eq_ok h4
    obtain ⟨s3, rfl, hflush⟩ := flushIfBulk_ok hfl
    obtain ⟨s4, hend⟩ := endVisit_ok hend
    exact ⟨g, s1, s2, s3, s4, map, true, hg, htime, parseItems_ok hitems, by simpa using hmal, hflush, hend⟩
  · obtain ⟨s4, hend⟩ := endVisit_ok h4
    exact ⟨g, s1, s2, s2, s4, map, false, hg, htime, parseItems_ok hitems, by simpa using hmal, .inl rfl, hend⟩

end CaptureHPC
