import CaptureHPC.Proof.Handlers
import CaptureHPC.Proof.Partition

/-!
# Starts and system-events, part by part

What a start and a system-event do when they are handled: to the client, to the verdicts of
its group and its URLs, and to the changes kept for the finish.
-/

namespace CaptureHPC

open Lib Client UrlGroup

variable {cfg : Config} {sdf : SimpleDateFormat} {w w' : World} {c g u : ℕ} {e : Element}
  {s s' : UrlGroupsController}

/-! ## Verdicts -/

/-- No group's `f` changed. -/
def GroupSame {β : Type} (f : UrlGroup → β) (s s' : UrlGroupsController) : Prop :=
  ∀ i, f (s'.group i) = f (s.group i)

section GroupSame

variable {β : Type} {f : UrlGroup → β}

instance : Std.Refl (GroupSame f) := ⟨fun _ _ => rfl⟩

instance : IsTrans UrlGroupsController (GroupSame f) := ⟨fun _ _ _ h h' i => (h' i).trans (h i)⟩

theorem groupSame_modifyGroup {m : UrlGroup → UrlGroup} (h : ∀ x, f (m x) = f x) :
    Keeps (GroupSame f) (modifyGroup g m) := by
  refine keeps_modify fun s i => ?_
  by_cases hi : i = g
  · subst hi
    rw [setGroup_self, h]
  · rw [setGroup_of_ne hi]

theorem groupSame_onUrls {α : Type} (m : UrlsM α) : Keeps (GroupSame f) (onUrls m) := by
  intro s
  rw [onUrls, final_zoom]
  exact fun _ => rfl

theorem groupSame_setVisitFinishTime (sdf : SimpleDateFormat) (h : ∀ x t, f { x with visitFinishTime := t } = f x)
    (time : Option String) :
    Keeps (GroupSame f) (UrlGroup.setVisitFinishTime sdf g time) := by
  unfold UrlGroup.setVisitFinishTime
  split
  · exact keeps_throw _
  · split
    · exact keeps_pure _
    · exact groupSame_modifyGroup fun x => h x _

theorem groupSame_setVisitStartTime (sdf : SimpleDateFormat) (h : ∀ x t, f { x with visitStartTime := t } = f x)
    (time : Option String) :
    Keeps (GroupSame f) (UrlGroup.setVisitStartTime sdf g time) := by
  unfold UrlGroup.setVisitStartTime
  split
  · exact keeps_throw _
  · split
    · exact keeps_pure _
    · exact groupSame_modifyGroup fun x => h x _

theorem groupSame_writeEventToLog (sdf : SimpleDateFormat) (hlog : ∀ x b, f { x with logFile := b } = f x)
    (hch : ∀ x l, f { x with changes := l } = f x) (event : String) :
    Keeps (GroupSame f) (UrlGroup.writeEventToLog sdf g event) := by
  refine keeps_bind keeps_get fun s => ?_
  split
  · exact groupSame_onUrls _
  · refine keeps_bind (keeps_bind keeps_get fun s => ?_) fun _ => groupSame_modifyGroup fun x => hch x _
    split
    · exact keeps_throw _
    · exact groupSame_modifyGroup fun x => hlog x _

end GroupSame

/-- `setMalicious` sets the verdict of the group first, and nothing else of it. -/
theorem setMalicious_group (algorithm : Option String) (b : Bool) (map : Option UrlMap) (s : UrlGroupsController) :
    (final ((UrlGroup.setMalicious g algorithm b map).run s)).group =
      Function.update s.group g { s.group g with malicious := b } := by
  set s1 := s.setGroup g { s.group g with malicious := b } with hs1
  have hrest : (final ((UrlGroup.setMalicious g algorithm b map).run s)).group = s1.group := by
    have hkeep : ∀ {m : UrlsM Unit}, (final ((onUrls m).run s1)).group = s1.group := fun {m} => by
      rw [onUrls, final_zoom]
    unfold UrlGroup.setMalicious
    rw [run_bind_ok (m := modifyGroup _ _) rfl, EStateM.run_bind, EStateM.run_get]
    dsimp only
    cases algorithm with
    | none => rfl
    | some algorithm =>
      dsimp only
      split_ifs
      · exact hkeep
      · exact hkeep
      · split
        · exact hkeep
        · rfl
  exact hrest

/-- What `setMalicious` returning means for the URLs: under `bulk` the map decides, and
otherwise a malicious verdict reaches only a group of one. -/
theorem setMalicious_urls {algorithm : String} {b : Bool} {map : Option UrlMap}
    (h : (UrlGroup.setMalicious g (some algorithm) b map).run s = .ok () s') :
    (onUrls (if algorithm = "bulk" then forM (s.group g).urlList (setMaliciousByMap b map)
      else if b = false then forM (s.group g).urlList fun u => Url.setMalicious u false
      else match (s.group g).urlList with
        | [u] => Url.setMalicious u true
        | _ => pure ())).run (s.setGroup g { s.group g with malicious := b }) = .ok () s' := by
  have hlist : ((s.setGroup g { s.group g with malicious := b }).group g).urlList = (s.group g).urlList := by
    rw [setGroup_self]
  rw [← hlist]
  unfold UrlGroup.setMalicious at h
  rw [run_bind_ok (m := modifyGroup _ _) rfl, EStateM.run_bind, EStateM.run_get] at h
  dsimp only at h
  split_ifs at h ⊢
  · exact h
  · exact h
  · have hone : ∀ (L : List ℕ) (t : UrlGroupsController),
        (match L with | [u] => onUrls (Url.setMalicious u true) | _ => pure ()).run t = .ok () s' →
          (onUrls (match L with | [u] => Url.setMalicious u true | _ => pure ())).run t = .ok () s' := by
      intro L t ht
      rcases L with _ | ⟨u, _ | ⟨v, L⟩⟩ <;> exact ht
    exact hone _ _ h

/-- A malicious verdict on a URL stays. -/
def Blamed (t t' : UrlsController) : Prop :=
  ∀ u, (t.url u).malicious = some true → (t'.url u).malicious = some true

instance : Std.Refl Blamed := ⟨fun _ _ h => h⟩

instance : IsTrans UrlsController Blamed := ⟨fun _ _ _ h h' u hu => h' u (h u hu)⟩

theorem blamed_modifyUrl {m : Url → Url} (h : ∀ x, x.malicious = some true → (m x).malicious = some true) :
    Keeps Blamed (Url.modifyUrl u m) := by
  refine keeps_modify fun t v hv => ?_
  by_cases hvu : v = u
  · subst hvu
    rw [setUrl_self]
    exact h _ hv
  · rw [setUrl_of_ne hvu]
    exact hv

theorem blamed_writeEventToLog (event : String) : Keeps Blamed (Url.writeEventToLog sdf u event) := by
  have hopen : Keeps Blamed (Url.openLog u) := by
    refine keeps_bind keeps_get fun s => ?_
    split
    · exact keeps_throw _
    · exact blamed_modifyUrl fun _ h => h
  refine keeps_bind hopen fun _ => keeps_bind keeps_get fun s => ?_
  split
  · exact blamed_modifyUrl fun _ _ => rfl
  · split
    · exact keeps_throw _
    · split
      · exact keeps_pure _
      · exact blamed_modifyUrl fun _ _ => rfl

theorem blamed_writeEventToLog_group (sdf : SimpleDateFormat) (event : String) :
    Keeps (OnUrls Blamed) (UrlGroup.writeEventToLog sdf g event) := by
  refine keeps_bind keeps_get fun s => ?_
  split
  · exact keeps_onUrls (blamed_writeEventToLog event)
  · refine keeps_bind (keeps_bind keeps_get fun s => ?_) fun _ => onUrls_modifyGroup g _
    split
    · exact keeps_throw _
    · exact onUrls_modifyGroup g _

/-! ## System-events -/

/-- Outside VISITING a system-event is ignored. -/
theorem parseEvent_ignored (h : (w.client c).clientState ≠ .visiting) : (parseEvent sdf c e).run w = .ok () w := by
  unfold parseEvent
  rw [EStateM.run_bind, EStateM.run_get]
  dsimp only
  rw [if_neg h]
  rfl

theorem parseEvent_visiting {algorithm : String} (hst : (w.client c).clientState = .visiting)
    (ha : (w.client c).algorithm = some algorithm) (hg : (w.client c).visitingUrlGroup = some g) :
    (parseEvent sdf c e).run w =
      (if algorithm = "bulk" ∧ 1 < (w.groups.group g).size then recordStateChange sdf c e
      else if algorithm = "dac" ∧ 1 < (w.groups.group g).size then endVisitOnEvent sdf c g e
      else onGroups (setMaliciousOnEvent sdf g algorithm e)).run w := by
  unfold parseEvent
  rw [EStateM.run_bind, EStateM.run_get]
  dsimp only
  rw [if_pos hst, ha, hg]

/-- The state change that a system-event reports, if it can be read. -/
def changeOf (sdf : SimpleDateFormat) (e : Element) : Option StateChange := (stateChangeOf sdf e).toOption

/-- Under `bulk` the change is added to the client's forest. -/
theorem recordStateChange_ok (h : (recordStateChange sdf c e).run w = .ok () w') : ∃ bs handler,
    StateChangeHandler.addAll sdf (w.client c).stateChangeHandler (changeOf sdf e).toList = .ok (bs, handler) ∧
      w' = w.setClient c { w.client c with stateChangeHandler := handler } := by
  unfold recordStateChange at h
  rw [EStateM.run_bind, EStateM.run_get] at h
  dsimp only at h
  cases hsc : stateChangeOf sdf e with
  | error exn =>
    rw [hsc] at h
    have hnone : changeOf sdf e = none := by rw [changeOf, hsc]; rfl
    rw [hnone]
    refine ⟨[], (w.client c).stateChangeHandler, rfl, ?_⟩
    have hself : w.setClient c (w.client c) = w := by
      rw [World.setClient, Function.update_eq_self]
    cases exn with
    | parse =>
      cases h
      exact hself.symm
    | _ => cases h
  | ok sc =>
    rw [hsc] at h
    have hsome : changeOf sdf e = some sc := by rw [changeOf, hsc]; rfl
    obtain ⟨handler, m, hadd, -, -⟩ := add_records sdf (w.client c).stateChangeHandler sc
    have hbind : (Except.ok sc : Except Exn StateChange).bind
        ((w.client c).stateChangeHandler.addStateChange sdf) = .ok (true, handler) := hadd
    rw [hbind] at h
    cases h
    rw [hsome]
    refine ⟨[true], handler, ?_, rfl⟩
    simp only [Option.toList_some, StateChangeHandler.addAll, hadd, bind, Except.bind]

/-- **A system-event that ends the visit** of a group under `dac`. -/
theorem endVisitOnEvent_ok (hst : (w.client c).clientState ≠ .disconnected)
    (h : (endVisitOnEvent sdf c g e).run w = .ok () w') : ∃ s1 s4,
    (UrlGroup.setMalicious g (some "dac") true none).run w.groups = .ok () s1 ∧ GroupFrame g s1 s4 ∧
      GroupSame (fun x => (x.malicious, x.algorithm)) s1 s4 ∧
      (setUrlGroupState g .visited).run s4 = .ok () w'.groups ∧ ClientFrame c w w' ∧
      w'.client c = { w.client c with
        visitingUrlGroup := none, clientState := .disconnected, downloading := false, socketOpen := false } := by
  obtain ⟨_, w1, hgroups, hrest⟩ := run_bind_eq_ok h
  obtain ⟨s5, hs5, rfl⟩ := onGroups_ok hgroups
  obtain ⟨_, s1, hmal, h1⟩ := run_bind_eq_ok hs5
  obtain ⟨_, s2, hlog, h2⟩ := run_bind_eq_ok h1
  obtain ⟨_, s3, htime, h3⟩ := run_bind_eq_ok h2
  obtain ⟨_, _, hget, h4⟩ := run_bind_eq_ok h3
  cases hget
  obtain ⟨_, s4, hloop, hvis⟩ := run_bind_eq_ok h4
  have hframe : GroupFrame g s1 s4 := by
    have hf1 := (frame_writeEventToLog (g := g) sdf _).of_ok hlog
    have hf2 := (frame_setVisitFinishTime (g := g) sdf _).of_ok htime
    have hf3 : GroupFrame g s3 s4 := by
      have hkeep : Keeps (UrlsFrame (s3.group g).urlList) (forM (s3.group g).urlList Url.setVisitFinishTime) :=
        frame_forM fun u _ => keeps_setVisitFinishTime (by simp)
      have := frame_onUrls hkeep
      rwa [hloop] at this
    exact (hf1.trans hf2).trans hf3
  have hsame : GroupSame (fun x => (x.malicious, x.algorithm)) s1 s4 := by
    have hf1 := (groupSame_writeEventToLog (g := g) (f := fun x => (x.malicious, x.algorithm)) sdf
      (fun _ _ => rfl) (fun _ _ => rfl) _).of_ok hlog
    have hf2 := (groupSame_setVisitFinishTime (g := g) (f := fun x => (x.malicious, x.algorithm)) sdf
      (fun _ _ => rfl) _).of_ok htime
    have hf3 := (groupSame_onUrls (f := fun x : UrlGroup => (x.malicious, x.algorithm)) _).of_ok hloop
    exact IsTrans.trans _ _ _ (IsTrans.trans _ _ _ hf1 hf2) hf3
  obtain ⟨_, w2, hclient, hstate⟩ := run_bind_eq_ok hrest
  cases hclient
  set w2 : World := ({ w with groups := s5 } : World).setClient c { w.client c with visitingUrlGroup := none } with hw2
  have hself : w2.client c = { w.client c with visitingUrlGroup := none } := by rw [hw2, World.setClient_self]
  obtain ⟨w3, hrun, hcf, hg3, hc3, -⟩ := setClientState_disconnected (w := w2) (c := c) (s := s5)
    (by rw [hself]; exact hst) (by rw [hself]; exact .none)
  have hrun' : (setClientState c .disconnected).run w2 = .ok () w' := hstate
  rw [hrun] at hrun'
  cases hrun'
  have hset : ClientFrame c { w with groups := s5 } w2 := clientFrame_setClient rfl
  refine ⟨s1, s4, hmal, hframe, hsame, by rw [hg3]; exact hvis, ((clientFrame_groups s5).trans hset).trans hcf, ?_⟩
  rw [hc3, hself]
  rfl

/-- A system-event that blames the group, and its URL if there is only one. -/
theorem setMaliciousOnEvent_ok {algorithm : String} (h : (setMaliciousOnEvent sdf g algorithm e).run s = .ok () s') :
    GroupFrame g s s' ∧ (s'.group g).malicious = true ∧ (∀ i, (s'.group i).algorithm = (s.group i).algorithm) ∧
      (∀ u, (s.group g).urlList = [u] → (s'.urls.url u).malicious = some true) ∧
      (algorithm ≠ "bulk" → 1 < (s.group g).size → s'.urls = s.urls) := by
  obtain ⟨_, s1, hmal, hlog⟩ := run_bind_eq_ok h
  have hgroup : s1.group = Function.update s.group g { s.group g with malicious := true } := by
    have := setMalicious_group (g := g) (some algorithm) true none s
    rwa [hmal] at this
  have hself : s1.group g = { s.group g with malicious := true } := by rw [hgroup, Function.update_self]
  have hsame := (groupSame_writeEventToLog (g := g) (f := fun x => (x.malicious, x.algorithm)) sdf
    (fun _ _ => rfl) (fun _ _ => rfl) _).of_ok hlog
  have hframe := (frame_setMalicious (g := g) (some algorithm) true none).of_ok hmal
  have hurls := setMalicious_urls hmal
  refine ⟨hframe.trans ((frame_writeEventToLog sdf _).of_ok hlog), ?_, fun i => ?_, fun u hu => ?_, fun hb hsize => ?_⟩
  · have hm : (s'.group g).malicious = (s1.group g).malicious := congrArg Prod.fst (hsame g)
    rw [hm, hself]
  · have ha : (s'.group i).algorithm = (s1.group i).algorithm := congrArg Prod.snd (hsame i)
    rw [ha]
    by_cases hi : i = g
    · rw [hi, hself]
    · rw [hframe.others i hi]
  · have hblame := (blamed_writeEventToLog_group (g := g) sdf _).of_ok hlog u
    refine hblame ?_
    obtain ⟨t, ht, rfl⟩ := run_zoom_eq_ok hurls
    rw [hu] at ht
    split_ifs at ht with hb hf
    · cases ht
      exact congrArg Url.malicious (setUrl_self _ _)
    · cases hf
    · cases ht
      exact congrArg Url.malicious (setUrl_self _ _)
  · have hlong : ∀ u, (s.group g).urlList ≠ [u] := by
      intro u hu
      have : (s.group g).size = 1 := by rw [UrlGroup.size, hu]; rfl
      omega
    have h1 : s1.urls = s.urls := by
      obtain ⟨t, ht, rfl⟩ := run_zoom_eq_ok hurls
      rw [if_neg hb, if_neg (by decide)] at ht
      revert ht
      split
      · exact absurd ‹_› (hlong _)
      · intro ht
        cases ht
        rfl
    have hlong1 : ∀ u, (s1.group g).urlList ≠ [u] := by
      intro u
      rw [hself]
      exact hlong u
    rw [← h1]
    unfold UrlGroup.writeEventToLog at hlog
    rw [EStateM.run_bind, EStateM.run_get] at hlog
    dsimp only at hlog
    revert hlog
    split
    · exact absurd ‹_› (hlong1 _)
    · intro hlog
      obtain ⟨_, s2, hopen, hch⟩ := run_bind_eq_ok hlog
      cases hch
      unfold UrlGroup.openLog at hopen
      rw [EStateM.run_bind, EStateM.run_get] at hopen
      dsimp only at hopen
      split_ifs at hopen
      · cases hopen
      · cases hopen
        rfl

/-! ## A client that visits a group -/

/-- The client `c` is VISITING the group `g` under an algorithm, and its connection is open. -/
structure Visit (algorithm : String) (c g : ℕ) (w : World) : Prop where
  state : (w.client c).clientState = .visiting
  group : (w.client c).visitingUrlGroup = some g
  algorithm : (w.client c).algorithm = some algorithm
  open_ : (w.client c).socketOpen = true

variable {algorithm : String}

theorem event_visiting (hv : Visit algorithm c g w) (hn : e.name = "system-event") :
    (handleMessage cfg sdf c e).run w =
      (if algorithm = "bulk" ∧ 1 < (w.groups.group g).size then recordStateChange sdf c e
      else if algorithm = "dac" ∧ 1 < (w.groups.group g).size then endVisitOnEvent sdf c g e
      else onGroups (setMaliciousOnEvent sdf g algorithm e)).run (w.contacted c) := by
  rw [handleMessage_event hn]
  exact parseEvent_visiting hv.state hv.algorithm hv.group

/-- Under `bulk` a system-event adds its change to the forest. -/
theorem event_bulk (hv : Visit "bulk" c g w) (hn : e.name = "system-event") (hsize : 1 < (w.groups.group g).size)
    (h : (handleMessage cfg sdf c e).run w = .ok () w') : Visit "bulk" c g w' ∧ w'.groups = w.groups ∧
      ∃ bs, StateChangeHandler.addAll sdf (w.client c).stateChangeHandler (changeOf sdf e).toList =
        .ok (bs, (w'.client c).stateChangeHandler) := by
  rw [event_visiting hv hn, if_pos ⟨rfl, hsize⟩] at h
  obtain ⟨bs, handler, hadd, rfl⟩ := recordStateChange_ok h
  have hself := World.setClient_self c { (w.contacted c).client c with stateChangeHandler := handler } (w.contacted c)
  exact ⟨⟨by rw [hself]; exact hv.state, by rw [hself]; exact hv.group, by rw [hself]; exact hv.algorithm,
    by rw [hself]; exact hv.open_⟩, rfl, bs, by rw [hself]; exact hadd⟩

/-- Under `dac` a system-event ends the visit of a larger group. -/
theorem event_dac (hv : Visit "dac" c g w) (hn : e.name = "system-event") (hsize : 1 < (w.groups.group g).size)
    (h : (handleMessage cfg sdf c e).run w = .ok () w') : ∃ s1 s4,
    (UrlGroup.setMalicious g (some "dac") true none).run w.groups = .ok () s1 ∧ GroupFrame g s1 s4 ∧
      GroupSame (fun x => (x.malicious, x.algorithm)) s1 s4 ∧
      (setUrlGroupState g .visited).run s4 = .ok () w'.groups ∧
      (w'.client c).clientState = .disconnected ∧ (w'.client c).socketOpen = false := by
  have hbulk : ¬ ("dac" = "bulk" ∧ 1 < (w.groups.group g).size) := fun hb => absurd hb.1 (by decide)
  rw [event_visiting hv hn, if_neg hbulk, if_pos ⟨rfl, hsize⟩] at h
  obtain ⟨s1, s4, hmal, hframe, hsame, hvis, -, hclient⟩ := endVisitOnEvent_ok (w := w.contacted c)
    (by rw [show ((w.contacted c).client c).clientState = .visiting from hv.state]; decide) h
  exact ⟨s1, s4, hmal, hframe, hsame, hvis, by rw [hclient], by rw [hclient]⟩

/-- Otherwise a system-event blames the group. -/
theorem event_blames (hv : Visit algorithm c g w) (hn : e.name = "system-event")
    (hb : ¬ (algorithm = "bulk" ∧ 1 < (w.groups.group g).size))
    (hd : ¬ (algorithm = "dac" ∧ 1 < (w.groups.group g).size))
    (h : (handleMessage cfg sdf c e).run w = .ok () w') : w'.client c = w.client c ∧
      (setMaliciousOnEvent sdf g algorithm e).run w.groups = .ok () w'.groups := by
  rw [event_visiting hv hn, if_neg hb, if_neg hd] at h
  obtain ⟨s, hs, rfl⟩ := onGroups_ok h
  exact ⟨rfl, hs⟩

/-- Outside VISITING a system-event only shows that the machine is alive. -/
theorem event_ignored (hst : (w.client c).clientState ≠ .visiting) (hn : e.name = "system-event") :
    (handleMessage cfg sdf c e).run w = .ok () (w.contacted c) := by
  rw [handleMessage_event hn]
  exact parseEvent_ignored hst

/-! ## The start message -/

theorem groupSame_visiting {β : Type} {f : UrlGroup → β} (hf : ∀ x, f (x.withState .visiting) = f x)
    (h : (setUrlGroupState g .visiting).run s = .ok () s') : GroupSame f s s' := by
  have hcase := (setUrlGroupState_cases g .visiting s).1
  rw [h] at hcase
  cases hcase with
  | kept hk =>
    intro i
    rw [show s'.group = _ from hk.group]
    by_cases hi : i = g
    · rw [hi, Function.update_self, hf]
    · rw [Function.update_of_ne hi]
  | retried he _ _ _ => cases he
  | divided _ _ he _ _ => rcases he with he | he <;> cases he

/-- **A start that is handled** makes the client visit its group under the algorithm the
message gives; the group keeps its URLs and its verdict. -/
theorem parseStart_ok (h : (parseStart sdf c e).run w = .ok () w') : ∃ g, (w.client c).visitingUrlGroup = some g ∧
    w'.client c = { w.client c with clientState := .visiting } ∧ w'.groups.size = w.groups.size ∧
    GroupSame (fun x => (x.urlList, x.malicious)) w.groups w'.groups := by
  obtain ⟨g, w1, hvis, h1⟩ := run_bind_eq_ok h
  obtain ⟨rfl, hg⟩ := visiting_ok hvis
  obtain ⟨_, _, hget, h2⟩ := run_bind_eq_ok h1
  cases hget
  obtain ⟨_, w2, hstart, hstate⟩ := run_bind_eq_ok h2
  obtain ⟨s4, hs4, rfl⟩ := onGroups_ok hstart
  obtain ⟨_, s1, ht, h3⟩ := run_bind_eq_ok hs4
  obtain ⟨_, s2, ha, h4⟩ := run_bind_eq_ok h3
  obtain ⟨_, s3, hi, h5⟩ := run_bind_eq_ok h4
  obtain ⟨w3, hrun, -, hgroups, hclient, -⟩ :=
    setClientState_other (w := { w1 with groups := s4 }) (c := c)
      (show ClientState.visiting ≠ .disconnected by decide)
  rw [hrun] at hstate
  cases hstate
  have hf1 := (groupSame_setVisitStartTime (g := g) (f := fun x => (x.urlList, x.malicious)) sdf
    (fun _ _ => rfl) _).of_ok ht
  have hf2 := (groupSame_modifyGroup (g := g) (f := fun x => (x.urlList, x.malicious))
    (m := fun x => { x with algorithm := (w1.client c).algorithm }) (fun _ => rfl)).of_ok ha
  have hf3 : GroupSame (fun x => (x.urlList, x.malicious)) s2 s3 := by
    refine Keeps.of_ok (keeps_forM fun item _ => keeps_bind ?_ fun u => groupSame_onUrls _) hi
    intro s
    rcases getUrl_cases (g := g) (item.get "url") s with ⟨exn, hexn⟩ | ⟨u, -, hu⟩
    · rw [hexn]
      exact refl s
    · rw [hu]
      exact refl s
  have hf4 := groupSame_visiting (f := fun x => (x.urlList, x.malicious)) (fun _ => rfl) h5
  have hsize : s4.size = w1.groups.size := by
    have h4 := (setUrlGroupState_cases g .visiting s3).1
    rw [h5] at h4
    have hsize4 : s4.size = s3.size := by
      cases h4 with
      | kept hk => exact hk.size
      | retried he => cases he
      | divided _ _ he => rcases he with he | he <;> cases he
    rw [hsize4, ((keeps_forM fun item _ => frame_startItem item : Keeps (GroupFrame g) _).of_ok hi).size,
      ((frame_setAlgorithm _).of_ok ha : GroupFrame g s1 s2).size,
      ((frame_setVisitStartTime sdf _).of_ok ht : GroupFrame g w1.groups s1).size]
  refine ⟨g, hg, hclient, by rw [hgroups]; exact hsize, ?_⟩
  rw [hgroups]
  exact IsTrans.trans _ _ _ (IsTrans.trans _ _ _ hf1 hf2) (IsTrans.trans _ _ _ hf3 hf4)

/-! ## The finish of a visit -/

/-- What a finish does before it sets the verdict `b`, and then. -/
structure FinishRun (sdf : SimpleDateFormat) (algorithm : String) (c g : ℕ) (fin : Element) (st : ClientState)
    (w : World) (s1 s2 s3 s4 : UrlGroupsController) (map : UrlMap) (b : Bool) (w' : World) : Prop where
  time : GroupFrame g w.groups s1
  urls : s1.urls = w.groups.urls
  items : ItemsRun true (w.client c).stateChangeHandler sdf g fin.childElements s1 map s2
  same : GroupSame (fun x => (x.malicious, x.algorithm)) w.groups s3
  frame : GroupFrame g w.groups s3
  quiet : algorithm ≠ "bulk" → s3 = s2
  code : Same Url.majorErrorCode s2.urls s3.urls
  seen : b = true ↔ (w.groups.group g).malicious = true ∨ fin.get "malicious" = some "1"
  verdict : (UrlGroup.setMalicious g (some algorithm) b (some map)).run s3 = .ok () s4
  visited : (setUrlGroupState g .visited).run s4 = .ok () w'.groups
  client : ClientFrame c w w'
  state : (w'.client c).clientState = st
  released : (w'.client c).visitingUrlGroup = none

/-- **A finish that is handled**, for a client that has a group. -/
theorem finish_ok {fin : Element} (hg : (w.client c).visitingUrlGroup = some g) (hname : fin.name = "visit-event")
    (htype : fin.get "type" = some "finish") (halg : fin.get "algorithm" = some algorithm)
    (h : (handleMessage cfg sdf c fin).run w = .ok () w') : ∃ s1 s2 s3 s4 map b,
      FinishRun sdf algorithm c g fin (if b then .disconnected else afterBenign cfg) w s1 s2 s3 s4 map b w' := by
  rw [handleMessage_visit hname htype, if_neg (by decide), if_pos rfl] at h
  obtain ⟨g', s1, s2, s3, s4, map, b, hg', htime, hitems, hb, hflush, hend⟩ := parseFinish_ok h
  have hself : (w.told c fin).client c = { w.client c with algorithm := fin.get "algorithm" } :=
    World.setClient_self _ _ _
  have hgg : g' = g := by
    rw [hself] at hg'
    exact Option.some.inj (hg'.symm.trans hg)
  subst hgg
  have hhandler : ((w.told c fin).client c).stateChangeHandler = (w.client c).stateChangeHandler := by rw [hself]
  have halg' : ((w.told c fin).client c).algorithm = some algorithm := by rw [hself]; exact halg
  rw [hhandler] at hitems
  rw [halg'] at hflush
  have hf1 : GroupFrame g' w.groups s1 := (frame_setVisitFinishTime sdf _).of_ok htime
  have hs1 : GroupSame (fun x => (x.malicious, x.algorithm)) w.groups s1 :=
    (groupSame_setVisitFinishTime sdf (fun _ _ => rfl) _).of_ok htime
  have hs2 : GroupSame (fun x => (x.malicious, x.algorithm)) s1 s2 := fun i => by rw [hitems.group]
  have hs3 : GroupSame (fun x => (x.malicious, x.algorithm)) s2 s3 := by
    rcases hflush with rfl | ⟨-, hwrite⟩
    · exact refl s3
    · exact (keeps_bind keeps_get fun _ => groupSame_onUrls _ : Keeps _ (writeMapToLog sdf g' map)).of_ok hwrite
  have hf3 : GroupFrame g' s2 s3 := by
    rcases hflush with rfl | ⟨-, hwrite⟩
    · exact refl s3
    · exact (frame_writeMapToLog sdf map).of_ok hwrite
  have hmal : (s2.group g').malicious = (w.groups.group g').malicious := by
    rw [hitems.group]
    exact congrArg Prod.fst (hs1 g')
  refine ⟨s1, s2, s3, s4, map, b, hf1, ((urls_setVisitFinishTime g' _).of_ok htime).symm, hitems,
    IsTrans.trans _ _ _ hs1 (IsTrans.trans _ _ _ hs2 hs3), (hf1.trans hitems.frame).trans hf3, ?_, ?_, ?_, ?_,
    hend.visited, ?_, hend.state, hend.group⟩
  · intro hne
    rcases hflush with h1 | ⟨h1, -⟩
    · exact h1
    · exact absurd (Option.some.inj h1) hne
  · rcases hflush with rfl | ⟨-, hwrite⟩
    · exact refl s3.urls
    · exact (same_writeMapToLog map).of_ok hwrite
  · rw [hb, hmal]
  · have hv := hend.verdict
    rw [show (({ w.told c fin with groups := s3 } : World).client c).algorithm = some algorithm from halg'] at hv
    exact hv
  · have h1 : ClientFrame c w (w.contacted c) := clientFrame_setVm _
    have h2 : ClientFrame c (w.contacted c) (w.told c fin) := clientFrame_setClient rfl
    exact ((h1.trans h2).trans (clientFrame_groups s3)).trans hend.frame

/-! ## Sequences of turns -/

theorem turn_read (hopen : (w.client c).socketOpen = true) :
    w.turn cfg sdf c (.read e) = some w' ↔ (handleMessage cfg sdf c e).run w = .ok () w' := by
  unfold World.turn
  dsimp only
  rw [if_pos hopen]
  cases hrun : (handleMessage cfg sdf c e).run w with
  | ok a t =>
    dsimp only
    constructor
    · intro h
      rw [Option.some.injEq] at h
      rw [h]
    · intro h
      cases h
      rfl
  | error exn t => exact ⟨nofun, nofun⟩

theorem turns_append (ts us : List Turn) (w : World) :
    w.turns cfg sdf c (ts ++ us) = (w.turns cfg sdf c ts).bind fun w' => w'.turns cfg sdf c us := by
  induction ts generalizing w with
  | nil => rfl
  | cons t ts ih =>
    rw [List.cons_append, World.turns, World.turns, Option.bind_assoc]
    exact congrArg (Option.bind _) (funext fun w' => ih w')

/-- On a closed connection nothing is read. -/
theorem turns_closed (hclosed : (w.client c).socketOpen = false) (es : List Element) :
    w.turns cfg sdf c (es.map .read) = some w := by
  induction es with
  | nil => rfl
  | cons e es ih =>
    have hone : w.turn cfg sdf c (.read e) = some w := by
      unfold World.turn
      dsimp only
      rw [hclosed]
      rfl
    rw [List.map_cons, World.turns, hone, Option.bind_some]
    exact ih

theorem heardAll_append (ts us : List Turn) (w : World) : w.heardAll cfg sdf c (ts ++ us) =
    w.heardAll cfg sdf c ts ++ (w.turns cfg sdf c ts).elim [] fun w' => w'.heardAll cfg sdf c us := by
  induction ts generalizing w with
  | nil => rfl
  | cons t ts ih =>
    rw [List.cons_append, World.heardAll, World.heardAll, World.turns, List.append_assoc]
    congr 1
    cases w.turn cfg sdf c t with
    | none => rfl
    | some w1 => exact ih w1

end CaptureHPC
