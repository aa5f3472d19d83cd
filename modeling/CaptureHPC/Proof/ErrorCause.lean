import CaptureHPC.Proof.Changes

/-!
# Which code an ERROR is logged with

At a change of its group's state a URL may go to ERROR (`Moves`), and it is logged with the
code that it has at that moment (`Moves.logged`). No code is ever reset, and `disconnect`
changes the state before it sets the code.

* `reached_of_untilChange`: the codes of a URL and its group at the change, from the state
  before the piece.
* `error_caused_iff`: when the logged code is a failure code that is not left over.
* `disconnect_logs_ok`: a URL whose first visit is cut off is logged with the code OK.
-/

namespace CaptureHPC

open Lib UrlGroup
open Client hiding algorithm

variable {cfg : Config} {sdf : SimpleDateFormat} {w w1 : World} {c g u : ℕ} {e item : Element} {p : Piece}
  {s s' : UrlGroupsController} {t : UrlsController} {st : UrlGroupState} {code groupCode : ErrorCode}
  {earlier : ErrorCode → Prop}

/-! ## The moment of the transition -/

/-- The code with which a URL goes to ERROR when its group goes to `st`, if it does. -/
def movesWith (st : UrlGroupState) (groupCode : ErrorCode) (x : Url) : Option ErrorCode :=
  if x.urlState = .error then none
  else
    match st with
    | .visited => if x.majorErrorCode = .ok then none else some x.majorErrorCode
    | .error => some (if x.majorErrorCode = .ok then ErrorCode.ofCode groupCode.errorCode else x.majorErrorCode)
    | _ => none

/-- The piece comes to a change of the group `g`, whose loop comes to the URL `u`, which goes
to ERROR with `code`. -/
def Moves (cfg : Config) (sdf : SimpleDateFormat) (p : Piece) (w : World) (g u : ℕ) (code : ErrorCode) : Prop :=
  ∃ st rest w1 pre post t, (p.untilChange cfg sdf).run w = .ok (some ⟨g, st, rest⟩) w1 ∧
    (w1.groups.group g).urlList = pre ++ u :: post ∧ u ∉ pre ∧
    (forM pre (setStateOfUrl st (w1.groups.group g).majorErrorCode)).run w1.groups.urls = .ok () t ∧
    movesWith st (w1.groups.group g).majorErrorCode (t.url u) = some code

/-- What `setStateOfUrl` does with a URL that goes to ERROR. -/
theorem setStateOfUrl_moves (h : movesWith st groupCode (t.url u) = some code) : ∃ t1,
    (setStateOfUrl st groupCode u).run t = (Url.setUrlState u .error).run t1 ∧
      (t1.url u).majorErrorCode = code ∧ (t1.url u).urlState ≠ .error := by
  unfold movesWith at h
  by_cases hstate : (t.url u).urlState = .error
  · rw [if_pos hstate] at h
    cases h
  rw [if_neg hstate] at h
  cases st with
  | visited =>
    dsimp only at h
    by_cases hok : (t.url u).majorErrorCode = .ok
    · rw [if_pos hok] at h
      cases h
    · rw [if_neg hok] at h
      refine ⟨t, ?_, Option.some.inj h, hstate⟩
      show (Url.setUrlState u (if (t.url u).majorErrorCode = .ok then .visited else .error)).run t = _
      rw [if_neg hok]
  | error =>
    dsimp only at h
    have hrun : (setStateOfUrl .error groupCode u).run t =
        ((if (t.url u).majorErrorCode = .ok then Url.setMajorErrorCode u groupCode.errorCode else pure ()) >>=
          fun _ => Url.setUrlState u .error).run t := rfl
    by_cases hok : (t.url u).majorErrorCode = .ok
    · rw [if_pos hok] at h
      rw [hrun, if_pos hok]
      refine ⟨t.setUrl u { t.url u with majorErrorCode := ErrorCode.ofCode groupCode.errorCode }, rfl, ?_, ?_⟩
      · rw [setUrl_self]
        exact Option.some.inj h
      · rw [setUrl_self]
        exact hstate
    · rw [if_neg hok] at h
      rw [hrun, if_neg hok]
      exact ⟨t, rfl, Option.some.inj h, hstate⟩
  | _ => cases h

/-- **The transition is logged with the code**: the loop of the change comes to `setUrlState`
for the URL, which is not in ERROR and has the code. -/
theorem Moves.logged (h : Moves cfg sdf p w g u code) : ∃ st rest w1, ∃ post : List ℕ, ∃ t1,
    (p.untilChange cfg sdf).run w = .ok (some ⟨g, st, rest⟩) w1 ∧
      (setStateOfUrls g st w1.groups).run w1.groups.urls = (do
        Url.setUrlState u .error
        forM post (setStateOfUrl st (w1.groups.group g).majorErrorCode)).run t1 ∧
      (t1.url u).majorErrorCode = code ∧ (t1.url u).urlState ≠ .error := by
  obtain ⟨st, rest, w1, pre, post, t, hrun, hlist, -, hpre, hmove⟩ := h
  obtain ⟨t1, hset, hcode, hstate⟩ := setStateOfUrl_moves hmove
  refine ⟨st, rest, w1, post, t1, hrun, ?_, hcode, hstate⟩
  rw [setStateOfUrls, hlist, List.forM_append, run_bind_ok hpre, List.forM_cons, EStateM.run_bind, hset,
    ← EStateM.run_bind]

/-! ## The codes at the change -/

/-- The code that an item of a message gives to the URL it names. -/
def itemCode (finish : Bool) (item : Element) : Option ErrorCode :=
  (item.get "major-error-code").bind fun major =>
    if keepsCode finish major then (parseLong (some major)).map ErrorCode.ofCode else none

/-- The code that the items give to a URL: that of the last item that names it with one. -/
def itemsCode (finish : Bool) (g : ℕ) (s : UrlGroupsController) (u : ℕ) : List Element → Option ErrorCode
  | [] => none
  | item :: items => (itemsCode finish g s u items).or
      (if named g s (item.get "url") = some u then itemCode finish item else none)

/-- The code that a message gives to a URL. -/
def Piece.codeOfUrl (w : World) (g u : ℕ) : Piece → Option ErrorCode
  | .message _ e =>
    if e.name = "visit-event" ∧ e.get "type" = some "finish" then itemsCode true g w.groups u e.childElements
    else if e.name = "visit-event" ∧ e.get "type" = some "error" then
      itemsCode false g w.groups u e.childElements
    else none
  | _ => none

/-- The code that a piece gives to the group before it changes the group's state. The first
half of `disconnect` gives none. -/
def Piece.codeOfGroup : Piece → Option ErrorCode
  | .disconnectSecond _ => some .captureClientConnectionReset
  | .sendFailed _ => some .processError
  | .setError _ code => some (.ofCode code.errorCode)
  | .message _ e =>
    if e.name = "visit-event" ∧ e.get "type" = some "error" then
      (e.get "error-code").bind fun major =>
        if isErrorToRetry major then (parseLong (some major)).map ErrorCode.ofCode else none
    else none
  | _ => none

/-- The group whose state a piece changes. -/
def Piece.group (w : World) (p : Piece) : Option ℕ := (p.client w).bind fun c => (w.client c).visitingUrlGroup

theorem parseItem_code {finish : Bool} {handler : StateChangeHandler} {change : String × String}
    (h : (parseItem finish handler sdf g item).run s = .ok change s')
    (hnames : named g s (item.get "url") = some u) :
    (s'.urls.url u).majorErrorCode = (itemCode finish item).getD (s.urls.url u).majorErrorCode := by
  obtain ⟨v, s1, hurl, hrest⟩ := run_bind_eq_ok h
  clear h
  obtain ⟨rfl, hv⟩ := getUrl_ok hurl
  obtain rfl : v = u := Option.some.inj (hv.symm.trans hnames)
  cases hpid : parseInt (item.get "processId") with
  | none =>
    rw [hpid] at hrest
    cases hrest
  | some processId =>
    rw [hpid] at hrest
    obtain ⟨_, s2, hfin, hcodes⟩ := run_bind_eq_ok hrest
    clear hrest
    have hkeep : (s2.urls.url v).majorErrorCode = (s1.urls.url v).majorErrorCode := by
      obtain ⟨t, ht, rfl⟩ := run_zoom_eq_ok hfin
      cases ht
      show ((s1.urls.setUrl v _).url v).majorErrorCode = _
      rw [setUrl_self]
    obtain ⟨_, _, hget, hmajor⟩ := run_bind_eq_ok hcodes
    clear hcodes
    cases hget
    unfold itemCode
    cases hmaj : item.get "major-error-code" with
    | none =>
      rw [hmaj] at hmajor
      cases hmajor
    | some major =>
      rw [hmaj] at hmajor
      dsimp only at hmajor
      rw [Option.bind_some]
      split_ifs at hmajor ⊢ with hkeeps
      · obtain ⟨_, s3, hset, hpure⟩ := run_bind_eq_ok hmajor
        cases hpure
        obtain ⟨t, ht, rfl⟩ := run_zoom_eq_ok hset
        obtain ⟨code, hcode, hof⟩ := setItemCodes_ok ht
        rw [hcode]
        exact hof
      · cases hmajor
        exact hkeep

theorem itemsCode_congr {finish : Bool} {items : List Element} (h : GroupFrame g s s') :
    itemsCode finish g s' u items = itemsCode finish g s u items := by
  induction items with
  | nil => rfl
  | cons item items ih => rw [itemsCode, itemsCode, ih, named_congr h]

theorem parseItems_code {finish : Bool} {handler : StateChangeHandler} {items : List Element} :
    ∀ {s s' : UrlGroupsController} {map : UrlMap}, (parseItems finish handler sdf g items).run s = .ok map s' →
      (s'.urls.url u).majorErrorCode = (itemsCode finish g s u items).getD (s.urls.url u).majorErrorCode := by
  induction items with
  | nil =>
    intro s s' map h
    cases h
    rfl
  | cons item items ih =>
    intro s s' map h
    obtain ⟨change, s1, hitem, hrest⟩ := run_bind_eq_ok h
    obtain ⟨map1, s2, hitems, hpure⟩ := run_bind_eq_ok hrest
    cases hpure
    have hframe := (frame_parseItem finish handler sdf item).of_ok hitem
    rw [ih hitems, itemsCode_congr hframe, itemsCode]
    cases hlater : itemsCode finish g s u items with
    | some code => rfl
    | none =>
      rw [Option.none_or, Option.getD_none]
      split_ifs with hnames
      · exact parseItem_code hitem hnames
      · obtain ⟨v, processId, major, hrun⟩ := parseItem_ok hitem
        have hne : u ≠ v := by
          rintro rfl
          exact hnames hrun.names
        rw [hrun.others u hne]
        rfl

/-! ## Programs that leave the codes alone -/

/-- The error codes of the group and of all URLs stay. -/
def SameCodes (g : ℕ) (s s' : UrlGroupsController) : Prop :=
  (s'.group g).majorErrorCode = (s.group g).majorErrorCode ∧ Same Url.majorErrorCode s.urls s'.urls

instance : Std.Refl (SameCodes g) := ⟨fun s => ⟨rfl, refl s.urls⟩⟩

instance : IsTrans UrlGroupsController (SameCodes g) :=
  ⟨fun _ _ _ h h' => ⟨h'.1.trans h.1, IsTrans.trans (r := Same Url.majorErrorCode) _ _ _ h.2 h'.2⟩⟩

theorem sameCodes_onUrls {α : Type} {m : UrlsM α} (h : Keeps (Same Url.majorErrorCode) m) :
    Keeps (SameCodes g) (onUrls m) := keeps_zoom h fun _ _ h => ⟨rfl, h⟩

theorem sameCodes_modifyGroup {f : UrlGroup → UrlGroup} (hf : ∀ x, (f x).majorErrorCode = x.majorErrorCode) :
    Keeps (SameCodes g) (modifyGroup g f) := by
  refine keeps_modify fun s => ⟨?_, refl s.urls⟩
  rw [setGroup_self]
  exact hf _

theorem sameCodes_setMalicious (algorithm : Option String) (b : Bool) (map : Option UrlMap) :
    Keeps (SameCodes g) (UrlGroup.setMalicious g algorithm b map) := by
  refine keeps_bind (sameCodes_modifyGroup fun _ => rfl) fun _ => keeps_bind keeps_get fun s => ?_
  cases algorithm with
  | none => exact keeps_throw _
  | some algorithm =>
    dsimp only
    split_ifs
    · exact sameCodes_onUrls (keeps_forM fun u _ => same_setMaliciousByMap (fun _ _ => rfl) u b map)
    · exact sameCodes_onUrls (keeps_forM fun u _ => same_modifyUrl u fun _ => rfl)
    · split
      · exact sameCodes_onUrls (same_modifyUrl _ fun _ => rfl)
      · exact keeps_pure _

theorem sameCodes_setBenign : Keeps (SameCodes g) (setBenign g) := by
  refine keeps_bind keeps_get fun s => ?_
  split_ifs
  · exact sameCodes_setMalicious _ _ _
  · exact keeps_pure _

theorem sameCodes_writeMapToLog (map : UrlMap) : Keeps (SameCodes g) (writeMapToLog sdf g map) := by
  refine keeps_bind keeps_get fun s => sameCodes_onUrls (keeps_forM fun u _ => keeps_bind keeps_get fun _ => ?_)
  dsimp only
  split
  · exact keeps_pure _
  · split
    · exact keeps_pure _
    · exact same_writeEventToLog sdf u _

theorem sameCodes_setVisitFinishTime (time : Option String) :
    Keeps (SameCodes g) (UrlGroup.setVisitFinishTime sdf g time) := by
  unfold UrlGroup.setVisitFinishTime
  split
  · exact keeps_throw _
  · split
    · exact keeps_pure _
    · exact sameCodes_modifyGroup fun _ => rfl

theorem sameCodes_writeEventToLog (event : String) : Keeps (SameCodes g) (UrlGroup.writeEventToLog sdf g event) := by
  refine keeps_bind keeps_get fun s => ?_
  split
  · exact sameCodes_onUrls (same_writeEventToLog sdf _ _)
  · refine keeps_bind (keeps_bind keeps_get fun s => ?_) fun _ => sameCodes_modifyGroup fun _ => rfl
    split_ifs
    · exact keeps_throw _
    · exact sameCodes_modifyGroup fun _ => rfl

/-! ## From the state before a piece to its change -/

/-- The piece has come to a change of the group `g`: whose group it is, and the codes. -/
structure Reached (p : Piece) (w : World) (g : ℕ) (w1 : World) : Prop where
  group : p.group w = some g
  ofUrl : ∀ u, (w1.groups.urls.url u).majorErrorCode =
    (p.codeOfUrl w g u).getD (w.groups.urls.url u).majorErrorCode
  ofGroup : (w1.groups.group g).majorErrorCode = p.codeOfGroup.getD (w.groups.group g).majorErrorCode

theorem errorOfVisiting_ok {before : ℕ → GroupsM Unit} {rest : ServerM Unit} {ch : Change}
    (h : (errorOfVisiting c before rest).run w = .ok (some ch) w1) : ∃ g s,
      (w.client c).visitingUrlGroup = some g ∧ (before g).run w.groups = .ok () s ∧
      ch.group = g ∧ w1 = { w with groups := s } := by
  unfold errorOfVisiting at h
  rw [EStateM.run_bind, EStateM.run_get] at h
  dsimp only at h
  cases hg : (w.client c).visitingUrlGroup with
  | none =>
    rw [hg] at h
    obtain ⟨_, _, -, hnone⟩ := run_bind_eq_ok h
    cases hnone
  | some g =>
    rw [hg] at h
    obtain ⟨_, _, hbefore, hsome⟩ := run_bind_eq_ok h
    obtain ⟨s, hs, rfl⟩ := onGroups_ok hbefore
    cases hsome
    exact ⟨g, s, rfl, hs, rfl, rfl⟩

theorem setMajorErrorCode_ok {code : ℤ} (h : (UrlGroup.setMajorErrorCode g code).run s = .ok () s') :
    (s'.group g).majorErrorCode = ErrorCode.ofCode code ∧ s'.urls = s.urls := by
  cases h
  refine ⟨?_, rfl⟩
  show ((s.setGroup g _).group g).majorErrorCode = _
  rw [setGroup_self]

/-- The end of a visit with a verdict. -/
theorem untilEnd_ok {b : Bool} {map : UrlMap} {state : ClientState} {ch : Change}
    (h : (untilEnd c g b map state).run w = .ok (some ch) w1) :
    ch.group = g ∧ SameCodes g w.groups w1.groups := by
  unfold untilEnd at h
  rw [EStateM.run_bind, EStateM.run_get] at h
  dsimp only at h
  obtain ⟨_, _, hmal, hsome⟩ := run_bind_eq_ok h
  obtain ⟨s, hs, rfl⟩ := onGroups_ok hmal
  cases hsome
  exact ⟨rfl, (sameCodes_setMalicious _ _ _).of_ok hs⟩

theorem flushIfBulk_codes {map : UrlMap} (h : (flushIfBulk sdf c g map).run w = .ok () w1) :
    SameCodes g w.groups w1.groups := by
  obtain ⟨s, rfl, hs⟩ := flushIfBulk_ok h
  rcases hs with rfl | ⟨-, hwrite⟩
  · exact refl w.groups
  · exact (sameCodes_writeMapToLog map).of_ok hwrite

/-- The codes at the change of a finish or an error. -/
structure Reported (finish : Bool) (w : World) (g : ℕ) (e : Element) (s : UrlGroupsController) : Prop where
  ofUrl : ∀ u, (s.urls.url u).majorErrorCode =
    (itemsCode finish g w.groups u e.childElements).getD (w.groups.urls.url u).majorErrorCode
  ofGroup : (s.group g).majorErrorCode = (w.groups.group g).majorErrorCode

theorem reported_of_parseItems {finish : Bool} {handler : StateChangeHandler} {map : UrlMap}
    (hframe : GroupFrame g w.groups s) (hsame : SameCodes g w.groups s)
    (h : (parseItems finish handler sdf g e.childElements).run s = .ok map s') : Reported finish w g e s' where
  ofUrl u := by rw [parseItems_code h, itemsCode_congr hframe, hsame.2 u]
  ofGroup := by rw [(parseItems_ok h).group, hsame.1]

theorem Reported.same {finish : Bool} (h : Reported finish w g e s) (hs : SameCodes g s s') :
    Reported finish w g e s' :=
  ⟨fun u => (hs.2 u).trans (h.ofUrl u), hs.1.trans h.ofGroup⟩

theorem untilFinish_ok {ch : Change} (h : (untilFinish cfg sdf c e).run w = .ok (some ch) w1) :
    (w.client c).visitingUrlGroup = some ch.group ∧ Reported true w ch.group e w1.groups := by
  obtain ⟨g, _, hg, h1⟩ := run_bind_eq_ok h
  obtain ⟨rfl, hg⟩ := visiting_ok hg
  obtain ⟨_, _, hget, h2⟩ := run_bind_eq_ok h1
  cases hget
  obtain ⟨_, _, ht, h3⟩ := run_bind_eq_ok h2
  obtain ⟨s1, htime, rfl⟩ := onGroups_ok ht
  obtain ⟨map, _, hi, h4⟩ := run_bind_eq_ok h3
  obtain ⟨s2, hitems, rfl⟩ := onGroups_ok hi
  have hrep := reported_of_parseItems ((frame_setVisitFinishTime sdf _).of_ok htime)
    ((sameCodes_setVisitFinishTime _).of_ok htime) hitems
  rw [EStateM.run_bind, EStateM.run_get] at h4
  dsimp only at h4
  split_ifs at h4
  · cases h4
  · obtain ⟨_, w3, hflush, hend⟩ := run_bind_eq_ok h4
    obtain ⟨rfl, hsame⟩ := untilEnd_ok hend
    exact ⟨hg, (hrep.same (flushIfBulk_codes hflush)).same hsame⟩
  · obtain ⟨rfl, hsame⟩ := untilEnd_ok h4
    exact ⟨hg, hrep.same hsame⟩

theorem untilVisited_ok {malicious : Option String} {map : UrlMap} {ch : Change}
    (h : (untilVisited cfg sdf c g malicious map).run w = .ok (some ch) w1) :
    ch.group = g ∧ SameCodes g w.groups w1.groups := by
  unfold untilVisited at h
  split_ifs at h
  · cases h
  · obtain ⟨_, _, hwrite, hend⟩ := run_bind_eq_ok h
    obtain ⟨s, hs, rfl⟩ := onGroups_ok hwrite
    obtain ⟨hg, hsame⟩ := untilEnd_ok hend
    exact ⟨hg, IsTrans.trans (r := SameCodes g) _ _ _ ((sameCodes_writeMapToLog map).of_ok hs) hsame⟩
  · exact untilEnd_ok h

/-- An error that is to be retried gives its code to the group. -/
theorem untilRetry_ok {major : String} {malicious : Option String} {map : UrlMap} {ch : Change}
    (h : (untilRetry cfg sdf c g (some major) malicious map).run w = .ok (some ch) w1) :
    ch.group = g ∧ Same Url.majorErrorCode w.groups.urls w1.groups.urls ∧
      ∃ code, parseLong (some major) = some code ∧
        (w1.groups.group g).majorErrorCode = ErrorCode.ofCode code := by
  unfold untilRetry at h
  split_ifs at h
  · cases h
  · cases h
  obtain ⟨_, w2, hflush, h1⟩ := run_bind_eq_ok h
  have hsame : SameCodes g w.groups w2.groups := by
    unfold flushIfMalicious at hflush
    split_ifs at hflush
    · exact flushIfBulk_codes hflush
    · cases hflush
      exact refl w.groups
  rw [EStateM.run_bind, EStateM.run_get] at h1
  dsimp only at h1
  obtain ⟨_, _, hgroups, hsome⟩ := run_bind_eq_ok h1
  obtain ⟨s, hs, rfl⟩ := onGroups_ok hgroups
  cases hsome
  obtain ⟨_, s1, hmal, hcode⟩ := run_bind_eq_ok hs
  have hsame1 := (sameCodes_setMalicious _ _ _).of_ok hmal
  unfold setGroupCode at hcode
  cases hlong : parseLong (some major) with
  | none =>
    rw [hlong] at hcode
    cases hcode
  | some code =>
    rw [hlong] at hcode
    obtain ⟨hof, hurls⟩ := setMajorErrorCode_ok hcode
    refine ⟨rfl, ?_, code, rfl, hof⟩
    have hurls' : Same Url.majorErrorCode w.groups.urls s1.urls :=
      IsTrans.trans (r := Same Url.majorErrorCode) _ _ _ hsame.2 hsame1.2
    intro u
    show (s.urls.url u).majorErrorCode = _
    rw [hurls]
    exact hurls' u

theorem untilError_ok {ch : Change} (h : (untilError cfg sdf c e).run w = .ok (some ch) w1) :
    (w.client c).visitingUrlGroup = some ch.group ∧
      (∀ u, (w1.groups.urls.url u).majorErrorCode =
        (itemsCode false ch.group w.groups u e.childElements).getD (w.groups.urls.url u).majorErrorCode) ∧
      (w1.groups.group ch.group).majorErrorCode = ((e.get "error-code").bind fun major =>
        if isErrorToRetry major then (parseLong (some major)).map ErrorCode.ofCode else none).getD
          (w.groups.group ch.group).majorErrorCode := by
  obtain ⟨g, _, hg, h1⟩ := run_bind_eq_ok h
  obtain ⟨rfl, hg⟩ := visiting_ok hg
  obtain ⟨_, _, hget, h2⟩ := run_bind_eq_ok h1
  cases hget
  obtain ⟨map, _, hi, h3⟩ := run_bind_eq_ok h2
  obtain ⟨s, hitems, rfl⟩ := onGroups_ok hi
  have hrep := reported_of_parseItems (refl _) (refl _) hitems
  cases hmajor : e.get "error-code" with
  | none =>
    rw [hmajor] at h3
    cases h3
  | some major =>
    rw [hmajor] at h3
    dsimp only at h3
    rw [Option.bind_some]
    split_ifs at h3 ⊢
    · obtain ⟨rfl, hurls, code, hcode, hof⟩ := untilRetry_ok h3
      refine ⟨hg, fun u => (hurls u).trans (hrep.ofUrl u), ?_⟩
      rw [hcode]
      exact hof
    · obtain ⟨rfl, hsame⟩ := untilVisited_ok h3
      exact ⟨hg, (hrep.same hsame).ofUrl, (hrep.same hsame).ofGroup⟩

theorem untilEvent_ok {ch : Change} (h : (untilEvent sdf c e).run w = .ok (some ch) w1) :
    (w.client c).visitingUrlGroup = some ch.group ∧ SameCodes ch.group w.groups w1.groups := by
  unfold untilEvent at h
  rw [EStateM.run_bind, EStateM.run_get] at h
  dsimp only at h
  split_ifs at h
  · cases ha : (w.client c).algorithm with
    | none =>
      rw [ha] at h
      cases h
    | some algorithm =>
      cases hg : (w.client c).visitingUrlGroup with
      | none =>
        rw [ha, hg] at h
        cases h
      | some g =>
        rw [ha, hg] at h
        dsimp only at h
        split_ifs at h
        · obtain ⟨_, _, -, hnone⟩ := run_bind_eq_ok h
          cases hnone
        · obtain ⟨_, _, hgroups, hsome⟩ := run_bind_eq_ok h
          obtain ⟨s, hs, rfl⟩ := onGroups_ok hgroups
          cases hsome
          refine ⟨rfl, Keeps.of_ok ?_ hs⟩
          refine keeps_bind (sameCodes_setMalicious _ _ _) fun _ => keeps_bind (sameCodes_writeEventToLog _) fun _ =>
            keeps_bind (sameCodes_setVisitFinishTime _) fun _ => keeps_bind keeps_get fun s => ?_
          exact sameCodes_onUrls (keeps_forM fun u _ => keeps_modify fun s => same_setUrl rfl)
        · obtain ⟨_, _, -, hnone⟩ := run_bind_eq_ok h
          cases hnone
  · cases h

/-- A message comes to its change from a state with the same groups. -/
theorem untilMessage_ok {ch : Change} (h : (untilMessage cfg sdf c e).run w = .ok (some ch) w1) :
    (w.client c).visitingUrlGroup = some ch.group ∧
      (e.name = "system-event" ∧ SameCodes ch.group w.groups w1.groups ∨
      e.name = "visit-event" ∧ e.get "type" = some "finish" ∧ Reported true w ch.group e w1.groups ∨
      e.name = "visit-event" ∧ e.get "type" = some "error" ∧
        (∀ u, (w1.groups.urls.url u).majorErrorCode =
          (itemsCode false ch.group w.groups u e.childElements).getD (w.groups.urls.url u).majorErrorCode) ∧
        (w1.groups.group ch.group).majorErrorCode = ((e.get "error-code").bind fun major =>
          if isErrorToRetry major then (parseLong (some major)).map ErrorCode.ofCode else none).getD
            (w.groups.group ch.group).majorErrorCode) := by
  have hrun : (untilMessage cfg sdf c e).run w = (if e.name = "system-event" then untilEvent sdf c e
      else if e.name = "visit-event" then untilVisitEvent cfg sdf c e else pure none).run (w.contacted c) :=
    (run_bind_ok rfl).trans (run_bind_ok rfl)
  rw [hrun] at h
  split_ifs at h with hevent hvisit
  · obtain ⟨hg, hsame⟩ := untilEvent_ok h
    exact ⟨hg, .inl ⟨hevent, hsame⟩⟩
  · have htell : (modifyClient c fun x => { x with algorithm := e.get "algorithm" }).run (w.contacted c) =
        .ok () (w.told c e) := rfl
    unfold untilVisitEvent at h
    rw [run_bind_ok htell] at h
    have htold : ((w.told c e).client c).visitingUrlGroup = (w.client c).visitingUrlGroup := by
      rw [World.told, World.setClient_self]
    cases htype : e.get "type" with
    | none =>
      rw [htype] at h
      cases h
    | some type =>
      rw [htype] at h
      dsimp only at h
      split_ifs at h with hstart hfinish herror
      · obtain ⟨_, _, -, hnone⟩ := run_bind_eq_ok h
        cases hnone
      · obtain ⟨hg, hrep⟩ := untilFinish_ok h
        rw [htold] at hg
        exact ⟨hg, .inr (.inl ⟨hvisit, by rw [hfinish], ⟨hrep.ofUrl, hrep.ofGroup⟩⟩)⟩
      · obtain ⟨hg, hurls, hgroup⟩ := untilError_ok h
        rw [htold] at hg
        exact ⟨hg, .inr (.inr ⟨hvisit, by rw [herror], hurls, hgroup⟩)⟩
      · cases h
  · cases h

/-- **The codes at a change**: a message's code for the URL and the piece's code for the group
replace what was there, and nothing else does. -/
theorem reached_of_untilChange {ch : Change} (h : (p.untilChange cfg sdf).run w = .ok (some ch) w1) :
    Reached p w ch.group w1 := by
  cases p with
  | disconnectFirst c =>
    obtain ⟨y, hrelease, -, -⟩ := releaseVm_run (w.client c).virtualMachine w
    obtain ⟨_, _, hget, h1⟩ := run_bind_eq_ok h
    cases hget
    obtain ⟨_, _, hreleased, h2⟩ := run_bind_eq_ok h1
    rw [hrelease] at hreleased
    cases hreleased
    obtain ⟨g, s, hg, hs, rfl, rfl⟩ := errorOfVisiting_ok h2
    cases hs
    exact ⟨hg, fun u => rfl, rfl⟩
  | disconnectSecond c =>
    obtain ⟨g, s, hg, hs, rfl, rfl⟩ := errorOfVisiting_ok h
    obtain ⟨_, s1, hbenign, hcode⟩ := run_bind_eq_ok hs
    obtain ⟨hof, hurls⟩ := setMajorErrorCode_ok hcode
    have hsame := (sameCodes_setBenign (g := ch.group)).of_ok hbenign
    refine ⟨hg, fun u => ?_, hof⟩
    show (s.urls.url u).majorErrorCode = _
    rw [hurls]
    exact hsame.2 u
  | sendFailed c =>
    obtain ⟨g, _, hg, h1⟩ := run_bind_eq_ok h
    obtain ⟨rfl, hg⟩ := visiting_ok hg
    obtain ⟨_, _, hcode, hsome⟩ := run_bind_eq_ok h1
    obtain ⟨s, hs, rfl⟩ := onGroups_ok hcode
    cases hsome
    obtain ⟨hof, hurls⟩ := setMajorErrorCode_ok hs
    exact ⟨hg, fun u => by rw [hurls]; rfl, hof⟩
  | setError v code =>
    unfold Piece.untilChange at h
    rw [EStateM.run_bind, EStateM.run_get] at h
    dsimp only at h
    cases hc : (w.vm v).client with
    | none =>
      rw [hc] at h
      cases h
    | some c =>
      rw [hc] at h
      obtain ⟨g, s, hg, hs, rfl, rfl⟩ := errorOfVisiting_ok h
      obtain ⟨hof, hurls⟩ := setMajorErrorCode_ok hs
      refine ⟨?_, fun u => by rw [hurls]; rfl, hof⟩
      rw [Piece.group, Piece.client, hc]
      exact hg
  | message c e =>
    obtain ⟨hg, hcases⟩ := untilMessage_ok h
    refine ⟨hg, ?_, ?_⟩
    · intro u
      rcases hcases with ⟨hname, hsame⟩ | ⟨hname, htype, hrep⟩ | ⟨hname, htype, hurls, -⟩
      · simp only [Piece.codeOfUrl, hname]
        exact hsame.2 u
      · simp only [Piece.codeOfUrl, hname, htype, and_self, if_true]
        exact hrep.ofUrl u
      · simp only [Piece.codeOfUrl, hname, htype]
        exact hurls u
    · rcases hcases with ⟨hname, hsame⟩ | ⟨hname, htype, hrep⟩ | ⟨hname, htype, -, hgroup⟩
      · simp only [Piece.codeOfGroup, hname]
        exact hsame.1
      · simp only [Piece.codeOfGroup, hname, htype]
        exact hrep.ofGroup
      · simp only [Piece.codeOfGroup, hname, htype, and_self, if_true]
        exact hgroup
  | _ =>
    obtain ⟨_, _, -, hnone⟩ := run_bind_eq_ok h
    cases hnone

/-! ## The cause -/

theorem errorCode_ofCode (code : ℤ) :
    (ErrorCode.ofCode code).errorCode = code ∨ ErrorCode.ofCode code = .invalidErrorCodeFromClient := by
  have hfold : ∀ (l : List ErrorCode) (a : ErrorCode), a.errorCode = code ∨ a = .invalidErrorCodeFromClient →
      (l.foldl (fun found e => if code = e.errorCode then e else found) a).errorCode = code ∨
        l.foldl (fun found e => if code = e.errorCode then e else found) a = .invalidErrorCodeFromClient := by
    intro l
    induction l with
    | nil => exact fun a ha => ha
    | cons e l ih =>
      intro a ha
      apply ih
      dsimp only
      split_ifs with he
      · exact .inl he.symm
      · exact ha
  exact hfold ErrorCode.values _ (.inr rfl)

theorem ofCode_idem (code : ℤ) : ErrorCode.ofCode (ErrorCode.ofCode code).errorCode = ErrorCode.ofCode code := by
  rcases errorCode_ofCode code with h | h
  · rw [h]
  · rw [h]
    decide

/-- The code that a piece gives to the group is one that `setMajorErrorCode` can give. -/
theorem Piece.codeOfGroup_idem (h : p.codeOfGroup = some code) : ErrorCode.ofCode code.errorCode = code := by
  cases p with
  | disconnectSecond c =>
    cases h
    decide
  | sendFailed c =>
    cases h
    decide
  | setError v code =>
    cases h
    exact ofCode_idem _
  | message c e =>
    simp only [Piece.codeOfGroup] at h
    split_ifs at h
    obtain ⟨major, -, h⟩ := Option.bind_eq_some_iff.1 h
    split_ifs at h
    obtain ⟨n, -, rfl⟩ := Option.map_eq_some_iff.1 h
    exact ofCode_idem n
  | _ => cases h

/-- The codes of a lost connection, for `disconnect`: that of the reset, and that of the event
thread once it has ended. -/
def Piece.lostCodes (w : World) : Piece → List ErrorCode
  | .disconnectFirst c =>
    .captureClientConnectionReset :: if (w.client c).receiving then [] else [.socketError]
  | _ => []

/-- The codes that tell why a piece moves the URL to ERROR. -/
def Piece.causes (w : World) (g u : ℕ) (p : Piece) : List ErrorCode :=
  (p.codeOfUrl w g u).toList ++ (p.codeOfGroup.toList ++ p.lostCodes w)

/-- The URL's code as the piece changes the state of the group. -/
def Piece.ownCode (w : World) (g u : ℕ) (p : Piece) : ErrorCode :=
  (p.codeOfUrl w g u).getD (w.groups.urls.url u).majorErrorCode

/-- The code with which a URL is logged that has none of its own. -/
def Piece.heldCode (w : World) (g : ℕ) (p : Piece) : ErrorCode :=
  .ofCode (p.codeOfGroup.getD (w.groups.group g).majorErrorCode).errorCode

/-- The logged code is the URL's own, or else the group's. -/
theorem Moves.code_eq (h : Moves cfg sdf p w g u code) :
    code = if p.ownCode w g u = .ok then p.heldCode w g else p.ownCode w g u := by
  obtain ⟨st, rest, w1, pre, post, t, hrun, hlist, hnotin, hpre, hmove⟩ := h
  have hreached := reached_of_untilChange hrun
  have hurl : t.url u = w1.groups.urls.url u :=
    ((frame_forM fun v hv => keeps_setStateOfUrl (by simp) _ _).of_ok hpre).others u hnotin
  have hown : (t.url u).majorErrorCode = p.ownCode w g u := by
    rw [hurl]
    exact hreached.ofUrl u
  have hheld : ErrorCode.ofCode (w1.groups.group g).majorErrorCode.errorCode = p.heldCode w g := by
    have hgroup : (w1.groups.group g).majorErrorCode =
        p.codeOfGroup.getD (w.groups.group g).majorErrorCode := hreached.ofGroup
    rw [Piece.heldCode, hgroup]
  unfold movesWith at hmove
  rw [hown, hheld] at hmove
  by_cases hstate : (t.url u).urlState = .error
  · rw [if_pos hstate] at hmove
    cases hmove
  rw [if_neg hstate] at hmove
  cases st with
  | visited =>
    dsimp only at hmove
    by_cases hok : p.ownCode w g u = .ok
    · rw [if_pos hok] at hmove
      cases hmove
    · rw [if_neg hok] at hmove ⊢
      exact (Option.some.inj hmove).symm
  | error => exact (Option.some.inj hmove).symm
  | _ => cases hmove

/-- **What makes the logged code right**, from the state before the piece.
* The message reports an error for the URL.
* The URL has no code, and the piece gives its group one.
* The URL has a code of this visit or of this piece, and the message reports none.
* The URL has no code, and its group has a code of this visit or of a lost connection. -/
def Caused (earlier : ErrorCode → Prop) (p : Piece) (w : World) (g u : ℕ) : Prop :=
  (∃ code, p.codeOfUrl w g u = some code ∧ code ≠ .ok) ∨
  (p.ownCode w g u = .ok ∧ ∃ code, p.codeOfGroup = some code ∧ code ≠ .ok) ∨
  (p.codeOfUrl w g u = none ∧ (w.groups.urls.url u).majorErrorCode ≠ .ok ∧
    (earlier (w.groups.urls.url u).majorErrorCode →
      (w.groups.urls.url u).majorErrorCode ∈ p.codeOfGroup.toList ++ p.lostCodes w)) ∨
  (p.ownCode w g u = .ok ∧ p.codeOfGroup = none ∧
    ErrorCode.ofCode (w.groups.group g).majorErrorCode.errorCode ≠ .ok ∧
    (earlier (.ofCode (w.groups.group g).majorErrorCode.errorCode) →
      ErrorCode.ofCode (w.groups.group g).majorErrorCode.errorCode ∈ p.lostCodes w))

/-- **An ERROR is logged with its cause**: with a failure code, and with one left by an earlier
visit only if the piece gives the same code again. `earlier` are the codes that earlier
visits left. -/
theorem error_caused_iff (h : Moves cfg sdf p w g u code) :
    (code ≠ .ok ∧ (earlier code → code ∈ p.causes w g u)) ↔ Caused earlier p w g u := by
  have hcode := h.code_eq
  unfold Caused Piece.causes
  by_cases hown : p.ownCode w g u = .ok
  · -- the URL is logged with the code of its group
    rw [if_pos hown] at hcode
    have hreport : ∀ y, p.codeOfUrl w g u = some y → y = .ok := by
      intro y hy
      rw [Piece.ownCode, hy] at hown
      exact hown
    have hnone : p.codeOfUrl w g u = none → (w.groups.urls.url u).majorErrorCode = .ok := by
      intro hn
      rw [Piece.ownCode, hn] at hown
      exact hown
    have hmem : ∀ y, y ≠ .ok → y ∉ (p.codeOfUrl w g u).toList := by
      intro y hy hin
      exact hy (hreport y (Option.mem_toList.1 hin))
    cases hgroup : p.codeOfGroup with
    | some held =>
      have hheld : code = held := by
        rw [hcode, Piece.heldCode, hgroup]
        exact Piece.codeOfGroup_idem hgroup
      subst hheld
      constructor
      · rintro ⟨hne, -⟩
        exact .inr (.inl ⟨hown, code, rfl, hne⟩)
      · rintro (⟨y, hy, hne⟩ | ⟨-, y, hy, hne⟩ | ⟨hn, hne, -⟩ | ⟨-, hn, -⟩)
        · exact absurd (hreport y hy) hne
        · cases hy
          exact ⟨hne, fun _ => by simp⟩
        · exact absurd (hnone hn) hne
        · cases hn
    | none =>
      have hheld : code = .ofCode (w.groups.group g).majorErrorCode.errorCode := by
        rw [hcode, Piece.heldCode, hgroup]
        rfl
      rw [← hheld]
      constructor
      · rintro ⟨hne, hcause⟩
        refine .inr (.inr (.inr ⟨hown, rfl, hne, fun he => ?_⟩))
        rcases List.mem_append.1 (hcause he) with hin | hin
        · exact absurd hin (hmem code hne)
        · exact hin
      · rintro (⟨y, hy, hne⟩ | ⟨-, y, hy, -⟩ | ⟨hn, hne, -⟩ | ⟨-, -, hne, hcause⟩)
        · exact absurd (hreport y hy) hne
        · cases hy
        · exact absurd (hnone hn) hne
        · exact ⟨hne, fun he => List.mem_append_right _ (hcause he)⟩
  · -- the URL is logged with its own code
    rw [if_neg hown] at hcode
    cases hurl : p.codeOfUrl w g u with
    | some own =>
      obtain rfl : code = own := by rw [hcode, Piece.ownCode, hurl]; rfl
      have hne : code ≠ .ok := by rw [hcode]; exact hown
      exact iff_of_true ⟨hne, fun _ => by simp⟩ (.inl ⟨code, rfl, hne⟩)
    | none =>
      have hx : code = (w.groups.urls.url u).majorErrorCode := by rw [hcode, Piece.ownCode, hurl]; rfl
      have hne : code ≠ .ok := by rw [hcode]; exact hown
      rw [← hx]
      constructor
      · rintro ⟨-, hcause⟩
        exact .inr (.inr (.inl ⟨rfl, hne, hcause⟩))
      · rintro (⟨y, hy, -⟩ | ⟨hok, -⟩ | ⟨-, -, hcause⟩ | ⟨hok, -⟩)
        · cases hy
        · exact absurd hok hown
        · exact ⟨hne, hcause⟩
        · exact absurd hok hown

/-! ## A first visit that is cut off, and one that stalls -/

/-- The first URL of a group that goes to ERROR. -/
theorem moves_first {rest : ServerM Unit} {post : List ℕ}
    (hrun : (p.untilChange cfg sdf).run w = .ok (some ⟨g, .error, rest⟩) w1)
    (hlist : (w1.groups.group g).urlList = u :: post) (hstate : (w1.groups.urls.url u).urlState ≠ .error) :
    ∃ code, Moves cfg sdf p w g u code := by
  have hmove : movesWith .error (w1.groups.group g).majorErrorCode (w1.groups.urls.url u) =
      some (if (w1.groups.urls.url u).majorErrorCode = .ok
        then .ofCode (w1.groups.group g).majorErrorCode.errorCode
        else (w1.groups.urls.url u).majorErrorCode) := by
    rw [movesWith, if_neg hstate]
  exact ⟨_, .error, rest, w1, [], post, w1.groups.urls, hrun, hlist, List.not_mem_nil, rfl, hmove⟩

/-- A client that is disconnected while it visits a group. -/
theorem moves_disconnectFirst {post : List ℕ} (hg : (w.client c).visitingUrlGroup = some g)
    (hlist : (w.groups.group g).urlList = u :: post) (hstate : (w.groups.urls.url u).urlState ≠ .error) :
    ∃ code, Moves cfg sdf (.disconnectFirst c) w g u code := by
  obtain ⟨y, hrelease, -, -⟩ := releaseVm_run (w.client c).virtualMachine w
  set w2 := w.setVm (w.client c).virtualMachine y with hw2
  set rest : ServerM Unit := modifyClient c fun x => { x with downloading := false, socketOpen := false }
  have hvisit : (errorOfVisiting c (fun _ => pure ()) rest).run w2 = .ok (some ⟨g, .error, rest⟩) w2 := by
    unfold errorOfVisiting
    rw [EStateM.run_bind, EStateM.run_get]
    dsimp only
    rw [show (w2.client c).visitingUrlGroup = some g from hg]
    rfl
  exact moves_first ((run_bind_ok rfl).trans ((run_bind_ok hrelease).trans hvisit)) hlist hstate

/-- A machine that stalls while its client visits a group. -/
theorem moves_setError {v : ℕ} {post : List ℕ} (hc : (w.vm v).client = some c)
    (hg : (w.client c).visitingUrlGroup = some g) (hlist : (w.groups.group g).urlList = u :: post)
    (hstate : (w.groups.urls.url u).urlState ≠ .error) : ∃ code', Moves cfg sdf (.setError v code) w g u code' := by
  obtain ⟨s, hs⟩ : ∃ s, (UrlGroup.setMajorErrorCode g code.errorCode).run w.groups = .ok () s := ⟨_, rfl⟩
  have hvisit : (errorOfVisiting c (fun g => UrlGroup.setMajorErrorCode g code.errorCode) (pure ())).run w =
      .ok (some ⟨g, .error, pure ()⟩) { w with groups := s } := by
    unfold errorOfVisiting
    rw [EStateM.run_bind, EStateM.run_get]
    dsimp only
    rw [hg]
    exact (run_bind_ok (onGroups_run hs)).trans rfl
  have hrun : ((Piece.setError v code).untilChange cfg sdf).run w =
      .ok (some ⟨g, .error, pure ()⟩) { w with groups := s } := by
    rw [← hvisit]
    refine (run_bind_ok rfl).trans ?_
    rw [hc]
  have hframe := (frame_setMajorErrorCode (g := g) code.errorCode).of_ok hs
  have hlist' : (s.group g).urlList = u :: post := hframe.urlList.trans hlist
  have hstate' : (s.urls.url u).urlState ≠ .error := by
    rw [(setMajorErrorCode_ok hs).2]
    exact hstate
  exact moves_first hrun hlist' hstate'

/-- The first visit of `firstVisit` stalls: the URL is logged with the code of the stalled machine. -/
theorem error_caused_iff_stalled : ∃ w code, World.runs oneUrl .utc {} firstVisit = some w ∧
    Moves oneUrl .utc (.setError 0 .vmStalled) w 0 0 code ∧ code ≠ .ok ∧
    code ∈ (Piece.setError 0 .vmStalled).causes w 0 0 := by
  have hlist : ((World.reached oneUrl .utc firstVisit).groups.group 0).urlList = [0] := by decide +kernel
  obtain ⟨code, hmoves⟩ : ∃ code, Moves oneUrl .utc (.setError 0 .vmStalled)
      (World.reached oneUrl .utc firstVisit) 0 0 code :=
    moves_setError (c := 0) (by decide +kernel) (by decide +kernel) hlist (by decide +kernel)
  have hown : (Piece.setError 0 .vmStalled).ownCode (World.reached oneUrl .utc firstVisit) 0 0 = .ok := by
    decide +kernel
  have hcaused : Caused (fun _ => True) (.setError 0 .vmStalled) (World.reached oneUrl .utc firstVisit) 0 0 :=
    .inr (.inl ⟨hown, .vmStalled, by decide, by decide⟩)
  obtain ⟨hne, hcause⟩ := (error_caused_iff hmoves).2 hcaused
  exact ⟨_, code, World.runs_reached (by decide +kernel), hmoves, hne, hcause trivial⟩

/-- **A first visit that is cut off is logged with the code OK**: `disconnect` sets the state of
the group before its code. -/
theorem disconnect_logs_ok : ∃ w w', World.runs oneUrl .utc {} firstVisit = some w ∧
    World.runs oneUrl .utc {} (firstVisit ++ [.disconnect 0]) = some w' ∧
    Moves oneUrl .utc (.disconnectFirst 0) w 0 0 .ok ∧
    (w'.groups.urls.log.drop w.groups.urls.log.length).map LogEntry.event = [.error .ok 0] := by
  have hlist : ((World.reached oneUrl .utc firstVisit).groups.group 0).urlList = [0] := by decide +kernel
  obtain ⟨code, hmoves⟩ : ∃ code, Moves oneUrl .utc (.disconnectFirst 0)
      (World.reached oneUrl .utc firstVisit) 0 0 code :=
    moves_disconnectFirst (by decide +kernel) hlist (by decide +kernel)
  have hown : (Piece.disconnectFirst 0).ownCode (World.reached oneUrl .utc firstVisit) 0 0 = .ok := by
    decide +kernel
  have hheld : (Piece.disconnectFirst 0).heldCode (World.reached oneUrl .utc firstVisit) 0 = .ok := by
    decide +kernel
  have hcode := hmoves.code_eq
  rw [if_pos hown, hheld] at hcode
  subst hcode
  exact ⟨_, _, World.runs_reached (by decide +kernel), World.runs_reached (by decide +kernel), hmoves,
    by decide +kernel⟩

end CaptureHPC
