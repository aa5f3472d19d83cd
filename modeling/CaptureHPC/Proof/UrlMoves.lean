import CaptureHPC.Proof.Taking
import CaptureHPC.Proof.Handlers

/-!
# What the server does to its URLs

Whatever the server does to its URLs but adding them is a sequence of `UrlMove`s: a record is edited, a
URL changes its state, or something happens that is not about one URL. A record is edited without its
text and its state, and it becomes malicious only if `B` allows it.

* `Unblamed`: nothing becomes malicious. So it is when a group is taken or changes its state.
* `Touches P g`: the group and its URLs may become malicious, if `P`. So it is for the other programs.
-/

namespace CaptureHPC

open Lib Client UrlGroup UrlGroupsController

variable {g u : ℕ} {sdf : SimpleDateFormat} {B B' : ℕ → Prop} {P Q : Prop} {L : List ℕ} {t t' : UrlsController}
  {s s' : UrlGroupsController}

/-- What a URL is asked for: its text, the program, and the visit time. -/
def Url.key (x : Url) : String × String × Int32 := (x.url, x.clientProgram, x.visitTime)

/-- A move of the URLs. Those of `B` may become malicious. -/
inductive UrlMove (B : ℕ → Prop) (t : UrlsController) : UrlsController → Prop
  | edit (u : ℕ) (x : Url) (key : x.key = (t.url u).key) (state : x.urlState = (t.url u).urlState)
      (verdict : x.malicious = some true → (t.url u).malicious = some true ∨ B u) : UrlMove B t (t.setUrl u x)
  | state (u : ℕ) (st : UrlState) : UrlMove B t (final ((Url.setUrlState u st).run t))
  | sending (e : LogEntry) (he : e.event = .sending) : UrlMove B t (t.writeToLog e)
  | queue (q : List ℕ) : UrlMove B t (t.withQueue q)
  | clock (now : ℤ) : UrlMove B t { t with now := now }
  | counted (a b : ℕ) : UrlMove B t (t.addStats fun x =>
      { x with clientInactivity := x.clientInactivity + a, vmStalled := x.vmStalled + b })

/-- A sequence of moves. -/
abbrev UrlMoves (B : ℕ → Prop) : UrlsController → UrlsController → Prop := Relation.ReflTransGen (UrlMove B)

instance : Std.Refl (UrlMoves B) := ⟨fun _ => .refl⟩

instance : IsTrans UrlsController (UrlMoves B) := ⟨fun _ _ _ => .trans⟩

theorem UrlMove.mono (hB : ∀ u, B u → B' u) (h : UrlMove B t t') : UrlMove B' t t' := by
  cases h with
  | edit u x key state verdict => exact .edit u x key state fun hx => (verdict hx).imp_right (hB u)
  | state u st => exact .state u st
  | sending e he => exact .sending e he
  | queue q => exact .queue q
  | clock now => exact .clock now
  | counted a b => exact .counted a b

theorem UrlMoves.mono (hB : ∀ u, B u → B' u) (h : UrlMoves B t t') : UrlMoves B' t t' :=
  Relation.ReflTransGen.mono (fun _ _ => UrlMove.mono hB) _ _ h

/-! ## Programs on URLs -/

/-- An edit that does not touch the state or the verdict. -/
theorem moves_edit (u : ℕ) {f : Url → Url} (hkey : ∀ x, (f x).key = x.key) (hstate : ∀ x, (f x).urlState = x.urlState)
    (hverdict : ∀ x, (f x).malicious = x.malicious) : Keeps (UrlMoves B) (Url.modifyUrl u f) :=
  keeps_modify fun _ => .single (.edit u _ (hkey _) (hstate _) fun hx => .inl ((hverdict _).symm.trans hx))

theorem moves_setUrlState (u : ℕ) (st : UrlState) : Keeps (UrlMoves B) (Url.setUrlState u st) :=
  fun _ => .single (.state u st)

theorem moves_setMalicious (u : ℕ) {b : Bool} (hb : b = true → B u) : Keeps (UrlMoves B) (Url.setMalicious u b) :=
  keeps_modify fun _ => .single (.edit u _ rfl rfl fun hx => .inr (hb (Option.some.inj hx)))

theorem change_of_lookup {map : UrlMap} {url csv : String} (h : map.lookup url = some csv) : (url, csv) ∈ map := by
  obtain ⟨l1, l2, hmap, -⟩ := List.lookup_eq_some_iff.1 h
  rw [hmap]
  exact List.mem_append_right _ List.mem_cons_self

theorem moves_setMaliciousByMap (u : ℕ) {b : Bool} {map : Option UrlMap} (hb : b = true → B u)
    (hmap : ∀ m, map = some m → (∃ p ∈ m, p.2 ≠ "") → B u) : Keeps (UrlMoves B) (setMaliciousByMap b map u) := by
  refine keeps_bind keeps_get fun t => ?_
  cases map with
  | none => exact moves_setMalicious u hb
  | some m =>
    dsimp only
    split
    · exact keeps_throw _
    · rename_i csv hcsv
      refine moves_setMalicious u fun hne => hmap m rfl ⟨_, change_of_lookup hcsv, ?_⟩
      exact of_decide_eq_true hne

theorem moves_openLog (u : ℕ) : Keeps (UrlMoves B) (Url.openLog u) := by
  refine keeps_bind keeps_get fun t => ?_
  split
  · exact keeps_throw _
  · exact moves_edit u (fun _ => rfl) (fun _ => rfl) fun _ => rfl

theorem moves_writeEventToLog (hu : B u) (event : String) : Keeps (UrlMoves B) (Url.writeEventToLog sdf u event) := by
  refine keeps_bind (moves_openLog u) fun _ => keeps_bind keeps_get fun t => ?_
  split
  · exact keeps_modify fun _ => .single (.edit u _ rfl rfl fun _ => .inr hu)
  · split
    · exact keeps_throw _
    · split
      · exact keeps_pure _
      · exact keeps_modify fun _ => .single (.edit u _ rfl rfl fun _ => .inr hu)

theorem moves_setItemCodes (u : ℕ) (major minor : Option String) : Keeps (UrlMoves B) (setItemCodes u major minor) := by
  have hmajor : ∀ code, Keeps (UrlMoves B) (Url.setMajorErrorCode u code) := fun _ =>
    moves_edit u (fun _ => rfl) (fun _ => rfl) fun _ => rfl
  unfold Client.setItemCodes
  split
  · exact keeps_throw _
  · exact keeps_bind (hmajor _) fun _ => keeps_throw _
  · exact keeps_bind (hmajor _) fun _ => moves_edit u (fun _ => rfl) (fun _ => rfl) fun _ => rfl

theorem moves_setVisitStartTime (u : ℕ) : Keeps (UrlMoves B) (Url.setVisitStartTime u) :=
  keeps_modify fun _ => .single (.edit u _ rfl rfl .inl)

theorem moves_setVisitFinishTime (u : ℕ) : Keeps (UrlMoves B) (Url.setVisitFinishTime u) :=
  keeps_modify fun _ => .single (.edit u _ rfl rfl .inl)

theorem moves_setErrorOfUrl (code : ErrorCode) (u : ℕ) : Keeps (UrlMoves B) (setErrorOfUrl code u) :=
  keeps_bind (moves_edit u (fun _ => rfl) (fun _ => rfl) fun _ => rfl) fun _ => moves_setUrlState u _

theorem moves_setStateOfUrl (st : UrlGroupState) (code : ErrorCode) (u : ℕ) :
    Keeps (UrlMoves B) (setStateOfUrl st code u) := by
  unfold UrlGroup.setStateOfUrl
  split
  · exact moves_setUrlState u _
  · exact keeps_bind keeps_get fun _ => moves_setUrlState u _
  · refine keeps_bind (keeps_bind keeps_get fun _ => ?_) fun _ => moves_setUrlState u _
    split
    · exact moves_edit u (fun _ => rfl) (fun _ => rfl) fun _ => rfl
    · exact keeps_pure _
  · exact keeps_pure _

/-! ## Programs that blame nobody -/

/-- No URL becomes malicious. -/
abbrev Unblamed : UrlGroupsController → UrlGroupsController → Prop := OnUrls (UrlMoves fun _ => False)

theorem unblamed_modify {f : UrlGroupsController → UrlGroupsController} (hf : ∀ s, (f s).urls = s.urls) :
    Keeps Unblamed (modify f : GroupsM Unit) := by
  refine keeps_modify fun s => ?_
  unfold Unblamed OnUrls
  rw [hf]

theorem unblamed_new (L : List ℕ) : Keeps Unblamed (UrlGroup.new L) := by
  refine keeps_bind keeps_get fun s => ?_
  dsimp only
  split
  · exact keeps_throw _
  · exact keeps_bind (unblamed_modify fun _ => rfl) fun _ =>
      keeps_bind (keeps_onUrls (keeps_forM fun u _ => moves_edit u (fun _ => rfl) (fun _ => rfl) fun _ => rfl)) fun _ =>
        keeps_pure _

theorem unblamed_splitIfMalicious (g : ℕ) : Keeps Unblamed (splitIfMalicious g) := by
  have hsplit : Keeps Unblamed (split g) := keeps_bind keeps_get fun s =>
    keeps_bind (unblamed_new _) fun _ => keeps_bind (unblamed_modify fun _ => rfl) fun _ =>
      keeps_bind (unblamed_new _) fun _ => keeps_bind (unblamed_modify fun _ => rfl) fun _ => unblamed_modify fun _ => rfl
  refine keeps_bind keeps_get fun s => ?_
  split_ifs
  · exact hsplit
  · exact keeps_pure _

theorem unblamed_setRetryCount (g n : ℕ) : Keeps Unblamed (setRetryCount g n) :=
  keeps_bind (onUrls_modifyGroup g _) fun _ => keeps_bind keeps_get fun _ =>
    keeps_onUrls (keeps_forM fun u _ => moves_edit u (fun _ => rfl) (fun _ => rfl) fun _ => rfl)

theorem unblamed_updateError (g : ℕ) : Keeps Unblamed (updateError g) := by
  refine keeps_bind keeps_get fun s => keeps_bind (unblamed_splitIfMalicious g) fun _ =>
    keeps_bind (keeps_onUrls (keeps_forM fun u _ => moves_setErrorOfUrl _ u)) fun _ => keeps_bind keeps_get fun s' => ?_
  split_ifs
  · exact keeps_bind (unblamed_setRetryCount g _) fun _ => keeps_bind (unblamed_modify fun _ => rfl) fun _ =>
      unblamed_modify fun _ => rfl
  · exact keeps_pure _

theorem unblamed_update (g : ℕ) : Keeps Unblamed (UrlGroup.update g) := by
  refine keeps_bind keeps_get fun s => ?_
  dsimp only
  split
  · exact unblamed_modify fun _ => rfl
  · refine keeps_bind (unblamed_modify fun _ => rfl) fun _ => ?_
    split_ifs
    · exact keeps_throw _
    · exact unblamed_splitIfMalicious g
  · refine keeps_bind (unblamed_modify fun _ => rfl) fun _ => ?_
    split_ifs
    · exact keeps_throw _
    · exact unblamed_updateError g
  · exact keeps_pure _

theorem unblamed_setUrlGroupState (g : ℕ) (st : UrlGroupState) : Keeps Unblamed (setUrlGroupState g st) :=
  keeps_bind (onUrls_modifyGroup g _) fun _ => keeps_bind keeps_get fun _ =>
    keeps_bind (keeps_onUrls (keeps_forM fun u _ => moves_setStateOfUrl _ _ u)) fun _ => unblamed_update g

theorem unblamed_takeUrlGroup (groupSize : ℤ) (picks : ℕ → ℕ) (c : ℕ) :
    Keeps Unblamed (takeUrlGroup groupSize picks c) := by
  intro s
  refine final_bind (refl s) fun s' t hget => ?_
  cases hget
  cases s.urlGroupQueue with
  | cons g rest => exact .refl
  | nil =>
    refine final_bind ?_ fun _ t _ => ?_
    · show UrlMoves _ s.urls (takeUrls picks _ s.urls).2
      rw [(takeUrls_perm picks _ s.urls).1]
      exact .single (.queue _)
    · split_ifs
      · exact refl t
      · have hrecord : ∀ g, Keeps Unblamed (modify (record (.taken c g)) : GroupsM Unit) := fun _ =>
          unblamed_modify fun _ => rfl
        exact keeps_bind (unblamed_new _) (fun g => keeps_bind (hrecord g) fun _ => keeps_pure _) t

/-! ## Programs that may blame a group -/

/-- Only the URLs of `g` and `g` may become malicious, and only if `P`. -/
structure Touches (P : Prop) (g : ℕ) (s s' : UrlGroupsController) : Prop where
  urlList : (s'.group g).urlList = (s.group g).urlList
  urls : UrlMoves (fun u => P ∧ u ∈ (s.group g).urlList) s.urls s'.urls
  flag : (s'.group g).malicious = true → (s.group g).malicious = true ∨ P

instance : Std.Refl (Touches P g) := ⟨fun _ => ⟨rfl, .refl, .inl⟩⟩

instance : IsTrans UrlGroupsController (Touches P g) where
  trans _ _ _ h h' := by
    refine ⟨h'.urlList.trans h.urlList, h.urls.trans (h.urlList ▸ h'.urls), fun hflag => ?_⟩
    rcases h'.flag hflag with hflag | hP
    · exact h.flag hflag
    · exact .inr hP

theorem Touches.mono (hPQ : P → Q) (h : Touches P g s s') : Touches Q g s s' :=
  ⟨h.urlList, h.urls.mono fun _ hu => ⟨hPQ hu.1, hu.2⟩, fun hflag => (h.flag hflag).imp_right hPQ⟩

theorem touches_modifyGroup {f : UrlGroup → UrlGroup} (hlist : ∀ x, (f x).urlList = x.urlList)
    (hflag : ∀ x, (f x).malicious = true → x.malicious = true ∨ P) : Keeps (Touches P g) (modifyGroup g f) := by
  refine keeps_modify fun s => ⟨?_, .refl, fun h => ?_⟩
  · rw [setGroup_self, hlist]
  · rw [setGroup_self] at h
    exact hflag _ h

theorem touches_onUrls {α : Type} {m : UrlsM α} (h : Keeps (UrlMoves fun u => P ∧ u ∈ (s.group g).urlList) m) :
    Touches P g s (final ((onUrls m).run s)) := by
  rw [onUrls, final_zoom]
  exact ⟨rfl, h s.urls, .inl⟩

theorem touches_code (code : ℤ) : Keeps (Touches P g) (UrlGroup.setMajorErrorCode g code) :=
  touches_modifyGroup (fun _ => rfl) fun _ => .inl

theorem touches_startTime (time : Option String) : Keeps (Touches P g) (UrlGroup.setVisitStartTime sdf g time) := by
  unfold UrlGroup.setVisitStartTime
  split
  · exact keeps_throw _
  · split
    · exact keeps_pure _
    · exact touches_modifyGroup (fun _ => rfl) fun _ => .inl

theorem touches_finishTime (time : Option String) : Keeps (Touches P g) (UrlGroup.setVisitFinishTime sdf g time) := by
  unfold UrlGroup.setVisitFinishTime
  split
  · exact keeps_throw _
  · split
    · exact keeps_pure _
    · exact touches_modifyGroup (fun _ => rfl) fun _ => .inl

theorem touches_finishTimes (L : List ℕ) (s : UrlGroupsController) :
    Touches P g s (final ((onUrls (forM L Url.setVisitFinishTime)).run s)) :=
  touches_onUrls (keeps_forM fun u _ => moves_setVisitFinishTime u)

theorem touches_algorithm (algorithm : Option String) : Keeps (Touches P g) (setAlgorithm g algorithm) :=
  touches_modifyGroup (fun _ => rfl) fun _ => .inl

/-- The map has state changes. -/
def Told (map : UrlMap) : Prop := ∃ p ∈ map, p.2 ≠ ""

theorem touches_verdict (algorithm : Option String) (b : Bool) (map : Option UrlMap) :
    Keeps (Touches (b = true ∨ ∃ m, map = some m ∧ Told m) g) (UrlGroup.setMalicious g algorithm b map) := by
  refine keeps_bind (touches_modifyGroup (fun _ => rfl) fun _ hb => .inr (.inl hb)) fun _ s => ?_
  refine final_bind (refl s) fun s' t hget => ?_
  cases hget
  cases algorithm with
  | none => exact keeps_throw _ s
  | some algorithm =>
    dsimp only
    split_ifs
    · exact touches_onUrls (keeps_forM fun u hu => moves_setMaliciousByMap u (fun hb => ⟨.inl hb, hu⟩)
        fun m hm htold => ⟨.inr ⟨m, hm, htold⟩, hu⟩)
    · exact touches_onUrls (keeps_forM fun u _ => moves_setMalicious u nofun)
    · rename_i hb
      split
      · rename_i u hu
        exact touches_onUrls (moves_setMalicious u fun _ =>
          ⟨.inl (Bool.eq_true_of_not_eq_false hb), hu ▸ List.mem_singleton_self u⟩)
      · exact keeps_pure _ s

theorem touches_event (text : String) : Keeps (Touches True g) (UrlGroup.writeEventToLog sdf g text) := by
  refine fun s => final_bind (refl s) fun s' t hget => ?_
  cases hget
  split
  · rename_i u hu
    exact touches_onUrls (moves_writeEventToLog ⟨trivial, hu ▸ List.mem_singleton_self u⟩ _)
  · have hopen : Keeps (Touches True g) (UrlGroup.openLog g) := by
      refine keeps_bind keeps_get fun s => ?_
      split
      · exact keeps_throw _
      · exact touches_modifyGroup (fun _ => rfl) fun _ => .inl
    refine keeps_bind hopen (fun _ => ?_) s
    exact touches_modifyGroup (fun _ => rfl) fun _ => .inl

theorem touches_map (map : UrlMap) : Keeps (Touches (Told map) g) (writeMapToLog sdf g map) := by
  refine fun s => final_bind (refl s) fun s' t hget => ?_
  cases hget
  refine touches_onUrls (keeps_forM fun u hu => keeps_bind keeps_get fun _ => ?_)
  dsimp only
  split
  · exact keeps_pure _
  · rename_i csv hcsv
    split_ifs with hempty
    · exact keeps_pure _
    · exact moves_writeEventToLog ⟨⟨_, change_of_lookup hcsv, hempty⟩, hu⟩ _

theorem touches_getUrl_bind {α : Type} {f : ℕ → GroupsM α} (uri : Option String)
    (hf : ∀ u, Keeps (Touches P g) (f u)) : Keeps (Touches P g) (getUrl g uri >>= f) := by
  intro s
  rcases getUrl_cases uri s with ⟨e, he⟩ | ⟨u, _, hrun⟩
  · rw [run_bind_error he]
    exact refl s
  · rw [run_bind_ok hrun]
    exact hf u s

theorem touches_started (item : Element) : Keeps (Touches P g) (startItem g item) :=
  touches_getUrl_bind _ fun u _ => touches_onUrls (moves_setVisitStartTime u)

theorem touches_parsed (finish : Bool) (handler : StateChangeHandler) (item : Element) :
    Keeps (Touches P g) (parseItem finish handler sdf g item) := by
  refine touches_getUrl_bind _ fun u => ?_
  dsimp only
  split
  · exact keeps_throw _
  · refine keeps_bind (fun _ => touches_onUrls (moves_setVisitFinishTime u)) fun _ => keeps_bind keeps_get fun _ => ?_
    split
    · exact keeps_throw _
    · split
      · exact keeps_bind (fun _ => touches_onUrls (moves_setItemCodes u _ _)) fun _ => keeps_pure _
      · exact keeps_pure _

theorem touches_sending (address : Option String) : Keeps (Touches P g) (logSending g address) := by
  refine keeps_bind keeps_get fun s t => touches_onUrls ?_
  exact keeps_modify fun _ => .single (.sending _ rfl)

theorem touches_address (address : Option String) : Keeps (Touches P g) (setAddress g address) := by
  unfold setAddress
  split_ifs
  · exact keeps_pure _
  · refine keeps_bind (touches_modifyGroup (fun _ => rfl) fun _ => .inl) fun _ => keeps_bind keeps_get fun s t => ?_
    exact touches_onUrls (keeps_forM fun u _ => moves_edit u (fun _ => rfl) (fun _ => rfl) fun _ => rfl)

end CaptureHPC
