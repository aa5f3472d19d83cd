import CaptureHPC.Proof.ClientSteps

/-!
# What the programs on a group leave alone

`GroupFrame g` holds for every program on the group `g` but `setUrlGroupState`: the queue,
the other groups, and what a group is made of stay. The programs that do not touch the
verdicts or the error codes of the URLs are listed after that.
-/

namespace CaptureHPC

open Lib UrlGroup UrlGroupsController

variable {g : ℕ} {s s' s'' : UrlGroupsController}

/-- Only the group `g` and its URLs changed, and neither its URLs nor its errors. -/
structure GroupFrame (g : ℕ) (s s' : UrlGroupsController) : Prop where
  size : s'.size = s.size
  queue : s'.urlGroupQueue = s.urlGroupQueue
  history : s'.history = s.history
  others : ∀ i ≠ g, s'.group i = s.group i
  urlList : (s'.group g).urlList = (s.group g).urlList
  program : (s'.group g).clientProgram = (s.group g).clientProgram
  errorCount : (s'.group g).errorCount = (s.group g).errorCount
  started : (s.group g).visitStartTime.isSome → (s'.group g).visitStartTime.isSome
  urls : UrlsFrame (s.group g).urlList s.urls s'.urls

theorem GroupFrame.trans (h : GroupFrame g s s') (h' : GroupFrame g s' s'') : GroupFrame g s s'' where
  size := h'.size.trans h.size
  queue := h'.queue.trans h.queue
  history := h'.history.trans h.history
  others i hi := (h'.others i hi).trans (h.others i hi)
  urlList := h'.urlList.trans h.urlList
  program := h'.program.trans h.program
  errorCount := h'.errorCount.trans h.errorCount
  started := h'.started ∘ h.started
  urls := h.urls.trans (by rw [← h.urlList]; exact h'.urls)

instance : Std.Refl (GroupFrame g) :=
  ⟨fun _ => ⟨rfl, rfl, rfl, fun _ _ => rfl, rfl, rfl, rfl, fun h => h, UrlsFrame.rfl'⟩⟩

instance : IsTrans UrlGroupsController (GroupFrame g) := ⟨fun _ _ _ => GroupFrame.trans⟩

theorem frame_modifyGroup {f : UrlGroup → UrlGroup} (h1 : ∀ x, (f x).urlList = x.urlList)
    (h2 : ∀ x, (f x).clientProgram = x.clientProgram) (h3 : ∀ x, (f x).errorCount = x.errorCount)
    (h4 : ∀ x, x.visitStartTime.isSome → (f x).visitStartTime.isSome) :
    Keeps (GroupFrame g) (modifyGroup g f) := by
  refine keeps_modify fun s => ⟨rfl, rfl, rfl, fun i hi => setGroup_of_ne hi _, ?_, ?_, ?_, ?_, UrlsFrame.rfl'⟩
  all_goals rw [setGroup_self]
  · exact h1 _
  · exact h2 _
  · exact h3 _
  · exact h4 _

theorem frame_onUrls {α : Type} {m : UrlsM α} (h : Keeps (UrlsFrame (s.group g).urlList) m) :
    GroupFrame g s (final ((onUrls m).run s)) := by
  rw [onUrls, final_zoom]
  exact ⟨rfl, rfl, rfl, fun _ _ => rfl, rfl, rfl, rfl, fun h => h, h s.urls⟩

theorem frame_setMajorErrorCode (code : ℤ) : Keeps (GroupFrame g) (UrlGroup.setMajorErrorCode g code) :=
  frame_modifyGroup (fun _ => rfl) (fun _ => rfl) (fun _ => rfl) fun _ h => h

theorem frame_setVisitStartTime (sdf : SimpleDateFormat) (time : Option String) :
    Keeps (GroupFrame g) (UrlGroup.setVisitStartTime sdf g time) := by
  unfold UrlGroup.setVisitStartTime
  split
  · exact keeps_throw _
  · split
    · exact keeps_pure _
    · exact frame_modifyGroup (fun _ => rfl) (fun _ => rfl) (fun _ => rfl) fun _ _ => rfl

theorem frame_setVisitFinishTime (sdf : SimpleDateFormat) (time : Option String) :
    Keeps (GroupFrame g) (UrlGroup.setVisitFinishTime sdf g time) := by
  unfold UrlGroup.setVisitFinishTime
  split
  · exact keeps_throw _
  · split
    · exact keeps_pure _
    · exact frame_modifyGroup (fun _ => rfl) (fun _ => rfl) (fun _ => rfl) fun _ h => h

theorem frame_setAlgorithm (algorithm : Option String) : Keeps (GroupFrame g) (setAlgorithm g algorithm) :=
  frame_modifyGroup (fun _ => rfl) (fun _ => rfl) (fun _ => rfl) fun _ h => h

theorem frame_setProcessingIP (ip : Option String) : Keeps (GroupFrame g) (setProcessingIP g ip) := by
  refine keeps_bind (frame_modifyGroup (fun _ => rfl) (fun _ => rfl) (fun _ => rfl) fun _ h => h) fun _ s => ?_
  refine final_bind (refl s) fun s' t hget => ?_
  cases hget
  exact frame_onUrls (frame_forM fun _ _ => keeps_modifyUrl (by simp) fun _ => ⟨rfl, rfl, fun h => h, fun h => h⟩)

theorem frame_writeMapToLog (sdf : SimpleDateFormat) (map : UrlMap) :
    Keeps (GroupFrame g) (writeMapToLog sdf g map) := by
  refine fun s => final_bind (refl s) fun s' t hget => ?_
  cases hget
  refine frame_onUrls (frame_forM fun u _ => keeps_bind keeps_get fun _ => ?_)
  dsimp only
  split
  · exact keeps_pure _
  · split
    · exact keeps_pure _
    · exact keeps_writeEventToLog sdf (by simp) _

theorem frame_openLog : Keeps (GroupFrame g) (UrlGroup.openLog g) := by
  refine keeps_bind keeps_get fun s => ?_
  split
  · exact keeps_throw _
  · exact frame_modifyGroup (fun _ => rfl) (fun _ => rfl) (fun _ => rfl) fun _ h => h

theorem frame_writeEventToLog (sdf : SimpleDateFormat) (event : String) :
    Keeps (GroupFrame g) (UrlGroup.writeEventToLog sdf g event) := by
  refine fun s => final_bind (refl s) fun s' t hget => ?_
  cases hget
  split
  · rename_i u hu
    exact frame_onUrls (by rw [hu]; exact keeps_writeEventToLog sdf (by simp) _)
  · refine keeps_bind frame_openLog (fun _ => ?_) s
    exact frame_modifyGroup (fun _ => rfl) (fun _ => rfl) (fun _ => rfl) fun _ h => h

theorem frame_setMalicious (algorithm : Option String) (b : Bool) (map : Option UrlMap) :
    Keeps (GroupFrame g) (UrlGroup.setMalicious g algorithm b map) := by
  refine keeps_bind (frame_modifyGroup (fun _ => rfl) (fun _ => rfl) (fun _ => rfl) fun _ h => h) fun _ s => ?_
  refine final_bind (refl s) fun s' t hget => ?_
  cases hget
  cases algorithm with
  | none => exact keeps_throw _ s
  | some algorithm =>
    dsimp only
    split_ifs
    · exact frame_onUrls (frame_forM fun _ _ => keeps_setMaliciousByMap (by simp) b map)
    · exact frame_onUrls (frame_forM fun _ _ => keeps_setMalicious (by simp) false)
    · split
      · rename_i u hu
        exact frame_onUrls (by rw [hu]; exact keeps_setMalicious (by simp) true)
      · exact keeps_pure _ s

/-! ## The URLs that a message names -/

/-- `getUrl` only reads, and finds a URL of the group. -/
theorem getUrl_cases (uri : Option String) (s : UrlGroupsController) : (∃ e, (getUrl g uri).run s = .error e s) ∨
    ∃ u ∈ (s.group g).urlList, (getUrl g uri).run s = .ok u s := by
  unfold getUrl
  rw [EStateM.run_bind, EStateM.run_get]
  dsimp only
  split
  · exact .inl ⟨_, rfl⟩
  · split
    · exact .inl ⟨_, rfl⟩
    · split
      · rename_i u hu
        exact .inr ⟨u, List.mem_of_find?_eq_some hu, rfl⟩
      · exact .inl ⟨_, rfl⟩

theorem frame_getUrl_bind {α : Type} {f : ℕ → GroupsM α} (uri : Option String)
    (hf : ∀ u s, u ∈ (s.group g).urlList → GroupFrame g s (final ((f u).run s))) :
    Keeps (GroupFrame g) (getUrl g uri >>= f) := by
  intro s
  rcases getUrl_cases uri s with ⟨e, he⟩ | ⟨u, hu, hrun⟩
  · rw [run_bind_error he]
    exact refl s
  · rw [run_bind_ok hrun]
    exact hf u s hu

theorem frame_startItem (item : Element) : Keeps (GroupFrame g) (Client.startItem g item) :=
  frame_getUrl_bind _ fun _ _ hu => frame_onUrls (keeps_setVisitStartTime hu)

theorem frame_parseItem (finish : Bool) (handler : StateChangeHandler) (sdf : SimpleDateFormat) (item : Element) :
    Keeps (GroupFrame g) (Client.parseItem finish handler sdf g item) := by
  refine frame_getUrl_bind _ fun u s hu => ?_
  dsimp only
  split
  · exact keeps_throw _ s
  · refine final_bind (frame_onUrls (keeps_setVisitFinishTime hu)) fun _ t ht => ?_
    have hframe : GroupFrame g s t := by
      have := frame_onUrls (g := g) (s := s) (keeps_setVisitFinishTime hu)
      rwa [ht] at this
    refine final_bind (refl t) fun s' t' hget => ?_
    cases hget
    split
    · exact keeps_throw _ _
    · split
      · refine final_bind (frame_onUrls (keeps_setItemCodes (by rw [hframe.urlList]; exact hu) _ _)) fun _ t' _ => ?_
        exact refl t'
      · exact refl _

theorem frame_parseItems (finish : Bool) (handler : StateChangeHandler) (sdf : SimpleDateFormat)
    (items : List Element) : Keeps (GroupFrame g) (Client.parseItems finish handler sdf g items) := by
  induction items with
  | nil => exact keeps_pure _
  | cons item items ih =>
    exact keeps_bind (frame_parseItem finish handler sdf item) fun _ => keeps_bind ih fun _ => keeps_pure _

end CaptureHPC
