import CaptureHPC.Proof.UrlSteps

/-!
# What a change of a group's state does to the queue

`setUrlGroupState` notifies the controller, which has three ways to react:

* `Kept`: nothing happens to the queue.
* `Retried`: the group is back on the queue.
* `Divided`: its two halves are on the queue, as new groups.

`setUrlGroupState_cases` says that there is no other, also when it throws, and
`setUrlGroupState_ok` which one it is when it returns.
-/

namespace CaptureHPC

open Lib UrlGroup UrlGroupsController

variable {g : ℕ} {x : UrlGroup} {s s' s'' : UrlGroupsController} {L : List ℕ}

@[simp] theorem setGroup_self (g : ℕ) (x : UrlGroup) (s : UrlGroupsController) :
    (s.setGroup g x).group g = x := Function.update_self _ _ _

theorem setGroup_of_ne {i : ℕ} (h : i ≠ g) (x : UrlGroup) : (s.setGroup g x).group i = s.group i :=
  Function.update_of_ne h _ _

/-! ## Programs on the URLs of a group -/

theorem onUrls_run {α : Type} {m : UrlsM α} {a : α} {t : UrlsController} (h : m.run s.urls = .ok a t) :
    (onUrls m).run s = .ok a { s with urls := t } := run_zoom_ok h

/-- The URLs got labels: their group, its address and its number of retries. -/
def Relabeled (t t' : UrlsController) : Prop :=
  ∀ u, ∃ a b n, t'.url u = { t.url u with groupID := a, processingIP := b, retryCount := n }

instance : Std.Refl Relabeled := ⟨fun t u => ⟨(t.url u).groupID, (t.url u).processingIP, (t.url u).retryCount, rfl⟩⟩

instance : IsTrans UrlsController Relabeled where
  trans t t' t'' h h' u := by
    obtain ⟨a, b, n, hu⟩ := h u
    obtain ⟨a', b', n', hu'⟩ := h' u
    exact ⟨a', b', n', by rw [hu', hu]⟩

theorem Relabeled.same {β : Type} {f : Url → β} {t t' : UrlsController} (h : Relabeled t t')
    (hf : ∀ x a b n, f { x with groupID := a, processingIP := b, retryCount := n } = f x) : Same f t t' := by
  intro u
  obtain ⟨a, b, n, hu⟩ := h u
  rw [hu, hf]

/-- A program that only labels the URLs of a list returns. -/
theorem relabel_run (label : Url → Url)
    (h : ∀ x, ∃ a b n, label x = { x with groupID := a, processingIP := b, retryCount := n })
    (L : List ℕ) (t : UrlsController) : ∃ t', (forM L fun u => Url.modifyUrl u label).run t = .ok () t' ∧
      UrlsFrame L t t' ∧ Relabeled t t' := by
  have hlater : ∀ y : Url, y.Later (label y) := by
    intro y
    obtain ⟨a, b, n, hy⟩ := h y
    rw [hy]
    exact ⟨rfl, rfl, id, id⟩
  have hframe : Keeps (UrlsFrame L) (forM L fun u => Url.modifyUrl u label) :=
    frame_forM fun u _ => keeps_modifyUrl (by simp) hlater
  have hlabel : Keeps Relabeled (forM L fun u => Url.modifyUrl u label) := by
    refine keeps_forM fun u _ => keeps_modify fun t v => ?_
    by_cases hv : v = u
    · subst hv
      rw [setUrl_self]
      exact h _
    · rw [setUrl_of_ne hv]
      exact (refl t : Relabeled t t) v
  obtain ⟨t', ht'⟩ := forM_returns (s := t) (L := L) (P := fun _ => True)
    (fun u _ => (keeps_modifyUrl (by simp) hlater : Keeps (UrlsFrame [u]) (Url.modifyUrl u label))) (fun _ _ _ h => h)
    (fun u _ s _ => ⟨_, rfl⟩) fun _ _ => trivial
  exact ⟨t', ht', hframe.of_ok ht', hlabel.of_ok ht'⟩

/-! ## New groups -/

/-- A group as the constructor makes it from the URLs `L`. -/
structure IsNew (L : List ℕ) (t : UrlsController) (x : UrlGroup) : Prop where
  urlList : x.urlList = L
  clientProgram : x.clientProgram = (t.url (L.headD 0)).clientProgram
  errorCount : x.errorCount = 0
  malicious : x.malicious = false
  majorErrorCode : x.majorErrorCode = .ok
  algorithm : x.algorithm = some ""

/-- `new` on a nonempty list. -/
theorem new_run (hL : L ≠ []) (s : UrlGroupsController) : ∃ x t, (new L).run s =
      .ok s.size { s with urls := t, group := Function.update s.group s.size x, size := s.size + 1 } ∧
    IsNew L s.urls x ∧ UrlsFrame L s.urls t ∧ Relabeled s.urls t := by
  cases L with
  | nil => exact absurd rfl hL
  | cons u us =>
    obtain ⟨t, ht, hframe, hlabel⟩ := relabel_run (fun x =>
      { x with groupID := s.size, processingIP := none, retryCount := 0 }) (fun x => ⟨_, _, _, rfl⟩) (u :: us) s.urls
    let x : UrlGroup := { urlList := u :: us, nonempty := by simp, clientProgram := (s.urls.url u).clientProgram
                          visitTime := (s.urls.url u).visitTime }
    have hurls := onUrls_run (s := { s.setGroup s.size x with size := s.size + 1 }) ht
    exact ⟨x, t, (run_bind_ok rfl).trans ((run_bind_ok rfl).trans ((run_bind_ok hurls).trans rfl)),
      ⟨rfl, rfl, rfl, rfl, rfl, rfl⟩, hframe, hlabel⟩

/-! ## The three ways to react -/

/-- The group is `x` now; the queue is as before. -/
structure Kept (g : ℕ) (x : UrlGroup) (s s' : UrlGroupsController) : Prop where
  group : s'.group = Function.update s.group g x
  size : s'.size = s.size
  queue : s'.urlGroupQueue = s.urlGroupQueue
  history : s'.history = s.history

/-- The group is `x` now, but for its number of retries, and back on the queue. -/
structure Retried (g : ℕ) (x : UrlGroup) (s s' : UrlGroupsController) : Prop where
  group : s'.group = Function.update s.group g { x with retryCount := x.retryCount + 1 }
  size : s'.size = s.size
  queue : s'.urlGroupQueue = g :: s.urlGroupQueue
  history : s'.history = .retried g :: s.history

/-- The group is `x` now, and new groups of its halves are on the queue. -/
structure Divided (g : ℕ) (x x1 x2 : UrlGroup) (s s' : UrlGroupsController) : Prop where
  first : IsNew (x.urlList.take (x.size / 2)) s.urls x1
  second : IsNew (x.urlList.drop (x.size / 2)) s.urls x2
  group : s'.group =
    Function.update (Function.update (Function.update s.group g x) s.size x1) (s.size + 1) x2
  size : s'.size = s.size + 2
  queue : s'.urlGroupQueue = (s.size + 1) :: s.size :: s.urlGroupQueue
  history : s'.history = .split g s.size (s.size + 1) :: s.history

theorem IsNew.congr {t t' : UrlsController} (h : IsNew L t' x)
    (ht : ∀ u, (t'.url u).clientProgram = (t.url u).clientProgram) : IsNew L t x :=
  { h with clientProgram := h.clientProgram.trans (ht _) }

theorem halves_nonempty (h : 1 < x.size) : x.urlList.take (x.size / 2) ≠ [] ∧ x.urlList.drop (x.size / 2) ≠ [] := by
  have hlen : x.urlList.length = x.size := rfl
  constructor
  · intro he
    have := congrArg List.length he
    rw [List.length_take, List.length_nil] at this
    omega
  · intro he
    have := congrArg List.length he
    rw [List.length_drop, List.length_nil] at this
    omega

theorem split_run (h : 1 < (s.group g).size) : ∃ s' x1 x2, (split g).run s = .ok () s' ∧
    Divided g (s.group g) x1 x2 s s' ∧ UrlsFrame (s.group g).urlList s.urls s'.urls ∧ Relabeled s.urls s'.urls := by
  obtain ⟨h1, h2⟩ := halves_nonempty h
  obtain ⟨x1, t1, hrun1, hnew1, hframe1, hlabel1⟩ := new_run h1 s
  obtain ⟨x2, t2, hrun2, hnew2, hframe2, hlabel2⟩ := new_run h2
    (push s.size { s with urls := t1, group := Function.update s.group s.size x1, size := s.size + 1 })
  refine ⟨_, x1, x2, (run_bind_ok rfl).trans ((run_bind_ok hrun1).trans ((run_bind_ok rfl).trans
    ((run_bind_ok hrun2).trans rfl))), ⟨hnew1, hnew2.congr fun u => (hframe1.later u).program, ?_, rfl, rfl, rfl⟩, ?_,
    fun u => ?_⟩
  · rw [Function.update_eq_self]
    rfl
  · exact (hframe1.mono (List.take_subset _ _)).trans (hframe2.mono (List.drop_subset _ _))
  · exact IsTrans.trans (r := Relabeled) s.urls t1 t2 hlabel1 hlabel2 u

theorem size_of_splits (h : x.splits = true) : 1 < x.size := by
  simp only [splits, Bool.and_eq_true, decide_eq_true_eq] at h
  exact h.2

theorem algorithm_of_splits (h : x.splits = true) : x.algorithm = some "dac" := by
  simp only [splits, Bool.and_eq_true, beq_iff_eq] at h
  exact h.1.1

/-- What `splitIfMalicious` does. -/
theorem splitIfMalicious_run (g : ℕ) (s : UrlGroupsController) : ∃ s', (splitIfMalicious g).run s = .ok () s' ∧
    UrlsFrame (s.group g).urlList s.urls s'.urls ∧ Relabeled s.urls s'.urls ∧
    ((s.group g).splits = true ∧ (∃ x1 x2, Divided g (s.group g) x1 x2 s s') ∨
      (s.group g).splits = false ∧ s' = s) := by
  unfold splitIfMalicious
  rw [EStateM.run_bind, EStateM.run_get]
  dsimp only
  cases hs : (s.group g).splits with
  | true =>
    obtain ⟨s', x1, x2, hrun, hdiv, hframe, hlabel⟩ := split_run (size_of_splits hs)
    exact ⟨s', hrun, hframe, hlabel, .inl ⟨rfl, x1, x2, hdiv⟩⟩
  | false => exact ⟨s, rfl, UrlsFrame.rfl', refl _, .inr ⟨rfl, rfl⟩⟩

theorem setRetryCount_run (g n : ℕ) (s : UrlGroupsController) : ∃ t, (setRetryCount g n).run s =
      .ok () { s.setGroup g { s.group g with retryCount := n } with urls := t } ∧
    UrlsFrame (s.group g).urlList s.urls t ∧ Relabeled s.urls t := by
  obtain ⟨t, ht, hframe, hlabel⟩ := relabel_run (fun x => { x with retryCount := n })
    (fun x => ⟨x.groupID, x.processingIP, _, rfl⟩) (s.group g).urlList s.urls
  refine ⟨t, ?_, hframe, hlabel⟩
  have hlist : ((s.setGroup g { s.group g with retryCount := n }).group g).urlList = (s.group g).urlList := by
    rw [setGroup_self]
  refine (run_bind_ok rfl).trans ((run_bind_ok rfl).trans (run_zoom_ok ?_))
  rw [hlist]
  exact ht

/-- The states of a group in which `update` may split it. -/
def Ended (st : UrlGroupState) : Prop := st = .visited ∨ st = .error

/-- How the controller reacts to the group `g` that is `x` now. -/
inductive Reaction (g : ℕ) (x : UrlGroup) (s s' : UrlGroupsController) : Prop
  | kept (h : Kept g x s s')
  | retried (error : x.urlGroupState = .error) (count : x.errorCount ≤ 1) (whole : x.splits = false)
      (h : Retried g x s s')
  | divided (x1 x2 : UrlGroup) (ended : Ended x.urlGroupState) (splits : x.splits = true)
      (h : Divided g x x1 x2 s s')

theorem kept_rfl (g : ℕ) (s : UrlGroupsController) : Kept g (s.group g) s s :=
  ⟨(Function.update_eq_self g s.group).symm, rfl, rfl, rfl⟩

/-- The flag starts as true and is never cleared. -/
theorem networkReset_eq_true (urls : List Url) : networkReset urls = true := by
  have hfold : ∀ l : List Url, l.foldl (fun r x => if x.majorErrorCode = .networkError ∧
      x.minorErrorCode = 2148270085 then true else r) true = true := by
    intro l
    induction l with
    | nil => rfl
    | cons x l ih =>
      rw [List.foldl_cons, ite_self]
      exact ih
  exact hfold urls

theorem setErrorOfUrls_run (code : ErrorCode) (L : List ℕ) (t : UrlsController) :
    ∃ t', (forM L (setErrorOfUrl code)).run t = .ok () t' ∧ UrlsFrame L t t' ∧
      ∀ u ∈ L, (t'.url u).urlState = .error := by
  have hkeep : ∀ u ∈ L, Keeps (UrlsFrame [u]) (setErrorOfUrl code u) :=
    fun u _ => keeps_setErrorOfUrl (by simp) code
  obtain ⟨t', ht'⟩ := forM_returns (P := fun _ => True) hkeep (fun _ _ _ h => h)
    (fun u _ s _ => setErrorOfUrl_returns code u s) fun _ _ => trivial
  refine ⟨t', ht', (frame_forM hkeep).of_ok ht', forM_urls (Q := fun _ x => x.urlState = .error) hkeep ?_ ht'⟩
  intro u _ t1 t2 _ h
  obtain ⟨_, t3, -, h3⟩ := run_bind_eq_ok h
  exact setUrlState_ok h3

/-- A group in error is divided, else tried again if it failed once, and its URLs are in
error. -/
theorem updateError_run (he : (s.group g).urlGroupState = .error) : ∃ s', (updateError g).run s = .ok () s' ∧
    UrlsFrame (s.group g).urlList s.urls s'.urls ∧ (∀ u ∈ (s.group g).urlList, (s'.urls.url u).urlState = .error) ∧
    Reaction g (s.group g) s s' ∧ (Kept g (s.group g) s s' → (s.group g).splits = false) := by
  obtain ⟨s1, hsplit, hframe1, -, hcase⟩ := splitIfMalicious_run g s
  obtain ⟨t, ht, hframe2, herr⟩ := setErrorOfUrls_run (s.group g).majorErrorCode (s.group g).urlList s1.urls
  have hloop := onUrls_run ht
  set s2 : UrlGroupsController := { s1 with urls := t } with hs2
  have hrun : (updateError g).run s = (if (s.group g).splits = false ∧
      retries (s.group g) ((s.group g).urlList.map s2.urls.url) ∧ (s.group g).errorCount ≤ 1 then do
        setRetryCount g ((s.group g).retryCount + 1)
        modify (push g)
        modify (record (.retried g))
      else pure () : GroupsM Unit).run s2 :=
    (run_bind_ok rfl).trans ((run_bind_ok hsplit).trans ((run_bind_ok hloop).trans (run_bind_ok rfl)))
  have hretries : ∀ urls, retries (s.group g) urls = true := fun urls => by
    rw [retries, networkReset_eq_true, Bool.true_or]
  rw [hrun]
  rcases hcase with ⟨hs, x1, x2, hdiv⟩ | ⟨hs, rfl⟩
  · rw [if_neg (by rw [hs]; simp)]
    refine ⟨s2, rfl, hframe1.trans hframe2, herr,
      .divided x1 x2 (.inr he) hs ⟨hdiv.1, hdiv.2, hdiv.3, hdiv.4, hdiv.5, hdiv.6⟩, ?_⟩
    intro hk
    have h1 := hk.size
    have h2 := hdiv.size
    have h3 : s2.size = s1.size := rfl
    omega
  · by_cases hc : (s1.group g).errorCount ≤ 1
    · rw [if_pos ⟨hs, hretries _, hc⟩]
      obtain ⟨t', ht', hframe3, hlabel⟩ := setRetryCount_run g ((s1.group g).retryCount + 1) s2
      refine ⟨_, (run_bind_ok ht').trans ((run_bind_ok rfl).trans rfl), hframe2.trans hframe3, fun u hu => ?_,
        .retried he hc hs ⟨rfl, rfl, rfl, rfl⟩, fun _ => hs⟩
      exact (hlabel.same (f := Url.urlState) (fun _ _ _ _ => rfl) u).trans (herr u hu)
    · rw [if_neg fun h => hc h.2.2]
      have hk := kept_rfl g s1
      exact ⟨s2, rfl, hframe2, herr, .kept ⟨hk.1, hk.2, hk.3, hk.4⟩, fun _ => hs⟩

/-- The lists of visiting and visited groups play no part. -/
theorem Reaction.of_lists {a b : List ℕ} (h : Reaction g x { s with visitingList := a, visitedList := b } s') :
    Reaction g x s s' := by
  cases h with
  | kept h => exact .kept ⟨h.1, h.2, h.3, h.4⟩
  | retried he hc hs h => exact .retried he hc hs ⟨h.1, h.2, h.3, h.4⟩
  | divided x1 x2 he hs h => exact .divided x1 x2 he hs ⟨h.1, h.2, h.3, h.4, h.5, h.6⟩

theorem update_run (ha : (s.group g).algorithm ≠ none) : ∃ s', (update g).run s = .ok () s' ∧
    UrlsFrame (s.group g).urlList s.urls s'.urls ∧ Reaction g (s.group g) s s' ∧
    (Ended (s.group g).urlGroupState → Kept g (s.group g) s s' → (s.group g).splits = false) ∧
    ((s.group g).urlGroupState ≠ .error → Relabeled s.urls s'.urls) ∧
    ((s.group g).urlGroupState = .error → ∀ u ∈ (s.group g).urlList, (s'.urls.url u).urlState = .error) := by
  have hk := kept_rfl g s
  unfold update
  rw [EStateM.run_bind, EStateM.run_get]
  simp only [if_neg ha]
  cases hst : (s.group g).urlGroupState with
  | none | queued =>
    exact ⟨s, rfl, UrlsFrame.rfl', .kept hk, fun h => absurd h (by simp [Ended]), fun _ => refl _, nofun⟩
  | visiting =>
    exact ⟨_, rfl, UrlsFrame.rfl', .kept ⟨hk.1, hk.2, hk.3, hk.4⟩, fun h => absurd h (by simp [Ended]),
      fun _ => refl _, nofun⟩
  | visited =>
    set s1 : UrlGroupsController :=
      { s with visitingList := s.visitingList.erase g, visitedList := s.visitedList ++ [g] } with hs1
    obtain ⟨s', hrun, hframe, hlabel, hcase⟩ := splitIfMalicious_run g s1
    refine ⟨s', (run_bind_ok rfl).trans hrun, hframe, ?_, fun _ h => ?_, fun _ => hlabel, nofun⟩
    · rcases hcase with ⟨hs, x1, x2, hdiv⟩ | ⟨hs, rfl⟩
      · exact .divided x1 x2 (.inl hst) hs ⟨hdiv.1, hdiv.2, hdiv.3, hdiv.4, hdiv.5, hdiv.6⟩
      · exact .kept ⟨hk.1, hk.2, hk.3, hk.4⟩
    · rcases hcase with ⟨hs, x1, x2, hdiv⟩ | ⟨hs, -⟩
      · have h1 := h.size
        have h2 := hdiv.size
        have h3 : s1.size = s.size := rfl
        omega
      · exact hs
  | error =>
    obtain ⟨s', hrun, hframe, herr, hcase, hkept⟩ :=
      updateError_run (s := { s with visitingList := s.visitingList.erase g }) hst
    exact ⟨s', (run_bind_ok rfl).trans hrun, hframe, hcase.of_lists,
      fun _ h => hkept ⟨h.1, h.2, h.3, h.4⟩, fun h => absurd rfl h, fun _ => herr⟩

/-- A missing algorithm stops `update` before it does anything to the queue. -/
theorem update_none (ha : (s.group g).algorithm = none) : Kept g (s.group g) s (final ((update g).run s)) ∧
    (final ((update g).run s)).urls = s.urls ∧
    (Ended (s.group g).urlGroupState → ∀ s', (update g).run s ≠ .ok () s') := by
  have hk := kept_rfl g s
  unfold update
  rw [EStateM.run_bind, EStateM.run_get]
  dsimp only
  cases hst : (s.group g).urlGroupState with
  | none | queued => exact ⟨hk, rfl, fun h => absurd h (by simp [Ended])⟩
  | visiting => exact ⟨⟨hk.1, hk.2, hk.3, hk.4⟩, rfl, fun h => absurd h (by simp [Ended])⟩
  | visited | error =>
    simp only [if_pos ha]
    exact ⟨⟨hk.1, hk.2, hk.3, hk.4⟩, rfl, fun _ _ h => by cases h⟩

/-! ## `setUrlGroupState` -/

/-- The group with its new state. -/
def UrlGroup.withState (st : UrlGroupState) (x : UrlGroup) : UrlGroup :=
  { x with urlGroupState := st, errorCount := if st = .error then x.errorCount + 1 else x.errorCount }

theorem splits_withState (st : UrlGroupState) (x : UrlGroup) : (x.withState st).splits = x.splits := rfl

/-- The loop of `setUrlGroupState` over the URLs. -/
def setStateOfUrls (g : ℕ) (st : UrlGroupState) (s : UrlGroupsController) : UrlsM Unit :=
  forM (s.group g).urlList (setStateOfUrl st (s.group g).majorErrorCode)

theorem setUrlGroupState_eq (g : ℕ) (st : UrlGroupState) (s : UrlGroupsController) :
    (setUrlGroupState g st).run s = (onUrls (setStateOfUrls g st s) >>= fun _ => update g).run
      (s.setGroup g ((s.group g).withState st)) := by
  have hloop : setStateOfUrls g st (s.setGroup g ((s.group g).withState st)) = setStateOfUrls g st s := by
    rw [setStateOfUrls, setStateOfUrls, setGroup_self]
    rfl
  rw [← hloop]
  exact (run_bind_ok rfl).trans (run_bind_ok rfl)

theorem keeps_setStateOfUrls (g : ℕ) (st : UrlGroupState) (s : UrlGroupsController) :
    Keeps (UrlsFrame (s.group g).urlList) (setStateOfUrls g st s) :=
  frame_forM fun _ _ => keeps_setStateOfUrl (by simp) _ _

theorem Reaction.of_setGroup {t : UrlsController} (h : Reaction g x { s.setGroup g x with urls := t } s')
    (ht : ∀ u, (s.urls.url u).Later (t.url u)) : Reaction g x s s' := by
  have hup : ∀ y, Function.update (Function.update s.group g x) g y = Function.update s.group g y :=
    fun y => Function.update_idem _ _ _
  cases h with
  | kept h => exact .kept ⟨h.group.trans (hup _), h.2, h.3, h.4⟩
  | retried he hc hs h => exact .retried he hc hs ⟨h.group.trans (hup _), h.2, h.3, h.4⟩
  | divided x1 x2 he hs h =>
    refine .divided x1 x2 he hs ⟨h.1.congr fun u => (ht u).program, h.2.congr fun u => (ht u).program, ?_, h.4, h.5, h.6⟩
    rw [← hup x]
    exact h.group

/-- **What a change of state does to the queue, however it ends.** -/
theorem setUrlGroupState_cases (g : ℕ) (st : UrlGroupState) (s : UrlGroupsController) :
    Reaction g ((s.group g).withState st) s (final ((setUrlGroupState g st).run s)) ∧
      UrlsFrame (s.group g).urlList s.urls (final ((setUrlGroupState g st).run s)).urls := by
  set x := (s.group g).withState st with hx
  have hkeep := keeps_setStateOfUrls g st s s.urls
  rw [setUrlGroupState_eq]
  cases hloop : (setStateOfUrls g st s).run s.urls with
  | error e t =>
    rw [hloop] at hkeep
    have hrun : (onUrls (setStateOfUrls g st s)).run (s.setGroup g x) = .error e { s.setGroup g x with urls := t } :=
      run_zoom_error hloop
    rw [run_bind_error hrun]
    exact ⟨.kept ⟨rfl, rfl, rfl, rfl⟩, hkeep⟩
  | ok a t =>
    rw [hloop] at hkeep
    set s1 : UrlGroupsController := { s.setGroup g x with urls := t } with hs1
    have hrun : (onUrls (setStateOfUrls g st s)).run (s.setGroup g x) = .ok a s1 := onUrls_run hloop
    have hself : s1.group g = x := setGroup_self g x s
    have hlist : x.urlList = (s.group g).urlList := rfl
    rw [run_bind_ok hrun]
    by_cases ha : (s1.group g).algorithm = none
    · obtain ⟨hk, hu, -⟩ := update_none ha
      rw [hself] at hk
      refine ⟨Reaction.of_setGroup (.kept hk) fun u => hkeep.later u, ?_⟩
      rw [hu]
      exact hkeep
    · obtain ⟨s', hs', hframe, hr, -⟩ := update_run ha
      rw [hself] at hr hframe
      rw [hs']
      exact ⟨hr.of_setGroup fun u => hkeep.later u, hkeep.trans hframe⟩

/-- A URL of a group can go to the group's new state. -/
def GroupReady (st : UrlGroupState) (x : Url) : Prop :=
  (st = .visiting → x.visitStartTime.isSome) ∧
    (st = .visited → x.visitStartTime.isSome ∧ x.visitFinishTime.isSome)

theorem setStateOfUrl_returns {st : UrlGroupState} (code : ErrorCode) {u : ℕ} {t : UrlsController}
    (h : GroupReady st (t.url u)) : ∃ t', (setStateOfUrl st code u).run t = .ok () t' := by
  cases st with
  | none | queued => exact ⟨t, rfl⟩
  | visiting => exact setUrlState_returns ⟨fun _ => h.1 rfl, nofun⟩
  | visited =>
    obtain ⟨t', ht'⟩ := setUrlState_returns (s := t) (u := u)
      (show Ready (if (t.url u).majorErrorCode = .ok then .visited else .error) (t.url u) from
        ⟨fun hv => by split_ifs at hv, fun _ => h.2 rfl⟩)
    exact ⟨t', (run_bind_ok rfl).trans ht'⟩
  | error =>
    have hcode : ∃ t1, (inheritCode code u).run t = .ok () t1 := by
      unfold inheritCode
      rw [EStateM.run_bind, EStateM.run_get]
      dsimp only
      split <;> exact ⟨_, rfl⟩
    obtain ⟨t1, h1⟩ := hcode
    obtain ⟨t2, h2⟩ := setUrlState_returns (s := t1) (u := u) (show Ready .error _ from ⟨nofun, nofun⟩)
    exact ⟨t2, (run_bind_ok h1).trans h2⟩

/-- **A change of state returns** when the group has an algorithm and its URLs are ready. -/
theorem setUrlGroupState_returns {st : UrlGroupState} (ha : (s.group g).algorithm ≠ none)
    (hr : ∀ u ∈ (s.group g).urlList, GroupReady st (s.urls.url u)) :
    ∃ s', (setUrlGroupState g st).run s = .ok () s' := by
  obtain ⟨t, ht⟩ := forM_returns (s := s.urls) (P := GroupReady st)
    (fun u _ => keeps_setStateOfUrl (L := [u]) (by simp) st (s.group g).majorErrorCode)
    (fun x y hxy h => ⟨fun e => hxy.started (h.1 e), fun e => ⟨hxy.started (h.2 e).1, hxy.finished (h.2 e).2⟩⟩)
    (fun u _ t h => setStateOfUrl_returns _ h) hr
  have hloop := onUrls_run (s := s.setGroup g ((s.group g).withState st)) ht
  obtain ⟨s', hs', -⟩ := update_run (g := g)
    (s := { s.setGroup g ((s.group g).withState st) with urls := t }) (by
      show ((s.setGroup g _).group g).algorithm ≠ none
      rw [setGroup_self]
      exact ha)
  refine ⟨s', ?_⟩
  rw [setUrlGroupState_eq]
  exact (run_bind_ok hloop).trans hs'

/-- **A change to VISITED or ERROR that returns**: the loop over the URLs returned, and a
group that splits was split. -/
theorem setUrlGroupState_ok {st : UrlGroupState} (he : Ended st) (h : (setUrlGroupState g st).run s = .ok () s') :
    ∃ t, (setStateOfUrls g st s).run s.urls = .ok () t ∧
      (Kept g ((s.group g).withState st) s s' → (s.group g).splits = false) ∧
      (st ≠ .error → Relabeled t s'.urls) ∧
      (st = .error → ∀ u ∈ (s.group g).urlList, (s'.urls.url u).urlState = .error) := by
  rw [setUrlGroupState_eq] at h
  obtain ⟨_, s1, h1, h2⟩ := run_bind_eq_ok h
  obtain ⟨t, ht, rfl⟩ := run_zoom_eq_ok h1
  have hself : ((s.setGroup g ((s.group g).withState st)).group g) = (s.group g).withState st := setGroup_self _ _ _
  set s1 : UrlGroupsController := { s.setGroup g ((s.group g).withState st) with urls := t } with hs1
  have hgroup : s1.group g = (s.group g).withState st := hself
  have hst : (s1.group g).urlGroupState = st := by rw [hgroup]; rfl
  have ha : (s1.group g).algorithm ≠ none := by
    intro ha
    exact (update_none ha).2.2 (by rw [hst]; exact he) s' h2
  obtain ⟨s2, hs2, -, -, hkept, hlabel, herr⟩ := update_run ha
  rw [h2] at hs2
  cases hs2
  refine ⟨t, ht, fun hk => ?_, fun hne => hlabel (by rw [hst]; exact hne), fun e => ?_⟩
  · have hk1 : Kept g (s1.group g) s1 s' := by
      refine ⟨?_, hk.size, hk.queue, hk.history⟩
      rw [hk.group, hgroup]
      show _ = Function.update (Function.update s.group g _) g _
      rw [Function.update_idem]
    have := hkept (by rw [hst]; exact he) hk1
    rwa [hgroup, splits_withState] at this
  · have := herr (by rw [hst]; exact e)
    rwa [hgroup] at this

/-- After VISITED, a URL is VISITED if it has no error code. -/
theorem setStateOfUrls_visited {t' : UrlsController} (h : (setStateOfUrls g .visited s).run s.urls = .ok () t') :
    ∀ u ∈ (s.group g).urlList,
      (t'.url u).urlState = if (t'.url u).majorErrorCode = .ok then .visited else .error := by
  refine forM_urls (Q := fun _ x => x.urlState = if x.majorErrorCode = .ok then .visited else .error)
    (fun _ _ => keeps_setStateOfUrl (by simp) _ _) ?_ h
  intro u _ t t' _ h
  have hrun : (Url.setUrlState u (if (t.url u).majorErrorCode = .ok then .visited else .error)).run t = .ok () t' := h
  have hcode := (same_setUrlState (f := Url.majorErrorCode) (fun _ _ => rfl) (fun _ _ => rfl) u _).of_ok hrun u
  rw [setUrlState_ok hrun, hcode]

theorem same_setStateOfUrls {β : Type} {f : Url → β} (hf : ∀ x b, f { x with logFile := b } = f x)
    (hst : ∀ x st, f { x with urlState := st } = f x) {st : UrlGroupState} (he : st ≠ .error) (g : ℕ)
    (s : UrlGroupsController) : Keeps (Same f) (setStateOfUrls g st s) := by
  refine keeps_forM fun u _ => ?_
  unfold setStateOfUrl
  split
  · exact same_setUrlState hf hst u _
  · exact keeps_bind keeps_get fun s => same_setUrlState hf hst u _
  · exact absurd rfl he
  · exact keeps_pure _

/-- **What VISITED does when it returns**: the verdicts and error codes stay, and decide the
states of the URLs. -/
theorem visited_ok (h : (setUrlGroupState g .visited).run s = .ok () s') :
    (∀ u ∈ (s.group g).urlList,
      (s'.urls.url u).urlState = if (s.urls.url u).majorErrorCode = .ok then .visited else .error) ∧
    Same Url.malicious s.urls s'.urls ∧ Same Url.majorErrorCode s.urls s'.urls ∧
    (Kept g ((s.group g).withState .visited) s s' → (s.group g).splits = false) := by
  obtain ⟨t, ht, hkept, hlabel, -⟩ := setUrlGroupState_ok (.inl rfl) h
  have hlabel := hlabel (by decide)
  have hmal := (same_setStateOfUrls (f := Url.malicious) (fun _ _ => rfl) (fun _ _ => rfl) (by decide) g s).of_ok ht
  have hcode :=
    (same_setStateOfUrls (f := Url.majorErrorCode) (fun _ _ => rfl) (fun _ _ => rfl) (by decide) g s).of_ok ht
  refine ⟨fun u hu => ?_, fun u => ?_, fun u => ?_, hkept⟩
  · rw [hlabel.same (f := Url.urlState) (fun _ _ _ _ => rfl) u, setStateOfUrls_visited ht u hu, hcode u]
  · rw [hlabel.same (f := Url.malicious) (fun _ _ _ _ => rfl) u, hmal u]
  · rw [hlabel.same (f := Url.majorErrorCode) (fun _ _ _ _ => rfl) u, hcode u]

/-- VISITED splits a group that is to be split. -/
theorem visited_divided (hs : (s.group g).splits = true) (h : (setUrlGroupState g .visited).run s = .ok () s') :
    ∃ x1 x2, Divided g ((s.group g).withState .visited) x1 x2 s s' := by
  have hcase := (setUrlGroupState_cases g .visited s).1
  rw [h] at hcase
  cases hcase with
  | kept hk =>
    rw [(visited_ok h).2.2.2 hk] at hs
    cases hs
  | retried he => cases he
  | divided x1 x2 _ _ hdiv => exact ⟨x1, x2, hdiv⟩

/-- VISITED leaves the queue alone for a group that is not to be split. -/
theorem visited_kept (hs : (s.group g).splits = false) (h : (setUrlGroupState g .visited).run s = .ok () s') :
    Kept g ((s.group g).withState .visited) s s' := by
  have hcase := (setUrlGroupState_cases g .visited s).1
  rw [h] at hcase
  cases hcase with
  | kept hk => exact hk
  | retried he => cases he
  | divided x1 x2 _ hsplits _ =>
    rw [splits_withState, hs] at hsplits
    cases hsplits

/-- VISITED keeps the verdict of the group. -/
theorem visited_malicious (hlt : g < s.size) (h : (setUrlGroupState g .visited).run s = .ok () s') :
    (s'.group g).malicious = (s.group g).malicious := by
  cases hs : (s.group g).splits with
  | false =>
    rw [(visited_kept hs h).group, Function.update_self]
    rfl
  | true =>
    obtain ⟨x1, x2, hdiv⟩ := visited_divided hs h
    rw [hdiv.group, Function.update_of_ne (by omega), Function.update_of_ne (by omega), Function.update_self]
    rfl

end CaptureHPC
