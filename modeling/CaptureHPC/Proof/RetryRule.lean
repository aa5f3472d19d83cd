import CaptureHPC.Proof.Retry

/-!
# Which errors are retried

A group in error is put back for the errors that `update` lists. Its flag for a network reset starts as
true, so it is put back for the others as well.

* `setError_retries`: a group in error that is whole and failed for the first time is put back.
* `putsBackListed_iff`: so that is right if and only if its error is a listed one.
-/

namespace CaptureHPC

open Lib UrlGroup UrlGroupsController

variable {g : ℕ} {s : UrlGroupsController}

/-- The errors that are to be retried: three of the group, and one that the client reports for a URL. -/
def Listed (x : UrlGroup) (url : ℕ → Url) : Prop :=
  x.majorErrorCode ∈ [ErrorCode.vmStalled, .captureClientInactivity, .captureClientConnectionReset] ∨
    ∃ u ∈ x.urlList, (url u).majorErrorCode = .networkError ∧ (url u).minorErrorCode = 2148270085

instance (x : UrlGroup) (url : ℕ → Url) : Decidable (Listed x url) := inferInstanceAs (Decidable (_ ∨ _))

/-- When the group goes to ERROR, it is put back exactly for a listed error. -/
def PutsBackListed (g : ℕ) (s : UrlGroupsController) : Prop :=
  (final ((setUrlGroupState g .error).run s)).urlGroupQueue = g :: s.urlGroupQueue ↔ Listed (s.group g) s.urls.url

theorem updateError_retries (hs : (s.group g).splits = false) (hcount : (s.group g).errorCount ≤ 1) :
    ∃ s', (updateError g).run s = .ok () s' ∧ Retried g (s.group g) s s' := by
  obtain ⟨s1, hsplit, -, -, hcase⟩ := splitIfMalicious_run g s
  rcases hcase with ⟨htrue, -⟩ | ⟨-, rfl⟩
  · rw [hs] at htrue
    cases htrue
  obtain ⟨t, ht, -⟩ := setErrorOfUrls_run (s1.group g).majorErrorCode (s1.group g).urlList s1.urls
  have hloop := onUrls_run ht
  have hretries : ∀ urls, retries (s1.group g) urls = true := fun urls => by
    rw [retries, networkReset_eq_true, Bool.true_or]
  set s2 : UrlGroupsController := { s1 with urls := t }
  have hrun : (updateError g).run s1 = (if (s1.group g).splits = false ∧
      retries (s1.group g) ((s1.group g).urlList.map s2.urls.url) ∧ (s1.group g).errorCount ≤ 1 then do
        setRetryCount g ((s1.group g).retryCount + 1)
        modify (push g)
        modify (record (.retried g))
      else pure () : GroupsM Unit).run s2 :=
    (run_bind_ok rfl).trans ((run_bind_ok hsplit).trans ((run_bind_ok hloop).trans (run_bind_ok rfl)))
  obtain ⟨t', ht', -⟩ := setRetryCount_run g ((s1.group g).retryCount + 1) s2
  rw [hrun, if_pos ⟨hs, hretries _, hcount⟩]
  exact ⟨_, (run_bind_ok ht').trans ((run_bind_ok rfl).trans rfl), ⟨rfl, rfl, rfl, rfl⟩⟩

theorem update_error (he : (s.group g).urlGroupState = .error) (ha : (s.group g).algorithm ≠ none) :
    (update g).run s = (updateError g).run { s with visitingList := s.visitingList.erase g } := by
  unfold update
  rw [EStateM.run_bind, EStateM.run_get]
  simp only [he, if_neg ha]
  exact run_bind_ok rfl

/-- The URLs of the group go to ERROR. -/
theorem setStateOfUrls_error (g : ℕ) (s : UrlGroupsController) :
    ∃ t, (setStateOfUrls g .error s).run s.urls = .ok () t := by
  refine forM_returns (P := GroupReady .error) (fun u _ => keeps_setStateOfUrl (L := [u]) (by simp) _ _)
    (fun _ _ _ _ => ⟨nofun, nofun⟩) (fun u _ t h => setStateOfUrl_returns _ h) fun u _ => ⟨nofun, nofun⟩

/-- **A group that is whole and failed for the first time is put back, whatever its error is.** -/
theorem setError_retries (ha : (s.group g).algorithm ≠ none) (hs : (s.group g).splits = false)
    (hcount : (s.group g).errorCount = 0) :
    (final ((setUrlGroupState g .error).run s)).urlGroupQueue = g :: s.urlGroupQueue := by
  obtain ⟨t, ht⟩ := setStateOfUrls_error g s
  have hloop := onUrls_run (s := s.setGroup g ((s.group g).withState .error)) ht
  set s1 : UrlGroupsController := { s.setGroup g ((s.group g).withState .error) with urls := t }
  have hgroup : s1.group g = (s.group g).withState .error := setGroup_self _ _ _
  have hfirst : (s1.group g).errorCount ≤ 1 := by
    rw [hgroup]
    show (s.group g).errorCount + 1 ≤ 1
    omega
  obtain ⟨s', hs', hretried⟩ := updateError_retries (s := { s1 with visitingList := s1.visitingList.erase g }) (g := g)
    (by show (s1.group g).splits = false; rw [hgroup]; exact hs) hfirst
  rw [setUrlGroupState_eq, run_bind_ok hloop, update_error (by rw [hgroup]; rfl) (by rw [hgroup]; exact ha), hs']
  exact hretried.queue

/-- Without an algorithm the controller does not come to it. -/
theorem setError_none (ha : (s.group g).algorithm = none) :
    (final ((setUrlGroupState g .error).run s)).urlGroupQueue = s.urlGroupQueue := by
  obtain ⟨t, ht⟩ := setStateOfUrls_error g s
  have hloop := onUrls_run (s := s.setGroup g ((s.group g).withState .error)) ht
  have hself : (s.setGroup g ((s.group g).withState .error)).group g = (s.group g).withState .error := setGroup_self _ _ _
  have hkept := (update_none (g := g) (s := { s.setGroup g ((s.group g).withState .error) with urls := t })
    (by show ((s.setGroup g _).group g).algorithm = none; rw [hself]; exact ha)).1
  rw [setUrlGroupState_eq, run_bind_ok hloop]
  exact hkept.queue

/-- **Putting the group back is right if and only if its error is a listed one**, where its visit has an
algorithm. -/
theorem putsBackListed_iff (hs : (s.group g).splits = false) (hcount : (s.group g).errorCount = 0) :
    PutsBackListed g s ↔ (Listed (s.group g) s.urls.url ↔ (s.group g).algorithm.isSome) := by
  unfold PutsBackListed
  cases ha : (s.group g).algorithm with
  | none =>
    rw [setError_none ha]
    simp
  | some algorithm =>
    rw [setError_retries (by rw [ha]; simp) hs hcount]
    simp

/-- The machine of a first visit stalls: the group is put back, and rightly. -/
theorem vmStalled_putsBack : ∃ w, World.runs oneUrl .utc {} firstVisit = some w ∧
    (w.groups.group 0).urlGroupState = .visiting ∧ (w.groups.urls.url 0).urlState = .visiting ∧
    PutsBackListed 0 (w.groups.setGroup 0 { w.groups.group 0 with majorErrorCode := .vmStalled }) :=
  ⟨_, World.runs_reached (by decide +kernel), by decide +kernel, by decide +kernel,
    (putsBackListed_iff (by decide +kernel) (by decide +kernel)).2 (by decide +kernel)⟩

/-- The client reports an error of its process, which is no listed one, and nothing for the URL. -/
def failedVisit : List Event :=
  firstVisit ++ [.message 0 (visitEvent "error" "seq" "0" "268435729" [visitItem "http://a.b/" "10" ""])]

/-- **An error that is not listed is put back.** -/
theorem processError_retried : ∃ w w', World.runs oneUrl .utc {} firstVisit = some w ∧
    World.runs oneUrl .utc {} failedVisit = some w' ∧
    (w.groups.group 0).errorCount = 0 ∧ (w'.groups.group 0).errorCount = 1 ∧
    (w'.groups.group 0).urlGroupState = .error ∧ (w'.groups.group 0).splits = false ∧
    (w'.groups.group 0).majorErrorCode = .processError ∧ ¬Listed (w'.groups.group 0) w.groups.urls.url ∧
    w.groups.urlGroupQueue = [] ∧ w'.groups.urlGroupQueue = [0] :=
  ⟨_, _, World.runs_reached (by decide +kernel), World.runs_reached (by decide +kernel), by decide +kernel,
    by decide +kernel, by decide +kernel, by decide +kernel, by decide +kernel, by decide +kernel,
    by decide +kernel, by decide +kernel⟩

end CaptureHPC
