import CaptureHPC.Proof.GroupSteps

/-!
# Taking a group

What `takeUrl` and `takeUrlGroup` do. Whichever URL comes first, the URLs polled and those
left in the queue are together the queue before; a group is popped from the stack or made
of polled URLs (`TakeRun`).
-/

namespace CaptureHPC

open Lib UrlGroup UrlGroupsController

variable {s s' : UrlGroupsController} {t t' : UrlsController}

namespace UrlsController

/-- The queue is replaced. -/
def withQueue (q : List ℕ) (t : UrlsController) : UrlsController := { t with urlQueue := q }

theorem takeUrl_some {pick u : ℕ} (h : t.takeUrl pick = some (u, t')) :
    t' = t.withQueue t'.urlQueue ∧ t.urlQueue.Perm (u :: t'.urlQueue) := by
  unfold takeUrl at h
  cases hget : t.urlQueue[pick % t.urlQueue.length]? with
  | none =>
    rw [hget] at h
    cases h
  | some v =>
    rw [hget] at h
    cases h
    obtain ⟨hlt, hv⟩ := List.getElem?_eq_some_iff.1 hget
    refine ⟨rfl, ?_⟩
    rw [← hv]
    exact (List.getElem_cons_eraseIdx_perm hlt).symm

end UrlsController

open UrlsController

/-- **Polled URLs** leave the queue, and nothing else changes. -/
theorem takeUrls_perm (picks : ℕ → ℕ) (n : ℕ) (t : UrlsController) :
    (takeUrls picks n t).2 = t.withQueue (takeUrls picks n t).2.urlQueue ∧
      t.urlQueue.Perm ((takeUrls picks n t).1 ++ (takeUrls picks n t).2.urlQueue) := by
  induction n generalizing t with
  | zero => exact ⟨rfl, List.Perm.refl _⟩
  | succ n ih =>
    rw [takeUrls]
    cases htake : t.takeUrl (picks n) with
    | none => exact ih t
    | some p =>
      obtain ⟨u, t1⟩ := p
      obtain ⟨h1, hperm1⟩ := takeUrl_some htake
      obtain ⟨h2, hperm2⟩ := ih t1
      refine ⟨h2.trans ?_, hperm1.trans (hperm2.cons u)⟩
      rw [h1]
      rfl

/-- The URLs that `takeUrlGroup` polls, and the rest. -/
def polled (groupSize : ℤ) (picks : ℕ → ℕ) (t : UrlsController) : List ℕ × UrlsController :=
  takeUrls picks (initialUrlGroupSize groupSize t.urlQueue.length).toNat t

theorem polled_url (groupSize : ℤ) (picks : ℕ → ℕ) (t : UrlsController) :
    (polled groupSize picks t).2.url = t.url := by
  rw [polled, (takeUrls_perm picks _ t).1]
  rfl

/-- **What `takeUrlGroup` does** for the client `c`. -/
inductive TakeRun (groupSize : ℤ) (picks : ℕ → ℕ) (c : ℕ) (s : UrlGroupsController) :
    Option ℕ → UrlGroupsController → Prop
  | popped {g : ℕ} {rest : List ℕ} (queue : s.urlGroupQueue = g :: rest) : TakeRun groupSize picks c s (some g)
      { s with urlGroupQueue := rest, history := .taken c g :: s.history }
  | idle (queue : s.urlGroupQueue = []) (nil : (polled groupSize picks s.urls).1 = []) :
      TakeRun groupSize picks c s none { s with urls := (polled groupSize picks s.urls).2 }
  | fresh {x : UrlGroup} {t : UrlsController} (queue : s.urlGroupQueue = [])
      (new : IsNew (polled groupSize picks s.urls).1 s.urls x)
      (frame : UrlsFrame (polled groupSize picks s.urls).1 (polled groupSize picks s.urls).2 t)
      (labels : Relabeled (polled groupSize picks s.urls).2 t) :
      TakeRun groupSize picks c s (some s.size)
        { s with urls := t, group := Function.update s.group s.size x, size := s.size + 1,
                 history := .taken c s.size :: s.history }

theorem takeUrlGroup_cases (groupSize : ℤ) (picks : ℕ → ℕ) (c : ℕ) (s : UrlGroupsController) :
    ∃ r s', (takeUrlGroup groupSize picks c).run s = .ok r s' ∧ TakeRun groupSize picks c s r s' := by
  unfold takeUrlGroup
  rw [EStateM.run_bind, EStateM.run_get]
  dsimp only
  split
  · rename_i g rest hq
    exact ⟨_, _, rfl, .popped hq⟩
  · rename_i hq
    change ∃ r s', (set { s with urls := (polled groupSize picks s.urls).2 } >>= fun _ =>
      if (polled groupSize picks s.urls).1 = [] then pure none
      else do
        let g ← UrlGroup.new (polled groupSize picks s.urls).1
        modify (record (.taken c g))
        pure (some g)).run s = .ok r s' ∧ TakeRun groupSize picks c s r s'
    split_ifs with hnil
    · exact ⟨_, _, rfl, .idle hq hnil⟩
    · obtain ⟨x, t, hrun, hnew, hframe, hlabel⟩ := new_run hnil { s with urls := (polled groupSize picks s.urls).2 }
      exact ⟨_, _, (run_bind_ok rfl).trans ((run_bind_ok hrun).trans rfl),
        .fresh hq (hnew.congr fun u => by rw [polled_url]) hframe hlabel⟩

theorem takeUrlGroup_ok {groupSize : ℤ} {picks : ℕ → ℕ} {c : ℕ} {r : Option ℕ}
    (h : (takeUrlGroup groupSize picks c).run s = .ok r s') : TakeRun groupSize picks c s r s' := by
  obtain ⟨r1, s1, hrun, htake⟩ := takeUrlGroup_cases groupSize picks c s
  rw [h] at hrun
  cases hrun
  exact htake

/-- With an empty stack and a URL to poll, a new group is taken. -/
theorem takeUrlGroup_fresh {groupSize : ℤ} {picks : ℕ → ℕ} (hq : s.urlGroupQueue = [])
    (hne : (polled groupSize picks s.urls).1 ≠ []) (c : ℕ) :
    ∃ s', (takeUrlGroup groupSize picks c).run s = .ok (some s.size) s' := by
  obtain ⟨r, s', hrun, htake⟩ := takeUrlGroup_cases groupSize picks c s
  cases htake with
  | popped hq' =>
    rw [hq] at hq'
    cases hq'
  | idle _ hnil => exact absurd hnil hne
  | fresh => exact ⟨_, hrun⟩

end CaptureHPC
