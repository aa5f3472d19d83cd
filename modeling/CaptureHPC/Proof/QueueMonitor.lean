import CaptureHPC.Spec.QueueMonitor

/-!
# The server ends when work is done

* `visitingList` has a group once for each start that `update` has handled and not yet undone at an end (`Known`). So
  no client has a group under way when the monitor exits, if the starts of all groups under way were handled before
  the second check and no group has been taken since (`Quiet`).
* Otherwise the run can go on so that it exits while a client has one: the visits of the groups in `visitingList` end
  (`leaves`), other clients take what is in the two queues (`TakeCalls.drained`), and the monitor finds all empty.
-/

namespace CaptureHPC

open Lib

namespace TakeCalls

section drained

variable {groupSize : ℤ} {s t : TakeCalls}

/-- Only calls of `takeUrlGroup` take steps. -/
def Takes (_ : TakeCalls) : TakeStep → Prop
  | .call | .next .. => True
  | _ => False

/-- A new call pops the first group. -/
theorem popOne {g : ℕ} {rest : List ℕ} (h : s.urlGroupQueue = g :: rest) :
    ∃ t, Reaches (step groupSize) Takes s t ∧ t.urlGroupQueue = rest := by
  obtain ⟨groups, urls, calls, pushed, added⟩ := s
  obtain rfl : groups = g :: rest := h
  have hcall : Reaches (step groupSize) Takes ⟨g :: rest, urls, calls, pushed, added⟩
      ⟨g :: rest, urls, calls ++ [.started], pushed, added⟩ :=
    .one (show Takes _ .call from trivial) rfl
  have hsee : Reaches (step groupSize) Takes ⟨g :: rest, urls, calls, pushed, added⟩
      ⟨g :: rest, urls, calls ++ [.popping], pushed, added⟩ :=
    hcall.next (show Takes _ (.next calls.length 0) from trivial) (by simp [step, next, setCall])
  have hpop : Reaches (step groupSize) Takes ⟨g :: rest, urls, calls, pushed, added⟩
      ⟨rest, urls, calls ++ [.returned (some (.popped g))], pushed, added⟩ :=
    hsee.next (show Takes _ (.next calls.length 0) from trivial) (by simp [step, next, setCall])
  exact ⟨_, hpop, rfl⟩

/-- A new call sees that no group is queued. -/
theorem sizes (urls : List ℕ) (calls : List TakeCall) (pushed : List ℕ) (added : ℕ) :
    Reaches (step groupSize) Takes ⟨[], urls, calls, pushed, added⟩ ⟨[], urls, calls ++ [.sizing], pushed, added⟩ := by
  have hcall : Reaches (step groupSize) Takes ⟨[], urls, calls, pushed, added⟩
      ⟨[], urls, calls ++ [.started], pushed, added⟩ :=
    .one (show Takes _ .call from trivial) rfl
  exact hcall.next (show Takes _ (.next calls.length 0) from trivial) (by simp [step, next, setCall])

/-- It is about to fill a group. -/
theorem fills (hgroup : 0 ≤ groupSize) (urls : List ℕ) (calls : List TakeCall) (pushed : List ℕ) (added : ℕ) :
    ∃ left, Reaches (step groupSize) Takes ⟨[], urls, calls, pushed, added⟩
      ⟨[], urls, calls ++ [.filling (left + 1) []], pushed, added⟩ := by
  have hleft : ∀ size : ℤ, 0 ≤ size → ∃ left : ℕ, fill size = .filling (left + 1) [] := by
    intro size hsize
    have hpos : 0 < (if size = 0 then 1 else size) := by split_ifs <;> omega
    refine ⟨(if size = 0 then 1 else size).toNat - 1, ?_⟩
    rw [fill]
    congr
    omega
  -- fewer URLs than the group size: the size of the queue is read once more
  by_cases hless : (urls.length : ℤ) < groupSize
  · obtain ⟨left, hfill⟩ := hleft urls.length (Int.natCast_nonneg _)
    have hresize : Reaches (step groupSize) Takes ⟨[], urls, calls, pushed, added⟩
        ⟨[], urls, calls ++ [.resizing], pushed, added⟩ :=
      (sizes urls calls pushed added).next (show Takes _ (.next calls.length 0) from trivial)
        (by simp [step, next, setCall, hless])
    exact ⟨left, hresize.next (show Takes _ (.next calls.length 0) from trivial) (by simp [step, next, setCall, hfill])⟩
  · obtain ⟨left, hfill⟩ := hleft groupSize hgroup
    exact ⟨left, (sizes urls calls pushed added).next (show Takes _ (.next calls.length 0) from trivial)
      (by simp [step, next, setCall, hless, hfill])⟩

/-- A new call takes the first URL. -/
theorem takeOne {u : ℕ} {rest : List ℕ} (hgroup : 0 ≤ groupSize) (hgroups : s.urlGroupQueue = [])
    (h : s.urlQueue = u :: rest) :
    ∃ t, Reaches (step groupSize) Takes s t ∧ t.urlGroupQueue = [] ∧ t.urlQueue = rest := by
  obtain ⟨groups, urls, calls, pushed, added⟩ := s
  obtain rfl : groups = [] := hgroups
  obtain rfl : urls = u :: rest := h
  obtain ⟨left, hfill⟩ := fills hgroup (u :: rest) calls pushed added
  have hlook : Reaches (step groupSize) Takes ⟨[], u :: rest, calls, pushed, added⟩
      ⟨[], u :: rest, calls ++ [.taking left []], pushed, added⟩ :=
    hfill.next (show Takes _ (.next calls.length 0) from trivial) (by simp [step, next, setCall])
  have htake : Reaches (step groupSize) Takes ⟨[], u :: rest, calls, pushed, added⟩
      ⟨[], rest, calls ++ [.filling left [u]], pushed, added⟩ :=
    hlook.next (show Takes _ (.next calls.length 0) from trivial) (by simp [step, next, setCall])
  exact ⟨_, htake, rfl, rfl⟩

/-- **New calls empty the two queues.** -/
theorem drained (hgroup : 0 ≤ groupSize) (s : TakeCalls) :
    ∃ t, Reaches (step groupSize) Takes s t ∧ t.urlGroupQueue = [] ∧ t.urlQueue = [] := by
  -- each new call pops one group
  obtain ⟨t, ht, hgroups⟩ : ∃ t, Reaches (step groupSize) Takes s t ∧ t.urlGroupQueue = [] := by
    induction hq : s.urlGroupQueue generalizing s with
    | nil => exact ⟨s, .start, hq⟩
    | cons g rest ih =>
      have hpop : ∃ t, Reaches (step groupSize) Takes s t ∧ t.urlGroupQueue = rest := popOne hq
      obtain ⟨t, ht, hrest⟩ := hpop
      obtain ⟨u, hu, hnil⟩ := ih t hrest
      exact ⟨u, ht.trans hu, hnil⟩
  -- then no group is left, and each new call takes one URL
  suffices hurls : ∃ u, Reaches (step groupSize) Takes t u ∧ u.urlGroupQueue = [] ∧ u.urlQueue = [] by
    obtain ⟨u, hu, hnil⟩ := hurls
    exact ⟨u, ht.trans hu, hnil⟩
  clear ht
  induction hq : t.urlQueue generalizing t with
  | nil => exact ⟨t, .start, hgroups, hq⟩
  | cons x rest ih =>
    obtain ⟨u, hu, hgroups', hrest⟩ := takeOne hgroup hgroups hq
    obtain ⟨v, hv, hnil⟩ := ih u hgroups' hrest
    exact ⟨v, hu.trans hv, hnil⟩

end drained

end TakeCalls

namespace TakeCalls

variable {groupSize : ℤ} {s s' : TakeCalls}

theorem group?_setCall_of_ne {i j : ℕ} (h : i ≠ j) (c : TakeCall) : (s.setCall j c).group? i = s.group? i := by
  simp [group?, setCall, List.getElem?_set_ne h.symm]

/-- A call that has returned takes no step. -/
theorem next_of_returned {i pick : ℕ} (h : s.group? i ≠ none) : s.next groupSize i pick = none := by
  unfold group? at h
  unfold next
  split at h
  · rename_i urlGroup hcall
    simp [hcall]
  · exact absurd rfl h

/-- What a call has returned stays. -/
theorem group?_keeps {a : TakeStep} {i : ℕ} (h : s.group? i ≠ none) (hstep : s.step groupSize a = some s') :
    s'.group? i = s.group? i := by
  cases a with
  | push g =>
    obtain rfl := Option.some.inj hstep
    rfl
  | addUrl =>
    obtain rfl := Option.some.inj hstep
    rfl
  | call =>
    obtain rfl := Option.some.inj hstep
    have hlt : i < s.calls.length := by
      by_contra hge
      exact h (by simp [group?, List.getElem?_eq_none (Nat.le_of_not_lt hge)])
    simp [group?, List.getElem?_append_left hlt]
  | next j pick =>
    -- the call has returned, so it is another one that goes on
    have hne : i ≠ j := by
      rintro rfl
      exact nomatch (next_of_returned h).symm.trans hstep
    have hset : ∃ t c, s' = setCall t j c ∧ t.calls = s.calls := by
      simp only [TakeCalls.step, next] at hstep
      split at hstep
      case h_2 => split at hstep <;> exact ⟨_, _, (Option.some.inj hstep).symm, rfl⟩
      case h_7 =>
        split at hstep
        · exact ⟨_, _, (Option.some.inj hstep).symm, rfl⟩
        · exact nomatch hstep
      all_goals first
        | exact ⟨_, _, (Option.some.inj hstep).symm, rfl⟩
        | exact nomatch hstep
    obtain ⟨t, c, rfl, hcalls⟩ := hset
    rw [group?_setCall_of_ne hne]
    simp only [group?, hcalls]

end TakeCalls

namespace QueueMonitor

variable {groupSize : ℤ} {s s' : QueueMonitor} {a : QueueStep}

/-- The client of this call has a group that was taken and has not yet been VISITED or gone to ERROR. -/
def Held (s : QueueMonitor) (i g : ℕ) : Prop := s.holds i = some g ∧ s.underway g = true

/-- The monitor exits only when no client has such a group. -/
def Safe (s : QueueMonitor) : Prop := s.monitor = .exited → ∀ i g, ¬ s.Held i g

/-- The second check has found `visitingList` empty. -/
def closing (s : QueueMonitor) : Bool := s.monitor ∈ [.groups true, .urls true, .exited]

/-- When the second check reads `visitingList`, the start of each such group has been handled, more often than an end. No
call returns a group from there to the exit. -/
def Settled (groupSize : ℤ) (s : QueueMonitor) : QueueStep → Prop
  | .monitor => s.monitor = .visiting true → ∀ i g, s.Held i g → 0 < s.entries g
  | .next i pick => s.closing = true → ∀ takes, s.takes.next groupSize i pick = some takes → takes.group? i = none
  | _ => True

def Quiet (s : QueueMonitor) : Prop := s.closing = true → ∀ i g, ¬ s.Held i g

/-- `visitingList` is what `update` has made of it, and its groups were returned by calls. -/
structure Known (s : QueueMonitor) : Prop where
  entries : ∀ g, s.entries g = s.visitingList.count g
  holder : ∀ g ∈ s.visitingList, ∃ i, s.holds i = some g
  updating : ∀ t g, s.update t = .notified g ∨ s.update t = .adding g → ∃ i, s.holds i = some g
  calls : ∀ i, s.holds i ≠ none → s.takes.group? i ≠ none

theorem Quiet.safe (h : s.Quiet) : s.Safe := fun hexited => h (by rw [closing, hexited]; rfl)

section known

theorem Known.start : Known {} where
  entries _ := rfl
  holder _ h := nomatch h
  updating _ _ h := h.elim (fun h => nomatch h) fun h => nomatch h
  calls _ h := absurd rfl h

/-- The lists and the calls of `update` stay, and what the calls of `takeUrlGroup` have returned. -/
theorem Known.congr (h : s.Known) (hentries : s'.entries = s.entries) (hlist : s'.visitingList = s.visitingList)
    (hupdate : s'.update = s.update) (hholds : s'.holds = s.holds)
    (hreturned : ∀ i, s.takes.group? i ≠ none → s'.takes.group? i ≠ none) : s'.Known where
  entries g := by rw [hentries, hlist, h.entries]
  holder g hg := by
    rw [hlist] at hg
    rw [hholds]
    exact h.holder g hg
  updating t g hg := by
    rw [hupdate] at hg
    rw [hholds]
    exact h.updating t g hg
  calls i hi := hreturned i (h.calls i (hholds ▸ hi))

/-- A thread goes on, and does not come to a group that no client has. -/
theorem Known.setUpdate {t : ℕ} {c : UpdateCall} (h : s.Known)
    (hc : ∀ g, c = .notified g ∨ c = .adding g → ∃ i, s.holds i = some g) : (s.setUpdate t c).Known where
  entries := h.entries
  holder := h.holder
  calls := h.calls
  updating t' g hg := by
    by_cases ht : t' = t
    · subst ht
      have hself : (s.setUpdate t' c).update t' = c := Function.update_self ..
      rw [hself] at hg
      exact hc g hg
    · have hsame : (s.setUpdate t c).update t' = s.update t' := Function.update_of_ne ht ..
      rw [hsame] at hg
      exact h.updating t' g hg

theorem Known.add {g : ℕ} (h : s.Known) (hg : ∃ i, s.holds i = some g) :
    Known { s with entries := Function.update s.entries g (s.entries g + 1), visitingList := s.visitingList ++ [g] } where
  updating := h.updating
  calls := h.calls
  entries g' := by
    show Function.update s.entries g (s.entries g + 1) g' = (s.visitingList ++ [g]).count g'
    rw [List.count_append]
    by_cases hgg : g' = g
    · rw [hgg, Function.update_self, h.entries, List.count_singleton_self]
    · rw [Function.update_of_ne hgg, h.entries, List.count_singleton, if_neg (by simpa using Ne.symm hgg), Nat.add_zero]
  holder g' hg' := by
    rcases List.mem_append.1 hg' with hold | hnew
    · exact h.holder g' hold
    · obtain rfl := List.mem_singleton.1 hnew
      exact hg

theorem Known.remove (g : ℕ) (h : s.Known) :
    Known { s with entries := Function.update s.entries g (s.entries g - 1), visitingList := s.visitingList.erase g } where
  updating := h.updating
  calls := h.calls
  holder g' hg' := h.holder g' (List.mem_of_mem_erase hg')
  entries g' := by
    show Function.update s.entries g (s.entries g - 1) g' = (s.visitingList.erase g).count g'
    by_cases hgg : g' = g
    · rw [hgg, Function.update_self, h.entries, List.count_erase_self]
    · rw [Function.update_of_ne hgg, h.entries, List.count_erase_of_ne hgg]

theorem Known.hold {i g : ℕ} (h : s.Known) (hfree : s.holds i = none) (hreturned : s.takes.group? i ≠ none) :
    (s.hold i g).Known := by
  have hkeeps : ∀ j g', s.holds j = some g' → (s.hold i g).holds j = some g' := by
    intro j g' hj
    have hne : j ≠ i := by
      rintro rfl
      exact nomatch hfree.symm.trans hj
    exact (Function.update_of_ne hne ..).trans hj
  refine ⟨h.entries, fun g' hg' => ?_, fun t g' hg' => ?_, fun j hj => ?_⟩
  · obtain ⟨j, hj⟩ := h.holder g' hg'
    exact ⟨j, hkeeps j g' hj⟩
  · obtain ⟨j, hj⟩ := h.updating t g' hg'
    exact ⟨j, hkeeps j g' hj⟩
  · by_cases hji : j = i
    · subst hji
      exact hreturned
    · have hsame : (s.hold i g).holds j = s.holds j := Function.update_of_ne hji ..
      exact h.calls j (hsame ▸ hj)

theorem Known.returned (i : ℕ) (h : s.Known) (hfree : s.holds i = none) : (s.returned i).Known := by
  unfold QueueMonitor.returned
  split
  · rename_i g hgroup
    exact h.hold hfree (by rw [hgroup]; simp)
  · rename_i urlList hgroup
    exact (h.hold (g := s.nGroups) hfree (by rw [hgroup]; simp)).congr rfl rfl rfl rfl fun _ => id
  · exact h

theorem Known.updateNext {t : ℕ} {requeue : Requeue} (h : s.Known) (hstep : s.updateNext groupSize t requeue = some s') :
    s'.Known := by
  unfold QueueMonitor.updateNext at hstep
  split at hstep
  · exact nomatch hstep
  · rename_i g hcall
    obtain rfl := Option.some.inj hstep
    refine h.setUpdate fun g' hg' => ?_
    split at hg'
    · rcases hg' with hg' | hg'
      · exact nomatch hg'
      · obtain rfl := UpdateCall.adding.inj hg'
        exact h.updating t _ (.inl hcall)
    all_goals exact hg'.elim (fun h => nomatch h) fun h => nomatch h
  · rename_i g hcall
    obtain rfl := Option.some.inj hstep
    exact (h.add (h.updating t g (.inr hcall))).setUpdate fun g' hg' => hg'.elim (fun h => nomatch h) fun h => nomatch h
  · rename_i g error hcall
    have hremoved := h.remove g
    dsimp only at hstep
    split at hstep
    · obtain rfl := Option.some.inj hstep
      exact hremoved.setUpdate fun g' hg' => hg'.elim (fun h => nomatch h) fun h => nomatch h
    · obtain rfl := Option.some.inj hstep
      refine Known.setUpdate (hremoved.congr rfl rfl rfl rfl fun _ => id) fun g' hg' => ?_
      exact hg'.elim (fun h => nomatch h) fun h => nomatch h
    · split_ifs at hstep
      obtain rfl := Option.some.inj hstep
      exact hremoved.setUpdate fun g' hg' => hg'.elim (fun h => nomatch h) fun h => nomatch h
  · obtain rfl := Option.some.inj hstep
    exact h.setUpdate fun g' hg' => hg'.elim (fun h => nomatch h) fun h => nomatch h
  · obtain rfl := Option.some.inj hstep
    refine Known.setUpdate (h.congr rfl rfl rfl rfl fun _ => id) fun g' hg' => ?_
    exact hg'.elim (fun h => nomatch h) fun h => nomatch h

/-- **One step.** -/
theorem Known.step (h : s.Known) (hstep : s.step groupSize a = some s') : s'.Known := by
  unfold QueueMonitor.step at hstep
  split_ifs at hstep with hexited
  cases a with
  | addUrl =>
    obtain ⟨takes, htakes, rfl⟩ := Option.map_eq_some_iff.1 hstep
    exact h.congr rfl rfl rfl rfl fun i hi => by rwa [TakeCalls.group?_keeps hi htakes]
  | call =>
    obtain ⟨takes, htakes, rfl⟩ := Option.map_eq_some_iff.1 hstep
    exact h.congr rfl rfl rfl rfl fun i hi => by rwa [TakeCalls.group?_keeps hi htakes]
  | next i pick =>
    obtain ⟨takes, htakes, rfl⟩ := Option.map_eq_some_iff.1 hstep
    have hfree : s.holds i = none := by
      by_contra hheld
      have hnone : s.takes.next groupSize i pick = none := TakeCalls.next_of_returned (h.calls i hheld)
      exact nomatch hnone.symm.trans htakes
    have htaken : Known { s with takes := takes } :=
      h.congr rfl rfl rfl rfl fun j hj => by rwa [TakeCalls.group?_keeps hj htakes]
    exact htaken.returned i hfree
  | setUrlGroupState t i newState =>
    dsimp only at hstep
    split at hstep
    · rename_i g hcall hholds
      obtain rfl := Option.some.inj hstep
      refine Known.setUpdate (h.congr rfl rfl rfl rfl fun _ => id) fun g' hg' => ?_
      rcases hg' with hg' | hg'
      · obtain rfl := UpdateCall.notified.inj hg'
        exact ⟨i, hholds⟩
      · exact nomatch hg'
    · exact nomatch hstep
  | update t requeue => exact h.updateNext hstep
  | throw t =>
    obtain rfl := Option.some.inj hstep
    exact h.setUpdate fun g' hg' => hg'.elim (fun h => nomatch h) fun h => nomatch h
  | monitor =>
    obtain rfl := Option.some.inj hstep
    exact h.congr rfl rfl rfl rfl fun _ => id

theorem Known.reaches {ok : QueueMonitor → QueueStep → Prop} (h : s.Known)
    (hrun : Reaches (QueueMonitor.step groupSize) ok s s') :
    s'.Known := hrun.invariant h fun _ _ _ hs _ hstep => hs.step hstep

end known

section quiet

theorem Quiet.start : Quiet {} := fun h => nomatch h

theorem Quiet.mono (h : s.Quiet) (hmonitor : s'.monitor = s.monitor) (hholds : s'.holds = s.holds)
    (hunderway : ∀ g, s'.underway g = true → s.underway g = true) : s'.Quiet := by
  intro hclosing i g hheld
  rw [closing, hmonitor] at hclosing
  exact h hclosing i g ⟨hholds ▸ hheld.1, hunderway g hheld.2⟩

theorem updateNext_same {t : ℕ} {requeue : Requeue} (h : s.updateNext groupSize t requeue = some s') :
    s'.monitor = s.monitor ∧ s'.holds = s.holds ∧ s'.underway = s.underway := by
  unfold updateNext at h
  split at h
  · exact nomatch h
  · obtain rfl := Option.some.inj h
    exact ⟨rfl, rfl, rfl⟩
  · obtain rfl := Option.some.inj h
    exact ⟨rfl, rfl, rfl⟩
  · dsimp only at h
    split at h
    · obtain rfl := Option.some.inj h
      exact ⟨rfl, rfl, rfl⟩
    · obtain rfl := Option.some.inj h
      exact ⟨rfl, rfl, rfl⟩
    · split_ifs at h
      obtain rfl := Option.some.inj h
      exact ⟨rfl, rfl, rfl⟩
  · obtain rfl := Option.some.inj h
    exact ⟨rfl, rfl, rfl⟩
  · obtain rfl := Option.some.inj h
    exact ⟨rfl, rfl, rfl⟩

theorem returned_of_none {i : ℕ} (h : s.takes.group? i = none) : s.returned i = s := by
  unfold returned
  rw [h]

/-- A call that returns a group gives it to its client. -/
theorem returned_held {i : ℕ} {g : TakenGroup} (h : s.takes.group? i = some g) : ∃ g, (s.returned i).Held i g := by
  unfold returned
  rw [h]
  cases g with
  | popped g => exact ⟨g, Function.update_self .., Function.update_self ..⟩
  | made urlList => exact ⟨s.nGroups, Function.update_self .., Function.update_self ..⟩

theorem returned_same (s : QueueMonitor) (i : ℕ) :
    (s.returned i).monitor = s.monitor ∧ (s.returned i).takes = s.takes ∧
      (s.returned i).visitingList = s.visitingList := by
  unfold returned
  split <;> exact ⟨rfl, rfl, rfl⟩

/-- The monitor comes to the second half of the second check by its reading of `visitingList` only. -/
theorem closing_monitorNext (h : ({ s with monitor := s.monitorNext } : QueueMonitor).closing = true) :
    s.closing = true ∨ s.monitor = .visiting true ∧ s.visitingList = [] := by
  cases hm : s.monitor with
  | visiting second =>
    cases second <;> simp [closing, monitorNext, hm] at h ⊢
    · split_ifs at h <;> simp at h
    · by_contra hne
      simp [hne] at h
  | groups second =>
    cases second <;> simp [closing, monitorNext, hm] at h ⊢
    split_ifs at h <;> simp at h
  | urls second =>
    cases second <;> simp [closing, monitorNext, hm] at h ⊢
    split_ifs at h <;> simp at h
  | _ => simp [closing, monitorNext, hm] at h ⊢

/-- **One step.** -/
theorem Quiet.step (h : s.Quiet) (hknown : s.Known) (hok : s.Settled groupSize a)
    (hstep : s.step groupSize a = some s') : s'.Quiet := by
  unfold QueueMonitor.step at hstep
  split_ifs at hstep with hexited
  cases a with
  | addUrl =>
    obtain rfl := Option.some.inj hstep
    exact h.mono rfl rfl fun _ => id
  | call =>
    obtain rfl := Option.some.inj hstep
    exact h.mono rfl rfl fun _ => id
  | next i pick =>
    obtain ⟨takes, htakes, rfl⟩ := Option.map_eq_some_iff.1 hstep
    intro hclosing
    have hmonitor := (returned_same { s with takes := takes } i).1
    have hclosing' : s.closing = true := by
      rw [closing, hmonitor] at hclosing
      exact hclosing
    rw [returned_of_none (hok hclosing' takes htakes)]
    exact h hclosing'
  | setUrlGroupState t i newState =>
    dsimp only at hstep
    split at hstep
    · rename_i g hcall hholds
      obtain rfl := Option.some.inj hstep
      refine h.mono rfl rfl fun g' hg' => ?_
      simp only [setUrlGroupState, setUpdate] at hg'
      split_ifs at hg' with hends
      · by_cases hgg : g' = g
        · rw [hgg, Function.update_self] at hg'
          exact nomatch hg'
        · rwa [Function.update_of_ne hgg] at hg'
      · exact hg'
    · exact nomatch hstep
  | update t requeue =>
    obtain ⟨hmonitor, hholds, hunderway⟩ := updateNext_same hstep
    exact h.mono hmonitor hholds fun g hg => hunderway ▸ hg
  | throw t =>
    obtain rfl := Option.some.inj hstep
    exact h.mono rfl rfl fun _ => id
  | monitor =>
    obtain rfl := Option.some.inj hstep
    intro hclosing
    rcases closing_monitorNext hclosing with hbefore | ⟨hmonitor, hempty⟩
    · exact h hbefore
    · -- a group whose start was handled is in the list
      intro i g hheld
      have hentered := hok hmonitor i g hheld
      rw [hknown.entries, hempty] at hentered
      exact Nat.lt_irrefl 0 hentered

end quiet

section exactness

/-- The run can go on to an exit while a client has a group under way. -/
def CanFail (groupSize : ℤ) (s : QueueMonitor) : Prop := ∃ t, Reaches (step groupSize) anyStep s t ∧ ¬ t.Safe

/-- A run of the calls alone is one beside the monitor, and clients that have groups under way keep them. -/
theorem lift_takes {takes : TakeCalls} (hexited : s.monitor ≠ .exited) (hheld : ∃ i g, s.Held i g)
    (h : Reaches (TakeCalls.step groupSize) TakeCalls.Takes s.takes takes) :
    ∃ t, Reaches (step groupSize) anyStep s t ∧ t.takes = takes ∧ t.monitor = s.monitor ∧
      t.visitingList = s.visitingList ∧ ∃ i g, t.Held i g := by
  induction h with
  | start => exact ⟨s, .start, rfl, rfl, rfl, hheld⟩
  | @next u u' a _ hok hstep ih =>
    obtain ⟨t, ht, rfl, hmonitor, hlist, hheld⟩ := ih
    have hrun : t.monitor ≠ .exited := hmonitor ▸ hexited
    cases a with
    | push g => exact hok.elim
    | addUrl => exact hok.elim
    | call =>
      refine ⟨{ t with takes := u' }, ht.next (a := .call) trivial ?_, rfl, hmonitor, hlist, hheld⟩
      simp only [step, if_neg hrun, hstep, Option.map_some]
    | next i pick =>
      obtain ⟨hmonitor', htakes', hlist'⟩ := returned_same { t with takes := u' } i
      refine ⟨{ t with takes := u' }.returned i, ht.next (a := .next i pick) trivial ?_, htakes',
        hmonitor'.trans hmonitor, hlist'.trans hlist, ?_⟩
      · simp only [step, if_neg hrun, hstep, Option.map_some]
      · cases hgroup : u'.group? i with
        | none =>
          rw [returned_of_none hgroup]
          exact hheld
        | some g => exact ⟨i, returned_held hgroup⟩

/-- The visit of the first group of the list ends, and the other groups stay as they are. -/
theorem leaves (groupSize : ℤ) {i g : ℕ} {rest : List ℕ} (hexited : s.monitor ≠ .exited) (hlist : s.visitingList = g :: rest)
    (hholds : s.holds i = some g) :
    ∃ t, Reaches (step groupSize) anyStep s t ∧ t.visitingList = rest ∧ t.monitor = s.monitor ∧ t.holds = s.holds ∧
      ∀ g', g' ≠ g → t.underway g' = s.underway g' := by
  obtain ⟨takes, holds, nGroups, state, list, update, monitor, underway, entries⟩ := s
  obtain rfl : list = g :: rest := hlist
  have hfree : Reaches (step groupSize) anyStep _ _ :=
    .one (a := .throw 0) trivial (if_neg hexited)
  have hset := hfree.next (a := .setUrlGroupState 0 i .visited) trivial
    (by simp [step, hexited, setUpdate, setUrlGroupState, hholds]; rfl)
  have hnotified := hset.next (a := .update 0 .nothing) trivial (by simp [step, hexited, updateNext, setUpdate]; rfl)
  have hremoved := hnotified.next (a := .update 0 .nothing) trivial (by simp [step, hexited, updateNext, setUpdate]; rfl)
  exact ⟨_, hremoved, rfl, rfl, rfl, fun g' hg' => Function.update_of_ne hg' ..⟩

/-- The visits of all groups in the list end, but a group that is not in it stays under way. -/
theorem leave (groupSize : ℤ) {i g : ℕ} (hknown : s.Known) (hexited : s.monitor ≠ .exited) (hheld : s.Held i g)
    (hg : g ∉ s.visitingList) :
    ∃ t, Reaches (step groupSize) anyStep s t ∧ t.visitingList = [] ∧ t.monitor = s.monitor ∧ t.Held i g := by
  induction hlist : s.visitingList generalizing s with
  | nil => exact ⟨s, .start, hlist, rfl, hheld⟩
  | cons g' rest ih =>
    rw [hlist, List.mem_cons, not_or] at hg
    obtain ⟨j, hj⟩ := hknown.holder g' (hlist ▸ List.mem_cons_self)
    obtain ⟨t, ht, hrest, hmonitor, hholds, hunderway⟩ := leaves groupSize hexited hlist hj
    have hheld' : t.Held i g := ⟨hholds ▸ hheld.1, (hunderway g hg.1).trans hheld.2⟩
    obtain ⟨u, hu, hempty, hmonitor', hheld⟩ :=
      ih (hknown.reaches ht) (hmonitor ▸ hexited) hheld' (hrest ▸ hg.2) hrest
    exact ⟨u, ht.trans hu, hempty, hmonitor'.trans hmonitor, hheld⟩

/-- How many lines come before the exit when all is empty. -/
def linesLeft : MonitorThread → ℕ
  | .sleeping => 8
  | .visiting false => 7
  | .groups false => 6
  | .urls false => 5
  | .waiting => 4
  | .visiting true => 3
  | .groups true => 2
  | .urls true => 1
  | .exited => 0

/-- The monitor finds the two queues empty, and the list, which it does not read at the end of the second check. -/
theorem exits (hlist : s.closing = false → s.visitingList = []) (hgroups : s.takes.urlGroupQueue = [])
    (hurls : s.takes.urlQueue = []) : Reaches (step groupSize) anyStep s { s with monitor := .exited } := by
  -- on how many lines the monitor has still to pass
  induction hn : linesLeft s.monitor generalizing s with
  | zero =>
    have hexited : s.monitor = .exited := by
      cases hm : s.monitor with
      | exited => rfl
      | sleeping | waiting => simp [hm, linesLeft] at hn
      | visiting second | groups second | urls second => cases second <;> simp [hm, linesLeft] at hn
    rw [← hexited]
    exact .start
  | succ n ih =>
    have hexited : s.monitor ≠ .exited := by
      intro hm
      simp [hm, linesLeft] at hn
    have hstep : s.step groupSize .monitor = some { s with monitor := s.monitorNext } := if_neg hexited
    have hnext : linesLeft s.monitorNext = n ∧
        (({ s with monitor := s.monitorNext } : QueueMonitor).closing = false → s.closing = false) := by
      cases hm : s.monitor with
      | exited => exact absurd hm hexited
      | sleeping | waiting => simp_all [linesLeft, monitorNext, closing]
      | visiting second | groups second | urls second => cases second <;> simp_all [linesLeft, monitorNext, closing]
    exact (Reaches.one (a := .monitor) trivial hstep).trans
      (ih (s := { s with monitor := s.monitorNext }) (fun hopen => hlist (hnext.2 hopen)) hgroups hurls hnext.1)

/-- A client has a group under way once the second check has read `visitingList`: the other clients take all that is
queued. -/
theorem canFail_of_held (hgroup : 0 ≤ groupSize) (hexited : s.monitor ≠ .exited)
    (hlist : s.closing = false → s.visitingList = []) (hheld : ∃ i g, s.Held i g) : CanFail groupSize s := by
  obtain ⟨takes, htakes, hgroups, hurls⟩ := TakeCalls.drained hgroup s.takes
  obtain ⟨t, ht, rfl, hmonitor, hlist', i, g, hheld⟩ := lift_takes hexited hheld htakes
  have hopen : t.closing = false → t.visitingList = [] := by
    rw [closing, hmonitor, hlist']
    exact hlist
  exact ⟨_, ht.trans (exits hopen hgroups hurls), fun hsafe => hsafe rfl i g hheld⟩

theorem canFail_of_not_settled (hgroup : 0 ≤ groupSize) (hknown : s.Known) (hok : ¬ s.Settled groupSize a)
    (hstep : s.step groupSize a = some s') : CanFail groupSize s' := by
  have hknown' : s'.Known := hknown.step hstep
  unfold step at hstep
  split_ifs at hstep with hexited
  match a with
  | .monitor =>
    simp only [Settled, not_forall] at hok
    obtain ⟨hmonitor, i, g, hheld, hentries⟩ := hok
    obtain rfl := Option.some.inj hstep
    -- the group is not in the list, so the visits of all groups in it can end
    have hg : g ∉ s.visitingList := by
      rw [hknown.entries] at hentries
      exact List.count_eq_zero.1 (Nat.eq_zero_of_not_pos hentries)
    have hrun : s.monitorNext ≠ .exited := by
      simp only [monitorNext, hmonitor]
      split_ifs <;> simp
    obtain ⟨t, ht, hempty, hmonitor', hheld⟩ :=
      leave groupSize (s := { s with monitor := s.monitorNext }) hknown' hrun hheld hg
    obtain ⟨u, hu, hfails⟩ := canFail_of_held hgroup (hmonitor' ▸ hrun) (fun _ => hempty) ⟨i, g, hheld⟩
    exact ⟨u, ht.trans hu, hfails⟩
  | .next i pick =>
    simp only [Settled, not_forall] at hok
    obtain ⟨hclosing, takes, htakes, hreturned⟩ := hok
    have hstep' : some ({ s with takes := takes }.returned i) = some s' := by
      rw [← hstep]
      simp only [TakeCalls.step, htakes, Option.map_some]
    obtain rfl := Option.some.inj hstep'
    obtain ⟨g, hgroup?⟩ := Option.ne_none_iff_exists'.1 hreturned
    have hmonitor := (returned_same { s with takes := takes } i).1
    -- the list is not read any more, so only the queues must become empty
    refine canFail_of_held hgroup (by rw [hmonitor]; exact hexited) (fun hopen => ?_) ⟨i, returned_held hgroup?⟩
    rw [closing, hmonitor] at hopen
    exact nomatch hopen.symm.trans hclosing
  | .addUrl => exact absurd trivial hok
  | .call => exact absurd trivial hok
  | .setUrlGroupState t i newState => exact absurd trivial hok
  | .update t requeue => exact absurd trivial hok
  | .throw t => exact absurd trivial hok

end exactness

/-- A client takes the only URL and gives no answer. -/
def unanswered : List QueueStep := [.addUrl, .call] ++ List.replicate 5 (.next 0 0)

/-- A client has taken the only URL that was added. -/
def taken (monitor : MonitorThread) : QueueMonitor where
  takes := { calls := [.returned (some (.made [0]))], added := 1 }
  holds := Function.update (fun _ => none) 0 (some 0)
  nGroups := 1
  underway := Function.update (fun _ => false) 0 true
  monitor := monitor

/-- The start of its visit has been handled. -/
def started (monitor : MonitorThread) : QueueMonitor :=
  { taken monitor with
    urlGroupState := Function.update (fun _ => .none) 0 .visiting
    visitingList := [0]
    update := Function.update (Function.update (Function.update (fun _ => .outside) 0 (.notified 0)) 0 (.adding 0)) 0
      .outside
    entries := Function.update (fun _ => 0) 0 1 }

/-- So has the end. -/
def ended (monitor : MonitorThread) : QueueMonitor :=
  { started monitor with
    urlGroupState := Function.update (started monitor).urlGroupState 0 .visited
    visitingList := []
    update := Function.update (Function.update (Function.update (started monitor).update 0 (.notified 0)) 0
      (.removing 0 false)) 0 .outside
    underway := Function.update (started monitor).underway 0 false
    entries := Function.update (started monitor).entries 0 0 }

end QueueMonitor

end CaptureHPC
