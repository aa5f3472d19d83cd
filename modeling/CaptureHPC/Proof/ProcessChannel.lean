import CaptureHPC.Spec.ProcessChannel

/-!
# Wake-ups of the process monitor

Each time the monitor's thread wakes it takes one event. So the queue is empty whenever it is
blocked and no callback runs, if no more events are queued than callbacks have still to set
the event, and one more while the thread has woken (`Covered`). A set that wakes nobody is
what can break this (`no_lost_wakeup`).
-/

namespace CaptureHPC.Driver.ProcessManager

open Lib

variable {Packet : Type} {s s' : ProcessManager Packet} {a : ProcessStep Packet}

/-- The callbacks that have still to set the event. -/
def pending (s : ProcessManager Packet) : ℕ := s.callbacks.countP (· ≠ .set)

/-- The thread has woken, and has not yet taken its event. -/
def due (s : ProcessManager Packet) : ℕ := if s.monitor = .woken ∨ s.monitor = .removing then 1 else 0

def Covered (s : ProcessManager Packet) : Prop := s.lQueuedProcessEvents.length ≤ s.pending + s.due

/-- A callback's set that does not wake the thread leaves no event behind: fewer events are queued than
callbacks have still to set the event (this one included), or just as many and the thread has woken. -/
def Noticed (s : ProcessManager Packet) : ProcessStep Packet → Prop
  | .callback i => s.callbacks[i]? = some .counted →
    s.monitor = .blocked ∨ s.lQueuedProcessEvents.length < s.pending + s.due
  | _ => True

instance (s : ProcessManager Packet) (a : ProcessStep Packet) : Decidable (s.Noticed a) :=
  match a with
  | .callback i => inferInstanceAs (Decidable (s.callbacks[i]? = some .counted →
      s.monitor = .blocked ∨ s.lQueuedProcessEvents.length < s.pending + s.due))
  | .insertTail _ | .waitForSingleObject | .request => .isTrue trivial

theorem Covered.start : Covered ({} : ProcessManager Packet) := Nat.zero_le _

/-- How `pending` changes with one callback. -/
theorem pending_set {p q : CallbackPoint} {i : ℕ} (h : s.callbacks[i]? = some p) :
    (s.callbacks.set i q).countP (· ≠ .set) + (decide (p ≠ .set)).toNat = s.pending + (decide (q ≠ .set)).toNat :=
  countP_set_add (fun p => decide (p ≠ .set)) h q

theorem pending_erase {i : ℕ} (h : s.callbacks[i]? = some .set) :
    (s.callbacks.eraseIdx i).countP (· ≠ .set) = s.pending := by
  obtain ⟨hi, hp⟩ := List.getElem?_eq_some_iff.1 h
  have hperm := (List.getElem_cons_eraseIdx_perm hi).countP_eq (· ≠ .set)
  rw [hp] at hperm
  exact hperm

theorem due_le : s.due ≤ 1 := by
  unfold due
  split_ifs <;> omega

/-- A callback's next statement. -/
theorem Covered.callback {i : ℕ} (h : s.Covered) (hok : s.Noticed (.callback i)) (hstep : s.callback i = some s') :
    s'.Covered := by
  unfold ProcessManager.callback at hstep
  split at hstep
  · exact nomatch hstep
  · rename_i hi
    obtain rfl := Option.some.inj hstep
    have hpending := pending_set (q := .counted) hi
    exact Nat.le_trans h (Nat.add_le_add_right (Nat.le_of_eq (Nat.add_right_cancel hpending).symm) _)
  · rename_i hi
    obtain rfl := Option.some.inj hstep
    have hpending := pending_set (q := .set) hi
    simp only [ne_eq, reduceCtorEq, not_false_eq_true, not_true_eq_false, decide_true, decide_false, Bool.toNat_true,
      Bool.toNat_false] at hpending
    show s.lQueuedProcessEvents.length ≤ (s.callbacks.set i .set).countP (· ≠ .set) + due s.keSetEvent
    rcases hok hi with hblocked | hlt
    · -- the thread wakes
      have hdue : s.keSetEvent.due = 1 := by simp [due, keSetEvent, hblocked]
      have hdue' : s.due = 0 := by simp [due, hblocked]
      unfold Covered at h
      simp only [ne_eq]
      omega
    · have hdue : s.due ≤ s.keSetEvent.due := by
        unfold due keSetEvent
        dsimp only
        split_ifs <;> simp_all
      simp only [ne_eq]
      omega
  · rename_i hi
    obtain rfl := Option.some.inj hstep
    exact Nat.le_trans h (Nat.add_le_add_right (Nat.le_of_eq (pending_erase hi).symm) _)

/-- The next statement of a request. -/
theorem Covered.request (h : s.Covered) (hstep : s.request = some s') : s'.Covered := by
  unfold ProcessManager.request at hstep
  unfold Covered due at h
  split at hstep
  · rename_i hm
    obtain rfl := Option.some.inj hstep
    rw [if_pos (.inl hm)] at h
    split_ifs with hnil
    · rw [List.isEmpty_iff] at hnil
      show s.lQueuedProcessEvents.length ≤ _
      rw [hnil]
      exact Nat.zero_le _
    · exact h
  · rename_i hm
    rw [if_pos (.inr hm)] at h
    split at hstep
    · exact nomatch hstep
    · rename_i rest hq
      obtain rfl := Option.some.inj hstep
      rw [hq, List.length_cons] at h
      exact Nat.le_of_succ_le_succ h
  · rename_i hm
    obtain rfl := Option.some.inj hstep
    rw [if_neg (by rw [hm]; decide)] at h
    exact h
  · rename_i hm
    rw [if_neg (by rw [hm]; decide)] at h
    split_ifs at hstep <;> exact Option.some.inj hstep ▸ h
  · rename_i hm
    obtain rfl := Option.some.inj hstep
    rw [if_neg (by rw [hm]; decide)] at h
    exact h
  · exact nomatch hstep

/-- **One step.** -/
theorem Covered.step (h : s.Covered) (hok : s.Noticed a) (hstep : s.step a = some s') : s'.Covered := by
  cases a with
  | insertTail packet =>
    obtain rfl := Option.some.inj hstep
    unfold Covered pending at h ⊢
    rw [List.length_append, List.countP_append]
    refine Nat.le_trans (Nat.add_le_add_right h 1) (Nat.le_of_eq ?_)
    show _ = s.callbacks.countP (· ≠ .set) + 1 + s.due
    omega
  | callback i => exact h.callback hok hstep
  | waitForSingleObject =>
    simp only [ProcessManager.step] at hstep
    split_ifs at hstep with hwait hset
    all_goals
      obtain rfl := Option.some.inj hstep
      unfold Covered due at h
      rw [hwait, if_neg (by decide)] at h
    · exact Nat.le_trans h (Nat.le_add_right ..)
    · exact h
  | request => exact h.request hstep

/-- The thread waits for the event, no callback is running, and an event is queued. -/
def LostWakeup (s : ProcessManager Packet) : Prop :=
  s.monitor = .blocked ∧ s.callbacks = [] ∧ s.lQueuedProcessEvents ≠ []

theorem Covered.not_lostWakeup (h : s.Covered) : ¬ s.LostWakeup := by
  rintro ⟨hblocked, hidle, hne⟩
  have hlength := List.length_pos_iff_ne_nil.2 hne
  have hdue : s.due = 0 := by simp [due, hblocked]
  have hpending : s.pending = 0 := by rw [pending, hidle]; rfl
  unfold Covered at h
  omega

section exactness

/-- Whoever has set the event is about to clear it. -/
def Pulsed (s : ProcessManager Packet) : Prop :=
  s.eNewProcessEvent = true → .set ∈ s.callbacks ∨ s.monitor = .set

theorem Pulsed.start : Pulsed ({} : ProcessManager Packet) := fun hset => nomatch hset

/-- The thread goes on, and it was not about to clear the event. -/
theorem Pulsed.moved (h : s.Pulsed) (hm : s.monitor ≠ .set) (hevent : s'.eNewProcessEvent = s.eNewProcessEvent)
    (hcallbacks : s'.callbacks = s.callbacks) : s'.Pulsed := by
  intro hset
  rw [hcallbacks]
  exact .inl ((h (hevent ▸ hset)).resolve_right hm)

theorem Pulsed.step (h : s.Pulsed) (hstep : s.step a = some s') : s'.Pulsed := by
  cases a with
  | insertTail packet =>
    obtain rfl := Option.some.inj hstep
    exact fun hset => (h hset).imp_left (List.mem_append_left _)
  | callback i =>
    simp only [ProcessManager.step, ProcessManager.callback] at hstep
    split at hstep
    · exact nomatch hstep
    · rename_i hi
      obtain rfl := Option.some.inj hstep
      refine fun hset => (h hset).imp_left fun hmem => ?_
      obtain ⟨j, hj⟩ := List.mem_iff_getElem?.1 hmem
      have hij : i ≠ j := by rintro rfl; rw [hi] at hj; exact nomatch hj
      exact List.mem_iff_getElem?.2 ⟨j, by rw [List.getElem?_set_ne hij]; exact hj⟩
    · rename_i hi
      obtain rfl := Option.some.inj hstep
      obtain ⟨hlt, -⟩ := List.getElem?_eq_some_iff.1 hi
      exact fun _ => .inl (List.mem_set hlt _)
    · obtain rfl := Option.some.inj hstep
      exact fun hset => nomatch hset
  | waitForSingleObject =>
    simp only [ProcessManager.step] at hstep
    split_ifs at hstep with hwait
    all_goals
      obtain rfl := Option.some.inj hstep
      exact h.moved (by rw [hwait]; decide) rfl rfl
  | request =>
    simp only [ProcessManager.step, ProcessManager.request] at hstep
    split at hstep
    · rename_i hm
      obtain rfl := Option.some.inj hstep
      exact h.moved (by rw [hm]; decide) rfl rfl
    · rename_i hm
      split at hstep
      · exact nomatch hstep
      · obtain rfl := Option.some.inj hstep
        exact h.moved (by rw [hm]; decide) rfl rfl
    · rename_i hm
      obtain rfl := Option.some.inj hstep
      exact h.moved (by rw [hm]; decide) rfl rfl
    · rename_i hm
      split_ifs at hstep <;> obtain rfl := Option.some.inj hstep
      · exact fun _ => .inr rfl
      · exact h.moved (by rw [hm]; decide) rfl rfl
    · obtain rfl := Option.some.inj hstep
      exact fun hset => nomatch hset
    · exact nomatch hstep

/-- A wake-up can be lost from here. -/
def CanLose (s : ProcessManager Packet) : Prop := ∃ t, Reaches step anyStep s t ∧ t.LostWakeup

theorem CanLose.of_step (hstep : s.step a = some s') (h : s'.CanLose) : s.CanLose := by
  obtain ⟨t, ht, hlost⟩ := h
  exact ⟨t, (Reaches.one trivial hstep).trans ht, hlost⟩

/-- A callback's next statement does not make up for it. -/
theorem not_covered_callback {i : ℕ} (h : ¬ s.Covered) (hstep : s.callback i = some s') : ¬ s'.Covered := by
  unfold ProcessManager.callback at hstep
  split at hstep
  · exact nomatch hstep
  · rename_i hi
    obtain rfl := Option.some.inj hstep
    have hpending := pending_set (q := .counted) hi
    have heq : (s.callbacks.set i .counted).countP (· ≠ .set) = s.pending := Nat.add_right_cancel hpending
    exact fun hcovered => h (Nat.le_trans hcovered (Nat.add_le_add_right (Nat.le_of_eq heq) _))
  · rename_i hi
    obtain rfl := Option.some.inj hstep
    have hpending := pending_set (q := .set) hi
    simp only [ne_eq, reduceCtorEq, not_false_eq_true, not_true_eq_false, decide_true, decide_false, Bool.toNat_true,
      Bool.toNat_false] at hpending
    have hdue : s.keSetEvent.due ≤ s.due + 1 := Nat.le_trans due_le (Nat.le_add_left ..)
    intro hcovered
    have hle : s.lQueuedProcessEvents.length ≤ (s.callbacks.set i .set).countP (· ≠ .set) + due s.keSetEvent :=
      hcovered
    unfold Covered at h
    simp only [ne_eq] at hle
    omega
  · rename_i hi
    obtain rfl := Option.some.inj hstep
    exact fun hcovered => h (Nat.le_trans hcovered (Nat.add_le_add_right (Nat.le_of_eq (pending_erase hi)) _))

section alone

/-! No callback is running, so that `s.pending` is zero. -/

variable (hidle : s.callbacks = []) (hpulsed : s.Pulsed)

include hidle

theorem canLose_blocked (hm : s.monitor = .blocked) (hq : s.lQueuedProcessEvents ≠ []) : s.CanLose :=
  ⟨s, .start, hm, hidle, hq⟩

include hpulsed

theorem canLose_atWait (hm : s.monitor = .atWait) (hq : s.lQueuedProcessEvents ≠ []) : s.CanLose := by
  have hreset : s.eNewProcessEvent = false := by
    rw [← Bool.not_eq_true]
    intro hset
    rcases hpulsed hset with hmem | hm'
    · rw [hidle] at hmem
      exact nomatch hmem
    · rw [hm] at hm'
      exact nomatch hm'
  have hstep : s.step .waitForSingleObject = some (s.setMonitor .blocked) := by
    simp only [ProcessManager.step, if_pos hm, hreset]
    rfl
  exact CanLose.of_step hstep (canLose_blocked (s := s.setMonitor .blocked) hidle rfl hq)

omit hpulsed in
theorem canLose_set (hm : s.monitor = .set) (hq : s.lQueuedProcessEvents ≠ []) : s.CanLose := by
  have hstep : s.step .request = some (s.keClearEvent.setMonitor .atWait) := by
    simp only [ProcessManager.step, ProcessManager.request, hm]
  exact CanLose.of_step hstep
    (canLose_atWait (s := s.keClearEvent.setMonitor .atWait) hidle (fun hset => nomatch hset) rfl hq)

theorem canLose_counted (hm : s.monitor = .counted) (hq : s.lQueuedProcessEvents ≠ []) : s.CanLose := by
  by_cases hn : s.nQueuedProcessEvents ≠ 0
  · have hstep : s.step .request = some (s.keSetEvent.setMonitor .set) := by
      simp only [ProcessManager.step, ProcessManager.request, hm, if_pos hn]
    exact CanLose.of_step hstep (canLose_set (s := s.keSetEvent.setMonitor .set) hidle rfl hq)
  · have hstep : s.step .request = some (s.setMonitor .atWait) := by
      simp only [ProcessManager.step, ProcessManager.request, hm, if_neg hn]
    have hpulsed' := hpulsed.step hstep
    exact CanLose.of_step hstep (canLose_atWait (s := s.setMonitor .atWait) hidle hpulsed' rfl hq)

theorem canLose_removed (hm : s.monitor = .removed) (hq : s.lQueuedProcessEvents ≠ []) : s.CanLose := by
  have hstep : s.step .request =
      some { s with nQueuedProcessEvents := s.nQueuedProcessEvents - 1, monitor := .counted } := by
    simp only [ProcessManager.step, ProcessManager.request, hm]
  have hpulsed' := hpulsed.step hstep
  refine CanLose.of_step hstep (canLose_counted ?_ hpulsed' ?_ ?_)
  · exact hidle
  · rfl
  · exact hq

/-- The thread takes an event, and another one is left. -/
theorem canLose_removing (hm : s.monitor = .removing) (hq : 1 < s.lQueuedProcessEvents.length) : s.CanLose := by
  cases hlist : s.lQueuedProcessEvents with
  | nil =>
    rw [hlist] at hq
    exact absurd hq (by simp)
  | cons packet rest =>
    have hstep : s.step .request = some { s with lQueuedProcessEvents := rest, monitor := .removed } := by
      simp only [ProcessManager.step, ProcessManager.request, hm, hlist]
    have hpulsed' := hpulsed.step hstep
    refine CanLose.of_step hstep (canLose_removed ?_ hpulsed' ?_ ?_)
    · exact hidle
    · rfl
    · rw [hlist, List.length_cons] at hq
      exact List.length_pos_iff_ne_nil.1 (Nat.lt_of_succ_lt_succ hq)

theorem canLose_woken (hm : s.monitor = .woken) (hq : 1 < s.lQueuedProcessEvents.length) : s.CanLose := by
  have hne : s.lQueuedProcessEvents.isEmpty = false := by
    rw [List.isEmpty_eq_false_iff]
    exact List.length_pos_iff_ne_nil.1 (Nat.lt_of_succ_lt hq)
  have hstep : s.step .request = some (s.setMonitor .removing) := by
    simp only [ProcessManager.step, ProcessManager.request, hm, hne]
    rfl
  have hpulsed' := hpulsed.step hstep
  exact CanLose.of_step hstep (canLose_removing (s := s.setMonitor .removing) hidle hpulsed' rfl hq)

theorem canLose_alone (h : ¬ s.Covered) : s.CanLose := by
  have hpending : s.pending = 0 := by
    rw [pending, hidle]
    rfl
  rw [Covered, hpending, Nat.zero_add, Nat.not_le] at h
  have hq : s.lQueuedProcessEvents ≠ [] := List.length_pos_iff_ne_nil.1 (Nat.zero_lt_of_lt h)
  cases hm : s.monitor with
  | atWait => exact canLose_atWait hidle hpulsed hm hq
  | blocked => exact canLose_blocked hidle hm hq
  | woken => exact canLose_woken hidle hpulsed hm (by simpa [due, hm] using h)
  | removing => exact canLose_removing hidle hpulsed hm (by simpa [due, hm] using h)
  | removed => exact canLose_removed hidle hpulsed hm hq
  | counted => exact canLose_counted hidle hpulsed hm hq
  | set => exact canLose_set hidle hm hq

end alone

/-- The statements that a callback has still to do. -/
def CallbackPoint.left : CallbackPoint → ℕ
  | .queued => 3
  | .counted => 2
  | .set => 1

/-- When more events are queued than will be noticed, a wake-up can be lost: first the callbacks end, and
then the thread comes to its wait. -/
theorem canLose (hpulsed : s.Pulsed) (h : ¬ s.Covered) : s.CanLose := by
  induction hn : (s.callbacks.map CallbackPoint.left).sum using Nat.strong_induction_on generalizing s with
  | _ n ih =>
    cases hcallbacks : s.callbacks with
    | nil => exact canLose_alone hcallbacks hpulsed h
    | cons p ps =>
      have hrun : ∃ s', s.callback 0 = some s' ∧ (s'.callbacks.map CallbackPoint.left).sum < n := by
        rw [hcallbacks, List.map_cons, List.sum_cons] at hn
        unfold ProcessManager.callback
        rw [hcallbacks]
        cases p with
        | queued => exact ⟨_, rfl, by simp [CallbackPoint.left] at hn ⊢; omega⟩
        | counted => exact ⟨_, rfl, by simp [CallbackPoint.left, setCallbacks] at hn ⊢; omega⟩
        | set => exact ⟨_, rfl, by simp [CallbackPoint.left, setCallbacks] at hn ⊢; omega⟩
      obtain ⟨s', hstep, hlt⟩ := hrun
      have hstep' : s.step (.callback 0) = some s' := hstep
      exact CanLose.of_step hstep' (ih _ hlt (hpulsed.step hstep') (not_covered_callback h hstep) rfl)

theorem not_covered_of_unnoticed (hok : ¬ s.Noticed a) (hstep : s.step a = some s') : ¬ s'.Covered := by
  cases a with
  | insertTail packet => exact absurd trivial hok
  | waitForSingleObject => exact absurd trivial hok
  | request => exact absurd trivial hok
  | callback i =>
    simp only [Noticed, Classical.not_imp, not_or, Nat.not_lt] at hok
    obtain ⟨hi, hblocked, hle⟩ := hok
    simp only [ProcessManager.step, ProcessManager.callback, hi] at hstep
    obtain rfl := Option.some.inj hstep
    have hpending := pending_set (q := .set) hi
    simp only [ne_eq, reduceCtorEq, not_false_eq_true, not_true_eq_false, decide_true, decide_false, Bool.toNat_true,
      Bool.toNat_false] at hpending
    have hdue : s.keSetEvent.due = s.due := by
      unfold due keSetEvent
      dsimp only
      rw [if_neg hblocked]
    intro hcovered
    have hle' : s.lQueuedProcessEvents.length ≤ (s.callbacks.set i .set).countP (· ≠ .set) + due s.keSetEvent :=
      hcovered
    simp only [ne_eq] at hle'
    omega

end exactness

/-- **No wake-up is lost** in the runs in which no set of a callback leaves an event behind; and once one
does, the run can go on to a lost wake-up. -/
theorem no_lost_wakeup :
    (∀ s, Reaches step Noticed ({} : ProcessManager Packet) s → ¬ s.LostWakeup) ∧
      ∀ s a s', Reaches step anyStep ({} : ProcessManager Packet) s → ¬ s.Noticed a → s.step a = some s' →
        s'.CanLose := by
  constructor
  · intro s h
    have hcovered : s.Covered :=
      h.invariant Covered.start fun _ _ _ hs hok hstep => hs.step hok hstep
    exact hcovered.not_lostWakeup
  · intro s a s' h hok hstep
    have hpulsed : s.Pulsed :=
      h.invariant Pulsed.start fun _ _ _ hs _ hstep => hs.step hstep
    exact canLose (hpulsed.step hstep) (not_covered_of_unnoticed hok hstep)

/-- Two callbacks begin before the first sets the event. The second sets it when the thread waits again. -/
def inTurn : List (ProcessStep ℕ) :=
  [.waitForSingleObject, .insertTail 1, .insertTail 2, .callback 0, .callback 0, .callback 0, .request, .request, .request,
    .request, .waitForSingleObject, .callback 0, .callback 0, .request, .request]

theorem no_lost_wakeup_inTurn : ∃ s : ProcessManager ℕ, run (guarded step Noticed) {} inTurn = some s ∧
    s.lQueuedProcessEvents = [] ∧ s.monitor = .removed ∧ ¬ s.LostWakeup := by
  obtain ⟨s, hs, hqueue, hmonitor⟩ : ∃ s : ProcessManager ℕ, run (guarded step Noticed) {} inTurn = some s ∧
    s.lQueuedProcessEvents = [] ∧ s.monitor = .removed := ⟨_, rfl, rfl, rfl⟩
  exact ⟨s, hs, hqueue, hmonitor, no_lost_wakeup.1 s (.of_guarded hs)⟩

/-- Two callbacks run before the woken thread makes its request. -/
def twoCallbacks : List (ProcessStep Unit) :=
  [.waitForSingleObject, .insertTail (), .callback 0, .callback 0, .callback 0, .insertTail (), .callback 0,
    .callback 0, .callback 0, .request, .request, .request, .request, .request, .waitForSingleObject]

/-- The second event stays in the queue: the event was set while the thread was in its request. -/
theorem twoCallbacks_lost : ∃ s : ProcessManager Unit, run step {} twoCallbacks = some s ∧ s.LostWakeup :=
  ⟨_, rfl, rfl, rfl, List.cons_ne_nil () []⟩

end CaptureHPC.Driver.ProcessManager
