import CaptureHPC.Spec.WorkerPool

/-!
# Counting visits

Every visit that has ended is counted, or its worker is still to signal it, or its event is
set, or the loop has it in hand (`Accounts.counted`). That breaks at two steps: an event is
set again before the first visit was counted, and the loop tests the busy flag of a worker that
is already on its next URL. Without them the count is right (`visits_counted`).
-/

namespace CaptureHPC.Cpp.VisitGroup

open Lib

variable {s s' : VisitGroup}

/-- No visit is lost at this step: the worker that a wait has returned is not busy again, and no
event is set that is set already. -/
def Counted (s : VisitGroup) : PoolStep → Prop
  | .visitGroup _ => True
  | .loop => ∀ i, s.loop = .returned i → (s.worker i).busy = false
  | .worker i => (s.worker i).point = .visited → (s.worker i).finished = false

/-- The visits of a worker that are not yet in the loop's hands. -/
def owed (w : Worker) : ℕ := (if w.finished then 1 else 0) + if w.point = .visited then 1 else 0

def busyOf (w : Worker) : ℕ := if w.busy then 1 else 0

def inHand : LoopPoint → ℕ
  | .returned _ => 1
  | _ => 0

/-- What a worker that has something to do looks like. -/
def Occupied (w : Worker) : Prop :=
  (w.hasData = true → w.busy = true) ∧ ∀ url, w.point = .visiting url → w.busy = true ∧ w.hasData = false

/-- The outer loop goes round as long as URLs are not counted. -/
def RunsFor (nVisitedUrls nUrls : ℕ) : LoopPoint → Prop
  | .scanning _ | .waiting => nVisitedUrls < nUrls
  | .returned _ => True
  | .exited => nUrls ≤ nVisitedUrls

/-- The visits that are counted or can still be. -/
def tally (s : VisitGroup) : ℕ := s.nVisitedUrls + ∑ i, owed (s.worker i) + inHand s.loop

/-- What every step keeps. -/
structure Handed (s : VisitGroup) : Prop where
  given : s.given.map Prod.snd = List.range s.toVisit
  visiting : s.nVisiting = s.toVisit
  bounded : s.nVisiting ≤ s.nUrls
  occupied : ∀ i, Occupied (s.worker i)
  busy : s.visited.length + ∑ i, busyOf (s.worker i) = s.nVisiting
  counted : s.tally ≤ s.visited.length
  running : RunsFor s.nVisitedUrls s.nUrls s.loop

/-- What every step keeps that loses no visit. -/
def Accounted (s : VisitGroup) : Prop := s.tally = s.visited.length

theorem runsFor_loopHead (s : VisitGroup) : RunsFor s.nVisitedUrls s.nUrls s.loopHead := by
  unfold loopHead
  split_ifs with hlt
  · exact hlt
  · exact Nat.le_of_not_lt hlt

theorem inHand_loopHead (s : VisitGroup) : inHand s.loopHead = 0 := by
  unfold loopHead
  split_ifs <;> rfl

section tally

/-- One worker changes, and what is owed with it. -/
theorem tally_update (s : VisitGroup) (i : Fin maxWorkerThreads) (w : Worker) :
    tally { s with worker := Function.update s.worker i w } + owed (s.worker i) = s.tally + owed w := by
  have hsum := sum_update_add owed s.worker i w
  simp only [tally]
  omega

theorem tally_setLoop (s : VisitGroup) (loop : LoopPoint) :
    (s.setLoop loop).tally + inHand s.loop = s.tally + inHand loop := by
  simp only [tally, setLoop]
  omega

theorem owed_give (w : Worker) (url : ℕ) : owed (w.give url) = owed w := rfl

theorem owed_start {w : Worker} (hw : w.point = .waiting) : owed w.start = owed w := by
  unfold Worker.start owed
  split
  · simp [hw]
  · rfl

theorem owed_endVisit {w : Worker} {url : ℕ} (hw : w.point = .visiting url) : owed w.endVisit = owed w + 1 := by
  simp only [owed, Worker.endVisit, hw]
  grind

theorem owed_signal {w : Worker} (hw : w.point = .visited) :
    owed w.signal + (if w.finished then 1 else 0) = owed w := by
  simp only [owed, Worker.signal, hw]
  grind

theorem owed_reset {w : Worker} (hw : w.finished = true) : owed w.reset + 1 = owed w := by
  simp only [owed, Worker.reset, hw]
  grind

theorem tally_scan (s : VisitGroup) (i : Fin maxWorkerThreads) : (s.scan i).tally = s.tally := by
  unfold scan
  split_ifs
  · have htally := tally_update s i ((s.worker i).give s.toVisit)
    rw [owed_give] at htally
    exact Nat.add_right_cancel htally
  · rfl

theorem tally_count (s : VisitGroup) (i : Fin maxWorkerThreads) :
    (s.count i).tally = s.tally + if (s.worker i).busy then 0 else 1 := by
  unfold count
  cases (s.worker i).busy with
  | true => rfl
  | false =>
    simp only [tally, Bool.not_false, if_true, Bool.false_eq_true, if_false]
    omega

end tally

theorem forall_update {P : Worker → Prop} {g : Fin maxWorkerThreads → Worker} (h : ∀ j, P (g j))
    {i : Fin maxWorkerThreads} {w : Worker} (hw : P w) (j : Fin maxWorkerThreads) :
    P (Function.update g i w j) := by
  by_cases hji : j = i
  · subst hji
    rw [Function.update_self]
    exact hw
  · rw [Function.update_of_ne hji]
    exact h j

/-- When the loop has ended, no worker is busy and nothing is owed. -/
theorem Handed.exited (h : s.Handed) (hs : s.loop = .exited) :
    ∑ i, busyOf (s.worker i) = 0 ∧ ∑ i, owed (s.worker i) = 0 := by
  have hn : s.nUrls ≤ s.nVisitedUrls := by
    have hrun := h.running
    rw [hs] at hrun
    exact hrun
  have hbusy := h.busy
  have hcounted := h.counted
  have hbounded := h.bounded
  rw [tally] at hcounted
  omega

theorem Handed.start : Handed {} where
  given := rfl
  visiting := rfl
  bounded := le_rfl
  occupied _ := ⟨fun h => h, fun _ h => nomatch h⟩
  busy := by simp [busyOf]
  counted := by simp [tally, owed, inHand]
  running := le_rfl

theorem Handed.visitGroup {n : ℕ} (h : s.Handed) (hstep : s.visitGroup n = some s') :
    s'.Handed ∧ s'.Accounted := by
  unfold VisitGroup.visitGroup at hstep
  rw [Option.ite_none_right_eq_some, Option.some.injEq] at hstep
  obtain ⟨hs, rfl⟩ := hstep
  obtain ⟨hbusy, howed⟩ := h.exited hs
  have htally : 0 + ∑ i, owed (s.worker i) + inHand (if 0 < n then .scanning 0 else .exited) = 0 := by
    rw [howed]
    split_ifs <;> rfl
  refine ⟨⟨rfl, rfl, Nat.zero_le n, h.occupied, by simpa using hbusy, htally.le, ?_⟩, htally⟩
  dsimp only
  split_ifs with hn
  · exact hn
  · exact Nat.le_of_not_lt hn

/-- The loop goes on at another point. -/
theorem Handed.setLoop {loop : LoopPoint} (h : s.Handed) (hhand : inHand loop ≤ inHand s.loop)
    (hrun : RunsFor s.nVisitedUrls s.nUrls loop) : (s.setLoop loop).Handed where
  given := h.given
  visiting := h.visiting
  bounded := h.bounded
  occupied := h.occupied
  busy := h.busy
  counted := by
    have hc := h.counted
    have htally := tally_setLoop s loop
    exact le_trans (by omega) hc
  running := hrun

theorem Handed.scan (h : s.Handed) (i : Fin maxWorkerThreads) : (s.scan i).Handed := by
  have hcounted := (tally_scan s i).trans_le h.counted
  unfold VisitGroup.scan at hcounted ⊢
  split_ifs at hcounted ⊢ with hgive
  · rw [Bool.and_eq_true, Bool.not_eq_true', decide_eq_true_eq] at hgive
    obtain ⟨hi, hn⟩ := hgive
    have hpoint : ∀ url, (s.worker i).point ≠ .visiting url := by
      intro url hurl
      rw [((h.occupied i).2 url hurl).1] at hi
      exact absurd hi (by simp)
    refine ⟨?_, ?_, hn, forall_update h.occupied ⟨fun _ => rfl, fun url hurl => absurd hurl (hpoint url)⟩, ?_,
      hcounted, h.running⟩
    · rw [List.map_append, h.given, List.range_succ]
      rfl
    · exact congrArg (· + 1) h.visiting
    · have hb := h.busy
      have hsum := sum_update_add busyOf s.worker i ((s.worker i).give s.toVisit)
      have hgave : busyOf ((s.worker i).give s.toVisit) = busyOf (s.worker i) + 1 := by
        simp [busyOf, Worker.give, hi]
      dsimp only
      omega
  · exact h

/-- A worker goes on without ending a visit. -/
theorem Handed.setWorker {i : Fin maxWorkerThreads} {w : Worker} (h : s.Handed) (hw : Occupied w)
    (hbusy : w.busy = (s.worker i).busy) (howed : owed w ≤ owed (s.worker i)) : (s.setWorker i w).Handed where
  given := h.given
  visiting := h.visiting
  bounded := h.bounded
  occupied := forall_update h.occupied hw
  busy := by
    have hb := h.busy
    have hsum := sum_update_add busyOf s.worker i w
    have hsame : busyOf w = busyOf (s.worker i) := by rw [busyOf, busyOf, hbusy]
    dsimp only [VisitGroup.setWorker]
    omega
  counted := by
    have hc := h.counted
    have htally := tally_update s i w
    dsimp only [VisitGroup.setWorker]
    omega
  running := h.running

/-- A visit ends. -/
theorem Handed.endVisit {i : Fin maxWorkerThreads} {url : ℕ} (h : s.Handed)
    (hi : (s.worker i).point = .visiting url) :
    Handed { s with
      visited := s.visited ++ [url]
      worker := Function.update s.worker i (s.worker i).endVisit } where
  given := h.given
  visiting := h.visiting
  bounded := h.bounded
  occupied := by
    have hdata := ((h.occupied i).2 url hi).2
    exact forall_update h.occupied ⟨fun hd => absurd (hdata.symm.trans hd) (by simp), fun _ hp => nomatch hp⟩
  busy := by
    have hb := h.busy
    have hsum := sum_update_add busyOf s.worker i (s.worker i).endVisit
    have hended : busyOf (s.worker i) = busyOf (s.worker i).endVisit + 1 := by
      simp [busyOf, Worker.endVisit, ((h.occupied i).2 url hi).1]
    dsimp only
    rw [List.length_append, List.length_singleton]
    omega
  counted := by
    have hc := h.counted
    have htally := tally_update s i (s.worker i).endVisit
    rw [owed_endVisit hi] at htally
    have hone : _ = s.tally + 1 := Nat.add_right_cancel (htally.trans (by omega))
    rw [List.length_append, List.length_singleton]
    exact hone.trans_le (Nat.succ_le_succ hc)
  running := h.running

theorem signalled_finished {i : Fin maxWorkerThreads} (hi : s.signalled = some i) :
    (s.worker i).finished = true := by
  have hfind := List.find?_some hi
  exact hfind

theorem loop_scan (s : VisitGroup) (i : Fin maxWorkerThreads) : (s.scan i).loop = s.loop := by
  unfold scan
  split_ifs <;> rfl

theorem counts_scan (s : VisitGroup) (i : Fin maxWorkerThreads) :
    (s.scan i).nVisitedUrls = s.nVisitedUrls ∧ (s.scan i).nUrls = s.nUrls ∧ (s.scan i).visited = s.visited := by
  unfold scan
  split_ifs <;> exact ⟨rfl, rfl, rfl⟩

theorem occupied_start {w : Worker} (hw : Occupied w) (hdata : w.hasData = true) : Occupied w.start := by
  have hbusy := hw.1 hdata
  unfold Worker.start
  split
  · exact ⟨fun _ => hbusy, fun _ _ => ⟨hbusy, rfl⟩⟩
  · exact ⟨fun _ => hbusy, fun _ _ => ⟨hbusy, rfl⟩⟩

theorem busy_start (w : Worker) : w.start.busy = w.busy := by
  unfold Worker.start
  split <;> rfl

/-- The wait returns a worker. -/
theorem Handed.wait {i : Fin maxWorkerThreads} (h : s.Handed) (hs : s.loop = .waiting)
    (hi : (s.worker i).finished = true) :
    ((s.setWorker i (s.worker i).reset).setLoop (.returned i)).Handed ∧
      ((s.setWorker i (s.worker i).reset).setLoop (.returned i)).tally = s.tally := by
  have hreset := owed_reset hi
  have hworker := h.setWorker (i := i) (w := (s.worker i).reset) (h.occupied i) rfl (by omega)
  have htally := tally_update s i (s.worker i).reset
  have hloop := tally_setLoop (s.setWorker i (s.worker i).reset) (.returned i)
  have hhand : inHand (s.setWorker i (s.worker i).reset).loop = 0 := congrArg inHand hs
  have hone : inHand (.returned i) = 1 := rfl
  have hset : (s.setWorker i (s.worker i).reset).tally + 1 = s.tally := by
    rw [← hreset] at htally
    have : (s.setWorker i (s.worker i).reset).tally + (owed (s.worker i).reset + 1) =
      s.tally + owed (s.worker i).reset := htally
    omega
  have hsame : ((s.setWorker i (s.worker i).reset).setLoop (.returned i)).tally = s.tally := by omega
  exact ⟨⟨hworker.given, hworker.visiting, hworker.bounded, hworker.occupied, hworker.busy,
    hsame.trans_le h.counted, trivial⟩, hsame⟩

/-- The wait returned a worker that is busy again: its visit is not counted. -/
theorem Handed.count_busy {i : Fin maxWorkerThreads} (h : s.Handed) (hi : (s.worker i).busy = true) :
    ((s.count i).setLoop (s.count i).loopHead).Handed := by
  have hsame : s.count i = s := by
    unfold VisitGroup.count
    simp [hi]
  rw [hsame]
  exact h.setLoop ((inHand_loopHead s).trans_le (Nat.zero_le _)) (runsFor_loopHead s)

/-- A visit is counted. -/
theorem Handed.count {i : Fin maxWorkerThreads} (h : s.Handed) (hs : s.loop = .returned i)
    (hi : (s.worker i).busy = false) :
    ((s.count i).setLoop (s.count i).loopHead).Handed ∧
      ((s.count i).setLoop (s.count i).loopHead).tally = s.tally := by
  have htally := tally_count s i
  have hloop := tally_setLoop (s.count i) (s.count i).loopHead
  have hcount : s.count i = { s with nVisitedUrls := s.nVisitedUrls + 1 } := by
    unfold VisitGroup.count
    simp [hi]
  have hhand : inHand (s.count i).loop = 1 := by
    rw [hcount]
    exact congrArg inHand hs
  rw [hi, if_neg Bool.false_ne_true] at htally
  rw [inHand_loopHead] at hloop
  have hsame : ((s.count i).setLoop (s.count i).loopHead).tally = s.tally := by omega
  rw [hcount] at hsame ⊢
  exact ⟨⟨h.given, h.visiting, h.bounded, h.occupied, h.busy, hsame.trans_le h.counted, runsFor_loopHead _⟩,
    hsame⟩

/-- **One step** keeps what is handed out in order. -/
theorem Handed.step {a : PoolStep} (h : s.Handed) (hstep : s.step a = some s') : s'.Handed := by
  cases a with
  | visitGroup n => exact (h.visitGroup hstep).1
  | loop =>
    simp only [VisitGroup.step, stepLoop] at hstep
    split at hstep
    · rename_i i hs
      have hrun := h.running
      rw [hs] at hrun
      split_ifs at hstep with hi
      · obtain rfl := Option.some.inj hstep
        have hc := counts_scan s ⟨i, hi⟩
        refine (h.scan ⟨i, hi⟩).setLoop (Nat.zero_le _) ?_
        rw [hc.1, hc.2.1]
        exact hrun
      · obtain rfl := Option.some.inj hstep
        exact h.setLoop (Nat.zero_le _) hrun
    · rename_i hs
      split at hstep
      · rename_i i hi
        obtain rfl := Option.some.inj hstep
        exact (h.wait hs (signalled_finished hi)).1
      · obtain rfl := Option.some.inj hstep
        exact h.setLoop ((inHand_loopHead s).trans_le (Nat.zero_le _)) (runsFor_loopHead s)
    · rename_i i hs
      obtain rfl := Option.some.inj hstep
      cases hi : (s.worker i).busy with
      | true => exact h.count_busy hi
      | false => exact (h.count hs hi).1
    · exact absurd hstep (by simp)
  | worker i =>
    simp only [VisitGroup.step, internetExplorerWorker] at hstep
    split at hstep
    · rename_i hp
      split_ifs at hstep with hdata
      obtain rfl := Option.some.inj hstep
      exact h.setWorker (occupied_start (h.occupied i) hdata) (busy_start _) (owed_start hp).le
    · rename_i url hp
      obtain rfl := Option.some.inj hstep
      exact h.endVisit hp
    · rename_i hp
      obtain rfl := Option.some.inj hstep
      have howed := owed_signal hp
      exact h.setWorker ⟨(h.occupied i).1, fun _ hv => nomatch hv⟩ rfl (by omega)

/-- **One step** that loses no visit. -/
theorem Accounted.step {a : PoolStep} (hh : s.Handed) (h : s.Accounted) (hok : s.Counted a)
    (hstep : s.step a = some s') : s'.Accounted := by
  unfold Accounted at h ⊢
  cases a with
  | visitGroup n => exact (hh.visitGroup hstep).2
  | loop =>
    simp only [VisitGroup.step, stepLoop] at hstep
    split at hstep
    · rename_i i hs
      split_ifs at hstep with hi
      · obtain rfl := Option.some.inj hstep
        have hloop := tally_setLoop (s.scan ⟨i, hi⟩) (.scanning (i + 1))
        rw [loop_scan, hs, tally_scan] at hloop
        rw [Nat.add_right_cancel hloop, h]
        exact congrArg List.length (counts_scan s ⟨i, hi⟩).2.2.symm
      · obtain rfl := Option.some.inj hstep
        have hloop := tally_setLoop s .waiting
        rw [hs] at hloop
        exact (Nat.add_right_cancel hloop).trans h
    · rename_i hs
      split at hstep
      · rename_i i hi
        obtain rfl := Option.some.inj hstep
        exact (hh.wait hs (signalled_finished hi)).2.trans h
      · obtain rfl := Option.some.inj hstep
        have hloop := tally_setLoop s s.loopHead
        rw [hs, inHand_loopHead] at hloop
        exact (Nat.add_right_cancel hloop).trans h
    · rename_i i hs
      obtain rfl := Option.some.inj hstep
      have hi := hok i hs
      have hvisited : (s.count i).visited = s.visited := by
        unfold VisitGroup.count
        split_ifs <;> rfl
      exact (hh.count hs hi).2.trans (h.trans (congrArg List.length hvisited.symm))
    · exact absurd hstep (by simp)
  | worker i =>
    simp only [VisitGroup.step, internetExplorerWorker] at hstep
    split at hstep
    · rename_i hp
      split_ifs at hstep with hdata
      obtain rfl := Option.some.inj hstep
      have htally := tally_update s i (s.worker i).start
      rw [owed_start hp] at htally
      exact (Nat.add_right_cancel htally).trans h
    · rename_i url hp
      obtain rfl := Option.some.inj hstep
      have htally := tally_update s i (s.worker i).endVisit
      rw [owed_endVisit hp] at htally
      have hone : _ = s.tally + 1 := Nat.add_right_cancel (htally.trans (by omega))
      rw [List.length_append, List.length_singleton, ← h]
      exact hone
    · rename_i hp
      obtain rfl := Option.some.inj hstep
      have htally := tally_update s i (s.worker i).signal
      have howed := owed_signal hp
      rw [hok hp, if_neg Bool.false_ne_true, Nat.add_zero] at howed
      rw [howed] at htally
      exact (Nat.add_right_cancel htally).trans h

theorem handed_of_reaches {ok : VisitGroup → PoolStep → Prop} (h : Reaches step ok {} s) : s.Handed :=
  h.invariant Handed.start fun _ _ _ hs _ hstep => hs.step hstep

theorem accounted_of_reaches (h : Reaches step Counted {} s) : s.Handed ∧ s.Accounted :=
  h.invariant (P := fun s => s.Handed ∧ s.Accounted) ⟨Handed.start, by simp [Accounted, tally, owed, inHand]⟩
    fun _ _ _ hs hok hstep => ⟨hs.1.step hstep, hs.2.step hs.1 hok hstep⟩

section held

/-- The URL that a worker has been given and has not visited to the end. -/
def held (w : Worker) : List ℕ :=
  match w.point with
  | .visiting url => [url]
  | _ => if w.hasData then w.data.toList else []

/-- Each URL that was given is visited or with one worker. -/
def HeldOnce (s : VisitGroup) : Prop :=
  ∀ url, s.visited.count url + ∑ i, (held (s.worker i)).count url = if url < s.toVisit then 1 else 0

variable {w : Worker}

theorem held_free (hw : Occupied w) (hbusy : w.busy = false) : held w = [] := by
  have hdata : w.hasData ≠ true := fun hd => absurd (hbusy.symm.trans (hw.1 hd)) (by simp)
  unfold held
  split
  · rename_i url hp
    exact absurd (hbusy.symm.trans (hw.2 url hp).1) (by simp)
  · exact if_neg hdata

theorem held_give (hw : Occupied w) (hbusy : w.busy = false) (url : ℕ) : held (w.give url) = [url] := by
  unfold held
  split
  · rename_i url' hp
    exact absurd (hbusy.symm.trans (hw.2 url' hp).1) (by simp)
  · rfl

theorem held_start (hp : w.point = .waiting) (hdata : w.hasData = true) : held w.start = held w := by
  have hw : held w = w.data.toList := by
    unfold held
    rw [hp]
    exact if_pos hdata
  rw [hw]
  unfold Worker.start
  cases hd : w.data with
  | none =>
    unfold held
    dsimp only
    rw [hp]
    rfl
  | some url => rfl

theorem held_endVisit {url : ℕ} (hw : Occupied w) (hp : w.point = .visiting url) : held w.endVisit = [] ∧ held w = [url] := by
  refine ⟨if_neg ?_, ?_⟩
  · rw [show w.endVisit.hasData = w.hasData from rfl, (hw.2 url hp).2]
    exact Bool.false_ne_true
  · unfold held
    rw [hp]

theorem held_signal (hp : w.point = .visited) : held w.signal = held w := by
  unfold held
  rw [hp]
  rfl

/-- A worker goes on with the URL that it holds. -/
theorem HeldOnce.setWorker {i : Fin maxWorkerThreads} (h : s.HeldOnce) (hw : held w = held (s.worker i)) :
    (s.setWorker i w).HeldOnce := by
  intro url
  have hsum := sum_update_add (fun w => (held w).count url) s.worker i w
  have hold := h url
  rw [hw] at hsum
  show s.visited.count url + ∑ j, (held (Function.update s.worker i w j)).count url = if url < s.toVisit then 1 else 0
  omega

theorem HeldOnce.start : HeldOnce {} := by
  intro url
  simp [held]

/-- **One step.** -/
theorem HeldOnce.step {a : PoolStep} (hh : s.Handed) (h : s.HeldOnce) (hstep : s.step a = some s') : s'.HeldOnce := by
  cases a with
  | visitGroup n =>
    simp only [VisitGroup.step, VisitGroup.visitGroup] at hstep
    rw [Option.ite_none_right_eq_some, Option.some.injEq] at hstep
    obtain ⟨hs, rfl⟩ := hstep
    have hfree : ∀ i, held (s.worker i) = [] := fun i => by
      have hbusy := (Finset.sum_eq_zero_iff.1 (hh.exited hs).1) i (Finset.mem_univ i)
      refine held_free (hh.occupied i) ?_
      unfold busyOf at hbusy
      grind
    intro url
    simp [hfree]
  | loop =>
    simp only [VisitGroup.step, stepLoop] at hstep
    split at hstep
    · split_ifs at hstep with hi
      · obtain rfl := Option.some.inj hstep
        show (s.scan _).HeldOnce
        unfold VisitGroup.scan
        split_ifs with hgive
        · rw [Bool.and_eq_true, Bool.not_eq_true', decide_eq_true_eq] at hgive
          intro url
          have hw := hh.occupied ⟨_, hi⟩
          have hsum := sum_update_add (fun w => (held w).count url) s.worker ⟨_, hi⟩ ((s.worker ⟨_, hi⟩).give s.toVisit)
          have hold := h url
          rw [held_give hw hgive.1, held_free hw hgive.1, List.count_nil, List.count_singleton] at hsum
          simp only [beq_iff_eq] at hsum
          dsimp only
          split_ifs at hsum hold ⊢ <;> omega
        · exact h
      · obtain rfl := Option.some.inj hstep
        exact h
    · split at hstep
      · obtain rfl := Option.some.inj hstep
        exact h.setWorker rfl
      · obtain rfl := Option.some.inj hstep
        exact h
    · obtain rfl := Option.some.inj hstep
      show (s.count _).HeldOnce
      unfold VisitGroup.count
      split_ifs
      · exact h
      · exact h
    · exact absurd hstep (by simp)
  | worker i =>
    simp only [VisitGroup.step, internetExplorerWorker] at hstep
    split at hstep
    · rename_i hp
      split_ifs at hstep with hdata
      obtain rfl := Option.some.inj hstep
      exact h.setWorker (held_start hp hdata)
    · rename_i url hp
      obtain rfl := Option.some.inj hstep
      intro url'
      obtain ⟨hnone, hone⟩ := held_endVisit (hh.occupied i) hp
      have hsum := sum_update_add (fun w => (held w).count url') s.worker i (s.worker i).endVisit
      have hold := h url'
      rw [hnone, hone, List.count_nil] at hsum
      dsimp only
      rw [List.count_append]
      omega
    · rename_i hp
      obtain rfl := Option.some.inj hstep
      exact h.setWorker (held_signal hp)

theorem heldOnce_of_reaches (h : Reaches step anyStep {} s) : s.HeldOnce :=
  (h.invariant (P := fun s => s.Handed ∧ s.HeldOnce) ⟨Handed.start, HeldOnce.start⟩
    fun _ _ _ hs _ hstep => ⟨hs.1.step hstep, hs.2.step hs.1 hstep⟩).2

end held

/-- No URL of a group is given to two workers. -/
theorem given_nodup (h : s.Handed) : (s.given.map Prod.snd).Nodup := by
  rw [h.given]
  exact List.nodup_range

/-- As many visits have ended as there are URLs. -/
theorem length_visited (h : s.Handed) (hall : s.AllVisited) : s.visited.length = s.nUrls := by
  have hle : s.visited.length ≤ s.nUrls := by
    have hbusy := h.busy
    have hbounded := h.bounded
    omega
  have hsub : List.range s.nUrls ⊆ s.visited := fun url hurl => hall url (List.mem_range.1 hurl)
  have hlen := (List.nodup_range.subperm hsub).length_le
  rw [List.length_range] at hlen
  omega

/-- **Every URL is accounted for** when no step loses a visit: with all URLs visited, the workers idle and
no finished event left, the count is the number of URLs and the loop is over. And in any run no URL is
given to two workers: each that was given is either visited, once, or with one worker. -/
theorem visits_counted (s : VisitGroup) :
    (Reaches step Counted {} s → s.AllVisited → s.Idle → s.NoneFinished →
      s.nVisitedUrls = s.nUrls ∧ s.loop = .exited) ∧
    (Reaches step anyStep {} s → (s.given.map Prod.snd).Nodup ∧
      ∀ url, s.visited.count url + ∑ i, (held (s.worker i)).count url = if url < s.toVisit then 1 else 0) := by
  refine ⟨fun h hall hidle hnone => ?_, fun h => ⟨given_nodup (handed_of_reaches h), heldOnce_of_reaches h⟩⟩
  obtain ⟨hh, hacc⟩ := accounted_of_reaches h
  have howed : ∑ i, owed (s.worker i) = 0 := by
    refine Finset.sum_eq_zero fun i _ => ?_
    rw [owed, hnone.1 i, (hidle i).1]
    rfl
  have hhand : inHand s.loop = 0 := by
    cases hs : s.loop with
    | returned i => exact absurd hs (hnone.2 i)
    | _ => rfl
  have hn : s.nVisitedUrls = s.nUrls := by
    have hlen := length_visited hh hall
    rw [Accounted, tally, howed, hhand] at hacc
    omega
  refine ⟨hn, ?_⟩
  have hrun := hh.running
  cases hs : s.loop with
  | exited => rfl
  | returned i => exact absurd hs (hnone.2 i)
  | scanning _ | waiting =>
    rw [hs] at hrun
    exact absurd hn (Nat.ne_of_lt hrun)

end CaptureHPC.Cpp.VisitGroup
