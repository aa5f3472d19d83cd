import CaptureHPC.Proof.Pool

/-!
# Passes of the loop over the workers

A group of at most `maxWorkerThreads` URLs is given away in the first pass (`FirstPass`), so no
worker gets a second URL and no visit is lost (`counted_of_small`). With one URL more a visit can
be lost, and the loop goes round until no event is left and waits (`drain`, `visit_uncounted`).
-/

namespace CaptureHPC.Cpp.VisitGroup

open Lib

variable {s s' : VisitGroup}

/-- The groups have at most as many URLs as there are workers. -/
def Small (_ : VisitGroup) : PoolStep → Prop
  | .visitGroup n => n ≤ maxWorkerThreads
  | _ => True

/-- A worker's last visit is in one place: it goes on, is still to be signalled, is signalled, or the loop
holds it. -/
structure OnePlace (w : Worker) (held : Prop) : Prop where
  busy : w.busy = true → w.point ≠ .visited ∧ w.finished = false ∧ ¬ held
  visited : w.point = .visited → w.finished = false ∧ ¬ held
  finished : w.finished = true → ¬ held

/-- A worker that has had nothing to do. -/
def Clean (w : Worker) : Prop := w.busy = false ∧ w.point ≠ .visited ∧ w.finished = false

theorem OnePlace.give {w : Worker} {held : Prop} (hw : Clean w) (hheld : ¬ held) (url : ℕ) :
    OnePlace (w.give url) held where
  busy _ := ⟨hw.2.1, hw.2.2, hheld⟩
  visited _ := ⟨hw.2.2, hheld⟩
  finished _ := hheld

theorem OnePlace.startVisit {w : Worker} {held : Prop} (h : OnePlace w held) : OnePlace w.start held := by
  unfold Worker.start
  split
  · exact ⟨fun hb => ⟨by simp, (h.busy hb).2⟩, (fun hv => nomatch hv), h.finished⟩
  · exact ⟨h.busy, h.visited, h.finished⟩

theorem OnePlace.endVisit {w : Worker} {held : Prop} (h : OnePlace w held) (hb : w.busy = true) :
    OnePlace w.endVisit held where
  busy hb := nomatch hb
  visited _ := (h.busy hb).2
  finished := h.finished

theorem OnePlace.signal {w : Worker} {held : Prop} (h : OnePlace w held) (hv : w.point = .visited) :
    OnePlace w.signal held where
  busy hb := absurd hv (h.busy hb).1
  visited hv := nomatch hv
  finished _ := (h.visited hv).2

theorem OnePlace.reset {w : Worker} {held : Prop} (h : OnePlace w held) (hf : w.finished = true) :
    OnePlace w.reset True where
  busy hb := absurd ((h.busy hb).2.1.symm.trans hf) (by simp)
  visited hv := absurd ((h.visited hv).1.symm.trans hf) (by simp)
  finished hf := nomatch hf

theorem OnePlace.free {w : Worker} {held held' : Prop} (h : OnePlace w held) (hfree : ¬ held') : OnePlace w held' :=
  ⟨fun hb => ⟨(h.busy hb).1, (h.busy hb).2.1, hfree⟩, fun hv => ⟨(h.visited hv).1, hfree⟩, fun _ => hfree⟩

/-- What every step keeps when the groups are small: URLs are given in the first pass only. -/
structure FirstPass (s : VisitGroup) : Prop where
  places : ∀ i, OnePlace (s.worker i) (s.loop = .returned i)
  small : s.nUrls ≤ maxWorkerThreads
  pass : s.nVisiting = s.nUrls ∨ s.loop = .scanning s.nVisiting ∧ ∀ i, s.nVisiting ≤ i.val → Clean (s.worker i)

theorem FirstPass.counted {a : PoolStep} (h : s.FirstPass) : s.Counted a := by
  cases a with
  | visitGroup n => trivial
  | loop =>
    intro i hs
    by_contra hbusy
    rw [Bool.not_eq_false] at hbusy
    exact ((h.places i).busy hbusy).2.2 hs
  | worker i => exact fun hp => ((h.places i).visited hp).1

theorem loopHead_ne (s : VisitGroup) (i : Fin maxWorkerThreads) : s.loopHead ≠ .returned i := by
  unfold loopHead
  split_ifs <;> simp

theorem clean_of_exited (h : s.Handed) (hs : s.loop = .exited) (i : Fin maxWorkerThreads) : Clean (s.worker i) := by
  obtain ⟨hbusy, howed⟩ := h.exited hs
  have hb := (Finset.sum_eq_zero_iff.1 hbusy) i (Finset.mem_univ i)
  have ho := (Finset.sum_eq_zero_iff.1 howed) i (Finset.mem_univ i)
  unfold busyOf at hb
  unfold owed at ho
  exact ⟨by grind, by grind, by grind⟩

theorem FirstPass.start : FirstPass {} where
  places _ := ⟨(fun h => nomatch h), (fun h => nomatch h), (fun h => nomatch h)⟩
  small := Nat.zero_le _
  pass := .inl rfl

theorem FirstPass.visitGroup {n : ℕ} (h : s.FirstPass) (hh : s.Handed) (hn : n ≤ maxWorkerThreads)
    (hstep : s.visitGroup n = some s') : s'.FirstPass := by
  unfold VisitGroup.visitGroup at hstep
  rw [Option.ite_none_right_eq_some, Option.some.injEq] at hstep
  obtain ⟨hs, rfl⟩ := hstep
  refine ⟨fun i => (h.places i).free ?_, hn, ?_⟩
  · dsimp only
    split_ifs <;> simp
  · rcases Nat.eq_zero_or_pos n with rfl | hpos
    · exact .inl rfl
    · exact .inr ⟨if_pos hpos, fun i _ => clean_of_exited hh hs i⟩

/-- A worker's own steps. -/
theorem FirstPass.update {i : Fin maxWorkerThreads} {w : Worker} {visited : List ℕ} (h : s.FirstPass)
    (hw : OnePlace w (s.loop = .returned i)) (hclean : Clean (s.worker i) → Clean w) :
    FirstPass { s with visited := visited, worker := Function.update s.worker i w } where
  places j := by
    dsimp only
    by_cases hji : j = i
    · subst hji
      rw [Function.update_self]
      exact hw
    · rw [Function.update_of_ne hji]
      exact h.places j
  small := h.small
  pass := by
    refine h.pass.imp_right fun ⟨hs, hall⟩ => ⟨hs, fun j hj => ?_⟩
    dsimp only
    by_cases hji : j = i
    · subst hji
      rw [Function.update_self]
      exact hclean (hall j hj)
    · rw [Function.update_of_ne hji]
      exact hall j hj

/-- When all URLs are given, the loop may be anywhere else. -/
theorem FirstPass.setLoop {loop : LoopPoint} (h : s.FirstPass) (hgiven : s.nVisiting = s.nUrls)
    (hloop : ∀ i, loop ≠ .returned i) : (s.setLoop loop).FirstPass where
  places i := (h.places i).free (hloop i)
  small := h.small
  pass := .inl hgiven

/-- The look at a worker in the first pass gives it a URL, as long as there is one. -/
theorem FirstPass.scan {i : ℕ} (h : s.FirstPass) (hh : s.Handed) (hs : s.loop = .scanning i) (hi : i < maxWorkerThreads) :
    ((s.scan ⟨i, hi⟩).setLoop (.scanning (i + 1))).FirstPass := by
  unfold VisitGroup.scan
  split_ifs with hgive
  · rw [Bool.and_eq_true, Bool.not_eq_true', decide_eq_true_eq] at hgive
    rcases h.pass with hpass | ⟨hpoint, hclean⟩
    · exact absurd hpass (Nat.ne_of_lt hgive.2)
    have hni : s.nVisiting = i := by
      rw [hs] at hpoint
      injection hpoint with hpoint
      exact hpoint.symm
    subst hni
    refine ⟨fun j => ?_, h.small, .inr ⟨rfl, fun j hj => ?_⟩⟩
    · have hfree : LoopPoint.scanning (s.nVisiting + 1) ≠ .returned j := by simp
      dsimp only [VisitGroup.setLoop]
      by_cases hji : j = ⟨s.nVisiting, hi⟩
      · subst hji
        rw [Function.update_self]
        exact OnePlace.give (hclean _ le_rfl) hfree _
      · rw [Function.update_of_ne hji]
        exact (h.places j).free hfree
    · have hji : j ≠ ⟨s.nVisiting, hi⟩ := fun heq => by
        rw [heq] at hj
        exact absurd hj (Nat.not_succ_le_self s.nVisiting)
      dsimp only [VisitGroup.setLoop]
      rw [Function.update_of_ne hji]
      exact hclean j (Nat.le_of_succ_le hj)
  · have hfree : ∀ j, LoopPoint.scanning (i + 1) ≠ .returned j := by simp
    refine ⟨fun j => (h.places j).free (hfree j), h.small, ?_⟩
    rcases h.pass with hpass | ⟨hpoint, hclean⟩
    · exact .inl hpass
    · left
      have hni : s.nVisiting = i := by
        rw [hs] at hpoint
        injection hpoint with hpoint
        exact hpoint.symm
      subst hni
      have hbusy := (hclean ⟨s.nVisiting, hi⟩ le_rfl).1
      rw [hbusy, Bool.not_false, Bool.true_and, decide_eq_true_eq, Nat.not_lt] at hgive
      exact Nat.le_antisymm hh.bounded hgive

/-- Away from the passes all URLs are given. -/
theorem FirstPass.given (h : s.FirstPass) (hh : s.Handed) (hs : ∀ i < maxWorkerThreads, s.loop ≠ .scanning i) :
    s.nVisiting = s.nUrls := by
  rcases h.pass with hpass | ⟨hpoint, -⟩
  · exact hpass
  · have hle : maxWorkerThreads ≤ s.nVisiting := by
      by_contra hlt
      exact hs _ (Nat.lt_of_not_le hlt) hpoint
    exact Nat.le_antisymm hh.bounded (h.small.trans hle)

theorem FirstPass.step {a : PoolStep} (h : s.FirstPass) (hh : s.Handed) (hok : Small s a)
    (hstep : s.step a = some s') : s'.FirstPass := by
  cases a with
  | visitGroup n => exact h.visitGroup hh hok hstep
  | loop =>
    simp only [VisitGroup.step, stepLoop] at hstep
    split at hstep
    · rename_i i hs
      split_ifs at hstep with hi
      · obtain rfl := Option.some.inj hstep
        exact h.scan hh hs hi
      · obtain rfl := Option.some.inj hstep
        refine h.setLoop (h.given hh fun j hj hsj => ?_) (by simp)
        rw [hs] at hsj
        injection hsj with hij
        exact hi (hij ▸ hj)
    · rename_i hs
      have hgiven := h.given hh fun j _ hsj => by simp [hs] at hsj
      split at hstep
      · rename_i i hi
        obtain rfl := Option.some.inj hstep
        have hreset := (h.places i).reset (signalled_finished hi)
        refine ⟨fun j => ?_, h.small, .inl hgiven⟩
        dsimp only [VisitGroup.setLoop, setWorker]
        by_cases hji : j = i
        · subst hji
          rw [Function.update_self]
          simpa using hreset
        · rw [Function.update_of_ne hji]
          exact (h.places j).free fun heq => hji (by injection heq with heq; exact heq.symm)
      · obtain rfl := Option.some.inj hstep
        exact h.setLoop hgiven (loopHead_ne s)
    · rename_i i hs
      have hgiven := h.given hh fun j _ hsj => by simp [hs] at hsj
      obtain rfl := Option.some.inj hstep
      have hcount : (s.count i).FirstPass ∧ (s.count i).nVisiting = (s.count i).nUrls := by
        unfold VisitGroup.count
        split_ifs
        · exact ⟨⟨h.places, h.small, h.pass⟩, hgiven⟩
        · exact ⟨h, hgiven⟩
      exact hcount.1.setLoop hcount.2 (loopHead_ne _)
    · exact absurd hstep (by simp)
  | worker i =>
    simp only [VisitGroup.step, internetExplorerWorker] at hstep
    split at hstep
    · rename_i hp
      split_ifs at hstep with hdata
      obtain rfl := Option.some.inj hstep
      refine h.update (h.places i).startVisit fun hclean => ?_
      exact absurd (hclean.1.symm.trans ((hh.occupied i).1 hdata)) (by simp)
    · rename_i url hp
      obtain rfl := Option.some.inj hstep
      have hbusy := ((hh.occupied i).2 url hp).1
      exact h.update ((h.places i).endVisit hbusy) fun hclean => absurd (hclean.1.symm.trans hbusy) (by simp)
    · rename_i hp
      obtain rfl := Option.some.inj hstep
      exact h.update ((h.places i).signal hp) fun hclean => absurd hp hclean.2.1

/-- **Groups of at most `maxWorkerThreads` URLs lose no visit.** -/
theorem counted_of_small (h : Reaches step Small {} s) : s.FirstPass ∧ Reaches step Counted {} s := by
  have hall : s.Handed ∧ s.FirstPass ∧ Reaches step Counted {} s := by
    induction h with
    | start => exact ⟨Handed.start, FirstPass.start, .start⟩
    | next _ hok hstep ih =>
      obtain ⟨hh, hf, hr⟩ := ih
      exact ⟨hh.step hstep, hf.step hh hok hstep, hr.next hf.counted hstep⟩
  exact hall.2

/-- All URLs are given and visited, and the loop waits. -/
structure Spent (s : VisitGroup) : Prop where
  given : s.nVisiting = s.nUrls
  loop : s.loop = .waiting
  idle : s.Idle
  free : ∀ i, (s.worker i).busy = false

/-- A pass in which there is nothing to give. -/
theorem pass (hgiven : s.nVisiting = s.nUrls) (i : ℕ) (hi : i ≤ maxWorkerThreads) :
    Reaches step anyStep (s.setLoop (.scanning i)) (s.setLoop .waiting) := by
  induction hk : maxWorkerThreads - i generalizing i with
  | zero =>
    refine Reaches.start.next (a := .loop) trivial ?_
    have hlast : ¬ i < maxWorkerThreads := by omega
    exact dif_neg hlast
  | succ k ih =>
    have hlt : i < maxWorkerThreads := by omega
    have hscan : (s.setLoop (.scanning i)).scan ⟨i, hlt⟩ = s.setLoop (.scanning i) := by
      have hfull : ¬ s.nVisiting < s.nUrls := by omega
      simp [scan, VisitGroup.setLoop, hfull]
    have hstep : (s.setLoop (.scanning i)).step .loop = some (s.setLoop (.scanning (i + 1))) := by
      have hlook : (s.setLoop (.scanning i)).step .loop =
        some (((s.setLoop (.scanning i)).scan ⟨i, hlt⟩).setLoop (.scanning (i + 1))) := dif_pos hlt
      rw [hlook, hscan]
      rfl
    exact (Reaches.start.next (a := .loop) trivial hstep).trans (ih (i + 1) hlt (by omega))

theorem step_waiting {i : Fin maxWorkerThreads} (hs : s.loop = .waiting) (hi : s.signalled = some i) :
    s.step .loop = some ((s.setWorker i (s.worker i).reset).setLoop (.returned i)) := by
  simp only [step, stepLoop, hs, hi]

theorem step_returned {i : Fin maxWorkerThreads} (hs : s.loop = .returned i) (hi : (s.worker i).busy = false)
    (hn : s.nVisitedUrls + 1 < s.nUrls) :
    s.step .loop = some (setLoop { s with nVisitedUrls := s.nVisitedUrls + 1 } (.scanning 0)) := by
  have hcount : s.count i = { s with nVisitedUrls := s.nVisitedUrls + 1 } := by
    unfold count
    simp [hi]
  have hlook : s.step .loop = some ((s.count i).setLoop (s.count i).loopHead) := by
    simp only [step, stepLoop, hs]
  have hhead : loopHead { s with nVisitedUrls := s.nVisitedUrls + 1 } = .scanning 0 := if_pos hn
  rw [hlook, hcount, hhead]

/-- What is left when the event of a worker has been counted. -/
def counted (s : VisitGroup) (i : Fin maxWorkerThreads) : VisitGroup :=
  { s with
    nVisitedUrls := s.nVisitedUrls + 1
    worker := Function.update s.worker i (s.worker i).reset }

theorem Spent.counted (h : s.Spent) (i : Fin maxWorkerThreads) : (s.counted i).Spent where
  given := h.given
  loop := h.loop
  idle := forall_update (P := fun w => w.point = .waiting ∧ w.hasData = false) h.idle (h.idle i)
  free := forall_update (P := fun w => w.busy = false) h.free (h.free i)

/-- The wait returns a worker, its visit is counted, and a pass follows. -/
theorem drainOne (h : s.Spent) {i : Fin maxWorkerThreads} (hi : s.signalled = some i)
    (hn : s.nVisitedUrls + 1 < s.nUrls) : Reaches step anyStep s (s.counted i) := by
  have hwait : Reaches step anyStep s _ := .one trivial (step_waiting h.loop hi)
  have hcount : Reaches step anyStep _ ((s.counted i).setLoop (.scanning 0)) :=
    .one trivial (step_returned (s := (s.setWorker i (s.worker i).reset).setLoop (.returned i)) rfl
      ((h.counted i).free i) hn)
  have hback : (s.counted i).setLoop .waiting = s.counted i := by
    rw [← (h.counted i).loop]
    rfl
  have hpass := pass (s := s.counted i) h.given 0 (Nat.zero_le _)
  rw [hback] at hpass
  exact (hwait.trans hcount).trans hpass

/-- The events that are set. -/
def pending (s : VisitGroup) : ℕ := ∑ i, if (s.worker i).finished then 1 else 0

/-- **The events are counted one by one**, and if they are too few the loop waits on. -/
theorem drain (h : s.Spent) (hn : s.nVisitedUrls + s.pending < s.nUrls) :
    ∃ t, Reaches step anyStep s t ∧ t.Spent ∧ t.NoneFinished ∧ t.nUrls = s.nUrls ∧ t.visited = s.visited := by
  induction hk : s.pending generalizing s with
  | zero =>
    have hnone : ∀ i, (s.worker i).finished = false := by
      intro i
      have hi := (Finset.sum_eq_zero_iff.1 hk) i (Finset.mem_univ i)
      grind
    exact ⟨s, .start, h, ⟨hnone, fun i => by simp [h.loop]⟩, rfl, rfl⟩
  | succ k ih =>
    obtain ⟨i, hi⟩ : ∃ i, s.signalled = some i := by
      rw [← Option.isSome_iff_exists, signalled, List.find?_isSome]
      by_contra hall
      push Not at hall
      have hzero : s.pending = 0 := Finset.sum_eq_zero fun i _ => if_neg (hall i (List.mem_finRange i))
      omega
    have hless : (s.counted i).pending = k := by
      have hsum := sum_update_add (fun w : Worker => if w.finished then 1 else 0) s.worker i (s.worker i).reset
      rw [signalled_finished hi] at hsum
      have hset : (s.counted i).pending + 1 = s.pending + 0 := hsum
      omega
    have hn' : (s.counted i).nVisitedUrls + k < (s.counted i).nUrls := by
      have hadd : s.nVisitedUrls + 1 + k < s.nUrls := by omega
      exact hadd
    obtain ⟨t, ht, hspent, hnone, hurls, hvisited⟩ := ih (h.counted i) (hless ▸ hn') hless
    have hone := drainOne h hi (by omega)
    exact ⟨t, hone.trans ht, hspent, hnone, hurls, hvisited⟩

theorem two_workers : 1 < maxWorkerThreads := by
  unfold maxWorkerThreads
  decide

def first : Fin maxWorkerThreads := ⟨0, Nat.zero_lt_of_lt two_workers⟩

def second : Fin maxWorkerThreads := ⟨1, two_workers⟩

/-- A worker visits the URL that it was given. -/
def visit (i : Fin maxWorkerThreads) : List PoolStep := [.worker i, .worker i, .worker i]

def loops (n : ℕ) : List PoolStep := List.replicate n .loop

theorem three_workers : 2 < maxWorkerThreads := by
  unfold maxWorkerThreads
  decide

def third : Fin maxWorkerThreads := ⟨2, three_workers⟩

/-- A group of three URLs. The workers begin in one order and end in another. -/
def threeUrls : List PoolStep :=
  [[.visitGroup 3], loops 61, [.worker first, .worker third], visit second, [.worker third, .worker third], loops 63,
    [.worker first, .worker first], loops 65].flatten

theorem small_threeUrls (s : VisitGroup) : ∀ a ∈ threeUrls, Small s a := by
  intro a ha
  have hcases : a = .visitGroup 3 ∨ a = .loop ∨ ∃ i, a = .worker i := by
    simp only [threeUrls, loops, visit, List.flatten_cons, List.flatten_nil, List.mem_append, List.mem_replicate,
      List.mem_cons, List.not_mem_nil] at ha
    grind
  rcases hcases with rfl | rfl | ⟨i, rfl⟩
  · exact three_workers
  · trivial
  · trivial

/-- All URLs are visited, the workers are idle and no event is set. -/
def isDone (s : VisitGroup) : Bool :=
  s.nUrls = 3 && s.loop = .exited && s.visited = [1, 2, 0] && (List.finRange maxWorkerThreads).all fun i =>
    (s.worker i).point = .waiting && !(s.worker i).hasData && !(s.worker i).finished

theorem threeUrls_isDone : (run step {} threeUrls).any isDone = true := by decide +kernel

/-- The visits of three workers are counted. -/
theorem visits_counted_three : ∃ s, run step {} threeUrls = some s ∧ s.nVisitedUrls = 3 := by
  obtain ⟨s, hrun, hs⟩ : ∃ s, run step {} threeUrls = some s ∧ isDone s = true := by
    have hdone := threeUrls_isDone
    rwa [Option.any_eq_true] at hdone
  simp only [isDone, Bool.and_eq_true, decide_eq_true_eq, List.all_eq_true, Bool.not_eq_true'] at hs
  obtain ⟨⟨⟨hurls, hloop⟩, hvisited⟩, hworkers⟩ := hs
  have hsmall : Reaches step Small {} s := Reaches.of_run (fun a ha t => small_threeUrls t a ha) hrun
  refine ⟨s, hrun, ?_⟩
  rw [← hurls]
  refine ((visits_counted s).1 (counted_of_small hsmall).2 ?_ ?_ ?_).1
  · intro url hurl
    rw [hvisited]
    simp only [List.mem_cons, List.not_mem_nil]
    omega
  · exact fun i => (hworkers i (List.mem_finRange i)).1
  · exact ⟨fun i => (hworkers i (List.mem_finRange i)).2, fun i => by simp [hloop]⟩

/-- One URL more than there are workers. The second worker ends its visit. Before the loop looks for
free workers again, the first is not busy any more, and it gets the last URL before it signals its
first visit. The loop then finds it busy. -/
def lateSignal : List PoolStep :=
  [[.visitGroup 61], loops 61, visit second, [.loop, .worker first, .worker first, .loop, .loop, .worker first],
    loops 62, visit first, ((List.finRange maxWorkerThreads).drop 2).flatMap visit, loops 61].flatten

/-- All URLs are visited, and two of the events are gone. -/
def isShort (s : VisitGroup) : Bool :=
  s.nUrls = 61 && s.nVisiting = 61 && s.nVisitedUrls + s.pending < 61 && s.loop = .waiting &&
    (List.range 61).all (· ∈ s.visited) && (List.finRange maxWorkerThreads).all fun i =>
      (s.worker i).point = .waiting && !(s.worker i).hasData && !(s.worker i).busy

theorem lateSignal_isShort : (run step {} lateSignal).any isShort = true := by decide +kernel

/-- **A visit can stay uncounted**: all URLs are visited, the workers are idle and no event is left,
and the loop waits for more. -/
theorem visit_uncounted : ¬ ∀ s, Reaches step anyStep {} s → s.AllVisited → s.Idle → s.NoneFinished →
    s.nVisitedUrls = s.nUrls := by
  intro hall
  obtain ⟨s, hrun, hs⟩ : ∃ s, run step {} lateSignal = some s ∧ isShort s = true := by
    have hshort := lateSignal_isShort
    rwa [Option.any_eq_true] at hshort
  simp only [isShort, Bool.and_eq_true, decide_eq_true_eq, List.all_eq_true, Bool.not_eq_true', List.mem_range] at hs
  obtain ⟨⟨⟨⟨⟨hurls, hgiven⟩, hless⟩, hloop⟩, hvisited⟩, hidle⟩ := hs
  have hspent : s.Spent := by
    refine ⟨hgiven.trans hurls.symm, hloop, fun i => ?_, fun i => (hidle i (List.mem_finRange i)).2⟩
    exact (hidle i (List.mem_finRange i)).1
  obtain ⟨t, ht, htspent, hnone, hturls, htvisited⟩ := drain hspent (hurls ▸ hless)
  have hreach : Reaches step anyStep {} t := (Reaches.of_run (fun _ _ _ => trivial) hrun).trans ht
  have hallVisited : t.AllVisited := by
    intro url hurl
    rw [htvisited]
    exact hvisited url (by omega)
  have hcounted := hall t hreach hallVisited htspent.idle hnone
  have hrunning := (handed_of_reaches hreach).running
  rw [htspent.loop] at hrunning
  exact absurd hcounted (Nat.ne_of_lt hrunning)

end CaptureHPC.Cpp.VisitGroup
