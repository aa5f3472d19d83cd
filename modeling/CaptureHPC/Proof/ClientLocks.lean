import CaptureHPC.Spec.ClientLocks

/-!
# No deadlock between a client's monitors

Other threads take the retriever's monitor while they hold the machine's, and give it up at
once (`Nested.others`). The retriever's thread takes the machine's while it holds its own, but only
after a write that failed; when no other thread is in the machine's monitor then, there is no
deadlock (`no_deadlock`).
-/

namespace CaptureHPC

open Lib

/-- Is the statement about the machine's monitor, or inside a block that holds it? -/
def LockOp.usesVm : LockOp → Bool
  | exitRetriever | enterRetriever | loop | visit | sendVisit | awaitingVisiting | wait | resume _ => false
  | _ => true

namespace ClientLocks

variable {s s' r : ClientLocks} {t u : LockThread} {op : LockOp} {ops rest : List LockOp} {input : Bool}

def WaitsVm (s : ClientLocks) (t : LockThread) : Prop :=
  (s.stack t).head? = some .enterVm ∧ s.virtualMachine.Blocks t

/-- The next statement enters the retriever's monitor, and another thread holds it. -/
def WaitsRetriever (s : ClientLocks) (t : LockThread) : Prop :=
  (∃ op, (s.stack t).head? = some op ∧ (op = .notifyAll ∨ op = .enterRetriever ∨ ∃ again, op = .resume again)) ∧
    s.urlRetriever.Blocks t

/-- Two threads hold a monitor each and wait for that of the other. -/
def Deadlocked (s : ClientLocks) : Prop :=
  ∃ t u, s.urlRetriever.Holds t ∧ s.WaitsVm t ∧ s.virtualMachine.Holds u ∧ s.WaitsRetriever u

/-- The retriever's thread is in `setClientState`, after a write that failed. -/
def InFailedSend (s : ClientLocks) : Prop := ∃ op ∈ s.stack .urlRetriever, op.usesVm = true

/-- A write of the retriever's thread fails only while no other thread holds the machine's monitor, and
none takes it before the retriever's thread has changed the client's state. -/
def Apart (s : ClientLocks) : LockStep → Prop
  | .next .urlRetriever input => (s.stack .urlRetriever).head? = some .sendVisit → s.clientState ≠ .disconnected →
    input = false → ∀ t, ¬ s.virtualMachine.Holds (.other t)
  | .next (.other t) _ => (s.stack (.other t)).head? = some .enterVm → s.virtualMachine = .free → ¬ s.InFailedSend
  | .call .. => True

/-- What a statement does to the machine's monitor. -/
theorem exec_vm (h : s.exec t input op = some (r, ops)) :
    r.stack = s.stack ∧ (r.virtualMachine = s.virtualMachine ∨
      op = .enterVm ∧ (s.virtualMachine = .free ∨ s.virtualMachine.Holds t) ∧ r.virtualMachine.Holds t ∨
      op = .exitVm ∧ s.virtualMachine.Holds t ∧ (r.virtualMachine = .free ∨ r.virtualMachine.Holds t)) := by
  cases op
  case enterVm =>
    obtain ⟨m, hm, heq⟩ := Option.map_eq_some_iff.1 h
    obtain ⟨rfl, -⟩ := Prod.mk.inj heq
    exact ⟨rfl, .inr (.inl ⟨rfl, (Monitor.enter_some hm).2, (Monitor.enter_some hm).1⟩)⟩
  case exitVm =>
    obtain ⟨m, hm, heq⟩ := Option.map_eq_some_iff.1 h
    obtain ⟨rfl, -⟩ := Prod.mk.inj heq
    exact ⟨rfl, .inr (.inr ⟨rfl, Monitor.exit_some hm⟩)⟩
  case notifyAll | enterRetriever | exitRetriever =>
    obtain ⟨m, -, heq⟩ := Option.map_eq_some_iff.1 h
    obtain ⟨rfl, -⟩ := Prod.mk.inj heq
    exact ⟨rfl, .inl rfl⟩
  case wait =>
    simp only [exec] at h
    split at h
    · split_ifs at h
      obtain ⟨rfl, -⟩ := Prod.mk.inj (Option.some.inj h)
      exact ⟨rfl, .inl rfl⟩
    · exact nomatch h
  case resume =>
    simp only [exec] at h
    split at h
    · obtain ⟨rfl, -⟩ := Prod.mk.inj (Option.some.inj h)
      exact ⟨rfl, .inl rfl⟩
    · exact nomatch h
  all_goals
    simp only [exec] at h
    try split_ifs at h
    all_goals
      obtain ⟨rfl, -⟩ := Prod.mk.inj (Option.some.inj h)
      exact ⟨rfl, .inl rfl⟩

/-- What a statement that other threads come to does to the retriever's monitor. -/
theorem exec_retriever (h : s.exec t input op = some (r, ops)) (hop : op.usesVm = true ∨ op = .exitRetriever) :
    (r.urlRetriever = s.urlRetriever ∧ op ≠ .exitRetriever) ∨
      op = .notifyAll ∧ ops = [.exitRetriever] ∧ s.urlRetriever.enter t = some r.urlRetriever ∨
      op = .exitRetriever ∧ ops = [] ∧ s.urlRetriever.exit t = some r.urlRetriever := by
  cases op
  case notifyAll =>
    obtain ⟨m, hm, heq⟩ := Option.map_eq_some_iff.1 h
    obtain ⟨rfl, rfl⟩ := Prod.mk.inj heq
    exact .inr (.inl ⟨rfl, rfl, hm⟩)
  case exitRetriever =>
    obtain ⟨m, hm, heq⟩ := Option.map_eq_some_iff.1 h
    obtain ⟨rfl, rfl⟩ := Prod.mk.inj heq
    exact .inr (.inr ⟨rfl, rfl, hm⟩)
  case enterVm | exitVm =>
    obtain ⟨m, -, heq⟩ := Option.map_eq_some_iff.1 h
    obtain ⟨rfl, -⟩ := Prod.mk.inj heq
    exact .inl ⟨rfl, by simp⟩
  case enterRetriever | loop | visit | sendVisit | awaitingVisiting | wait | resume =>
    exact absurd hop (by simp [LockOp.usesVm])
  all_goals
    simp only [exec] at h
    try split_ifs at h
    all_goals
      obtain ⟨rfl, -⟩ := Prod.mk.inj (Option.some.inj h)
      exact .inl ⟨rfl, by simp⟩

/-- A statement about the machine's monitor is replaced by such statements, and by one that gives the
retriever's monitor up. -/
theorem exec_usesVm (h : s.exec t input op = some (r, ops)) (hop : op.usesVm = true ∨ op = .exitRetriever) :
    ∀ o ∈ ops, o.usesVm = true ∨ o = .exitRetriever := by
  cases op
  case notifyAll | exitRetriever | enterVm | exitVm =>
    obtain ⟨m, -, heq⟩ := Option.map_eq_some_iff.1 h
    obtain ⟨-, rfl⟩ := Prod.mk.inj heq
    simp [LockOp.usesVm]
  case enterRetriever | loop | visit | sendVisit | awaitingVisiting | wait | resume =>
    exact absurd hop (by simp [LockOp.usesVm])
  all_goals
    simp only [exec] at h
    try split_ifs at h
    all_goals
      obtain ⟨-, rfl⟩ := Prod.mk.inj (Option.some.inj h)
      simp [LockOp.usesVm]

/-- Only a failed write leads from the loop of `run` to the machine's monitor. -/
theorem exec_loop (h : s.exec t input op = some (r, ops)) (hop : op.usesVm = false) :
    (∀ o ∈ ops, o.usesVm = false) ∨ op = .sendVisit ∧ s.clientState ≠ .disconnected ∧ input = false := by
  cases op
  case enterRetriever | exitRetriever =>
    obtain ⟨m, -, heq⟩ := Option.map_eq_some_iff.1 h
    obtain ⟨-, rfl⟩ := Prod.mk.inj heq
    exact .inl (by simp [LockOp.usesVm])
  case sendVisit =>
    simp only [exec] at h
    split_ifs at h with hstate hwritten
    · obtain ⟨-, rfl⟩ := Prod.mk.inj (Option.some.inj h)
      exact .inl (by simp)
    · obtain ⟨-, rfl⟩ := Prod.mk.inj (Option.some.inj h)
      exact .inl (by simp [LockOp.usesVm])
    · exact .inr ⟨rfl, hstate, by simpa using hwritten⟩
  case wait =>
    simp only [exec] at h
    split at h
    · split_ifs at h
      obtain ⟨-, rfl⟩ := Prod.mk.inj (Option.some.inj h)
      exact .inl (by simp [LockOp.usesVm])
    · exact nomatch h
  case resume =>
    simp only [exec] at h
    split at h
    · obtain ⟨-, rfl⟩ := Prod.mk.inj (Option.some.inj h)
      exact .inl (by simp)
    · exact nomatch h
  case loop | visit | awaitingVisiting =>
    simp only [exec] at h
    try split_ifs at h
    all_goals
      obtain ⟨-, rfl⟩ := Prod.mk.inj (Option.some.inj h)
      exact .inl (by simp [LockOp.usesVm])
  all_goals exact nomatch hop

/-- What every step keeps. -/
structure Nested (s : ClientLocks) : Prop where
  /-- Another thread that holds the retriever's monitor gives it up next. -/
  others : ∀ t again, s.urlRetriever = .held (.other t) again →
    again = 0 ∧ (s.stack (.other t)).head? = some .exitRetriever
  ops : ∀ t, ∀ op ∈ s.stack (.other t), op.usesVm = true ∨ op = .exitRetriever
  /-- In a failed send of the retriever's thread no other thread holds the machine's monitor. -/
  apart : s.InFailedSend → ∀ t, ¬ s.virtualMachine.Holds (.other t)

theorem Nested.start : Nested {} where
  others _ _ h := nomatch h
  ops _ _ h := nomatch h
  apart _ _ h := Monitor.not_holds_free h

/-- A statement leaves the retriever's monitor to nobody but its thread. -/
theorem exec_retriever_holds (h : s.exec t input op = some (r, ops)) :
    r.urlRetriever = s.urlRetriever ∨ r.urlRetriever = .free ∨ r.urlRetriever.Holds t := by
  by_cases hop : op.usesVm = true ∨ op = .exitRetriever
  · rcases exec_retriever h hop with ⟨hsame, -⟩ | ⟨-, -, henter⟩ | ⟨-, -, hexit⟩
    · exact .inl hsame
    · exact .inr (.inr (Monitor.enter_some henter).1)
    · exact .inr (Monitor.exit_some hexit).2
  · cases op
    case enterRetriever =>
      obtain ⟨m, hm, heq⟩ := Option.map_eq_some_iff.1 h
      obtain ⟨rfl, -⟩ := Prod.mk.inj heq
      exact .inr (.inr (Monitor.enter_some hm).1)
    case wait =>
      simp only [exec] at h
      split at h
      · split_ifs at h
        obtain ⟨rfl, -⟩ := Prod.mk.inj (Option.some.inj h)
        exact .inr (.inl rfl)
      · exact nomatch h
    case resume again =>
      simp only [exec] at h
      split at h
      · obtain ⟨rfl, -⟩ := Prod.mk.inj (Option.some.inj h)
        exact .inr (.inr ⟨again, rfl⟩)
      · exact nomatch h
    case loop | visit | sendVisit | awaitingVisiting =>
      simp only [exec] at h
      try split_ifs at h
      all_goals
        obtain ⟨rfl, -⟩ := Prod.mk.inj (Option.some.inj h)
        exact .inl rfl
    all_goals exact absurd hop (by simp [LockOp.usesVm])

section step

/-- Another thread makes a call. -/
theorem Nested.call (h : s.Nested) {t : ℕ} (hidle : s.stack (.other t) = []) (request : LockRequest) :
    Nested { s with stack := Function.update s.stack (.other t) request.ops } where
  others t' again hheld := by
    obtain ⟨hagain, hhead⟩ := h.others t' again hheld
    have hne : LockThread.other t' ≠ .other t := by
      intro heq
      rw [heq, hidle] at hhead
      exact nomatch hhead
    refine ⟨hagain, ?_⟩
    dsimp only
    rw [Function.update_of_ne hne]
    exact hhead
  ops t' op hop := by
    by_cases heq : LockThread.other t' = .other t
    · dsimp only at hop
      rw [heq, Function.update_self] at hop
      left
      cases request with
      | revert states =>
        simp only [LockRequest.ops, List.mem_append, List.mem_cons, List.mem_map, List.not_mem_nil, or_false] at hop
        rcases hop with (rfl | ⟨state, -, rfl⟩) | rfl <;> rfl
      | _ =>
        obtain rfl := List.mem_singleton.1 hop
        rfl
    · dsimp only at hop
      rw [Function.update_of_ne heq] at hop
      exact h.ops t' op hop
  apart hsend := by
    unfold InFailedSend at hsend
    dsimp only at hsend
    rw [Function.update_of_ne (by simp)] at hsend
    exact h.apart hsend

/-- A statement of another thread. -/
theorem Nested.nextOther (h : s.Nested) {t : ℕ} (hstack : s.stack (.other t) = op :: rest)
    (hok : s.Apart (.next (.other t) input)) (hexec : s.exec (.other t) input op = some (r, ops)) :
    Nested { r with stack := Function.update r.stack (.other t) (ops ++ rest) } := by
  have hop := h.ops t op (hstack ▸ List.mem_cons_self)
  obtain ⟨hstacks, hvm⟩ := exec_vm hexec
  refine ⟨fun t' again hheld => ?_, fun t' o ho => ?_, fun hsend => ?_⟩
  · dsimp only at hheld ⊢
    rcases exec_retriever hexec hop with ⟨hsame, hne⟩ | ⟨rfl, rfl, henter⟩ | ⟨rfl, rfl, hexit⟩
    · rw [hsame] at hheld
      obtain ⟨hagain, hhead⟩ := h.others t' again hheld
      have hother : LockThread.other t' ≠ .other t := by
        intro heq
        rw [heq, hstack] at hhead
        exact hne (Option.some.inj hhead)
      rw [Function.update_of_ne hother, hstacks]
      exact ⟨hagain, hhead⟩
    · -- the monitor was free: the thread did not hold it, since it does not give it up next
      rcases (Monitor.enter_some henter).2 with hfree | ⟨again', hagain'⟩
      · rw [hfree] at henter
        have heq := (Option.some.inj henter).trans hheld
        obtain ⟨hthread, hagain⟩ := Monitor.held.inj heq
        rw [← hthread, Function.update_self]
        exact ⟨hagain.symm, rfl⟩
      · have hhead := (h.others t again' hagain').2
        rw [hstack] at hhead
        cases hhead
    · obtain ⟨again', hagain'⟩ := (Monitor.exit_some hexit).1
      obtain ⟨rfl, -⟩ := h.others t again' hagain'
      rw [hagain'] at hexit
      simp only [Monitor.exit, if_true] at hexit
      rw [← Option.some.inj hexit] at hheld
      cases hheld
  · dsimp only at ho
    by_cases heq : LockThread.other t' = .other t
    · rw [heq, Function.update_self] at ho
      rcases List.mem_append.1 ho with ho | ho
      · exact exec_usesVm hexec hop o ho
      · exact h.ops t o (hstack ▸ List.mem_cons_of_mem op ho)
    · rw [Function.update_of_ne heq, hstacks] at ho
      exact h.ops t' o ho
  · unfold InFailedSend at hsend
    dsimp only at hsend ⊢
    rw [Function.update_of_ne (by simp), hstacks] at hsend
    rcases hvm with hsame | ⟨rfl, hfree | hholds, -⟩ | ⟨-, hholds, -⟩
    · rw [hsame]
      exact h.apart hsend
    · exact absurd hsend (hok (by rw [hstack]; rfl) hfree)
    · exact absurd hholds (h.apart hsend t)
    · exact absurd hholds (h.apart hsend t)

/-- A statement of the retriever's thread. -/
theorem Nested.nextRetriever (h : s.Nested) (hstack : s.stack .urlRetriever = op :: rest)
    (hok : s.Apart (.next .urlRetriever input)) (hexec : s.exec .urlRetriever input op = some (r, ops)) :
    Nested { r with stack := Function.update r.stack .urlRetriever (ops ++ rest) } := by
  obtain ⟨hstacks, hvm⟩ := exec_vm hexec
  refine ⟨fun t again hheld => ?_, fun t o ho => ?_, fun hsend t hholds => ?_⟩
  · dsimp only at hheld ⊢
    rw [Function.update_of_ne (by simp), hstacks]
    rcases exec_retriever_holds hexec with hsame | hfree | ⟨again', hheld'⟩
    · exact h.others t again (hsame ▸ hheld)
    · exact nomatch hfree.symm.trans hheld
    · exact nomatch (Monitor.held.inj (hheld'.symm.trans hheld)).1
  · dsimp only at ho
    rw [Function.update_of_ne (by simp), hstacks] at ho
    exact h.ops t o ho
  · obtain ⟨o, ho, huses⟩ := hsend
    dsimp only at ho hholds
    rw [Function.update_self] at ho
    by_cases hsend' : s.InFailedSend
    · rcases hvm with hsame | ⟨-, -, hown⟩ | ⟨-, -, hfree | hown⟩
      · exact h.apart hsend' t (hsame ▸ hholds)
      · exact nomatch hown.unique hholds
      · exact Monitor.not_holds_free (hfree ▸ hholds)
      · exact nomatch hown.unique hholds
    · -- the write has failed
      have hnot : ∀ o' ∈ op :: rest, o'.usesVm = false := fun o' ho' =>
        Bool.not_eq_true _ ▸ fun huses' => hsend' ⟨o', hstack ▸ ho', huses'⟩
      rcases exec_loop hexec (hnot op List.mem_cons_self) with hops | ⟨rfl, hstate, hwritten⟩
      · rcases List.mem_append.1 ho with ho | ho
        · exact nomatch huses.symm.trans (hops o ho)
        · exact nomatch huses.symm.trans (hnot o (List.mem_cons_of_mem op ho))
      · rcases hvm with hsame | ⟨hop, -, -⟩ | ⟨hop, -, -⟩
        · exact hok (by rw [hstack]; rfl) hstate hwritten t (hsame ▸ hholds)
        · exact nomatch hop
        · exact nomatch hop

/-- **One step.** -/
theorem Nested.step {a : LockStep} (h : s.Nested) (hok : s.Apart a) (hstep : s.step a = some s') : s'.Nested := by
  cases a with
  | call t request =>
    simp only [ClientLocks.step] at hstep
    split_ifs at hstep with hidle
    exact Option.some.inj hstep ▸ h.call hidle request
  | next t input =>
    simp only [ClientLocks.step, next] at hstep
    split at hstep
    · exact nomatch hstep
    · rename_i op rest hstack
      obtain ⟨⟨r, ops⟩, hexec, rfl⟩ := Option.map_eq_some_iff.1 hstep
      cases t with
      | urlRetriever => exact h.nextRetriever hstack hok hexec
      | other t => exact h.nextOther hstack hok hexec

end step

theorem Nested.not_deadlocked (h : s.Nested) : ¬ s.Deadlocked := by
  rintro ⟨t, u, ⟨again, hretriever⟩, ⟨hhead, v, hv, hne⟩, -, -⟩
  cases t with
  | other t =>
    have hnext := (h.others t again hretriever).2
    rw [hhead] at hnext
    exact nomatch hnext
  | urlRetriever =>
    cases v with
    | urlRetriever => exact hne rfl
    | other v => exact h.apart ⟨.enterVm, List.mem_of_mem_head? hhead, rfl⟩ v hv

/-- **No deadlock** in the runs in which no state change of another thread meets a failing write of the
retriever's thread. -/
theorem no_deadlock (h : Reaches step Apart {} s) : ¬ s.Deadlocked := by
  have hnested : s.Nested := h.invariant Nested.start fun _ _ _ hs hok hstep => hs.step hok hstep
  exact hnested.not_deadlocked

/-- The retriever's thread is in its loop, and another thread in the machine's monitor. -/
theorem no_deadlock_one : ∃ s : ClientLocks, s.urlRetriever.Holds .urlRetriever ∧
    s.virtualMachine.Holds (.other 0) ∧ ¬ s.Deadlocked := by
  have hloop : Reaches step Apart {} _ := .one (show Apart _ (.next .urlRetriever true) from fun h => nomatch h) rfl
  have hcall := hloop.next (show Apart _ (.call 0 (.setState .running)) from trivial) rfl
  have hbody := hcall.next (show Apart _ (.next (.other 0) true) from fun h => nomatch h) rfl
  have henter := hbody.next (show Apart _ (.next (.other 0) true) from fun _ _ => by
    rintro ⟨op, hmem, huses⟩
    rcases List.mem_cons.1 hmem with rfl | hmem
    · exact nomatch huses
    · obtain rfl := List.mem_singleton.1 hmem
      exact nomatch huses) rfl
  exact ⟨_, ⟨0, rfl⟩, ⟨0, rfl⟩, no_deadlock henter⟩

/-- The statements of one thread, and all its writes succeed. -/
def goOn (t : LockThread) (n : ℕ) : List LockStep := List.replicate n (.next t true)

/-- The client waits for a group and gets one, the write fails, and before the retriever's thread is in
the machine's monitor another thread disconnects the client, too. -/
def failedSend : List LockStep :=
  .call 0 (.setClientState .waiting) :: goOn (.other 0) 10 ++ goOn .urlRetriever 3 ++
    [.next .urlRetriever false, .next .urlRetriever true] ++
    .call 0 (.setClientState .disconnected) :: goOn (.other 0) 10

theorem failedSend_deadlocks : ∃ s, run step {} failedSend = some s ∧ s.Deadlocked := by
  refine ⟨_, rfl, .urlRetriever, .other 0, ⟨0, rfl⟩, ⟨rfl, .other 0, ⟨0, rfl⟩, by simp⟩, ⟨0, rfl⟩,
    ⟨.notifyAll, rfl, .inl rfl⟩, .urlRetriever, ⟨0, rfl⟩, by simp⟩

end ClientLocks

end CaptureHPC
