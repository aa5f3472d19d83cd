import CaptureHPC.Spec.RevertServer

/-!
# Revert requests

A machine that waits to be reverted has an item in the queue, or a `setState` that still
notifies (`Pending.waiting`), as long as no request falls between the worker's two last
operations (`revert_kept`). There it is lost (`revert_lost`): the item that suppresses the new
one has already been worked on, and the worker removes it.
-/

namespace CaptureHPC

open Lib

/-- The call has still to tell the server about the machine. -/
def StateCall.Tells (c : StateCall) (vm : ℕ) : Prop := c = .notifying vm ∨ c = .adding vm

theorem StateCall.Tells.unique {c : StateCall} {v w : ℕ} (hv : c.Tells v) (hw : c.Tells w) : v = w := by
  rcases hv with rfl | rfl <;> rcases hw with h | h <;> simp_all

/-- Another call tells about the machine, so it is told whatever this call does. -/
theorem StateCall.tells_elsewhere {call : ℕ → StateCall} {t v : ℕ} {x : StateCall} (ht : ¬ (call t).Tells v)
    (h : ∃ u, (call u).Tells v) : ∃ u, (Function.update call t x u).Tells v := by
  obtain ⟨u, hu⟩ := h
  have hut : u ≠ t := fun heq => ht (heq ▸ hu)
  refine ⟨u, ?_⟩
  rw [Function.update_of_ne hut]
  exact hu

/-- The machine that the worker is busy with. -/
def RevertWorker.vm : RevertWorker → Option ℕ
  | .idle => none
  | .peeked v | .reverting v | .released v => some v

namespace VirtualMachineServer

variable {vmUniqueId : ℕ → ℕ} {s : VirtualMachineServer} {t vm : ℕ}

/-- A notification that finds an equal item finds one of this machine in the queue, and the worker has
not yet let go of the machine with it; and no exception comes before the notification. -/
def Heard (vmUniqueId : ℕ → ℕ) (s : VirtualMachineServer) : RevertStep → Prop
  | .contains t => ∀ vm, s.call t = .notifying vm → s.queued vmUniqueId vm →
      vm ∈ s.queuedWorkItems ∧ s.worker ≠ .released vm
  | .setStateThrows _ _ => False
  | _ => True

instance (vmUniqueId : ℕ → ℕ) (s : VirtualMachineServer) (a : RevertStep) : Decidable (Heard vmUniqueId s a) :=
  match a with
  | .contains t =>
    match hc : s.call t with
    | .notifying vm => decidable_of_iff
        (s.queued vmUniqueId vm = true → vm ∈ s.queuedWorkItems ∧ s.worker ≠ .released vm)
        ⟨fun h _ hv hq => StateCall.notifying.inj (hc.symm.trans hv) ▸ h (StateCall.notifying.inj (hc.symm.trans hv) ▸ hq),
          fun h => h vm hc⟩
    | .outside | .adding _ => .isTrue fun _ hv => absurd (hc.symm.trans hv) (by simp)
  | .setStateThrows _ _ => inferInstanceAs (Decidable False)
  | .setState .. | .add _ | .peek | .startRevert | .endRevert _ | .release | .remove => .isTrue trivial

/-- What every step keeps. -/
structure Pending (s : VirtualMachineServer) : Prop where
  waiting : ∀ v, s.vmState v = .waitingToBeReverted →
    (∃ u, (s.call u).Tells v) ∨ v ∈ s.queuedWorkItems ∧ s.worker ≠ .released v
  owned : ∀ u v, (s.call u).Tells v → s.monitor v = some (.call u)
  unqueued : ∀ u v, s.call u = .adding v → v ∉ s.queuedWorkItems
  reverting : ∀ v, s.worker = .reverting v → s.monitor v = some .worker ∧ s.vmState v ≠ .waitingToBeReverted
  head : ∀ v, s.worker.vm = some v → s.queuedWorkItems.head? = some v

theorem Pending.start : ({} : VirtualMachineServer).Pending where
  waiting v h := by
    have hs : VmState.stopped = .waitingToBeReverted := h
    exact absurd hs (by decide)
  owned u v h := by
    have hu : StateCall.outside.Tells v := h
    simp [StateCall.Tells] at hu
  unqueued u v h := List.not_mem_nil
  reverting v h := by
    have hw : RevertWorker.idle = .reverting v := h
    exact absurd hw (by simp)
  head v h := by
    have hw : RevertWorker.idle.vm = some v := h
    exact absurd hw (by simp [RevertWorker.vm])

/-- A machine whose monitor is free is in nobody's hands. -/
theorem Pending.free (h : s.Pending) (hfree : s.monitor vm = none) :
    (∀ u, ¬ (s.call u).Tells vm) ∧ s.worker ≠ .reverting vm := by
  constructor
  · intro u hu
    have hown := h.owned u vm hu
    rw [hfree] at hown
    exact absurd hown (by simp)
  · intro hw
    have hown := (h.reverting vm hw).1
    rw [hfree] at hown
    exact absurd hown (by simp)

/-- The call that tells about a machine is the only one. -/
theorem Pending.teller (h : s.Pending) {u : ℕ} (ht : (s.call t).Tells vm) (hu : (s.call u).Tells vm) : u = t := by
  have h1 := h.owned t vm ht
  have h2 := h.owned u vm hu
  rw [h1] at h2
  simpa using h2.symm

/-- A machine's state changes while its monitor is free, and the server need not know. -/
theorem Pending.update {newState : VmState} (h : s.Pending) (hfree : s.monitor vm = none)
    (hnew : newState ≠ .waitingToBeReverted) :
    Pending { s with vmState := Function.update s.vmState vm newState } where
  waiting v hv := by
    by_cases hvm : v = vm
    · subst hvm
      exact absurd ((Function.update_self ..).symm.trans hv) hnew
    · exact h.waiting v ((Function.update_of_ne hvm ..).symm.trans hv)
  owned := h.owned
  unqueued := h.unqueued
  reverting v hv := by
    have hne : v ≠ vm := fun heq => (h.free hfree).2 (heq ▸ hv)
    have hrev := h.reverting v hv
    rw [← Function.update_of_ne hne newState s.vmState] at hrev
    exact hrev
  head := h.head

/-- A machine is to be reverted, and the notification begins. -/
theorem Pending.notify (h : s.Pending) (hout : s.call t = .outside) (hfree : s.monitor vm = none) :
    Pending { s with
      vmState := Function.update s.vmState vm .waitingToBeReverted
      monitor := Function.update s.monitor vm (some (.call t))
      call := Function.update s.call t (.notifying vm) } where
  waiting v hv := by
    by_cases hvm : v = vm
    · exact .inl ⟨t, by simp [StateCall.Tells, hvm]⟩
    · rcases h.waiting v ((Function.update_of_ne hvm ..).symm.trans hv) with hu | hq
      · exact .inl (StateCall.tells_elsewhere (by simp [StateCall.Tells, hout]) hu)
      · exact .inr hq
  owned u v hu := by
    have hown := h.owned u v
    have hvm := (h.free hfree).1 u
    grind [Function.update_apply, StateCall.Tells]
  unqueued u v hu := by
    have hq := h.unqueued u v
    grind [Function.update_apply]
  reverting v hv := by
    have hrev := h.reverting v hv
    have hvm := (h.free hfree).2
    grind [Function.update_apply]
  head := h.head

/-- The queue has an equal item, of this machine. -/
theorem Pending.found (h : s.Pending) (ht : s.call t = .notifying vm) (hq : vm ∈ s.queuedWorkItems)
    (hw : s.worker ≠ .released vm) :
    Pending { s with
      monitor := Function.update s.monitor vm none
      call := Function.update s.call t .outside } where
  waiting v hv := by
    by_cases hvm : v = vm
    · subst hvm
      exact .inr ⟨hq, hw⟩
    · rcases h.waiting v hv with hu | hq
      · exact .inl (StateCall.tells_elsewhere (fun hv => hvm (hv.unique (.inl ht))) hu)
      · exact .inr hq
  owned u v hu := by
    have hown := h.owned u v
    have hteller := h.teller (u := u) (.inl ht)
    grind [Function.update_apply, StateCall.Tells]
  unqueued u v hu := by
    have hq := h.unqueued u v
    grind [Function.update_apply]
  reverting v hv := by
    have hrev := h.reverting v hv
    have hown := h.owned t vm (.inl ht)
    grind [Function.update_apply]
  head := h.head

/-- The queue has no equal item. -/
theorem Pending.notFound (h : s.Pending) (ht : s.call t = .notifying vm) (hq : vm ∉ s.queuedWorkItems) :
    Pending { s with call := Function.update s.call t (.adding vm) } where
  waiting v hv := by
    rcases h.waiting v hv with ⟨u, hu⟩ | hq
    · refine .inl ⟨u, ?_⟩
      grind [Function.update_apply, StateCall.Tells]
    · exact .inr hq
  owned u v hu := by
    have hown := h.owned u v
    grind [Function.update_apply, StateCall.Tells]
  unqueued u v hu := by
    have hun := h.unqueued u v
    grind [Function.update_apply]
  reverting := h.reverting
  head := h.head

theorem Pending.add (h : s.Pending) (ht : s.call t = .adding vm) :
    Pending { s with
      queuedWorkItems := s.queuedWorkItems ++ [vm]
      monitor := Function.update s.monitor vm none
      call := Function.update s.call t .outside } where
  waiting v hv := by
    by_cases hvm : v = vm
    · -- the worker has not just left this machine, since it is not in the queue
      have hw : s.worker ≠ .released vm := by
        intro hw
        have hhead := h.head vm (by rw [hw, RevertWorker.vm])
        exact h.unqueued t vm ht (List.mem_of_head? hhead)
      exact .inr (by simpa [hvm] using hw)
    · rcases h.waiting v hv with hu | ⟨hq, hw⟩
      · exact .inl (StateCall.tells_elsewhere (fun hv => hvm (hv.unique (.inr ht))) hu)
      · exact .inr ⟨List.mem_append_left _ hq, hw⟩
  owned u v hu := by
    have hown := h.owned u v
    have hteller := h.teller (u := u) (.inr ht)
    grind [Function.update_apply, StateCall.Tells]
  unqueued u v hu := by
    have hun := h.unqueued u v
    have hteller := h.teller (u := u) (.inr ht)
    grind [Function.update_apply, StateCall.Tells]
  reverting v hv := by
    have hrev := h.reverting v hv
    have hown := h.owned t vm (.inr ht)
    grind [Function.update_apply]
  head v hv := by
    have hhead := h.head v hv
    rw [List.head?_append, hhead, Option.some_or]

theorem Pending.peek {rest : List ℕ} (h : s.Pending) (hw : s.worker = .idle)
    (hq : s.queuedWorkItems = vm :: rest) : Pending { s with worker := .peeked vm } where
  waiting v hv := by
    have hwait := h.waiting v hv
    simpa [hw] using hwait
  owned := h.owned
  unqueued := h.unqueued
  reverting v hv := by simp at hv
  head v hv := by
    have hvm : vm = v := by simpa [RevertWorker.vm] using hv
    rw [hq, hvm, List.head?_cons]

theorem Pending.startRevert (h : s.Pending) (hw : s.worker = .peeked vm) (hfree : s.monitor vm = none) :
    Pending { s with
      vmState := Function.update s.vmState vm .reverting
      monitor := Function.update s.monitor vm (some .worker)
      worker := .reverting vm } where
  waiting v hv := by
    have hwait := h.waiting v
    grind [Function.update_apply]
  owned u v hu := by
    have hown := h.owned u v hu
    grind [Function.update_apply]
  unqueued := h.unqueued
  reverting v hv := by grind [Function.update_apply]
  head v hv := by
    refine h.head v ?_
    rw [hw]
    exact hv

theorem Pending.endRevert {newState : VmState} (h : s.Pending) (hw : s.worker = .reverting vm)
    (hnew : newState ≠ .waitingToBeReverted) :
    Pending { s with vmState := Function.update s.vmState vm newState } where
  waiting v hv := by
    have hwait := h.waiting v
    grind [Function.update_apply]
  owned := h.owned
  unqueued := h.unqueued
  reverting v hv := by
    have hrev := h.reverting v hv
    grind [Function.update_apply]
  head := h.head

theorem Pending.release (h : s.Pending) (hw : s.worker = .reverting vm) :
    Pending { s with monitor := Function.update s.monitor vm none, worker := .released vm } where
  waiting v hv := by
    have hrev := h.reverting vm hw
    have hwait := h.waiting v hv
    grind
  owned u v hu := by
    have hrev := h.reverting vm hw
    have hown := h.owned u v hu
    grind [Function.update_apply]
  unqueued := h.unqueued
  reverting v hv := by simp at hv
  head v hv := by
    refine h.head v ?_
    rw [hw]
    exact hv

/-- The worker removes the item that it worked on. -/
theorem Pending.remove (h : s.Pending) (hw : s.worker = .released vm) :
    Pending { s with
      queuedWorkItems := s.queuedWorkItems.eraseP fun w => vmUniqueId w = vmUniqueId vm
      worker := .idle } := by
  have hhead := h.head vm (by rw [hw, RevertWorker.vm])
  obtain ⟨rest, hrest⟩ := List.head?_eq_some_iff.1 hhead
  have herase : (s.queuedWorkItems.eraseP fun w => vmUniqueId w = vmUniqueId vm) = rest := by
    rw [hrest, List.eraseP_cons_of_pos (by simp)]
  rw [herase]
  refine ⟨fun v hv => ?_, h.owned, fun u v hu => ?_, fun v hv => ?_, fun v hv => ?_⟩
  · have hwait := h.waiting v hv
    rw [hrest] at hwait
    grind
  · have hun := h.unqueued u v hu
    rw [hrest, List.mem_cons, not_or] at hun
    exact hun.2
  · simp at hv
  · simp [RevertWorker.vm] at hv

/-- **One step.** -/
theorem Pending.step {s' : VirtualMachineServer} {a : RevertStep} (h : s.Pending) (hok : Heard vmUniqueId s a)
    (hstep : s.step vmUniqueId a = some s') : s'.Pending := by
  cases a with
  | setState t vm newState =>
    simp only [VirtualMachineServer.step] at hstep
    split_ifs at hstep with hguard hsame hnew
    · exact Option.some.inj hstep ▸ h
    · subst hnew
      exact Option.some.inj hstep ▸ h.notify hguard.1 hguard.2
    · exact Option.some.inj hstep ▸ h.update hguard.2 hnew
  | setStateThrows t vm => exact hok.elim
  | contains t =>
    simp only [VirtualMachineServer.step] at hstep
    split at hstep
    · rename_i vm ht
      split_ifs at hstep with hfound
      · obtain ⟨hmem, hrel⟩ := hok vm ht hfound
        exact Option.some.inj hstep ▸ h.found ht hmem hrel
      · have hq : vm ∉ s.queuedWorkItems := fun hmem =>
          hfound (List.any_eq_true.2 ⟨vm, hmem, decide_eq_true rfl⟩)
        exact Option.some.inj hstep ▸ h.notFound ht hq
    · exact absurd hstep (by simp)
  | add t =>
    simp only [VirtualMachineServer.step] at hstep
    split at hstep
    · rename_i vm ht
      exact Option.some.inj hstep ▸ h.add ht
    · exact absurd hstep (by simp)
  | peek =>
    simp only [VirtualMachineServer.step] at hstep
    split at hstep
    · rename_i vm rest hw hq
      exact Option.some.inj hstep ▸ h.peek hw hq
    · exact absurd hstep (by simp)
  | startRevert =>
    simp only [VirtualMachineServer.step] at hstep
    split at hstep
    · rename_i vm hw
      split_ifs at hstep with hfree
      exact Option.some.inj hstep ▸ h.startRevert hw hfree
    · exact absurd hstep (by simp)
  | endRevert success =>
    simp only [VirtualMachineServer.step] at hstep
    split at hstep
    · rename_i vm hw
      have hnew : (if success then VmState.running else .error) ≠ .waitingToBeReverted := by
        split_ifs <;> decide
      exact Option.some.inj hstep ▸ h.endRevert hw hnew
    · exact absurd hstep (by simp)
  | release =>
    simp only [VirtualMachineServer.step] at hstep
    split at hstep
    · rename_i vm hw
      exact Option.some.inj hstep ▸ h.release hw
    · exact absurd hstep (by simp)
  | remove =>
    simp only [VirtualMachineServer.step] at hstep
    split at hstep
    · rename_i vm hw
      exact Option.some.inj hstep ▸ h.remove hw
    · exact absurd hstep (by simp)

/-- **Runs.** -/
theorem pending_of_reaches (h : Reaches (step vmUniqueId) (Heard vmUniqueId) {} s) : s.Pending :=
  h.invariant Pending.start fun _ _ _ hs hok hstep => hs.step hok hstep

/-- **A revert request is kept** when every notification is heard: in a state in which no thread
notifies and the worker is between two iterations, a machine that waits to be reverted has its item
in the queue. -/
theorem revert_kept (vmUniqueId : ℕ → ℕ) (s : VirtualMachineServer)
    (h : Reaches (step vmUniqueId) (Heard vmUniqueId) {} s) (hq : s.Quiescent) (vm : ℕ)
    (hvm : s.vmState vm = .waitingToBeReverted) : vm ∈ s.queuedWorkItems := by
  rcases (pending_of_reaches h).waiting vm hvm with ⟨u, hu⟩ | ⟨hmem, -⟩
  · rw [hq.1 u] at hu
    simp [StateCall.Tells] at hu
  · exact hmem

/-- A machine is reverted, and another one is to be reverted meanwhile. When the worker is through with it, the
first is to be reverted again. -/
def revertsTwice : List RevertStep :=
  [.setState 0 0 .waitingToBeReverted, .contains 0, .add 0, .peek, .startRevert, .setState 1 1 .waitingToBeReverted,
    .contains 1, .add 1, .endRevert true, .release, .remove, .setState 0 0 .waitingToBeReverted, .contains 0, .add 0]

theorem revert_kept_twice : ∃ s, run (guarded (step id) (Heard id)) {} revertsTwice = some s ∧
    0 ∈ s.queuedWorkItems ∧ 1 ∈ s.queuedWorkItems := by
  obtain ⟨s, hs⟩ : ∃ s, run (guarded (step id) (Heard id)) {} revertsTwice = some s := ⟨_, rfl⟩
  have hwaiting : (s.vmState 0 = .waitingToBeReverted ∧ s.vmState 1 = .waitingToBeReverted) ∧ s.worker = .idle := by
    have hend := congrArg (Option.map fun s => ((s.vmState 0, s.vmState 1), s.worker)) hs.symm
    obtain ⟨hstates, hworker⟩ := Prod.mk.inj (Option.some.inj hend)
    exact ⟨Prod.mk.inj hstates, hworker⟩
  have hcall : ∀ t, s.call t = .outside := by
    intro t
    have hc := Option.some.inj (congrArg (Option.map (call · t)) hs.symm)
    by_cases h0 : t = 0
    · subst h0
      exact hc
    · by_cases h1 : t = 1
      · subst h1
        exact hc
      · exact hc.trans (by simp [Function.update_of_ne h0])
  have hkept := revert_kept id s (.of_guarded hs) ⟨hcall, hwaiting.2⟩
  exact ⟨s, hs, hkept 0 hwaiting.1.1, hkept 1 hwaiting.1.2⟩

/-- The machine is to be reverted again when the worker has just let its monitor go. -/
def lateRequest : List RevertStep :=
  [.setState 0 0 .waitingToBeReverted, .contains 0, .add 0, .peek, .startRevert, .endRevert true, .release,
    .setState 0 0 .waitingToBeReverted, .contains 0, .remove]

/-- **A revert request can be lost**: no thread notifies, the worker is between two iterations, and
the machine waits with an empty queue. -/
theorem revert_lost : ¬ ∀ s, Reaches (step id) anyStep {} s → s.Quiescent → ∀ vm,
    s.vmState vm = .waitingToBeReverted → vm ∈ s.queuedWorkItems := by
  intro h
  obtain ⟨s, hs⟩ : ∃ s, run (step id) {} lateRequest = some s := ⟨_, rfl⟩
  have hend : some s = run (step id) {} lateRequest := hs.symm
  have hq : s.queuedWorkItems = [] := by
    have := congrArg (Option.map queuedWorkItems) hend
    exact Option.some.inj this
  have hvm : s.vmState 0 = .waitingToBeReverted := by
    have := congrArg (Option.map (vmState · 0)) hend
    exact Option.some.inj this
  have hw : s.worker = .idle := by
    have := congrArg (Option.map worker) hend
    exact Option.some.inj this
  have hcall : ∀ t, s.call t = .outside := by
    intro t
    have hc := Option.some.inj (congrArg (Option.map (call · t)) hend)
    by_cases ht : t = 0
    · subst ht
      exact hc
    · exact hc.trans (by simp [Function.update_of_ne ht])
  have hmem := h s (Reaches.of_run (fun _ _ _ => trivial) hs) ⟨hcall, hw⟩ 0 hvm
  rw [hq] at hmem
  exact absurd hmem List.not_mem_nil

end VirtualMachineServer

end CaptureHPC
