import CaptureHPC.Proof.GroupSteps

/-!
# What the programs of a client change

A program of the client `c` changes this client, its machine, and the group it visits
(`ClientFrame`). The runs of `disconnect` and `setClientState` follow from those of the
group.
-/

namespace CaptureHPC

open Lib Client

variable {w w' w'' : World} {c g v : ℕ} {s s' : UrlGroupsController}

namespace World

@[simp] theorem setClient_self (c : ℕ) (x : Client) (w : World) : (w.setClient c x).client c = x :=
  Function.update_self _ _ _

theorem setClient_of_ne {d : ℕ} (h : d ≠ c) (x : Client) (w : World) : (w.setClient c x).client d = w.client d :=
  Function.update_of_ne h _ _

@[simp] theorem setVm_self (v : ℕ) (x : VirtualMachine) (w : World) : (w.setVm v x).vm v = x :=
  Function.update_self _ _ _

theorem setVm_of_ne {i : ℕ} (h : i ≠ v) (x : VirtualMachine) (w : World) : (w.setVm v x).vm i = w.vm i :=
  Function.update_of_ne h _ _

end World

/-- Only the client `c` and its machine changed, apart from the groups. -/
structure ClientFrame (c : ℕ) (w w' : World) : Prop where
  nClients : w'.nClients = w.nClients
  others : ∀ d ≠ c, w'.client d = w.client d
  machine : (w'.client c).virtualMachine = (w.client c).virtualMachine
  vms : ∀ v ≠ (w.client c).virtualMachine, w'.vm v = w.vm v

instance : Std.Refl (ClientFrame c) := ⟨fun _ => ⟨rfl, fun _ _ => rfl, rfl, fun _ _ => rfl⟩⟩

theorem ClientFrame.trans (h : ClientFrame c w w') (h' : ClientFrame c w' w'') : ClientFrame c w w'' where
  nClients := h'.nClients.trans h.nClients
  others d hd := (h'.others d hd).trans (h.others d hd)
  machine := h'.machine.trans h.machine
  vms v hv := (h'.vms v (by rw [h.machine]; exact hv)).trans (h.vms v hv)

instance : IsTrans World (ClientFrame c) := ⟨fun _ _ _ => ClientFrame.trans⟩

theorem clientFrame_groups (s : UrlGroupsController) : ClientFrame c w { w with groups := s } :=
  ⟨rfl, fun _ _ => rfl, rfl, fun _ _ => rfl⟩

theorem clientFrame_setClient {x : Client} (hx : x.virtualMachine = (w.client c).virtualMachine) :
    ClientFrame c w (w.setClient c x) :=
  ⟨rfl, fun _ hd => World.setClient_of_ne hd x w, by rw [World.setClient_self, hx], fun _ _ => rfl⟩

theorem clientFrame_setVm (y : VirtualMachine) : ClientFrame c w (w.setVm (w.client c).virtualMachine y) :=
  ⟨rfl, fun _ _ => rfl, rfl, fun _ hv => World.setVm_of_ne hv y w⟩

/-! ## Machines -/

theorem setState_run (v : ℕ) (newState : VmState) (w : World) : ∃ y,
    (VirtualMachine.setState (fun _ => pure ()) v newState).run w = .ok () (w.setVm v y) ∧
      y.vmState = newState ∧ y.client = (w.vm v).client ∧ y.address = (w.vm v).address := by
  unfold VirtualMachine.setState
  rw [run_bind_ok (m := modify _) rfl, EStateM.run_bind, EStateM.run_get]
  set w1 := w.setVm v { w.vm v with vmStateTimeChange := w.now } with hw1
  have hself : w1.vm v = { w.vm v with vmStateTimeChange := w.now } := World.setVm_self _ _ _
  have hset : ∀ y, w1.setVm v y = w.setVm v y := by
    intro y
    show { w1 with vm := Function.update (Function.update w.vm v _) v y } = _
    rw [Function.update_idem]
    rfl
  dsimp only
  split_ifs with h1 h2
  · exact ⟨_, rfl, by rw [h1, hself], rfl, rfl⟩
  · refine ⟨{ w1.vm v with vmState := newState }, ?_, rfl, by rw [hself], by rw [hself]⟩
    rw [← hset]
    split
    · rfl
    · split <;> rfl
  · refine ⟨{ w1.vm v with vmState := newState }, ?_, rfl, by rw [hself], by rw [hself]⟩
    rw [← hset]
    rfl

theorem releaseVm_run (v : ℕ) (w : World) : ∃ y, (releaseVm v).run w = .ok () (w.setVm v y) ∧
    y.vmState = .waitingToBeReverted ∧ y.client = none := by
  unfold releaseVm
  rw [run_bind_ok (m := modifyVm _ _) rfl, EStateM.run_bind, EStateM.run_get]
  set w1 := w.setVm v { w.vm v with client := none } with hw1
  have hself : w1.vm v = { w.vm v with client := none } := World.setVm_self _ _ _
  dsimp only
  split_ifs with h
  · obtain ⟨y, hrun, hst, hcl, -⟩ := setState_run v .waitingToBeReverted w1
    have hset : w1.setVm v y = w.setVm v y := by
      show { w1 with vm := Function.update (Function.update w.vm v _) v y } = _
      rw [Function.update_idem]
      rfl
    exact ⟨y, by rw [hrun, hset], hst, by rw [hcl, hself]⟩
  · rw [not_not] at h
    exact ⟨{ w.vm v with client := none }, rfl, by rw [← hself]; exact h, rfl⟩

/-! ## Disconnecting -/

theorem onGroups_run {α : Type} {m : GroupsM α} {a : α} (h : m.run w.groups = .ok a s) :
    (onGroups m).run w = .ok a { w with groups := s } := run_zoom_ok h

theorem onVisitingGroup_none {m : ℕ → GroupsM Unit} (h : (w.client c).visitingUrlGroup = none) :
    (onVisitingGroup c m).run w = .ok () w := by
  unfold onVisitingGroup
  rw [EStateM.run_bind, EStateM.run_get]
  dsimp only
  rw [h]
  rfl

theorem onVisitingGroup_some {m : ℕ → GroupsM Unit} (h : (w.client c).visitingUrlGroup = some g) :
    (onVisitingGroup c m).run w = (onGroups (m g)).run w := by
  unfold onVisitingGroup
  rw [EStateM.run_bind, EStateM.run_get]
  dsimp only
  rw [h]

/-- A group is given up for the second time. -/
def giveUp (g : ℕ) : GroupsM Unit := do
  setBenign g
  UrlGroup.setMajorErrorCode g ErrorCode.captureClientConnectionReset.errorCode
  UrlGroup.setUrlGroupState g .error

/-- The state of a client whose connection is closed. -/
def Client.closed (x : Client) : Client := { x with downloading := false, socketOpen := false }

/-- What the two halves of `disconnect` do to the groups. -/
inductive GivenUp (s : UrlGroupsController) : Option ℕ → UrlGroupsController → Prop
  | none : GivenUp s none s
  | some {g : ℕ} {s1 s2 : UrlGroupsController} (h1 : (UrlGroup.setUrlGroupState g .error).run s = .ok () s1)
      (h2 : (giveUp g).run s1 = .ok () s2) : GivenUp s (some g) s2

/-- `disconnect` releases the machine, gives the group up and closes the connection. -/
theorem disconnect_run (h : GivenUp w.groups (w.client c).visitingUrlGroup s) : ∃ y,
    (disconnect c).run w =
      .ok () { (w.setVm (w.client c).virtualMachine y).setClient c (w.client c).closed with groups := s } ∧
    y.vmState = .waitingToBeReverted ∧ y.client = none := by
  obtain ⟨y, hvm, hst, hcl⟩ := releaseVm_run (w.client c).virtualMachine w
  refine ⟨y, ?_, hst, hcl⟩
  set w1 := w.setVm (w.client c).virtualMachine y with hw1
  unfold disconnect disconnectFirst disconnectSecond
  cases hg : (w.client c).visitingUrlGroup with
  | none =>
    rw [hg] at h
    cases h
    have hnone : (w1.client c).visitingUrlGroup = none := hg
    have hclosed : ((w1.setClient c (w.client c).closed).client c).visitingUrlGroup = none := by
      rw [World.setClient_self]
      exact hg
    refine (run_bind_ok ((run_bind_ok rfl).trans ((run_bind_ok hvm).trans ((run_bind_ok
      (onVisitingGroup_none hnone)).trans rfl)))).trans ?_
    exact onVisitingGroup_none hclosed
  | some g =>
    rw [hg] at h
    obtain _ | ⟨h1, h2⟩ := h
    rename_i s1
    have hsome : (w1.client c).visitingUrlGroup = some g := hg
    set w2 : World := { w1 with groups := s1 } with hw2
    have hclosed : ((w2.setClient c (w.client c).closed).client c).visitingUrlGroup = some g := by
      rw [World.setClient_self]
      exact hg
    have hfirst : (onVisitingGroup c fun g => UrlGroup.setUrlGroupState g .error).run w1 = .ok () w2 := by
      rw [onVisitingGroup_some hsome]
      exact onGroups_run h1
    refine (run_bind_ok ((run_bind_ok rfl).trans ((run_bind_ok hvm).trans ((run_bind_ok
      hfirst).trans rfl)))).trans ?_
    refine (onVisitingGroup_some hclosed).trans ?_
    exact onGroups_run (w := w2.setClient c (w.client c).closed) h2

/-! ## States of a client -/

theorem setClientState_same {st : ClientState} (h : (w.client c).clientState = st) :
    (setClientState c st).run w = .ok () w := by
  unfold setClientState
  rw [EStateM.run_bind, EStateM.run_get]
  dsimp only
  rw [if_pos h]
  rfl

/-- A client that is disconnected gives its group up and releases its machine. -/
theorem setClientState_disconnected (hlive : (w.client c).clientState ≠ .disconnected)
    (h : GivenUp w.groups (w.client c).visitingUrlGroup s) : ∃ w', (setClientState c .disconnected).run w = .ok () w' ∧
      ClientFrame c w w' ∧ w'.groups = s ∧
      w'.client c = { (w.client c).closed with clientState := .disconnected } ∧
      (w'.vm (w.client c).virtualMachine).vmState = .waitingToBeReverted ∧
      (w'.vm (w.client c).virtualMachine).client = none := by
  set x : Client := { w.client c with clientState := .disconnected } with hx
  set w1 := w.setClient c x with hw1
  have hself : w1.client c = x := World.setClient_self _ _ _
  obtain ⟨y, hrun, hst, hcl⟩ := disconnect_run (w := w1) (c := c) (s := s) (by rw [hself]; exact h)
  rw [hself] at hrun
  refine ⟨{ (w1.setVm x.virtualMachine y).setClient c x.closed with groups := s }, ?_, ?_, rfl, ?_, ?_, ?_⟩
  · unfold setClientState
    rw [EStateM.run_bind, EStateM.run_get]
    dsimp only
    rw [if_neg hlive]
    exact (run_bind_ok rfl).trans hrun
  · have h1 : ClientFrame c w w1 := clientFrame_setClient rfl
    have h2 : ClientFrame c w1 (w1.setVm x.virtualMachine y) := by
      have := clientFrame_setVm (c := c) (w := w1) y
      rwa [hself] at this
    have h3 : ClientFrame c (w1.setVm x.virtualMachine y) ((w1.setVm x.virtualMachine y).setClient c x.closed) :=
      clientFrame_setClient (by
        show x.virtualMachine = (w1.client c).virtualMachine
        rw [hself])
    exact ((h1.trans h2).trans h3).trans (clientFrame_groups s)
  · exact World.setClient_self c x.closed (w1.setVm x.virtualMachine y)
  · show ((w1.setVm x.virtualMachine y).vm x.virtualMachine).vmState = _
    rw [World.setVm_self, hst]
  · show ((w1.setVm x.virtualMachine y).vm x.virtualMachine).client = _
    rw [World.setVm_self, hcl]

/-- What `setClientState` does behind the new state. -/
def behindState (c v : ℕ) : ClientState → ServerM Unit
  | .waiting => VirtualMachine.setState (fun _ => pure ()) v .running
  | .disconnected => disconnect c
  | _ => pure ()

theorem setClientState_ne {st : ClientState} (h : (w.client c).clientState ≠ st) :
    (setClientState c st).run w = (behindState c (w.client c).virtualMachine st).run
      (w.setClient c { w.client c with clientState := st }) := by
  unfold setClientState
  rw [EStateM.run_bind, EStateM.run_get]
  dsimp only
  rw [if_neg h]
  refine (run_bind_ok rfl).trans ?_
  cases st <;> rfl

/-- The other changes of a client's state. -/
theorem setClientState_other {st : ClientState} (hst : st ≠ .disconnected) : ∃ w',
    (setClientState c st).run w = .ok () w' ∧ ClientFrame c w w' ∧ w'.groups = w.groups ∧
      w'.client c = { w.client c with clientState := st } ∧
      (w'.vm (w.client c).virtualMachine).client = (w.vm (w.client c).virtualMachine).client ∧
      ((w'.vm (w.client c).virtualMachine).vmState = (w.vm (w.client c).virtualMachine).vmState ∨
        (w'.vm (w.client c).virtualMachine).vmState = .running) := by
  by_cases hsame : (w.client c).clientState = st
  · refine ⟨w, setClientState_same hsame, refl _, rfl, ?_, rfl, .inl rfl⟩
    rw [← hsame]
  · set w1 := w.setClient c { w.client c with clientState := st } with hw1
    have hself : w1.client c = { w.client c with clientState := st } := World.setClient_self _ _ _
    have hframe : ClientFrame c w w1 := clientFrame_setClient rfl
    have hset := setClientState_ne hsame
    cases st with
    | disconnected => exact absurd rfl hst
    | waiting =>
      obtain ⟨y, hvm, hy, hcl, -⟩ := setState_run (w.client c).virtualMachine .running w1
      refine ⟨_, hset.trans hvm, hframe.trans ?_, rfl, hself, ?_, .inr ?_⟩
      · have := clientFrame_setVm (c := c) (w := w1) y
        rwa [hself] at this
      · rw [World.setVm_self, hcl]
        rfl
      · rw [World.setVm_self, hy]
    | connecting | connected | updating | uploading | visiting | awaitingVisiting =>
      exact ⟨w1, hset, hframe, rfl, hself, rfl, .inl rfl⟩

/-- A client without a group changes its state and nothing of the groups. -/
theorem setClientState_idle (st : ClientState) (h : (w.client c).visitingUrlGroup = none) : ∃ w',
    (setClientState c st).run w = .ok () w' ∧ ClientFrame c w w' ∧ w'.groups = w.groups ∧
      (w'.client c).clientState = st ∧ (w'.client c).visitingUrlGroup = none := by
  by_cases hsame : (w.client c).clientState = st
  · exact ⟨w, setClientState_same hsame, refl _, rfl, hsame, h⟩
  by_cases hst : st = .disconnected
  · subst hst
    obtain ⟨w', hrun, hframe, hgroups, hclient, -⟩ :=
      setClientState_disconnected hsame (s := w.groups) (by rw [h]; exact .none)
    exact ⟨w', hrun, hframe, hgroups, by rw [hclient], by rw [hclient]; exact h⟩
  · obtain ⟨w', hrun, hframe, hgroups, hclient, -⟩ := setClientState_other (w := w) (c := c) hst
    exact ⟨w', hrun, hframe, hgroups, by rw [hclient], by rw [hclient]; exact h⟩

end CaptureHPC
