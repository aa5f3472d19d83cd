import CaptureHPC.Proof.Events
import CaptureHPC.Spec.Disconnect

/-!
# Disconnecting ends, and both ways end alike

* `disconnect_eq`: `disconnect` is the one of `Spec/Client.lean`, and it announces the machine's state if that
  has changed.
* `setState_connected`, `setClientState_live`: so is a change of state from either side.
* `disconnect_agrees`: from a machine that is not yet to be reverted and a client that is not yet
  disconnected both lead to one state.
-/

namespace CaptureHPC

open Lib UrlGroup

namespace Watched

variable {s : Watched} {w : World} {v c : ℕ}

/-! ## Programs of the server -/

section OnWorld

variable {α β : Type} {m : ServerM α} {f : α → ServerM β} {a : α}

theorem onWorld_ok (h : m.run s.world = .ok a w) : (onWorld m).run s = .ok a { s with world := w } := by
  show onWorld m s = _
  unfold onWorld
  rw [h]

theorem onWorld_error {e : Exn} (h : m.run s.world = .error e w) :
    (onWorld m).run s = .error (.exception e) { s with world := w } := by
  show onWorld m s = _
  unfold onWorld
  rw [h]

theorem onWorld_modify (g : World → World) :
    (onWorld (modify g)).run s = .ok () { s with world := g s.world } := rfl

theorem onWorld_modifyVm (v : ℕ) (g : VirtualMachine → VirtualMachine) :
    (onWorld (modifyVm v g)).run s = .ok () { s with world := s.world.setVm v (g (s.world.vm v)) } := rfl

theorem onWorld_modifyClient (c : ℕ) (g : Client → Client) :
    (onWorld (modifyClient c g)).run s = .ok () { s with world := s.world.setClient c (g (s.world.client c)) } := rfl

theorem onWorld_congr {m' : ServerM α} {s' : Watched} (h : m.run s.world = m'.run s'.world)
    (hnotified : s.notified = s'.notified) : (onWorld m).run s = (onWorld m').run s' := by
  cases hm : m.run s.world with
  | ok a w =>
    rw [onWorld_ok hm, onWorld_ok (h ▸ hm), hnotified]
  | error e w =>
    rw [onWorld_error hm, onWorld_error (h ▸ hm), hnotified]

/-- A program of the server ends. -/
theorem onWorld_ends (t : Watched) : (onWorld m).run s ≠ .error .outOfFuel t := by
  intro h
  cases hm : m.run s.world with
  | ok a w =>
    rw [onWorld_ok hm] at h
    cases h
  | error e w =>
    rw [onWorld_error hm] at h
    cases h

end OnWorld

/-! ## The machine -/

/-- What is announced when a machine is to be reverted. -/
def announced (s : Watched) (v : ℕ) : List (ℕ × VmState) :=
  if (s.world.vm v).vmState = .waitingToBeReverted then [] else [(v, .waitingToBeReverted)]

/-- The time of a change of state is set in any case. -/
def touched (v : ℕ) (w : World) : World := w.setVm v { w.vm v with vmStateTimeChange := w.now }

/-- The machine is to be reverted from now on. -/
def reverted (v : ℕ) (w : World) : World :=
  (touched v w).setVm v { (touched v w).vm v with vmState := .waitingToBeReverted }

@[simp] theorem touched_vm (v : ℕ) (w : World) :
    (touched v w).vm v = { w.vm v with vmStateTimeChange := w.now } := World.setVm_self _ _ _

theorem setVm_setVm (v : ℕ) (y y' : VirtualMachine) (w : World) : (w.setVm v y).setVm v y' = w.setVm v y' := by
  change { w with vm := Function.update (Function.update w.vm v y) v y' } = _
  rw [Function.update_idem]
  rfl

theorem reverted_eq (v : ℕ) (w : World) : reverted v w =
    w.setVm v { w.vm v with vmStateTimeChange := w.now, vmState := .waitingToBeReverted } := by
  rw [reverted, touched_vm, touched, setVm_setVm]

@[simp] theorem reverted_vm (v : ℕ) (w : World) : (reverted v w).vm v =
    { w.vm v with vmStateTimeChange := w.now, vmState := .waitingToBeReverted } := by
  rw [reverted, World.setVm_self, touched_vm]

/-- A machine that is already to be reverted. -/
theorem setState_same {fuel : ℕ} (h : (s.world.vm v).vmState = .waitingToBeReverted) :
    (setState (fuel + 1) v .waitingToBeReverted).run s = .ok () { s with world := touched v s.world } := by
  have hsame : .waitingToBeReverted = ((touched v s.world).vm v).vmState := by
    rw [touched_vm]
    exact h.symm
  rw [setState, run_bind_ok (onWorld_modify _), EStateM.run_bind]
  dsimp only [EStateM.run_get]
  rw [if_pos]
  · rfl
  · exact hsame

section Changes

variable {fuel : ℕ} (h : (s.world.vm v).vmState ≠ .waitingToBeReverted)
include h

/-- One that is not reverts, disconnects a client that is connected, and tells its observers. -/
theorem setState_changes : (setState (fuel + 1) v .waitingToBeReverted).run s =
    (match (s.world.vm v).client with
      | none => notifyObservers v
      | some c => if (s.world.client c).clientState ≠ ClientState.disconnected then
          setClientState fuel c .disconnected >>= fun _ => notifyObservers v else notifyObservers v :
        WatchedM Unit).run { s with world := reverted v s.world } := by
  have hother : ¬ .waitingToBeReverted = ((touched v s.world).vm v).vmState := by
    rw [touched_vm]
    exact fun he => h he.symm
  have hvm : ((touched v s.world).vm v).client = (s.world.vm v).client := by rw [touched_vm]
  rw [setState, run_bind_ok (onWorld_modify _), EStateM.run_bind]
  dsimp only [EStateM.run_get]
  change EStateM.run (if _ = ((touched v s.world).vm v).vmState then _ else _) _ = _
  rw [if_neg hother, run_bind_ok (onWorld_modifyVm _ _), if_pos rfl]
  change EStateM.run (match ((touched v s.world).vm v).client with | none => _ | some c => _) _ = _
  rw [hvm]
  rfl

omit h in
theorem notifyObservers_reverted : (notifyObservers v).run { s with world := reverted v s.world } =
    .ok () { world := reverted v s.world, notified := s.notified ++ [(v, .waitingToBeReverted)] } := by
  change EStateM.Result.ok () _ = _
  simp only [reverted_vm]

/-- With no client to disconnect. -/
theorem setState_alone (hclient : ∀ c, (s.world.vm v).client = some c → (s.world.client c).clientState = .disconnected) :
    (setState (fuel + 1) v .waitingToBeReverted).run s =
      .ok () { world := reverted v s.world, notified := s.notified ++ [(v, .waitingToBeReverted)] } := by
  rw [setState_changes h]
  cases hc : (s.world.vm v).client with
  | none => exact notifyObservers_reverted
  | some c =>
    dsimp only
    rw [if_neg (not_not.2 (hclient c hc))]
    exact notifyObservers_reverted

/-- With a client that is not disconnected. -/
theorem setState_connected (hclient : (s.world.vm v).client = some c)
    (hlive : (s.world.client c).clientState ≠ .disconnected) :
    (setState (fuel + 1) v .waitingToBeReverted).run s =
      (setClientState fuel c .disconnected >>= fun _ => notifyObservers v).run
        { s with world := reverted v s.world } := by
  rw [setState_changes h, hclient]
  dsimp only
  rw [if_pos hlive]

end Changes

/-! ## The client -/

/-- What `disconnect` does to the machine. -/
def released (v : ℕ) (w : World) : World := w.setVm v { w.vm v with client := none }

@[simp] theorem released_vm (v : ℕ) (w : World) : (released v w).vm v = { w.vm v with client := none } :=
  World.setVm_self _ _ _

theorem setState_alone_run (h : (w.vm v).vmState ≠ .waitingToBeReverted) :
    (VirtualMachine.setState (fun _ => pure ()) v .waitingToBeReverted).run w = .ok () (reverted v w) := by
  have hother : ¬ .waitingToBeReverted = ((touched v w).vm v).vmState := by
    rw [touched_vm]
    exact fun he => h he.symm
  unfold VirtualMachine.setState
  rw [run_bind_ok (m := modify _) rfl, EStateM.run_bind, EStateM.run_get]
  change EStateM.run (if _ = ((touched v w).vm v).vmState then _ else _) _ = _
  rw [if_neg hother, run_bind_ok (m := modifyVm _ _) rfl, if_pos rfl]
  split
  · rfl
  · split <;> rfl

/-- The world in which `disconnect` gives the group up. -/
def releasedVm (v : ℕ) (w : World) : World :=
  if (w.vm v).vmState = .waitingToBeReverted then released v w else reverted v (released v w)

theorem releaseVm_released (v : ℕ) (w : World) : (Client.releaseVm v).run w = .ok () (releasedVm v w) := by
  have hstate : ((released v w).vm v).vmState = (w.vm v).vmState := by rw [released_vm]
  unfold Client.releaseVm releasedVm
  rw [run_bind_ok (m := modifyVm _ _) rfl, EStateM.run_bind, EStateM.run_get]
  change EStateM.run (if ((released v w).vm v).vmState ≠ _ then _ else _) _ = _
  by_cases h : (w.vm v).vmState = .waitingToBeReverted
  · rw [hstate, if_neg (not_not.2 h), if_pos h]
    rfl
  · rw [hstate, if_pos h, if_neg h]
    exact setState_alone_run (w := released v w) (by rwa [hstate])

theorem disconnect_run_eq (c : ℕ) (w : World) :
    (Client.disconnect c).run w = (closeConnection c).run (releasedVm (w.client c).virtualMachine w) := by
  have hsplit : Client.disconnect c = (do
      let w ← get
      Client.releaseVm (w.client c).virtualMachine
      closeConnection c) := by
    unfold Client.disconnect Client.disconnectFirst closeConnection
    simp only [bind_assoc]
  rw [hsplit, EStateM.run_bind]
  dsimp only [EStateM.run_get]
  rw [run_bind_ok (releaseVm_released _ _)]

/-! ## The connection -/

/-- The state of the client stays. -/
def SameState (c : ℕ) (w w' : World) : Prop := (w'.client c).clientState = (w.client c).clientState

instance : Std.Refl (SameState c) := ⟨fun _ => rfl⟩

instance : IsTrans World (SameState c) := ⟨fun _ _ _ h h' => h'.trans h⟩

theorem sameState_onVisitingGroup (m : ℕ → GroupsM Unit) : Keeps (SameState c) (Client.onVisitingGroup c m) := by
  intro w
  cases hg : (w.client c).visitingUrlGroup with
  | none =>
    rw [onVisitingGroup_none hg]
    exact refl _
  | some g =>
    rw [onVisitingGroup_some hg]
    have hany : Keeps (fun _ _ => True) (m g) := fun _ => trivial
    have hkeep : Keeps (SameState c) (onGroups (m g)) := keeps_zoom hany fun _ _ _ => rfl
    exact hkeep w

theorem sameState_closeConnection : Keeps (SameState c) (closeConnection c) := by
  refine keeps_bind (sameState_onVisitingGroup _) fun _ => keeps_bind ?_ fun _ => sameState_onVisitingGroup _
  intro w
  change (((w.setClient c _).client c).clientState) = _
  rw [World.setClient_self]

/-- The end of `disconnect`: the client is disconnected by then. -/
theorem closeConnection_end {fuel : ℕ} (h : (s.world.client c).clientState = .disconnected) :
    (onWorld (closeConnection c) >>= fun _ => do
      let s ← get
      if (s.world.client c).clientState ≠ .disconnected then setClientState fuel c .disconnected).run s =
      (onWorld (closeConnection c)).run s := by
  have hkeep := sameState_closeConnection (c := c) s.world
  cases hrun : (closeConnection c).run s.world with
  | error e w => rw [run_bind_error (onWorld_error hrun), onWorld_error hrun]
  | ok u w =>
    rw [hrun] at hkeep
    have hstate : (w.client c).clientState = .disconnected := hkeep.trans h
    rw [run_bind_ok (onWorld_ok hrun), onWorld_ok hrun, EStateM.run_bind]
    dsimp only [EStateM.run_get]
    rw [if_neg (not_not.2 hstate)]
    rfl

/-- **`disconnect` is the one of the model without recursion**, and announces the machine's state. -/
theorem disconnect_eq {fuel : ℕ} (h : (s.world.client c).clientState = .disconnected) :
    (disconnect (fuel + 2) c).run s = (onWorld (Client.disconnect c)).run
      { s with notified := s.notified ++ announced s (s.world.client c).virtualMachine } := by
  set v := (s.world.client c).virtualMachine with hv
  have hstate : ((released v s.world).vm v).vmState = (s.world.vm v).vmState := by rw [released_vm]
  rw [disconnect, EStateM.run_bind]
  dsimp only [EStateM.run_get]
  rw [run_bind_ok (onWorld_modifyVm _ _), EStateM.run_bind]
  dsimp only [EStateM.run_get]
  change EStateM.run (if ((released v s.world).vm v).vmState ≠ _ then _ else _)
    { s with world := released v s.world } = _
  have hother : (onWorld (Client.disconnect c)).run { s with notified := s.notified ++ announced s v } =
      (onWorld (closeConnection c)).run
        { world := releasedVm v s.world, notified := s.notified ++ announced s v } :=
    onWorld_congr (disconnect_run_eq c s.world) rfl
  rw [hstate, hother, announced, releasedVm]
  by_cases hvm : (s.world.vm v).vmState = .waitingToBeReverted
  · rw [if_neg (not_not.2 hvm), if_pos hvm, if_pos hvm, List.append_nil]
    exact closeConnection_end h
  · have hreverts := @setState_alone { s with world := released v s.world } v fuel
      (by rwa [hstate]) fun c hc => by
        rw [released_vm] at hc
        cases hc
    rw [if_pos hvm, if_neg hvm, if_neg hvm, run_bind_ok hreverts]
    exact closeConnection_end h

/-! ## The group -/

section Group

variable {g : ℕ} {u : UrlGroupsController}

theorem count_split (hlt : g < u.size) : ((u.size + 1) :: u.size :: u.urlGroupQueue).count g = u.urlGroupQueue.count g := by
  rw [List.count_cons_of_ne (by omega), List.count_cons_of_ne (by omega)]

/-- A group goes to ERROR: the error is counted, and the first one puts it back on the queue. -/
theorem error_run (hlt : g < u.size) (ha : (u.group g).algorithm ≠ none) : ∃ u',
    (setUrlGroupState g .error).run u = .ok () u' ∧ (u'.group g).urlGroupState = .error ∧
      (u'.group g).errorCount = (u.group g).errorCount + 1 ∧ (u'.group g).algorithm = (u.group g).algorithm ∧
      u.size ≤ u'.size ∧
      u'.urlGroupQueue.count g ≤ u.urlGroupQueue.count g + if (u.group g).errorCount = 0 then 1 else 0 := by
  obtain ⟨u', hrun⟩ := @setUrlGroupState_returns g u .error ha fun _ _ => ⟨nofun, nofun⟩
  have hreaction : Reaction g ((u.group g).withState .error) u u' := by
    have h := (setUrlGroupState_cases g .error u).1
    rw [hrun] at h
    exact h
  refine ⟨u', hrun, ?_⟩
  cases hreaction with
  | kept h =>
    have hg : u'.group g = (u.group g).withState .error := by rw [h.group, Function.update_self]
    exact ⟨by rw [hg]; rfl, by rw [hg]; rfl, by rw [hg]; rfl, h.size.ge, by rw [h.queue]; omega⟩
  | retried _ hcount _ h =>
    have hg := congrFun h.group g
    rw [Function.update_self] at hg
    have hzero : (u.group g).errorCount = 0 := Nat.le_zero.1 (Nat.le_of_succ_le_succ hcount)
    refine ⟨by rw [hg]; rfl, by rw [hg]; rfl, by rw [hg]; rfl, h.size.ge, ?_⟩
    rw [h.queue, List.count_cons_self, if_pos hzero]
  | divided x1 x2 _ _ h =>
    have hg : u'.group g = (u.group g).withState .error := by
      rw [h.group, Function.update_of_ne (by omega), Function.update_of_ne (by omega), Function.update_self]
    refine ⟨by rw [hg]; rfl, by rw [hg]; rfl, by rw [hg]; rfl, by rw [h.size]; omega, ?_⟩
    rw [h.queue, count_split hlt]
    omega

/-- The verdict that an error needs. -/
theorem setBenign_run (g : ℕ) (u : UrlGroupsController) : ∃ u', (Client.setBenign g).run u = .ok () u' ∧
    (u'.group g).errorCount = (u.group g).errorCount ∧ (u'.group g).algorithm = (u.group g).algorithm ∧
    u'.size = u.size ∧ u'.urlGroupQueue = u.urlGroupQueue := by
  unfold Client.setBenign
  rw [EStateM.run_bind]
  dsimp only [EStateM.run_get]
  split_ifs with hmal
  · have hkeep : ∀ i ∈ (u.group g).urlList, Keeps (UrlsFrame [i]) (Url.setMalicious i false) :=
      fun i _ => keeps_setMalicious (List.mem_singleton_self i) false
    obtain ⟨t, ht⟩ := forM_returns (P := fun _ => True) (s := u.urls) hkeep (fun _ _ _ h => h)
      (fun i _ t _ => ⟨_, rfl⟩) fun _ _ => trivial
    have hloop := onUrls_run (s := u.setGroup g { u.group g with malicious := false }) ht
    have hlist : ((u.setGroup g { u.group g with malicious := false }).group g).urlList = (u.group g).urlList := by
      rw [setGroup_self]
    have hrun : (setMalicious g (some "dac") false none).run u =
        .ok () { u.setGroup g { u.group g with malicious := false } with urls := t } := by
      refine (run_bind_ok rfl).trans ((run_bind_ok rfl).trans ?_)
      dsimp only
      rw [hlist]
      exact hloop
    refine ⟨_, hrun, ?_, ?_, rfl, rfl⟩
    · change ((u.setGroup g _).group g).errorCount = _
      rw [setGroup_self]
    · change ((u.setGroup g _).group g).algorithm = _
      rw [setGroup_self]
  · exact ⟨u, rfl, rfl, rfl, rfl, rfl⟩

/-- What `disconnect` leaves of a group: in error, counted twice, and back on the queue at most once. -/
structure GroupGivenUp (g : ℕ) (u u' : UrlGroupsController) : Prop where
  state : (u'.group g).urlGroupState = .error
  errorCount : (u'.group g).errorCount = (u.group g).errorCount + 2
  requeued : u'.urlGroupQueue.count g ≤ u.urlGroupQueue.count g + 1

theorem givenUp_run (hlt : g < u.size) (ha : (u.group g).algorithm ≠ none) :
    ∃ u', GivenUp u (some g) u' ∧ GroupGivenUp g u u' := by
  obtain ⟨u1, hrun1, -, hcount1, halg1, hsize1, hqueue1⟩ := error_run hlt ha
  obtain ⟨u2, hrun2, hcount2, halg2, hsize2, hqueue2⟩ := setBenign_run g u1
  set u3 := u2.setGroup g { u2.group g with
    majorErrorCode := ErrorCode.ofCode ErrorCode.captureClientConnectionReset.errorCode } with hu3
  have hself : u3.group g = _ := setGroup_self _ _ _
  have hcount3 : (u3.group g).errorCount = (u.group g).errorCount + 1 := by
    rw [hself, ← hcount1, ← hcount2]
  have halg3 : (u3.group g).algorithm ≠ none := by
    have h : (u3.group g).algorithm = (u.group g).algorithm := by
      rw [hself, ← halg1, ← halg2]
    rwa [h]
  have hsize3 : g < u3.size := by
    change g < u2.size
    omega
  obtain ⟨u4, hrun4, hstate4, hcount4, -, -, hqueue4⟩ := error_run hsize3 halg3
  have hqueue3 : u3.urlGroupQueue = u1.urlGroupQueue := hqueue2
  -- the group is put back by the first error, if at all
  rw [if_neg (by omega), hqueue3] at hqueue4
  have hle : (if (u.group g).errorCount = 0 then 1 else 0) ≤ 1 := by split_ifs <;> omega
  exact ⟨u4, .some hrun1 ((run_bind_ok hrun2).trans ((run_bind_ok rfl).trans hrun4)), hstate4, by omega, by omega⟩

end Group

/-! ## From either side -/

/-- The client is disconnected, and has not yet let go of anything. -/
def cut (c : ℕ) (w : World) : World := w.setClient c { w.client c with clientState := .disconnected }

@[simp] theorem cut_client (c : ℕ) (w : World) :
    (cut c w).client c = { w.client c with clientState := .disconnected } := World.setClient_self _ _ _

theorem setClientState_gone {fuel : ℕ} (h : (s.world.client c).clientState = .disconnected) :
    (setClientState (fuel + 1) c .disconnected).run s = .ok () s := by
  rw [setClientState, EStateM.run_bind]
  dsimp only [EStateM.run_get]
  rw [if_pos h]
  rfl

theorem setClientState_live {fuel : ℕ} (hvm : (s.world.client c).virtualMachine = v)
    (h : (s.world.client c).clientState ≠ .disconnected) :
    (setClientState (fuel + 3) c .disconnected).run s =
      (onWorld (Client.disconnect c)).run
        { world := cut c s.world, notified := s.notified ++ announced s v } := by
  have hself : ((cut c s.world).client c).clientState = .disconnected := by rw [cut_client]
  have hmachine : ((cut c s.world).client c).virtualMachine = v := by rw [cut_client, ← hvm]
  have hdisconnect := @disconnect_eq { s with world := cut c s.world } c fuel hself
  rw [setClientState, EStateM.run_bind]
  dsimp only [EStateM.run_get]
  rw [if_neg h, run_bind_ok (onWorld_modifyClient _ _)]
  refine hdisconnect.trans ?_
  rw [hmachine]
  rfl

/-- Whether the machine or the client is changed first, the group is given up in one world. -/
theorem releasedVm_cut (h : (w.vm v).vmState ≠ .waitingToBeReverted) :
    releasedVm v (cut c (reverted v w)) = releasedVm v (cut c w) := by
  have hvm : ((cut c (reverted v w)).vm v).vmState = .waitingToBeReverted := by
    change ((reverted v w).vm v).vmState = _
    rw [reverted_vm]
  have hvm' : ((cut c w).vm v).vmState ≠ .waitingToBeReverted := h
  have hleft : released v (cut c (reverted v w)) = (cut c w).setVm v
      { w.vm v with vmStateTimeChange := w.now, vmState := .waitingToBeReverted, client := none } := by
    have hcut : cut c (reverted v w) = (cut c w).setVm v
        { w.vm v with vmStateTimeChange := w.now, vmState := .waitingToBeReverted } := by
      rw [reverted_eq]
      rfl
    rw [released, hcut, setVm_setVm, World.setVm_self]
  have hright : reverted v (released v (cut c w)) = (cut c w).setVm v
      { w.vm v with vmStateTimeChange := w.now, vmState := .waitingToBeReverted, client := none } := by
    rw [reverted_eq, released_vm, released, setVm_setVm]
    rfl
  rw [releasedVm, releasedVm, if_pos hvm, if_neg hvm', hleft, hright]

theorem setState_live {fuel : ℕ} (hclient : (s.world.vm v).client = some c)
    (hvm : (s.world.client c).virtualMachine = v) (hlive : (s.world.client c).clientState ≠ .disconnected)
    (h : (s.world.vm v).vmState ≠ .waitingToBeReverted) :
    (setState (fuel + 4) v .waitingToBeReverted).run s =
      (onWorld (Client.disconnect c) >>= fun _ => notifyObservers v).run { s with world := cut c s.world } := by
  have hsilent : announced { s with world := reverted v s.world } v = [] := by
    rw [announced, if_pos]
    simp only [reverted_vm]
  have hstep := @setClientState_live { s with world := reverted v s.world } v c fuel hvm hlive
  rw [hsilent, List.append_nil] at hstep
  have hsame : (onWorld (Client.disconnect c)).run { s with world := cut c (reverted v s.world) } =
      (onWorld (Client.disconnect c)).run { s with world := cut c s.world } := by
    refine onWorld_congr ?_ rfl
    change (Client.disconnect c).run (cut c (reverted v s.world)) = (Client.disconnect c).run (cut c s.world)
    have hleft : ((cut c (reverted v s.world)).client c).virtualMachine = v := by
      rw [cut_client]
      exact hvm
    have hright : ((cut c s.world).client c).virtualMachine = v := by
      rw [cut_client]
      exact hvm
    rw [disconnect_run_eq, disconnect_run_eq, hleft, hright, releasedVm_cut h]
  rw [setState_connected h hclient hlive, EStateM.run_bind, EStateM.run_bind, hstep.trans hsame]

/-- A call ends: it returns or throws. -/
def Terminates (m : WatchedM Unit) (s : Watched) : Prop := ∀ t, m.run s ≠ .error .outOfFuel t

/-- The state that both ways lead to. -/
structure Disconnected (s t : Watched) (v c : ℕ) : Prop where
  client : (t.world.client c).clientState = .disconnected
  released : (t.world.vm v).client = none
  machine : (t.world.vm v).vmState = .waitingToBeReverted
  group : ∀ g, (s.world.client c).visitingUrlGroup = some g → GroupGivenUp g s.world.groups t.world.groups
  notified : t.notified = s.notified ++ [(v, .waitingToBeReverted)]

theorem setClientState_terminates {fuel : ℕ} : Terminates (setClientState (fuel + 3) c .disconnected) s := by
  intro t
  by_cases h : (s.world.client c).clientState = .disconnected
  · rw [setClientState_gone h]
    exact fun herr => by cases herr
  · rw [setClientState_live rfl h]
    exact onWorld_ends t

theorem setState_terminates {fuel : ℕ} : Terminates (setState (fuel + 4) v .waitingToBeReverted) s := by
  intro t
  by_cases h : (s.world.vm v).vmState = .waitingToBeReverted
  · rw [setState_same h]
    exact fun herr => by cases herr
  · rw [setState_changes h]
    cases hc : (s.world.vm v).client with
    | none => exact fun herr => by cases herr
    | some c =>
      dsimp only
      split_ifs with hlive
      · have hends := @setClientState_terminates { s with world := reverted v s.world } c fuel
        intro herr
        cases hrun : (setClientState (fuel + 3) c .disconnected).run { s with world := reverted v s.world } with
        | ok u s' =>
          rw [run_bind_ok hrun] at herr
          cases herr
        | error e s' =>
          rw [run_bind_error hrun] at herr
          cases herr
          exact hends _ hrun
      · exact fun herr => by cases herr

/-- A held group exists, and has an algorithm. -/
def HoldsGroup (c : ℕ) (w : World) : Prop :=
  ∀ g, (w.client c).visitingUrlGroup = some g → g < w.groups.size ∧ (w.groups.group g).algorithm ≠ none

/-- A disconnect of a client that holds a proper group returns. -/
theorem disconnect_returns (hgroup : HoldsGroup c w) (hvm : (w.client c).virtualMachine = v) :
    ∃ w', (Client.disconnect c).run (cut c w) = .ok () w' ∧ (w'.client c).clientState = .disconnected ∧
      (w'.vm v).client = none ∧ (w'.vm v).vmState = .waitingToBeReverted ∧
      ∀ g, (w.client c).visitingUrlGroup = some g → GroupGivenUp g w.groups w'.groups := by
  have hvisiting : ((cut c w).client c).visitingUrlGroup = (w.client c).visitingUrlGroup := by rw [cut_client]
  have hmachine : ((cut c w).client c).virtualMachine = v := by rw [cut_client, ← hvm]
  obtain ⟨u, hgiven, hfacts⟩ : ∃ u, GivenUp w.groups (w.client c).visitingUrlGroup u ∧
      ∀ g, (w.client c).visitingUrlGroup = some g → GroupGivenUp g w.groups u := by
    cases hg : (w.client c).visitingUrlGroup with
    | none => exact ⟨w.groups, .none, nofun⟩
    | some g =>
      obtain ⟨hlt, halg⟩ := hgroup g hg
      obtain ⟨u, hgiven, hfacts⟩ := givenUp_run hlt halg
      exact ⟨u, hgiven, fun g' hg' => Option.some.inj hg' ▸ hfacts⟩
  have hgiven' : GivenUp (cut c w).groups ((cut c w).client c).visitingUrlGroup u := by
    rw [hvisiting]
    exact hgiven
  obtain ⟨y, hrun, hstate, hnone⟩ := disconnect_run hgiven'
  rw [hmachine] at hrun
  refine ⟨_, hrun, ?_, ?_, ?_, hfacts⟩
  · change ((((cut c w).setVm v y).setClient c ((cut c w).client c).closed).client c).clientState = _
    rw [World.setClient_self, cut_client]
    rfl
  · change (((cut c w).setVm v y).vm v).client = none
    rw [World.setVm_self, hnone]
  · change (((cut c w).setVm v y).vm v).vmState = _
    rw [World.setVm_self, hstate]

/-- **Disconnecting from either side** ends, and leads to one state, from a machine that is not yet to be
reverted and a client that is not yet disconnected. -/
theorem disconnect_agrees {s : Watched} {v c fuel : ℕ} (hclient : (s.world.vm v).client = some c)
    (hvm : (s.world.client c).virtualMachine = v) (hfuel : 4 ≤ fuel) :
    Terminates (setState fuel v .waitingToBeReverted) s ∧ Terminates (setClientState fuel c .disconnected) s ∧
      ((s.world.client c).clientState ≠ .disconnected → (s.world.vm v).vmState ≠ .waitingToBeReverted →
        HoldsGroup c s.world → ∃ t, (setState fuel v .waitingToBeReverted).run s = .ok () t ∧
          (setClientState fuel c .disconnected).run s = .ok () t ∧ Disconnected s t v c) := by
  obtain ⟨n, rfl⟩ := Nat.exists_eq_add_of_le' hfuel
  refine ⟨setState_terminates, @setClientState_terminates s c (n + 1), fun hlive hstate hgroup => ?_⟩
  obtain ⟨w, hrun, hdisconnected, hnone, hreverted, hfacts⟩ := disconnect_returns hgroup hvm
  have hannounced : announced s v = [(v, .waitingToBeReverted)] := if_neg hstate
  refine ⟨{ world := w, notified := s.notified ++ [(v, .waitingToBeReverted)] }, ?_, ?_,
    ⟨hdisconnected, hnone, hreverted, hfacts, rfl⟩⟩
  · have hdone : (onWorld (Client.disconnect c)).run { s with world := cut c s.world } =
        .ok () { s with world := w } := onWorld_ok hrun
    rw [setState_live hclient hvm hlive hstate, run_bind_ok hdone]
    change EStateM.Result.ok () _ = _
    simp only [hreverted]
  · have hstep := @setClientState_live s v c (n + 1) hvm hlive
    rw [hannounced] at hstep
    rw [hstep]
    exact onWorld_ok (s := { world := cut c s.world, notified := s.notified ++ [(v, .waitingToBeReverted)] }) hrun

theorem zero_ne_nil : ([0] : List ℕ) ≠ [] := by simp

/-- A client that visits a group of one URL, on a machine that runs. -/
def visitingWorld (vmState : VmState) : World where
  groups := { group := fun _ => { urlList := [0], nonempty := zero_ne_nil, clientProgram := "", visitTime := 0
                                  urlGroupState := .visiting }
              size := 1, visitingList := [0] }
  client := fun _ => { visitingUrlGroup := some 0, clientState := .visiting }
  nClients := 1
  vm := fun _ => { vmState := vmState, client := some 0 }

theorem disconnect_agrees_visiting : ∃ t,
    (setState 4 0 .waitingToBeReverted).run { world := visitingWorld .running } = .ok () t ∧
      (setClientState 4 0 .disconnected).run { world := visitingWorld .running } = .ok () t ∧
      Disconnected { world := visitingWorld .running } t 0 0 :=
  (disconnect_agrees (s := { world := visitingWorld .running }) rfl rfl le_rfl).2.2 (by decide) (by decide)
    fun g hg => ⟨by obtain rfl := Option.some.inj hg; decide, by simp [visitingWorld]⟩

/-- A machine that is to be reverted already does not disconnect a client that has come since. -/
theorem reverted_keeps_client : ¬ ∃ fuel t,
    (setState fuel 0 .waitingToBeReverted).run { world := visitingWorld .waitingToBeReverted } = .ok () t ∧
      Disconnected { world := visitingWorld .waitingToBeReverted } t 0 0 := by
  rintro ⟨fuel, t, hrun, hdone⟩
  cases fuel with
  | zero => cases hrun
  | succ fuel =>
    rw [setState_same rfl] at hrun
    cases hrun
    have hclient : ((visitingWorld .waitingToBeReverted).client 0).clientState = .disconnected := hdone.client
    cases hclient

end Watched

end CaptureHPC
