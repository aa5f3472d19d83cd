import CaptureHPC.Spec.Connections

/-!
# One live client for a virtual machine

* While each connect message finds no live client of the machine and the options of the new client are
  written, and no visit goes on for a client that is DISCONNECTED and has lost its machine (`Orderly`), every live
  client is the client of its machine (`Linked`).
* So a machine has one live client at most, and disconnecting a client that is not its machine's changes
  nothing there (`Safe`). A step that is not so breaks one of the two, at once or when the machine's state changes.
-/

namespace CaptureHPC

open Lib

namespace Connections

variable {s s' : Connections} {c d v con : ℕ} {written : Bool}

/-- A client that is not DISCONNECTED and refers to this machine. -/
def Live (s : Connections) (c v : ℕ) : Prop :=
  c < s.nClients ∧ (s.client c).virtualMachine = v ∧ (s.client c).clientState ≠ .disconnected

/-- A machine has at most one live client. To disconnect a client that is not its machine's client leaves the
machine as it is. -/
structure Safe (s : Connections) : Prop where
  atMostOne : ∀ v c d, s.Live c v → s.Live d v → c = d
  others : ∀ c v, c < s.nClients → (s.client c).virtualMachine = v → (s.vm v).client ≠ some c →
    (s.setDisconnected c).vm v = s.vm v

/-- The client is not DISCONNECTED, or it is still its machine's client. -/
def Attached (s : Connections) (c : ℕ) : Prop :=
  (s.client c).clientState = .disconnected → (s.vm (s.client c).virtualMachine).client = some c

/-- A connect message comes when no live client refers to the machine, and the options are written. A visit sets the
state of a client only while it is attached. -/
def Orderly (s : Connections) : ConnectionStep → Prop
  | .connect con (some v) written => (∀ c, ¬ s.Live c v) ∧ ((s.connection con).closed = false → written = true)
  | .awaitVisiting c | .start c | .finish c => s.Attached c
  | _ => True

/-- The machine's client refers to the machine, and a live client is its machine's client. -/
structure Linked (s : Connections) : Prop where
  machine : ∀ v c, (s.vm v).client = some c → c < s.nClients ∧ (s.client c).virtualMachine = v
  owner : ∀ c v, s.Live c v → (s.vm v).client = some c

theorem Linked.safe (h : s.Linked) : s.Safe where
  atMostOne v c d hc hd := by
    have howner := h.owner c v hc
    rw [h.owner d v hd] at howner
    exact (Option.some.inj howner).symm
  others c v hlt hvm hother := by
    have hdead : (s.client c).clientState = .disconnected :=
      not_not.1 fun hlive => hother (h.owner c v ⟨hlt, hvm, hlive⟩)
    rw [setDisconnected, if_pos hdead]

section operations

/-- Only the clients and the machines matter. -/
theorem Linked.congr (h : s.Linked) (hclient : s'.client = s.client) (hn : s'.nClients = s.nClients)
    (hvm : s'.vm = s.vm) : s'.Linked := by
  obtain ⟨_, client, n, vm⟩ := s'
  obtain rfl : client = s.client := hclient
  obtain rfl : n = s.nClients := hn
  obtain rfl : vm = s.vm := hvm
  exact ⟨h.machine, h.owner⟩

theorem Linked.loop (h : s.Linked) (con : ℕ) : (s.loop con).Linked := by
  unfold Connections.loop
  split_ifs
  · exact h.congr rfl rfl rfl
  · exact h

/-- A client is changed, and is live only as its machine's client. -/
theorem Linked.setClient (h : s.Linked) (x : ConnectedClient)
    (hvm : x.virtualMachine = (s.client c).virtualMachine)
    (howner : c < s.nClients → x.clientState ≠ .disconnected → (s.vm (s.client c).virtualMachine).client = some c) :
    (s.setClient c x).Linked := by
  have hsame : ∀ d, (Function.update s.client c x d).virtualMachine = (s.client d).virtualMachine := by
    intro d
    by_cases hd : d = c
    · subst hd
      rw [Function.update_self, hvm]
    · rw [Function.update_of_ne hd]
  refine ⟨fun v d hd => ?_, fun d v hlive => ?_⟩
  · obtain ⟨hlt, hd⟩ := h.machine v d hd
    exact ⟨hlt, (hsame d).trans hd⟩
  · obtain ⟨hlt, hd, hlive⟩ := hlive
    have hdv : (s.client d).virtualMachine = v := (hsame d).symm.trans hd
    have hlive : (Function.update s.client c x d).clientState ≠ .disconnected := hlive
    by_cases hdc : d = c
    · subst hdc
      rw [Function.update_self] at hlive
      have howner := howner hlt hlive
      rw [hdv] at howner
      exact howner
    · rw [Function.update_of_ne hdc] at hlive
      exact h.owner d v ⟨hlt, hdv, hlive⟩

/-- A client is changed, and does not become live. -/
theorem Linked.setDead (h : s.Linked) (x : ConnectedClient)
    (hvm : x.virtualMachine = (s.client c).virtualMachine)
    (hstate : x.clientState ≠ .disconnected → (s.client c).clientState ≠ .disconnected) :
    (s.setClient c x).Linked :=
  h.setClient x hvm fun hlt hlive => h.owner c _ ⟨hlt, rfl, hstate hlive⟩

/-- The state of a client that is attached is set. -/
theorem Linked.setAttached (h : s.Linked) (x : ConnectedClient)
    (hvm : x.virtualMachine = (s.client c).virtualMachine) (hc : s.Attached c) : (s.setClient c x).Linked := by
  refine h.setClient x hvm fun hlt _ => ?_
  by_cases hdead : (s.client c).clientState = .disconnected
  · exact hc hdead
  · exact h.owner c _ ⟨hlt, rfl, hdead⟩

/-- A machine's state changes, and its client does not. -/
theorem Linked.setVm (h : s.Linked) (x : ConnectedMachine) (hx : x.client = (s.vm v).client) : (s.setVm v x).Linked := by
  have hsame : ∀ w, (Function.update s.vm v x w).client = (s.vm w).client := by
    intro w
    by_cases hw : w = v
    · subst hw
      rw [Function.update_self, hx]
    · rw [Function.update_of_ne hw]
  exact ⟨fun w d hd => h.machine w d ((hsame w).symm.trans hd), fun d w hlive => (hsame w).trans (h.owner d w hlive)⟩

theorem Linked.setDisconnected (h : s.Linked) (hlt : c < s.nClients) : (s.setDisconnected c).Linked := by
  unfold Connections.setDisconnected
  split_ifs with hdead
  · exact h
  have hc := h.owner c _ ⟨hlt, rfl, hdead⟩
  have hset := h.setDead (c := c) { s.client c with clientState := .disconnected } rfl fun hne => absurd rfl hne
  have hself : (s.setClient c { s.client c with clientState := .disconnected }).client c =
      { s.client c with clientState := .disconnected } := Function.update_self ..
  unfold disconnect
  refine Linked.congr (s := (s.setClient c { s.client c with clientState := .disconnected }).setVm
    (s.client c).virtualMachine { client := none, vmState := .waitingToBeReverted }) ?_ rfl rfl ?_
  · refine ⟨fun v d hd => ?_, fun d v hlive => ?_⟩
    · have hd : (Function.update s.vm (s.client c).virtualMachine
        { client := none, vmState := .waitingToBeReverted } v).client = some d := hd
      by_cases hv : v = (s.client c).virtualMachine
      · subst hv
        rw [Function.update_self] at hd
        exact nomatch hd
      · rw [Function.update_of_ne hv] at hd
        exact hset.machine v d hd
    · have howner := hset.owner d v hlive
      show (Function.update s.vm (s.client c).virtualMachine
        { client := none, vmState := .waitingToBeReverted } v).client = some d
      by_cases hv : v = (s.client c).virtualMachine
      · -- the live client of this machine was `c`
        subst hv
        obtain rfl : c = d := Option.some.inj (hc.symm.trans howner)
        exact absurd (congrArg ConnectedClient.clientState hself) hlive.2.2
      · rw [Function.update_of_ne hv]
        exact howner
  · simp only [close, setConnection, hself]

theorem Linked.setState (h : s.Linked) (v : ℕ) (newState : VmState) : (s.setState v newState).Linked := by
  unfold Connections.setState
  split_ifs
  · exact h
  have hset := h.setVm (v := v) { s.vm v with vmState := newState } rfl
  dsimp only
  split
  · rename_i hclient
    exact hset.setDisconnected (hset.machine v _ hclient).1
  · exact hset

theorem Linked.parseReconnectEvent (h : s.Linked) (con v : ℕ) : (s.parseReconnectEvent con v).Linked := by
  unfold Connections.parseReconnectEvent
  dsimp only
  split
  · exact h.congr rfl rfl rfl
  · rename_i c hc
    have hclose : ((s.setConnection con { s.connection con with client := (s.vm v).client }).close
        ((s.setConnection con { s.connection con with client := (s.vm v).client }).client c).clientSocket).Linked :=
      h.congr rfl rfl rfl
    unfold setSocket
    -- the socket may be closed, then the client becomes DISCONNECTED
    refine hclose.setDead _ ?_ ?_
    · split_ifs <;> rfl
    · split_ifs
      · exact fun hne => absurd rfl hne
      · exact id

theorem Linked.setWaiting (h : s.Linked) (hc : s.Attached c) : (s.setWaiting c).Linked := by
  unfold Connections.setWaiting
  split_ifs
  · exact h
  · exact (h.setAttached (c := c) { s.client c with clientState := .waiting } rfl hc).setVm _ rfl

theorem Linked.retrieve (h : s.Linked) (hstep : s.retrieve c = some s') : s'.Linked := by
  unfold Connections.retrieve at hstep
  split_ifs at hstep
  obtain rfl := Option.some.inj hstep
  exact h.setDead _ rfl id

theorem Linked.send (h : s.Linked) (hlt : c < s.nClients) (hstep : s.send c written = some s') : s'.Linked := by
  unfold Connections.send at hstep
  split_ifs at hstep
  · obtain rfl := Option.some.inj hstep
    exact h.setDead _ rfl id
  · obtain rfl := Option.some.inj hstep
    exact (h.setDead (c := c) { s.client c with urlRetriever := .idle } rfl id).setDisconnected hlt

theorem Linked.awaitVisiting (h : s.Linked) (hc : s.Attached c) (hstep : s.awaitVisiting c = some s') : s'.Linked := by
  unfold Connections.awaitVisiting at hstep
  split_ifs at hstep
  obtain rfl := Option.some.inj hstep
  exact h.setAttached _ rfl hc

end operations

section connect

/-- What a connect message makes: a client that refers to the machine and is not DISCONNECTED, and that is
the machine's client unless an option is not written. -/
theorem parseConnectEvent_eq (s : Connections) (con v : ℕ) (written : Bool) :
    (s.parseConnectEvent con v written).nClients = s.nClients + 1 ∧
      ∃ x y, (s.parseConnectEvent con v written).client = Function.update s.client s.nClients x ∧
        (s.parseConnectEvent con v written).vm = Function.update s.vm v y ∧
        x.virtualMachine = v ∧ x.clientState ≠ .disconnected ∧
        (((s.connection con).closed = false → written = true) → y.client = some s.nClients) ∧
        ((s.connection con).closed = false → written = false → y = { client := none, vmState := .running }) := by
  cases hclosed : (s.connection con).closed with
  | true =>
    refine ⟨?_, ⟨v, .connected, con, .idle⟩, { s.vm v with client := some s.nClients }, ?_, ?_, rfl, by simp, fun _ => rfl,
      fun h => nomatch h⟩ <;>
      simp [parseConnectEvent, setConnection, setClient, setVm, setSocket, setConnected, hclosed]
  | false =>
    cases written with
    | true =>
      refine ⟨?_, ⟨v, .waiting, con, .idle⟩, { client := some s.nClients, vmState := .running }, ?_, ?_, rfl, by simp,
        fun _ => rfl, fun _ h => nomatch h⟩ <;>
        simp [parseConnectEvent, setConnection, setClient, setVm, setSocket, setConnected, setWaiting, hclosed]
    | false =>
      refine ⟨?_, ⟨v, .waiting, con, .idle⟩, { client := none, vmState := .running }, ?_, ?_, rfl, by simp,
        (fun h => nomatch h rfl), fun _ _ => rfl⟩ <;>
        simp [parseConnectEvent, setConnection, setClient, setVm, setSocket, setConnected, setWaiting,
          setDisconnected, disconnect, close, hclosed]

theorem Linked.parseConnectEvent (h : s.Linked) (hvacant : ∀ c, ¬ s.Live c v)
    (hwritten : (s.connection con).closed = false → written = true) :
    (s.parseConnectEvent con v written).Linked := by
  obtain ⟨hn, x, y, hclient, hvm, hx, -, hy, -⟩ := parseConnectEvent_eq s con v written
  refine ⟨fun w d hd => ?_, fun d w hlive => ?_⟩
  · rw [hvm] at hd
    rw [hn, hclient]
    by_cases hw : w = v
    · subst hw
      rw [Function.update_self, hy hwritten] at hd
      obtain rfl := Option.some.inj hd
      exact ⟨Nat.lt_succ_self _, by rw [Function.update_self, hx]⟩
    · rw [Function.update_of_ne hw] at hd
      obtain ⟨hlt, hd⟩ := h.machine w d hd
      exact ⟨Nat.lt_succ_of_lt hlt, by rwa [Function.update_of_ne (Nat.ne_of_lt hlt)]⟩
  · obtain ⟨hlt, hd, hlive⟩ := hlive
    rw [hn] at hlt
    rw [hclient] at hd hlive
    rw [hvm]
    by_cases hnew : d = s.nClients
    · subst hnew
      rw [Function.update_self] at hd
      obtain rfl : v = w := hx.symm.trans hd
      rw [Function.update_self, hy hwritten]
    · rw [Function.update_of_ne hnew] at hd hlive
      have hold : s.Live d w := ⟨by omega, hd, hlive⟩
      have hw : w ≠ v := by
        rintro rfl
        exact hvacant d hold
      rw [Function.update_of_ne hw]
      exact h.owner d w hold

/-- After a connect message for a machine that has a live client, it has two. -/
theorem not_safe_of_live (hlive : s.Live d v) (hclient : s'.client = (s.parseConnectEvent con v written).client)
    (hn' : s'.nClients = (s.parseConnectEvent con v written).nClients) : ¬ s'.Safe := by
  obtain ⟨hn, x, y, hx, -, hxv, hxlive, -⟩ := parseConnectEvent_eq s con v written
  have hne : d ≠ s.nClients := Nat.ne_of_lt hlive.1
  rw [hn] at hn'
  rw [hx] at hclient
  have hold : s'.Live d v := by
    unfold Live
    rw [hclient, hn', Function.update_of_ne hne]
    exact ⟨Nat.lt_succ_of_lt hlive.1, hlive.2⟩
  have hnew : s'.Live s.nClients v := by
    unfold Live
    rw [hclient, hn', Function.update_self]
    exact ⟨Nat.lt_succ_self _, hxv, hxlive⟩
  exact fun hsafe => hne (hsafe.atMostOne v d s.nClients hold hnew)

/-- After a connect message whose options are not written, the new client is not its machine's client, and to
disconnect it changes the machine's state. -/
theorem not_safe_of_failed (hclosed : (s.connection con).closed = false)
    (hclient : s'.client = (s.parseConnectEvent con v false).client)
    (hn' : s'.nClients = (s.parseConnectEvent con v false).nClients)
    (hvm' : s'.vm = (s.parseConnectEvent con v false).vm) : ¬ s'.Safe := by
  obtain ⟨hn, x, y, hx, hvm, hxv, hxlive, -, hy⟩ := parseConnectEvent_eq s con v false
  obtain rfl := hy hclosed rfl
  rw [hn] at hn'
  rw [hx] at hclient
  rw [hvm] at hvm'
  have hself : s'.client s.nClients = x := by rw [hclient, Function.update_self]
  have hv : s'.vm v = { client := none, vmState := .running } := by rw [hvm', Function.update_self]
  intro hsafe
  have hkeeps := hsafe.others s.nClients v (hn' ▸ Nat.lt_succ_self _) (by rw [hself, hxv]) (by rw [hv]; simp)
  unfold setDisconnected at hkeeps
  rw [hself, if_neg hxlive] at hkeeps
  have hreverted : (((s'.setClient s.nClients { x with clientState := .disconnected }).disconnect s.nClients).vm v) =
      { client := none, vmState := .waitingToBeReverted } := by
    simp [disconnect, setClient, setVm, close, setConnection, hxv]
  rw [hreverted, hv] at hkeeps
  exact nomatch hkeeps

end connect

/-- **One step.** -/
theorem Linked.step {a : ConnectionStep} (h : s.Linked) (hok : s.Orderly a) (hstep : s.step a = some s') :
    s'.Linked := by
  cases a with
  | connect con vm written =>
    simp only [Connections.step, receive] at hstep
    split_ifs at hstep
    obtain rfl := Option.some.inj hstep
    cases vm with
    | none => exact h.loop con
    | some v => exact (h.parseConnectEvent hok.1 hok.2).loop con
  | reconnect con vm =>
    simp only [Connections.step, receive] at hstep
    split_ifs at hstep
    obtain rfl := Option.some.inj hstep
    cases vm with
    | none => exact h.loop con
    | some v => exact (h.parseReconnectEvent con v).loop con
  | lose con =>
    obtain rfl := Option.some.inj hstep
    exact h.congr rfl rfl rfl
  | disconnect c =>
    simp only [Connections.step] at hstep
    split_ifs at hstep with hlt
    obtain rfl := Option.some.inj hstep
    exact h.setDisconnected hlt
  | setState v newState =>
    obtain rfl := Option.some.inj hstep
    exact h.setState v newState
  | retrieve c =>
    simp only [Connections.step] at hstep
    split_ifs at hstep
    exact h.retrieve hstep
  | send c written =>
    simp only [Connections.step] at hstep
    split_ifs at hstep with hlt
    exact h.send hlt hstep
  | awaitVisiting c =>
    simp only [Connections.step] at hstep
    split_ifs at hstep
    exact h.awaitVisiting hok hstep
  | start c =>
    simp only [Connections.step] at hstep
    split_ifs at hstep
    obtain rfl := Option.some.inj hstep
    exact h.setAttached _ rfl hok
  | finish c =>
    simp only [Connections.step] at hstep
    split_ifs at hstep
    obtain rfl := Option.some.inj hstep
    exact h.setWaiting hok

theorem loop_same (s : Connections) (con : ℕ) :
    (s.loop con).client = s.client ∧ (s.loop con).nClients = s.nClients ∧ (s.loop con).vm = s.vm := by
  unfold loop
  split_ifs <;> exact ⟨rfl, rfl, rfl⟩

/-- Not safe any more, or not when the machine runs again. -/
def Unsafe (s : Connections) : Prop := ¬s.Safe ∨ ∃ v, ¬(s.setState v .running).Safe

/-- A live client that is not its machine's client takes the machine's state along when it is disconnected; if the
state is that already, it is so once the machine runs again. -/
theorem unsafe_of_stray (hlive : s.Live c v) (hother : (s.vm v).client ≠ some c) : s.Unsafe := by
  have hstray : ∀ t : Connections, t.nClients = s.nClients → t.client = s.client → (t.vm v).client ≠ some c →
      t.vm v ≠ { client := none, vmState := .waitingToBeReverted } → ¬t.Safe := by
    intro t hn hclient hother hstate hsafe
    have hvm : (t.client c).virtualMachine = v := by rw [hclient, hlive.2.1]
    have hkeeps := hsafe.others c v (by rw [hn]; exact hlive.1) hvm hother
    unfold setDisconnected at hkeeps
    rw [if_neg (by rw [hclient]; exact hlive.2.2)] at hkeeps
    refine hstate (hkeeps.symm.trans ?_)
    simp [disconnect, setClient, setVm, close, setConnection, hvm]
  -- in that state a disconnection changes nothing there, until the machine runs again
  by_cases hstate : s.vm v = { client := none, vmState := .waitingToBeReverted }
  · refine .inr ⟨v, ?_⟩
    have hrunning : s.setState v .running = s.setVm v { client := none, vmState := .running } := by
      unfold setState
      rw [hstate, if_neg (by decide)]
    rw [hrunning]
    refine hstray _ rfl rfl ?_ ?_ <;> simp [setVm]
  · exact .inl (hstray s rfl rfl hother hstate)

/-- A visit that goes on for a client that has lost its machine makes it such a client. -/
theorem unsafe_of_not_attached {x : ConnectedClient} (hc : ¬s.Attached c) (hlt : c < s'.nClients)
    (hx : s'.client c = x) (hvm : x.virtualMachine = (s.client c).virtualMachine) (hlive : x.clientState ≠ .disconnected)
    (hclient : ∀ v, (s'.vm v).client = (s.vm v).client) : s'.Unsafe := by
  unfold Attached at hc
  rw [Classical.not_imp] at hc
  refine unsafe_of_stray (c := c) (v := (s.client c).virtualMachine) ⟨hlt, by rw [hx, hvm], by rwa [hx]⟩ ?_
  rw [hclient]
  exact hc.2

theorem unsafe_of_not_orderly {a : ConnectionStep} (hok : ¬ s.Orderly a) (hstep : s.step a = some s') : s'.Unsafe := by
  cases a with
  | connect con vm written =>
    cases vm with
    | none => exact absurd trivial hok
    | some v =>
      simp only [Connections.step, receive] at hstep
      split_ifs at hstep
      obtain rfl := Option.some.inj hstep
      obtain ⟨hclient, hn, hvm⟩ := loop_same (s.parseConnectEvent con v written) con
      simp only [Orderly, not_and_or, not_forall, not_not] at hok
      -- either a live client was there, or an option is not written
      rcases hok with ⟨d, hlive⟩ | ⟨hclosed, hwritten⟩
      · exact .inl (not_safe_of_live hlive hclient hn)
      · obtain rfl : written = false := Bool.not_eq_true _ ▸ hwritten
        exact .inl (not_safe_of_failed hclosed hclient hn hvm)
  | reconnect con vm => exact absurd trivial hok
  | lose con => exact absurd trivial hok
  | disconnect c => exact absurd trivial hok
  | setState v newState => exact absurd trivial hok
  | retrieve c => exact absurd trivial hok
  | send c written => exact absurd trivial hok
  | awaitVisiting c =>
    simp only [Connections.step, Connections.awaitVisiting] at hstep
    split_ifs at hstep with hlt
    obtain rfl := Option.some.inj hstep
    exact unsafe_of_not_attached hok hlt (Function.update_self ..) rfl (by simp) fun _ => rfl
  | start c =>
    simp only [Connections.step] at hstep
    split_ifs at hstep with hlt
    obtain rfl := Option.some.inj hstep
    exact unsafe_of_not_attached hok hlt (Function.update_self ..) rfl (by simp) fun _ => rfl
  | finish c =>
    have hdead : (s.client c).clientState = .disconnected := by
      by_contra hlive
      exact hok fun hdead => absurd hdead hlive
    simp only [Connections.step, Connections.setWaiting] at hstep
    split_ifs at hstep with hlt hwaiting
    · exact nomatch hdead.symm.trans hwaiting
    obtain rfl := Option.some.inj hstep
    refine unsafe_of_not_attached hok hlt (Function.update_self ..) rfl (by simp) fun v => ?_
    show (Function.update s.vm _ _ v).client = (s.vm v).client
    by_cases hv : v = (s.client c).virtualMachine
    · subst hv
      simp [Connections.setClient]
    · rw [Function.update_of_ne]
      simpa [Connections.setClient] using hv

theorem Linked.start : Linked {} := ⟨fun _ _ h => (nomatch h), fun _ _ h => absurd h.1 (Nat.not_lt_zero _)⟩

/-- **One live client for a virtual machine.** A machine has one at most, and disconnecting another client
leaves it as it is, in every run in which each connect message finds no live client of the machine and has its
options written, and no visit goes on for a client that is DISCONNECTED and has lost its machine. Each other step
breaks this, at once or when the machine runs again. -/
theorem one_live_client (s : Connections) :
    (Reaches step Orderly {} s → s.Safe) ∧
      ∀ (a : ConnectionStep) (s' : Connections), ¬ s.Orderly a → s.step a = some s' → s'.Unsafe := by
  refine ⟨fun h => ?_, fun a s' => unsafe_of_not_orderly⟩
  have hlinked : s.Linked := h.invariant Linked.start fun _ _ _ hs hok hstep => hs.step hok hstep
  exact hlinked.safe

/-- A client connects, gets a group, is disconnected, and another one connects. -/
theorem one_live_client_again : ∃ s : Connections, s.nClients = 2 ∧ (s.vm 0).client = some 1 ∧ s.Safe := by
  have hfirst : Reaches step Orderly {} (({} : Connections).parseConnectEvent 0 0 true) :=
    .one (show Orderly _ (.connect 0 (some 0) true) from ⟨fun c h => absurd h.1 (Nat.not_lt_zero c), fun _ => rfl⟩) rfl
  have htaken := hfirst.next (show Orderly _ (.retrieve 0) from trivial) rfl
  have hsent := htaken.next (show Orderly _ (.send 0 true) from trivial) rfl
  have hwaits := hsent.next (show Orderly _ (.awaitVisiting 0) from fun h => nomatch h) rfl
  have hgone := hwaits.next (show Orderly _ (.disconnect 0) from trivial) rfl
  have hsecond := hgone.next (show Orderly _ (.connect 1 (some 0) true) from ⟨fun c h => ?_, fun _ => rfl⟩) rfl
  · exact ⟨_, rfl, rfl, (one_live_client _).1 hsecond⟩
  · obtain rfl : c = 0 := Nat.lt_one_iff.1 h.1
    exact h.2.2 rfl

/-- A second connect message for a machine whose client is still there, and then the first client is
disconnected. -/
def takenOver : List ConnectionStep := [.connect 0 (some 0) true, .connect 1 (some 0) true]

/-- Both clients are live, and to disconnect the first takes the machine from the second. -/
theorem takenOver_two_live : ∃ s, run step {} takenOver = some s ∧ s.Live 0 0 ∧ s.Live 1 0 ∧
    (s.vm 0).client = some 1 ∧ (s.setDisconnected 0).vm 0 = { client := none, vmState := .waitingToBeReverted } :=
  ⟨_, rfl, ⟨by decide, rfl, by decide⟩, ⟨by decide, rfl, by decide⟩, rfl, rfl⟩

end Connections

end CaptureHPC
