import CaptureHPC.Lib.Machine
import CaptureHPC.Proof.Moves
import CaptureHPC.Proof.Ownership

/-!
# The server only moves its groups

`World.act` takes the events and the pieces of operations of the server in any order. Whatever happens,
the groups change by moves (`serves_act`): the handlers only put the programs on a group together. So
what the moves keep holds in every state that the server reaches (`moves_of_reaches`).

A client names a group by its number. That the client took this group has to be known on the way
(`Pointers`), and also that a client with state changes may accuse its groups.
-/

namespace CaptureHPC

open Lib Client UrlGroup UrlGroupsController

variable {cfg : Config} {sdf : SimpleDateFormat} {w w' : World} {c g v : ℕ} {n : ℤ} {A : ℕ → Prop} {P Q : Prop}
  {s s' : UrlGroupsController} {e : Element}

/-- A step of the server: an event or a piece of an operation. -/
inductive Act
  | event (ev : Event)
  | piece (p : Piece)

/-- One step. An event that cannot happen has no next state. -/
def World.act (cfg : Config) (sdf : SimpleDateFormat) (w : World) : Act → Option World
  | .event ev => w.step cfg sdf ev
  | .piece p => some (w.micro cfg sdf p)

/-- A message that says that a visit is malicious: a system-event, or the verdict of the client. -/
def Element.Accuses (e : Element) : Prop := e.name = "system-event" ∨ e.get "malicious" = some "1"

/-- The client sends a message that accuses its group. -/
def Act.Accuses (c : ℕ) : Act → Prop
  | .event (.message d e) => d = c ∧ e.Accuses
  | .piece (.message d e) => d = c ∧ e.Accuses
  | _ => False

/-- The client took the group. -/
def Took (c g : ℕ) (s : UrlGroupsController) : Prop := g < s.size ∧ .taken c g ∈ s.history

theorem Took.given (h : Took c g s) : Given g s := ⟨h.1, c, h.2⟩

theorem Took.accusable (h : Took c g s) (hc : A c) : Accusable A g s := ⟨c, hc, h.2⟩

theorem Took.moves (h : Took c g s) (hm : GroupMoves n A s s') : Took c g s' :=
  ⟨Nat.lt_of_lt_of_le h.1 hm.size_le, hm.history_suffix.mem h.2⟩

/-- Every client took the group it points to, and those with state changes may accuse. -/
structure Pointers (A : ℕ → Prop) (w : World) : Prop where
  sound : Sound A w.groups
  client : ∀ c g, (w.client c).visitingUrlGroup = some g → Took c g w.groups
  handler : ∀ c, (w.client c).stateChangeHandler.processTrees ≠ [] → A c

theorem Pointers.start : Pointers A {} where
  sound := .start
  client _ _ hg := by cases hg
  handler _ h := absurd rfl h

/-- The groups only move. -/
def Serves (n : ℤ) (A : ℕ → Prop) (w w' : World) : Prop :=
  Pointers A w → Pointers A w' ∧ GroupMoves n A w.groups w'.groups

/-- The same for a handler of a group that was taken, if `P` only by clients that may accuse. -/
def ServesOn (n : ℤ) (A : ℕ → Prop) (P : Prop) (g : ℕ) (w w' : World) : Prop :=
  Given g w.groups → (P → Accusable A g w.groups) → Serves n A w w'

/-- The same for a handler of a group that the client took. -/
def ServesTook (n : ℤ) (A : ℕ → Prop) (c g : ℕ) (w w' : World) : Prop := Took c g w.groups → Serves n A w w'

instance : Std.Refl (Serves n A) := ⟨fun _ h => ⟨h, .refl⟩⟩

instance : IsTrans World (Serves n A) where
  trans _ _ _ h h' hw := by
    obtain ⟨h1, hr1⟩ := h hw
    obtain ⟨h2, hr2⟩ := h' h1
    exact ⟨h2, hr1.trans hr2⟩

instance : Std.Refl (ServesOn n A P g) := ⟨fun w _ _ => refl w⟩

instance : IsTrans World (ServesOn n A P g) where
  trans _ _ _ h h' hg hP hw := by
    obtain ⟨h1, hr1⟩ := h hg hP hw
    obtain ⟨h2, hr2⟩ := h' (hr1.given hg) (fun hp => hr1.accusable (hP hp)) h1
    exact ⟨h2, hr1.trans hr2⟩

instance : Std.Refl (ServesTook n A c g) := ⟨fun w _ => refl w⟩

instance : IsTrans World (ServesTook n A c g) where
  trans _ _ _ h h' hg hw := by
    obtain ⟨h1, hr1⟩ := h hg hw
    obtain ⟨h2, hr2⟩ := h' (hg.moves hr1) h1
    exact ⟨h2, hr1.trans hr2⟩

section programs

variable {α : Type} {m : ServerM α}

theorem servesOn (h : Keeps (Serves n A) m) : Keeps (ServesOn n A P g) m := fun w _ _ => h w

theorem servesOn_mono (hPQ : P → Q) (h : Keeps (ServesOn n A P g) m) : Keeps (ServesOn n A Q g) m :=
  fun w hg hQ => h w hg fun hp => hQ (hPQ hp)

theorem servesTook (h : Keeps (Serves n A) m) : Keeps (ServesTook n A c g) m := fun w _ => h w

/-- The client that took the group may accuse it. -/
theorem servesTook_of (hP : P → A c) (h : Keeps (ServesOn n A P g) m) : Keeps (ServesTook n A c g) m :=
  fun w htook => h w htook.given fun hp => htook.accusable (hP hp)

/-- A step on the groups. -/
theorem Pointers.groups (h : Pointers A w) (hr : GroupMoves n A w.groups s) : Pointers A { w with groups := s } :=
  ⟨hr.sound h.sound, fun c g hg => (h.client c g hg).moves hr, h.handler⟩

theorem serves_onGroups {m : GroupsM α} (h : Keeps (GroupMoves n A) m) : Keeps (Serves n A) (onGroups m) := by
  intro w hw
  rw [onGroups, final_zoom]
  exact ⟨hw.groups (h _), h _⟩

theorem servesOn_onGroups {m : GroupsM α} (h : Keeps (On n A P g) m) : Keeps (ServesOn n A P g) (onGroups m) := by
  intro w hg hP hw
  rw [onGroups, final_zoom]
  have hmoves := h w.groups hw.sound hg hP
  exact ⟨hw.groups hmoves, hmoves⟩

/-- A program on the client's group that does not accuse it. -/
theorem servesTook_onGroups {m : GroupsM α} (h : Keeps (On n A False g) m) : Keeps (ServesTook n A c g) (onGroups m) :=
  servesTook_of False.elim (servesOn_onGroups h)

/-- A change of a client's record. -/
theorem Pointers.setClient {x : Client} (h : Pointers A w)
    (hgroup : ∀ g, x.visitingUrlGroup = some g → Took c g w.groups)
    (hhandler : x.stateChangeHandler.processTrees ≠ [] → A c) : Pointers A (w.setClient c x) := by
  refine ⟨h.sound, fun d g hg => ?_, fun d hd => ?_⟩
  · by_cases hdc : d = c
    · subst hdc
      rw [World.setClient_self] at hg
      exact hgroup g hg
    · rw [World.setClient_of_ne hdc] at hg
      exact h.client d g hg
  · by_cases hdc : d = c
    · subst hdc
      rw [World.setClient_self] at hd
      exact hhandler hd
    · rw [World.setClient_of_ne hdc] at hd
      exact h.handler d hd

/-- A change of a client's record that leaves its group or takes it away. -/
theorem serves_modifyClient {f : Client → Client}
    (hgroup : ∀ x, (f x).visitingUrlGroup = x.visitingUrlGroup ∨ (f x).visitingUrlGroup = none)
    (hhandler : ∀ x, (f x).stateChangeHandler = x.stateChangeHandler ∨ A c) : Keeps (Serves n A) (modifyClient c f) := by
  refine keeps_modify fun w hw => ⟨hw.setClient (fun g hg => ?_) fun h => ?_, .refl⟩
  · rcases hgroup (w.client c) with hsame | hnone
    · exact hw.client c g (hsame.symm.trans hg)
    · rw [hnone] at hg
      cases hg
  · rcases hhandler (w.client c) with hsame | hc
    · rw [hsame] at h
      exact hw.handler c h
    · exact hc

theorem serves_modifyVm (v : ℕ) (f : VirtualMachine → VirtualMachine) : Keeps (Serves n A) (modifyVm v f) :=
  keeps_modify fun _ hw => ⟨⟨hw.sound, hw.client, hw.handler⟩, .refl⟩

theorem serves_setState {d : ℕ → ServerM Unit} (h : ∀ c, Keeps (Serves n A) (d c)) (newState : VmState) :
    Keeps (Serves n A) (VirtualMachine.setState d v newState) := by
  refine keeps_bind (keeps_modify fun _ hw => ⟨⟨hw.sound, hw.client, hw.handler⟩, .refl⟩) fun _ =>
    keeps_bind keeps_get fun w => ?_
  split_ifs
  · exact keeps_pure _
  · refine keeps_bind (serves_modifyVm _ _) fun _ => ?_
    split
    · exact keeps_pure _
    · split_ifs
      · exact h _
      · exact keeps_pure _
  · exact keeps_bind (serves_modifyVm _ _) fun _ => keeps_pure _

theorem serves_releaseVm (v : ℕ) : Keeps (Serves n A) (releaseVm v) := by
  refine keeps_bind (serves_modifyVm _ _) fun _ => keeps_bind keeps_get fun w => ?_
  split_ifs
  · exact serves_setState (fun _ => keeps_pure _) _
  · exact keeps_pure _

/-- A program on the group that a client has, if it has one. -/
theorem serves_onVisitingGroup {m : ℕ → GroupsM Unit} (h : ∀ g, Keeps (On n A False g) (m g)) :
    Keeps (Serves n A) (onVisitingGroup c m) := by
  intro w hw
  cases hg : (w.client c).visitingUrlGroup with
  | none =>
    rw [onVisitingGroup_none hg]
    exact ⟨hw, .refl⟩
  | some g =>
    rw [onVisitingGroup_some hg]
    exact servesTook_onGroups (h g) w (hw.client c g hg) hw

theorem visiting_run (c : ℕ) (w : World) : (visiting c).run w =
    match (w.client c).visitingUrlGroup with
    | none => .error .nullPointer w
    | some g => .ok g w := by
  unfold visiting
  rw [EStateM.run_bind, EStateM.run_get]
  dsimp only
  cases (w.client c).visitingUrlGroup <;> rfl

/-- A handler that goes on with the client's group. -/
theorem serves_visiting {f : ℕ → ServerM α} (h : ∀ g, Keeps (ServesTook n A c g) (f g)) :
    Keeps (Serves n A) (visiting c >>= f) := by
  intro w hw
  have hrun := visiting_run c w
  cases hg : (w.client c).visitingUrlGroup with
  | none =>
    rw [hg] at hrun
    rw [run_bind_error hrun]
    exact ⟨hw, .refl⟩
  | some g =>
    rw [hg] at hrun
    rw [run_bind_ok hrun]
    exact h g w (hw.client c g hg) hw

end programs

/-! ## Clients -/

theorem on_setBenign (g : ℕ) : Keeps (On n A P g) (setBenign g) := by
  refine keeps_bind keeps_get fun s => ?_
  split_ifs
  · exact on_mono (by rintro (h | ⟨m, h, -⟩) <;> cases h) (on_verdict _ _ _)
  · exact keeps_pure _

theorem serves_disconnectFirst : Keeps (Serves n A) (disconnectFirst c) :=
  keeps_bind keeps_get fun _ => keeps_bind (serves_releaseVm _) fun _ =>
    keeps_bind (serves_onVisitingGroup fun _ => on_state _) fun _ =>
      serves_modifyClient (fun _ => .inl rfl) fun _ => .inl rfl

theorem serves_disconnectSecond : Keeps (Serves n A) (disconnectSecond c) :=
  serves_onVisitingGroup fun g => keeps_bind (on_setBenign g) fun _ =>
    keeps_bind (on_code _) fun _ => on_state _

theorem serves_setClientState (st : ClientState) : Keeps (Serves n A) (setClientState c st) := by
  refine keeps_bind keeps_get fun w => ?_
  split_ifs
  · exact keeps_pure _
  · refine keeps_bind (serves_modifyClient (fun _ => .inl rfl) fun _ => .inl rfl) fun _ => ?_
    split
    · exact serves_setState (fun _ => keeps_pure _) _
    · exact keeps_bind serves_disconnectFirst fun _ => serves_disconnectSecond
    · exact keeps_pure _

theorem serves_send (message : String) (written : Bool) : Keeps (Serves n A) (send c message written) := by
  refine keeps_bind keeps_get fun w => ?_
  split_ifs
  · exact keeps_pure _
  · exact keeps_bind (serves_modifyClient (fun _ => .inl rfl) fun _ => .inl rfl) fun _ => keeps_pure _
  · exact keeps_bind (serves_setClientState _) fun _ => keeps_pure _

/-- The client gets the group. -/
theorem servesTook_point : Keeps (ServesTook n A c g) (modifyClient c fun x => { x with visitingUrlGroup := some g }) :=
  keeps_modify fun _ htook hw => ⟨hw.setClient (fun _ hk => Option.some.inj hk ▸ htook) (hw.handler c), .refl⟩

theorem servesTook_sendVisitEvent (written : Bool) : Keeps (ServesTook n A c g) (sendVisitEvent c g written) :=
  keeps_bind keeps_get fun _ => keeps_bind (servesTook_onGroups (on_sending _)) fun _ =>
    keeps_bind servesTook_point fun _ => keeps_bind (servesTook (serves_send _ _)) fun _ =>
      keeps_bind (servesTook_onGroups (on_address _)) fun _ => keeps_pure _

theorem serves_sendFailed : Keeps (Serves n A) (sendFailed c) :=
  serves_visiting fun _ => servesTook_onGroups (keeps_bind (on_code _) fun _ => on_state _)

theorem servesTook_setVisitingUrlGroup (written : Bool) :
    Keeps (ServesTook n A c g) (setVisitingUrlGroup c g written) := by
  refine keeps_bind (servesTook_sendVisitEvent written) fun success => ?_
  split_ifs
  · exact servesTook (serves_modifyClient (fun _ => .inl rfl) fun _ => .inl rfl)
  · exact servesTook serves_sendFailed

/-- Whatever is done with a group that was taken. -/
theorem serves_take {f : ℕ → ServerM Unit} (hf : ∀ g, Keeps (ServesTook cfg.groupSize A c g) (f g)) (picks : ℕ → ℕ) :
    Keeps (Serves cfg.groupSize A) (do
      let group ← onGroups (takeUrlGroup cfg.groupSize picks c)
      match group with
      | none => pure ()
      | some g => f g) := by
  have htake : Keeps (GroupMoves cfg.groupSize A) (takeUrlGroup cfg.groupSize picks c) := by
    intro s
    have hmoves := unblamed_takeUrlGroup cfg.groupSize picks c s
    obtain ⟨r, s', hrun, hcases⟩ := takeUrlGroup_cases cfg.groupSize picks c s
    rw [hrun] at hmoves ⊢
    exact .single (.take picks c r hcases hmoves)
  intro w hw
  refine final_bind (R := Serves cfg.groupSize A) (serves_onGroups htake w) (fun r w1 hrun => ?_) hw
  obtain ⟨s1, hrun1, rfl⟩ := run_zoom_eq_ok hrun
  have htaken := takeUrlGroup_ok hrun1
  cases r with
  | none => exact refl _
  | some g =>
    -- the group was on the stack, or it is new
    intro hw1
    refine hf g _ ?_ hw1
    cases htaken with
    | popped hq => exact ⟨hw.sound.stacked g (hq ▸ List.mem_cons_self), List.mem_cons_self⟩
    | fresh => exact ⟨Nat.lt_succ_self _, List.mem_cons_self⟩

/-! ## Messages -/

theorem serves_recordStateChange (hc : A c) : Keeps (Serves n A) (recordStateChange sdf c e) := by
  refine keeps_bind keeps_get fun w => ?_
  split
  · exact serves_modifyClient (fun _ => .inl rfl) fun _ => .inr hc
  · exact keeps_pure _
  · exact keeps_throw _

theorem on_endVisitOnEvent : Keeps (On n A True g) (do
    UrlGroup.setMalicious g (some "dac") true none
    UrlGroup.writeEventToLog sdf g (eventLine e)
    UrlGroup.setVisitFinishTime sdf g (e.get "time")
    let s ← get
    onUrls (forM (s.group g).urlList Url.setVisitFinishTime)
    UrlGroup.setUrlGroupState g .visited : GroupsM Unit) := by
  refine keeps_bind (on_mono (fun _ => trivial) (on_verdict _ _ _)) fun _ => keeps_bind (on_event _) fun _ =>
    keeps_bind (on_finishTime _) fun _ s => ?_
  refine final_bind (refl s) fun s' t hget => ?_
  cases hget
  exact final_bind (on_finishTimes g s) fun _ t _ => on_state .visited t

theorem servesOn_endVisitOnEvent : Keeps (ServesOn n A True g) (endVisitOnEvent sdf c g e) :=
  keeps_bind (servesOn_onGroups on_endVisitOnEvent) fun _ =>
    keeps_bind (servesOn (serves_modifyClient (fun _ => .inr rfl) fun _ => .inl rfl)) fun _ =>
      servesOn (serves_setClientState _)

theorem serves_parseEvent (hc : A c) : Keeps (Serves n A) (parseEvent sdf c e) := by
  intro w hw
  unfold parseEvent
  rw [EStateM.run_bind, EStateM.run_get]
  dsimp only
  split_ifs
  · split
    · rename_i algorithm g ha hg
      have htook := hw.client c g hg
      split_ifs
      · exact serves_recordStateChange hc w hw
      · exact servesTook_of (fun _ => hc) servesOn_endVisitOnEvent w htook hw
      · have hevent : Keeps (On n A True g) (setMaliciousOnEvent sdf g algorithm e) :=
          keeps_bind (on_mono (fun _ => trivial) (on_verdict _ _ _)) fun _ => on_event _
        exact servesTook_of (fun _ => hc) (servesOn_onGroups hevent) w htook hw
    · exact ⟨hw, .refl⟩
  · exact ⟨hw, .refl⟩

theorem on_startGroup (algorithm : Option String) : Keeps (On n A P g) (startGroup sdf g algorithm e) :=
  keeps_bind (on_startTime _) fun _ => keeps_bind (on_algorithm _) fun _ =>
    keeps_bind (keeps_forM fun _ _ => on_started _) fun _ => on_state _

theorem serves_parseStart : Keeps (Serves n A) (parseStart sdf c e) :=
  serves_visiting fun _ => keeps_bind keeps_get fun _ =>
    keeps_bind (servesTook_onGroups (on_startGroup _)) fun _ => servesTook (serves_setClientState _)

theorem on_parseItems (finish : Bool) (handler : StateChangeHandler) (items : List Element) :
    Keeps (On n A P g) (parseItems finish handler sdf g items) := by
  induction items with
  | nil => exact keeps_pure _
  | cons item items ih =>
    exact keeps_bind (on_parsed _ _ _) fun _ => keeps_bind ih fun _ => keeps_pure _

/-- Without a tree there is nothing to tell. -/
theorem csv_of_no_trees {handler : StateChangeHandler} (h : handler.processTrees = []) (processId : Int32) :
    handler.getStateChangesCSV sdf processId = "" := by
  unfold StateChangeHandler.getStateChangesCSV
  rw [h]
  rfl

theorem parseItem_told {finish : Bool} {handler : StateChangeHandler} (h : handler.processTrees = []) {item : Element}
    {change : String × String} (hrun : (parseItem finish handler sdf g item).run s = .ok change s') : change.2 = "" := by
  obtain ⟨u, s1, -, hrun⟩ := run_bind_eq_ok hrun
  dsimp only at hrun
  split at hrun
  · cases hrun
  · obtain ⟨_, s2, -, hrun⟩ := run_bind_eq_ok hrun
    obtain ⟨_, s3, -, hrun⟩ := run_bind_eq_ok hrun
    split at hrun
    · cases hrun
    · split at hrun
      · obtain ⟨_, s4, -, hrun⟩ := run_bind_eq_ok hrun
        cases hrun
        exact csv_of_no_trees h _
      · cases hrun
        exact csv_of_no_trees h _

/-- A handler without a tree makes a map without state changes. -/
theorem parseItems_told {finish : Bool} {handler : StateChangeHandler} {items : List Element} {map : UrlMap}
    (hrun : (parseItems finish handler sdf g items).run s = .ok map s') (htold : Told map) :
    handler.processTrees ≠ [] := by
  intro h
  obtain ⟨p, hp, hne⟩ := htold
  refine hne ?_
  induction items generalizing s map s' with
  | nil =>
    cases hrun
    cases hp
  | cons item items ih =>
    obtain ⟨change, s1, hrun1, hrun⟩ := run_bind_eq_ok hrun
    obtain ⟨rest, s2, hrun2, hrun⟩ := run_bind_eq_ok hrun
    cases hrun
    rw [List.mem_append, List.mem_singleton] at hp
    rcases hp with hp | rfl
    · exact ih hrun2 hp
    · exact parseItem_told h hrun1

theorem servesOn_flushIfBulk (map : UrlMap) : Keeps (ServesOn n A (Told map) g) (flushIfBulk sdf c g map) := by
  refine keeps_bind keeps_get fun w => ?_
  split_ifs
  · split
    · exact keeps_throw _
    · split_ifs
      · exact servesOn_onGroups (on_map _)
      · exact keeps_pure _
  · exact keeps_pure _

theorem servesOn_endVisit (b : Bool) (map : UrlMap) :
    Keeps (ServesOn n A (b = true ∨ Told map) g) (endVisit c g b map) := by
  refine keeps_bind keeps_get fun _ => keeps_bind (servesOn_onGroups ?_) fun _ =>
    servesOn (serves_modifyClient (fun _ => .inr rfl) fun _ => .inl rfl)
  refine keeps_bind (on_mono ?_ (on_verdict _ _ _)) fun _ => on_state _
  rintro (hb | ⟨m, hm, htold⟩)
  · exact .inl hb
  · cases hm
    exact .inr htold

/-- A group that is malicious already was blamed before. -/
theorem servesOn_finishVerdict (malicious : Option String) (map : UrlMap) :
    Keeps (ServesOn n A (malicious = some "1" ∨ Told map) g) (finishVerdict cfg sdf c g malicious map) := by
  intro w hg hP hw
  unfold finishVerdict
  rw [EStateM.run_bind, EStateM.run_get]
  dsimp only
  split_ifs with hnone hflag
  · exact ⟨hw, .refl⟩
  · have haccusable : Accusable A g w.groups := by
      rcases hflag with hflag | hone
      · exact hw.sound.flagged g hg.1 hflag
      · exact hP (.inl hone)
    have hrun : Keeps (ServesOn n A True g) (do
        flushIfBulk sdf c g map
        endVisit c g true map
        setClientState c .disconnected : ServerM Unit) :=
      keeps_bind (servesOn_mono (fun _ => trivial) (servesOn_flushIfBulk map)) fun _ =>
        keeps_bind (servesOn_mono (fun _ => trivial) (servesOn_endVisit _ _)) fun _ => servesOn (serves_setClientState _)
    exact hrun w hg (fun _ => haccusable) hw
  · have hrun : Keeps (ServesOn n A (malicious = some "1" ∨ Told map) g) (do
        endVisit c g false map
        setClientState c (afterBenign cfg) : ServerM Unit) :=
      keeps_bind (servesOn_mono (fun h => .inr (h.resolve_left nofun)) (servesOn_endVisit _ _)) fun _ =>
        servesOn (serves_setClientState _)
    exact hrun w hg hP hw

theorem serves_parseFinish (hA : e.Accuses → A c) : Keeps (Serves n A) (parseFinish cfg sdf c e) := by
  refine serves_visiting fun g w htook hw => ?_
  have hhandler := hw.handler c
  refine final_bind (R := ServesTook n A c g) (refl w) (fun w' t hget => ?_) htook hw
  cases hget
  refine keeps_bind (servesTook_onGroups (on_finishTime _)) (fun _ t => ?_) w
  refine final_bind (servesTook_onGroups (on_parseItems _ _ _) t) fun map t' hrun => ?_
  obtain ⟨s', hrun, -⟩ := run_zoom_eq_ok hrun
  refine servesTook_of ?_ (servesOn_finishVerdict _ map) t'
  rintro (hone | htold)
  · exact hA (.inr hone)
  · exact hhandler (parseItems_told hrun htold)

theorem on_setGroupCode (major : Option String) : Keeps (On n A P g) (setGroupCode g major) := by
  unfold setGroupCode
  split
  · exact keeps_throw _
  · exact on_code _

theorem servesOn_retryError (major malicious : Option String) (map : UrlMap) :
    Keeps (ServesOn n A (malicious = some "1" ∨ Told map) g) (retryError cfg sdf c g major malicious map) := by
  unfold retryError
  split_ifs
  · exact keeps_throw _
  · exact keeps_throw _
  · refine keeps_bind ?_ fun _ => keeps_bind keeps_get fun _ => keeps_bind (servesOn_onGroups ?_) fun _ =>
      keeps_bind (servesOn (serves_modifyClient (fun _ => .inr rfl) fun _ => .inl rfl)) fun _ =>
        servesOn (serves_setClientState _)
    · unfold flushIfMalicious
      split_ifs
      · exact servesOn_mono .inr (servesOn_flushIfBulk map)
      · exact keeps_pure _
    · refine keeps_bind (on_mono ?_ (on_verdict _ _ _)) fun _ => keeps_bind (on_setGroupCode _) fun _ => on_state _
      rintro (hb | ⟨m, hm, htold⟩)
      · exact .inl (of_decide_eq_true hb)
      · cases hm
        exact .inr htold

theorem servesOn_visitedWithError (malicious : Option String) (map : UrlMap) :
    Keeps (ServesOn n A (malicious = some "1" ∨ Told map) g) (visitedWithError cfg sdf c g malicious map) := by
  unfold visitedWithError
  split_ifs with hnone hone
  · exact keeps_throw _
  · exact keeps_bind (servesOn_onGroups (on_mono .inr (on_map _))) fun _ =>
      keeps_bind (servesOn_mono (fun _ => .inl hone) (servesOn_endVisit _ _)) fun _ => servesOn (serves_setClientState _)
  · exact keeps_bind (servesOn_mono (fun h => .inr (h.resolve_left nofun)) (servesOn_endVisit _ _)) fun _ =>
      servesOn (serves_setClientState _)

theorem serves_parseError (hA : e.Accuses → A c) : Keeps (Serves n A) (parseError cfg sdf c e) := by
  refine serves_visiting fun g w htook hw => ?_
  have hhandler := hw.handler c
  refine final_bind (R := ServesTook n A c g) (refl w) (fun w' t hget => ?_) htook hw
  cases hget
  refine final_bind (servesTook_onGroups (on_parseItems _ _ _) w) fun map t' hrun => ?_
  obtain ⟨s', hrun, -⟩ := run_zoom_eq_ok hrun
  have hP : e.get "malicious" = some "1" ∨ Told map → A c := by
    rintro (hone | htold)
    · exact hA (.inr hone)
    · exact hhandler (parseItems_told hrun htold)
  split
  · exact keeps_throw _ t'
  · split_ifs
    · exact servesTook_of hP (servesOn_retryError _ _ map) t'
    · exact servesTook_of hP (servesOn_visitedWithError _ map) t'

theorem serves_parseVisitEvent (hA : e.Accuses → A c) : Keeps (Serves n A) (parseVisitEvent cfg sdf c e) := by
  refine keeps_bind (serves_modifyClient (fun _ => .inl rfl) fun _ => .inl rfl) fun _ => ?_
  split
  · exact keeps_throw _
  · split_ifs
    · exact serves_parseStart
    · exact serves_parseFinish hA
    · exact serves_parseError hA
    · exact keeps_pure _

theorem serves_handleMessage (hA : e.Accuses → A c) : Keeps (Serves n A) (handleMessage cfg sdf c e) := by
  refine keeps_bind keeps_get fun w => keeps_bind (serves_modifyVm _ _) fun _ => ?_
  split_ifs with hname
  · exact serves_parseEvent (hA (.inl hname))
  · exact serves_parseVisitEvent hA
  · exact keeps_pure _

theorem serves_eventThreadEnds : Keeps (Serves n A) (eventThreadEnds c) :=
  keeps_bind (serves_onVisitingGroup fun _ => on_code _) fun _ =>
    serves_modifyClient (fun _ => .inl rfl) fun _ => .inl rfl

/-! ## The steps of the server -/

theorem serves_setError (v : ℕ) (code : ErrorCode) : Keeps (Serves n A) (setError v code) := by
  refine keeps_bind keeps_get fun w => ?_
  split
  · exact keeps_pure _
  · exact serves_onVisitingGroup fun _ => keeps_bind (on_code _) fun _ => on_state _

/-- A program on the URLs that leaves the queue. -/
theorem serves_onUrls {f : UrlsController → UrlsController} (hsize : ∀ t, (f t).size = t.size)
    (hqueue : ∀ t, (f t).urlQueue = t.urlQueue) (h : ∀ t, UrlMove (fun _ => False) t (f t)) :
    Keeps (Serves n A) (onGroups (onUrls (modify f))) :=
  serves_onGroups fun _ => .single (.urls _ (hsize _) (hqueue _) (.single (h _)))

theorem serves_addUrl (url clientProgram : String) (visitTime : Int32) (id : ℤ) : Keeps (Serves n A)
    (onGroups (onUrls (modify (UrlsController.addUrl (Url.new url clientProgram visitTime id))))) :=
  serves_onGroups fun _ => .single (.add url clientProgram visitTime id)

theorem serves_revertVm (v : ℕ) : Keeps (Serves n A) (revertVm v) := serves_setState (fun _ => serves_setClientState _) _

theorem serves_stalled {count : Stats → Stats} (a b : ℕ) (hcount : ∀ x, count x =
    { x with clientInactivity := x.clientInactivity + a, vmStalled := x.vmStalled + b }) (code : ErrorCode) :
    Keeps (Serves n A) (stalled cfg v count code) := by
  obtain rfl : count = fun x => { x with clientInactivity := x.clientInactivity + a, vmStalled := x.vmStalled + b } :=
    funext hcount
  refine keeps_bind (serves_onUrls (fun _ => rfl) (fun _ => rfl) fun _ => .counted a b) fun _ =>
    keeps_bind (serves_setError v code) fun _ => ?_
  split_ifs
  · exact keeps_throw _
  · exact serves_revertVm v

theorem serves_checkVm (v : ℕ) : Keeps (Serves n A) (checkVm cfg v) := by
  have hstalled : ∀ timeout, Keeps (Serves n A) (checkStalled cfg v timeout) := fun timeout => by
    refine keeps_bind keeps_get fun w => ?_
    split_ifs
    · exact serves_stalled 0 1 (fun _ => rfl) _
    · exact keeps_pure _
  refine keeps_bind keeps_get fun w => ?_
  split_ifs
  · refine keeps_bind (keeps_bind keeps_get fun w => ?_) fun _ => hstalled _
    split_ifs
    · exact serves_stalled 1 0 (fun _ => rfl) _
    · exact keeps_pure _
  · refine keeps_bind (keeps_bind keeps_get fun w => ?_) fun _ => hstalled _
    split_ifs
    · exact keeps_modify fun _ hw => ⟨⟨hw.sound, hw.client, hw.handler⟩, .refl⟩
    · exact keeps_pure _

theorem serves_connect (v : ℕ) : Keeps (Serves n A) (CaptureHPC.connect v) := by
  refine keeps_bind keeps_get fun w => keeps_bind (keeps_modify fun w hw => ⟨?_, .refl⟩) fun _ =>
    keeps_bind (serves_modifyVm _ _) fun _ => keeps_bind (serves_setClientState _) fun _ => serves_setClientState _
  have hclient := hw.setClient (c := w.nClients) (x := { virtualMachine := v }) (fun _ h => by cases h) fun h => absurd rfl h
  exact ⟨hclient.sound, hclient.client, hclient.handler⟩

theorem serves_retrieve (picks : ℕ → ℕ) (c : ℕ) (written : Bool) :
    Keeps (Serves cfg.groupSize A) (retrieve cfg picks c written) := by
  refine keeps_bind keeps_get fun w => ?_
  split_ifs
  · exact serves_take (fun _ => servesTook_setVisitingUrlGroup written) picks
  · exact keeps_pure _

theorem serves_takeGroup (picks : ℕ → ℕ) (c : ℕ) : Keeps (Serves cfg.groupSize A) (takeGroup cfg picks c) := by
  refine keeps_bind keeps_get fun w => ?_
  split_ifs
  · exact serves_take (fun _ => keeps_bind (servesTook_sendVisitEvent true) fun _ => keeps_pure _) picks
  · exact keeps_pure _

theorem serves_piece {p : Piece} (hA : ∀ c, (Act.piece p).Accuses c → A c) :
    Keeps (Serves cfg.groupSize A) (p.program cfg sdf) := by
  cases p with
  | addUrl url clientProgram visitTime id => exact serves_addUrl _ _ _ _
  | connect v => exact serves_connect v
  | takeGroup c picks => exact serves_takeGroup picks c
  | awaitVisiting c =>
    show Keeps (Serves cfg.groupSize A) (modifyClient c fun x => { x with clientState := .awaitingVisiting })
    exact serves_modifyClient (fun _ => .inl rfl) fun _ => .inl rfl
  | sendFailed c => exact serves_sendFailed
  | setDisconnected c =>
    show Keeps (Serves cfg.groupSize A) (modifyClient c fun x => { x with clientState := .disconnected })
    exact serves_modifyClient (fun _ => .inl rfl) fun _ => .inl rfl
  | disconnectFirst c => exact serves_disconnectFirst
  | disconnectSecond c => exact serves_disconnectSecond
  | message c e => exact serves_handleMessage fun h => hA c ⟨rfl, h⟩
  | connectionLost c => exact serves_eventThreadEnds
  | setError v code => exact serves_setError v code
  | revertVm v newState => exact serves_setState (fun _ => keeps_pure _) _

theorem serves_after {m atError : ServerM Unit} (hm : Keeps (Serves n A) m) (he : Keeps (Serves n A) atError)
    (h : w.after m atError = some w') : Serves n A w w' := by
  have hw := hm w
  unfold World.after at h
  split at h
  · rename_i hrun
    rw [hrun] at hw
    cases h
    exact hw
  · cases h
  · rename_i hrun
    rw [hrun] at hw
    cases h
    exact IsTrans.trans _ _ _ hw (he _)

/-- **A step of the server moves the groups.** -/
theorem serves_act {a : Act} (hA : ∀ c, a.Accuses c → A c) (h : w.act cfg sdf a = some w') :
    Serves cfg.groupSize A w w' := by
  cases a with
  | piece p =>
    cases h
    exact serves_piece hA w
  | event ev =>
    cases ev with
    | tick now =>
      simp only [World.act, World.step] at h
      split_ifs at h
      have htick : Keeps (Serves cfg.groupSize A) (onGroups (onUrls (modify fun t => { t with now := now }))) :=
        serves_onUrls (fun _ => rfl) (fun _ => rfl) fun _ => .clock now
      exact serves_after htick (keeps_pure ()) h
    | addUrl url clientProgram visitTime id => exact serves_after (serves_addUrl _ _ _ _) (keeps_pure ()) h
    | connect v => exact serves_after (serves_connect v) (keeps_pure ()) h
    | retrieve c picks written =>
      simp only [World.act, World.step] at h
      split_ifs at h
      exact serves_after (serves_retrieve picks c written) (keeps_pure ()) h
    | message c e =>
      simp only [World.act, World.step] at h
      split_ifs at h
      exact serves_after (serves_handleMessage fun hc => hA c ⟨rfl, hc⟩) serves_eventThreadEnds h
    | connectionLost c =>
      simp only [World.act, World.step] at h
      split_ifs at h
      exact serves_after serves_eventThreadEnds (keeps_pure ()) h
    | disconnect c =>
      simp only [World.act, World.step] at h
      split_ifs at h
      exact serves_after (serves_setClientState _) (keeps_pure ()) h
    | checkVm v => exact serves_after (serves_checkVm v) (keeps_pure ()) h
    | setVmState v newState =>
      exact serves_after (serves_setState (fun _ => serves_setClientState _) newState) (keeps_pure ()) h

/-- **The server moves its groups.** So it is in every state that is reached by steps in which only
clients of `A` accuse. -/
theorem moves_of_reaches {ok : World → Act → Prop} (hok : ∀ w a c, ok w a → a.Accuses c → A c)
    (h : Reaches (World.act cfg sdf) ok {} w) : Pointers A w ∧ GroupMoves cfg.groupSize A {} w.groups := by
  refine h.invariant (P := fun w => Pointers A w ∧ GroupMoves cfg.groupSize A {} w.groups) ⟨.start, .refl⟩
    fun w a w' hw ha hact => ?_
  obtain ⟨hw', hmoves⟩ := serves_act (hok w a · ha) hact hw.1
  exact ⟨hw', hw.2.trans hmoves⟩

/-- In whatever order the steps come. -/
theorem moves_of_anyStep (h : Reaches (World.act cfg sdf) anyStep {} w) :
    GroupMoves cfg.groupSize (fun _ => True) {} w.groups :=
  (moves_of_reaches (fun _ _ _ _ _ => trivial) h).2

/-- Pieces one after another are steps. -/
theorem reaches_micros (ps : List Piece) : Reaches (World.act cfg sdf) anyStep {} (World.micros cfg sdf {} ps) := by
  induction ps using List.reverseRecOn with
  | nil => exact .start
  | append_singleton ps p ih =>
    rw [World.micros, List.foldl_append]
    exact ih.next (a := .piece p) trivial rfl

end CaptureHPC
