import CaptureHPC.Proof.Events
import CaptureHPC.Proof.Retry
import CaptureHPC.Proof.Taking

/-!
# Whose group a piece changes

* `micro_marks`: a piece changes the state, the errors and the verdict of no group but its client's.
* So a group that another client has taken since is left alone as long as no piece uses a group
  that its client was not the last to take (`group_exclusive`).
-/

namespace CaptureHPC

open Lib Client UrlGroup UrlGroupsController

variable {cfg : Config} {sdf : SimpleDateFormat} {w w' w'' : World} {c d g i : ℕ} {s s' s'' : UrlGroupsController}

section elsewhere

/-- Of the groups there are, only `g` changes. -/
structure Elsewhere (g : ℕ) (s s' : UrlGroupsController) : Prop where
  size : s.size ≤ s'.size
  others : ∀ i < s.size, i ≠ g → s'.group i = s.group i

instance : Std.Refl (Elsewhere g) := ⟨fun _ => ⟨le_rfl, fun _ _ _ => rfl⟩⟩

instance : IsTrans UrlGroupsController (Elsewhere g) where
  trans _ _ _ h h' := ⟨h.size.trans h'.size, fun i hi hne =>
    (h'.others i (Nat.lt_of_lt_of_le hi h.size) hne).trans (h.others i hi hne)⟩

theorem GroupFrame.elsewhere (h : GroupFrame g s s') : Elsewhere g s s' :=
  ⟨h.size.ge, fun i _ hne => h.others i hne⟩

theorem elsewhere_of_frame {α : Type} {m : GroupsM α} (h : Keeps (GroupFrame g) m) : Keeps (Elsewhere g) m :=
  fun s => (h s).elsewhere

theorem elsewhere_onUrls {α : Type} (m : UrlsM α) : Keeps (Elsewhere g) (onUrls m) := by
  intro s
  rw [onUrls, final_zoom]
  exact ⟨le_rfl, fun _ _ _ => rfl⟩

theorem elsewhere_setUrlGroupState (st : UrlGroupState) : Keeps (Elsewhere g) (setUrlGroupState g st) := by
  intro s
  obtain ⟨hreaction, -⟩ := setUrlGroupState_cases g st s
  cases hreaction with
  | kept h => exact ⟨h.size.ge, fun i _ hne => by rw [h.group, Function.update_of_ne hne]⟩
  | retried _ _ _ h => exact ⟨h.size.ge, fun i _ hne => by rw [h.group, Function.update_of_ne hne]⟩
  | divided x1 x2 _ _ h =>
    refine ⟨by rw [h.size]; omega, fun i hi hne => ?_⟩
    rw [h.group, Function.update_of_ne (by omega), Function.update_of_ne (by omega), Function.update_of_ne hne]

theorem elsewhere_setBenign : Keeps (Elsewhere g) (setBenign g) := by
  refine keeps_bind keeps_get fun s => ?_
  split_ifs
  · exact elsewhere_of_frame (frame_setMalicious _ _ _)
  · exact keeps_pure _

theorem elsewhere_setMaliciousOnEvent (algorithm : String) (e : Element) :
    Keeps (Elsewhere g) (setMaliciousOnEvent sdf g algorithm e) :=
  keeps_bind (elsewhere_of_frame (frame_setMalicious _ _ _)) fun _ => elsewhere_of_frame (frame_writeEventToLog sdf _)

theorem elsewhere_startGroup (algorithm : Option String) (e : Element) :
    Keeps (Elsewhere g) (startGroup sdf g algorithm e) :=
  keeps_bind (elsewhere_of_frame (frame_setVisitStartTime sdf _)) fun _ =>
    keeps_bind (elsewhere_of_frame (frame_setAlgorithm _)) fun _ =>
      keeps_bind (keeps_forM fun _ _ => elsewhere_of_frame (frame_startItem _)) fun _ => elsewhere_setUrlGroupState _

theorem elsewhere_setGroupCode (major : Option String) : Keeps (Elsewhere g) (setGroupCode g major) := by
  unfold setGroupCode
  split
  · exact keeps_throw _
  · exact elsewhere_of_frame (frame_setMajorErrorCode _)

end elsewhere

section confined

/-- The client has this group or none. -/
def Points (c g : ℕ) (w : World) : Prop := ∀ h, (w.client c).visitingUrlGroup = some h → h = g

/-- What a program of a client with this group leaves alone. -/
def Confined (c g : ℕ) (w w' : World) : Prop := Points c g w → Points c g w' ∧ Elsewhere g w.groups w'.groups

instance : Std.Refl (Confined c g) := ⟨fun _ h => ⟨h, refl _⟩⟩

instance : IsTrans World (Confined c g) where
  trans _ _ _ h h' hp := by
    obtain ⟨hp1, he1⟩ := h hp
    obtain ⟨hp2, he2⟩ := h' hp1
    exact ⟨hp2, IsTrans.trans (r := Elsewhere g) _ _ _ he1 he2⟩

theorem confined_onGroups {α : Type} {m : GroupsM α} (h : Keeps (Elsewhere g) m) : Keeps (Confined c g) (onGroups m) :=
  keeps_zoom h fun _ _ hs hp => ⟨hp, hs⟩

theorem confined_same (hclient : (w'.client c).visitingUrlGroup = (w.client c).visitingUrlGroup)
    (hgroups : w'.groups = w.groups) : Confined c g w w' := by
  intro hp
  refine ⟨fun h hh => hp h (hclient.symm.trans hh), ?_⟩
  rw [hgroups]
  exact refl _

theorem confined_modifyClient {f : Client → Client}
    (h : ∀ x, (f x).visitingUrlGroup = x.visitingUrlGroup ∨ (f x).visitingUrlGroup = none) :
    Keeps (Confined c g) (modifyClient c f) := by
  refine keeps_modify fun w hp => ⟨fun k hk => ?_, refl _⟩
  rw [World.setClient_self] at hk
  rcases h (w.client c) with hsame | hnone
  · exact hp k (hsame.symm.trans hk)
  · rw [hnone] at hk
    exact nomatch hk

theorem confined_modifyVm (v : ℕ) (f : VirtualMachine → VirtualMachine) : Keeps (Confined c g) (modifyVm v f) :=
  keeps_modify fun _ => confined_same rfl rfl

theorem confined_setState (v : ℕ) (newState : VmState) :
    Keeps (Confined c g) (VirtualMachine.setState (fun _ => pure ()) v newState) := by
  intro w
  obtain ⟨y, hrun, -⟩ := setState_run v newState w
  rw [hrun]
  exact confined_same rfl rfl

theorem confined_releaseVm (v : ℕ) : Keeps (Confined c g) (releaseVm v) := by
  intro w
  obtain ⟨y, hrun, -⟩ := releaseVm_run v w
  rw [hrun]
  exact confined_same rfl rfl

theorem confined_onVisitingGroup {m : ℕ → GroupsM Unit} (h : Keeps (Elsewhere g) (m g)) :
    Keeps (Confined c g) (onVisitingGroup c m) := by
  intro w hp
  cases hg : (w.client c).visitingUrlGroup with
  | none =>
    rw [onVisitingGroup_none hg]
    exact ⟨hp, refl _⟩
  | some k =>
    obtain rfl := hp k hg
    rw [onVisitingGroup_some hg]
    exact confined_onGroups h w hp

/-- A handler that goes on with the client's group. -/
theorem confined_visiting {α : Type} {f : ℕ → ServerM α} (h : Keeps (Confined c g) (f g)) :
    Keeps (Confined c g) (visiting c >>= f) := by
  intro w hp
  cases hg : (w.client c).visitingUrlGroup with
  | none =>
    have hrun : (visiting c).run w = .error .nullPointer w := by
      unfold visiting
      rw [EStateM.run_bind, EStateM.run_get]
      dsimp only
      rw [hg]
      rfl
    rw [run_bind_error hrun]
    exact ⟨hp, refl _⟩
  | some k =>
    obtain rfl := hp k hg
    have hrun : (visiting c).run w = .ok k w := by
      unfold visiting
      rw [EStateM.run_bind, EStateM.run_get]
      dsimp only
      rw [hg]
      rfl
    rw [run_bind_ok hrun]
    exact h w hp

theorem confined_disconnectFirst : Keeps (Confined c g) (disconnectFirst c) :=
  keeps_bind keeps_get fun _ => keeps_bind (confined_releaseVm _) fun _ =>
    keeps_bind (confined_onVisitingGroup (elsewhere_setUrlGroupState _)) fun _ => confined_modifyClient fun _ => .inl rfl

theorem confined_disconnectSecond : Keeps (Confined c g) (disconnectSecond c) :=
  confined_onVisitingGroup (keeps_bind elsewhere_setBenign fun _ =>
    keeps_bind (elsewhere_of_frame (frame_setMajorErrorCode _)) fun _ => elsewhere_setUrlGroupState _)

theorem confined_setClientState (st : ClientState) : Keeps (Confined c g) (setClientState c st) := by
  refine keeps_bind keeps_get fun w => ?_
  split_ifs
  · exact keeps_pure _
  · refine keeps_bind (confined_modifyClient fun _ => .inl rfl) fun _ => ?_
    split
    · exact confined_setState _ _
    · exact keeps_bind confined_disconnectFirst fun _ => confined_disconnectSecond
    · exact keeps_pure _

end confined

section handlers

theorem confined_recordStateChange (e : Element) : Keeps (Confined c g) (recordStateChange sdf c e) := by
  refine keeps_bind keeps_get fun w => ?_
  split
  · exact confined_modifyClient fun _ => .inl rfl
  · exact keeps_pure _
  · exact keeps_throw _

theorem confined_endVisitOnEvent (e : Element) : Keeps (Confined c g) (endVisitOnEvent sdf c g e) := by
  refine keeps_bind (confined_onGroups ?_) fun _ => keeps_bind (confined_modifyClient fun _ => .inr rfl) fun _ =>
    confined_setClientState _
  exact keeps_bind (elsewhere_of_frame (frame_setMalicious _ _ _)) fun _ =>
    keeps_bind (elsewhere_of_frame (frame_writeEventToLog sdf _)) fun _ =>
      keeps_bind (elsewhere_of_frame (frame_setVisitFinishTime sdf _)) fun _ => keeps_bind keeps_get fun s =>
        keeps_bind (elsewhere_onUrls _) fun _ => elsewhere_setUrlGroupState _

theorem confined_parseEvent (e : Element) : Keeps (Confined c g) (parseEvent sdf c e) := by
  intro w hp
  unfold parseEvent
  rw [EStateM.run_bind, EStateM.run_get]
  dsimp only
  split_ifs
  · split
    · rename_i algorithm k ha hg
      obtain rfl := hp k hg
      split_ifs
      · exact confined_recordStateChange e w hp
      · exact confined_endVisitOnEvent e w hp
      · exact confined_onGroups (elsewhere_setMaliciousOnEvent algorithm e) w hp
    · exact ⟨hp, refl _⟩
  · exact ⟨hp, refl _⟩

theorem confined_parseStart (e : Element) : Keeps (Confined c g) (parseStart sdf c e) :=
  confined_visiting (keeps_bind keeps_get fun _ => keeps_bind (confined_onGroups (elsewhere_startGroup _ e)) fun _ =>
    confined_setClientState _)

theorem confined_flushIfBulk (map : UrlMap) : Keeps (Confined c g) (flushIfBulk sdf c g map) := by
  refine keeps_bind keeps_get fun w => ?_
  split_ifs
  · split
    · exact keeps_throw _
    · split_ifs
      · exact confined_onGroups (elsewhere_of_frame (frame_writeMapToLog sdf map))
      · exact keeps_pure _
  · exact keeps_pure _

theorem confined_endVisit (b : Bool) (map : UrlMap) : Keeps (Confined c g) (endVisit c g b map) :=
  keeps_bind keeps_get fun _ => keeps_bind (confined_onGroups (keeps_bind
    (elsewhere_of_frame (frame_setMalicious _ _ _)) fun _ => elsewhere_setUrlGroupState _)) fun _ =>
      confined_modifyClient fun _ => .inr rfl

theorem confined_finishVerdict (malicious : Option String) (map : UrlMap) :
    Keeps (Confined c g) (finishVerdict cfg sdf c g malicious map) := by
  refine keeps_bind keeps_get fun w => ?_
  split_ifs
  · exact keeps_throw _
  · exact keeps_bind (confined_flushIfBulk map) fun _ => keeps_bind (confined_endVisit _ _) fun _ => confined_setClientState _
  · exact keeps_bind (confined_endVisit _ _) fun _ => confined_setClientState _

theorem confined_parseFinish (e : Element) : Keeps (Confined c g) (parseFinish cfg sdf c e) :=
  confined_visiting (keeps_bind keeps_get fun _ =>
    keeps_bind (confined_onGroups (elsewhere_of_frame (frame_setVisitFinishTime sdf _))) fun _ =>
      keeps_bind (confined_onGroups (elsewhere_of_frame (frame_parseItems _ _ sdf _))) fun map =>
        confined_finishVerdict _ map)

theorem confined_retryError (major malicious : Option String) (map : UrlMap) :
    Keeps (Confined c g) (retryError cfg sdf c g major malicious map) := by
  unfold retryError
  split_ifs
  · exact keeps_throw _
  · exact keeps_throw _
  · refine keeps_bind ?_ fun _ => keeps_bind keeps_get fun _ => keeps_bind (confined_onGroups ?_) fun _ =>
      keeps_bind (confined_modifyClient fun _ => .inr rfl) fun _ => confined_setClientState _
    · unfold flushIfMalicious
      split_ifs
      · exact confined_flushIfBulk map
      · exact keeps_pure _
    · exact keeps_bind (elsewhere_of_frame (frame_setMalicious _ _ _)) fun _ =>
        keeps_bind (elsewhere_setGroupCode _) fun _ => elsewhere_setUrlGroupState _

theorem confined_visitedWithError (malicious : Option String) (map : UrlMap) :
    Keeps (Confined c g) (visitedWithError cfg sdf c g malicious map) := by
  unfold visitedWithError
  split_ifs
  · exact keeps_throw _
  · exact keeps_bind (confined_onGroups (elsewhere_of_frame (frame_writeMapToLog sdf map))) fun _ =>
      keeps_bind (confined_endVisit _ _) fun _ => confined_setClientState _
  · exact keeps_bind (confined_endVisit _ _) fun _ => confined_setClientState _

theorem confined_parseError (e : Element) : Keeps (Confined c g) (parseError cfg sdf c e) := by
  refine confined_visiting (keeps_bind keeps_get fun _ =>
    keeps_bind (confined_onGroups (elsewhere_of_frame (frame_parseItems _ _ sdf _))) fun map => ?_)
  split
  · exact keeps_throw _
  · split_ifs
    · exact confined_retryError _ _ map
    · exact confined_visitedWithError _ map

theorem confined_parseVisitEvent (e : Element) : Keeps (Confined c g) (parseVisitEvent cfg sdf c e) := by
  refine keeps_bind (confined_modifyClient fun _ => .inl rfl) fun _ => ?_
  split
  · exact keeps_throw _
  · split_ifs
    · exact confined_parseStart e
    · exact confined_parseFinish e
    · exact confined_parseError e
    · exact keeps_pure _

theorem confined_handleMessage (e : Element) : Keeps (Confined c g) (handleMessage cfg sdf c e) := by
  refine keeps_bind keeps_get fun w => keeps_bind (confined_modifyVm _ _) fun _ => ?_
  split_ifs
  · exact confined_parseEvent e
  · exact confined_parseVisitEvent e
  · exact keeps_pure _

theorem confined_eventThreadEnds : Keeps (Confined c g) (eventThreadEnds c) :=
  keeps_bind (confined_onVisitingGroup (elsewhere_of_frame (frame_setMajorErrorCode _))) fun _ =>
    confined_modifyClient fun _ => .inl rfl

theorem confined_sendFailed : Keeps (Confined c g) (sendFailed c) :=
  confined_visiting (confined_onGroups (keeps_bind (elsewhere_of_frame (frame_setMajorErrorCode _)) fun _ =>
    elsewhere_setUrlGroupState _))

end handlers

section pieces

/-- What a group has suffered: its state, its errors and its verdict. -/
def marks (x : UrlGroup) : UrlGroupState × ℕ × Bool × ErrorCode :=
  (x.urlGroupState, x.errorCount, x.malicious, x.majorErrorCode)

/-- The marks of the groups there are stay. -/
structure Unmarked (s s' : UrlGroupsController) : Prop where
  size : s.size ≤ s'.size
  marks : ∀ i < s.size, marks (s'.group i) = marks (s.group i)

instance : Std.Refl Unmarked := ⟨fun _ => ⟨le_rfl, fun _ _ => rfl⟩⟩

instance : IsTrans UrlGroupsController Unmarked where
  trans _ _ _ h h' := ⟨h.size.trans h'.size, fun i hi =>
    (h'.marks i (Nat.lt_of_lt_of_le hi h.size)).trans (h.marks i hi)⟩

theorem unmarked_onUrls {α : Type} (m : UrlsM α) : Keeps Unmarked (onUrls m) := by
  intro s
  rw [onUrls, final_zoom]
  exact ⟨le_rfl, fun _ _ => rfl⟩

theorem unmarked_setAddress (address : Option String) : Keeps Unmarked (setAddress g address) := by
  unfold setAddress
  split_ifs
  · exact keeps_pure _
  · refine keeps_bind (keeps_modify fun s => ⟨le_rfl, fun i _ => ?_⟩) fun _ => keeps_bind keeps_get fun s =>
      unmarked_onUrls _
    by_cases hi : i = g
    · subst hi
      rw [setGroup_self]
      rfl
    · rw [setGroup_of_ne hi]

theorem unmarked_takeUrlGroup (groupSize : ℤ) (picks : ℕ → ℕ) :
    Keeps Unmarked (takeUrlGroup groupSize picks c) := by
  intro s
  obtain ⟨r, s', hrun, htake⟩ := takeUrlGroup_cases groupSize picks c s
  rw [hrun]
  cases htake with
  | popped => exact ⟨le_rfl, fun _ _ => rfl⟩
  | idle => exact ⟨le_rfl, fun _ _ => rfl⟩
  | fresh => exact ⟨Nat.le_succ _, fun i hi => congrArg marks (Function.update_of_ne (Nat.ne_of_lt hi) _ _)⟩

/-- A program that only touches the groups in this way. -/
def OnGroups (R : UrlGroupsController → UrlGroupsController → Prop) (w w' : World) : Prop := R w.groups w'.groups

instance : Std.Refl (OnGroups Unmarked) := ⟨fun w => refl w.groups⟩

instance : IsTrans World (OnGroups Unmarked) :=
  ⟨fun _ _ _ h h' => IsTrans.trans (r := Unmarked) _ _ _ h h'⟩

theorem unmarked_onGroups {α : Type} {m : GroupsM α} (h : Keeps Unmarked m) : Keeps (OnGroups Unmarked) (onGroups m) :=
  keeps_zoom h fun _ _ hs => hs

theorem unmarked_modifyClient (f : Client → Client) : Keeps (OnGroups Unmarked) (modifyClient c f) :=
  keeps_modify fun w => refl w.groups

theorem unmarked_sendVisitEvent : Keeps (OnGroups Unmarked) (sendVisitEvent c g true) := by
  refine keeps_bind keeps_get fun w => keeps_bind (unmarked_onGroups ?_) fun _ =>
    keeps_bind (unmarked_modifyClient _) fun _ => keeps_bind ?_ fun _ =>
      keeps_bind (unmarked_onGroups (unmarked_setAddress _)) fun _ => keeps_pure _
  · exact keeps_bind keeps_get fun s => unmarked_onUrls _
  · refine keeps_bind keeps_get fun w => ?_
    split_ifs
    · exact keeps_pure _
    · exact keeps_bind (unmarked_modifyClient _) fun _ => keeps_pure _
    · exact absurd rfl ‹¬true = true›

/-- Taking a group marks none. -/
theorem unmarked_takeGroup (picks : ℕ → ℕ) : Keeps (OnGroups Unmarked) (takeGroup cfg picks c) := by
  refine keeps_bind keeps_get fun w => ?_
  split_ifs
  · refine keeps_bind (unmarked_onGroups (unmarked_takeUrlGroup _ picks)) fun group => ?_
    split
    · exact keeps_pure _
    · exact keeps_bind unmarked_sendVisitEvent fun _ => keeps_pure _
  · exact keeps_pure _

/-- A new client has no group. -/
theorem unmarked_connect (v : ℕ) (w : World) : OnGroups Unmarked w (final ((CaptureHPC.connect v).run w)) := by
  set w1 : World := { w.setClient w.nClients { virtualMachine := v } with nClients := w.nClients + 1 } with hw1
  have hnone : (w1.client w.nClients).visitingUrlGroup = none := congrArg Client.visitingUrlGroup
    (World.setClient_self w.nClients { virtualMachine := v } w)
  have hrun : (CaptureHPC.connect v).run w = (do
      modifyVm v fun x => { x with client := some w.nClients }
      Client.setClientState w.nClients .connected
      Client.setClientState w.nClients .waiting : ServerM Unit).run w1 := (run_bind_ok rfl).trans (run_bind_ok rfl)
  have hrest : Confined w.nClients w.groups.size w1 (final ((CaptureHPC.connect v).run w)) := by
    rw [hrun]
    exact keeps_bind (confined_modifyVm _ _) (fun _ => keeps_bind (confined_setClientState _) fun _ =>
      confined_setClientState _) w1
  obtain ⟨-, hsize, hothers⟩ := hrest fun k hk => nomatch hnone.symm.trans hk
  exact ⟨hsize, fun i hi => congrArg marks (hothers i hi (Nat.ne_of_lt hi))⟩

/-- A program for a client marks no group but the client's. -/
theorem marks_of_confined {m : ServerM Unit} (h : ∀ g, Keeps (Confined c g) m) (hi : i < w.groups.size)
    (hne : (w.client c).visitingUrlGroup ≠ some i) :
    marks ((final (m.run w)).groups.group i) = marks (w.groups.group i) := by
  cases hg : (w.client c).visitingUrlGroup with
  | none =>
    have hp : Points c w.groups.size w := fun k hk => nomatch hg.symm.trans hk
    exact congrArg marks ((h w.groups.size w hp).2.others i hi (Nat.ne_of_lt hi))
  | some g =>
    have hp : Points c g w := fun k hk => (Option.some.inj (hg.symm.trans hk)).symm
    have hig : i ≠ g := fun he => hne (he ▸ hg)
    exact congrArg marks ((h g w hp).2.others i hi hig)

/-- The client whose group a piece uses. A system-event is used while the client is VISITING. -/
def Piece.user (w : World) : Piece → Option ℕ
  | .sendFailed c | .disconnectFirst c | .disconnectSecond c | .connectionLost c => some c
  | .message c e =>
    if e.name = "visit-event" ∨ e.name = "system-event" ∧ (w.client c).clientState = .visiting then some c else none
  | .setError v _ => (w.vm v).client
  | _ => none

/-- **A piece marks no group but the one it uses.** -/
theorem micro_marks {p : Piece} (hi : i < w.groups.size)
    (h : ∀ c, p.user w = some c → (w.client c).visitingUrlGroup ≠ some i) :
    marks ((w.micro cfg sdf p).groups.group i) = marks (w.groups.group i) := by
  cases p with
  | addUrl url clientProgram visitTime id => rfl
  | connect v => exact (unmarked_connect v w).marks i hi
  | takeGroup c picks => exact (unmarked_takeGroup picks w).marks i hi
  | awaitVisiting c => rfl
  | sendFailed c => exact marks_of_confined (fun g => confined_sendFailed) hi (h c rfl)
  | setDisconnected c => rfl
  | disconnectFirst c => exact marks_of_confined (fun g => confined_disconnectFirst) hi (h c rfl)
  | disconnectSecond c => exact marks_of_confined (fun g => confined_disconnectSecond) hi (h c rfl)
  | message c e =>
    by_cases hvisit : e.name = "visit-event" ∨ e.name = "system-event" ∧ (w.client c).clientState = .visiting
    · exact marks_of_confined (fun g => confined_handleMessage e) hi (h c (if_pos hvisit))
    · rw [not_or, not_and] at hvisit
      show marks ((final ((handleMessage cfg sdf c e).run w)).groups.group i) = _
      by_cases hevent : e.name = "system-event"
      · rw [event_ignored (hvisit.2 hevent) hevent]
        rfl
      · have hrun : (handleMessage cfg sdf c e).run w = .ok () (w.contacted c) := by
          unfold handleMessage
          rw [if_neg hevent, if_neg hvisit.1]
          rfl
        rw [hrun]
        rfl
  | connectionLost c => exact marks_of_confined (fun g => confined_eventThreadEnds) hi (h c rfl)
  | setError v code =>
    show marks ((final ((setError v code).run w)).groups.group i) = _
    unfold setError
    rw [EStateM.run_bind, EStateM.run_get]
    dsimp only
    cases hc : (w.vm v).client with
    | none => rfl
    | some c =>
      exact marks_of_confined (fun g => confined_onVisitingGroup (keeps_bind
        (elsewhere_of_frame (frame_setMajorErrorCode _)) fun _ => elsewhere_setUrlGroupState _)) hi (h c hc)
  | revertVm v newState =>
    obtain ⟨y, hrun, -⟩ := setState_run v newState w
    show marks ((final ((VirtualMachine.setState (fun _ => pure ()) v newState).run w)).groups.group i) = _
    rw [hrun]
    rfl

end pieces

section ownership

/-- The client that was the last to take the group. -/
def taker (g : ℕ) : List QueueOp → Option ℕ
  | [] => none
  | .taken c h :: ops => if h = g then some c else taker g ops
  | _ :: ops => taker g ops

/-- If a piece uses a group, its client was the last to take it. -/
def Current (w : World) (p : Piece) : Prop :=
  ∀ c ∈ p.user w, ∀ g ∈ (w.client c).visitingUrlGroup, taker g w.groups.history = some c

instance (w : World) (p : Piece) : Decidable (Current w p) := inferInstanceAs (Decidable (∀ c ∈ _, ∀ g ∈ _, _))

/-- The piece leaves the group of every other client alone that was the last to take it. -/
def Exclusive (cfg : Config) (sdf : SimpleDateFormat) (w : World) (p : Piece) : Prop :=
  ∀ d g, p.client w ≠ some d → g < w.groups.size → (w.client d).visitingUrlGroup = some g →
    taker g w.groups.history = some d → marks ((w.micro cfg sdf p).groups.group g) = marks (w.groups.group g)

/-- Each piece of a run is so in the state in which it is done. -/
def World.Along (cfg : Config) (sdf : SimpleDateFormat) (P : World → Piece → Prop) : World → List Piece → Prop
  | _, [] => True
  | w, p :: ps => P w p ∧ Along cfg sdf P (w.micro cfg sdf p) ps

theorem Piece.client_of_user {p : Piece} (h : p.user w = some c) : p.client w = some c := by
  cases p with
  | message d e =>
    simp only [Piece.user] at h
    split_ifs at h
    exact h
  | sendFailed | disconnectFirst | disconnectSecond | connectionLost | setError => exact h
  | _ => exact nomatch h

theorem Current.exclusive {p : Piece} (h : Current w p) : Exclusive cfg sdf w p := by
  intro d g hne hlt hvisiting htaker
  refine micro_marks hlt fun c hc hg => ?_
  have hcd : some c = some d := (h c hc g hg).symm.trans htaker
  exact hne (Piece.client_of_user hc ▸ hcd)

/-- **Exclusive ownership.** In every run in which no piece uses a group that another client has taken since, no
piece changes the state, the errors or the verdict of a group that another client has taken since. -/
theorem group_exclusive (cfg : Config) (sdf : SimpleDateFormat) (w : World) (ps : List Piece)
    (h : w.Along cfg sdf Current ps) : w.Along cfg sdf (Exclusive cfg sdf) ps := by
  induction ps generalizing w with
  | nil => exact trivial
  | cons p ps ih => exact ⟨h.1.exclusive, ih _ h.2⟩

/-- A client takes a group and is disconnected, and another client visits the group. -/
def givenBack : List Piece :=
  [.addUrl "http://a.b/" "ie" 5 1, .connect 0, .connect 1, .takeGroup 0 fun _ => 0, .awaitVisiting 0,
    .setDisconnected 0, .disconnectFirst 0]

def takenAgain : List Piece :=
  [.takeGroup 1 fun _ => 0, .awaitVisiting 1, .message 1 (visitEvent "start" "seq" "0" "0" (itemsOf ["http://a.b/"]))]

/-- The second half of the disconnect comes before the other client takes the group. -/
theorem group_exclusive_inTime : World.Along (groupsOf 1) .utc (Exclusive (groupsOf 1) .utc) {}
    (givenBack ++ .disconnectSecond 0 :: takenAgain) :=
  group_exclusive (groupsOf 1) .utc {} _ (by
    refine ⟨?_, ?_, ?_, ?_, ?_, ?_, ?_, ?_, ?_, ?_, ?_, trivial⟩ <;> decide +kernel)

/-- The lost connection is noticed while the other client visits the group, which gets its error code. -/
theorem connectionLost_late : ∃ w, w = World.micros (groupsOf 1) .utc {} (givenBack ++ takenAgain) ∧
    (w.client 1).clientState = .visiting ∧ ¬ Exclusive (groupsOf 1) .utc w (.connectionLost 0) :=
  ⟨_, rfl, by decide +kernel, fun h =>
    absurd (h 1 0 (by decide +kernel) (by decide +kernel) (by decide +kernel) (by decide +kernel)) (by decide +kernel)⟩

end ownership

end CaptureHPC
