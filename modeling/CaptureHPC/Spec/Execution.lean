import CaptureHPC.Spec.Client

/-!
# Executions of the server

Two step functions over the same programs.

* `World.step`: each operation of a client or of the checker is one step. `runs` folds it
  over a list of events. An event that cannot happen, or after which the server has exited,
  has no next state.
* `World.micro`: the operations in pieces, which may come in any order. A piece runs without another
  thread's coming in between, though the code has no lock on `takeUrlGroup`, `addUrl`, `setUrlGroupState` and the
  counters of `Stats`. These are taken apart in `GroupCalls` and `StatCalls`.
-/

namespace CaptureHPC

open Lib

/-- The constructor of `Url`. -/
def Url.new (url clientProgram : String) (visitTime : Int32) (id : ℤ) : Url :=
  { url := url, id := id, clientProgram := clientProgram, visitTime := visitTime }

/-- What can happen to the server. -/
inductive Event
  | tick (now : ℤ)
  | addUrl (url clientProgram : String) (visitTime : Int32) (id : ℤ)
  | connect (v : ℕ)
  | retrieve (c : ℕ) (picks : ℕ → ℕ) (written : Bool)
  | message (c : ℕ) (e : Element)
  | connectionLost (c : ℕ)
  | disconnect (c : ℕ)
  | checkVm (v : ℕ)
  | setVmState (v : ℕ) (newState : VmState)

/-- `parseConnectEvent` for the machine `v`, which gets a new client. -/
def connect (v : ℕ) : ServerM Unit := do
  let w ← get
  modify fun w => { w.setClient w.nClients { virtualMachine := v } with nClients := w.nClients + 1 }
  modifyVm v fun x => { x with client := some w.nClients }
  Client.setClientState w.nClients .connected
  Client.setClientState w.nClients .waiting

/-- `endElement` for a message of the client. -/
def handleMessage (cfg : Config) (sdf : SimpleDateFormat) (c : ℕ) (e : Element) : ServerM Unit := do
  let w ← get
  modifyVm (w.client c).virtualMachine fun x => { x with lastContact := w.now }
  if e.name = "system-event" then Client.parseEvent sdf c e
  else if e.name = "visit-event" then Client.parseVisitEvent cfg sdf c e

/-- The event thread of a client ends, because the connection is lost or a handler threw. -/
def eventThreadEnds (c : ℕ) : ServerM Unit := do
  Client.onVisitingGroup c fun g => UrlGroup.setMajorErrorCode g ErrorCode.socketError.errorCode
  modifyClient c fun x => { x with receiving := false }

namespace World

/-- The state after a program, with `atError` run when it throws; none after an exit. -/
def after (m atError : ServerM Unit) (w : World) : Option World :=
  match m.run w with
  | .ok _ w' => some w'
  | .error (.exit _) _ => none
  | .error _ w' => some (final (atError.run w'))

/-- One event of the server. -/
def step (cfg : Config) (sdf : SimpleDateFormat) (w : World) : Event → Option World
  | .tick now =>
    if w.now ≤ now then
      w.after (onGroups (onUrls (modify fun s => { s with now := now }))) (pure ())
    else none
  | .addUrl url clientProgram visitTime id =>
    w.after (onGroups (onUrls (modify (UrlsController.addUrl (Url.new url clientProgram visitTime id)))))
      (pure ())
  | .connect v => w.after (connect v) (pure ())
  | .retrieve c picks written =>
    if c < w.nClients then w.after (Client.retrieve cfg picks c written) (pure ()) else none
  | .message c e =>
    if c < w.nClients ∧ (w.client c).receiving ∧ (w.client c).socketOpen then
      w.after (handleMessage cfg sdf c e) (eventThreadEnds c)
    else none
  | .connectionLost c =>
    if c < w.nClients ∧ (w.client c).receiving then w.after (eventThreadEnds c) (pure ()) else none
  | .disconnect c =>
    if c < w.nClients then w.after (Client.setClientState c .disconnected) (pure ()) else none
  | .checkVm v => w.after (checkVm cfg v) (pure ())
  | .setVmState v newState =>
    w.after (VirtualMachine.setState (fun c => Client.setClientState c .disconnected) v newState) (pure ())

/-- A sequence of events. -/
def runs (cfg : Config) (sdf : SimpleDateFormat) : World → List Event → Option World
  | w, [] => some w
  | w, ev :: evs => (w.step cfg sdf ev).bind fun w' => runs cfg sdf w' evs

/-- The state after a sequence of events from the start, if there is one. -/
def reached (cfg : Config) (sdf : SimpleDateFormat) (evs : List Event) : World :=
  (runs cfg sdf {} evs).getD {}

theorem runs_reached {cfg : Config} {sdf : SimpleDateFormat} {evs : List Event}
    (h : (runs cfg sdf {} evs).isSome = true) : runs cfg sdf {} evs = some (reached cfg sdf evs) := by
  obtain ⟨w, hw⟩ := Option.isSome_iff_exists.1 h
  rw [reached, hw, Option.getD_some]

end World

/-! ## Messages of a visit -/

/-- An item of a visit-event. -/
def visitItem (url processId majorErrorCode : String) : Element :=
  .mk "item" [("url", urlEncode url), ("processId", processId), ("major-error-code", majorErrorCode),
    ("minor-error-code", "0")] []

/-- A visit-event as the client writes it. -/
def visitEvent (type algorithm malicious errorCode : String) (items : List Element) : Element :=
  .mk "visit-event" [("type", type), ("algorithm", algorithm), ("time", "24/04/2008 16:3:0.140"),
    ("malicious", malicious), ("error-code", errorCode)] items

/-- A system-event about a file that the process wrote. -/
def fileEvent (processId object1 : String) : Element :=
  .mk "system-event" [("type", "file"), ("time", "24/04/2008 16:3:0.140"), ("processId", processId),
    ("process", "iexplore.exe"), ("action", "Write"), ("object1", object1), ("object2", "-1")] []

/-- The default options, with groups of `n` URLs. -/
def groupsOf (n : ℤ) : Config := ⟨n, false, false, 60, 60, 60⟩

/-- The items of a message about the texts. -/
def itemsOf (texts : List String) : List Element := texts.map fun text => visitItem text "10" "0"

/-- The URLs are added, and the first client visits a group of them. -/
def visitOf (algorithm : String) (texts : List String) : List Event :=
  (texts.map fun text => .addUrl text "ie" 5 1) ++
    [.connect 0, .retrieve 0 (fun _ => 0) true, .message 0 (visitEvent "start" algorithm "0" "0" (itemsOf texts))]

/-! ## The pieces of the operations -/

/-- A piece of an operation. `takeGroup` to `sendFailed` are those of `setVisitingUrlGroup`,
`setDisconnected` to `disconnectSecond` those of `setClientState(DISCONNECTED)`, and
`setError` and `revertVm` those of the state checker. -/
inductive Piece
  | addUrl (url clientProgram : String) (visitTime : Int32) (id : ℤ)
  | connect (v : ℕ)
  | takeGroup (c : ℕ) (picks : ℕ → ℕ)
  | awaitVisiting (c : ℕ)
  | sendFailed (c : ℕ)
  | setDisconnected (c : ℕ)
  | disconnectFirst (c : ℕ)
  | disconnectSecond (c : ℕ)
  | message (c : ℕ) (e : Element)
  | connectionLost (c : ℕ)
  | setError (v : ℕ) (code : ErrorCode)
  | revertVm (v : ℕ) (newState : VmState)

/-- `takeUrlGroup` and the start of `setVisitingUrlGroup`. -/
def takeGroup (cfg : Config) (picks : ℕ → ℕ) (c : ℕ) : ServerM Unit := do
  let w ← get
  if (w.client c).clientState = .waiting then
    let group ← onGroups (UrlGroupsController.takeUrlGroup cfg.groupSize picks c)
    match group with
    | none => pure ()
    | some g => discard (Client.sendVisitEvent c g true)

/-- The client for which a piece is done; for the checker, the machine's client. -/
def Piece.client (w : World) : Piece → Option ℕ
  | .addUrl .. | .connect _ => none
  | .takeGroup c _ | .awaitVisiting c | .sendFailed c | .setDisconnected c | .disconnectFirst c
  | .disconnectSecond c | .message c _ | .connectionLost c => some c
  | .setError v _ | .revertVm v _ => (w.vm v).client

/-- The program of a piece. The disconnection that `revertVm` starts is a piece of its own. -/
def Piece.program (cfg : Config) (sdf : SimpleDateFormat) : Piece → ServerM Unit
  | .addUrl url clientProgram visitTime id =>
    onGroups (onUrls (modify (UrlsController.addUrl (Url.new url clientProgram visitTime id))))
  | .connect v => CaptureHPC.connect v
  | .takeGroup c picks => CaptureHPC.takeGroup cfg picks c
  | .awaitVisiting c => Client.awaitVisiting c
  | .sendFailed c => Client.sendFailed c
  | .setDisconnected c => modifyClient c fun x => { x with clientState := .disconnected }
  | .disconnectFirst c => Client.disconnectFirst c
  | .disconnectSecond c => Client.disconnectSecond c
  | .message c e => handleMessage cfg sdf c e
  | .connectionLost c => eventThreadEnds c
  | .setError v code => CaptureHPC.setError v code
  | .revertVm v newState => VirtualMachine.setState (fun _ => pure ()) v newState

/-- One piece, however it ends. -/
def World.micro (cfg : Config) (sdf : SimpleDateFormat) (w : World) (p : Piece) : World :=
  final ((p.program cfg sdf).run w)

/-- A sequence of pieces. -/
def World.micros (cfg : Config) (sdf : SimpleDateFormat) (w : World) (ps : List Piece) : World :=
  ps.foldl (World.micro cfg sdf) w

/-! ## The two threads of a client -/

/-- A turn of a client's threads: the url-retriever sets AWAITING_VISITING after it sent the
visit-event, or the event thread reads a message. -/
inductive Turn
  | write
  | read (e : Element)

/-- One turn. A message is read as long as the connection is open; there is no next state
when its handler throws. -/
def World.turn (cfg : Config) (sdf : SimpleDateFormat) (c : ℕ) (w : World) : Turn → Option World
  | .write => some (final ((Client.awaitVisiting c).run w))
  | .read e =>
    if (w.client c).socketOpen then
      match (handleMessage cfg sdf c e).run w with
      | .ok _ w' => some w'
      | .error _ _ => none
    else some w

/-- A sequence of turns. -/
def World.turns (cfg : Config) (sdf : SimpleDateFormat) (c : ℕ) : World → List Turn → Option World
  | w, [] => some w
  | w, t :: ts => (w.turn cfg sdf c t).bind fun w' => turns cfg sdf c w' ts

/-- The state of the client when a system-event is handled; none for one that comes when the connection is closed. -/
def World.heard (c : ℕ) (w : World) : Turn → List (Option ClientState)
  | .write => []
  | .read e =>
    if e.name = "system-event" then [if (w.client c).socketOpen then some (w.client c).clientState else none] else []

/-- The states in which the system-events of a sequence of turns are handled, each event with its own. -/
def World.heardAll (cfg : Config) (sdf : SimpleDateFormat) (c : ℕ) : World → List Turn → List (Option ClientState)
  | _, [] => []
  | w, t :: ts => w.heard c t ++ (w.turn cfg sdf c t).elim [] fun w' => heardAll cfg sdf c w' ts

end CaptureHPC
