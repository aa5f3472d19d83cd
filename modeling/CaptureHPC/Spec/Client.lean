import CaptureHPC.Spec.Groups

/-!
# Clients and virtual machines

`Client`, `VirtualMachine`, the state checker, and the handlers of the event thread.

* A client's `clientSocket` is open until `disconnect` closes it; `receiving` says that its
  event thread still runs. Whether a write succeeds is an input (`written`).
* `Client.disconnect` is kept in its two halves, before and inside the `try` statement.
* Logger output, the pinger, the options sent to a new client and the zip repair are left
  out.
-/

namespace CaptureHPC

open Lib

inductive ClientState
  | connecting | connected | updating | uploading | waiting | visiting | awaitingVisiting | disconnected
  deriving DecidableEq, Repr

inductive VmState
  | reverting | waitingToBeReverted | running | stopped | saving | waitingToBeSaved | error
  deriving DecidableEq, Repr

/-- An XML element with its attributes. -/
inductive Element
  | mk (name : String) (attributes : List (String × String)) (childElements : List Element)

namespace Element

def name : Element → String
  | mk n _ _ => n

def childElements : Element → List Element
  | mk _ _ es => es

/-- `attributes.get(key)`. -/
def get (key : String) : Element → Option String
  | mk _ as _ => as.lookup key

end Element

structure Client where
  visitingUrlGroup : Option ℕ := none
  clientState : ClientState := .connecting
  virtualMachine : ℕ := 0
  algorithm : Option String := none
  stateChangeHandler : StateChangeHandler := {}
  downloading : Bool := false
  socketOpen : Bool := true
  receiving : Bool := true
  sent : List String := []

instance : Inhabited Client := ⟨{}⟩

structure VirtualMachine where
  vmState : VmState := .stopped
  lastContact : ℤ := 0
  vmStateTimeChange : ℤ := 0
  client : Option ℕ := none
  address : Option String := some "127.0.0.1"

instance : Inhabited VirtualMachine := ⟨{}⟩

/-- The options of `ConfigManager` that the modelled code reads. -/
structure Config where
  groupSize : ℤ
  revertAfterEachUrl : Bool
  haltOnRevert : Bool
  clientInactivityTimeout : ℤ
  vmStalledDuringOperationTimeout : ℤ
  vmStalledAfterRevertTimeout : ℤ

/-- The server: the groups with their URLs, the clients that ever connected, and the
virtual machines. -/
structure World where
  groups : UrlGroupsController := {}
  client : ℕ → Client := fun _ => default
  nClients : ℕ := 0
  vm : ℕ → VirtualMachine := fun _ => default

abbrev ServerM := EStateM Exn World

/-- Run a program on the groups. -/
def onGroups {α : Type} (m : GroupsM α) : ServerM α :=
  zoom World.groups (fun w groups => { w with groups := groups }) m

namespace World

def setClient (c : ℕ) (x : Client) (w : World) : World :=
  { w with client := Function.update w.client c x }

def setVm (v : ℕ) (x : VirtualMachine) (w : World) : World := { w with vm := Function.update w.vm v x }

/-- `new Date()` in milliseconds. -/
def now (w : World) : ℤ := w.groups.urls.now

end World

def modifyClient (c : ℕ) (f : Client → Client) : ServerM Unit :=
  modify fun w => w.setClient c (f (w.client c))

def modifyVm (v : ℕ) (f : VirtualMachine → VirtualMachine) : ServerM Unit :=
  modify fun w => w.setVm v (f (w.vm v))

namespace VirtualMachine

/-- `setState`. A machine that is to be reverted disconnects its client, if it has one that
is not disconnected. -/
def setState (disconnectClient : ℕ → ServerM Unit) (v : ℕ) (newState : VmState) : ServerM Unit := do
  modify fun w => w.setVm v { w.vm v with vmStateTimeChange := w.now }
  let w ← get
  if newState = (w.vm v).vmState then pure ()
  else
    modifyVm v fun x => { x with vmState := newState }
    if newState = .waitingToBeReverted then
      match (w.vm v).client with
      | none => pure ()
      | some c => if (w.client c).clientState ≠ .disconnected then disconnectClient c

end VirtualMachine

namespace Client

/-- The group a handler works on; a missing one is a null pointer. -/
def visiting (c : ℕ) : ServerM ℕ := do
  let w ← get
  match (w.client c).visitingUrlGroup with
  | none => throw .nullPointer
  | some g => pure g

/-- What `disconnect` does to the machine. Its client is null before its state changes, so
the change disconnects nobody. -/
def releaseVm (v : ℕ) : ServerM Unit := do
  modifyVm v fun x => { x with client := none }
  let w ← get
  if (w.vm v).vmState ≠ .waitingToBeReverted then
    VirtualMachine.setState (fun _ => pure ()) v .waitingToBeReverted

/-- Run a program on the client's group, if it has one. -/
def onVisitingGroup (c : ℕ) (m : ℕ → GroupsM Unit) : ServerM Unit := do
  let w ← get
  match (w.client c).visitingUrlGroup with
  | none => pure ()
  | some g => onGroups (m g)

/-- The first half of `disconnect`, up to the closed socket. -/
def disconnectFirst (c : ℕ) : ServerM Unit := do
  let w ← get
  releaseVm (w.client c).virtualMachine
  onVisitingGroup c fun g => UrlGroup.setUrlGroupState g .error
  modifyClient c fun x => { x with downloading := false, socketOpen := false }

/-- A group that is not malicious gets a verdict, without which its error is not logged. -/
def setBenign (g : ℕ) : GroupsM Unit := do
  let s ← get
  if (s.group g).malicious = false then UrlGroup.setMalicious g (some "dac") false none

/-- The second half of `disconnect`, its `finally` block. The state is DISCONNECTED by then,
since only `setClientState` calls `disconnect`. -/
def disconnectSecond (c : ℕ) : ServerM Unit :=
  onVisitingGroup c fun g => do
    setBenign g
    UrlGroup.setMajorErrorCode g ErrorCode.captureClientConnectionReset.errorCode
    UrlGroup.setUrlGroupState g .error

def disconnect (c : ℕ) : ServerM Unit := do
  disconnectFirst c
  disconnectSecond c

def setClientState (c : ℕ) (newState : ClientState) : ServerM Unit := do
  let w ← get
  if (w.client c).clientState = newState then pure ()
  else
    modifyClient c fun x => { x with clientState := newState }
    match newState with
    | .waiting => VirtualMachine.setState (fun _ => pure ()) (w.client c).virtualMachine .running
    | .disconnected => disconnect c
    | _ => pure ()

/-- `send`: the write fails when `written` is false. -/
def send (c : ℕ) (message : String) (written : Bool) : ServerM Bool := do
  let w ← get
  if (w.client c).clientState = .disconnected then pure false
  else if written then do
    modifyClient c fun x => { x with sent := x.sent ++ [message] }
    pure true
  else do
    setClientState c .disconnected
    pure false

/-- `toVisitEvent`. -/
def toVisitEvent (g : ℕ) (s : UrlGroupsController) : String :=
  let x := s.group g
  "<visit-event identifier=\"" ++ toString g ++ "\" program=\"" ++ x.clientProgram ++ "\" time=\"" ++
    intToString x.visitTime ++ "\">" ++
    String.join (x.urlList.map fun u => "<item url=\"" ++ (s.urls.url u).escapedUrl ++ "\"/>") ++
    "</visit-event>"

/-- The log entry of `setVisitingUrlGroup`, about the group's first URL. -/
def logSending (g : ℕ) (address : Option String) : GroupsM Unit := do
  let s ← get
  onUrls (modify fun urls =>
    let x := urls.url ((s.group g).urlList.headD 0)
    urls.writeToLog ⟨urls.now, address, true, .sending, x.effectiveId, x.url⟩)

/-- The address of the machine's server, if it is known. -/
def setAddress (g : ℕ) (address : Option String) : GroupsM Unit :=
  if address = none then pure () else UrlGroup.setProcessingIP g address

/-- `setVisitingUrlGroup`, up to the sent event. -/
def sendVisitEvent (c g : ℕ) (written : Bool) : ServerM Bool := do
  let w ← get
  let address := (w.vm (w.client c).virtualMachine).address
  onGroups (logSending g address)
  modifyClient c fun x => { x with visitingUrlGroup := some g }
  let success ← send c (toVisitEvent g w.groups) written
  onGroups (setAddress g address)
  pure success

/-- The end of `setVisitingUrlGroup` after a failed write. -/
def sendFailed (c : ℕ) : ServerM Unit := do
  let g ← visiting c
  onGroups do
    UrlGroup.setMajorErrorCode g 0x10000111
    UrlGroup.setUrlGroupState g .error

/-- The end of `setVisitingUrlGroup` after a write that succeeded. -/
def awaitVisiting (c : ℕ) : ServerM Unit :=
  modifyClient c fun x => { x with clientState := .awaitingVisiting }

def setVisitingUrlGroup (c g : ℕ) (written : Bool) : ServerM Unit := do
  let success ← sendVisitEvent c g written
  if success then awaitVisiting c else sendFailed c

/-- One round of the url-retriever thread's `run`. -/
def retrieve (cfg : Config) (picks : ℕ → ℕ) (c : ℕ) (written : Bool) : ServerM Unit := do
  let w ← get
  if (w.client c).clientState = .waiting then
    let group ← onGroups (UrlGroupsController.takeUrlGroup cfg.groupSize picks c)
    match group with
    | none => pure ()
    | some g => setVisitingUrlGroup c g written

/-! ## The messages of a client -/

/-- The text that `parseEvent` writes to a log. -/
def eventLine (e : Element) : String :=
  let f := fun key => orNull (e.get key)
  "\"" ++ f "type" ++ "\",\"" ++ f "time" ++ "\",\"" ++ f "process" ++ "\",\"" ++ f "action" ++
    "\",\"" ++ f "object1" ++ "\",\"" ++ f "object2" ++ "\"\n"

/-- The state change that a system-event reports. -/
def stateChangeOf (sdf : SimpleDateFormat) (e : Element) : Except Exn StateChange :=
  match e.get "type" with
  | none => .error .nullPointer
  | some type =>
    if type = "process" then
      (ProcessRecord.new sdf type (e.get "time") (e.get "processId") (e.get "process") (e.get "action")
        (e.get "object1") (e.get "object2")).map .process
    else
      (ObjectStateChange.new sdf type (e.get "time") (e.get "processId") (e.get "process")
        (e.get "action") (e.get "object1") (e.get "object2")).map .object

/-- `parseEvent` under `bulk`: the change is kept for the finish. A time that cannot be
parsed is only logged. -/
def recordStateChange (sdf : SimpleDateFormat) (c : ℕ) (e : Element) : ServerM Unit := do
  let w ← get
  match (stateChangeOf sdf e).bind ((w.client c).stateChangeHandler.addStateChange sdf) with
  | .ok (_, handler) => modifyClient c fun x => { x with stateChangeHandler := handler }
  | .error .parse => pure ()
  | .error exn => throw exn

/-- `parseEvent` for a group under `dac`: the group is malicious and its visit ends here. -/
def endVisitOnEvent (sdf : SimpleDateFormat) (c g : ℕ) (e : Element) : ServerM Unit := do
  onGroups do
    UrlGroup.setMalicious g (some "dac") true none
    UrlGroup.writeEventToLog sdf g (eventLine e)
    UrlGroup.setVisitFinishTime sdf g (e.get "time")
    let s ← get
    onUrls (forM (s.group g).urlList Url.setVisitFinishTime)
    UrlGroup.setUrlGroupState g .visited
  modifyClient c fun x => { x with visitingUrlGroup := none }
  setClientState c .disconnected

/-- `parseEvent` for the other groups. -/
def setMaliciousOnEvent (sdf : SimpleDateFormat) (g : ℕ) (algorithm : String) (e : Element) :
    GroupsM Unit := do
  UrlGroup.setMalicious g (some algorithm) true none
  UrlGroup.writeEventToLog sdf g (eventLine e)

/-- `parseEvent`. -/
def parseEvent (sdf : SimpleDateFormat) (c : ℕ) (e : Element) : ServerM Unit := do
  let w ← get
  if (w.client c).clientState = .visiting then
    match (w.client c).algorithm, (w.client c).visitingUrlGroup with
    | some algorithm, some g =>
      let size := (w.groups.group g).size
      if algorithm = "bulk" ∧ 1 < size then recordStateChange sdf c e
      else if algorithm = "dac" ∧ 1 < size then endVisitOnEvent sdf c g e
      else onGroups (setMaliciousOnEvent sdf g algorithm e)
    | _, _ => throw .nullPointer

/-- The loop of start over the items. -/
def startItem (g : ℕ) (item : Element) : GroupsM Unit := do
  let u ← UrlGroup.getUrl g (item.get "url")
  onUrls (Url.setVisitStartTime u)

/-- What start does to the group. -/
def startGroup (sdf : SimpleDateFormat) (g : ℕ) (algorithm : Option String) (e : Element) :
    GroupsM Unit := do
  UrlGroup.setVisitStartTime sdf g (e.get "time")
  UrlGroup.setAlgorithm g algorithm
  forM e.childElements (startItem g)
  UrlGroup.setUrlGroupState g .visiting

/-- `parseVisitEvent` of type start. -/
def parseStart (sdf : SimpleDateFormat) (c : ℕ) (e : Element) : ServerM Unit := do
  let g ← visiting c
  let w ← get
  onGroups (startGroup sdf g (w.client c).algorithm e)
  setClientState c .visiting

/-- The text of an error code that the server keeps for a URL. The finish handler drops "0"
as well as the empty text, the error handler only the empty text. -/
def keepsCode (finish : Bool) (code : String) : Bool := code ≠ "" && !(finish && code = "0")

/-- The error codes of an item. -/
def setItemCodes (u : ℕ) (major minor : Option String) : UrlsM Unit :=
  match parseLong major, parseLong minor with
  | none, _ => throw .numberFormat
  | some major, none => do
    Url.setMajorErrorCode u major
    throw .numberFormat
  | some major, some minor => do
    Url.setMajorErrorCode u major
    Url.setMinorErrorCode u minor

/-- An item of finish or error: its URL gets a finish time and error codes; the result is
the entry of the URL in the map of state changes. -/
def parseItem (finish : Bool) (handler : StateChangeHandler) (sdf : SimpleDateFormat) (g : ℕ)
    (item : Element) : GroupsM (String × String) := do
  let u ← UrlGroup.getUrl g (item.get "url")
  match parseInt (item.get "processId") with
  | none => throw .numberFormat
  | some processId =>
    onUrls (Url.setVisitFinishTime u)
    let s ← get
    let change := ((s.urls.url u).url, handler.getStateChangesCSV sdf processId)
    match item.get "major-error-code" with
    | none => throw .nullPointer
    | some major =>
      if keepsCode finish major then
        onUrls (setItemCodes u (some major) (item.get "minor-error-code"))
        pure change
      else pure change

/-- The loops of finish and error over the items: the map from URLs to state changes. -/
def parseItems (finish : Bool) (handler : StateChangeHandler) (sdf : SimpleDateFormat) (g : ℕ) :
    List Element → GroupsM UrlMap
  | [] => pure []
  | item :: items => do
    let change ← parseItem finish handler sdf g item
    let map ← parseItems finish handler sdf g items
    pure (map ++ [change])

/-- The end of a visit with a verdict: it is set, the group goes to VISITED, and the client
lets the group go. -/
def endVisit (c g : ℕ) (malicious : Bool) (map : UrlMap) : ServerM Unit := do
  let w ← get
  onGroups do
    UrlGroup.setMalicious g (w.client c).algorithm malicious (some map)
    UrlGroup.setUrlGroupState g .visited
  modifyClient c fun x => { x with visitingUrlGroup := none }

/-- The state of a client after a benign visit. -/
def afterBenign (cfg : Config) : ClientState := if cfg.revertAfterEachUrl then .disconnected else .waiting

/-- `flushStateChangeHandler` for a group under `bulk`. -/
def flushIfBulk (sdf : SimpleDateFormat) (c g : ℕ) (map : UrlMap) : ServerM Unit := do
  let w ← get
  if 1 < (w.groups.group g).size then
    match (w.client c).algorithm with
    | none => throw .nullPointer
    | some algorithm =>
      if algorithm = "bulk" then onGroups (UrlGroup.writeMapToLog sdf g map)

/-- The verdict of finish, with the message's attribute `malicious`. -/
def finishVerdict (cfg : Config) (sdf : SimpleDateFormat) (c g : ℕ) (malicious : Option String)
    (map : UrlMap) : ServerM Unit := do
  let w ← get
  if (w.groups.group g).malicious = false ∧ malicious = none then throw .nullPointer
  else if (w.groups.group g).malicious ∨ malicious = some "1" then do
    flushIfBulk sdf c g map
    endVisit c g true map
    setClientState c .disconnected
  else do
    endVisit c g false map
    setClientState c (afterBenign cfg)

/-- `parseVisitEvent` of type finish. -/
def parseFinish (cfg : Config) (sdf : SimpleDateFormat) (c : ℕ) (e : Element) : ServerM Unit := do
  let g ← visiting c
  let w ← get
  onGroups (UrlGroup.setVisitFinishTime sdf g (e.get "time"))
  let map ← onGroups (parseItems true (w.client c).stateChangeHandler sdf g e.childElements)
  finishVerdict cfg sdf c g (e.get "malicious") map

/-- `isErrorToRetry`. -/
def isErrorToRetry (majorErrorCode : String) : Bool :=
  !(majorErrorCode ∈ ["268435730", "268435731", "268436224", "268435728"])

def flushIfMalicious (sdf : SimpleDateFormat) (c g : ℕ) (malicious : Option String) (map : UrlMap) :
    ServerM Unit :=
  if malicious = some "1" then flushIfBulk sdf c g map else pure ()

/-- `setMajorErrorCode(Long.parseLong(major))` of the group. -/
def setGroupCode (g : ℕ) (major : Option String) : GroupsM Unit :=
  match parseLong major with
  | none => throw .numberFormat
  | some code => UrlGroup.setMajorErrorCode g code

/-- The branch of `parseVisitEvent` for an error that is to be retried. -/
def retryError (cfg : Config) (sdf : SimpleDateFormat) (c g : ℕ) (major malicious : Option String)
    (map : UrlMap) : ServerM Unit :=
  if cfg.haltOnRevert then throw (.exit (-20))
  else if malicious = none then throw .nullPointer
  else do
    flushIfMalicious sdf c g malicious map
    let w ← get
    onGroups do
      UrlGroup.setMalicious g (w.client c).algorithm (malicious = some "1") (some map)
      setGroupCode g major
      UrlGroup.setUrlGroupState g .error
    modifyClient c fun x => { x with visitingUrlGroup := none }
    setClientState c .disconnected

/-- The branch for the other errors: the URLs count as visited. -/
def visitedWithError (cfg : Config) (sdf : SimpleDateFormat) (c g : ℕ) (malicious : Option String)
    (map : UrlMap) : ServerM Unit :=
  if malicious = none then throw .nullPointer
  else if malicious = some "1" then do
    onGroups (UrlGroup.writeMapToLog sdf g map)
    endVisit c g true map
    setClientState c .disconnected
  else do
    endVisit c g false map
    setClientState c (afterBenign cfg)

/-- `parseVisitEvent` of type error. Without a group it throws in the loop or after it. -/
def parseError (cfg : Config) (sdf : SimpleDateFormat) (c : ℕ) (e : Element) : ServerM Unit := do
  let g ← visiting c
  let w ← get
  let map ← onGroups (parseItems false (w.client c).stateChangeHandler sdf g e.childElements)
  match e.get "error-code" with
  | none => throw .nullPointer
  | some major =>
    if isErrorToRetry major then retryError cfg sdf c g (some major) (e.get "malicious") map
    else visitedWithError cfg sdf c g (e.get "malicious") map

/-- `parseVisitEvent`. -/
def parseVisitEvent (cfg : Config) (sdf : SimpleDateFormat) (c : ℕ) (e : Element) : ServerM Unit := do
  modifyClient c fun x => { x with algorithm := e.get "algorithm" }
  match e.get "type" with
  | none => throw .nullPointer
  | some type =>
    if type = "start" then parseStart sdf c e
    else if type = "finish" then parseFinish cfg sdf c e
    else if type = "error" then parseError cfg sdf c e

end Client

/-! ## The state checker -/

/-- `setError`. -/
def setError (v : ℕ) (code : ErrorCode) : ServerM Unit := do
  let w ← get
  match (w.vm v).client with
  | none => pure ()
  | some c =>
    Client.onVisitingGroup c fun g => do
      UrlGroup.setMajorErrorCode g code.errorCode
      UrlGroup.setUrlGroupState g .error

/-- `setState(WAITING_TO_BE_REVERTED)` as the checker calls it. -/
def revertVm (v : ℕ) : ServerM Unit :=
  VirtualMachine.setState (fun c => Client.setClientState c .disconnected) v .waitingToBeReverted

/-- The checker's reaction to a machine that is late. -/
def stalled (cfg : Config) (v : ℕ) (count : Stats → Stats) (code : ErrorCode) : ServerM Unit := do
  onGroups (onUrls (modify (UrlsController.addStats count)))
  setError v code
  if cfg.haltOnRevert then throw (.exit (-20)) else revertVm v

/-- The client has not been heard of for too long. -/
def checkInactivity (cfg : Config) (v : ℕ) : ServerM Unit := do
  let w ← get
  if w.now - (w.vm v).lastContact ≥ 1000 * cfg.clientInactivityTimeout then
    stalled cfg v (fun s => { s with clientInactivity := s.clientInactivity + 1 }) .captureClientInactivity

/-- The machine's state has not changed for too long. -/
def checkStalled (cfg : Config) (v : ℕ) (timeout : ℤ) : ServerM Unit := do
  let w ← get
  if w.now - (w.vm v).vmStateTimeChange ≥ 1000 * timeout then
    stalled cfg v (fun s => { s with vmStalled := s.vmStalled + 1 }) .vmStalled

/-- A machine that is being reverted is not inactive. -/
def touchReverting (v : ℕ) : ServerM Unit := do
  let w ← get
  if (w.vm v).vmState = .reverting then modify fun w => w.setVm v { w.vm v with lastContact := w.now }

/-- The body of the checker's loop for one machine. -/
def checkVm (cfg : Config) (v : ℕ) : ServerM Unit := do
  let w ← get
  if (w.vm v).vmState = .running then do
    checkInactivity cfg v
    checkStalled cfg v cfg.vmStalledDuringOperationTimeout
  else do
    touchReverting v
    checkStalled cfg v cfg.vmStalledAfterRevertTimeout

end CaptureHPC
