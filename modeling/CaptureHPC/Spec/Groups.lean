import CaptureHPC.Spec.Urls

/-!
# Groups of URLs and their controller

`UrlGroup` and `UrlGroupsController`. A group is a nonempty list of URLs visited together;
`urlGroupQueue` is a stack of groups waiting for a visit. Every change of a group's state
calls `update`, which splits a malicious group under the `dac` algorithm and puts a group
in error back once.

`history` is a ghost: what happened to `urlGroupQueue`, newest first. No function reads it.
-/

namespace CaptureHPC

open Lib

inductive UrlGroupState
  | none | queued | visiting | visited | error
  deriving DecidableEq, Repr

structure UrlGroup where
  urlList : List ℕ
  nonempty : urlList ≠ []
  clientProgram : String
  visitTime : Int32
  urlGroupState : UrlGroupState := .none
  errorCount : ℕ := 0
  retryCount : ℕ := 0
  malicious : Bool := false
  majorErrorCode : ErrorCode := .ok
  visitStartTime : Option ℤ := none
  visitFinishTime : Option ℤ := none
  algorithm : Option String := some ""
  processingIP : Option String := none
  logFile : Bool := false
  changes : List String := []

instance : Inhabited UrlGroup :=
  ⟨{ urlList := [0], nonempty := by simp, clientProgram := "", visitTime := 0 }⟩

def UrlGroup.size (x : UrlGroup) : ℕ := x.urlList.length

/-- What happened to a group: a client took it, it was put back for a retry, or it was
split in two. -/
inductive QueueOp
  | taken (client group : ℕ)
  | retried (group : ℕ)
  | split (group first second : ℕ)
  deriving DecidableEq

structure UrlGroupsController where
  urls : UrlsController := {}
  group : ℕ → UrlGroup := fun _ => default
  size : ℕ := 0
  urlGroupQueue : List ℕ := []
  visitingList : List ℕ := []
  visitedList : List ℕ := []
  history : List QueueOp := []

abbrev GroupsM := EStateM Exn UrlGroupsController

/-- Run a program on the URLs. -/
def onUrls {α : Type} (m : UrlsM α) : GroupsM α :=
  zoom UrlGroupsController.urls (fun s urls => { s with urls := urls }) m

/-- A map from URLs to their state changes as text; later entries come first. -/
abbrev UrlMap := List (String × String)

namespace UrlGroupsController

def setGroup (g : ℕ) (x : UrlGroup) (s : UrlGroupsController) : UrlGroupsController :=
  { s with group := Function.update s.group g x }

/-- `urlGroupQueue.push`. -/
def push (g : ℕ) (s : UrlGroupsController) : UrlGroupsController :=
  { s with urlGroupQueue := g :: s.urlGroupQueue }

def record (op : QueueOp) (s : UrlGroupsController) : UrlGroupsController :=
  { s with history := op :: s.history }

end UrlGroupsController

namespace UrlGroup

open UrlGroupsController

def modifyGroup (g : ℕ) (f : UrlGroup → UrlGroup) : GroupsM Unit :=
  modify fun s => s.setGroup g (f (s.group g))

/-- The constructor; an empty list is an `InvalidParameterException`. -/
def new (urlList : List ℕ) : GroupsM ℕ := do
  let s ← get
  let g := s.size
  match h : urlList with
  | [] => throw .illegalArgument
  | firstUrl :: _ =>
    let x : UrlGroup := {
      urlList := urlList
      nonempty := by simp [h]
      clientProgram := (s.urls.url firstUrl).clientProgram
      visitTime := (s.urls.url firstUrl).visitTime }
    modify fun s => { s.setGroup g x with size := g + 1 }
    onUrls (forM urlList fun u => Url.modifyUrl u fun x =>
      { x with groupID := g, processingIP := none, retryCount := 0 })
    pure g

/-- `getUrl`: the URL of the group that has the same encoding, ignoring case. -/
def getUrl (g : ℕ) (uri : Option String) : GroupsM ℕ := do
  let s ← get
  match uri with
  | none => throw .nullPointer
  | some uri =>
    match urlDecode uri with
    | none => throw .illegalArgument
    | some decodedURI =>
      match (s.group g).urlList.find? fun u =>
          equalsIgnoreCase (s.urls.url u).escapedUrl (urlEncode decodedURI) with
      | some u => pure u
      | none => throw .nullPointer

/-- `setMajorErrorCode`. -/
def setMajorErrorCode (g : ℕ) (code : ℤ) : GroupsM Unit :=
  modifyGroup g fun x => { x with majorErrorCode := ErrorCode.ofCode code }

/-- `setVisitStartTime`: a malformed time is logged and ignored. -/
def setVisitStartTime (sdf : SimpleDateFormat) (g : ℕ) (time : Option String) : GroupsM Unit :=
  match time with
  | none => throw .nullPointer
  | some time =>
    match sdf.parse time with
    | none => pure ()
    | some t => modifyGroup g fun x => { x with visitStartTime := some t }

/-- `setVisitFinishTime`. -/
def setVisitFinishTime (sdf : SimpleDateFormat) (g : ℕ) (time : Option String) : GroupsM Unit :=
  match time with
  | none => throw .nullPointer
  | some time =>
    match sdf.parse time with
    | none => pure ()
    | some t => modifyGroup g fun x => { x with visitFinishTime := some t }

def setAlgorithm (g : ℕ) (algorithm : Option String) : GroupsM Unit :=
  modifyGroup g fun x => { x with algorithm := algorithm }

def setProcessingIP (g : ℕ) (processingIP : Option String) : GroupsM Unit := do
  modifyGroup g fun x => { x with processingIP := processingIP }
  let s ← get
  onUrls (forM (s.group g).urlList fun u =>
    Url.modifyUrl u fun x => { x with processingIP := processingIP })

def setRetryCount (g : ℕ) (retryCount : ℕ) : GroupsM Unit := do
  modifyGroup g fun x => { x with retryCount := retryCount }
  let s ← get
  onUrls (forM (s.group g).urlList fun u =>
    Url.modifyUrl u fun x => { x with retryCount := retryCount })

/-- `writeEventToLog(Map)`: to the log of each URL that has state changes. -/
def writeMapToLog (sdf : SimpleDateFormat) (g : ℕ) (map : UrlMap) : GroupsM Unit := do
  let s ← get
  onUrls (forM (s.group g).urlList fun u => do
    let x := (← get).url u
    match map.lookup x.url with
    | none => pure ()
    | some csv => if csv = "" then pure () else Url.writeEventToLog sdf u csv)

/-- Open the change file of a group, whose name needs the start of the visit. -/
def openLog (g : ℕ) : GroupsM Unit := do
  let s ← get
  if (s.group g).logFile = false ∧ (s.group g).visitStartTime = none then throw .nullPointer
  else modifyGroup g fun x => { x with logFile := true }

/-- `writeEventToLog(String)`: to the log of the only URL, or of the group. -/
def writeEventToLog (sdf : SimpleDateFormat) (g : ℕ) (event : String) : GroupsM Unit := do
  let s ← get
  match (s.group g).urlList with
  | [u] => onUrls (Url.writeEventToLog sdf u event)
  | _ =>
    openLog g
    modifyGroup g fun x => { x with changes := x.changes ++ [event] }

/-- The verdict of a URL under `bulk`: its state changes in the map, if there is a map. -/
def setMaliciousByMap (malicious : Bool) (map : Option UrlMap) (u : ℕ) : UrlsM Unit := do
  let s ← get
  match map with
  | none => Url.setMalicious u malicious
  | some map =>
    match map.lookup (s.url u).url with
    | none => throw .nullPointer
    | some stateChanges => Url.setMalicious u (stateChanges ≠ "")

/-- `setMalicious`. Under `bulk` the map says which URLs are malicious; otherwise only a
group of one URL passes the verdict on, and a benign verdict goes to all URLs. -/
def setMalicious (g : ℕ) (algorithm : Option String) (malicious : Bool) (map : Option UrlMap) :
    GroupsM Unit := do
  modifyGroup g fun x => { x with malicious := malicious }
  let s ← get
  match algorithm with
  | none => throw .nullPointer
  | some algorithm =>
    if algorithm = "bulk" then onUrls (forM (s.group g).urlList (setMaliciousByMap malicious map))
    else if malicious = false then
      onUrls (forM (s.group g).urlList fun u => Url.setMalicious u false)
    else
      match (s.group g).urlList with
      | [u] => onUrls (Url.setMalicious u true)
      | _ => pure ()

/-- The condition of `update` for splitting a group. -/
def splits (x : UrlGroup) : Bool := x.algorithm == some "dac" && x.malicious && decide (1 < x.size)

/-- The part of `update` that splits a group: its URLs below the middle and from there on. -/
def split (g : ℕ) : GroupsM Unit := do
  let s ← get
  let urls := (s.group g).urlList
  let g1 ← new (urls.take (urls.length / 2))
  modify (push g1)
  let g2 ← new (urls.drop (urls.length / 2))
  modify (push g2)
  modify (record (.split g g1 g2))

def splitIfMalicious (g : ℕ) : GroupsM Unit := do
  let s ← get
  if (s.group g).splits then split g

/-- The flag starts as true, so the URLs' error codes cannot change it. -/
def networkReset (urls : List Url) : Bool :=
  urls.foldl (fun r x => if x.majorErrorCode = .networkError ∧ x.minorErrorCode = 2148270085 then true
    else r) true

/-- Whether `update` puts a group in error back. -/
def retries (x : UrlGroup) (urls : List Url) : Bool :=
  networkReset urls || x.majorErrorCode ∈
    [ErrorCode.vmStalled, .captureClientInactivity, .captureClientConnectionReset]

/-- The URLs of a group in error. -/
def setErrorOfUrl (code : ErrorCode) (u : ℕ) : UrlsM Unit := do
  Url.setMajorErrorCode u code.errorCode
  Url.setUrlState u .error

/-- `update` for a group in error. -/
def updateError (g : ℕ) : GroupsM Unit := do
  let s ← get
  let x := s.group g
  splitIfMalicious g
  onUrls (forM x.urlList (setErrorOfUrl x.majorErrorCode))
  let s ← get
  if x.splits = false ∧ retries x (x.urlList.map s.urls.url) ∧ x.errorCount ≤ 1 then
    setRetryCount g (x.retryCount + 1)
    modify (push g)
    modify (record (.retried g))

/-- `update`, called after each change of a group's state. A missing algorithm is a null
pointer once the lists are updated. -/
def update (g : ℕ) : GroupsM Unit := do
  let s ← get
  let x := s.group g
  match x.urlGroupState with
  | .visiting => modify fun s => { s with visitingList := s.visitingList ++ [g] }
  | .visited =>
    modify fun s => { s with visitingList := s.visitingList.erase g, visitedList := s.visitedList ++ [g] }
    if x.algorithm = none then throw .nullPointer else splitIfMalicious g
  | .error =>
    modify fun s => { s with visitingList := s.visitingList.erase g }
    if x.algorithm = none then throw .nullPointer else updateError g
  | _ => pure ()

/-- A URL without an error of its own gets its group's. -/
def inheritCode (groupCode : ErrorCode) (u : ℕ) : UrlsM Unit := do
  let s ← get
  if (s.url u).majorErrorCode = .ok then Url.setMajorErrorCode u groupCode.errorCode

/-- The state of a URL whose group changed its state. -/
def setStateOfUrl (newState : UrlGroupState) (groupCode : ErrorCode) (u : ℕ) : UrlsM Unit :=
  match newState with
  | .visiting => Url.setUrlState u .visiting
  | .visited => do
    let s ← get
    Url.setUrlState u (if (s.url u).majorErrorCode = .ok then .visited else .error)
  | .error => do
    inheritCode groupCode u
    Url.setUrlState u .error
  | _ => pure ()

def setUrlGroupState (g : ℕ) (newState : UrlGroupState) : GroupsM Unit := do
  modifyGroup g fun x => { x with
    urlGroupState := newState
    errorCount := if newState = .error then x.errorCount + 1 else x.errorCount }
  let s ← get
  onUrls (forM (s.group g).urlList (setStateOfUrl newState (s.group g).majorErrorCode))
  update g

end UrlGroup

namespace UrlGroupsController

/-- The loop of `takeUrlGroup` that fills a new group. -/
def takeUrls (picks : ℕ → ℕ) : ℕ → UrlsController → List ℕ × UrlsController
  | 0, s => ([], s)
  | n + 1, s =>
    match s.takeUrl (picks n) with
    | none => takeUrls picks n s
    | some (u, s) =>
      let (urlList, s) := takeUrls picks n s
      (u :: urlList, s)

/-- How many URLs a new group is to have. -/
def initialUrlGroupSize (groupSize : ℤ) (queueSize : ℕ) : ℤ :=
  let size := if queueSize < groupSize then (queueSize : ℤ) else groupSize
  if size = 0 then 1 else size

/-- `takeUrlGroup`, for the client `c`: the group on top of the stack, else a new group from
the queued URLs; `none` when there is neither. -/
def takeUrlGroup (groupSize : ℤ) (picks : ℕ → ℕ) (c : ℕ) : GroupsM (Option ℕ) := do
  let s ← get
  match s.urlGroupQueue with
  | g :: rest =>
    set { s with urlGroupQueue := rest }
    modify (record (.taken c g))
    pure (some g)
  | [] =>
    let n := initialUrlGroupSize groupSize s.urls.urlQueue.length
    let (urlList, urls) := takeUrls picks n.toNat s.urls
    set { s with urls := urls }
    if urlList = [] then pure none
    else
      let g ← UrlGroup.new urlList
      modify (record (.taken c g))
      pure (some g)

end UrlGroupsController

end CaptureHPC
