import CaptureHPC.Proof.Retry

/-!
# The programs up to a change of a group's state

What a piece of the server's operations does before it changes the state of a group, the
change, and what comes behind it. `program_eq`: together that is the piece.
-/

namespace CaptureHPC

open Lib UrlGroup
open Client hiding algorithm

variable {cfg : Config} {sdf : SimpleDateFormat} {c g : ℕ} {e : Element}

/-- A change of a group's state, and the rest of the program behind it. -/
structure Change where
  group : ℕ
  newState : UrlGroupState
  rest : ServerM Unit

/-- Make the change, if the program came to one, and do the rest. -/
def Change.resume : Option Change → ServerM Unit
  | none => pure ()
  | some ch => do
    onGroups (setUrlGroupState ch.group ch.newState)
    ch.rest

/-- A client's group goes to ERROR, if it has one. -/
def errorOfVisiting (c : ℕ) (before : ℕ → GroupsM Unit) (rest : ServerM Unit) : ServerM (Option Change) := do
  let w ← get
  match (w.client c).visitingUrlGroup with
  | none => do
    rest
    pure none
  | some g => do
    onGroups (before g)
    pure (some ⟨g, .error, rest⟩)

/-- `endVisit` up to the change. -/
def untilEnd (c g : ℕ) (malicious : Bool) (map : UrlMap) (st : ClientState) : ServerM (Option Change) := do
  let w ← get
  onGroups (UrlGroup.setMalicious g (w.client c).algorithm malicious (some map))
  pure (some ⟨g, .visited, do
    modifyClient c fun x => { x with visitingUrlGroup := none }
    setClientState c st⟩)

/-- `parseFinish` up to the change. -/
def untilFinish (cfg : Config) (sdf : SimpleDateFormat) (c : ℕ) (e : Element) : ServerM (Option Change) := do
  let g ← visiting c
  let w ← get
  onGroups (UrlGroup.setVisitFinishTime sdf g (e.get "time"))
  let map ← onGroups (parseItems true (w.client c).stateChangeHandler sdf g e.childElements)
  let w ← get
  if (w.groups.group g).malicious = false ∧ e.get "malicious" = none then throw .nullPointer
  else if (w.groups.group g).malicious ∨ e.get "malicious" = some "1" then do
    flushIfBulk sdf c g map
    untilEnd c g true map .disconnected
  else untilEnd c g false map (afterBenign cfg)

/-- `retryError` up to the change. -/
def untilRetry (cfg : Config) (sdf : SimpleDateFormat) (c g : ℕ) (major malicious : Option String)
    (map : UrlMap) : ServerM (Option Change) :=
  if cfg.haltOnRevert then throw (.exit (-20))
  else if malicious = none then throw .nullPointer
  else do
    flushIfMalicious sdf c g malicious map
    let w ← get
    onGroups do
      UrlGroup.setMalicious g (w.client c).algorithm (malicious = some "1") (some map)
      setGroupCode g major
    pure (some ⟨g, .error, do
      modifyClient c fun x => { x with visitingUrlGroup := none }
      setClientState c .disconnected⟩)

/-- `visitedWithError` up to the change. -/
def untilVisited (cfg : Config) (sdf : SimpleDateFormat) (c g : ℕ) (malicious : Option String) (map : UrlMap) :
    ServerM (Option Change) :=
  if malicious = none then throw .nullPointer
  else if malicious = some "1" then do
    onGroups (writeMapToLog sdf g map)
    untilEnd c g true map .disconnected
  else untilEnd c g false map (afterBenign cfg)

/-- `parseError` up to the change. -/
def untilError (cfg : Config) (sdf : SimpleDateFormat) (c : ℕ) (e : Element) : ServerM (Option Change) := do
  let g ← visiting c
  let w ← get
  let map ← onGroups (parseItems false (w.client c).stateChangeHandler sdf g e.childElements)
  match e.get "error-code" with
  | none => throw .nullPointer
  | some major =>
    if isErrorToRetry major then untilRetry cfg sdf c g (some major) (e.get "malicious") map
    else untilVisited cfg sdf c g (e.get "malicious") map

/-- `endVisitOnEvent` up to the change. -/
def untilEndOnEvent (sdf : SimpleDateFormat) (c g : ℕ) (e : Element) : ServerM (Option Change) := do
  onGroups do
    UrlGroup.setMalicious g (some "dac") true none
    UrlGroup.writeEventToLog sdf g (eventLine e)
    UrlGroup.setVisitFinishTime sdf g (e.get "time")
    let s ← get
    onUrls (forM (s.group g).urlList Url.setVisitFinishTime)
  pure (some ⟨g, .visited, do
    modifyClient c fun x => { x with visitingUrlGroup := none }
    setClientState c .disconnected⟩)

/-- `parseEvent` up to the change; only an event under `dac` makes one. -/
def untilEvent (sdf : SimpleDateFormat) (c : ℕ) (e : Element) : ServerM (Option Change) := do
  let w ← get
  if (w.client c).clientState = .visiting then
    match (w.client c).algorithm, (w.client c).visitingUrlGroup with
    | some algorithm, some g =>
      let size := (w.groups.group g).size
      if algorithm = "bulk" ∧ 1 < size then do
        recordStateChange sdf c e
        pure none
      else if algorithm = "dac" ∧ 1 < size then untilEndOnEvent sdf c g e
      else do
        onGroups (setMaliciousOnEvent sdf g algorithm e)
        pure none
    | _, _ => throw .nullPointer
  else pure none

/-- `parseVisitEvent` up to the change. A start makes no error. -/
def untilVisitEvent (cfg : Config) (sdf : SimpleDateFormat) (c : ℕ) (e : Element) : ServerM (Option Change) := do
  modifyClient c fun x => { x with algorithm := e.get "algorithm" }
  match e.get "type" with
  | none => throw .nullPointer
  | some type =>
    if type = "start" then do
      parseStart sdf c e
      pure none
    else if type = "finish" then untilFinish cfg sdf c e
    else if type = "error" then untilError cfg sdf c e
    else pure none

/-- `handleMessage` up to the change. -/
def untilMessage (cfg : Config) (sdf : SimpleDateFormat) (c : ℕ) (e : Element) : ServerM (Option Change) := do
  let w ← get
  modifyVm (w.client c).virtualMachine fun x => { x with lastContact := w.now }
  if e.name = "system-event" then untilEvent sdf c e
  else if e.name = "visit-event" then untilVisitEvent cfg sdf c e
  else pure none

/-- A piece of the server's operations up to the change. -/
def Piece.untilChange (cfg : Config) (sdf : SimpleDateFormat) : Piece → ServerM (Option Change)
  | .disconnectFirst c => do
    let w ← get
    releaseVm (w.client c).virtualMachine
    errorOfVisiting c (fun _ => pure ()) (modifyClient c fun x => { x with downloading := false, socketOpen := false })
  | .disconnectSecond c =>
    errorOfVisiting c (fun g => do
      setBenign g
      UrlGroup.setMajorErrorCode g ErrorCode.captureClientConnectionReset.errorCode) (pure ())
  | .sendFailed c => do
    let g ← visiting c
    onGroups (UrlGroup.setMajorErrorCode g 0x10000111)
    pure (some ⟨g, .error, pure ()⟩)
  | .setError v code => do
    let w ← get
    match (w.vm v).client with
    | none => pure none
    | some c => errorOfVisiting c (fun g => UrlGroup.setMajorErrorCode g code.errorCode) (pure ())
  | .message c e => untilMessage cfg sdf c e
  | p => do
    p.program cfg sdf
    pure none

/-! ## The pieces are these programs -/

theorem zoom_bind {ε σ τ α β : Type} {part : τ → σ} {put : τ → σ → τ} (hpart : ∀ t s, part (put t s) = s)
    (hput : ∀ t s s', put (put t s) s' = put t s') (m : EStateM ε σ α) (f : α → EStateM ε σ β) :
    zoom part put (m >>= f) = zoom part put m >>= fun a => zoom part put (f a) := by
  funext t
  show (zoom part put (m >>= f)).run t = (zoom part put m >>= fun a => zoom part put (f a)).run t
  cases hm : m.run (part t) with
  | ok a s =>
    rw [run_bind_ok (run_zoom_ok hm), run_zoom, run_zoom, run_bind_ok hm, hpart]
    cases (f a).run s with
    | ok b s' => simp only [hput]
    | error e s' => simp only [hput]
  | error e s => rw [run_bind_error (run_zoom_error hm), run_zoom_error (run_bind_error hm)]

theorem onGroups_bind {α β : Type} (m : GroupsM α) (f : α → GroupsM β) :
    onGroups (m >>= f) = onGroups m >>= fun a => onGroups (f a) := by
  exact @zoom_bind Exn UrlGroupsController World α β World.groups (fun w groups => { w with groups := groups })
    (fun _ _ => rfl) (fun _ _ _ => rfl) m f

theorem errorOfVisiting_eq (before : ℕ → GroupsM Unit) (rest : ServerM Unit) :
    errorOfVisiting c before rest >>= Change.resume = (do
      onVisitingGroup c fun g => do
        before g
        setUrlGroupState g .error
      rest) := by
  unfold errorOfVisiting onVisitingGroup
  simp only [bind_assoc]
  congr 1
  funext w
  cases (w.client c).visitingUrlGroup with
  | none => simp only [bind_assoc, pure_bind, Change.resume, bind_pure_unit]
  | some g => simp only [bind_assoc, pure_bind, Change.resume, onGroups_bind]

theorem untilEnd_eq (malicious : Bool) (map : UrlMap) (st : ClientState) :
    untilEnd c g malicious map st >>= Change.resume = (do
      endVisit c g malicious map
      setClientState c st) := by
  unfold untilEnd endVisit
  simp only [bind_assoc, pure_bind, Change.resume, onGroups_bind]

theorem untilFinish_eq : untilFinish cfg sdf c e >>= Change.resume = parseFinish cfg sdf c e := by
  unfold untilFinish parseFinish finishVerdict
  simp only [bind_assoc]
  refine bind_congr fun g => bind_congr fun w => bind_congr fun _ => bind_congr fun map => bind_congr fun w' => ?_
  split_ifs
  · rfl
  · simp only [bind_assoc, untilEnd_eq]
  · simp only [untilEnd_eq]

theorem untilRetry_eq (major malicious : Option String) (map : UrlMap) :
    untilRetry cfg sdf c g major malicious map >>= Change.resume = retryError cfg sdf c g major malicious map := by
  unfold untilRetry retryError
  split_ifs
  · rfl
  · rfl
  · simp only [bind_assoc, pure_bind, Change.resume, onGroups_bind]

theorem untilVisited_eq (malicious : Option String) (map : UrlMap) :
    untilVisited cfg sdf c g malicious map >>= Change.resume = visitedWithError cfg sdf c g malicious map := by
  unfold untilVisited visitedWithError
  split_ifs
  · rfl
  · simp only [bind_assoc, untilEnd_eq]
  · simp only [untilEnd_eq]

theorem untilError_eq : untilError cfg sdf c e >>= Change.resume = parseError cfg sdf c e := by
  unfold untilError parseError
  simp only [bind_assoc]
  refine bind_congr fun g => bind_congr fun w => bind_congr fun map => ?_
  cases e.get "error-code" with
  | none => rfl
  | some major =>
    dsimp only
    split_ifs
    · rw [untilRetry_eq]
    · rw [untilVisited_eq]

theorem untilEvent_eq : untilEvent sdf c e >>= Change.resume = parseEvent sdf c e := by
  unfold untilEvent parseEvent
  simp only [bind_assoc]
  refine bind_congr fun w => ?_
  split_ifs
  · cases (w.client c).algorithm with
    | none => rfl
    | some algorithm =>
      cases (w.client c).visitingUrlGroup with
      | none => rfl
      | some g =>
        dsimp only
        split_ifs
        · simp only [bind_assoc, pure_bind, Change.resume, bind_pure_unit]
        · simp only [untilEndOnEvent, endVisitOnEvent, bind_assoc, pure_bind, Change.resume, onGroups_bind]
        · simp only [bind_assoc, pure_bind, Change.resume, bind_pure_unit]
  · rfl

theorem untilVisitEvent_eq : untilVisitEvent cfg sdf c e >>= Change.resume = parseVisitEvent cfg sdf c e := by
  unfold untilVisitEvent parseVisitEvent
  simp only [bind_assoc]
  refine bind_congr fun _ => ?_
  cases e.get "type" with
  | none => rfl
  | some type =>
    dsimp only
    split_ifs
    · simp only [bind_assoc, pure_bind, Change.resume, bind_pure_unit]
    · rw [untilFinish_eq]
    · rw [untilError_eq]
    · rfl

theorem untilMessage_eq : untilMessage cfg sdf c e >>= Change.resume = handleMessage cfg sdf c e := by
  unfold untilMessage handleMessage
  simp only [bind_assoc]
  refine bind_congr fun w => bind_congr fun _ => ?_
  split_ifs
  · rw [untilEvent_eq]
  · rw [untilVisitEvent_eq]
  · rfl

/-- **A piece goes up to its change, makes it, and does the rest.** -/
theorem Piece.program_eq (p : Piece) : p.program cfg sdf = p.untilChange cfg sdf >>= Change.resume := by
  cases p with
  | disconnectFirst c =>
    simp only [Piece.program, Piece.untilChange, Client.disconnectFirst, bind_assoc, errorOfVisiting_eq, pure_bind]
  | disconnectSecond c =>
    simp only [Piece.program, Piece.untilChange, Client.disconnectSecond, errorOfVisiting_eq, bind_pure_unit, bind_assoc]
  | sendFailed c =>
    simp only [Piece.program, Piece.untilChange, Client.sendFailed, bind_assoc, pure_bind, Change.resume, onGroups_bind,
      bind_pure_unit]
  | setError v code =>
    simp only [Piece.program, Piece.untilChange, CaptureHPC.setError, bind_assoc]
    refine bind_congr fun w => ?_
    cases (w.vm v).client with
    | none => rfl
    | some c => simp only [errorOfVisiting_eq, bind_pure_unit]
  | message c e => simp only [Piece.program, Piece.untilChange, untilMessage_eq]
  | _ => simp only [Piece.untilChange, bind_assoc, pure_bind, Change.resume, bind_pure_unit]

end CaptureHPC
