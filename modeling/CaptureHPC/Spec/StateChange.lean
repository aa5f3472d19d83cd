import CaptureHPC.Lib.Rose
import CaptureHPC.Spec.Java

/-!
# Recorded state changes

`ObjectStateChange`, `ProcessStateChange` and `StateChangeHandler`. A
`ProcessStateChange` is a node of a process tree: its own fields, the object changes of
the process in `stateChanges`, and the processes it started in `childProcesses`. The
handler keeps a list of such trees.
-/

namespace CaptureHPC

open Lib

/-- A change of a file, a registry key or another object. -/
structure ObjectStateChange where
  type : String
  time : ℤ
  processId : Int32
  process : String
  action : String
  object1 : String
  object2 : String
  deriving DecidableEq

/-- The fields of a `ProcessStateChange` besides its two lists. -/
structure ProcessRecord where
  type : String
  time : ℤ
  parentProcessId : Int32
  parentProcess : String
  action : String
  processId : Int32
  process : String
  deriving DecidableEq

/-- A process and the object changes attributed to it. -/
structure ProcessNode where
  info : ProcessRecord
  stateChanges : List ObjectStateChange := []

/-- A process tree; the children of a node are its `childProcesses`. -/
abbrev ProcessStateChange := Rose ProcessNode

inductive StateChange
  | process (r : ProcessRecord)
  | object (o : ObjectStateChange)
  deriving DecidableEq

/-- A text field as it is printed: `null` for a missing attribute. -/
def orNull (s : Option String) : String := s.getD "null"

/-- `setTime`: a missing time is a null pointer, another malformed one a `ParseException`. -/
def setTime (sdf : SimpleDateFormat) : Option String → Except Exn ℤ
  | none => .error .nullPointer
  | some s => match sdf.parse s with
    | none => .error .parse
    | some t => .ok t

/-- The constructor of `ObjectStateChange`. -/
def ObjectStateChange.new (sdf : SimpleDateFormat) (type : String)
    (time processId process action object1 object2 : Option String) : Except Exn ObjectStateChange := do
  let time ← setTime sdf time
  match parseInt processId with
  | none => .error .numberFormat
  | some processId => .ok ⟨type, time, processId, orNull process, orNull action, orNull object1, orNull object2⟩

/-- The constructor of `ProcessStateChange`; an id that is no number becomes -1. -/
def ProcessRecord.new (sdf : SimpleDateFormat) (type : String)
    (time parentProcessId parentProcess action processId process : Option String) :
    Except Exn ProcessRecord := do
  let time ← setTime sdf time
  .ok ⟨type, time, (parseInt parentProcessId).getD (-1), orNull parentProcess, orNull action,
    (parseInt processId).getD (-1), orNull process⟩

namespace StateChange

def time : StateChange → ℤ
  | process r => r.time
  | object o => o.time

def type : StateChange → String
  | process r => r.type
  | object o => o.type

/-- `getProcessId`. -/
def processId : StateChange → Int32
  | process r => r.processId
  | object o => o.processId

end StateChange

/-- One line of comma-separated quoted fields. -/
def csvLine (fields : List String) : String := "\"" ++ "\",\"".intercalate fields ++ "\"\n"

/-- `toCSV` of both kinds of state change. -/
def StateChange.toCSV (sdf : SimpleDateFormat) : StateChange → String
  | .process r => csvLine [r.type, sdf.format r.time, intToString r.parentProcessId, r.parentProcess,
      r.action, intToString r.processId, r.process]
  | .object o => csvLine [o.type, sdf.format o.time, intToString o.processId, o.process, o.action,
      o.object1, o.object2]

/-- The UTF-16 units of a text, by which `String.compareTo` orders. -/
def utf16 (s : String) : List ℕ :=
  s.toList.flatMap fun c =>
    if c.toNat < 0x10000 then [c.toNat]
    else [0xD800 + (c.toNat - 0x10000) / 0x400, 0xDC00 + (c.toNat - 0x10000) % 0x400]

/-- The comparator of `getAllStateChanges`: by time, and by descending type at one time. -/
def StateChange.le (a b : StateChange) : Prop :=
  a.time < b.time ∨ a.time = b.time ∧ utf16 b.type ≤ utf16 a.type

instance : DecidableRel StateChange.le := fun a b => by unfold StateChange.le; infer_instance

namespace ProcessStateChange

/-- `getProcessId` of the root. -/
def processId (t : ProcessStateChange) : Int32 := t.label.info.processId

/-- `getParentProcessId` of the root. -/
def parentProcessId (t : ProcessStateChange) : Int32 := t.label.info.parentProcessId

/-- A process without changes or children. -/
def leaf (r : ProcessRecord) : ProcessStateChange := .node { info := r } []

/-- The change belongs at this node: an object change of the process, or a child of it. -/
def belongs (sc : StateChange) (n : ProcessNode) : Bool :=
  match sc with
  | .object o => o.processId == n.info.processId
  | .process r => r.parentProcessId == n.info.processId

/-- Add a change at the node it belongs to. -/
def attach (sc : StateChange) (n : ProcessNode) (childProcesses : List ProcessStateChange) :
    ProcessStateChange :=
  match sc with
  | .object o => .node { n with stateChanges := n.stateChanges ++ [o] } childProcesses
  | .process r => .node n (childProcesses ++ [leaf r])

/-- `addStateChange`: this node if the change belongs here, else the first child that
accepts it; `none` is the return value `false`. -/
def addStateChange (sc : StateChange) : ProcessStateChange → Option ProcessStateChange :=
  Rose.modifyFirst (belongs sc) (attach sc)

mutual

/-- `getAllStateChanges`: the node's changes, its children's and itself, sorted stably. -/
def getAllStateChanges : ProcessStateChange → List StateChange
  | .node n ts => (n.stateChanges.map StateChange.object ++ getAllOfChildren ts ++
      [StateChange.process n.info]).insertionSort StateChange.le

def getAllOfChildren : List ProcessStateChange → List StateChange
  | [] => []
  | t :: ts => getAllStateChanges t ++ getAllOfChildren ts

end

end ProcessStateChange

structure StateChangeHandler where
  processTrees : List ProcessStateChange := []

namespace StateChangeHandler

open ProcessStateChange

/-- The process record made up for an object change whose process is unknown. -/
def synthesise (sdf : SimpleDateFormat) (o : ObjectStateChange) : Except Exn ProcessRecord :=
  ProcessRecord.new sdf "process" (sdf.format o.time) "0" "CaptureClient.exe" "created"
    (intToString o.processId) o.process

/-- `addStateChange`: the first tree that accepts the change, else a new tree. Returns
`added` and the handler afterwards. -/
def addStateChange (sdf : SimpleDateFormat) (h : StateChangeHandler) (sc : StateChange) :
    Except Exn (Bool × StateChangeHandler) :=
  match Rose.modifyFirstAll (belongs sc) (attach sc) h.processTrees with
  | some ts => .ok (true, ⟨ts⟩)
  | none =>
    match sc with
    | .process newPsc => .ok (true, ⟨h.processTrees ++ [leaf newPsc]⟩)
    | .object osc => do
      let newPsc ← synthesise sdf osc
      match ProcessStateChange.addStateChange (.object osc) (leaf newPsc) with
      | some t => .ok (true, ⟨h.processTrees ++ [t]⟩)
      | none => .ok (false, ⟨h.processTrees ++ [leaf newPsc]⟩)

/-- `addStateChange` called for each change in turn; the list has the return values. -/
def addAll (sdf : SimpleDateFormat) :
    StateChangeHandler → List StateChange → Except Exn (List Bool × StateChangeHandler)
  | h, [] => .ok ([], h)
  | h, sc :: scs => do
    let (added, h) ← addStateChange sdf h sc
    let (rest, h) ← addAll sdf h scs
    .ok (added :: rest, h)

def getCSVofTree (sdf : SimpleDateFormat) (t : ProcessStateChange) : String :=
  String.join (t.getAllStateChanges.map (StateChange.toCSV sdf))

/-- The test of `getStateChangesCSV` on a tree. -/
def accepts (processId : Int32) (t : ProcessStateChange) : Bool :=
  t.processId == processId || t.parentProcessId == processId

/-- `getStateChangesCSV`: the first tree whose root has this id or parent id. -/
def getStateChangesCSV (sdf : SimpleDateFormat) (h : StateChangeHandler) (processId : Int32) : String :=
  match h.processTrees.find? (accepts processId) with
  | some t => getCSVofTree sdf t
  | none =>
    match h.processTrees with
    | [t] => if processId = 0 then getCSVofTree sdf t else ""
    | _ => ""

/-- The trees `getRemainderStateChangesCSV` prints: those whose root id is not listed. -/
def remainderTrees (h : StateChangeHandler) (processIds : List Int32) : List ProcessStateChange :=
  h.processTrees.filter fun t => !processIds.contains t.processId

/-- `getRemainderStateChangesCSV`. -/
def getRemainderStateChangesCSV (sdf : SimpleDateFormat) (h : StateChangeHandler)
    (processIds : List Int32) : String :=
  String.join ((h.remainderTrees processIds).map (getCSVofTree sdf))

end StateChangeHandler

end CaptureHPC
