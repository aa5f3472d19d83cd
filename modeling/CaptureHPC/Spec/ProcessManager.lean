import CaptureHPC.Lib.Machine
import CaptureHPC.Spec.WideText

/-!
# The paths of processes

`ProcessManager`, and `ProcessMonitor::onProcessEvent`.

* `Windows` is what the system says of paths. A `szTemp` is what an array on the stack held before it was written to.
* `System` is what the system says of processes while a call is handled: the images of those that can be opened, and
  the parents. Calls of the monitors are handled one after the other, so that a lookup that waits finds nothing new.
* `processMonitor` is set. What the listeners of an event do leaves the map as it is.
* The recursion over parents has fuel. There is no result when it is used up, or when `substr` throws.
-/

namespace CaptureHPC

open Lib Cpp

/-- What `GetLongPathName` does: an error, or the long form, or nothing as the array is too short for it. -/
inductive LongPathName
  | failed
  | written (path : WString)
  | tooLong
  deriving DecidableEq

structure Windows where
  queryDosDevice : WString → Option WString
  getLongPathName : WString → LongPathName

/-- `L'A'` to `L'Z'`. -/
def driveLetters : List WChar := (List.range 26).map fun i => 0x41 + i.toUInt16

namespace ProcessManager

def convertDevicePathToDOSDrive (w : Windows) (devicePath : WString) : WString :=
  match driveLetters.find? fun drive => w.queryDosDevice [drive, colon] = some (cString devicePath) with
  | some drive => [drive, colon]
  | none => lit "?:"

/-- `dosPath` after the call of `GetLongPathName`. -/
def longPath (w : Windows) (szTemp dosPath : WString) : WString :=
  match w.getLongPathName (cString dosPath) with
  | .failed => dosPath
  | .written path => path
  | .tooLong => szTemp

def convertFileObjectPathToDOSPath (w : Windows) (szTemp fileObjectPath : WString) : Option WString :=
  let startsWith := find fileObjectPath backslash 0
  if startsWith = 0 then
    if fileObjectPath.length > 23 then do
      let pathOffset := find fileObjectPath backslash (find fileObjectPath backslash 1 + 1)
      let devicePath ← substr fileObjectPath 0 pathOffset
      let dosDrive := convertDevicePathToDOSDrive w devicePath
      let rest ← substr fileObjectPath pathOffset npos
      some (longPath w szTemp (dosDrive ++ rest))
    else some fileObjectPath
  else some fileObjectPath

end ProcessManager

/-- `processMap`. -/
abbrev ProcessMap := UInt32 → Option WString

structure System where
  /-- `OpenProcess` and `GetProcessImageFileName`. -/
  images : List (UInt32 × WString)
  getParentProcessId : UInt32 → UInt32

def System.image (system : System) (processId : UInt32) : Option WString := system.images.lookup processId

namespace ProcessManager

variable (w : Windows) (szTemp : WString) (system : System)

def insertProcess (processMap : ProcessMap) (processId : UInt32) (processPath : WString) : Option ProcessMap := do
  let processCompletePath ← convertFileObjectPathToDOSPath w szTemp processPath
  some (Function.update processMap processId (some processCompletePath))

def onProcessEvent (created : Bool) (processId : UInt32) (process : WString) (processMap : ProcessMap) :
    Option ProcessMap :=
  if created then do
    let process ← convertFileObjectPathToDOSPath w szTemp process
    insertProcess w szTemp processMap processId process
  else some processMap

end ProcessManager

/-- `ProcessMonitor::onProcessEvent`, up to the listeners, for `getProcessPath`: the map, and the paths of the process
and its parent. The two calls of `getProcessModuleName` look up paths, too. -/
def ProcessMonitor.onProcessEvent (w : Windows) (szTemp : WString)
    (getProcessPath : ProcessMap → UInt32 → Option (WString × ProcessMap)) (create : Bool)
    (processId parentProcessId : UInt32) (processMap : ProcessMap) : Option (ProcessMap × WString × WString) := do
  let (processPath, processMap) ← getProcessPath processMap processId
  let processMap ← ProcessManager.onProcessEvent w szTemp create processId processPath processMap
  let (_, processMap) ← getProcessPath processMap processId
  let (_, processMap) ← getProcessPath processMap parentProcessId
  let (parentProcessPath, processMap) ← getProcessPath processMap parentProcessId
  some (processMap, processPath, parentProcessPath)

namespace ProcessManager

variable (w : Windows) (szTemp : WString) (system : System)

/-- `getProcessPath`, with fuel. -/
def getProcessPathIn : ℕ → ProcessMap → UInt32 → Option (WString × ProcessMap)
  | 0, _, _ => none
  | fuel + 1, processMap, processId =>
    if processId = 4 then some (lit "System", processMap)
    else match processMap processId with
      | some processPath => some (processPath, processMap)
      | none =>
        match system.image processId with
        | none => do
          let processPath ← convertFileObjectPathToDOSPath w szTemp (lit "UNKNOWN")
          some (processPath, processMap)
        | some processPath => do
          let processMap ← insertProcess w szTemp processMap processId processPath
          let (processMap, _) ← ProcessMonitor.onProcessEvent w szTemp (getProcessPathIn fuel) true processId
            (system.getParentProcessId processId) processMap
          let processPath ← convertFileObjectPathToDOSPath w szTemp processPath
          some (processPath, processMap)

/-- One more than there are processes that can be opened. -/
def getProcessPath (processMap : ProcessMap) (processId : UInt32) : Option (WString × ProcessMap) :=
  getProcessPathIn w szTemp system (system.images.length + 1) processMap processId

/-- `initialiseProcessMap`, for the processes of a snapshot and the images of those that can be opened. -/
def initialiseProcessMap (snapshot : List (UInt32 × Option WString)) : Option ProcessMap :=
  snapshot.foldlM (fun processMap p =>
    if p.1 ≠ 0 then insertProcess w szTemp processMap p.1 (p.2.getD (lit "<unknown>")) else some processMap) fun _ => none

end ProcessManager

end CaptureHPC
