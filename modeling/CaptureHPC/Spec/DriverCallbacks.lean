import CaptureHPC.Lib.LittleEndian
import CaptureHPC.Spec.EventQueue

/-!
# What the drivers' callbacks queue

The events that `PreFileOperationCallback` (queued after the operation) and `RegistryCallback` make
from a path and, for a registry value that is set, from the value's data.

* The fields in front of the lengths (times, process, type) are bytes.
* The allocations succeed. A path is at most as long as its buffer; the registry driver puts it together there
  (`RegistryOperation.registryPath`).
-/

namespace CaptureHPC.Driver

open Lib

/-- FILE_EVENTS_BUFFER_SIZE and REGISTRY_EVENTS_BUFFER_SIZE. -/
def eventsBufferSize : ℕ := 5 * 65536

/-- NTSTRSAFE_UNICODE_STRING_MAX_CCH. -/
def maxPathCch : ℕ := 32767

/-- The bytes of so many characters. -/
def maxPathLength : ℕ := 65534

theorem uintAt_behind {pre bytes post : List UInt8} (h : bytes.length = 4) :
    uintAt pre.length (pre ++ (bytes ++ post)) = ofBytes bytes := by
  rw [uintAt, List.drop_left, ← h, List.take_left]
  rfl

/-- The path, with a NUL behind it. -/
def pathData (path : List UInt8) : List UInt8 := path ++ [0, 0]

theorem length_pathData (path : List UInt8) : (pathData path).length = path.length + 2 := by
  rw [pathData, List.length_append]
  rfl

/-- The event of `PreFileOperationCallback`. -/
def fileEventOf (fields path : List UInt8) (hfields : fields.length = 36) (hpath : path.length ≤ maxPathLength) :
    Event fileEvent :=
  have hsize : uintAt 36 (fields ++ (toBytes 4 (path.length + 2) ++ [])) = path.length + 2 := by
    rw [← hfields, uintAt_behind (length_toBytes 4 _), ofBytes_toBytes_of_lt]
    exact Nat.lt_of_le_of_lt (Nat.add_le_add_right hpath 2) (by decide)
  { header := fields ++ (toBytes 4 (path.length + 2) ++ [])
    data := pathData path
    length_header := by
      rw [List.length_append, List.length_append, length_toBytes, hfields]
      rfl
    length_data := by
      show (pathData path).length = uintAt 36 _
      rw [hsize, length_pathData]
    size_lt := by
      show 40 + uintAt 36 _ < uintSize
      rw [hsize]
      exact Nat.lt_of_le_of_lt (Nat.add_le_add_left (Nat.add_le_add_right hpath 2) 40) (by decide) }

theorem fileEventOf_size {fields path : List UInt8} (hfields : fields.length = 36)
    (hpath : path.length ≤ maxPathLength) :
    (fileEventOf fields path hfields hpath).size = 40 + (path.length + 2) := by
  rw [← length_pathData]
  exact congrArg (40 + ·) (fileEventOf fields path hfields hpath).length_data.symm

/-- A REGISTRY_EVENT without its data. -/
def registryHeader (fields : List UInt8) (dataLength pathLength : ℕ) : List UInt8 :=
  fields ++ (toBytes 4 dataLength ++ toBytes 4 pathLength)

theorem registryHeader_dataLength {fields : List UInt8} {dataLength : ℕ} (hfields : fields.length = 28)
    (h : dataLength < uintSize) (pathLength : ℕ) :
    uintAt 28 (registryHeader fields dataLength pathLength) = dataLength := by
  rw [registryHeader, ← hfields, uintAt_behind (length_toBytes 4 _), ofBytes_toBytes_of_lt h]

theorem registryHeader_pathLength {fields : List UInt8} {pathLength : ℕ} (hfields : fields.length = 28)
    (h : pathLength < uintSize) (dataLength : ℕ) :
    uintAt 32 (registryHeader fields dataLength pathLength) = pathLength := by
  have hpre : (fields ++ toBytes 4 dataLength).length = 32 := by
    rw [List.length_append, length_toBytes, hfields]
  rw [registryHeader, ← hpre, ← List.append_assoc, ← List.append_nil (toBytes 4 pathLength),
    uintAt_behind (length_toBytes 4 _), ofBytes_toBytes_of_lt h]

/-- The event of `RegistryCallback`. Its size is that of an allocation. -/
def registryEventOf (fields path value : List UInt8) (hfields : fields.length = 28)
    (hsize : 36 + (path.length + 2 + value.length) < uintSize) : Event registryEvent :=
  have hdata : registryEvent.dataSize (registryHeader fields value.length (path.length + 2)) =
      path.length + 2 + value.length := by
    show uintAt 32 _ + uintAt 28 _ = _
    rw [registryHeader_pathLength hfields (by omega), registryHeader_dataLength hfields (by omega)]
  { header := registryHeader fields value.length (path.length + 2)
    data := pathData path ++ value
    length_header := by
      rw [registryHeader, List.length_append, List.length_append, length_toBytes, length_toBytes, hfields]
      rfl
    length_data := by rw [hdata, List.length_append, length_pathData]
    size_lt := by
      show 36 + registryEvent.dataSize (registryHeader fields value.length (path.length + 2)) < uintSize
      rw [hdata]
      exact hsize }

theorem registryEventOf_size {fields path value : List UInt8} (hfields : fields.length = 28)
    (hsize : 36 + (path.length + 2 + value.length) < uintSize) :
    (registryEventOf fields path value hfields hsize).size = 36 + (path.length + 2 + value.length) := by
  rw [← length_pathData, ← List.length_append]
  exact congrArg (36 + ·) (registryEventOf fields path value hfields hsize).length_data.symm

/-- What the file driver queues. -/
def IsFileEvent (event : Event fileEvent) : Prop :=
  ∃ fields path hfields hpath, event = fileEventOf fields path hfields hpath

/-- What `RegistryCallback` is told of, with the complete name of the key that it gets for the object. -/
inductive RegistryOperation
  /-- RegNtPreSetValueKey. -/
  | setValue (keyName valueName : List UInt16) (data : List UInt8)
  /-- RegNtDeleteValueKey and RegNtQueryValueKey. -/
  | value (keyName valueName : List UInt16)
  /-- The operations on a key. -/
  | key (keyName : List UInt16)

/-- `RtlUnicodeStringCat`: what does not fit into the buffer is cut off. -/
def stringCat (path name : List UInt16) : List UInt16 := (path ++ name).take maxPathCch

/-- The name of a value behind that of its key. -/
def valuePath (keyName valueName : List UInt16) : List UInt16 :=
  if valueName = [] then keyName.take maxPathCch
  else stringCat (stringCat (keyName.take maxPathCch) [0x5C]) valueName

namespace RegistryOperation

def registryPath : RegistryOperation → List UInt16
  | setValue keyName valueName _ | value keyName valueName => valuePath keyName valueName
  | key keyName => keyName.take maxPathCch

/-- The data of a value that has no name is not looked at. -/
def registryData : RegistryOperation → List UInt8
  | setValue _ valueName data => if valueName = [] then [] else data
  | _ => []

end RegistryOperation

/-- The bytes of a path. -/
def pathBytes (path : List UInt16) : List UInt8 := path.flatMap fun w => toBytes 2 w.toNat

theorem length_pathBytes (path : List UInt16) : (pathBytes path).length = 2 * path.length := by
  induction path with
  | nil => rfl
  | cons w path ih =>
    rw [pathBytes, List.flatMap_cons, List.length_append, length_toBytes, List.length_cons]
    rw [pathBytes] at ih
    omega

/-- What the registry driver queues. -/
def IsRegistryEvent (event : Event registryEvent) : Prop :=
  ∃ (operation : RegistryOperation) (fields : List UInt8) (hfields : _) (hsize : _),
    event = registryEventOf fields (pathBytes operation.registryPath) operation.registryData hfields hsize

end CaptureHPC.Driver
