import CaptureHPC.Spec.WideText

/-!
# Names of objects and files

The functions of `FileMonitor` and `RegistryMonitor` that turn what the drivers report into paths, and the copy
of a file that was modified.

* A map is given by its entries in the order in which it is iterated.
-/

namespace CaptureHPC

open Cpp

/-- The loop over a map: the first name that the text begins with is replaced. -/
def replaceFirst : List (WString × WString) → WString → WString
  | [], name => name
  | (first, second) :: names, name =>
    let position := rfindStart name first
    if position ≠ npos then replace name position.toNat first.length second else replaceFirst names name

namespace FileMonitor

def convertFileObjectNameToDosName (dosNameMap : List (WString × WString)) (fileObjectName : WString) : WString :=
  replaceFirst dosNameMap fileObjectName

/-- What `createFilePathAndCopy` asks of the system: a directory, with those above it, and a copy. -/
structure Copied where
  intermediateDirectory : WString
  filePath : WString
  filePathAndName : WString
  deriving DecidableEq

/-- `createFilePathAndCopy`; no result when a `substr` throws. -/
def createFilePathAndCopy (logPath filePath : WString) : Option Copied := do
  let drive ← substr filePath 0 (find filePath colon 0)
  let fileName ← substr filePath (findLastOf filePath backslash + 1) npos
  let directories ← substr filePath (find filePath backslash 0 + 1)
    (findLastOf filePath backslash - find filePath backslash 0 - 1)
  let intermediateDirectory := logPath ++ drive ++ [backslash] ++ directories
  some ⟨intermediateDirectory, filePath, intermediateDirectory ++ [backslash] ++ fileName⟩

end FileMonitor

namespace RegistryMonitor

/-- The entries of `initialiseObjectNameMap`, for the key of the current user. -/
def objectNameMap (currentUser : WString) : List (WString × WString) :=
  [(currentUser ++ lit "_CLASSES", lit "HKCR"), (currentUser, lit "HKCU"), (lit "\\REGISTRY\\MACHINE", lit "HKLM"),
    (lit "\\REGISTRY\\USER", lit "HKU"), (lit "\\Registry\\Machine", lit "HKLM")]

def convertRegistryObjectNameToHiveName (objectNameMap : List (WString × WString)) (registryObjectName : WString) :
    WString :=
  replaceFirst objectNameMap registryObjectName

end RegistryMonitor

end CaptureHPC
