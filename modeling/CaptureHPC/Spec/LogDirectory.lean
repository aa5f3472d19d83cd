import CaptureHPC.Lib.Machine
import CaptureHPC.Spec.WideText

/-!
# The log directory of the file driver

What `DriverEntry`, the command `SetupMonitor` of `MessageCallback`, `DisconnectCallback` and `FilterUnload` do with
the directory that deleted files are copied to.

* A request is one step. Whether its allocation succeeds is an input.
* `pool` holds the buffers that are allocated. There is no step that frees one that is not.
* The text of a string is what its length says of its buffer.
-/

namespace CaptureHPC.Driver

open Lib Cpp

/-- Buffers have numbers, which are not used again. -/
structure Pool where
  live : List ℕ := []
  allocated : ℕ := 0
  deriving DecidableEq

namespace Pool

def allocate (p : Pool) : Pool := { live := p.allocated :: p.live, allocated := p.allocated + 1 }

/-- `ExFreePoolWithTag`; no result for a buffer that is not allocated. -/
def free (p : Pool) (buffer : ℕ) : Option Pool :=
  if buffer ∈ p.live then some { p with live := p.live.filter (· ≠ buffer) } else none

end Pool

structure UnicodeString where
  text : WString := []
  maximumLength : UInt16 := 0
  buffer : Option ℕ := none
  deriving DecidableEq

/-- `RtlUnicodeStringCat`: as much as there is room for. -/
def UnicodeString.cat (s : UnicodeString) (t : WString) : UnicodeString :=
  { s with text := s.text ++ t.take (s.maximumLength.toNat / 2 - s.text.length) }

/-- As `DriverEntry` leaves it. -/
structure FileManager where
  bCollectDeletedFiles : Bool := false
  logDirectory : UnicodeString := {}
  pool : Pool := {}
  deriving DecidableEq

structure FilemonitorSetup where
  bCollectDeletedFiles : Bool
  nLogDirectorySize : UInt32
  wszLogDirectory : WString
  deriving DecidableEq

/-- `sizeof(FILEMONITOR_SETUP)`. -/
def setupSize : ℕ := 2056

inductive FileRequest
  /-- `allocates`: memory for the directory is there. -/
  | setupMonitor (bufferSpace : ℕ) (setup : FilemonitorSetup) (allocates : Bool)
  | disconnect
  | unload
  deriving DecidableEq

namespace FileManager

/-- The directory in front of which `\??\` is put. -/
def uszTempString : WString := lit "\\??\\"

/-- A `USHORT`. -/
def logDirectorySize (setup : FilemonitorSetup) : UInt16 :=
  ((2 * (uszTempString.length.toUInt32 + 1)) + setup.nLogDirectorySize + 2).toUInt16

/-- The log directory is freed if there is one. -/
def freeLogDirectory (s : FileManager) : Option FileManager :=
  match s.logDirectory.buffer with
  | none => some s
  | some buffer => do
    let pool ← s.pool.free buffer
    some { s with pool := pool, logDirectory := { s.logDirectory with buffer := none } }

def setupMonitor (bufferSpace : ℕ) (setup : FilemonitorSetup) (allocates : Bool) (s : FileManager) :
    Option FileManager :=
  if bufferSpace = setupSize then
    if setup.bCollectDeletedFiles then do
      let s ← s.freeLogDirectory
      if allocates then
        let logDirectory : UnicodeString :=
          { text := [], maximumLength := logDirectorySize setup, buffer := some s.pool.allocated }
        some {
          bCollectDeletedFiles := setup.bCollectDeletedFiles
          logDirectory := (logDirectory.cat uszTempString).cat (cString setup.wszLogDirectory)
          pool := s.pool.allocate }
      else some s
    else { s with bCollectDeletedFiles := false }.freeLogDirectory
  else some s

def disconnectCallback (s : FileManager) : Option FileManager := do
  let s ← s.freeLogDirectory
  some { s with bCollectDeletedFiles := false }

def filterUnload (s : FileManager) : Option FileManager := do
  let s ← s.freeLogDirectory
  some { s with bCollectDeletedFiles := false }

def step (s : FileManager) : FileRequest → Option FileManager
  | .setupMonitor bufferSpace setup allocates => s.setupMonitor bufferSpace setup allocates
  | .disconnect => s.disconnectCallback
  | .unload => s.filterUnload

end FileManager

end CaptureHPC.Driver
