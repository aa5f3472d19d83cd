import CaptureHPC.Lib.Machine
import CaptureHPC.Lib.Records

/-!
# The drivers' event queues

The queues of the file and the registry driver, the handlers that fill a user buffer with
events (`MessageCallback` for `GetFileEvents`, `HandleIoctlGetRegEvents`), and the loops in
`FileMonitor::run` and `RegistryMonitor::run` that walk over it.

* The list operations are interlocked: each is one step, and so is a look at the list. Events
  are appended between the steps of a request; requests come one at a time.
* `UINT` arithmetic is modulo `uintSize`. A subtraction `bufferSpace - bufferSpaceUsed` is
  made behind `bufferSpaceUsed < bufferSpace`.
* Driver and client are 32-bit code with the same layout. The monitor's thread is not told to
  stop, and no queue is cleared by the connection checker.
* `accepted` and the `events` of requests and replies are histories.
-/

namespace CaptureHPC.Driver

open Lib

def uintSize : ℕ := 2 ^ 32

/-- The 32-bit field at this offset. -/
def uintAt (offset : ℕ) (bytes : List UInt8) : ℕ :=
  Nat.ofDigits 256 (((bytes.drop offset).take 4).map UInt8.toNat)

/-- FILE_EVENT: `filePathLength` is its last field. -/
def fileEvent : Layout UInt8 where
  headerSize := 40
  headerSize_pos := by decide
  dataSize := uintAt 36

/-- REGISTRY_EVENT: the path and the data follow `dataLengthB` and `registryPathLengthB`. -/
def registryEvent : Layout UInt8 where
  headerSize := 36
  headerSize_pos := by decide
  dataSize := fun header => uintAt 32 header + uintAt 28 header

/-- An event lies in the address space. -/
structure Event (L : Layout UInt8) extends Record L where
  size_lt : toRecord.size < uintSize

structure Monitor where
  layout : Layout UInt8
  /-- The handler answers a buffer smaller than a header with STATUS_BUFFER_TOO_SMALL, and
  the dispatcher returns no bytes for it. -/
  checksBuffer : Bool

def fileMonitor : Monitor := ⟨fileEvent, false⟩

def registryMonitor : Monitor := ⟨registryEvent, true⟩

inductive RequestPoint (L : Layout UInt8)
  | looking
  | removing
  | holding (event : Event L)

structure Request (L : Layout UInt8) where
  bufferSpace : ℕ
  bufferSpaceUsed : ℕ := 0
  outputBuffer : List UInt8
  point : RequestPoint L := .looking
  events : List (Event L) := []

structure Reply (L : Layout UInt8) where
  buffer : List UInt8
  bytesReturned : ℕ
  events : List (Event L)

structure EventQueue (L : Layout UInt8) where
  queue : List (Event L) := []
  request : Option (Request L) := none
  replies : List (Reply L) := []
  accepted : List (Event L) := []

inductive DriverStep (L : Layout UInt8)
  | append (event : Event L)
  | getEvents (buffer : List UInt8)
  | handler

variable {L : Layout UInt8}

/-- `RtlCopyMemory(buffer + offset, source, n)`. -/
def copyMemory (buffer : List UInt8) (offset : ℕ) (source : List UInt8) (n : ℕ) : List UInt8 :=
  buffer.take offset ++ source.take n ++ buffer.drop (offset + n)

namespace EventQueue

/-- The handler returns. -/
def reply (s : EventQueue L) (r : Request L) : EventQueue L :=
  { s with request := none, replies := s.replies ++ [⟨r.outputBuffer, r.bufferSpaceUsed, r.events⟩] }

def getEvents (m : Monitor) (s : EventQueue m.layout) (buffer : List UInt8) : Option (EventQueue m.layout) :=
  if s.request.isNone && buffer.length < uintSize then
    if m.checksBuffer && buffer.length < m.layout.headerSize then some (s.reply ⟨buffer.length, 0, buffer, .looking, []⟩)
    else some { s with request := some ⟨buffer.length, 0, buffer, .looking, []⟩ }
  else none

/-- The condition of the handler's loop. -/
def goesOn (s : EventQueue L) (r : Request L) : Bool :=
  !s.queue.isEmpty && r.bufferSpaceUsed < r.bufferSpace && L.headerSize ≤ r.bufferSpace - r.bufferSpaceUsed

/-- The event that was removed is copied, or put back. -/
def place (s : EventQueue L) (r : Request L) (event : Event L) : EventQueue L :=
  let eventSize := event.size % uintSize
  if eventSize ≤ r.bufferSpace - r.bufferSpaceUsed then
    { s with request := some { r with
        outputBuffer := copyMemory r.outputBuffer r.bufferSpaceUsed event.bytes eventSize
        bufferSpaceUsed := (r.bufferSpaceUsed + eventSize) % uintSize
        events := r.events ++ [event]
        point := .looking } }
  else { s with queue := event :: s.queue }.reply r

def handler (s : EventQueue L) : Option (EventQueue L) :=
  match s.request with
  | none => none
  | some r =>
    match r.point with
    | .looking => if s.goesOn r then some { s with request := some { r with point := .removing } } else some (s.reply r)
    | .removing =>
      match s.queue with
      | event :: rest => some { s with queue := rest, request := some { r with point := .holding event } }
      | [] => none
    | .holding event => some (s.place r event)

def step (m : Monitor) (s : EventQueue m.layout) : DriverStep m.layout → Option (EventQueue m.layout)
  | .append event => some { s with queue := s.queue ++ [event], accepted := s.accepted ++ [event] }
  | .getEvents buffer => s.getEvents m buffer
  | .handler => s.handler

end EventQueue

/-- The loop over the events from this offset. There is no result when it reads behind the
bytes that were returned. -/
def walkFrom (L : Layout UInt8) (buffer : List UInt8) (bytesReturned : ℕ) : ℕ → ℕ → Option (List (List UInt8))
  | 0, _ => none
  | fuel + 1, offset =>
    if offset + L.headerSize ≤ bytesReturned then
      let size := L.headerSize + L.dataSize ((buffer.drop offset).take L.headerSize)
      if offset + size ≤ bytesReturned then
        let event := (buffer.drop offset).take size
        let next := (offset + size) % uintSize
        if next < bytesReturned then (walkFrom L buffer bytesReturned fuel next).map (event :: ·)
        else some [event]
      else none
    else none

/-- What the monitor's thread makes of a reply. -/
def walk (L : Layout UInt8) (buffer : List UInt8) (bytesReturned : ℕ) : Option (List (List UInt8)) :=
  if L.headerSize ≤ bytesReturned then walkFrom L buffer bytesReturned bytesReturned 0 else some []

end CaptureHPC.Driver
