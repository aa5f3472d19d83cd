import CaptureHPC.Lib.Program
import CaptureHPC.Lib.Zip
import CaptureHPC.Spec.Java

/-!
# The repair of zip files

`Zippa`, `LocalFileEntry`, `CentralDirectoryEntry` and `CentralDirectoryEndEntry`.

* An array has fewer than `2 ^ 31` bytes; `int` arithmetic is modulo `2 ^ 32` (`wrap`). The sums
  that move an offset are wrapped once.
* `Arrays.copyOfRange` computes its length `to - from` as an `int`, pads with zeros, and throws
  when `from` lies outside of the array.
* The recursion of `processZipFile` has fuel; running out of it is no exception. The size of the
  stack is not modelled.
* `files` are the files that were written, in order; the disk does not fail.
-/

namespace CaptureHPC

open Lib Zip

/-- An `int` from a sum. -/
def wrap (n : ℤ) : ℤ := n.bmod (2 ^ 32)

structure LocalFileEntry where
  ID : Vector UInt8 4
  version : Vector UInt8 2
  gpbf : Vector UInt8 2
  compMethod : Vector UInt8 2
  timestamp : Vector UInt8 4
  crc32 : Vector UInt8 4
  cfsize : Vector UInt8 4
  ucfsize : Vector UInt8 4
  fnamelen : Vector UInt8 2
  fxtrlen : Vector UInt8 2
  /-- The name has the length that the header declares. -/
  fname : Vector UInt8 (ofBytes fnamelen.toList)
  fxtr : Vector UInt8 (ofBytes fxtrlen.toList)
  myoffset : Int32

structure Zippa where
  lastOffset : ℤ := 0
  lfes : List LocalFileEntry := []
  files : List (String × Bytes) := []

abbrev ZippaM := EStateM Fault Zippa

def outOfBounds {α : Type} : ZippaM α := throw (.exception .arrayIndexOutOfBounds)

/-- `data[i]`. -/
def byteAt (data : Bytes) (i : ℤ) : Option UInt8 := if 0 ≤ i then data[i.toNat]? else none

/-- The loop of `readBytes`, with the number of rounds that are left. -/
def readLoop (data : Bytes) : ℕ → ℤ → ℕ → ℤ → ZippaM ℤ
  | 0, _, _, sum => pure sum
  | rounds + 1, i, shift, sum =>
    match byteAt data i with
    | none => outOfBounds
    | some b => readLoop data rounds (i + 1) (shift + 8) (wrap (sum + b.toNat * 2 ^ shift))

/-- `readBytes`. The loop does not run when `offset + count` is too large for an `int`. -/
def readBytes (data : Bytes) (offset : ℤ) (count : ℕ) : ZippaM ℤ :=
  readLoop data (wrap (offset + count) - offset).toNat offset 0 0

/-- `LocalFileEntry.readBytesAsVector`. -/
def readBytesAsVector (data : Bytes) (offset : ℤ) (count : ℕ) : ZippaM (Vector UInt8 count) :=
  if 0 ≤ offset ∧ offset ≤ data.length then
    pure (Vector.ofFn fun i => data.getD (offset.toNat + i) 0)
  else outOfBounds

/-- The constructor. The extra field is read from where the name is. -/
def LocalFileEntry.new (data : Bytes) (offset : ℤ) : ZippaM LocalFileEntry := do
  let ID ← readBytesAsVector data offset 4
  let version ← readBytesAsVector data (wrap (offset + 4)) 2
  let gpbf ← readBytesAsVector data (wrap (offset + 6)) 2
  let compMethod ← readBytesAsVector data (wrap (offset + 8)) 2
  let timestamp ← readBytesAsVector data (wrap (offset + 10)) 4
  let crc32 ← readBytesAsVector data (wrap (offset + 14)) 4
  let cfsize ← readBytesAsVector data (wrap (offset + 18)) 4
  let ucfsize ← readBytesAsVector data (wrap (offset + 22)) 4
  let fnamelen ← readBytesAsVector data (wrap (offset + 26)) 2
  let fxtrlen ← readBytesAsVector data (wrap (offset + 28)) 2
  let fname ← readBytesAsVector data (wrap (offset + 30)) (ofBytes fnamelen.toList)
  let fxtr ← readBytesAsVector data (wrap (offset + 30)) (ofBytes fxtrlen.toList)
  pure ⟨ID, version, gpbf, compMethod, timestamp, crc32, cfsize, ucfsize, fnamelen, fxtrlen, fname, fxtr,
    Int32.ofInt offset⟩

/-- The four bytes of an `int`, shifted and masked one by one. -/
def intBytes (n : Int32) : Bytes := toBytes 4 n.toUInt32.toNat

/-- What `repairZipFile` writes of a `CentralDirectoryEntry`. The extra field is left out. -/
def centralDirectoryEntry (lfe : LocalFileEntry) : Bytes :=
  centralSignature ++ ([0x14] ++ ([0] ++ ([0x14] ++ ([0] ++ (lfe.gpbf.toList ++ (lfe.compMethod.toList ++
    (lfe.timestamp.toList ++ (lfe.crc32.toList ++ (lfe.cfsize.toList ++ (lfe.ucfsize.toList ++
    (lfe.fnamelen.toList ++ (lfe.fxtrlen.toList ++ ([0, 0] ++ ([0, 0] ++ ([0, 0] ++ ([0, 0, 0, 0] ++
    (intBytes lfe.myoffset ++ lfe.fname.toList)))))))))))))))))

/-- The comment of a repaired archive. -/
def repairedComment : Bytes := "Repaired".toList.map Char.toUInt8

/-- What `repairZipFile` writes of a `CentralDirectoryEndEntry`. -/
def centralDirectoryEndEntry (direntries : ℕ) (dirsize diroffset : Int32) : Bytes :=
  endSignature ++ ([0, 0] ++ ([0, 0] ++ (toBytes 2 direntries ++ (toBytes 2 direntries ++
    (intBytes dirsize ++ (intBytes diroffset ++ ([8, 0] ++ repairedComment)))))))

/-- `cdelen`. -/
def directoryLength (lfes : List LocalFileEntry) : Int32 :=
  lfes.foldl (fun cdelen lfe => cdelen + Int32.ofNat (lfe.fname.toList.length + 46)) 0

/-- `Arrays.copyOfRange(data, 0, offset)`. -/
def copyPrefix (data : Bytes) (offset : ℕ) : Bytes :=
  data.take offset ++ List.replicate (offset - data.length) 0

/-- The content of the repaired file. -/
def repaired (data : Bytes) (offset : ℕ) (lfes : List LocalFileEntry) : Bytes :=
  copyPrefix data offset ++ (lfes.flatMap centralDirectoryEntry ++
    centralDirectoryEndEntry lfes.length (directoryLength lfes) (Int32.ofNat offset))

def repairZipFile (fname : String) (data : Bytes) (offset : ℤ) (lfes : List LocalFileEntry) : ZippaM Unit :=
  if offset < 0 then throw (.exception .illegalArgument)
  else modify fun z => { z with files := z.files ++ [(fname ++ "a", repaired data offset.toNat lfes)] }

/-- `repairZipFile` as `processZipFile` calls it. -/
def repairLast (arg : String) (data : Bytes) : ZippaM Unit := do
  let z ← get
  repairZipFile arg data z.lastOffset z.lfes

/-- The branch of `processZipFile` for a local entry. `process` is the recursive call. -/
def processLocal (arg : String) (data : Bytes) (process : ℤ → ZippaM Unit) (offset : ℤ) : ZippaM Unit := do
  if data.length < wrap (offset + 30) then repairLast arg data
  let _version ← readBytes data (wrap (offset + 4)) 2
  let _cmethod ← readBytes data (wrap (offset + 8)) 2
  let cfsize ← readBytes data (wrap (offset + 18)) 4
  let _ucfsize ← readBytes data (wrap (offset + 22)) 4
  let fnamelen ← readBytes data (wrap (offset + 26)) 2
  let fxtrlen ← readBytes data (wrap (offset + 28)) 2
  let z ← get
  let lfe ← LocalFileEntry.new data z.lastOffset
  modify fun z => { z with lfes := z.lfes ++ [lfe] }
  let next := wrap (offset + 30 + fnamelen + fxtrlen + cfsize)
  if next < data.length then process next
  else do
    modify fun z => { z with lfes := z.lfes.dropLast }
    repairLast arg data

/-- The branch for a record of the directory. -/
def processCentral (arg : String) (data : Bytes) (process : ℤ → ZippaM Unit) (offset : ℤ) : ZippaM Unit := do
  if data.length < wrap (offset + 30) then repairLast arg data
  let fnamelen ← readBytes data (wrap (offset + 28)) 2
  let fxtrlen ← readBytes data (wrap (offset + 30)) 2
  let fcmtlen ← readBytes data (wrap (offset + 32)) 2
  let next := wrap (offset + 46 + fnamelen + fxtrlen + fcmtlen)
  if next < data.length then process next

/-- The branch for the end of the directory. -/
def processEnd (arg : String) (data : Bytes) (offset : ℤ) : ZippaM Unit := do
  if data.length < wrap (offset + 20) then repairLast arg data
  let _fcmtlen ← readBytes data (wrap (offset + 20)) 2

def processZipFile (arg : String) (data : Bytes) : ℕ → ℤ → ZippaM Unit
  | 0, _ => throw .outOfFuel
  | fuel + 1, offset => do
    modify fun z => { z with lastOffset := offset }
    if wrap (offset + 4) ≤ data.length then
      let id ← readBytes data offset 4
      if id = 0x4034B50 then processLocal arg data (processZipFile arg data fuel) offset
      else if id = 0x02014B50 then processCentral arg data (processZipFile arg data fuel) offset
      else if id = 0x06054B50 then processEnd arg data offset

end CaptureHPC
