import CaptureHPC.Spec.LogDirectory

/-!
# The directories for a deleted file

`CreateAllDirectories` of the file driver, which creates the directories above a copy in the log directory.

* `allocates` says which allocations succeed, the first of which is that of `totalDirectory`.
* What `CreateADirectory` does is given by the path that it gets.
-/

namespace CaptureHPC.Driver

open Cpp

/-- A string as the string functions of the kernel take it. -/
structure ValidString extends UnicodeString where
  even : maximumLength.toNat % 2 = 0
  fits : 2 * text.length ≤ maximumLength.toNat

structure DirectoryScan where
  totalDirectory : UnicodeString
  prevDirPosition : ℕ := 0
  created : List WString := []
  deriving DecidableEq

namespace DirectoryScan

/-- A backslash that is not the first character. -/
def isSeparator (pDirectory : UnicodeString) (i : ℕ) : Bool := i ≠ 0 ∧ pDirectory.text[i]? = some backslash

/-- `totalDirectory` with the root. Its `MaximumLength` is a `USHORT`. -/
def start (pRootDirectory pDirectory : UnicodeString) : DirectoryScan :=
  let totalDirectory : UnicodeString :=
    { maximumLength := pRootDirectory.maximumLength + pDirectory.maximumLength + 2 }
  { totalDirectory := totalDirectory.cat pRootDirectory.text }

/-- At a separator: the part behind the last one is copied and appended as a string that ends with a zero. -/
def enter (pDirectory : UnicodeString) (i : ℕ) (s : DirectoryScan) : DirectoryScan :=
  let size := i - s.prevDirPosition
  let dir := (pDirectory.text.drop s.prevDirPosition).take size
  let totalDirectory := s.totalDirectory.cat (cString dir)
  { totalDirectory := totalDirectory, prevDirPosition := i, created := s.created ++ [totalDirectory.text] }

/-- The loop, which ends where an allocation fails. -/
def scan (allocates : ℕ → Bool) (pDirectory : UnicodeString) : List ℕ → DirectoryScan → DirectoryScan
  | [], s => s
  | i :: is, s =>
    if isSeparator pDirectory i then
      if allocates (s.created.length + 1) then scan allocates pDirectory is (s.enter pDirectory i) else s
    else scan allocates pDirectory is s

end DirectoryScan

/-- The paths that are created, in order. -/
def createAllDirectories (allocates : ℕ → Bool) (pRootDirectory pDirectory : UnicodeString) : List WString :=
  if allocates 0 then
    (DirectoryScan.scan allocates pDirectory (List.range pDirectory.text.length)
      (.start pRootDirectory pDirectory)).created
  else []

end CaptureHPC.Driver
