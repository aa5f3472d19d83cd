import CaptureHPC.Spec.Client
import CaptureHPC.Spec.JavaText

/-!
# The server's exclusion lists

`ExclusionList`, the event `exclusion-list` that `ClientsController.update` handles, and the command `reload` of
`ServerController`. What is logged is left out.

* The file system is an input: what is found under each name.
-/

namespace CaptureHPC

/-- What `FileInputStream` and the reader of its text find. -/
inductive ExclusionFile
  | notFound
  /-- A text. `fails`: behind it comes an `IOException`. -/
  | text (content : List Char) (fails : Bool)
  deriving DecidableEq

structure ExclusionList where
  monitor : String
  file : String
  exclusionElements : List Element := []

/-- What `readLine` returns until null or an exception, behind a part of a line: a line ends with `\n`, `\r` or
both, and the last one may be without an end. -/
def readLines (fails : Bool) : List Char → List Char → List (List Char)
  | line, [] => if fails ∨ line = [] then [] else [line]
  | line, '\r' :: '\n' :: chars => line :: readLines fails [] chars
  | line, c :: chars =>
    if c = '\n' ∨ c = '\r' then line :: readLines fails [] chars else readLines fails (line ++ [c]) chars

namespace ExclusionList

/-- The element of a line, if the line is not empty, no comment, and has four fields. -/
def exclusionOf (monitor : String) (line : List Char) : Option Element :=
  if line.length > 0 ∧ ¬['#'] <+: line then
    match (splitText ['\t'] line).map String.ofList with
    | [excluded, action, subject, object] =>
      let attributes := [("excluded", excluded), ("action", action), ("subject", subject), ("object", object)]
      some (.mk (monitor ++ "-exclusion") attributes [])
    | _ => none
  else none

/-- The body of the loop of `parseExclusionList`. -/
def parseLine (l : ExclusionList) (line : List Char) : ExclusionList :=
  match exclusionOf l.monitor line with
  | some e => { l with exclusionElements := l.exclusionElements ++ [e] }
  | none => l

def parseExclusionList (files : String → ExclusionFile) (l : ExclusionList) : Bool × ExclusionList :=
  match files l.file with
  | .notFound => (false, l)
  | .text content fails => (!fails, (readLines fails [] content).foldl parseLine l)

end ExclusionList

/-- `exclusionLists`, a list for each monitor. -/
abbrev ExclusionLists := String → Option ExclusionList

/-- `ClientsController.update`. -/
def ClientsController.update (files : String → ExclusionFile) (event : Element) (exclusionLists : ExclusionLists) :
    ExclusionLists :=
  if event.name = "exclusion-list" ∧ (event.get "add-list").isSome then
    match event.get "monitor", event.get "file" with
    | some monitor, some file =>
      match ExclusionList.parseExclusionList files { monitor, file } with
      | (true, ex) => Function.update exclusionLists monitor (some ex)
      | (false, _) => exclusionLists
    | _, _ => exclusionLists
  else exclusionLists

namespace ServerController

def reloadList (files : String → ExclusionFile) (monitor filename : String) (exclusionLists : ExclusionLists) :
    ExclusionLists :=
  match ExclusionList.parseExclusionList files { monitor, file := filename } with
  | (true, ex) => Function.update exclusionLists monitor (some ex)
  | (false, _) => exclusionLists

/-- The monitors whose lists are reloaded, with their files. -/
def reloadedLists : List (String × String) :=
  [("file", "FileMonitor.exl"), ("process", "ProcessMonitor.exl"), ("registry", "RegistryMonitor.exl")]

/-- `exclusionLists.clear()`. -/
def clear (_ : ExclusionLists) : ExclusionLists := fun _ => none

/-- The previous entries are cleared, and the lists are read one after the other. -/
def reload (files : String → ExclusionFile) (exclusionLists : ExclusionLists) : ExclusionLists :=
  reloadedLists.foldl (fun lists entry => reloadList files entry.1 entry.2 lists) (clear exclusionLists)

/-- What `parse` does with the lists. -/
def parseReload (files : String → ExclusionFile) (mesg : String) (exclusionLists : ExclusionLists) : ExclusionLists :=
  if ' ' ∉ mesg.toList ∧ mesg = "reload" then reload files exclusionLists else exclusionLists

end ServerController

end CaptureHPC
