import CaptureHPC.Lib.Program
import CaptureHPC.Spec.UrlQueue

/-!
# The intake of URLs

`ServerController` reads lines from a socket, and `Preprocessor.readInputUrlsFromFile` from a file; both hand
texts to the `UrlsController`, in threads that end with an exception.

* A preprocessor is given by the texts it passes to `addUrlToCaptureQueue` for a line.
* Reloading the exclusion lists is left out: it catches what it throws and touches no URL.
-/

namespace CaptureHPC

open Lib

/-- What is written to the log about a text. -/
inductive IntakeLog
  | queued (url : PriorityUrl)
  | duplicate (url : PriorityUrl)
  | invalid (text : String)
  deriving DecidableEq

structure Intake where
  urlQueue : List PriorityUrl := []
  log : List IntakeLog := []
  deriving DecidableEq

/-- Why a thread stops reading lines. -/
inductive Ending
  | thrown (e : UrlException)
  | exit
  | endOfUrls
  deriving DecidableEq

namespace Intake

/-- `UrlsController.addUrl`. -/
def addUrl (url : PriorityUrl) (s : Intake) : Intake :=
  if UrlQueue.inUrlQueue url s.urlQueue then { s with log := s.log ++ [.duplicate url] }
  else { urlQueue := UrlQueue.addUrl url s.urlQueue, log := s.log ++ [.queued url] }

def addInvalid (text : String) (s : Intake) : Intake := { s with log := s.log ++ [.invalid text] }

variable (validUri : String → Bool) (options : UrlOptions)

/-- `UrlsController.addUrlEvent`, which catches a `URISyntaxException`. -/
def addUrlEvent (url id : String) : EStateM Ending Intake PUnit :=
  match UrlFactory.getUrl validUri options url id with
  | .ok u => modify (addUrl u)
  | .error .uriSyntax => modify (addInvalid url)
  | .error e => throw (.thrown e)

end Intake

namespace ServerController

/-- `addurl <url>` or `addurl <url> <id>`: the URL and the id, if `parse` adds any. -/
def urlOf (mesg : String) : Option (String × String) :=
  match mesg.toList.idxOf? ' ' with
  | none => none
  | some pos =>
    let rest := mesg.toList.drop (pos + 1)
    -- the last blank, which may be the first one
    let last := mesg.length - 1 - mesg.toList.reverse.idxOf ' '
    let url := if pos < last then rest.take (last - (pos + 1)) else rest
    let id := if pos < last then mesg.toList.drop (last + 1) else ['-', '1']
    if mesg.toList.take pos = "addurl".toList ∧ url ≠ [] then some (String.ofList url, String.ofList id) else none

/-- `parse`. -/
def parse (validUri : String → Bool) (options : UrlOptions) (mesg : String) : EStateM Ending Intake PUnit :=
  match urlOf mesg with
  | some (url, id) => Intake.addUrlEvent validUri options url id
  | none => if mesg = "exit" then throw .exit else pure ⟨⟩

example : urlOf "addurl http://a/ 7" = some ("http://a/", "7") := by decide
example : urlOf "addurl http://a/" = some ("http://a/", "-1") := by decide
example : urlOf "addurl  7" = none := by decide

end ServerController

namespace Preprocessor

/-- `addUrlToCaptureQueue`, which does not use the id it is given. -/
def addUrlToCaptureQueue (validUri : String → Bool) (options : UrlOptions) (url : String) : EStateM Ending Intake PUnit :=
  Intake.addUrlEvent validUri options url "-1"

/-- A round of the loop of `readInputUrlsFromFile`. -/
def readInputUrl (validUri : String → Bool) (options : UrlOptions) (preprocess : String → List String) (line : String) :
    EStateM Ending Intake PUnit :=
  let text := String.ofList (TextHandler.trim line.toList)
  if line = "" then pure ⟨⟩
  else if equalsIgnoreCase text "end" then throw .endOfUrls
  else if ['#'] <+: text.toList then pure ⟨⟩
  else forM (preprocess text) (addUrlToCaptureQueue validUri options)

end Preprocessor

/-- Where the lines come from. -/
inductive Source
  | socket
  | file (preprocess : String → List String)

/-- What a thread reads, and what other threads do with the queue in between. -/
inductive IntakeEvent
  | line (text : String)
  | elsewhere (call : UrlQueue.Call)

/-- The state while a thread reads lines. -/
structure Reading where
  intake : Intake := {}
  ending : Option Ending := none

namespace Source

variable (validUri : String → Bool) (options : UrlOptions)

def read : Source → String → EStateM Ending Intake PUnit
  | .socket => ServerController.parse validUri options
  | .file preprocess => Preprocessor.readInputUrl validUri options preprocess

def step (source : Source) (r : Reading) : IntakeEvent → Reading
  | .line text =>
    if r.ending = none then
      match (source.read validUri options text).run r.intake with
      | .ok _ s => { intake := s }
      | .error e s => { intake := s, ending := some e }
    else r
  | .elsewhere call => { r with intake := { r.intake with urlQueue := UrlQueue.step r.intake.urlQueue call } }

def run (source : Source) (r : Reading) (events : List IntakeEvent) : Reading :=
  events.foldl (source.step validUri options) r

end Source

end CaptureHPC
