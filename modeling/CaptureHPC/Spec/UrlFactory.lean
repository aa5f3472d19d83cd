import CaptureHPC.Spec.JavaText
import CaptureHPC.Spec.Urls

/-!
# The URL factory

`UrlFactory.getUrl` makes a `Url` of a line `url::client::time::score` with optional fields.

* Which texts `java.net.URI` accepts is a parameter.
* `PriorityUrl` is a `Url` with its priority.
-/

namespace CaptureHPC

open Lib

structure PriorityUrl extends Url where
  priority : Binary64
  deriving DecidableEq

/-- What the constructor of `Url` and its callers throw. -/
inductive UrlException
  | uriSyntax
  | numberFormat
  | nullPointer
  deriving DecidableEq, Repr

/-- The options of `ConfigManager` that a URL takes its defaults from. -/
structure UrlOptions where
  clientDefault : String
  clientDefaultVisitTime : Option String

namespace UrlFactory

/-- A `catch (NumberFormatException)`. -/
def catchNumberFormat {α : Type} (x handler : Except UrlException α) : Except UrlException α :=
  match x with
  | .error .numberFormat => handler
  | _ => x

variable (validUri : String → Bool) (options : UrlOptions)

/-- The constructor of `Url`. -/
def newUrl (u cProgram : Option String) (vTime : Int32) (priority : Binary64) (id : ℤ) : Except UrlException PriorityUrl :=
  match u with
  | none => .error .nullPointer
  | some u =>
    if validUri u then
      let clientProgram := if cProgram = none ∨ cProgram = some "" then options.clientDefault else cProgram.getD ""
      .ok { url := u, clientProgram := clientProgram, visitTime := vTime, priority := priority, id := id }
    else .error .uriSyntax

/-- `new Url` with arguments that are read from texts; `none` is a `NumberFormatException`. -/
def parseUrl (u cProgram : Option String) (vTime : Option Int32) (priority : Option Binary64) (id : Option ℤ) :
    Except UrlException PriorityUrl :=
  match vTime, priority, id with
  | some vTime, some priority, some id => newUrl validUri options u cProgram vTime priority id
  | _, _, _ => .error .numberFormat

def defaultPriority : Binary64 := .finite false 0

def splitTokenizedUrl (tokenizedUrl : String) : List String :=
  (splitText [':', ':'] tokenizedUrl.toList).map String.ofList

/-- `getUrl` when the visit time of the options is read. -/
def getUrlFrom (visitTime : Int32) (splitUrl : List String) (id : Option ℤ) : Except UrlException PriorityUrl :=
  match splitUrl with
  | [url] => parseUrl validUri options url none visitTime defaultPriority id
  | [url, field] =>
    -- <url>::<visit time>, <url>::<suspicionScore> or <url>::<client>
    catchNumberFormat (parseUrl validUri options url none (parseInt field) defaultPriority id)
      (catchNumberFormat (parseUrl validUri options url none visitTime (parseDouble field) id)
        (parseUrl validUri options url field visitTime defaultPriority id))
  | [url, client, field] =>
    -- <url>::<client>::<visit time>, <url>::<client>::<suspiconScore> or <url>::<visitTime>::<suspiconScore>
    catchNumberFormat (parseUrl validUri options url client (parseInt field) defaultPriority id)
      (catchNumberFormat (parseUrl validUri options url client visitTime (parseDouble field) id)
        (parseUrl validUri options url none (parseInt client) (parseDouble field) id))
  | [url, client, time, score] => parseUrl validUri options url client (parseInt time) (parseDouble score) id
  | _ => parseUrl validUri options none none visitTime defaultPriority id

def getUrl (tokenizedUrl : String) (id : Option String) : Except UrlException PriorityUrl :=
  match parseInt options.clientDefaultVisitTime with
  | none => .error .numberFormat
  | some visitTime => getUrlFrom validUri options visitTime (splitTokenizedUrl tokenizedUrl) (parseLong id)

end UrlFactory

end CaptureHPC
