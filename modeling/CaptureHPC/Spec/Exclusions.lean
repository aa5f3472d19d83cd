import CaptureHPC.Lib.NodeList
import CaptureHPC.Spec.WideText

/-!
# Exclusions

`Permission`, and the exclusions of a `Monitor`.

* Regular expressions are a parameter: which patterns `boost::wregex` accepts (`valid`), and which texts the
  expression of a pattern matches as a whole, ignoring case (`regexMatch`). So is `towlower`.
* A permission that is neither of `yes`, `+`, `no` and `-` leaves `allow` as it was in memory (`junk`).
* Each rule is in one list once, so that `remove(p)` erases the node of `p`.
* The loops of `prepareStringForExclusion` have fuel, and no result when it is used up.
-/

namespace CaptureHPC

open Lib Cpp

structure Permission where
  subjects : List WString
  objects : List WString
  allow : Bool
  permaneant : Bool
  deriving DecidableEq

inductive PermissionClassification
  | noMatch | allowed | disallowed
  deriving DecidableEq, Repr

/-- `permissionMap`: the rules for each type of event. -/
abbrev PermissionMap := List (WString × NodeList Permission)

variable (regexMatch : WString → WString → Bool) (valid : WString → Bool) (towlower : WChar → WChar) (junk : Bool)

/-- `Check`. -/
def Permission.check (p : Permission) (subject object : WString) : PermissionClassification :=
  if p.subjects.any (regexMatch · subject) then
    if p.objects.any (regexMatch · object) then
      if p.allow then .allowed else .disallowed
    else .noMatch
  else .noMatch

namespace Monitor

/-- The loop of `isEventAllowed`. -/
def combine (excluded newExcluded : PermissionClassification) : PermissionClassification :=
  match newExcluded with
  | .allowed => if excluded ≠ .disallowed then .allowed else excluded
  | .disallowed => .disallowed
  | .noMatch => excluded

def isEventAllowed (permissionMap : PermissionMap) (eventType subject object : WString) : Bool :=
  match permissionMap.lookup (eventType.map towlower) with
  | none => false
  | some l =>
    l.values.foldl (fun excluded (p : Permission) => combine excluded (p.check regexMatch subject object)) .noMatch =
      .allowed

/-- A rule is put behind those of its type. -/
def insert (action : WString) (p : Permission) : PermissionMap → PermissionMap
  | [] => [(action, NodeList.empty.pushBack p)]
  | (type, l) :: m => if type = action then (type, l.pushBack p) :: m else (type, l) :: insert action p m

/-- A loop of `prepareStringForExclusion`: behind `offset`, every `c` is replaced. -/
def replaceAll (c : WChar) (replacement : WString) : ℕ → WString → ℤ → Option WString
  | 0, _, _ => none
  | fuel + 1, s, offset =>
    let offset := find s c offset
    if offset ≠ npos then
      replaceAll c replacement fuel (replace s offset.toNat 1 replacement) (offset + replacement.length)
    else some s

def prepareStringForExclusion (s : WString) : Option WString := do
  let s ← replaceAll backslash (lit "\\\\") (s.length + 1) s 0
  replaceAll dot (lit "\\.") (s.length + 1) s 0

/-- `p->allow`. -/
def allowOf (excluded : WString) : Bool :=
  if excluded = lit "yes" ∨ excluded = lit "+" then true
  else if excluded = lit "no" ∨ excluded = lit "-" then false
  else junk

/-- `addExclusion`; no result when it throws a `regex_error`. -/
def addExclusion (excluded action subject object : WString) (permaneant : Bool) (permissionMap : PermissionMap) :
    Option PermissionMap :=
  if valid subject && valid object then
    let p := { subjects := [subject], objects := [object], allow := allowOf junk excluded, permaneant := permaneant }
    some (insert (action.map towlower) p permissionMap)
  else none

/-- The body of the loop of `clearExclusionList` over the rules of a type. -/
def clearRule (l : NodeList Permission) (lit : ℕ) (p : Permission) : NodeList Permission :=
  if !p.permaneant then l.erase lit else l

/-- `clearExclusionList`. -/
def clearExclusionList (permissionMap : PermissionMap) : Except NodeList.Fault PermissionMap :=
  permissionMap.mapM fun (type, l) => do
    let l ← NodeList.iterate clearRule (l.nodes.length + 1) l.first l
    pure (type, l)

end Monitor

end CaptureHPC
