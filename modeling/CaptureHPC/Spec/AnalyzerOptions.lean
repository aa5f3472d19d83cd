import CaptureHPC.Spec.ClientXml

/-!
# Options and the analyzer

`OptionsManager`, the constructor of `Analyzer` and `Analyzer::onOptionChanged`. `networkPacketDumper` points to an
object that is made when packets are to be captured.

* When the analyzer connects, the options that are there are signalled in some order, which is an input.
* What the monitors do when they are called is left out.
-/

namespace CaptureHPC

open Cpp

inductive DumperPointer
  | null
  | object
  /-- To an object that is deleted. -/
  | dangling
  deriving DecidableEq

inductive MonitorCall
  | setMonitorModifiedFiles (enabled : Bool)
  | clearProcessExclusions
  | clearRegistryExclusions
  | clearFileExclusions
  deriving DecidableEq

/-- The options, and what the analyzer keeps of them. -/
structure Analyzer where
  optionsMap : WString → Option WString
  captureNetworkPackets : Bool := false
  networkPacketDumper : DumperPointer := .null
  collectModifiedFiles : Bool := false
  /-- The calls of the monitors. -/
  calls : List MonitorCall := []

inductive OptionChange
  | addOption (option value : WString)
  /-- `onOptionEvent`. -/
  | serverEvent (element : Cpp.Element)

namespace Analyzer

def isTrue : WString := lit "true"

def captureOption : WString := lit "capture-network-packets"

def maliciousOption : WString := lit "capture-network-packets-malicious"

def benignOption : WString := lit "capture-network-packets-benign"

def getOption (option : WString) (s : Analyzer) : WString := (s.optionsMap option).getD []

/-- The branch for a network option. -/
def networkOptionChanged (value : WString) (s : Analyzer) : Analyzer :=
  if value = isTrue then
    { s with
      networkPacketDumper := if s.networkPacketDumper = .null then .object else s.networkPacketDumper
      captureNetworkPackets := true }
  else if s.captureNetworkPackets = false ∧ s.getOption maliciousOption ≠ isTrue ∧
      s.getOption benignOption ≠ isTrue then
    { s with
      captureNetworkPackets := false
      networkPacketDumper := if s.networkPacketDumper = .null then .null else .dangling }
  else s

def onOptionChanged (option : WString) (s : Analyzer) : Analyzer :=
  let value := s.getOption option
  if option = maliciousOption ∨ option = benignOption ∨ option = captureOption then s.networkOptionChanged value
  else if option = lit "collect-modified-files" then
    { s with
      collectModifiedFiles := value = isTrue
      calls := s.calls ++ [.setMonitorModifiedFiles (value = isTrue)] }
  else if option = lit "send-exclusion-lists" then
    if value = isTrue then
      { s with calls := s.calls ++ [.clearProcessExclusions, .clearRegistryExclusions, .clearFileExclusions] }
    else s
  else s

/-- `insert`, or the value of the option is replaced. -/
def setOption (option value : WString) (s : Analyzer) : Analyzer :=
  { s with optionsMap := Function.update s.optionsMap option (some value) }

def addOption (option value : WString) (s : Analyzer) : Analyzer :=
  (s.setOption option value).onOptionChanged option

/-- The loop of `onOptionEvent` over the attributes. -/
def readAttribute (entry : WString × WString) : WString × WString → WString × WString
  | (name, value) =>
    if name = lit "name" then (value, entry.2) else if name = lit "value" then (entry.1, value) else entry

/-- The option that an element sets. -/
def optionOf : Cpp.Element → Option (WString × WString)
  | .mk name attributes _ _ =>
    if name = lit "option" then
      let (option, value) := attributes.foldl readAttribute ([], [])
      if option ≠ [] ∧ value ≠ [] then some (option, value) else none
    else none

/-- The option that is added, if any. -/
def entryOf : OptionChange → Option (WString × WString)
  | .addOption option value => some (option, value)
  | .serverEvent element => optionOf element

def change (s : Analyzer) (c : OptionChange) : Analyzer :=
  match entryOf c with
  | some (option, value) => s.addOption option value
  | none => s

/-- The constructor before it connects. -/
def beforeConnect (options : List (WString × WString)) : Analyzer :=
  let s : Analyzer := { optionsMap := fun option => options.lookup option }
  { s with captureNetworkPackets := s.getOption captureOption = isTrue }

/-- The constructor, with `connect_onOptionChanged`, which signals every option. -/
def create (options : List (WString × WString)) : Analyzer :=
  options.foldl (fun s entry => s.onOptionChanged entry.1) (beforeConnect options)

end Analyzer

end CaptureHPC
