import CaptureHPC.Spec.ClientXml

/-!
# The client's plugins

`Visitor::loadClientPlugins` and `createApplicationPluginObject`, for the libraries of the plugin directory in the
order in which they are found.

* A pointer to a plugin is given by the plugin with the number of its object, which no other plugin has.
* Every library exports `New`. What a plugin answers does not change.
-/

namespace CaptureHPC

open Cpp

/-- A plugin's object, and what `getPriority` and `getSupportedApplicationNames` answer. -/
structure ApplicationPlugin where
  object : ℕ
  priority : UInt32
  supportedApplicationNames : List WString
  deriving DecidableEq

/-- A file `plugins\Application_*.dll`. -/
inductive PluginFile
  /-- `LoadLibrary` fails. -/
  | broken
  /-- The handle, and what the plugin answers if `New` creates one. -/
  | library (hPlugin : ℕ) (new : Option (UInt32 × List WString))
  deriving DecidableEq

/-- The maps of a visitor. `created` counts the objects. -/
structure ClientPlugins where
  applicationPlugins : ℕ → Option (List ApplicationPlugin) := fun _ => none
  applicationMap : WString → Option ApplicationPlugin := fun _ => none
  created : ℕ := 0

namespace ClientPlugins

/-- `applicationPlugins.insert`, which keeps what is there. -/
def insertPlugin (hPlugin : ℕ) (s : ClientPlugins) : ClientPlugins :=
  { s with applicationPlugins :=
      Function.update s.applicationPlugins hPlugin (some ((s.applicationPlugins hPlugin).getD [])) }

/-- `createApplicationPluginObject`: the object is also put into the list of its library. -/
def createApplicationPluginObject (hPlugin : ℕ) (new : Option (UInt32 × List WString)) (s : ClientPlugins) :
    Option ApplicationPlugin × ClientPlugins :=
  match new with
  | none => (none, s)
  | some (priority, supportedApplicationNames) =>
    let applicationPlugin : ApplicationPlugin := ⟨s.created, priority, supportedApplicationNames⟩
    (some applicationPlugin,
      { s with
        applicationPlugins :=
          Function.update s.applicationPlugins hPlugin
            ((s.applicationPlugins hPlugin).map (· ++ [applicationPlugin]))
        created := s.created + 1 })

/-- The body of the loop over the supported applications. -/
def addApplication (applicationPlugin : ApplicationPlugin) (applicationMap : WString → Option ApplicationPlugin)
    (name : WString) : WString → Option ApplicationPlugin :=
  match applicationMap name with
  | some existing =>
    if applicationPlugin.priority > existing.priority then
      Function.update applicationMap name (some applicationPlugin)
    else applicationMap
  | none => Function.update applicationMap name (some applicationPlugin)

def addApplications (applicationPlugin : ApplicationPlugin) (s : ClientPlugins) : ClientPlugins :=
  { s with applicationMap :=
      applicationPlugin.supportedApplicationNames.foldl (addApplication applicationPlugin) s.applicationMap }

/-- The body of the loop over the files. -/
def loadPlugin (s : ClientPlugins) : PluginFile → ClientPlugins
  | .broken => s
  | .library hPlugin new =>
    match createApplicationPluginObject hPlugin new (s.insertPlugin hPlugin) with
    | (some applicationPlugin, s) => s.addApplications applicationPlugin
    | (none, s) => s

def loadClientPlugins (files : List PluginFile) : ClientPlugins := files.foldl loadPlugin {}

end ClientPlugins

end CaptureHPC
