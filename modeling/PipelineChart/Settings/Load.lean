import PipelineChart.CommandLine.Disk
import PipelineChart.Failure
import PipelineChart.Settings.Decode
import PipelineChart.Toml.Reader

/-!
Loading settings from a file. A path that was given is the only candidate; else the file of the
directory, else that of the system, each only if it is there. What the first candidate holds decides,
be it malformed or not.
-/

namespace PipelineChart

inductive LoadFault where
  | missing (path : String)
  | malformed
  | unfit (fault : DecodeFault)
  | invalid (fault : SettingsFault)

def LoadFault.message : LoadFault → String
  | .missing path => "Missing configuration file: " ++ path
  | .malformed => "Failed to parse TOML configuration: malformed document"
  | .unfit fault => "Failed to parse TOML configuration: " ++ fault.message
  | .invalid fault => "Validation error: " ++ fault.message

def LoadFault.failure (fault : LoadFault) : Failure := .settings fault.message

namespace Settings

def ofToml (text : String) : Except LoadFault Settings :=
  match Toml.parse? text with
  | none => .error .malformed
  | some datum =>
      match decode false datum with
      | .ok settings => .ok settings
      | .error fault => .error (.unfit fault)

def ofFile (text : String) : Except LoadFault Settings :=
  match ofToml text with
  | .error fault => .error fault
  | .ok settings =>
      match settings.check with
      | .ok () => .ok settings
      | .error fault => .error (.invalid fault)

def localPath : String := "stagegraph/config.toml"

variable {m : Type → Type} [Monad m] [Disk m]

def readText (path : String) : ExceptT Failure m String := do
  match ← (Disk.read path : m _) with
  | .ok text => return text
  | .error fault => throw (.file fault.message)

def loadFrom (path : String) : ExceptT Failure m Settings := do
  if ← (Disk.isPresent path : m Bool) then
    match ofFile (← readText path) with
    | .ok settings => return settings
    | .error fault => throw fault.failure
  else throw (LoadFault.missing path).failure

/-- `given` is a path that was asked for, and `system` that of the file of the system. -/
def load (system given : Option String) : ExceptT Failure m Settings := do
  match given with
  | some path => loadFrom path
  | none =>
      if ← (Disk.isPresent localPath : m Bool) then loadFrom localPath
      else
        match system with
        | none => return default
        | some path =>
            if ← (Disk.isPresent path : m Bool) then loadFrom path else return default

end Settings

end PipelineChart
