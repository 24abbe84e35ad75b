import PipelineChart.Builder
import PipelineChart.CommandLine.Arguments
import PipelineChart.CommandLine.Help
import PipelineChart.Report
import PipelineChart.Settings.Load

/-!
A run of the command line, on any disk. Nothing is written before everything else has succeeded.
-/

namespace PipelineChart

structure Outcome where
  status : Nat
  output : String
  notice : Option String
  reports : List Report

namespace Arguments

variable {m : Type → Type} [Monad m] [Disk m]

def settings (arguments : Arguments) (loaded : Settings) : Settings :=
  if arguments.strict then { loaded with options := { loaded.options with strict := true } }
  else loaded

def style (arguments : Arguments) : Json.Style :=
  if arguments.pretty then .indented else .compact

def document (arguments : Arguments) (settings : Settings) (source : String) :
    Except Failure (String × List Report) := do
  let parsed ← settings.parse source
  let chart ← settings.chart parsed.stages
  let document ← settings.render chart arguments.format arguments.style
  return (document, Report.ofDiagnostics source parsed.diagnostics)

def run (system : Option String) (arguments : Arguments) : ExceptT Failure m (List Report) := do
  let loaded ← Settings.load system arguments.config
  let source ← Settings.readText arguments.input
  let (document, reports) ← ExceptT.mk (pure (arguments.document (arguments.settings loaded) source))
  match ← (Disk.write arguments.output document : m _) with
  | .ok () => return reports
  | .error fault => throw (.file fault.message)

end Arguments

namespace Refusal

/-- Help and version are shown and are no failure. -/
def outcome : Refusal → Outcome
  | .help true => ⟨0, Help.long, none, []⟩
  | .help false => ⟨0, Help.short, none, []⟩
  | .version => ⟨0, Help.version, none, []⟩
  | _ => ⟨2, "", none, []⟩

end Refusal

/-- A whole call: 0 is success, 1 a failed run, 2 a command line that was refused. -/
def execute {m : Type → Type} [Monad m] [Disk m] (system : Option String) (words : List String) :
    m Outcome := do
  match Arguments.parse words with
  | .error refusal => return refusal.outcome
  | .ok arguments =>
      match ← (Arguments.run system arguments).run with
      | .ok reports => return ⟨0, "", arguments.notice, reports⟩
      | .error failure => return ⟨1, "", arguments.notice, Report.ofFailure failure⟩

end PipelineChart
