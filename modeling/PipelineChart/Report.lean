import PipelineChart.Failure

/-!
Reports: the problems of a run as they are shown, one by one. A rejected pipeline has a report for
each of its diagnostics, with its source; any other failure has one report.
-/

namespace PipelineChart

structure ReportLabel where
  offset : Nat
  length : Nat
  message : String
  isPrimary : Bool
  deriving DecidableEq

structure Report where
  message : String
  cause : Option String
  code : Option String
  severity : Severity
  help : Option String
  labels : List ReportLabel
  source : Option String
  deriving DecidableEq

def ReportLabel.ofLabel (label : Label) : ReportLabel :=
  ⟨label.span.start, label.span.length, label.message, label.isPrimary⟩

namespace Report

def ofDiagnostic (source : String) (diagnostic : Diagnostic) : Report where
  message := diagnostic.message
  cause := none
  code := diagnostic.code.map Code.text
  severity := diagnostic.severity
  help := diagnostic.help
  labels := diagnostic.labels.map ReportLabel.ofLabel
  source := some source

def ofDiagnostics (source : String) (diagnostics : List Diagnostic) : List Report :=
  diagnostics.map (ofDiagnostic source)

def plain (failure : Failure) (cause : Option String) (code : String) (help : Option String) :
    Report :=
  ⟨failure.message, cause, some code, .error, help, [], none⟩

def settingsHelp : String := "check the file passed with --config or stagegraph/config.toml"

def ofFailure (failure : Failure) : List Report :=
  match failure with
  | .rejected rejection source => ofDiagnostics source rejection.diagnostics
  | .file message => [plain failure (some message) "stagegraph::io" none]
  | .document fault => [plain failure (some fault.text) "stagegraph::export" none]
  | .settings _ => [plain failure none "stagegraph::config" (some settingsHelp)]

end Report

end PipelineChart
