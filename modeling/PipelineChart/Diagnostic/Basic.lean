import PipelineChart.Source.Span

/-!
Diagnostics: a message with a severity, a code, labelled ranges of the source and a hint.
-/

namespace PipelineChart

inductive Severity where
  | warning
  | error
  deriving DecidableEq

def Severity.text : Severity → String
  | .warning => "warning"
  | .error => "error"

/-- Codes below 100 concern the pipeline, those from 100 on a stage. -/
inductive Code where
  | missingPipeline
  | unterminatedPipeline
  | unterminatedStage
  | missingSteps
  | tooDeep
  deriving DecidableEq

namespace Code

def all : List Code :=
  [.missingPipeline, .unterminatedPipeline, .unterminatedStage, .missingSteps, .tooDeep]

def text : Code → String
  | .missingPipeline => "E001"
  | .unterminatedPipeline => "E002"
  | .unterminatedStage => "E100"
  | .missingSteps => "E101"
  | .tooDeep => "E102"

def description : Code → String
  | .missingPipeline => "pipeline block not found"
  | .unterminatedPipeline => "unterminated pipeline block"
  | .unterminatedStage => "unterminated stage block"
  | .missingSteps => "missing steps block"
  | .tooDeep => "parallel nesting too deep"

def ofText? (text : String) : Option Code := all.find? fun code => code.text == text

end Code

structure Label where
  span : Span
  message : String
  isPrimary : Bool
  deriving DecidableEq

structure Diagnostic where
  severity : Severity
  code : Option Code
  message : String
  labels : List Label
  help : Option String
  deriving DecidableEq

namespace Diagnostic

def new (severity : Severity) (message : String) : Diagnostic := ⟨severity, none, message, [], none⟩

def withCode (code : Code) (diagnostic : Diagnostic) : Diagnostic :=
  { diagnostic with code := some code }

def withLabel (span : Span) (message : String) (diagnostic : Diagnostic) : Diagnostic :=
  { diagnostic with labels := diagnostic.labels ++ [⟨span, message, true⟩] }

def withSecondaryLabel (span : Span) (message : String) (diagnostic : Diagnostic) : Diagnostic :=
  { diagnostic with labels := diagnostic.labels ++ [⟨span, message, false⟩] }

def withHelp (help : String) (diagnostic : Diagnostic) : Diagnostic :=
  { diagnostic with help := some help }

def asError (diagnostic : Diagnostic) : Diagnostic := { diagnostic with severity := .error }

def isError (diagnostic : Diagnostic) : Bool := diagnostic.severity == .error

def text (diagnostic : Diagnostic) : String :=
  let code := match diagnostic.code with
    | some code => "[" ++ code.text ++ "]"
    | none => ""
  diagnostic.severity.text ++ code ++ ": " ++ diagnostic.message

end Diagnostic

end PipelineChart
