import PipelineChart.Diagnostic.Collector
import PipelineChart.Json.Fault

/-!
What a run can fail with.
-/

namespace PipelineChart

inductive Failure where
  | file (message : String)
  | rejected (rejection : Rejection) (source : String)
  | settings (message : String)
  | document (fault : Json.Fault)
  deriving DecidableEq

def Failure.message : Failure → String
  | .file message => "I/O error: " ++ message
  | .rejected rejection _ => rejection.text
  | .settings message => "Configuration error: " ++ message
  | .document fault => "Export error: " ++ fault.text

end PipelineChart
