import PipelineChart.Diagnostic.Basic

/-!
Collecting the diagnostics of one run. A strict collector takes every diagnostic as an error, and a
collection that holds an error fails with all its diagnostics.
-/

namespace PipelineChart

structure Rejection where
  diagnostics : List Diagnostic
  deriving DecidableEq

def Rejection.text (rejection : Rejection) : String :=
  match rejection.diagnostics with
  | [] => "pipeline could not be parsed"
  | [first] => first.text
  | [first, _] => first.text ++ " and 1 more problem"
  | first :: others => first.text ++ " and " ++ toString others.length ++ " more problems"

structure Collector where
  strict : Bool
  failed : Bool
  diagnostics : List Diagnostic

namespace Collector

def new (strict : Bool) : Collector := ⟨strict, false, []⟩

def emit (collector : Collector) (diagnostic : Diagnostic) : Collector :=
  let kept := if collector.strict then diagnostic.asError else diagnostic
  { collector with
    failed := collector.failed || kept.isError
    diagnostics := collector.diagnostics ++ [kept] }

def finish (collector : Collector) : Except Rejection (List Diagnostic) :=
  if collector.failed then .error ⟨collector.diagnostics⟩ else .ok collector.diagnostics

end Collector

end PipelineChart
