/-!
Stages: a leaf runs its steps, a parallel stage holds branches that are stages themselves.
-/

namespace PipelineChart

inductive Stage where
  | leaf (name : String) (steps : List String)
  | parallel (name : String) (branches : List Stage)
  deriving BEq, Inhabited

namespace Stage

inductive Kind where
  | leaf
  | parallel
  deriving DecidableEq

def Kind.text : Kind → String
  | .leaf => "leaf"
  | .parallel => "parallel"

def name : Stage → String
  | .leaf name _ => name
  | .parallel name _ => name

def kind : Stage → Kind
  | .leaf _ _ => .leaf
  | .parallel _ _ => .parallel

def isParallel (stage : Stage) : Bool := stage.kind == .parallel

def steps : Stage → List String
  | .leaf _ steps => steps
  | .parallel _ _ => []

def branches : Stage → List Stage
  | .leaf _ _ => []
  | .parallel _ branches => branches

end Stage

end PipelineChart
