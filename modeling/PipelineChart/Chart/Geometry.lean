/-!
Points and sizes of a chart. The x axis runs to the right and the y axis down. Coordinates are of any
type: charts are drawn in single precision, and reasoned about with exact numbers.
-/

namespace PipelineChart

structure Point (α : Type) where
  x : α
  y : α
  deriving DecidableEq

structure Metrics (α : Type) where
  nodeWidth : α
  nodeHeight : α
  horizontalSpacing : α
  verticalSpacing : α
  deriving DecidableEq

def Point.origin {α : Type} [Zero α] : Point α := ⟨0, 0⟩

def Metrics.pitch {α : Type} [Add α] (metrics : Metrics α) : α :=
  metrics.nodeWidth + metrics.horizontalSpacing

end PipelineChart
