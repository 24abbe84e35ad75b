/-!
Byte ranges of a source.
-/

namespace PipelineChart

structure Span where
  start : Nat
  stop : Nat
  ordered : start ≤ stop
  deriving DecidableEq

namespace Span

/-- An end before the start is raised to the start. -/
def ofBounds (start stop : Nat) : Span := ⟨start, max start stop, Nat.le_max_left start stop⟩

def length (span : Span) : Nat := span.stop - span.start

def isEmpty (span : Span) : Bool := span.start == span.stop

def text (span : Span) : String := toString span.start ++ ".." ++ toString span.stop

end Span

end PipelineChart
