import PipelineChart.Chart.Graph
import PipelineChart.Stage.Basic

/-!
Placing stages. The stages of a row stand one pitch apart; the branches of a parallel stage begin at
one x, each below the branch before it, and the row goes on to the right of the widest. A leaf is
entered from every node that its row has pending. A name is placed once: a stage whose name was met
before is passed over with all that is below it, and hands on what was pending.
-/

namespace PipelineChart

/-- What has been placed so far; `pending` are the ids that the next node is entered from, and `met`
the names of all stages seen, wherever they stand. -/
structure Placement (α : Type) where
  nodes : List (Node α)
  edges : List Edge
  nextX : α
  pending : List String
  minY : α
  maxY : α
  met : List String

namespace Placement

variable {α : Type}

def empty (start : Point α) (pending met : List String) : Placement α :=
  ⟨[], [], start.x, pending, start.y, start.y, met⟩

def chart (placement : Placement α) : Chart α :=
  ⟨placement.nodes, placement.edges, placement.nextX, placement.minY, placement.maxY⟩

variable [Min α] [Max α]

def block (row stack : Placement α) : Placement α where
  nodes := row.nodes ++ stack.nodes
  edges := row.edges ++ stack.edges
  nextX := stack.nextX
  pending := stack.pending
  minY := min row.minY stack.minY
  maxY := max row.maxY stack.maxY
  met := stack.met

def beside (stack branch : Placement α) : Placement α where
  nodes := stack.nodes ++ branch.nodes
  edges := stack.edges ++ branch.edges
  nextX := max stack.nextX branch.nextX
  pending := stack.pending ++ branch.pending
  minY := min stack.minY branch.minY
  maxY := max stack.maxY branch.maxY
  met := branch.met

variable [Add α]

def leaf (metrics : Metrics α) (y : α) (row : Placement α) (name : String) (steps : List String) :
    Placement α where
  nodes := row.nodes ++ [⟨name, steps, ⟨row.nextX, y⟩⟩]
  edges := row.edges ++ row.pending.map fun source => ⟨source, nodeId name⟩
  nextX := row.nextX + metrics.pitch
  pending := [nodeId name]
  minY := min row.minY y
  maxY := max row.maxY (y + metrics.nodeHeight)
  met := name :: row.met

mutual

/-- Puts a stage at the end of the row that stands at `y`. -/
def extend (metrics : Metrics α) (y : α) (row : Placement α) : Stage → Placement α
  | .leaf name steps => if name ∈ row.met then row else row.leaf metrics y name steps
  | .parallel name branches =>
      if name ∈ row.met then row
      else
        row.block (stack metrics row.nextX row.pending y
          (empty ⟨row.nextX, y⟩ [] (name :: row.met)) branches)

/-- Puts branches below those of `above`; the first of them begins at `x` and `y`. -/
def stack (metrics : Metrics α) (x : α) (pending : List String) (y : α) (above : Placement α) :
    List Stage → Placement α
  | [] => above
  | branch :: branches =>
      let placed := extend metrics y (empty ⟨x, y⟩ pending above.met) branch
      stack metrics x pending (placed.maxY + metrics.verticalSpacing) (above.beside placed) branches

end

def row (metrics : Metrics α) (origin : Point α) (stages : List Stage) : Placement α :=
  stages.foldl (extend metrics origin.y) (empty origin [] [])

end Placement

def Chart.ofStages {α : Type} [Add α] [Min α] [Max α] (metrics : Metrics α) (origin : Point α)
    (stages : List Stage) : Chart α := (Placement.row metrics origin stages).chart

end PipelineChart
