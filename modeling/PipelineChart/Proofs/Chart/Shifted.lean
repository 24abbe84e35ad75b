import Mathlib.Algebra.Order.Field.Rat
import Mathlib.Algebra.Order.Group.MinMax
import PipelineChart.Proofs.Chart.Carried

/-!
Charts of one list of stages at different origins. In exact numbers a shift keeps sums with the metrics, and of
two numbers the smaller one stays the smaller one. So a shift of the origin carries every placement along, its
empty branches and its bounds included.
-/

namespace PipelineChart

def Point.shift (offset point : Point ℚ) : Point ℚ := ⟨offset.x + point.x, offset.y + point.y⟩

def Node.shift (offset : Point ℚ) (node : Node ℚ) : Node ℚ :=
  ⟨node.name, node.steps, offset.shift node.position⟩

theorem Metrics.carried_shift (offset : Point ℚ) (metrics : Metrics ℚ) :
    metrics.Carried (offset.x + ·) (offset.y + ·) metrics where
  pitch x := (add_assoc offset.x x metrics.pitch).symm
  furthest first second := (max_add_add_left offset.x first second).symm
  nodeHeight y := (add_assoc offset.y y metrics.nodeHeight).symm
  verticalSpacing y := (add_assoc offset.y y metrics.verticalSpacing).symm
  least first second := (min_add_add_left offset.y first second).symm
  greatest first second := (max_add_add_left offset.y first second).symm

namespace Chart

theorem ofStages_shift (metrics : Metrics ℚ) (offset origin : Point ℚ) (stages : List Stage) :
    ofStages metrics (offset.shift origin) stages =
      (ofStages metrics origin stages).carry (offset.x + ·) (offset.y + ·) :=
  (carry_ofStages (metrics.carried_shift offset) origin stages).symm

/-- The chart at an origin is the one at zero with every number shifted by that of the origin on its axis; nodes
and edges are otherwise the same. -/
theorem ofStages_at_origin (metrics : Metrics ℚ) (origin : Point ℚ) (stages : List Stage) :
    let chart := ofStages metrics origin stages
    let base := ofStages metrics ⟨0, 0⟩ stages
    chart.nodes = base.nodes.map (Node.shift origin) ∧ chart.edges = base.edges ∧
      chart.nextX = origin.x + base.nextX ∧ chart.minY = origin.y + base.minY ∧
      chart.maxY = origin.y + base.maxY := by
  intro chart base
  have corner : origin.shift ⟨0, 0⟩ = origin := by simp [Point.shift]
  have moved : chart = base.carry (origin.x + ·) (origin.y + ·) := by
    calc
      chart = ofStages metrics (origin.shift ⟨0, 0⟩) stages := by rw [corner]
      _ = base.carry (origin.x + ·) (origin.y + ·) := ofStages_shift metrics origin ⟨0, 0⟩ stages
  rw [moved]
  exact ⟨rfl, rfl, rfl, rfl, rfl⟩

end Chart

end PipelineChart
