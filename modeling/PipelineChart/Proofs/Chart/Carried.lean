import PipelineChart.Chart.Placement

/-!
Charts carried from one kind of numbers to another. Placing takes nothing from its numbers but sums with the
metrics and the smaller or larger of two, and never brings the two axes together. So two maps, one for each axis,
that keep these carry every chart to the chart of the same stages. The map that forgets all numbers keeps whatever
there is to keep; so what is left of a chart without its numbers is told by its stages alone.
-/

namespace PipelineChart

variable {α β : Type}

def Point.carry (across down : α → β) (point : Point α) : Point β := ⟨across point.x, down point.y⟩

def Node.carry (across down : α → β) (node : Node α) : Node β :=
  ⟨node.name, node.steps, node.position.carry across down⟩

def Placement.carry (across down : α → β) (placement : Placement α) : Placement β where
  nodes := placement.nodes.map (Node.carry across down)
  edges := placement.edges
  nextX := across placement.nextX
  pending := placement.pending
  minY := down placement.minY
  maxY := down placement.maxY
  met := placement.met

def Chart.carry (across down : α → β) (chart : Chart α) : Chart β where
  nodes := chart.nodes.map (Node.carry across down)
  edges := chart.edges
  nextX := across chart.nextX
  minY := down chart.minY
  maxY := down chart.maxY

def Point.map (both : α → β) (point : Point α) : Point β := point.carry both both

def Chart.map (both : α → β) (chart : Chart α) : Chart β := chart.carry both both

variable [Add α] [Min α] [Max α] [Add β] [Min β] [Max β]

/-- What two maps have to keep for the charts of `metrics` to be carried to those of `metrics'`. -/
structure Metrics.Carried (across down : α → β) (metrics : Metrics α) (metrics' : Metrics β) : Prop where
  pitch : ∀ x, across (x + metrics.pitch) = across x + metrics'.pitch
  furthest : ∀ first second, across (max first second) = max (across first) (across second)
  nodeHeight : ∀ y, down (y + metrics.nodeHeight) = down y + metrics'.nodeHeight
  verticalSpacing : ∀ y, down (y + metrics.verticalSpacing) = down y + metrics'.verticalSpacing
  least : ∀ first second, down (min first second) = min (down first) (down second)
  greatest : ∀ first second, down (max first second) = max (down first) (down second)

namespace Placement

variable {across down : α → β} {metrics : Metrics α} {metrics' : Metrics β}

theorem carry_block (carried : metrics.Carried across down metrics') (row stack : Placement α) :
    (row.block stack).carry across down = (row.carry across down).block (stack.carry across down) := by
  simp [carry, block, carried.least, carried.greatest]

theorem carry_beside (carried : metrics.Carried across down metrics') (stack branch : Placement α) :
    (stack.beside branch).carry across down =
      (stack.carry across down).beside (branch.carry across down) := by
  simp [carry, beside, carried.furthest, carried.least, carried.greatest]

theorem carry_leaf (carried : metrics.Carried across down metrics') (y : α) (row : Placement α) (name : String)
    (steps : List String) :
    (row.leaf metrics y name steps).carry across down =
      (row.carry across down).leaf metrics' (down y) name steps := by
  simp [carry, leaf, Node.carry, Point.carry, carried.least, carried.greatest, carried.pitch, carried.nodeHeight]

mutual

theorem carry_extend (carried : metrics.Carried across down metrics') : (stage : Stage) → (y : α) →
    (row : Placement α) →
    (extend metrics y row stage).carry across down =
      extend metrics' (down y) (row.carry across down) stage
  | .leaf name steps, y, row => by
      have met : (row.carry across down).met = row.met := rfl
      rw [extend, extend, met]
      split
      · rfl
      · exact carry_leaf carried y row name steps
  | .parallel name branches, y, row => by
      have met : (row.carry across down).met = row.met := rfl
      rw [extend, extend, met]
      split
      · rfl
      · rw [carry_block carried, carry_stack carried branches]
        rfl

theorem carry_stack (carried : metrics.Carried across down metrics') : (branches : List Stage) → (x : α) →
    (pending : List String) → (y : α) → (above : Placement α) →
    (stack metrics x pending y above branches).carry across down =
      stack metrics' (across x) pending (down y) (above.carry across down) branches
  | [], x, pending, y, above => rfl
  | branch :: branches, x, pending, y, above => by
      have first := carry_extend carried branch y (empty ⟨x, y⟩ pending above.met)
      have start : (empty ⟨x, y⟩ pending above.met : Placement α).carry across down =
          empty ⟨across x, down y⟩ pending (above.carry across down).met := rfl
      rw [start] at first
      rw [stack, stack, ← first, carry_stack carried branches, carry_beside carried, carried.verticalSpacing]
      rfl

end

theorem carry_row (carried : metrics.Carried across down metrics') (origin : Point α) (stages : List Stage) :
    (row metrics origin stages).carry across down = row metrics' (origin.carry across down) stages := by
  have run (start : Placement α) : (stages.foldl (extend metrics origin.y) start).carry across down =
      stages.foldl (extend metrics' (down origin.y)) (start.carry across down) := by
    induction stages generalizing start with
    | nil => rfl
    | cons stage stages ih => rw [List.foldl_cons, List.foldl_cons, ih, carry_extend carried]
  exact run (empty origin [] [])

end Placement

theorem Chart.carry_ofStages {across down : α → β} {metrics : Metrics α} {metrics' : Metrics β}
    (carried : metrics.Carried across down metrics') (origin : Point α) (stages : List Stage) :
    (ofStages metrics origin stages).carry across down =
      ofStages metrics' (origin.carry across down) stages :=
  congrArg Placement.chart (Placement.carry_row carried origin stages)

theorem Chart.map_ofStages {both : α → β} {metrics : Metrics α} {metrics' : Metrics β}
    (carried : metrics.Carried both both metrics') (origin : Point α) (stages : List Stage) :
    (ofStages metrics origin stages).map both = ofStages metrics' (origin.map both) stages :=
  Chart.carry_ofStages carried origin stages

/-- What is left of any number when all of them are forgotten. -/
structure Forgotten where

instance : Add Forgotten := ⟨fun _ _ => ⟨⟩⟩

instance : Min Forgotten := ⟨fun _ _ => ⟨⟩⟩

instance : Max Forgotten := ⟨fun _ _ => ⟨⟩⟩

namespace Chart

def skeleton (chart : Chart α) : Chart Forgotten := chart.map fun _ => ⟨⟩

omit [Add α] [Min α] [Max α] in
theorem labels_skeleton (chart : Chart α) :
    chart.skeleton.nodes.map (fun node => (node.id, node.name, node.steps)) =
      chart.nodes.map fun node => (node.id, node.name, node.steps) := by
  rw [skeleton, Chart.map, Chart.carry, List.map_map]
  rfl

/-- Nothing is asked of the numbers: there is only one to which they can be carried. -/
theorem skeleton_ofStages (metrics : Metrics α) (origin : Point α) (stages : List Stage) :
    (ofStages metrics origin stages).skeleton = ofStages ⟨⟨⟩, ⟨⟩, ⟨⟩, ⟨⟩⟩ ⟨⟨⟩, ⟨⟩⟩ stages := by
  have carried : metrics.Carried (fun _ => Forgotten.mk) (fun _ => Forgotten.mk) ⟨⟨⟩, ⟨⟩, ⟨⟩, ⟨⟩⟩ :=
    ⟨fun _ => rfl, fun _ _ => rfl, fun _ => rfl, fun _ => rfl, fun _ _ => rfl, fun _ _ => rfl⟩
  exact map_ofStages carried origin stages

/-- Two charts of the same stages have the same nodes, apart from where these stand, and the same edges, whatever
their metrics and origins are, and whatever their numbers do when they are added or compared. -/
theorem skeleton_determined (metrics : Metrics α) (metrics' : Metrics β) (origin : Point α) (origin' : Point β)
    (stages : List Stage) :
    let chart := ofStages metrics origin stages
    let other := ofStages metrics' origin' stages
    chart.nodes.map (fun node => (node.id, node.name, node.steps)) =
        other.nodes.map (fun node => (node.id, node.name, node.steps)) ∧
      chart.edges = other.edges ∧ chart.skeleton = other.skeleton := by
  intro chart other
  have same : chart.skeleton = other.skeleton := by
    calc
      chart.skeleton = ofStages ⟨⟨⟩, ⟨⟩, ⟨⟩, ⟨⟩⟩ ⟨⟨⟩, ⟨⟩⟩ stages := skeleton_ofStages metrics origin stages
      _ = other.skeleton := (skeleton_ofStages metrics' origin' stages).symm
  have labels := congrArg (fun left : Chart Forgotten =>
    left.nodes.map fun node => (node.id, node.name, node.steps)) same
  simp only [labels_skeleton] at labels
  have edges : chart.skeleton.edges = other.skeleton.edges := congrArg Chart.edges same
  exact ⟨labels, edges, same⟩

end Chart

end PipelineChart
