import PipelineChart.Proofs.Binary.Order
import PipelineChart.Proofs.Chart.Forward
import PipelineChart.Proofs.Chart.Traversal

/-!
Growth by one stage. What a stage brings to a row stands behind all that was placed before: leaves of one
column, each entered from the same nodes. The row goes on one pitch further if there is a leaf, however
deep the stage is nested, since the widest of its branches is as wide as one leaf. This holds of rounded
sums too: a sum is never less than the part that it goes on from.
-/

namespace PipelineChart

variable {metrics : Metrics Single}

/-- Widths are positive and spacing is not negative, so columns do not go back to the left. -/
theorem Metrics.pitch_pos (accepted : metrics.check = .ok ()) : 0 < metrics.pitch := by
  obtain ⟨⟨wide, _⟩, spaced⟩ := sizes_of_check accepted
  have finite := finite_of_check accepted
  simp only [fields, List.forall_mem_cons] at finite
  exact Binary.pos_add wide finite.2.2.1 fun less => spaced (Or.inl less)

namespace Placement

/-- Where a row goes on that has come to `x`, once the leaves were added to it. -/
def reach (metrics : Metrics Single) (x : Single) : List Leaf → Single
  | [] => x
  | _ :: _ => x + metrics.pitch

section

variable {x : Single}

theorem bounded_reach (positive : 0 < metrics.pitch) (bounded : Binary.infinite true < x) :
    (leaves : List Leaf) → Binary.infinite true < reach metrics x leaves
  | [] => bounded
  | _ :: _ => Binary.bounded_add bounded positive

theorem max_reach (positive : 0 < metrics.pitch) (bounded : Binary.infinite true < x) :
    (leaves others : List Leaf) →
    max (reach metrics x leaves) (reach metrics x others) = reach metrics x (leaves ++ others)
  | [], [] => Binary.greatest_self _
  | [], _ :: _ => Binary.max_add bounded positive
  | _ :: _, [] => Binary.add_max bounded positive
  | _ :: _, _ :: _ => Binary.greatest_self _

end

mutual

theorem nextX_extend (positive : 0 < metrics.pitch) : (stage : Stage) → (y : Single) →
    (row : Placement Single) → Binary.infinite true < row.nextX →
    (extend metrics y row stage).nextX = reach metrics row.nextX (Tip.leaves (stage.tips row.met))
  | .leaf name steps, y, row, bounded => by
      unfold extend Stage.tips
      split_ifs <;> rfl
  | .parallel name branches, y, row, bounded => by
      unfold extend Stage.tips
      split_ifs
      · rfl
      · exact nextX_stack positive branches row.nextX row.pending y
          (empty ⟨row.nextX, y⟩ [] (name :: row.met)) [] bounded rfl

/-- Every branch begins at `x`, so a stack comes as far as the leaves that it has brought. -/
theorem nextX_stack (positive : 0 < metrics.pitch) : (branches : List Stage) → (x : Single) →
    (pending : List String) → (y : Single) → (above : Placement Single) → (leaves : List Leaf) →
    Binary.infinite true < x → above.nextX = reach metrics x leaves →
    (stack metrics x pending y above branches).nextX =
      reach metrics x (leaves ++ Tip.leaves (Forest.tips above.met branches))
  | [], x, pending, y, above, leaves, bounded, reached => by
      rw [stack, reached, Forest.tips, Tip.leaves, List.filterMap_nil, List.append_nil]
  | branch :: branches, x, pending, y, above, leaves, bounded, reached => by
      have grown := nextX_extend positive branch y (empty ⟨x, y⟩ pending above.met) bounded
      have met := (gains_extend metrics branch y (empty ⟨x, y⟩ pending above.met)).met
      rw [stack]
      generalize extend metrics y (empty ⟨x, y⟩ pending above.met) branch = placed at grown met ⊢
      have joined : (above.beside placed).nextX =
          reach metrics x (leaves ++ Tip.leaves (branch.tips above.met)) := by
        rw [← max_reach positive bounded, ← reached]
        exact congrArg (max above.nextX) grown
      have others := nextX_stack positive branches x pending (placed.maxY + metrics.verticalSpacing)
        (above.beside placed) _ bounded joined
      have behind : (above.beside placed).met = branch.visit above.met := met
      rw [others, behind, Forest.tips, Tip.leaves_append, List.append_assoc]

end

theorem bounded_foldl (positive : 0 < metrics.pitch) (y : Single) (row : Placement Single)
    (bounded : Binary.infinite true < row.nextX) (stages : List Stage) :
    Binary.infinite true < (stages.foldl (extend metrics y) row).nextX := by
  induction stages generalizing row with
  | nil => exact bounded
  | cons stage stages ih =>
    apply ih
    rw [nextX_extend positive stage y row bounded]
    exact bounded_reach positive bounded _

theorem extend_of_met {α : Type} [Add α] [Min α] [Max α] {metrics : Metrics α} {row : Placement α}
    {stage : Stage} (again : stage.name ∈ row.met) (y : α) : extend metrics y row stage = row := by
  cases stage <;> (rw [extend]; exact if_pos again)

end Placement

namespace Chart

/-- One more stage leaves a chart as it is and puts one column behind it, or nothing: no node of the column
is joined to another one of it, and the end moves by one pitch. -/
theorem ofStages_append (accepted : metrics.check = .ok ()) {origin : Point Single}
    (finite : origin.x.isFinite) (stages : List Stage) (stage : Stage) :
    let chart := ofStages metrics origin stages
    let grown := ofStages metrics origin (stages ++ [stage])
    ∃ (column : List (Node Single)) (sources : List String),
      grown.nodes = chart.nodes ++ column ∧
      grown.edges = chart.edges ++
        column.flatMap (fun node => sources.map fun source => ⟨source, node.id⟩) ∧
      (∀ node ∈ column, node.position.x = chart.nextX) ∧
      (∀ source ∈ sources, source ∈ chart.nodes.map Node.id) ∧
      grown.nextX = (if column = [] then chart.nextX
        else chart.nextX + (metrics.nodeWidth + metrics.horizontalSpacing)) ∧
      (stage.name ∈ Forest.visit [] stages → grown = chart) ∧
      (∀ name steps, stage = .leaf name steps → name ∉ Forest.visit [] stages →
        column = [⟨name, steps, ⟨chart.nextX, origin.y⟩⟩]) := by
  intro chart grown
  have positive := Metrics.pitch_pos accepted
  let row := Placement.row metrics origin stages
  have bounded : Binary.infinite true < row.nextX :=
    Placement.bounded_foldl positive origin.y (.empty origin [] [])
      (Binary.bounded_of_isFinite finite) stages
  have met : row.met = Forest.visit [] stages := Placement.met_row metrics origin stages
  have added : grown = (Placement.extend metrics origin.y row stage).chart :=
    congrArg Placement.chart (Placement.row_append metrics origin stages stage)
  have gains := Placement.gains_extend metrics stage origin.y row
  obtain ⟨column, placed, leaves, aligned⟩ := gains.nodes
  have ids : Tip.ids (stage.tips row.met) = column.map Node.id := by
    rw [Tip.ids, ← leaves, List.map_map]
    rfl
  rw [← met, added]
  refine ⟨column, row.pending, placed, ?edges, aligned, ?sources, ?next, ?again, ?leaf⟩
  case edges =>
    have entered := gains.edges
    rw [Tip.edges, ids, List.flatMap_map] at entered
    exact entered
  case sources =>
    have linked := Placement.linked_row metrics.clears_true origin stages
    intro source pending
    obtain ⟨node, member, same, _⟩ := linked.pending source pending
    exact List.mem_map.mpr ⟨node, member, same⟩
  case next =>
    have reached := Placement.nextX_extend positive stage origin.y row bounded
    rw [← leaves] at reached
    cases column <;> exact reached
  case again =>
    intro again
    rw [Placement.extend_of_met again]
    rfl
  case leaf =>
    rintro name steps rfl fresh
    have new : Placement.extend metrics origin.y row (.leaf name steps) =
        row.leaf metrics origin.y name steps := by
      rw [Placement.extend, if_neg fresh]
    rw [new] at placed
    exact (List.append_cancel_left placed).symm

/-- A nested stage whose branches are partly passed over brings two nodes, both behind the last column. -/
theorem ofStages_append_nested :
    let stages := [Stage.leaf "Build" [], .parallel "Test" [.leaf "Unit" [], .leaf "Lint" []]]
    let stage := Stage.parallel "Ship" [.leaf "Unit" [],
      .parallel "Regions" [.leaf "East" [], .parallel "None" [], .leaf "West" []]]
    let chart := ofStages Metrics.default .origin stages
    let grown := ofStages Metrics.default .origin (stages ++ [stage])
    Metrics.default.check = .ok () ∧ (Point.origin : Point Single).x.isFinite ∧
      stage.name ∉ Forest.visit [] stages ∧
      ∃ (column : List (Node Single)) (sources : List String), grown.nodes = chart.nodes ++ column ∧
        column.map Node.name = ["East", "West"] ∧
        grown.edges = chart.edges ++
          column.flatMap (fun node => sources.map fun source => ⟨source, node.id⟩) ∧
        (∀ node ∈ column, node.position.x = chart.nextX) ∧
        (∀ source ∈ sources, source ∈ chart.nodes.map Node.id) ∧
        grown.nextX = chart.nextX +
          (Metrics.default.nodeWidth + Metrics.default.horizontalSpacing) := by
  intro stages stage chart grown
  have accepted : Metrics.default.check = .ok () := by decide +kernel
  have finite : (Point.origin : Point Single).x.isFinite := by decide +kernel
  refine ⟨accepted, finite, by decide +kernel, ?_⟩
  obtain ⟨column, sources, nodes, edges, aligned, entered, next, _⟩ :=
    ofStages_append accepted finite stages stage
  have names : column.map Node.name = ["East", "West"] := by
    have all : grown.nodes.map Node.name = chart.nodes.map Node.name ++ ["East", "West"] := by
      decide +kernel
    change grown.nodes = chart.nodes ++ column at nodes
    rw [nodes, List.map_append] at all
    exact List.append_cancel_left all
  have nonempty : column ≠ [] := by
    rintro rfl
    cases names
  rw [if_neg nonempty] at next
  exact ⟨column, sources, nodes, names, edges, aligned, entered, next⟩

end Chart

end PipelineChart
