import Mathlib.Tactic.Linarith
import Mathlib.Tactic.Ring
import PipelineChart.Proofs.Chart.Exact
import PipelineChart.Proofs.Stage.Forest

/-!
The closed form of a chart whose stages all have names of their own and whose parallel stages all have
branches. However deep the stages of a row are nested, each of them becomes one column with its leaves
one below another, and every leaf of a column is entered from all leaves of the column before it.
-/

namespace PipelineChart

def Leaf.id (leaf : Leaf) : String := nodeId leaf.name

namespace Placement

variable {metrics : Metrics ℚ}

def bottom (metrics : Metrics ℚ) (y : ℚ) (count : Nat) : ℚ :=
  y + count * metrics.drop - metrics.verticalSpacing

def columnNodes (metrics : Metrics ℚ) (corner : Point ℚ) (leaves : List Leaf) : List (Node ℚ) :=
  leaves.zipIdx.map fun (leaf, index) =>
    ⟨leaf.name, leaf.steps, ⟨corner.x, corner.y + index * metrics.drop⟩⟩

/-- Leaves one below another, each entered from all that is pending. -/
def column (metrics : Metrics ℚ) (corner : Point ℚ) (pending : List String) (leaves : List Leaf)
    (met : List String) : Placement ℚ where
  nodes := columnNodes metrics corner leaves
  edges := leaves.flatMap fun leaf => pending.map fun source => ⟨source, leaf.id⟩
  nextX := corner.x + metrics.pitch
  pending := leaves.map Leaf.id
  minY := corner.y
  maxY := bottom metrics corner.y leaves.length
  met := met

theorem bottom_one (metrics : Metrics ℚ) (y : ℚ) : bottom metrics y 1 = y + metrics.nodeHeight := by
  rw [bottom, Metrics.drop]
  push_cast
  ring

theorem bottom_add (metrics : Metrics ℚ) (y : ℚ) (count more : Nat) :
    bottom metrics (bottom metrics y count + metrics.verticalSpacing) more =
      bottom metrics y (count + more) := by
  simp only [bottom]
  push_cast
  ring

theorem bottom_mono (roomy : metrics.Roomy) (y : ℚ) {count more : Nat} (fewer : count ≤ more) :
    bottom metrics y count ≤ bottom metrics y more := by
  have counts : (count : ℚ) ≤ more := by exact_mod_cast fewer
  have scaled := mul_le_mul_of_nonneg_right counts roomy.drop_pos.le
  unfold bottom
  linarith

theorem le_bottom (roomy : metrics.Roomy) (y : ℚ) {count : Nat} (positive : 0 < count) :
    y ≤ bottom metrics y count := by
  have first := bottom_mono roomy y (Nat.succ_le_of_lt positive)
  rw [Nat.succ_eq_add_one, zero_add, bottom_one] at first
  have height := roomy.height_pos
  linarith

theorem columnNodes_append (metrics : Metrics ℚ) (corner : Point ℚ) (leaves more : List Leaf) :
    columnNodes metrics corner (leaves ++ more) =
      columnNodes metrics corner leaves ++
        columnNodes metrics ⟨corner.x, corner.y + leaves.length * metrics.drop⟩ more := by
  simp only [columnNodes, List.zipIdx_append, List.map_append, zero_add]
  rw [List.zipIdx_eq_map_add (i := leaves.length), List.map_map]
  congr 2
  funext ⟨leaf, index⟩
  simp only [Function.comp_apply, Node.mk.injEq, Point.mk.injEq, true_and]
  push_cast
  ring

theorem empty_block_column (roomy : metrics.Roomy) (corner : Point ℚ) (pending before met : List String)
    {leaves : List Leaf} (nonempty : leaves ≠ []) :
    (empty corner pending before).block (column metrics corner pending leaves met) =
      column metrics corner pending leaves met := by
  have lower := le_bottom roomy corner.y (List.length_pos_iff.mpr nonempty)
  simp only [block, empty, column, List.nil_append, min_self, max_eq_right lower]

theorem empty_beside_column (roomy : metrics.Roomy) (corner : Point ℚ)
    (pending before met : List String) {leaves : List Leaf} (nonempty : leaves ≠ []) :
    (empty corner [] before).beside (column metrics corner pending leaves met) =
      column metrics corner pending leaves met := by
  have lower := le_bottom roomy corner.y (List.length_pos_iff.mpr nonempty)
  have further : corner.x ≤ corner.x + metrics.pitch := by linarith [roomy.pitch_pos]
  simp only [beside, empty, column, List.nil_append, min_self, max_eq_right lower,
    max_eq_right further]

theorem beside_column (roomy : metrics.Roomy) (above : Placement ℚ) (corner : Point ℚ)
    (pending before met : List String) {leaves : List Leaf} (nonempty : leaves ≠ [])
    (more : List Leaf) :
    (above.beside (column metrics corner pending leaves before)).beside
        (column metrics ⟨corner.x, bottom metrics corner.y leaves.length + metrics.verticalSpacing⟩
          pending more met) =
      above.beside (column metrics corner pending (leaves ++ more) met) := by
  have next : bottom metrics corner.y leaves.length + metrics.verticalSpacing =
      corner.y + leaves.length * metrics.drop := by
    unfold bottom
    ring
  have positive : 0 < leaves.length := List.length_pos_iff.mpr nonempty
  have upper : corner.y ≤ bottom metrics corner.y leaves.length + metrics.verticalSpacing := by
    linarith [le_bottom roomy corner.y positive, roomy.vertical_nonneg]
  have lower : bottom metrics corner.y leaves.length ≤
      bottom metrics corner.y (leaves.length + more.length) :=
    bottom_mono roomy corner.y (Nat.le_add_right _ _)
  simp only [beside, column, bottom_add, List.append_assoc, List.flatMap_append, List.map_append,
    List.length_append, min_assoc, max_assoc, max_self, min_eq_left upper, max_eq_right lower,
    Placement.mk.injEq, and_true]
  rw [columnNodes_append, next]

theorem leaf_eq (metrics : Metrics ℚ) (y : ℚ) (row : Placement ℚ) (name : String)
    (steps : List String) :
    row.leaf metrics y name steps =
      row.block (column metrics ⟨row.nextX, y⟩ row.pending [⟨name, steps⟩] (name :: row.met)) := by
  simp [leaf, block, column, columnNodes, bottom_one, Leaf.id]

mutual

theorem extend_eq (roomy : metrics.Roomy) : (stage : Stage) → (y : ℚ) → (row : Placement ℚ) →
    stage.Branching → (∀ name ∈ stage.names, name ∉ row.met) → stage.names.Nodup →
    extend metrics y row stage =
      row.block (column metrics ⟨row.nextX, y⟩ row.pending stage.leaves
        (stage.names.reverse ++ row.met))
  | .leaf name steps, y, row, _, fresh, _ => by
      have new : name ∉ row.met := fresh name (by simp [Stage.names])
      rw [extend, if_neg new, leaf_eq]
      rfl
  | .parallel name branches, y, row, ⟨nonempty, branching⟩, fresh, distinct => by
      rw [Stage.names, List.nodup_cons] at distinct
      have new : name ∉ row.met := fresh name (by simp [Stage.names])
      have below : ∀ other ∈ Forest.names branches, other ∉ name :: row.met := by
        intro other member
        rw [List.mem_cons, not_or]
        refine ⟨?_, fresh other (by simp [Stage.names, member])⟩
        intro same
        subst same
        exact distinct.1 member
      have leaves : Forest.leaves branches ≠ [] :=
        Forest.leaves_ne_nil nonempty (Forest.each_leaves_ne_nil branches branching)
      rw [extend, if_neg new, stack_eq roomy branches nonempty row.nextX row.pending y _ branching below
        distinct.2, empty_beside_column roomy ⟨row.nextX, y⟩ row.pending _ _ leaves]
      simp [Stage.leaves, Stage.names, empty]

theorem stack_eq (roomy : metrics.Roomy) : (branches : List Stage) → branches ≠ [] → (x : ℚ) →
    (pending : List String) → (y : ℚ) → (above : Placement ℚ) → Forest.Branching branches →
    (∀ name ∈ Forest.names branches, name ∉ above.met) → (Forest.names branches).Nodup →
    stack metrics x pending y above branches =
      above.beside (column metrics ⟨x, y⟩ pending (Forest.leaves branches)
        ((Forest.names branches).reverse ++ above.met))
  | [], nonempty, _, _, _, _, _, _, _ => absurd rfl nonempty
  | branch :: branches, _, x, pending, y, above, ⟨first, others⟩, fresh, distinct => by
      rw [Forest.names, List.nodup_append] at distinct
      rw [Forest.names, List.forall_mem_append] at fresh
      have leaves := branch.leaves_ne_nil first
      have placed : extend metrics y (empty ⟨x, y⟩ pending above.met) branch =
          column metrics ⟨x, y⟩ pending branch.leaves (branch.names.reverse ++ above.met) := by
        rw [extend_eq roomy branch y (empty ⟨x, y⟩ pending above.met) first fresh.1 distinct.1]
        exact empty_block_column roomy ⟨x, y⟩ pending _ _ leaves
      rw [stack]
      simp only [placed]
      cases branches with
      | nil => simp [stack, Forest.names, Forest.leaves]
      | cons next branches =>
        have below : ∀ name ∈ Forest.names (next :: branches),
            name ∉ branch.names.reverse ++ above.met := by
          intro name member
          rw [List.mem_append, List.mem_reverse, not_or]
          exact ⟨fun again => distinct.2.2 name again name member rfl, fresh.2 name member⟩
        rw [stack_eq roomy (next :: branches) (List.cons_ne_nil _ _) x pending _ _ others below
          distinct.2.1]
        rw [Forest.leaves.eq_2 branch, Forest.names.eq_2 branch, List.reverse_append,
          List.append_assoc]
        exact beside_column roomy above ⟨x, y⟩ pending _ _ leaves _

end

end Placement

namespace Chart

variable {metrics : Metrics ℚ}

open Placement

def gridNodes (metrics : Metrics ℚ) (corner : Point ℚ) (columns : List (List Leaf)) :
    List (Node ℚ) :=
  columns.zipIdx.flatMap fun (leaves, index) =>
    columnNodes metrics ⟨corner.x + index * metrics.pitch, corner.y⟩ leaves

/-- Edges from all leaves of a column to all leaves of the next, in the order of their targets. -/
def links (columns : List (List Leaf)) : List Edge :=
  (columns.zip columns.tail).flatMap fun (sources, targets) =>
    targets.flatMap fun target => sources.map fun source => ⟨source.id, target.id⟩

/-- Columns one pitch apart, each with its leaves one drop apart, linked from left to right. -/
def grid (metrics : Metrics ℚ) (origin : Point ℚ) (columns : List (List Leaf)) : Chart ℚ where
  nodes := gridNodes metrics origin columns
  edges := links columns
  nextX := origin.x + columns.length * metrics.pitch
  minY := origin.y
  maxY :=
    match (columns.map List.length).max? with
    | none => origin.y
    | some tallest => origin.y + tallest * metrics.drop - metrics.verticalSpacing

theorem gridNodes_cons (metrics : Metrics ℚ) (corner : Point ℚ) (leaves : List Leaf)
    (columns : List (List Leaf)) :
    gridNodes metrics corner (leaves :: columns) =
      columnNodes metrics corner leaves ++
        gridNodes metrics ⟨corner.x + metrics.pitch, corner.y⟩ columns := by
  have shifted (index : Nat) : corner.x + ((1 + index : Nat) : ℚ) * metrics.pitch =
      corner.x + metrics.pitch + index * metrics.pitch := by
    push_cast
    ring
  simp only [gridNodes, List.zipIdx_cons, List.flatMap_cons, Nat.cast_zero, zero_mul, add_zero]
  rw [List.zipIdx_eq_map_add (i := 0 + 1), List.flatMap_map]
  simp only [zero_add, shifted]

theorem links_cons (sources targets : List Leaf) (columns : List (List Leaf)) :
    links (sources :: targets :: columns) =
      (targets.flatMap fun target => sources.map fun source => ⟨source.id, target.id⟩) ++
        links (targets :: columns) := rfl

theorem links_nil_cons (columns : List (List Leaf)) : links ([] :: columns) = links columns := by
  cases columns with
  | nil => rfl
  | cons leaves columns =>
    rw [links_cons]
    simp

theorem foldl_max_bottom (roomy : metrics.Roomy) (y : ℚ) (tallest : Nat) (counts : List Nat) :
    counts.foldl (fun low count => max low (bottom metrics y count)) (bottom metrics y tallest) =
      bottom metrics y (counts.foldl max tallest) := by
  induction counts generalizing tallest with
  | nil => rfl
  | cons count counts ih =>
    have monotone : Monotone (bottom metrics y) := fun _ _ fewer => bottom_mono roomy y fewer
    rw [List.foldl_cons, List.foldl_cons, ← monotone.map_max]
    exact ih (max tallest count)

theorem foldl_extend_eq (roomy : metrics.Roomy) (y : ℚ) : (stages : List Stage) →
    (row : Placement ℚ) → (previous : List Leaf) → row.pending = previous.map Leaf.id →
    row.minY = y → Forest.Branching stages → (∀ name ∈ Forest.names stages, name ∉ row.met) →
    (Forest.names stages).Nodup →
    (stages.foldl (extend metrics y) row).chart =
      { nodes := row.nodes ++ gridNodes metrics ⟨row.nextX, y⟩ (stages.map Stage.leaves)
        edges := row.edges ++ links (previous :: stages.map Stage.leaves)
        nextX := row.nextX + stages.length * metrics.pitch
        minY := y
        maxY := (stages.map fun stage => stage.leaves.length).foldl
          (fun low count => max low (bottom metrics y count)) row.maxY }
  | [], row, previous, _, upper, _, _, _ => by
      simp [chart, gridNodes, links, upper]
  | stage :: stages, row, previous, entered, upper, ⟨first, others⟩, fresh, distinct => by
      rw [Forest.names, List.nodup_append] at distinct
      rw [Forest.names, List.forall_mem_append] at fresh
      have below : ∀ name ∈ Forest.names stages, name ∉ stage.names.reverse ++ row.met := by
        intro name member
        rw [List.mem_append, List.mem_reverse, not_or]
        exact ⟨fun again => distinct.2.2 name again name member rfl, fresh.2 name member⟩
      rw [List.foldl_cons, extend_eq roomy stage y row first fresh.1 distinct.1,
        foldl_extend_eq roomy y stages _ stage.leaves rfl (by simp [block, column, upper]) others below
          distinct.2.1]
      have further : row.nextX + metrics.pitch + stages.length * metrics.pitch =
          row.nextX + ((stages.length + 1 : Nat) : ℚ) * metrics.pitch := by
        push_cast
        ring
      have edges : (stage.leaves.flatMap fun target =>
          row.pending.map fun source => (⟨source, target.id⟩ : Edge)) =
          stage.leaves.flatMap fun target =>
            previous.map fun source => ⟨source.id, target.id⟩ := by
        simp only [entered, List.map_map, Function.comp_def]
      simp only [block, column, edges, further, List.map_cons, List.length_cons, List.foldl_cons,
        gridNodes_cons, links_cons, List.append_assoc]

/-- Stages with names of their own and with branches in every parallel stage make a grid. -/
theorem ofStages_eq_grid {metrics : Metrics Single} (accepted : metrics.check = .ok ())
    (origin : Point ℚ) {stages : List Stage} (distinct : (Forest.names stages).Nodup)
    (branching : Forest.Branching stages) :
    ofStages metrics.exact origin stages =
      grid metrics.exact origin (stages.map Stage.leaves) := by
  have roomy := Metrics.exact_roomy accepted
  have placed := foldl_extend_eq roomy origin.y stages (Placement.empty origin [] []) [] rfl rfl
    branching (by simp [Placement.empty]) distinct
  rw [ofStages, Placement.row, placed, grid, links_nil_cons]
  cases stages with
  | nil => simp [Placement.empty]
  | cons stage stages =>
    have lower : max origin.y (bottom metrics.exact origin.y stage.leaves.length) =
        bottom metrics.exact origin.y stage.leaves.length :=
      max_eq_right (le_bottom roomy origin.y
        (List.length_pos_iff.mpr (stage.leaves_ne_nil branching.1)))
    simp only [Placement.empty, List.nil_append, List.map_cons, List.foldl_cons, lower,
      foldl_max_bottom roomy, List.max?_cons', List.map_map, Function.comp_def, List.length_cons,
      List.length_map]
    rfl

/-- A nested parallel stage between two leaves: its three leaves stand in one column. -/
theorem grid_of_nested_branches :
    Metrics.default.check = .ok () ∧
    ofStages Metrics.default.exact ⟨10, 20⟩
        [.leaf "Build" ["make"],
          .parallel "Test" [.leaf "Unit" [], .parallel "Slow" [.leaf "Net" ["run"], .leaf "Disk" []]],
          .leaf "Ship" []] =
      { nodes := [⟨"Build", ["make"], ⟨10, 20⟩⟩, ⟨"Unit", [], ⟨260, 20⟩⟩, ⟨"Net", ["run"], ⟨260, 160⟩⟩,
          ⟨"Disk", [], ⟨260, 300⟩⟩, ⟨"Ship", [], ⟨510, 20⟩⟩]
        edges := [⟨"stage-Build", "stage-Unit"⟩, ⟨"stage-Build", "stage-Net"⟩,
          ⟨"stage-Build", "stage-Disk"⟩, ⟨"stage-Unit", "stage-Ship"⟩, ⟨"stage-Net", "stage-Ship"⟩,
          ⟨"stage-Disk", "stage-Ship"⟩]
        nextX := 760
        minY := 20
        maxY := 360 } := by
  have accepted : Metrics.default.check = .ok () := by decide +kernel
  refine ⟨accepted, (ofStages_eq_grid accepted _ ?_ ?_).trans ?_⟩
  · decide +kernel
  · simp [Forest.Branching, Stage.Branching]
  · decide +kernel

end Chart

end PipelineChart
