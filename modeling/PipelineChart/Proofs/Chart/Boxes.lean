import Mathlib.Data.Set.Prod
import Mathlib.Order.CompletePartialOrder
import Mathlib.Order.Interval.Set.Disjoint
import Mathlib.Tactic.Linarith
import PipelineChart.Proofs.Chart.Exact

/-!
The boxes of nodes. Whatever the stages are, the nodes of a placement lie between the corner at which
it was begun and its `nextX` and `maxY`; hence a stage is placed to the right of its row, a branch below
the branches before it, and no two boxes of a chart overlap.
-/

namespace PipelineChart

variable {metrics : Metrics ℚ} {corner : Point ℚ}

/-- What a node covers; its right and its lower side belong to the neighbours. -/
def Node.box (metrics : Metrics ℚ) (node : Node ℚ) : Set (ℚ × ℚ) :=
  Set.Ico node.position.x (node.position.x + metrics.nodeWidth) ×ˢ
    Set.Ico node.position.y (node.position.y + metrics.nodeHeight)

theorem Node.box_disjoint_of_beside {left right : Node ℚ}
    (apart : left.position.x + metrics.nodeWidth ≤ right.position.x) :
    Disjoint (left.box metrics) (right.box metrics) := by
  apply Set.disjoint_prod.mpr
  apply Or.inl
  rw [Set.Ico_disjoint_Ico]
  exact (min_le_left _ _).trans (apart.trans (le_max_right _ _))

theorem Node.box_disjoint_of_below {upper lower : Node ℚ}
    (apart : upper.position.y + metrics.nodeHeight ≤ lower.position.y) :
    Disjoint (upper.box metrics) (lower.box metrics) := by
  apply Set.disjoint_prod.mpr
  apply Or.inr
  rw [Set.Ico_disjoint_Ico]
  exact (min_le_left _ _).trans (apart.trans (le_max_right _ _))

/-- A node that lies right of and below `corner`, ends at `low`, and leaves room before `next`. -/
structure Node.Between (metrics : Metrics ℚ) (corner : Point ℚ) (next low : ℚ) (node : Node ℚ) :
    Prop where
  left : corner.x ≤ node.position.x
  right : node.position.x + metrics.pitch ≤ next
  upper : corner.y ≤ node.position.y
  lower : node.position.y + metrics.nodeHeight ≤ low

theorem Node.Between.mono {node : Node ℚ} {outer : Point ℚ} {next low further lower : ℚ}
    (between : node.Between metrics corner next low) (left : outer.x ≤ corner.x)
    (upper : outer.y ≤ corner.y) (right : next ≤ further) (below : low ≤ lower) :
    node.Between metrics outer further lower :=
  ⟨left.trans between.left, between.right.trans right, upper.trans between.upper,
    between.lower.trans below⟩

namespace Placement

/-- A placement that was begun at `corner` and keeps its nodes apart. -/
structure Within (metrics : Metrics ℚ) (corner : Point ℚ) (placement : Placement ℚ) : Prop where
  left : corner.x ≤ placement.nextX
  upper : corner.y ≤ placement.maxY
  between : ∀ node ∈ placement.nodes, node.Between metrics corner placement.nextX placement.maxY
  apart : placement.nodes.Pairwise fun node other =>
    Disjoint (node.box metrics) (other.box metrics)

theorem within_empty (metrics : Metrics ℚ) (corner : Point ℚ) (pending met : List String) :
    Within metrics corner (empty corner pending met) where
  left := le_rfl
  upper := le_rfl
  between := by simp [empty]
  apart := List.Pairwise.nil

theorem Within.block (roomy : metrics.Roomy) {row stack : Placement ℚ}
    (before : Within metrics corner row)
    (after : Within metrics ⟨row.nextX, corner.y⟩ stack) :
    Within metrics corner (row.block stack) where
  left := before.left.trans after.left
  upper := before.upper.trans (le_max_left _ _)
  between := by
    intro node member
    rcases List.mem_append.mp member with old | new
    · exact (before.between node old).mono le_rfl le_rfl after.left (le_max_left _ _)
    · exact (after.between node new).mono before.left le_rfl le_rfl (le_max_right _ _)
  apart := by
    refine List.pairwise_append.mpr ⟨before.apart, after.apart, ?_⟩
    intro node old other new
    apply Node.box_disjoint_of_beside
    have right := (before.between node old).right
    have left := (after.between other new).left
    have spacing := roomy.horizontal_nonneg
    simp only [Metrics.pitch] at right
    linarith

theorem Within.beside {y : ℚ} {stack branch : Placement ℚ} (before : Within metrics corner stack)
    (after : Within metrics ⟨corner.x, y⟩ branch) (below : stack.maxY ≤ y) :
    Within metrics corner (stack.beside branch) where
  left := before.left.trans (le_max_left _ _)
  upper := before.upper.trans (le_max_left _ _)
  between := by
    intro node member
    rcases List.mem_append.mp member with old | new
    · exact (before.between node old).mono le_rfl le_rfl (le_max_left _ _) (le_max_left _ _)
    · exact (after.between node new).mono le_rfl (before.upper.trans below) (le_max_right _ _)
        (le_max_right _ _)
  apart := by
    refine List.pairwise_append.mpr ⟨before.apart, after.apart, ?_⟩
    intro node old other new
    apply Node.box_disjoint_of_below
    exact (before.between node old).lower.trans (below.trans (after.between other new).upper)

theorem Within.leaf (roomy : metrics.Roomy) {row : Placement ℚ} (before : Within metrics corner row)
    (name : String) (steps : List String) :
    Within metrics corner (row.leaf metrics corner.y name steps) := by
  let single : Placement ℚ :=
    ⟨[⟨name, steps, ⟨row.nextX, corner.y⟩⟩], row.pending.map fun source => ⟨source, nodeId name⟩,
      row.nextX + metrics.pitch, [nodeId name], corner.y, corner.y + metrics.nodeHeight,
      name :: row.met⟩
  have one : Within metrics ⟨row.nextX, corner.y⟩ single := by
    refine ⟨?_, ?_, ?_, List.pairwise_singleton _ _⟩
    · exact le_add_of_nonneg_right roomy.pitch_pos.le
    · exact le_add_of_nonneg_right roomy.height_pos.le
    · intro node member
      obtain rfl := List.mem_singleton.mp member
      exact ⟨le_rfl, le_rfl, le_rfl, le_rfl⟩
  exact before.block roomy one

mutual

theorem within_extend (roomy : metrics.Roomy) : (stage : Stage) → (corner : Point ℚ) →
    (row : Placement ℚ) → Within metrics corner row →
    Within metrics corner (extend metrics corner.y row stage)
  | .leaf name steps, corner, row, before => by
      unfold extend
      split_ifs
      · exact before
      · exact before.leaf roomy name steps
  | .parallel name branches, corner, row, before => by
      unfold extend
      split_ifs
      · exact before
      · apply before.block roomy
        exact within_stack roomy branches ⟨row.nextX, corner.y⟩ row.pending corner.y _
          (within_empty metrics ⟨row.nextX, corner.y⟩ [] _) le_rfl

theorem within_stack (roomy : metrics.Roomy) : (branches : List Stage) → (corner : Point ℚ) →
    (pending : List String) → (y : ℚ) → (above : Placement ℚ) → Within metrics corner above →
    above.maxY ≤ y → Within metrics corner (stack metrics corner.x pending y above branches)
  | [], _, _, _, _, before, _ => by
      rw [stack]
      exact before
  | branch :: branches, corner, pending, y, above, before, below => by
      have placed := within_extend roomy branch ⟨corner.x, y⟩ _
        (within_empty metrics ⟨corner.x, y⟩ pending above.met)
      rw [stack]
      apply within_stack roomy branches corner pending
      · exact before.beside placed below
      · have spacing := roomy.vertical_nonneg
        have lower := placed.upper
        refine max_le ?_ ?_ <;> linarith

end

theorem within_row (roomy : metrics.Roomy) (origin : Point ℚ) (stages : List Stage) :
    Within metrics origin (row metrics origin stages) := by
  have step : ∀ (placed : Placement ℚ), Within metrics origin placed →
      Within metrics origin (stages.foldl (extend metrics origin.y) placed) := by
    induction stages with
    | nil => exact fun _ within => within
    | cons stage stages ih =>
      intro placed within
      exact ih _ (within_extend roomy stage origin placed within)
  exact step _ (within_empty metrics origin [] [])

end Placement

namespace Chart

/-- The boxes of any two nodes of a chart are disjoint. -/
theorem boxes_disjoint {metrics : Metrics Single} (accepted : metrics.check = .ok ())
    (origin : Point ℚ) (stages : List Stage) (i j : Nat)
    (first : i < (ofStages metrics.exact origin stages).nodes.length)
    (second : j < (ofStages metrics.exact origin stages).nodes.length) (different : i ≠ j) :
    Disjoint ((ofStages metrics.exact origin stages).nodes[i].box metrics.exact)
      ((ofStages metrics.exact origin stages).nodes[j].box metrics.exact) := by
  have within := Placement.within_row (Metrics.exact_roomy accepted) origin stages
  have apart := List.pairwise_iff_getElem.mp within.apart
  rcases Nat.lt_or_gt_of_ne different with before | after
  · exact apart i j first second before
  · exact (apart j i second first after).symm

/-- A repeated name and a parallel stage without branches leave gaps in a stack, and no overlap. -/
theorem boxes_disjoint_beside_gaps :
    Metrics.default.check = .ok () ∧
    (ofStages Metrics.default.exact ⟨0, 0⟩
      [.parallel "Test" [.leaf "Unit" [], .parallel "None" [], .leaf "Unit" [], .leaf "Lint" []],
        .leaf "Ship" []]).nodes =
      [⟨"Unit", [], ⟨0, 0⟩⟩, ⟨"Lint", [], ⟨0, 300⟩⟩, ⟨"Ship", [], ⟨250, 0⟩⟩] ∧
    Disjoint (Node.box Metrics.default.exact ⟨"Unit", [], ⟨0, 0⟩⟩)
      (Node.box Metrics.default.exact ⟨"Lint", [], ⟨0, 300⟩⟩) := by
  have accepted : Metrics.default.check = .ok () := by decide +kernel
  have nodes : (ofStages Metrics.default.exact ⟨0, 0⟩
      [.parallel "Test" [.leaf "Unit" [], .parallel "None" [], .leaf "Unit" [], .leaf "Lint" []],
        .leaf "Ship" []]).nodes =
      [⟨"Unit", [], ⟨0, 0⟩⟩, ⟨"Lint", [], ⟨0, 300⟩⟩, ⟨"Ship", [], ⟨250, 0⟩⟩] := by decide +kernel
  have apart := boxes_disjoint accepted ⟨0, 0⟩
    [.parallel "Test" [.leaf "Unit" [], .parallel "None" [], .leaf "Unit" [], .leaf "Lint" []],
      .leaf "Ship" []] 0 1 (by rw [nodes]; decide) (by rw [nodes]; decide) (by decide)
  simp only [nodes, List.getElem_cons_zero, List.getElem_cons_succ] at apart
  exact ⟨accepted, nodes, apart⟩

end Chart

end PipelineChart
