import PipelineChart.Chart.Placement
import PipelineChart.Proofs.Stage.Forest

/-!
What a placement takes from the names of its stages alone. A stage that is visited ends in tips: a leaf
that is placed, or a stage that is passed over. The leaves of a stage all stand at one x, each is entered
from all that is pending, and the tips tell what is pending behind the stage. No number plays a part in
this, so it holds in any arithmetic.
-/

namespace PipelineChart

/-- An end of a stage. A stage that is passed over hands on what was pending before it, and no stage below it is
visited. -/
inductive Tip where
  | passed
  | placed (leaf : Leaf)
  deriving DecidableEq

namespace Tip

def leaf? : Tip → Option Leaf
  | passed => none
  | placed leaf => some leaf

def waiting (pending : List String) : Tip → List String
  | passed => pending
  | placed leaf => [nodeId leaf.name]

def leaves (tips : List Tip) : List Leaf := tips.filterMap leaf?

def ids (tips : List Tip) : List String := (leaves tips).map fun leaf => nodeId leaf.name

def copies (tips : List Tip) : Nat := tips.count passed

def edges (pending : List String) (tips : List Tip) : List Edge :=
  (ids tips).flatMap fun target => pending.map fun source => ⟨source, target⟩

def handOn (pending : List String) (tips : List Tip) : List String := tips.flatMap (waiting pending)

theorem leaves_append (tips others : List Tip) : leaves (tips ++ others) = leaves tips ++ leaves others :=
  List.filterMap_append

theorem edges_append (pending : List String) (tips others : List Tip) :
    edges pending (tips ++ others) = edges pending tips ++ edges pending others := by
  simp only [edges, ids, leaves_append, List.map_append, List.flatMap_append]

theorem handOn_append (pending : List String) (tips others : List Tip) :
    handOn pending (tips ++ others) = handOn pending tips ++ handOn pending others :=
  List.flatMap_append

end Tip

mutual

def Stage.visit (met : List String) : Stage → List String
  | .leaf name _ => if name ∈ met then met else name :: met
  | .parallel name branches => if name ∈ met then met else Forest.visit (name :: met) branches

def Forest.visit (met : List String) : List Stage → List String
  | [] => met
  | stage :: stages => Forest.visit (stage.visit met) stages

end

mutual

def Stage.tips (met : List String) : Stage → List Tip
  | .leaf name steps => if name ∈ met then [.passed] else [.placed ⟨name, steps⟩]
  | .parallel name branches => if name ∈ met then [.passed] else Forest.tips (name :: met) branches

def Forest.tips (met : List String) : List Stage → List Tip
  | [] => []
  | stage :: stages => stage.tips met ++ Forest.tips (stage.visit met) stages

end

def Node.leaf {α : Type} (node : Node α) : Leaf := ⟨node.name, node.steps⟩

namespace Placement

variable {α : Type} {x : α} {pending kept met met' : List String} {tips tips' : List Tip}
  {before middle after : Placement α}

/-- What comes to a placement by a traversal that ends in `tips`: leaves at `x`, entered from `pending`,
and behind them what the tips hand on, beside what is `kept` from other branches. -/
structure Gains (x : α) (pending kept : List String) (tips : List Tip) (met : List String)
    (before after : Placement α) : Prop where
  nodes : ∃ column : List (Node α), after.nodes = before.nodes ++ column ∧
    column.map Node.leaf = Tip.leaves tips ∧ ∀ node ∈ column, node.position.x = x
  edges : after.edges = before.edges ++ Tip.edges pending tips
  pending : after.pending = kept ++ Tip.handOn pending tips
  met : after.met = met

theorem gains_passed (row : Placement α) :
    Gains row.nextX row.pending [] [.passed] row.met row row where
  nodes := ⟨[], (List.append_nil _).symm, rfl, by simp⟩
  edges := (List.append_nil _).symm
  pending := (List.append_nil _).symm
  met := rfl

theorem gains_nothing (x : α) (pending : List String) (row : Placement α) :
    Gains x pending row.pending [] row.met row row where
  nodes := ⟨[], (List.append_nil _).symm, rfl, by simp⟩
  edges := (List.append_nil _).symm
  pending := (List.append_nil _).symm
  met := rfl

theorem Gains.trans (first : Gains x pending kept tips met before middle)
    (second : Gains x pending middle.pending tips' met' middle after) :
    Gains x pending kept (tips ++ tips') met' before after where
  nodes := by
    obtain ⟨column, placed, leaves, aligned⟩ := first.nodes
    obtain ⟨column', placed', leaves', aligned'⟩ := second.nodes
    refine ⟨column ++ column', ?_, ?_, List.forall_mem_append.mpr ⟨aligned, aligned'⟩⟩
    · rw [placed', placed, List.append_assoc]
    · rw [List.map_append, leaves, leaves', Tip.leaves_append]
  edges := by rw [second.edges, first.edges, Tip.edges_append, List.append_assoc]
  pending := by rw [second.pending, first.pending, Tip.handOn_append, List.append_assoc]
  met := second.met

theorem Gains.join {start : Point α} {entered names : List String} {part grown : Placement α}
    (gains : Gains x pending [] tips met (empty start entered names) part) (row : Placement α)
    (nodes : grown.nodes = row.nodes ++ part.nodes) (edges : grown.edges = row.edges ++ part.edges)
    (behind : grown.pending = kept ++ part.pending) (same : grown.met = part.met) :
    Gains x pending kept tips met row grown where
  nodes := by
    obtain ⟨column, placed, rest⟩ := gains.nodes
    refine ⟨column, ?_, rest⟩
    rw [nodes, placed]
    rfl
  edges := by
    rw [edges, gains.edges]
    rfl
  pending := by
    rw [behind, gains.pending]
    rfl
  met := same.trans gains.met

section

variable [Add α] [Min α] [Max α]

theorem gains_leaf (metrics : Metrics α) (y : α) (row : Placement α) (name : String)
    (steps : List String) :
    Gains row.nextX row.pending [] [.placed ⟨name, steps⟩] (name :: row.met) row
      (row.leaf metrics y name steps) where
  nodes := ⟨[⟨name, steps, ⟨row.nextX, y⟩⟩], rfl, rfl, by simp⟩
  edges := by simp [leaf, Tip.edges, Tip.ids, Tip.leaves, Tip.leaf?]
  pending := rfl
  met := rfl

mutual

theorem gains_extend (metrics : Metrics α) : (stage : Stage) → (y : α) → (row : Placement α) →
    Gains row.nextX row.pending [] (stage.tips row.met) (stage.visit row.met) row
      (extend metrics y row stage)
  | .leaf name steps, y, row => by
      unfold extend Stage.tips Stage.visit
      split_ifs with again
      · exact gains_passed row
      · exact gains_leaf metrics y row name steps
  | .parallel name branches, y, row => by
      unfold extend Stage.tips Stage.visit
      split_ifs with again
      · exact gains_passed row
      · have placed := gains_stack metrics branches row.nextX row.pending y
          (empty ⟨row.nextX, y⟩ [] (name :: row.met))
        exact placed.join row rfl rfl rfl rfl

theorem gains_stack (metrics : Metrics α) : (branches : List Stage) → (x : α) →
    (pending : List String) → (y : α) → (above : Placement α) →
    Gains x pending above.pending (Forest.tips above.met branches) (Forest.visit above.met branches)
      above (stack metrics x pending y above branches)
  | [], x, pending, y, above => gains_nothing x pending above
  | branch :: branches, x, pending, y, above => by
      have gains := gains_extend metrics branch y (empty ⟨x, y⟩ pending above.met)
      rw [stack]
      generalize extend metrics y (empty ⟨x, y⟩ pending above.met) branch = placed at gains ⊢
      have joined : Gains x pending above.pending (branch.tips above.met) (branch.visit above.met)
          above (above.beside placed) := gains.join above rfl rfl rfl rfl
      have others := gains_stack metrics branches x pending (placed.maxY + metrics.verticalSpacing)
        (above.beside placed)
      rw [joined.met] at others
      exact joined.trans others

end

theorem met_foldl (metrics : Metrics α) (y : α) (row : Placement α) (stages : List Stage) :
    (stages.foldl (extend metrics y) row).met = Forest.visit row.met stages := by
  induction stages generalizing row with
  | nil => rfl
  | cons stage stages ih => rw [List.foldl_cons, ih, (gains_extend metrics stage y row).met, Forest.visit]

theorem met_row (metrics : Metrics α) (origin : Point α) (stages : List Stage) :
    (row metrics origin stages).met = Forest.visit [] stages :=
  met_foldl metrics origin.y (empty origin [] []) stages

theorem row_append (metrics : Metrics α) (origin : Point α) (stages : List Stage) (stage : Stage) :
    row metrics origin (stages ++ [stage]) = extend metrics origin.y (row metrics origin stages) stage := by
  rw [row, List.foldl_append]
  rfl

end

end Placement

end PipelineChart
