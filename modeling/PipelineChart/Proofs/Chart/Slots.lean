import Mathlib.Order.Lattice
import PipelineChart.Proofs.Chart.Traversal

/-!
Slots. A stage becomes one column of slots, however deep it is nested: a slot for each leaf that is placed, and
an empty one for each stage that is passed over and for each parallel stage without branches. A slot begins where
the one above it ends, and an empty one takes up the spacing only. This holds in any arithmetic in which sums with
the metrics do not go back.
-/

namespace PipelineChart

class Growing (α : Type) [LinearOrder α] [Add α] : Prop where
  add_le_add_right {first second : α} (less : first ≤ second) (further : α) : first + further ≤ second + further
  le_add_right (value further : α) : value ≤ value + further

/-- Nothing that is measured leads back. -/
structure Metrics.Onward {α : Type} [LE α] [Add α] (metrics : Metrics α) : Prop where
  pitch : ∀ x, x ≤ x + metrics.pitch
  nodeHeight : ∀ y, y ≤ y + metrics.nodeHeight
  verticalSpacing : ∀ y, y ≤ y + metrics.verticalSpacing

theorem Growing.onward {α : Type} [LinearOrder α] [Add α] [Growing α] (metrics : Metrics α) : metrics.Onward :=
  ⟨fun x => le_add_right x _, fun y => le_add_right y _, fun y => le_add_right y _⟩

mutual

/-- The slots of a stage, if the names in `met` were met before it. -/
def Stage.slots (met : List String) : Stage → List (Option Leaf)
  | .leaf name steps => if name ∈ met then [none] else [some ⟨name, steps⟩]
  | .parallel _ [] => [none]
  | .parallel name (branch :: branches) =>
      if name ∈ met then [none] else Forest.slots (name :: met) (branch :: branches)

def Forest.slots (met : List String) : List Stage → List (Option Leaf)
  | [] => []
  | stage :: stages => stage.slots met ++ Forest.slots (stage.visit met) stages

end

mutual

def Stage.ends : Stage → Nat
  | .leaf _ _ => 1
  | .parallel _ [] => 1
  | .parallel _ (branch :: branches) => Forest.ends (branch :: branches)

def Forest.ends : List Stage → Nat
  | [] => 0
  | stage :: stages => stage.ends + Forest.ends stages

end

theorem Stage.slots_parallel {name : String} {branches : List Stage} {met : List String}
    (nonempty : branches ≠ []) (fresh : name ∉ met) :
    (Stage.parallel name branches).slots met = Forest.slots (name :: met) branches := by
  cases branches with
  | nil => exact absurd rfl nonempty
  | cons branch branches => rw [slots, if_neg fresh]

theorem Stage.ends_parallel {branches : List Stage} (nonempty : branches ≠ []) (name : String) :
    (Stage.parallel name branches).ends = Forest.ends branches := by
  cases branches with
  | nil => exact absurd rfl nonempty
  | cons branch branches => rw [ends]

theorem Stage.ends_pos : (stage : Stage) → 0 < stage.ends
  | .leaf _ _ => Nat.one_pos
  | .parallel _ [] => Nat.one_pos
  | .parallel _ (branch :: branches) => by
      have first := branch.ends_pos
      rw [ends, Forest.ends]
      omega

mutual

theorem Stage.length_slots : (stage : Stage) → (met : List String) → (stage.slots met).length ≤ stage.ends
  | .leaf name steps, met => by
      unfold Stage.slots Stage.ends
      split <;> exact Nat.le_refl 1
  | .parallel name [], met => Nat.le_refl 1
  | .parallel name (branch :: branches), met => by
      unfold Stage.slots
      split
      · exact Stage.ends_pos _
      · exact Forest.length_slots (branch :: branches) (name :: met)

theorem Forest.length_slots : (stages : List Stage) → (met : List String) →
    (Forest.slots met stages).length ≤ Forest.ends stages
  | [], met => Nat.le_refl 0
  | stage :: stages, met => by
      rw [Forest.slots, Forest.ends, List.length_append]
      exact Nat.add_le_add (stage.length_slots met) (Forest.length_slots stages (stage.visit met))

end

namespace Placement

variable {α : Type} [Add α]

def slotNodes (metrics : Metrics α) (x : α) : (y : α) → List (Option Leaf) → List (Node α)
  | _, [] => []
  | y, none :: slots => slotNodes metrics x (y + metrics.verticalSpacing) slots
  | y, some leaf :: slots =>
      ⟨leaf.name, leaf.steps, ⟨x, y⟩⟩ ::
        slotNodes metrics x (y + metrics.nodeHeight + metrics.verticalSpacing) slots

def nextY (metrics : Metrics α) : (y : α) → List (Option Leaf) → α
  | y, [] => y
  | y, none :: slots => nextY metrics (y + metrics.verticalSpacing) slots
  | y, some _ :: slots => nextY metrics (y + metrics.nodeHeight + metrics.verticalSpacing) slots

def columnEnd (metrics : Metrics α) (x : α) (slots : List (Option Leaf)) : α :=
  if slots.any Option.isSome then x + metrics.pitch else x

theorem slotNodes_append (metrics : Metrics α) (x y : α) (slots others : List (Option Leaf)) :
    slotNodes metrics x y (slots ++ others) =
      slotNodes metrics x y slots ++ slotNodes metrics x (nextY metrics y slots) others := by
  induction slots generalizing y with
  | nil => rfl
  | cons slot slots ih =>
    cases slot with
    | none => exact ih _
    | some leaf => exact congrArg (_ :: ·) (ih _)

theorem nextY_append (metrics : Metrics α) (y : α) (slots others : List (Option Leaf)) :
    nextY metrics y (slots ++ others) = nextY metrics (nextY metrics y slots) others := by
  induction slots generalizing y with
  | nil => rfl
  | cons slot slots ih => cases slot <;> exact ih _

variable {metrics : Metrics α}

theorem slotNodes_eq_nil {x y : α} {slots : List (Option Leaf)} (empty : slots.any Option.isSome = false) :
    slotNodes metrics x y slots = [] := by
  induction slots generalizing y with
  | nil => rfl
  | cons slot slots ih =>
    cases slot with
    | none => exact ih empty
    | some leaf => cases empty

theorem x_of_mem_slotNodes {x y : α} {slots : List (Option Leaf)} :
    ∀ node ∈ slotNodes metrics x y slots, node.position.x = x := by
  induction slots generalizing y with
  | nil => simp [slotNodes]
  | cons slot slots ih =>
    cases slot with
    | none => exact ih
    | some leaf => exact List.forall_mem_cons.mpr ⟨rfl, ih⟩

end Placement

namespace Placement

variable {α : Type} [LinearOrder α] [Add α] {metrics : Metrics α}

/-- What a stage brings to a row that stands at `y`. -/
structure Fills (metrics : Metrics α) (y : α) (slots : List (Option Leaf)) (row after : Placement α) : Prop where
  nodes : after.nodes = row.nodes ++ slotNodes metrics row.nextX y slots
  nextX : after.nextX = columnEnd metrics row.nextX slots
  lower : row.maxY = y →
    y ≤ after.maxY ∧ after.maxY + metrics.verticalSpacing = nextY metrics y slots

theorem fills_passed (y : α) (row : Placement α) : Fills metrics y [none] row row where
  nodes := (List.append_nil _).symm
  nextX := rfl
  lower := by
    rintro rfl
    exact ⟨le_rfl, rfl⟩

structure Stacks (metrics : Metrics α) (x y : α) (slots : List (Option Leaf)) (above after : Placement α) :
    Prop where
  nodes : after.nodes = above.nodes ++ slotNodes metrics x y slots
  nextX : after.nextX = max above.nextX (columnEnd metrics x slots)
  lower : above.maxY ≤ after.maxY
  next : after.maxY + metrics.verticalSpacing = nextY metrics y slots

theorem Fills.beside {x y : α} {slots : List (Option Leaf)} {pending names : List String}
    {above placed : Placement α} (fills : Fills metrics y slots (empty ⟨x, y⟩ pending names) placed)
    (higher : above.maxY ≤ y) : Stacks metrics x y slots above (above.beside placed) := by
  obtain ⟨lower, next⟩ := fills.lower rfl
  have largest : (above.beside placed).maxY = placed.maxY := max_eq_right (higher.trans lower)
  exact ⟨congrArg (above.nodes ++ ·) fills.nodes, congrArg (max above.nextX) fills.nextX, le_max_left _ _,
    (congrArg (· + metrics.verticalSpacing) largest).trans next⟩

theorem le_columnEnd (onward : metrics.Onward) (x : α) (slots : List (Option Leaf)) :
    x ≤ columnEnd metrics x slots := by
  unfold columnEnd
  split
  · exact onward.pitch x
  · exact le_rfl

theorem max_columnEnd (onward : metrics.Onward) (x : α) (slots others : List (Option Leaf)) :
    max (columnEnd metrics x slots) (columnEnd metrics x others) = columnEnd metrics x (slots ++ others) := by
  have further := onward.pitch x
  unfold columnEnd
  rw [List.any_append]
  cases slots.any Option.isSome <;> cases others.any Option.isSome <;> simp [further]

theorem Stacks.trans (onward : metrics.Onward) {x y : α} {slots others : List (Option Leaf)}
    {above middle after : Placement α} (first : Stacks metrics x y slots above middle)
    (second : Stacks metrics x (nextY metrics y slots) others middle after) :
    Stacks metrics x y (slots ++ others) above after where
  nodes := by rw [second.nodes, first.nodes, slotNodes_append, List.append_assoc]
  nextX := by rw [second.nextX, first.nextX, max_assoc, max_columnEnd onward]
  lower := first.lower.trans second.lower
  next := second.next.trans (nextY_append metrics y slots others).symm

mutual

theorem fills_extend (onward : metrics.Onward) : (stage : Stage) → (y : α) → (row : Placement α) →
    Fills metrics y (stage.slots row.met) row (extend metrics y row stage)
  | .leaf name steps, y, row => by
      unfold extend Stage.slots
      split
      · exact fills_passed y row
      · refine ⟨rfl, rfl, ?_⟩
        rintro rfl
        have lower := onward.nodeHeight row.maxY
        have largest : (row.leaf metrics row.maxY name steps).maxY = row.maxY + metrics.nodeHeight :=
          max_eq_right lower
        rw [largest]
        exact ⟨lower, rfl⟩
  | .parallel name [], y, row => by
      unfold extend Stage.slots
      split
      · exact fills_passed y row
      · refine ⟨rfl, rfl, ?_⟩
        rintro rfl
        have same : (row.block (stack metrics row.nextX row.pending row.maxY
            (empty ⟨row.nextX, row.maxY⟩ [] (name :: row.met)) [])).maxY = row.maxY := max_self _
        rw [same]
        exact ⟨le_rfl, rfl⟩
  | .parallel name (branch :: branches), y, row => by
      unfold extend Stage.slots
      split
      · exact fills_passed y row
      · have piled := stacks_stack onward (branch :: branches) row.nextX row.pending y
          (empty ⟨row.nextX, y⟩ [] (name :: row.met)) le_rfl (by simp)
        generalize stack metrics row.nextX row.pending y _ (branch :: branches) = placed at piled ⊢
        refine ⟨congrArg (row.nodes ++ ·) piled.nodes, ?_, ?_⟩
        · exact piled.nextX.trans (max_eq_right (le_columnEnd onward _ _))
        · rintro rfl
          have largest : (row.block placed).maxY = placed.maxY := max_eq_right piled.lower
          rw [largest]
          exact ⟨piled.lower, piled.next⟩

theorem stacks_stack (onward : metrics.Onward) : (branches : List Stage) → (x : α) → (pending : List String) →
    (y : α) → (above : Placement α) → above.maxY ≤ y →
    (branches = [] → x ≤ above.nextX ∧ above.maxY + metrics.verticalSpacing = y) →
    Stacks metrics x y (Forest.slots above.met branches) above (stack metrics x pending y above branches)
  | [], x, pending, y, above, _, begun =>
      have ⟨further, next⟩ := begun rfl
      ⟨(List.append_nil _).symm, (max_eq_left further).symm, le_rfl, next⟩
  | branch :: branches, x, pending, y, above, higher, _ => by
      have fills := fills_extend onward branch y (empty ⟨x, y⟩ pending above.met)
      have met := (gains_extend metrics branch y (empty ⟨x, y⟩ pending above.met)).met
      rw [stack]
      generalize extend metrics y (empty ⟨x, y⟩ pending above.met) branch = placed at fills met ⊢
      have first := fills.beside higher
      obtain ⟨_, next⟩ := fills.lower rfl
      have behind : (above.beside placed).met = branch.visit above.met := met
      have further : x ≤ (above.beside placed).nextX := by
        rw [first.nextX]
        exact (le_columnEnd onward x _).trans (le_max_right _ _)
      have tight : (above.beside placed).maxY + metrics.verticalSpacing =
          placed.maxY + metrics.verticalSpacing := first.next.trans next.symm
      have others := stacks_stack onward branches x pending (placed.maxY + metrics.verticalSpacing)
        (above.beside placed) (tight ▸ onward.verticalSpacing _) fun _ => ⟨further, tight⟩
      rw [behind, next] at others
      rw [Forest.slots, next]
      exact first.trans onward others

end

end Placement

end PipelineChart
