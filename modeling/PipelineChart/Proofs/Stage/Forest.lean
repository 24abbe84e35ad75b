import Mathlib.Data.List.Basic
import PipelineChart.Stage.Basic

/-!
Views of stage trees: names and leaves in the order in which they are met, a parallel stage before its
branches, and the number of parallel stages on a path.
-/

namespace PipelineChart

structure Leaf where
  name : String
  steps : List String
  deriving DecidableEq

mutual

def Stage.names : Stage → List String
  | .leaf name _ => [name]
  | .parallel name branches => name :: Forest.names branches

def Forest.names : List Stage → List String
  | [] => []
  | stage :: stages => stage.names ++ Forest.names stages

end

mutual

def Stage.leaves : Stage → List Leaf
  | .leaf name steps => [⟨name, steps⟩]
  | .parallel _ branches => Forest.leaves branches

def Forest.leaves : List Stage → List Leaf
  | [] => []
  | stage :: stages => stage.leaves ++ Forest.leaves stages

end

mutual

/-- The largest number of parallel stages on a path. -/
def Stage.nesting : Stage → Nat
  | .leaf _ _ => 0
  | .parallel _ branches => Forest.nesting branches + 1

def Forest.nesting : List Stage → Nat
  | [] => 0
  | stage :: stages => max stage.nesting (Forest.nesting stages)

end

mutual

def Stage.Branching : Stage → Prop
  | .leaf _ _ => True
  | .parallel _ branches => branches ≠ [] ∧ Forest.Branching branches

def Forest.Branching : List Stage → Prop
  | [] => True
  | stage :: stages => stage.Branching ∧ Forest.Branching stages

end

mutual

def Stage.decEq : (stage other : Stage) → Decidable (stage = other)
  | .leaf name steps, .leaf name' steps' =>
      decidable_of_iff (name = name' ∧ steps = steps') (by rw [Stage.leaf.injEq])
  | .parallel name branches, .parallel name' branches' =>
      have := Forest.decEq branches branches'
      decidable_of_iff (name = name' ∧ branches = branches') (by rw [Stage.parallel.injEq])
  | .leaf _ _, .parallel _ _ => isFalse nofun
  | .parallel _ _, .leaf _ _ => isFalse nofun

def Forest.decEq : (stages others : List Stage) → Decidable (stages = others)
  | [], [] => isTrue rfl
  | stage :: stages, other :: others =>
      have := Stage.decEq stage other
      have := Forest.decEq stages others
      decidable_of_iff (stage = other ∧ stages = others) (by rw [List.cons.injEq])
  | [], _ :: _ => isFalse nofun
  | _ :: _, [] => isFalse nofun

end

instance : DecidableEq Stage := Stage.decEq

theorem Forest.leaves_ne_nil {stages : List Stage} (nonempty : stages ≠ [])
    (each : ∀ stage ∈ stages, stage.leaves ≠ []) : Forest.leaves stages ≠ [] := by
  cases stages with
  | nil => exact absurd rfl nonempty
  | cons stage stages =>
    rw [Forest.leaves]
    exact List.append_ne_nil_of_left_ne_nil (each stage List.mem_cons_self) _

mutual

theorem Stage.leaves_ne_nil : (stage : Stage) → stage.Branching → stage.leaves ≠ []
  | .leaf _ _, _ => by simp [Stage.leaves]
  | .parallel _ branches, branching => by
      rw [Stage.leaves]
      exact Forest.leaves_ne_nil branching.1 (Forest.each_leaves_ne_nil branches branching.2)

theorem Forest.each_leaves_ne_nil : (stages : List Stage) → Forest.Branching stages →
    ∀ stage ∈ stages, stage.leaves ≠ []
  | [], _ => by simp
  | first :: stages, branching => by
      rw [List.forall_mem_cons]
      exact ⟨first.leaves_ne_nil branching.1, Forest.each_leaves_ne_nil stages branching.2⟩

end

end PipelineChart
