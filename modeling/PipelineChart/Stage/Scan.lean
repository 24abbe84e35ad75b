import PipelineChart.Block
import PipelineChart.Stage.Basic
import PipelineChart.Stage.Declaration
import PipelineChart.Step

/-!
Reading stages off a region of text. A stage whose body holds a `parallel` block is a parallel stage
with the branches of that block, and reading goes on behind it. Any other stage is a leaf with the
steps of its `steps` block, and reading goes on inside it, so that stages nested in a leaf follow it
in the same list. What is skipped is told as a problem, in the order of the text.
-/

namespace PipelineChart

open Text

inductive Problem (α : Type) where
  | missingPipeline
  | unterminatedPipeline (keyword : List α)
  | unterminatedStage (name : String) (declaration : List α)
  | missingSteps (name : String) (declaration : List α)
  | tooDeep (limit : Nat) (name : String) (declaration : List α) (keyword : List α)

structure Outline (α : Type) where
  stages : List Stage
  problems : List (Problem α)

namespace Outline

variable {α : Type} [Glyph α]

def empty : Outline α := ⟨[], []⟩

def problem (problem : Problem α) (outline : Outline α) : Outline α :=
  { outline with problems := problem :: outline.problems }

def stage (stage : Stage) (outline : Outline α) : Outline α :=
  { outline with stages := stage :: outline.stages }

/-- A parallel stage comes before the stages that follow it, and so do the problems inside it. -/
def parallel (name : String) (branches outline : Outline α) : Outline α :=
  ⟨.parallel name branches.stages :: outline.stages, branches.problems ++ outline.problems⟩

/-- A leaf without a terminated `steps` block is kept and has no steps. -/
def leaf (declaration : Stage.Declaration α) (body : List α) (outline : Outline α) : Outline α :=
  match Block.locate "steps".toList body with
  | .ok steps =>
      outline.stage (.leaf (string declaration.name) ((Step.arguments steps.body).map string))
  | .error _ =>
      (outline.stage (.leaf (string declaration.name) [])).problem
        (.missingSteps (string declaration.name) declaration.text)

theorem after_shorter {region interior after : List α} {declaration : Stage.Declaration α}
    (declared : leftmost? Stage.Declaration.read? region = some declaration)
    (closed : Block.close? 0 declaration.inside = some (interior, after)) :
    after.length < region.length := by
  have inside := Stage.Declaration.leftmost_read?_shorter declared
  have whole := Block.close?_length closed
  omega

theorem interior_shorter {region interior after : List α} {declaration : Stage.Declaration α}
    (declared : leftmost? Stage.Declaration.read? region = some declaration)
    (closed : Block.close? 0 declaration.inside = some (interior, after)) :
    interior.length < region.length := by
  have inside := Stage.Declaration.leftmost_read?_shorter declared
  have whole := Block.close?_length closed
  omega

/-- The stages of a region that lies inside `depth` parallel stages. -/
def scan (limit depth : Nat) (region : List α) : Outline α :=
  match _declared : leftmost? Stage.Declaration.read? region with
  | none => empty
  | some declaration =>
      match _closed : Block.close? 0 declaration.inside with
      | none =>
          (scan limit depth declaration.inside).problem
            (.unterminatedStage (string declaration.name) declaration.text)
      | some (interior, after) =>
          match _located : Block.locate "parallel".toList (trim interior) with
          | .error _ => (scan limit depth declaration.inside).leaf declaration (trim interior)
          | .ok block =>
              if limit ≤ depth then
                (scan limit depth after).problem
                  (.tooDeep limit (string declaration.name) declaration.text block.keyword)
              else
                parallel (string declaration.name) (scan limit (depth + 1) block.body)
                  (scan limit depth after)
termination_by region.length
decreasing_by
  · exact Stage.Declaration.leftmost_read?_shorter _declared
  · exact Stage.Declaration.leftmost_read?_shorter _declared
  · exact after_shorter _declared _closed
  · have inner := Block.locate_shorter _located
    have body := trim_length interior
    have whole := interior_shorter _declared _closed
    omega
  · exact after_shorter _declared _closed

end Outline

end PipelineChart
