import PipelineChart.Proofs.Pipeline.Quiet
import PipelineChart.Proofs.Stage.Written

/-!
Pipelines written and parsed back. Stages whose names and steps are plain come back as they were, in any
style of calls, whether the parse is strict or not, where the depth limit admits their nesting.
-/

namespace PipelineChart.Pipeline

open Text

def write (style : Nat → List Nat → Step.Style) (stages : List Stage) : String :=
  String.ofList (lines [Block.write "pipeline" [Block.write "stages" (Forest.texts style stages)]])

example : write (fun _ _ => ⟨"echo", '"', true, by decide, rfl⟩)
    [.parallel "A" [.leaf "B" ["x", "y"], .leaf "C" []]] =
    "pipeline \x7b\nstages \x7b\nstage('A') \x7b\nparallel \x7b\n" ++
      "stage('B') \x7b\nsteps \x7b\necho(\"x\")\necho(\"y\")\n\x7d\n\x7d\n" ++
      "stage('C') \x7b\nsteps \x7b\n\x7d\n\x7d\n\x7d\n\x7d\n\x7d\n\x7d\n" := by
  decide +kernel

variable {options : Options} {stages : List Stage}

theorem parse_write (style : Nat → List Nat → Step.Style)
    (names : ∀ name ∈ Forest.names stages, Plain name.toList)
    (steps : ∀ leaf ∈ Forest.leaves stages, ∀ step ∈ leaf.steps, Plain step.toList)
    (shallow : Forest.nesting stages ≤ options.maxDepth) :
    parse options (write style stages) = .ok ⟨stages, []⟩ := by
  have plain : PlainTexts (Forest.names stages) (Forest.leaves stages) := ⟨names, steps⟩
  let inner := Block.write "stages" (Forest.texts style stages)
  have balanced : Block.Balanced inner := by
    apply Block.Balanced.write (Block.Balanced.of_unbraced (by decide) (by decide))
    exact Compositional.balanced.forest stages style plain
  have untouched : Comment.Untouched (lines [Block.write "pipeline" [inner]]) := by
    apply Comment.Untouched.lines
    rw [List.forall_mem_singleton]
    apply Comment.Untouched.write (Comment.Untouched.of_absent (by decide))
    rw [List.forall_mem_singleton]
    apply Comment.Untouched.write (Comment.Untouched.of_absent (by decide))
    exact Compositional.untouched.forest stages style plain
  have clean := untouched []
  rw [List.append_nil, Comment.strip, List.append_nil] at clean
  have located := Block.locate_write "pipeline" (List.forall_mem_singleton.mpr balanced) ['\n']
  have body : trim ('\n' :: lines [inner]) = inner :=
    trim_block ⟨'s', "tages".toList, by decide, by decide⟩ _
  rw [body] at located
  rw [parse_quiet_iff, write, String.toList_ofList, clean, Outline.ofPipeline, lines_singleton, located]
  exact Outline.scan_stages style plain (by rwa [Nat.zero_add])

/-- Names that are keywords, and an argument that ends like the head of a declaration. -/
theorem parse_write_keywords :
    let style : Nat → List Nat → Step.Style := fun _ path =>
      if path.length = 1 then ⟨"sh", '\'', false, by decide, rfl⟩ else ⟨"bat", '"', true, by decide, rfl⟩
    let stages := [Stage.parallel "parallel" [.leaf "steps" ["make stage("], .leaf "stage(" []],
      .leaf "pipeline" ["echo 1", "sh"]]
    (∀ name ∈ Forest.names stages, Plain name.toList) ∧
      (∀ leaf ∈ Forest.leaves stages, ∀ step ∈ leaf.steps, Plain step.toList) ∧
      Forest.nesting stages ≤ 1 ∧ parse ⟨1, true⟩ (write style stages) = .ok ⟨stages, []⟩ := by
  intro style stages
  have names : ∀ name ∈ Forest.names stages, Plain name.toList := by decide +kernel
  have steps : ∀ leaf ∈ Forest.leaves stages, ∀ step ∈ leaf.steps, Plain step.toList := by
    decide +kernel
  have shallow : Forest.nesting stages ≤ 1 := by decide +kernel
  exact ⟨names, steps, shallow, parse_write style names steps shallow⟩

end PipelineChart.Pipeline
