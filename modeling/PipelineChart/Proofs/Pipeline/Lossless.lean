import PipelineChart.Proofs.Stage.Fork

/-!
Stages that are lost without a word. A quiet parse finds all that the pipeline declares, each name once
and in the order of the text, exactly when no fork declares anything beside its `parallel` block.
-/

namespace PipelineChart

open Text

deriving instance DecidableEq for Block

deriving instance DecidableEq for Block.Fault

namespace Pipeline

variable {options : Options} {source : String} {parsed : Parsed} {block : Block Char}

theorem names_eq_declaredNames_iff (accepted : parse options source = .ok parsed)
    (quiet : parsed.diagnostics = [])
    (located : Block.locate "pipeline".toList (Comment.strip source.toList) = .ok block) :
    Forest.names parsed.stages = Stage.declaredNames block.body ↔
      ∀ fork ∈ Fork.all block.body, fork.Lossless := by
  rcases parsed with ⟨stages, diagnostics⟩
  obtain rfl : diagnostics = [] := quiet
  have outline := parse_quiet_iff.mp accepted
  rw [Outline.ofPipeline, located] at outline
  have found : (Outline.scan options.maxDepth 0 block.body).stages = stages :=
    congrArg Outline.stages outline
  rw [← found]
  exact Outline.names_scan_iff (congrArg Outline.problems outline)

/-- Nothing is declared beside this block, so no name is lost. -/
theorem names_eq_declaredNames_of_block :
    let body := "stage('Test') \x7b parallel \x7b stage('Unit') \x7b steps \x7b sh 'x' \x7d \x7d \x7d \x7d"
    let stages := [Stage.parallel "Test" [.leaf "Unit" ["x"]]]
    parse ⟨1, true⟩ ("pipeline \x7b" ++ body ++ "\x7d") = .ok ⟨stages, []⟩ ∧
      Forest.names stages = Stage.declaredNames body.toList := by
  intro body stages
  have accepted : parse ⟨1, true⟩ ("pipeline \x7b" ++ body ++ "\x7d") = .ok ⟨stages, []⟩ := by
    decide +kernel
  have located : Block.locate "pipeline".toList
      (Comment.strip ("pipeline \x7b" ++ body ++ "\x7d").toList) =
        .ok ⟨"pipeline".toList, body.toList, []⟩ := by
    decide +kernel
  refine ⟨accepted, (names_eq_declaredNames_iff accepted rfl located).mpr ?_⟩
  decide +kernel

/-- The stages `Build` and `Test` stand beside the block that is read for the branches of `Outer`: a
strict parse succeeds, reports nothing and has lost both. -/
theorem names_lost_beside_block :
    let body := "stage('Outer') \x7b stages \x7b stage('Build') \x7b steps \x7b sh 'b' \x7d \x7d " ++
      "stage('Test') \x7b parallel \x7b stage('Unit') \x7b steps \x7b sh 'u' \x7d \x7d \x7d \x7d \x7d \x7d"
    let source := "pipeline \x7b" ++ body ++ "\x7d"
    let stages := [Stage.parallel "Outer" [.leaf "Unit" ["u"]]]
    parse ⟨64, true⟩ source = .ok ⟨stages, []⟩ ∧
      Block.locate "pipeline".toList (Comment.strip source.toList) =
        .ok ⟨"pipeline".toList, body.toList, []⟩ ∧
      Forest.names stages = ["Outer", "Unit"] ∧
      Stage.declaredNames body.toList = ["Outer", "Build", "Test", "Unit"] := by
  decide +kernel

end Pipeline

end PipelineChart
