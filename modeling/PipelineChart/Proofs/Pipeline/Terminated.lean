import PipelineChart.Proofs.Pipeline.Strict
import PipelineChart.Proofs.Stage.Reach

/-!
What can be wrong with a pipeline. Without an opening of a `pipeline` block that alone is reported, and
so is an opening that is never closed. In a block that is closed all braces match, so every stage and
every block in it is terminated: stages without steps and stages nested too deep are all that is left.
-/

namespace PipelineChart

open Text

deriving instance DecidableEq for Block.Opening

deriving instance DecidableEq for Stage.Declaration

namespace Outline

section

variable {limit : Nat} {source : String}

theorem ofSource_of_missing (located : Block.locate "pipeline".toList
    (Comment.strip (Placed.locate 0 source.toList)) = .error .missing) :
    ofSource limit source = ⟨[], [.missingPipeline]⟩ := by
  rw [ofSource, ofPipeline, located]

theorem ofSource_of_unterminated {keyword : List Placed} (located : Block.locate "pipeline".toList
    (Comment.strip (Placed.locate 0 source.toList)) = .error (.unterminated keyword)) :
    ofSource limit source = ⟨[], [.unterminatedPipeline keyword]⟩ := by
  rw [ofSource, ofPipeline, located]

theorem ofSource_of_block {block : Block Placed} (located : Block.locate "pipeline".toList
    (Comment.strip (Placed.locate 0 source.toList)) = .ok block) :
    ofSource limit source = scan limit 0 block.body := by
  rw [ofSource, ofPipeline, located]

end

theorem problems_of_matched {α : Type} [Glyph α] {limit depth : Nat} {region : List α}
    (matched : Block.Matched region) :
    ∀ problem ∈ (scan limit depth region).problems,
      (∃ name declaration, problem = .missingSteps name declaration) ∨
        ∃ name declaration keyword, problem = .tooDeep limit name declaration keyword := by
  intro problem member
  obtain ⟨place, declaration, reaches, declared, tells⟩ := mem_problems_iff.mp member
  cases tells with
  | unterminatedStage unclosed =>
    obtain ⟨_, _, closed, _⟩ := terminated (matched_of_reaches reaches matched) declared
    rw [unclosed] at closed
    cases closed
  | missingSteps => exact Or.inl ⟨_, _, rfl⟩
  | tooDeep => exact Or.inr ⟨_, _, _, rfl⟩

end Outline

namespace Pipeline

theorem code_record (collector : Collector) (diagnostic : Diagnostic) :
    (collector.record diagnostic).code = diagnostic.code := by
  unfold Collector.record
  split_ifs <;> rfl

theorem codes_reported (options : Options) (source : String) :
    (reported (parse options source)).map Diagnostic.code =
      (Outline.ofSource options.maxDepth source).problems.map fun problem => problem.diagnostic.code := by
  rw [reported_parse, warnings, List.map_map, List.map_map]
  apply List.map_congr_left
  intro problem _
  exact code_record _ problem.diagnostic

theorem codes_of_block {options : Options} {source : String} {block : Block Placed}
    (located : Block.locate "pipeline".toList
      (Comment.strip (Placed.locate 0 source.toList)) = .ok block) :
    ∀ code ∈ (reported (parse options source)).map Diagnostic.code,
      code = some .missingSteps ∨ code = some .tooDeep := by
  rw [codes_reported, Outline.ofSource_of_block located]
  intro code member
  obtain ⟨problem, told, rfl⟩ := List.mem_map.mp member
  rcases Outline.problems_of_matched (Block.level_body located).matched problem told with
    ⟨name, declaration, rfl⟩ | ⟨name, declaration, keyword, rfl⟩
  · exact Or.inl rfl
  · exact Or.inr rfl

/-- What is reported is told by the leftmost opening of a `pipeline` block. Behind one that is closed a
scan comes to terminated stages and blocks only, however deep they are nested. -/
theorem reported_by_opening (options : Options) (source : String) :
    let text := Comment.strip (Placed.locate 0 source.toList)
    let outcome := parse options source
    let codes := (reported outcome).map Diagnostic.code
    ((∀ before opening, ¬ Block.Opens "pipeline".toList text before opening) →
      codes = [some .missingPipeline] ∧ ∀ parsed, outcome = .ok parsed → parsed.stages = []) ∧
    (∀ before opening, Block.OpensFirst "pipeline".toList text before opening →
      (Block.Open opening.inside →
        codes = [some .unterminatedPipeline] ∧ ∀ parsed, outcome = .ok parsed → parsed.stages = []) ∧
      (¬ Block.Open opening.inside →
        (∀ code ∈ codes, code = some .missingSteps ∨ code = some .tooDeep) ∧
        ∃ block, Block.locate "pipeline".toList text = .ok block ∧
          ∀ place declaration, Outline.Reaches options.maxDepth (0, block.body) place →
            leftmost? Stage.Declaration.read? place.2 = some declaration →
            ∃ interior after, Block.close? 0 declaration.inside = some (interior, after) ∧
              ∀ word, Block.locate "parallel".toList (trim interior) ≠ .error (.unterminated word) ∧
                Block.locate "steps".toList (trim interior) ≠ .error (.unterminated word))) ∧
    some Code.unterminatedStage ∉ codes := by
  intro text outcome codes
  have told {outline : Outline Placed} (found : Outline.ofSource options.maxDepth source = outline) :
      codes = outline.problems.map (fun problem => problem.diagnostic.code) ∧
        ∀ parsed, outcome = .ok parsed → parsed.stages = outline.stages := by
    rw [← found]
    exact ⟨codes_reported options source, fun parsed accepted => stages_of_parse accepted⟩
  refine ⟨?_, ?_, ?_⟩
  · intro absent
    exact told (Outline.ofSource_of_missing (Block.locate_of_absent absent))
  · intro before opening first
    refine ⟨fun unclosed => ?_, fun closed => ?_⟩
    · exact told (Outline.ofSource_of_unterminated (first.locate_of_open unclosed))
    · rw [← Block.close?_eq_none_iff_open] at closed
      obtain ⟨⟨interior, rest⟩, closed⟩ := Option.ne_none_iff_exists'.mp closed
      have located := first.locate_of_closed closed
      refine ⟨codes_of_block located, _, located, fun place declaration reaches declared => ?_⟩
      have matched := Outline.matched_of_reaches reaches (Block.level_body located).matched
      obtain ⟨interior, after, closed, terminated⟩ := Outline.terminated matched declared
      exact ⟨interior, after, closed, fun word => ⟨terminated _ word, terminated _ word⟩⟩
  · intro reported
    cases located : Block.locate "pipeline".toList text with
    | ok block =>
      rcases codes_of_block located _ reported with same | same <;> cases same
    | error fault =>
      cases fault with
      | missing =>
        rw [(told (Outline.ofSource_of_missing located)).1] at reported
        exact absurd reported (by decide)
      | unterminated keyword =>
        rw [(told (Outline.ofSource_of_unterminated located)).1, List.map_singleton,
          List.mem_singleton] at reported
        cases reported

/-- A source for each case: without an opening, with one that is left open, and with a closed block whose
only stage has no steps. -/
theorem reported_by_opening_of_each :
    let codes := fun source => (reported (parse ⟨64, true⟩ source)).map Diagnostic.code
    let source := "pipeline \x7b stage('A') \x7b \x7d \x7d"
    codes "node \x7b \x7d" = [some .missingPipeline] ∧
      codes "pipeline \x7b stage('A') \x7b \x7d" = [some .unterminatedPipeline] ∧
      codes source ≠ [] ∧ (∀ code ∈ codes source, code = some .missingSteps ∨ code = some .tooDeep) ∧
      ∃ interior after, Block.close? 0 (Placed.locate 23 " \x7d".toList) = some (interior, after) ∧
        ∀ word, Block.locate "steps".toList (trim interior) ≠ .error (.unterminated word) := by
  intro codes source
  have absent : leftmost? (Block.opening? "pipeline".toList)
      (Comment.strip (Placed.locate 0 "node \x7b \x7d".toList)) = none := by
    decide +kernel
  have opened : leftmost? (Block.opening? "pipeline".toList)
      (Comment.strip (Placed.locate 0 "pipeline \x7b stage('A') \x7b \x7d".toList)) =
        some ⟨Placed.locate 0 "pipeline".toList, Placed.locate 10 " stage('A') \x7b \x7d".toList⟩ := by
    decide +kernel
  have opened' : leftmost? (Block.opening? "pipeline".toList)
      (Comment.strip (Placed.locate 0 source.toList)) =
        some ⟨Placed.locate 0 "pipeline".toList, Placed.locate 10 " stage('A') \x7b \x7d \x7d".toList⟩ := by
    decide +kernel
  have closed : Block.close? 0 (Placed.locate 10 " stage('A') \x7b \x7d \x7d".toList) =
      some (Placed.locate 10 " stage('A') \x7b \x7d ".toList, []) := by
    decide +kernel
  have declared : leftmost? Stage.Declaration.read?
      (trim (Placed.locate 10 " stage('A') \x7b \x7d ".toList)) =
        some ⟨Placed.locate 11 "stage('A') \x7b".toList, Placed.locate 18 "A".toList,
          Placed.locate 23 " \x7d".toList⟩ := by
    decide +kernel
  obtain ⟨before, first⟩ := Block.opensFirst_of_leftmost opened
  obtain ⟨before', first'⟩ := Block.opensFirst_of_leftmost opened'
  obtain ⟨missing, _, _⟩ := reported_by_opening ⟨64, true⟩ "node \x7b \x7d"
  obtain ⟨_, found, _⟩ := reported_by_opening ⟨64, true⟩ "pipeline \x7b stage('A') \x7b \x7d"
  have unterminated := (found before _ first).1 (Block.close?_eq_none_iff_open.mp (by decide +kernel))
  obtain ⟨_, found, _⟩ := reported_by_opening ⟨64, true⟩ source
  have left : ¬ Block.Open (Placed.locate 10 " stage('A') \x7b \x7d \x7d".toList) := by
    rw [← Block.close?_eq_none_iff_open, closed]
    exact Option.some_ne_none _
  obtain ⟨skipped, block, located, reached⟩ := (found before' _ first').2 left
  cases (first'.locate_of_closed closed).symm.trans located
  obtain ⟨interior, after, closed', terminated⟩ := reached (0, _) _ .refl declared
  exact ⟨(missing (Block.leftmost_opening_eq_none_iff.mp absent)).1, unterminated.1, by decide +kernel,
    skipped, interior, after, closed', fun word => (terminated word).2⟩

end Pipeline

end PipelineChart
