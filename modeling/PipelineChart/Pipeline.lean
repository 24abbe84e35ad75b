import PipelineChart.Diagnostic.Collector
import PipelineChart.Source.Comment
import PipelineChart.Source.Placed
import PipelineChart.Stage.Scan

/-!
Pipelines: the stages in the `pipeline` block of a source, with a diagnostic for each thing skipped.
-/

namespace PipelineChart

open Text

namespace Outline

variable {α : Type} [Glyph α]

/-- The stages of a source that holds no comments. -/
def ofPipeline (limit : Nat) (text : List α) : Outline α :=
  match Block.locate "pipeline".toList text with
  | .error .missing => ⟨[], [.missingPipeline]⟩
  | .error (.unterminated keyword) => ⟨[], [.unterminatedPipeline keyword]⟩
  | .ok block => scan limit 0 block.body

def ofSource (limit : Nat) (source : String) : Outline Placed :=
  ofPipeline limit (Comment.strip (Placed.locate 0 source.toList))

end Outline

def Problem.diagnostic : Problem Placed → Diagnostic
  | .missingPipeline =>
      Diagnostic.new .warning "no `pipeline` block found"
        |>.withCode .missingPipeline
        |>.withHelp "wrap the stages in `pipeline \x7b ... \x7d`"
  | .unterminatedPipeline keyword =>
      Diagnostic.new .warning "could not find the end of the `pipeline` block"
        |>.withCode .unterminatedPipeline
        |>.withLabel (Placed.span keyword) "pipeline opened here"
        |>.withHelp "check that every `\x7b` has a matching `\x7d`"
  | .unterminatedStage name declaration =>
      Diagnostic.new .warning ("could not find the end of stage `" ++ name ++ "`")
        |>.withCode .unterminatedStage
        |>.withLabel (Placed.span declaration) "stage opened here"
        |>.withHelp "check that every `\x7b` in this stage has a matching `\x7d`"
  | .missingSteps name declaration =>
      Diagnostic.new .warning ("stage `" ++ name ++ "` has no steps block")
        |>.withCode .missingSteps
        |>.withLabel (Placed.span declaration) "stage declared here"
  | .tooDeep limit name declaration keyword =>
      Diagnostic.new .warning
          ("parallel stage `" ++ name ++ "` is nested more than " ++ toString limit ++ " levels deep")
        |>.withCode .tooDeep
        |>.withLabel (Placed.span declaration) "stage declared here"
        |>.withSecondaryLabel (Placed.span keyword) "parallel block"
        |>.withHelp "flatten the nested parallel blocks or raise `max_depth`"

namespace Pipeline

def defaultDepth : Nat := 64

structure Options where
  maxDepth : Nat
  strict : Bool
  deriving DecidableEq

def Options.default : Options := ⟨defaultDepth, false⟩

structure Parsed where
  stages : List Stage
  diagnostics : List Diagnostic

/-- A lenient parse always succeeds, a strict one only where nothing was skipped. -/
def parse (options : Options) (source : String) : Except Rejection Parsed :=
  let outline := Outline.ofSource options.maxDepth source
  let collector := (outline.problems.map Problem.diagnostic).foldl Collector.emit
    (Collector.new options.strict)
  collector.finish.map fun diagnostics => ⟨outline.stages, diagnostics⟩

def stages (source : String) : List Stage := (Outline.ofSource defaultDepth source).stages

/-- The stages of a text as it stands: comments are not removed, and no `pipeline` is looked for. -/
def stagesOfText (text : String) : List Stage := (Outline.scan defaultDepth 0 text.toList).stages

end Pipeline

end PipelineChart
