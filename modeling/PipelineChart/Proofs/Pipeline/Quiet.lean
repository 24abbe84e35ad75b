import PipelineChart.Proofs.Stage.Forest
import PipelineChart.Proofs.Stage.Scan

/-!
Parses that report nothing. A strict collector and a lenient one tell apart only what is emitted, so a
parse succeeds without diagnostics under either when the outline of the source has no problems.
-/

namespace PipelineChart

open Text

deriving instance DecidableEq for Pipeline.Parsed

namespace Collector

def record (collector : Collector) (diagnostic : Diagnostic) : Diagnostic :=
  if collector.strict then diagnostic.asError else diagnostic

/-- The flag of a collector tracks what it holds. -/
def Tracked (collector : Collector) : Prop :=
  collector.failed = collector.diagnostics.any Diagnostic.isError

theorem tracked_new (strict : Bool) : (new strict).Tracked := rfl

theorem Tracked.emit {collector : Collector} (tracked : collector.Tracked) (diagnostic : Diagnostic) :
    (collector.emit diagnostic).Tracked := by
  unfold Tracked at tracked ⊢
  simp only [Collector.emit, tracked, List.any_append, List.any_cons, List.any_nil, Bool.or_false]

theorem Tracked.foldl_emit {collector : Collector} (tracked : collector.Tracked)
    (diagnostics : List Diagnostic) : (diagnostics.foldl Collector.emit collector).Tracked := by
  induction diagnostics generalizing collector with
  | nil => exact tracked
  | cons diagnostic diagnostics ih => exact ih (tracked.emit diagnostic)

theorem diagnostics_foldl_emit (collector : Collector) (diagnostics : List Diagnostic) :
    (diagnostics.foldl emit collector).diagnostics =
      collector.diagnostics ++ diagnostics.map collector.record := by
  induction diagnostics generalizing collector with
  | nil => exact (List.append_nil _).symm
  | cons diagnostic diagnostics ih =>
    rw [List.foldl_cons, ih]
    simp only [emit, List.append_assoc, List.map_cons]
    rfl

theorem finish_eq_nil_iff {collector : Collector} (tracked : collector.Tracked) :
    collector.finish = .ok [] ↔ collector.diagnostics = [] := by
  unfold finish
  constructor
  · intro finished
    split_ifs at finished with failed
    exact Except.ok.inj finished
  · intro empty
    rw [tracked, empty]
    rfl

end Collector

namespace Pipeline

theorem parse_quiet_iff {options : Options} {source : String} {stages : List Stage} :
    parse options source = .ok ⟨stages, []⟩ ↔
      Outline.ofPipeline options.maxDepth (Comment.strip source.toList) = ⟨stages, []⟩ := by
  rw [← Outline.ofSource_chars, parse]
  generalize Outline.ofSource options.maxDepth source = outline
  have finished (collector : Collector) :
      collector.finish.map (fun diagnostics => Parsed.mk outline.stages diagnostics) =
        .ok ⟨stages, []⟩ ↔ collector.finish = .ok [] ∧ outline.stages = stages := by
    cases collector.finish with
    | error rejection => simp [Except.map]
    | ok diagnostics => simp [Except.map, and_comm]
  have tracked := Collector.tracked_new options.strict
  rw [finished, Collector.finish_eq_nil_iff (tracked.foldl_emit _), Collector.diagnostics_foldl_emit]
  simp only [Collector.new, List.nil_append, List.map_eq_nil_iff, Outline.chars, Outline.mk.injEq]
  exact and_comm

end Pipeline

end PipelineChart
