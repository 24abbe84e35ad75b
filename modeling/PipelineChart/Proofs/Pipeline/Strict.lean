import PipelineChart.Proofs.Pipeline.Quiet

/-!
Strict and lenient parses of one source. The outline of a source is read before anything is collected, so
both have the same stages and meet the same problems. A lenient parse tells them as warnings; a strict
one tells the same diagnostics as errors, and fails if there are any.
-/

namespace PipelineChart

theorem Problem.severity_diagnostic (problem : Problem Placed) :
    problem.diagnostic.severity = .warning := by
  cases problem <;> rfl

namespace Collector

variable {collector : Collector}

theorem finish_of_quiet (tracked : collector.Tracked)
    (quiet : ∀ diagnostic ∈ collector.diagnostics, diagnostic.severity = .warning) :
    collector.finish = .ok collector.diagnostics := by
  have passed : collector.diagnostics.any Diagnostic.isError = false := by
    rw [List.any_eq_false]
    intro diagnostic member
    rw [Diagnostic.isError, quiet diagnostic member]
    decide
  rw [finish, tracked, passed]
  rfl

theorem finish_of_error (tracked : collector.Tracked) {diagnostic : Diagnostic}
    (member : diagnostic ∈ collector.diagnostics) (serious : diagnostic.severity = .error) :
    collector.finish = .error ⟨collector.diagnostics⟩ := by
  have failed : collector.diagnostics.any Diagnostic.isError = true := by
    rw [List.any_eq_true]
    refine ⟨diagnostic, member, ?_⟩
    rw [Diagnostic.isError, serious]
    rfl
  rw [finish, tracked, failed]
  rfl

end Collector

namespace Pipeline

/-- What is told of a source, before a strict collector makes errors of it. -/
def warnings (limit : Nat) (source : String) : List Diagnostic :=
  (Outline.ofSource limit source).problems.map Problem.diagnostic

theorem severity_warnings {limit : Nat} {source : String} :
    ∀ diagnostic ∈ warnings limit source, diagnostic.severity = .warning := by
  intro diagnostic member
  obtain ⟨problem, _, rfl⟩ := List.mem_map.mp member
  exact problem.severity_diagnostic

theorem parse_lenient (limit : Nat) (source : String) :
    parse ⟨limit, false⟩ source =
      .ok ⟨(Outline.ofSource limit source).stages, warnings limit source⟩ := by
  have tracked := (Collector.tracked_new false).foldl_emit (warnings limit source)
  have kept : ((warnings limit source).foldl Collector.emit (Collector.new false)).diagnostics =
      warnings limit source := by
    rw [Collector.diagnostics_foldl_emit]
    exact (List.nil_append _).trans (List.map_id _)
  have finished := Collector.finish_of_quiet tracked (by rw [kept]; exact severity_warnings)
  change (((warnings limit source).foldl Collector.emit (Collector.new false)).finish).map _ = _
  rw [finished, kept]
  rfl

theorem parse_strict (limit : Nat) (source : String) :
    parse ⟨limit, true⟩ source =
      if warnings limit source = [] then .ok ⟨(Outline.ofSource limit source).stages, []⟩
      else .error ⟨(warnings limit source).map Diagnostic.asError⟩ := by
  have tracked := (Collector.tracked_new true).foldl_emit (warnings limit source)
  have kept : ((warnings limit source).foldl Collector.emit (Collector.new true)).diagnostics =
      (warnings limit source).map Diagnostic.asError := by
    rw [Collector.diagnostics_foldl_emit]
    exact List.nil_append _
  change (((warnings limit source).foldl Collector.emit (Collector.new true)).finish).map _ = _
  split_ifs with quiet
  · rw [quiet]
    rfl
  · obtain ⟨first, others, found⟩ := List.exists_cons_of_ne_nil quiet
    have serious : first.asError.severity = .error := rfl
    have finished := Collector.finish_of_error tracked
      (by rw [kept, found]; exact List.mem_cons_self) serious
    rw [finished, kept]
    rfl

def reported : Except Rejection Parsed → List Diagnostic
  | .ok parsed => parsed.diagnostics
  | .error rejection => rejection.diagnostics

theorem reported_parse (options : Options) (source : String) :
    reported (parse options source) =
      (warnings options.maxDepth source).map (Collector.new options.strict).record := by
  obtain ⟨limit, strict⟩ := options
  cases strict with
  | false =>
    rw [parse_lenient]
    exact (List.map_id _).symm
  | true =>
    rw [parse_strict]
    split_ifs with quiet
    · rw [quiet]
      rfl
    · rfl

theorem stages_of_parse {options : Options} {source : String} {parsed : Parsed}
    (accepted : parse options source = .ok parsed) :
    parsed.stages = (Outline.ofSource options.maxDepth source).stages := by
  obtain ⟨limit, strict⟩ := options
  cases strict with
  | false =>
    rw [parse_lenient] at accepted
    exact congrArg Parsed.stages (Except.ok.inj accepted).symm
  | true =>
    rw [parse_strict] at accepted
    split_ifs at accepted
    exact congrArg Parsed.stages (Except.ok.inj accepted).symm

/-- A strict parse gives what the lenient one gives where that reports nothing, and fails with the same
diagnostics, as errors, where it reports something. -/
theorem parse_strict_of_lenient (source : String) :
    (∀ limit, ∃ stages diagnostics, parse ⟨limit, false⟩ source = .ok ⟨stages, diagnostics⟩ ∧
      (∀ diagnostic ∈ diagnostics, diagnostic.severity = .warning) ∧
      ((∃ parsed, parse ⟨limit, true⟩ source = .ok parsed) ↔ diagnostics = []) ∧
      (diagnostics = [] → parse ⟨limit, true⟩ source = .ok ⟨stages, []⟩) ∧
      (diagnostics ≠ [] → parse ⟨limit, true⟩ source =
        .error ⟨diagnostics.map fun diagnostic => { diagnostic with severity := .error }⟩)) ∧
    ∃ diagnostics, parse Options.default source = .ok ⟨Pipeline.stages source, diagnostics⟩ := by
  constructor
  · intro limit
    have strict := parse_strict limit source
    refine ⟨_, _, parse_lenient limit source, severity_warnings, ?_, ?_, ?_⟩
    · constructor
      · intro succeeds
        obtain ⟨parsed, accepted⟩ := succeeds
        by_contra noisy
        rw [strict, if_neg noisy] at accepted
        cases accepted
      · intro quiet
        exact ⟨_, strict.trans (if_pos quiet)⟩
    · intro quiet
      exact strict.trans (if_pos quiet)
    · intro noisy
      exact strict.trans (if_neg noisy)
  · exact ⟨_, parse_lenient defaultDepth source⟩

/-- A stage without steps is a warning to a lenient parse, and an error to a strict one. -/
theorem parse_strict_without_steps :
    let source := "pipeline \x7b stage('A') \x7b \x7d stage('B') \x7b steps \x7b sh 'x' \x7d \x7d \x7d"
    let warning : Diagnostic := ⟨.warning, some .missingSteps, "stage `A` has no steps block",
      [⟨⟨11, 23, by decide⟩, "stage declared here", true⟩], none⟩
    parse ⟨64, false⟩ source = .ok ⟨[.leaf "A" [], .leaf "B" ["x"]], [warning]⟩ ∧
      parse ⟨64, true⟩ source = .error ⟨[{ warning with severity := .error }]⟩ ∧
      parse ⟨1, true⟩ "pipeline \x7b stage('A') \x7b steps \x7b \x7d \x7d \x7d" = .ok ⟨[.leaf "A" []], []⟩ := by
  intro source warning
  have lenient : parse ⟨64, false⟩ source = .ok ⟨[.leaf "A" [], .leaf "B" ["x"]], [warning]⟩ := by
    decide +kernel
  have quiet : parse ⟨1, false⟩ "pipeline \x7b stage('A') \x7b steps \x7b \x7d \x7d \x7d" =
      .ok ⟨[.leaf "A" []], []⟩ := by
    decide +kernel
  refine ⟨lenient, ?_, ?_⟩
  · obtain ⟨stages, diagnostics, found, _, _, _, fails⟩ := (parse_strict_of_lenient source).1 64
    cases lenient.symm.trans found
    exact fails (List.cons_ne_nil _ _)
  · obtain ⟨stages, diagnostics, found, _, _, succeeds, _⟩ := (parse_strict_of_lenient _).1 1
    cases quiet.symm.trans found
    exact succeeds rfl

end Pipeline

end PipelineChart
