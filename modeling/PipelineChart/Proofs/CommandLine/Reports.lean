import PipelineChart.Proofs.CommandLine.Accepted
import PipelineChart.Proofs.CommandLine.Candidates
import PipelineChart.Proofs.Pipeline.Labels

/-!
Reports of failures. Whatever an operation fails with is shown. A rejected source has a report for each thing that a
lenient parse of it would skip, since a strict parse fails only where there is one; the reports tell of them as errors
what they would tell as warnings, and their labels are on the same text. Any other failure has one report.
-/

namespace PipelineChart

/-- What may fail: the operations under given settings, and a run with all its files. -/
inductive Operation (σ : Type) where
  | parse (settings : Settings) (source : String)
  | chart (settings : Settings) (stages : List Stage)
  | build (settings : Settings) (source : String)
  | render (settings : Settings) (chart : Chart Single) (format : DocumentFormat) (style : Json.Style)
  | run (files : FileSystem σ) (system : Option String) (arguments : Arguments) (state : σ)

namespace Operation

variable {σ : Type}

def Raises (failure : Failure) : Operation σ → Prop
  | parse settings source => settings.parse source = .error failure
  | chart settings stages => settings.chart stages = .error failure
  | build settings source => settings.build source = .error failure
  | render settings placed format style => settings.render placed format style = .error failure
  | run files system arguments state => (files.run system arguments state).1 = .error failure

def Parses (options : Pipeline.Options) (text : String) : Operation σ → Prop
  | parse settings source | build settings source => settings.options = options ∧ source = text
  | run files system arguments state => ∃ loaded, (files.load system arguments.config state).1 = .ok loaded ∧
      options = ⟨loaded.options.maxDepth, loaded.options.strict || arguments.strict⟩ ∧
      files.read state arguments.input = .ok text
  | chart _ _ | render _ _ _ _ => False

end Operation

/-- What is shown of a label: the same text of the source, told by where it begins and how long it is. -/
structure ReportLabel.Shows (source : String) (label : Label) (shown : ReportLabel) : Prop where
  within : shown.offset + shown.length ≤ source.utf8ByteSize
  selects : ∃ before slice behind, source = before ++ slice ++ behind ∧ before.utf8ByteSize = shown.offset ∧
    slice.utf8ByteSize = shown.length ∧ label.span.Cuts source slice
  message : shown.message = label.message
  primary : shown.isPrimary = label.isPrimary

structure Report.Shows (source : String) (severity : Severity) (diagnostic : Diagnostic) (report : Report) : Prop where
  carries : report.source = some source
  severity : report.severity = severity
  message : report.message = diagnostic.message
  code : report.code = diagnostic.code.map Code.text
  help : report.help = diagnostic.help
  labels : List.Forall₂ (ReportLabel.Shows source) diagnostic.labels report.labels

theorem ReportLabel.shows_ofLabel {source : String} {label : Label} {text : List Char}
    (marks : label.span.Marks source text) : Shows source label (ofLabel label) := by
  obtain ⟨slice, cuts, _⟩ := marks
  have bounds := cuts.bounds
  obtain ⟨before, behind, split, start, stop⟩ := id cuts
  have length : slice.utf8ByteSize = label.span.length := by
    rw [String.utf8ByteSize_append] at stop
    unfold Span.length
    omega
  refine ⟨?_, ⟨before, slice, behind, split, start, length, cuts⟩, rfl, rfl⟩
  change label.span.start + label.span.length ≤ _
  unfold Span.length
  omega

def Failure.IsRejection (failure : Failure) : Prop := ∃ rejection source, failure = .rejected rejection source

/-- A strict parse of the source rejects it, and this is the failure. -/
def Failure.Rejects (failure : Failure) (limit : Nat) (source : String) : Prop :=
  Pipeline.warnings limit source ≠ [] ∧
    failure = .rejected ⟨(Pipeline.warnings limit source).map Diagnostic.asError⟩ source

namespace Settings

variable {settings : Settings} {failure : Failure}

theorem rejects_of_parse {source : String} (failed : settings.parse source = .error failure) :
    ∃ limit, settings.options = ⟨limit, true⟩ ∧ failure.Rejects limit source := by
  obtain ⟨metrics, ⟨limit, strict⟩, style⟩ := settings
  obtain ⟨stern, rejection, rfl⟩ := parse_eq_error failed
  obtain rfl : strict = true := stern
  refine ⟨limit, rfl, ?_⟩
  simp only [parse, Pipeline.parse_strict] at failed
  split_ifs at failed with quiet
  cases failed
  exact ⟨quiet, rfl⟩

theorem not_isRejection_of_chart {stages : List Stage} (failed : settings.chart stages = .error failure) :
    ¬ failure.IsRejection := by
  unfold chart at failed
  split at failed
  · cases failed
  · cases failed
    rintro ⟨_, _, ⟨⟩⟩

theorem not_isRejection_of_render {chart : Chart Single} {format : DocumentFormat} {style : Json.Style}
    (failed : settings.render chart format style = .error failure) : ¬ failure.IsRejection := by
  unfold render at failed
  split at failed
  · cases failed
  · split at failed
    · cases failed
    · cases failed
      rintro ⟨_, _, ⟨⟩⟩

theorem build_eq_error {source : String} (failed : settings.build source = .error failure) :
    settings.parse source = .error failure ∨ ¬ failure.IsRejection := by
  rcases bind_eq_error_iff.mp failed with rejected | ⟨parsed, _, unplaced⟩
  · exact Or.inl rejected
  · exact Or.inr (not_isRejection_of_chart unplaced)

theorem document_failure {arguments : Arguments} {source : String}
    (failed : arguments.document settings source = .error failure) :
    settings.parse source = .error failure ∨ ¬ failure.IsRejection := by
  rcases document_cases failed with rejected | ⟨_, unplaced⟩ | ⟨_, unrendered⟩
  · exact Or.inl rejected
  · exact Or.inr (not_isRejection_of_chart unplaced)
  · exact Or.inr (not_isRejection_of_render unrendered)

end Settings

section

variable {σ : Type} {failure : Failure}

theorem Concludes.not_isRejection {path : String} {present : Bool} {reading : Except DiskFault String}
    (concludes : Concludes path present reading (.error failure)) : ¬ failure.IsRejection := by
  rintro ⟨_, _, rfl⟩
  cases concludes

theorem FileSystem.not_isRejection_of_readText {files : FileSystem σ} {state : σ} {path : String}
    (failed : files.readText state path = .error failure) : ¬ failure.IsRejection := by
  obtain ⟨fault, rfl⟩ := files.readText_eq_error failed
  rintro ⟨_, _, ⟨⟩⟩

theorem FileSystem.not_isRejection_of_settings {files : FileSystem σ} {system given : Option String} {state : σ}
    (failed : files.settings system given state = .error failure) : ¬ failure.IsRejection := by
  rcases files.settings_cases system given state with unset | ⟨path, found⟩
  · cases unset.symm.trans failed
  · have concludes := files.concludes_settingsAt state path
    rw [found.symm.trans failed] at concludes
    exact concludes.not_isRejection

theorem FileSystem.drawn_failure {files : FileSystem σ} {system : Option String} {arguments : Arguments} {state : σ}
    (failed : files.drawn system arguments state = .error failure) : ¬ failure.IsRejection ∨
      ∃ loaded source, files.settings system arguments.config state = .ok loaded ∧
        files.read state arguments.input = .ok source ∧
        (arguments.settings loaded).parse source = .error failure := by
  rcases files.drawn_cases failed with unset | unread | ⟨loaded, source, set, text, refused⟩
  · exact Or.inl (not_isRejection_of_settings unset)
  · exact Or.inl (not_isRejection_of_readText unread)
  · rcases Settings.document_failure refused with rejected | other
    · exact Or.inr ⟨loaded, source, set, files.readText_eq_ok_iff.mp text, rejected⟩
    · exact Or.inl other

theorem Operation.raises_cases {operation : Operation σ} (raised : operation.Raises failure) :
    ¬ failure.IsRejection ∨
      ∃ limit source, operation.Parses ⟨limit, true⟩ source ∧ failure.Rejects limit source := by
  cases operation with
  | parse settings source =>
    obtain ⟨limit, options, rejects⟩ := Settings.rejects_of_parse raised
    exact Or.inr ⟨limit, source, ⟨options, rfl⟩, rejects⟩
  | chart settings stages => exact Or.inl (Settings.not_isRejection_of_chart raised)
  | build settings source =>
    rcases Settings.build_eq_error raised with rejected | other
    · obtain ⟨limit, options, rejects⟩ := Settings.rejects_of_parse rejected
      exact Or.inr ⟨limit, source, ⟨options, rfl⟩, rejects⟩
    · exact Or.inl other
  | render settings placed format style => exact Or.inl (Settings.not_isRejection_of_render raised)
  | run files system arguments state =>
    change (files.run system arguments state).1 = _ at raised
    rcases files.run_cases system arguments state with ⟨_, undrawn, ended⟩ | ⟨_, _, _, writing⟩
    · rw [ended] at raised
      cases raised
      rcases FileSystem.drawn_failure undrawn with other | ⟨loaded, source, set, text, rejected⟩
      · exact Or.inl other
      · obtain ⟨limit, options, rejects⟩ := Settings.rejects_of_parse rejected
        rw [Arguments.settings_eq] at options
        exact Or.inr ⟨limit, source, ⟨loaded, files.load_eq_ok_iff.mpr set, options.symm, text⟩, rejects⟩
    · rcases writing with ⟨fault, _, _, ended⟩ | ⟨_, _, ended⟩
      · rw [ended] at raised
        cases raised
        refine Or.inl ?_
        rintro ⟨_, _, ⟨⟩⟩
      · rw [ended] at raised
        cases raised

end

namespace Report

def withSeverity (severity : Severity) (report : Report) : Report := { report with severity := severity }

def primaryOffsets (report : Report) : List Nat :=
  (report.labels.filter ReportLabel.isPrimary).map ReportLabel.offset

theorem primaryOffsets_ofDiagnostic (source : String) (diagnostic : Diagnostic) :
    (ofDiagnostic source diagnostic).primaryOffsets = diagnostic.primaryStarts := by
  simp only [primaryOffsets, ofDiagnostic, Diagnostic.primaryStarts, List.filter_map, List.map_map]
  rfl

theorem flatMap_primaryOffsets (source : String) (diagnostics : List Diagnostic) :
    (ofDiagnostics source diagnostics).flatMap primaryOffsets = diagnostics.flatMap Diagnostic.primaryStarts := by
  simp only [ofDiagnostics, List.flatMap_map, primaryOffsets_ofDiagnostic]

theorem shows_ofDiagnostic {limit : Nat} {source : String} {diagnostic : Diagnostic}
    (points : diagnostic.Points limit source) (severity : Severity) :
    Shows source severity diagnostic ((ofDiagnostic source diagnostic).withSeverity severity) where
  carries := rfl
  severity := rfl
  message := rfl
  code := rfl
  help := rfl
  labels := by
    change List.Forall₂ _ diagnostic.labels (diagnostic.labels.map ReportLabel.ofLabel)
    rw [List.forall₂_map_right_iff, List.forall₂_same]
    intro label member
    obtain ⟨text, marks⟩ := points.marks label member
    exact ReportLabel.shows_ofLabel marks

theorem messages_of_shows {source : String} {severity : Severity} {diagnostics : List Diagnostic}
    {reports : List Report} (shown : List.Forall₂ (Shows source severity) diagnostics reports) :
    reports.map message = diagnostics.map Diagnostic.message := by
  induction shown with
  | nil => rfl
  | cons shows _ ih => rw [List.map_cons, List.map_cons, shows.message, ih]

theorem shows_warnings (limit : Nat) (source : String) (severity : Severity) :
    List.Forall₂ (Shows source severity) (Pipeline.warnings limit source)
      ((ofDiagnostics source (Pipeline.warnings limit source)).map (withSeverity severity)) := by
  rw [ofDiagnostics, List.map_map, List.forall₂_map_right_iff, List.forall₂_same]
  intro warning member
  exact shows_ofDiagnostic ((Pipeline.points_warnings limit source).1 warning member) severity

theorem ofDiagnostics_asError (source : String) (diagnostics : List Diagnostic) :
    ofDiagnostics source (diagnostics.map Diagnostic.asError) =
      (ofDiagnostics source diagnostics).map (withSeverity .error) := by
  rw [ofDiagnostics, ofDiagnostics, List.map_map, List.map_map]
  rfl

theorem withSeverity_warnings (limit : Nat) (source : String) :
    (ofDiagnostics source (Pipeline.warnings limit source)).map (withSeverity .warning) =
      ofDiagnostics source (Pipeline.warnings limit source) := by
  rw [ofDiagnostics, List.map_map]
  refine List.map_congr_left fun warning member => ?_
  have quiet := Pipeline.severity_warnings warning member
  simp only [Function.comp_apply, withSeverity, ofDiagnostic, quiet]

theorem ofFailure_of_not_isRejection {failure : Failure} (other : ¬ failure.IsRejection) :
    ∃ report, ofFailure failure = [report] ∧ report.severity = .error ∧ report.message = failure.message := by
  cases failure with
  | rejected rejection source => exact absurd ⟨rejection, source, rfl⟩ other
  | file message => exact ⟨_, rfl, rfl, rfl⟩
  | settings message => exact ⟨_, rfl, rfl, rfl⟩
  | document fault => exact ⟨_, rfl, rfl, rfl⟩

end Report

variable {σ : Type}

theorem Operation.reports_ne_nil {operation : Operation σ} {failure : Failure} (raised : operation.Raises failure) :
    Report.ofFailure failure ≠ [] := by
  rcases raises_cases raised with other | ⟨limit, source, _, noisy, rfl⟩
  · obtain ⟨report, single, _⟩ := Report.ofFailure_of_not_isRejection other
    rw [single]
    exact List.cons_ne_nil _ _
  · intro silent
    exact noisy (List.map_eq_nil_iff.mp (List.map_eq_nil_iff.mp silent))

theorem FileSystem.reports_ne_nil (files : FileSystem σ) {system : Option String} {words : List String} {state : σ}
    (failed : (files.execute system words state).1.status = 1) :
    (files.execute system words state).1.reports ≠ [] := by
  obtain ⟨arguments, parsed, failure, raised⟩ := (files.status_eq_one_iff system words state).mp failed
  have shown := Operation.reports_ne_nil (show (Operation.run files system arguments state).Raises failure from raised)
  rw [execute_eq, parsed]
  dsimp only
  generalize files.run system arguments state = ended at raised ⊢
  obtain ⟨outcome, after⟩ := ended
  obtain rfl : outcome = .error failure := raised
  exact shown

/-- Every failure is shown, and so is what a call fails with. A rejected source was parsed strictly, and is shown as
the warnings of a lenient parse, which there are, but as errors and in the order of the source; any other failure is
shown by one report. -/
theorem failures_reported :
    (∀ (operation : Operation σ) (failure : Failure), operation.Raises failure → Report.ofFailure failure ≠ [] ∧
      (∀ rejection source, failure = .rejected rejection source → ∃ limit stages diagnostics,
        operation.Parses ⟨limit, true⟩ source ∧ Pipeline.parse ⟨limit, false⟩ source = .ok ⟨stages, diagnostics⟩ ∧
        List.Forall₂ (Report.Shows source .error) diagnostics (Report.ofFailure failure) ∧
        List.Forall₂ (Report.Shows source .warning) diagnostics (Report.ofDiagnostics source diagnostics) ∧
        Report.ofFailure failure =
          (Report.ofDiagnostics source diagnostics).map (fun report => { report with severity := .error }) ∧
        ((Report.ofFailure failure).flatMap Report.primaryOffsets).Pairwise (· < ·)) ∧
      ((∀ rejection source, failure ≠ .rejected rejection source) →
        ∃ report, Report.ofFailure failure = [report] ∧ report.severity = .error ∧
          report.message = failure.message)) ∧
    ∀ (files : FileSystem σ) (system : Option String) (words : List String) (state : σ),
      (files.execute system words state).1.status = 1 → (files.execute system words state).1.reports ≠ [] := by
  refine ⟨fun operation failure raised => ⟨Operation.reports_ne_nil raised, ?rejected, ?other⟩,
    fun files _ _ _ => files.reports_ne_nil⟩
  case rejected =>
    rintro rejection source rfl
    rcases Operation.raises_cases raised with other | ⟨limit, text, parses, _, same⟩
    · exact absurd ⟨rejection, source, rfl⟩ other
    · cases same
      have shown : Report.ofFailure (.rejected ⟨(Pipeline.warnings limit source).map Diagnostic.asError⟩ source) = _ :=
        Report.ofDiagnostics_asError source (Pipeline.warnings limit source)
      have quiet := Report.shows_warnings limit source .warning
      rw [Report.withSeverity_warnings] at quiet
      refine ⟨limit, _, _, parses, Pipeline.parse_lenient limit source, ?_, quiet, shown, ?_⟩
      · rw [shown]
        exact Report.shows_warnings limit source .error
      · rw [Report.ofFailure, Report.flatMap_primaryOffsets, List.flatMap_map]
        exact (Pipeline.points_warnings limit source).2
  case other =>
    intro other
    exact Report.ofFailure_of_not_isRejection fun ⟨rejection, source, same⟩ => other rejection source same

/-- Two approvals without steps are two problems of a strict parse. -/
theorem failures_reported_of_approvals :
    let source := "pipeline \x7b stage('Approve') \x7b input 'Ship?' \x7d stage('Sign off') \x7b input 'Sure?' \x7d \x7d"
    let settings : Settings := { Settings.default with options := ⟨8, true⟩ }
    ∃ failure, settings.parse source = .error failure ∧
      (Report.ofFailure failure).map Report.message =
        ["stage `Approve` has no steps block", "stage `Sign off` has no steps block"] ∧
      ((Report.ofFailure failure).flatMap Report.primaryOffsets).Pairwise (· < ·) := by
  intro source settings
  have two : (Pipeline.warnings 8 source).map Diagnostic.message =
      ["stage `Approve` has no steps block", "stage `Sign off` has no steps block"] := by decide +kernel
  have noisy : Pipeline.warnings 8 source ≠ [] := by
    intro silent
    rw [silent] at two
    cases two
  have failed : settings.parse source =
      .error (.rejected ⟨(Pipeline.warnings 8 source).map Diagnostic.asError⟩ source) := by
    rw [Settings.parse, Pipeline.parse_strict, if_neg noisy]
  obtain ⟨_, shown, _⟩ :=
    (@failures_reported Unit).1 (.parse settings source) _ failed
  obtain ⟨limit, stages, diagnostics, ⟨options, _⟩, lenient, reports, _, _, ordered⟩ := shown _ _ rfl
  obtain rfl : 8 = limit := congrArg Pipeline.Options.maxDepth options
  obtain rfl : Pipeline.warnings 8 source = diagnostics :=
    congrArg Pipeline.Parsed.diagnostics (Except.ok.inj ((Pipeline.parse_lenient 8 source).symm.trans lenient))
  exact ⟨_, failed, (Report.messages_of_shows reports).trans two, ordered⟩

end PipelineChart
