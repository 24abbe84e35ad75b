import PipelineChart.Proofs.CommandLine.AllOrNothing
import PipelineChart.Proofs.Pipeline.Strict

/-!
Settings that were accepted when they were loaded. Metrics and style were checked then, wherever the settings
came from, and a strict run changes neither. So whatever is asked of them later passes: a run under them can
fail with its files only, or with its input where it is strict.
-/

namespace PipelineChart

namespace Settings

variable {settings : Settings}

structure Accepted (settings : Settings) : Prop where
  metrics : settings.metrics.check = .ok ()
  style : settings.style.check = .ok ()

theorem accepted_default : Accepted default where
  metrics := by decide +kernel
  style := by decide +kernel

theorem accepted_of_file {text : String} (fits : ofFile text = .ok settings) : Accepted settings := by
  unfold ofFile at fits
  split at fits
  · cases fits
  · split at fits
    · rename_i passed
      cases fits
      obtain ⟨_, metrics, style⟩ := bind_eq_ok_iff.mp passed
      exact ⟨metrics, style⟩
    · cases fits

theorem render_of_accepted (accepted : settings.Accepted) (chart : Chart Single) (format : DocumentFormat)
    (style : Json.Style) : ∃ document, settings.render chart format style = .ok document := by
  cases format with
  | layout => exact ⟨_, rfl⟩
  | flow =>
    unfold render
    rw [accepted.style]
    exact ⟨_, rfl⟩

theorem parse_eq_error {source : String} {failure : Failure} (failed : settings.parse source = .error failure) :
    settings.options.strict = true ∧ ∃ rejection, failure = .rejected rejection source := by
  obtain ⟨metrics, ⟨limit, strict⟩, style⟩ := settings
  unfold parse at failed
  cases strict with
  | false =>
    rw [Pipeline.parse_lenient] at failed
    cases failed
  | true =>
    refine ⟨rfl, ?_⟩
    split at failed
    · cases failed
    · rename_i rejection _
      exact ⟨rejection, (Except.error.inj failed).symm⟩

theorem document_cases {arguments : Arguments} {source : String} {failure : Failure}
    (failed : arguments.document settings source = .error failure) :
    settings.parse source = .error failure ∨ (∃ stages, settings.chart stages = .error failure) ∨
      ∃ chart, settings.render chart arguments.format arguments.style = .error failure := by
  simp only [Arguments.document, bind_eq_error_iff] at failed
  rcases failed with rejected | ⟨parsed, _, unplaced | ⟨chart, _, unrendered | ⟨_, _, ended⟩⟩⟩
  · exact Or.inl rejected
  · exact Or.inr (Or.inl ⟨_, unplaced⟩)
  · exact Or.inr (Or.inr ⟨chart, unrendered⟩)
  · cases ended

theorem document_eq_error (accepted : settings.Accepted) {arguments : Arguments} {source : String}
    {failure : Failure} (failed : arguments.document settings source = .error failure) :
    settings.options.strict = true ∧ ∃ rejection, failure = .rejected rejection source := by
  rcases document_cases failed with rejected | ⟨stages, unplaced⟩ | ⟨chart, unrendered⟩
  · exact parse_eq_error rejected
  · cases (chart_of_check accepted.metrics stages).symm.trans unplaced
  · obtain ⟨document, rendered⟩ := render_of_accepted accepted chart arguments.format arguments.style
    cases rendered.symm.trans unrendered

end Settings

namespace Arguments

theorem accepted_settings (arguments : Arguments) {loaded : Settings} (accepted : loaded.Accepted) :
    (arguments.settings loaded).Accepted := by
  rw [settings_eq]
  exact ⟨accepted.metrics, accepted.style⟩

theorem strict_settings (arguments : Arguments) (loaded : Settings) :
    (arguments.settings loaded).options.strict = (loaded.options.strict || arguments.strict) := by
  rw [settings_eq]

end Arguments

namespace FileSystem

variable {σ : Type} (files : FileSystem σ) {system : Option String} {state : σ} {loaded : Settings}

theorem accepted_of_load {given : Option String} (loading : (files.load system given state).1 = .ok loaded) :
    loaded.Accepted := by
  rw [load_eq_ok_iff] at loading
  rcases files.settings_cases system given state with unset | ⟨path, found⟩
  · cases unset.symm.trans loading
    exact Settings.accepted_default
  · obtain ⟨_, text, _, fits⟩ := files.settingsAt_eq_ok_iff.mp (found.symm.trans loading)
    exact Settings.accepted_of_file fits

theorem drawn_cases {arguments : Arguments} {failure : Failure}
    (failed : files.drawn system arguments state = .error failure) :
    files.settings system arguments.config state = .error failure ∨
      files.readText state arguments.input = .error failure ∨
      ∃ loaded source, files.settings system arguments.config state = .ok loaded ∧
        files.readText state arguments.input = .ok source ∧
        arguments.document (arguments.settings loaded) source = .error failure := by
  simp only [drawn, bind_eq_error_iff] at failed
  rcases failed with unset | ⟨loaded, set, unread | ⟨source, text, refused⟩⟩
  · exact Or.inl unset
  · exact Or.inr (Or.inl unread)
  · exact Or.inr (Or.inr ⟨loaded, source, set, text, refused⟩)

section

variable {arguments : Arguments} (loading : (files.load system arguments.config state).1 = .ok loaded)

include loading

theorem drawn_eq_error {failure : Failure} (failed : files.drawn system arguments state = .error failure) :
    (∃ fault : DiskFault, failure = .file fault.message) ∨
      ((loaded.options.strict || arguments.strict) = true ∧
        ∃ rejection source, failure = .rejected rejection source) := by
  have accepted := arguments.accepted_settings (files.accepted_of_load loading)
  rw [load_eq_ok_iff] at loading
  rw [← arguments.strict_settings]
  rcases files.drawn_cases failed with unset | unread | ⟨_, source, set, _, refused⟩
  · cases loading.symm.trans unset
  · exact Or.inl (files.readText_eq_error unread)
  · cases loading.symm.trans set
    obtain ⟨strict, rejection, rejected⟩ := Settings.document_eq_error accepted refused
    exact Or.inr ⟨strict, rejection, source, rejected⟩

theorem drawn_of_lenient (lenient : (loaded.options.strict || arguments.strict) = false) {source : String}
    (reading : files.read state arguments.input = .ok source) :
    ∃ drawing, files.drawn system arguments state = .ok drawing := by
  have accepted := arguments.accepted_settings (files.accepted_of_load loading)
  rw [load_eq_ok_iff] at loading
  rw [← arguments.strict_settings] at lenient
  unfold drawn
  rw [loading, files.readText_eq_ok_iff.mpr reading]
  change ∃ drawing, arguments.document (arguments.settings loaded) source = .ok drawing
  cases ended : arguments.document (arguments.settings loaded) source with
  | ok drawing => exact ⟨drawing, rfl⟩
  | error failure =>
    obtain ⟨strict, _⟩ := Settings.document_eq_error accepted ended
    cases lenient.symm.trans strict

end

/-- Settings that could be loaded pass both checks. So a run that loads them fails only with a file, or by
rejecting its input where a strict parse was asked for; and where it is lenient, it draws any input that can be
read, and succeeds if the document can be written. -/
theorem run_of_loaded {given : Option String}
    (loading : (files.load system given state).1 = .ok loaded) :
    loaded.metrics.check = .ok () ∧ loaded.style.check = .ok () ∧
    ∀ arguments : Arguments, arguments.config = given →
      (∀ failure, (files.run system arguments state).1 = .error failure →
        (∃ fault : DiskFault, failure = .file fault.message) ∨
        ((loaded.options.strict || arguments.strict) = true ∧
          ∃ rejection source, failure = .rejected rejection source)) ∧
      ((loaded.options.strict || arguments.strict) = false →
        ∀ source, files.read state arguments.input = .ok source →
          ∃ document, files.Draws system arguments state document ∧
            ((files.write state arguments.output document).1 = .ok () →
              ∃ reports, (files.run system arguments state).1 = .ok reports)) := by
  have accepted := files.accepted_of_load loading
  refine ⟨accepted.metrics, accepted.style, ?_⟩
  rintro arguments rfl
  constructor
  · intro failure failed
    rcases files.run_cases system arguments state with ⟨_, undrawn, ended⟩ | ⟨_, _, _, writing⟩
    · rw [ended] at failed
      cases failed
      exact files.drawn_eq_error loading undrawn
    · rcases writing with ⟨fault, _, _, ended⟩ | ⟨_, _, ended⟩
      · rw [ended] at failed
        exact Or.inl ⟨fault, (Except.error.inj failed).symm⟩
      · rw [ended] at failed
        cases failed
  · intro lenient source reading
    obtain ⟨⟨document, reports⟩, drawn⟩ := files.drawn_of_lenient loading lenient reading
    refine ⟨document, files.draws_iff.mpr ⟨reports, drawn⟩, fun writable => ⟨reports, ?_⟩⟩
    rw [run_eq, drawn]
    dsimp only
    rcases written : files.write state arguments.output document with ⟨fault | done, after⟩
    · rw [written] at writable
      cases writable
    · rfl

/-- A lenient run on a disk in memory, under settings of its own, draws a pipeline that is never closed. -/
theorem run_of_loaded_in_memory :
    let disk : MemoryDisk := ⟨["w"], [(["w"], .directory),
      (["w", "in"], .file "pipeline \x7b stage('A') \x7b steps \x7b sh 'x' \x7d".toUTF8),
      (["w", "c"], .file "parser.max_depth = 3".toUTF8)]⟩
    let arguments : Arguments := ⟨"in", "out", some "c", "info", .layout, false, false⟩
    let loaded : Settings := { Settings.default with options := ⟨3, false⟩ }
    (MemoryDisk.fileSystem.load none (some "c") disk).1 = .ok loaded ∧ loaded.metrics.check = .ok () ∧
      loaded.style.check = .ok () ∧
      ∃ reports, (MemoryDisk.fileSystem.run none arguments disk).1 = .ok reports := by
  intro disk arguments loaded
  have config : disk.resolve "c" = .ok ["w", "c"] :=
    MemoryDisk.resolve_name (by cbv) (by decide +kernel) rfl
  have input : disk.resolve "in" = .ok ["w", "in"] :=
    MemoryDisk.resolve_name (by cbv) (by decide +kernel) rfl
  have output : disk.resolve "out" = .ok ["w", "out"] :=
    MemoryDisk.resolve_name (by cbv) (by decide +kernel) rfl
  have decoded : Settings.ofFile "parser.max_depth = 3" = .ok loaded :=
    eq_ok_of_toOption (by decide +kernel)
  have loading : (MemoryDisk.fileSystem.load none (some "c") disk).1 = .ok loaded := by
    rw [load_eq]
    exact MemoryDisk.settings_of_file config rfl decoded none
  obtain ⟨metrics, style, runs⟩ := run_of_loaded MemoryDisk.fileSystem loading
  obtain ⟨document, _, succeeds⟩ :=
    (runs arguments rfl).2 rfl _ (MemoryDisk.read_of_file input rfl)
  have names : "out".endsWith "/" = false := by decide +kernel
  have written := MemoryDisk.write_of_place names output rfl document
  refine ⟨loading, metrics, style, succeeds ?_⟩
  exact congrArg Prod.fst (MemoryDisk.fileSystem_write written)

end FileSystem

end PipelineChart
