import Mathlib
import PipelineChart.Proofs.CommandLine.FileSystem
import PipelineChart.Proofs.Settings.Partial

/-!
Runs are all or nothing. Everything that can fail but the writing itself comes before the writing, and
asks the file system only. So a run that fails before it writes has changed nothing, and one that
succeeds has changed its output alone, which then holds the document of its input.
-/

namespace PipelineChart

theorem bind_eq_error_iff {ε α β : Type} {first : Except ε α} {next : α → Except ε β} {fault : ε} :
    (first >>= next) = .error fault ↔
      first = .error fault ∨ ∃ middle, first = .ok middle ∧ next middle = .error fault := by
  cases first with
  | error other =>
    constructor
    · intro failed
      exact Or.inl (congrArg Except.error (Except.error.inj failed))
    · rintro (failed | ⟨_, passed, _⟩)
      · exact congrArg Except.error (Except.error.inj failed)
      · cases passed
  | ok middle =>
    constructor
    · intro rest
      exact Or.inr ⟨middle, rfl, rest⟩
    · rintro (failed | ⟨_, same, rest⟩)
      · cases failed
      · cases same
        exact rest

theorem eq_ok_of_toOption {ε α : Type} {outcome : Except ε α} {value : α}
    (given : outcome.toOption = some value) : outcome = .ok value := by
  cases outcome with
  | error fault => cases given
  | ok result => exact congrArg Except.ok (Option.some.inj given)

theorem Arguments.settings_eq (arguments : Arguments) (loaded : Settings) :
    arguments.settings loaded = { loaded with
      options := ⟨loaded.options.maxDepth, loaded.options.strict || arguments.strict⟩ } := by
  obtain ⟨metrics, ⟨limit, strict⟩, style⟩ := loaded
  unfold settings
  cases arguments.strict <;> simp

namespace FileSystem

variable {σ : Type} (files : FileSystem σ)

/-- A document drawn from what the state has: settings are loaded, the input is read and parsed, its stages are
placed, and the chart is rendered. -/
def Draws (system : Option String) (arguments : Arguments) (state : σ) (document : String) : Prop :=
  ∃ loaded source parsed chart, (files.load system arguments.config state).1 = .ok loaded ∧
    files.read state arguments.input = .ok source ∧
    let settings : Settings := { loaded with
      options := ⟨loaded.options.maxDepth, loaded.options.strict || arguments.strict⟩ }
    settings.parse source = .ok parsed ∧ settings.chart parsed.stages = .ok chart ∧
      settings.render chart arguments.format arguments.style = .ok document

/-- What a run has come to before it writes: a document and the reports on its input. -/
def drawn (system : Option String) (arguments : Arguments) (state : σ) :
    Except Failure (String × List Report) := do
  let loaded ← files.settings system arguments.config state
  let source ← files.readText state arguments.input
  arguments.document (arguments.settings loaded) source

theorem draws_iff {system : Option String} {arguments : Arguments} {state : σ} {document : String} :
    files.Draws system arguments state document ↔
      ∃ reports, files.drawn system arguments state = .ok (document, reports) := by
  simp only [Draws, drawn, Arguments.document, Arguments.settings_eq, files.load_eq, bind_eq_ok_iff,
    readText_eq_ok_iff]
  constructor
  · rintro ⟨loaded, source, parsed, chart, loading, reading, parsing, placing, rendering⟩
    exact ⟨_, loaded, loading, source, reading, parsed, parsing, chart, placing, document, rendering, rfl⟩
  · rintro ⟨reports, loaded, loading, source, reading, parsed, parsing, chart, placing, text, rendering, same⟩
    cases same
    exact ⟨loaded, source, parsed, chart, loading, reading, parsing, placing, rendering⟩

theorem run_write {α : Type} (path text : String) (value : α) (state : σ) :
    letI := files.disk
    (do
      match ← (Disk.write path text : StateM σ (Except DiskFault Unit)) with
      | .ok () => return value
      | .error fault => throw (.file fault.message) : ExceptT Failure (StateM σ) α).run.run state =
      match files.write state path text with
      | (.ok (), after) => (.ok value, after)
      | (.error fault, after) => (.error (.file fault.message), after) := by
  let := files.disk
  refine (run_asked _ _ state).trans ?_
  change StateT.run (ExceptT.run (match (files.write state path text).1 with
    | .ok () => _
    | .error fault => _)) (files.write state path text).2 = _
  rcases files.write state path text with ⟨_ | _, after⟩ <;> rfl

theorem run_eq (system : Option String) (arguments : Arguments) (state : σ) :
    files.run system arguments state =
      match files.drawn system arguments state with
      | .error failure => (.error failure, state)
      | .ok (document, reports) =>
          match files.write state arguments.output document with
          | (.ok (), after) => (.ok reports, after)
          | (.error fault, after) => (.error (.file fault.message), after) := by
  let := files.disk
  unfold run Arguments.run drawn
  rw [run_bind]
  have loading := files.load_eq system arguments.config state
  unfold load at loading
  rw [loading]
  cases files.settings system arguments.config state with
  | error failure => rfl
  | ok loaded =>
    dsimp only
    rw [run_bind, files.run_readText]
    cases files.readText state arguments.input with
    | error failure => rfl
    | ok source =>
      dsimp only
      have prepared (outcome : Except Failure (String × List Report)) :
          (ExceptT.mk (pure outcome) : ExceptT Failure (StateM σ) _).run.run state =
            (outcome, state) := rfl
      rw [run_bind, prepared]
      simp only [bind, Except.bind]
      cases arguments.document (arguments.settings loaded) source with
      | error failure => rfl
      | ok drawing =>
        exact files.run_write arguments.output drawing.1 drawing.2 state

theorem run_cases (system : Option String) (arguments : Arguments) (state : σ) :
    (∃ failure, files.drawn system arguments state = .error failure ∧
      files.run system arguments state = (.error failure, state)) ∨
    ∃ document reports, files.drawn system arguments state = .ok (document, reports) ∧
      ((∃ fault after, files.write state arguments.output document = (.error fault, after) ∧
        files.run system arguments state = (.error (.file fault.message), after)) ∨
      ∃ after, files.write state arguments.output document = (.ok (), after) ∧
        files.run system arguments state = (.ok reports, after)) := by
  rw [run_eq]
  cases files.drawn system arguments state with
  | error failure => exact Or.inl ⟨failure, rfl, rfl⟩
  | ok drawing =>
    obtain ⟨document, reports⟩ := drawing
    refine Or.inr ⟨document, reports, rfl, ?_⟩
    dsimp only
    rcases files.write state arguments.output document with ⟨fault | done, after⟩
    · exact Or.inl ⟨fault, after, rfl, rfl⟩
    · exact Or.inr ⟨after, rfl, rfl⟩

theorem execute_eq (system : Option String) (words : List String) (state : σ) :
    files.execute system words state =
      match Arguments.parse words with
      | .error refusal => (refusal.outcome, state)
      | .ok arguments =>
          match files.run system arguments state with
          | (.ok reports, after) => (⟨0, "", arguments.notice, reports⟩, after)
          | (.error failure, after) =>
              (⟨1, "", arguments.notice, Report.ofFailure failure⟩, after) := by
  let := files.disk
  unfold execute PipelineChart.execute
  cases Arguments.parse words with
  | error refusal => rfl
  | ok arguments =>
    dsimp only
    rw [StateT.run_bind]
    unfold run
    rcases (Arguments.run system arguments : ExceptT Failure (StateM σ) (List Report)).run.run state with
      ⟨_ | _, after⟩ <;> rfl

theorem status_eq_one_iff (system : Option String) (words : List String) (state : σ) :
    (files.execute system words state).1.status = 1 ↔
      ∃ arguments, Arguments.parse words = .ok arguments ∧
        ∃ failure, (files.run system arguments state).1 = .error failure := by
  rw [execute_eq]
  cases Arguments.parse words with
  | error refusal =>
    have passed : refusal.outcome.status ≠ 1 := by
      unfold Refusal.outcome
      split <;> decide
    simp [passed]
  | ok arguments =>
    have same : (∃ called, Except.ok arguments = (.ok called : Except Refusal Arguments) ∧
        ∃ failure, (files.run system called state).1 = .error failure) ↔
        ∃ failure, (files.run system arguments state).1 = .error failure := by simp
    rw [same]
    dsimp only
    rcases files.run system arguments state with ⟨failure | reports, after⟩ <;> simp

/-- A run fails before it writes, and the file system stays as it was, or it writes the document of its input:
where that succeeds, the output holds the document and every other place what it held. Only a failed run ends a
call with status one. -/
theorem run_all_or_nothing (system : Option String) (arguments : Arguments) (state : σ) :
    let outcome := files.run system arguments state
    (∀ failure, outcome.1 = .error failure →
      (outcome.2 = state ∧ ∀ document, ¬ files.Draws system arguments state document) ∨
      ∃ document fault, files.Draws system arguments state document ∧
        files.write state arguments.output document = (.error fault, outcome.2)) ∧
    (∀ reports, outcome.1 = .ok reports →
      ∃ document found, files.Draws system arguments state document ∧
        files.place state arguments.output = some found ∧
        files.content outcome.2 found = some document.toUTF8 ∧
        ∀ other, other ≠ found → files.content outcome.2 other = files.content state other) ∧
    (∀ words, (files.execute system words state).1.status = 1 ↔
      ∃ called, Arguments.parse words = .ok called ∧
        ∃ failure, (files.run system called state).1 = .error failure) ∧
    (∀ words, Arguments.parse words = .ok arguments →
      (files.execute system words state).2 = outcome.2) := by
  intro outcome
  have endings := files.run_cases system arguments state
  change (∃ failure, _ ∧ outcome = _) ∨ ∃ document reports, _ ∧
    ((∃ fault after, _ ∧ outcome = _) ∨ ∃ after, _ ∧ outcome = _) at endings
  refine ⟨?fails, ?succeeds, fun words => files.status_eq_one_iff system words state, ?call⟩
  case fails =>
    intro failure failed
    rcases endings with ⟨_, undrawn, ended⟩ | ⟨document, reports, drawn, writing⟩
    · refine Or.inl ⟨congrArg Prod.snd ended, fun document drawn => ?_⟩
      obtain ⟨reports, same⟩ := files.draws_iff.mp drawn
      cases undrawn.symm.trans same
    · rcases writing with ⟨fault, after, written, ended⟩ | ⟨after, _, ended⟩
      · refine Or.inr ⟨document, fault, files.draws_iff.mpr ⟨reports, drawn⟩, ?_⟩
        rw [written, ended]
      · rw [ended] at failed
        cases failed
  case succeeds =>
    intro reports succeeded
    rcases endings with ⟨_, _, ended⟩ | ⟨document, reports', drawn, writing⟩
    · rw [ended] at succeeded
      cases succeeded
    · rcases writing with ⟨fault, after, _, ended⟩ | ⟨after, written, ended⟩
      · rw [ended] at succeeded
        cases succeeded
      · obtain ⟨found, leads, holds, others⟩ := files.of_write written
        rw [ended]
        exact ⟨document, found, files.draws_iff.mpr ⟨reports', drawn⟩, leads, holds, others⟩
  case call =>
    intro words parsed
    rw [execute_eq, parsed]
    dsimp only
    change _ = (files.run system arguments state).2
    rcases files.run system arguments state with ⟨_ | _, after⟩ <;> rfl

/-- A strict run on a disk in memory, under settings of its own: the output holds the document, and the input
is as it was. -/
theorem run_writes_in_memory :
    let source := "pipeline \x7b stage('A') \x7b steps \x7b sh 'x' \x7d \x7d \x7d"
    let disk : MemoryDisk := ⟨["w"], [(["w"], .directory), (["w", "in"], .file source.toUTF8),
      (["w", "c"], .file "parser.max_depth = 3".toUTF8)]⟩
    let arguments : Arguments := ⟨"in", "out", some "c", "info", .layout, false, true⟩
    let outcome := MemoryDisk.fileSystem.run none arguments disk
    let document := "\x7b\"nodes\":[\x7b\"id\":\"stage-A\",\"name\":\"A\",\"steps\":[\"x\"]," ++
      "\"position\":\x7b\"x\":0.0,\"y\":0.0\x7d,\"anchorIn\":\"left\",\"anchorOut\":\"right\"\x7d]," ++
      "\"edges\":[]\x7d"
    outcome.1 = .ok [] ∧ outcome.2.content ["w", "out"] = some document.toUTF8 ∧
      outcome.2.content ["w", "in"] = some source.toUTF8 := by
  intro source disk arguments outcome document
  let loaded : Settings := { Settings.default with options := ⟨3, false⟩ }
  have config : disk.resolve "c" = .ok ["w", "c"] :=
    MemoryDisk.resolve_name (by cbv) (by decide +kernel) rfl
  have input : disk.resolve "in" = .ok ["w", "in"] :=
    MemoryDisk.resolve_name (by cbv) (by decide +kernel) rfl
  have output : disk.resolve "out" = .ok ["w", "out"] :=
    MemoryDisk.resolve_name (by cbv) (by decide +kernel) rfl
  have decoded : Settings.ofFile "parser.max_depth = 3" = .ok loaded :=
    eq_ok_of_toOption (by decide +kernel)
  have rendered : arguments.document (arguments.settings loaded) source = .ok (document, []) :=
    eq_ok_of_toOption (by decide +kernel)
  have drawn : MemoryDisk.fileSystem.drawn none arguments disk = .ok (document, []) := by
    have text : disk.read "in" = .ok source := MemoryDisk.read_of_file input rfl
    unfold FileSystem.drawn
    rw [MemoryDisk.settings_of_file config rfl decoded none, (readText_eq_ok_iff _).mpr text]
    exact rendered
  have names : "out".endsWith "/" = false := by decide +kernel
  have written := MemoryDisk.write_of_place names output rfl document
  have ended : outcome = (.ok [], disk.put ["w", "out"] (.file document.toUTF8)) := by
    refine (run_eq MemoryDisk.fileSystem none arguments disk).trans ?_
    rw [drawn]
    dsimp only
    rw [MemoryDisk.fileSystem_write written]
  have succeeded : outcome.1 = .ok [] := congrArg Prod.fst ended
  obtain ⟨document', found, draws, leads, holds, others⟩ :=
    (run_all_or_nothing MemoryDisk.fileSystem none arguments disk).2.1 [] succeeded
  obtain ⟨reports, same⟩ := (draws_iff _).mp draws
  cases drawn.symm.trans same
  cases (congrArg Except.toOption output).symm.trans leads
  have different : (["w", "in"] : DiskPath) ≠ ["w", "out"] := by decide
  exact ⟨succeeded, holds, (others _ different).trans rfl⟩

end FileSystem

end PipelineChart
