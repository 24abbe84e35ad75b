import PipelineChart.Proofs.CommandLine.AllOrNothing

/-!
Candidates for the file of the settings. One that was asked for is the only one, and decides whether it is there or
not; else the first one that is there decides. Settings come from that file alone: they are the same wherever it reads
the same and no candidate before it is there. Where it is malformed or its settings do not pass their checks, loading
fails, whatever the other candidates hold.
-/

namespace PipelineChart

/-- The paths at which the file of the settings is looked for, in this order. -/
def Settings.candidates (system given : Option String) : List String :=
  match given with
  | some path => [path]
  | none => localPath :: system.toList

/-- What comes of the file at a path, by whether it is there and what it reads as. -/
inductive Concludes (path : String) : Bool → Except DiskFault String → Except Failure Settings → Prop where
  | missing {reading : Except DiskFault String} :
      Concludes path false reading (.error (LoadFault.missing path).failure)
  | unreadable {fault : DiskFault} : Concludes path true (.error fault) (.error (.file fault.message))
  | malformed {text : String} {fault : LoadFault} (refused : Settings.ofToml text = .error fault) :
      Concludes path true (.ok text) (.error fault.failure)
  | invalid {text : String} {loaded : Settings} {fault : SettingsFault} (decoded : Settings.ofToml text = .ok loaded)
      (refused : loaded.check = .error fault) :
      Concludes path true (.ok text) (.error (LoadFault.invalid fault).failure)
  | accepted {text : String} {loaded : Settings} (decoded : Settings.ofToml text = .ok loaded)
      (passed : loaded.check = .ok ()) : Concludes path true (.ok text) (.ok loaded)

namespace FileSystem

open Settings

variable {σ τ : Type} (files : FileSystem σ) (others : FileSystem τ) {system given : Option String} {state : σ}
  {state' : τ} {before : List String} {path : String}

/-- A candidate decides if those before it are absent, and unless it was asked for it is there itself. -/
structure Decides (system given : Option String) (state : σ) (before : List String) (path : String) : Prop where
  listed : ∃ behind, candidates system given = before ++ path :: behind
  absent : ∀ other ∈ before, files.isPresent state other = false
  present : given = none → files.isPresent state path = true

def Undecided (system given : Option String) (state : σ) : Prop :=
  given = none ∧ ∀ path ∈ candidates system given, files.isPresent state path = false

theorem concludes_settingsAt (state : σ) (path : String) :
    Concludes path (files.isPresent state path) (files.read state path) (files.settingsAt state path) := by
  unfold settingsAt readText
  cases files.isPresent state path with
  | false => exact .missing
  | true =>
    cases files.read state path with
    | error fault => exact .unreadable
    | ok text =>
      dsimp only [↓reduceIte]
      unfold ofFile
      cases decoded : ofToml text with
      | error fault => exact .malformed decoded
      | ok loaded =>
        dsimp only
        cases checked : loaded.check with
        | error fault => exact .invalid decoded checked
        | ok _ => exact .accepted decoded checked

theorem settingsAt_congr (present : others.isPresent state' path = files.isPresent state path)
    (reads : files.isPresent state path = true → others.read state' path = files.read state path) :
    others.settingsAt state' path = files.settingsAt state path := by
  unfold settingsAt readText
  rw [present]
  split_ifs with there
  · rw [reads there]
  · rfl

def chosen? (system given : Option String) (state : σ) : Option String :=
  match given with
  | some path => some path
  | none => (candidates system none).find? (files.isPresent state)

theorem settings_eq (system given : Option String) (state : σ) :
    files.settings system given state =
      match files.chosen? system given state with
      | some path => files.settingsAt state path
      | none => .ok .default := by
  cases given with
  | some path => rfl
  | none =>
    unfold settings chosen? candidates
    cases present : files.isPresent state localPath with
    | true => simp [present]
    | false =>
      cases system with
      | none => simp [present]
      | some path =>
        dsimp only
        cases there : files.isPresent state path <;> simp [present, there]

theorem chosen?_eq_some_iff :
    files.chosen? system given state = some path ↔ ∃ before, files.Decides system given state before path := by
  cases given with
  | some asked =>
    constructor
    · rintro ⟨⟩
      exact ⟨[], ⟨[], rfl⟩, by simp, by simp⟩
    · rintro ⟨before, ⟨behind, listed⟩, _, _⟩
      rcases List.singleton_eq_append_iff.mp listed with ⟨_, first⟩ | ⟨_, nothing⟩
      · exact congrArg some (List.cons.inj first).1.symm
      · cases nothing
  | none =>
    rw [chosen?, List.find?_eq_some_iff_append]
    constructor
    · rintro ⟨present, before, behind, listed, absent⟩
      exact ⟨before, ⟨behind, listed⟩, fun other member => by simpa using absent other member, fun _ => present⟩
    · rintro ⟨before, ⟨behind, listed⟩, absent, present⟩
      exact ⟨present rfl, before, behind, listed, fun other member => by simp [absent other member]⟩

theorem chosen?_eq_none_iff : files.chosen? system given state = none ↔ files.Undecided system given state := by
  cases given with
  | some asked => simp [chosen?, Undecided]
  | none => simp [chosen?, Undecided]

variable {files others}

theorem Decides.load_eq (decides : files.Decides system given state before path) :
    files.load system given state = (files.settingsAt state path, state) := by
  rw [FileSystem.load_eq, files.settings_eq, (files.chosen?_eq_some_iff).mpr ⟨before, decides⟩]

theorem Decides.transfer (decides : files.Decides system given state before path)
    (agree : ∀ other ∈ before, others.isPresent state' other = files.isPresent state other)
    (present : others.isPresent state' path = files.isPresent state path) :
    others.Decides system given state' before path where
  listed := decides.listed
  absent other member := (agree other member).trans (decides.absent other member)
  present unasked := present.trans (decides.present unasked)

theorem Decides.unique {before' : List String} {path' : String} (decides : files.Decides system given state before path)
    (decides' : files.Decides system given state before' path') : path' = path := by
  have chosen := files.chosen?_eq_some_iff.mpr ⟨before, decides⟩
  have chosen' := files.chosen?_eq_some_iff.mpr ⟨before', decides'⟩
  exact Option.some.inj (chosen'.symm.trans chosen)

variable (files others)

/-- One candidate at most decides. What is loaded is what comes of its file, and it is the same in every other state,
of any file system, in which the candidates before it are absent as well and the file reads the same. If no candidate
decides, the defaults are loaded. -/
theorem load_decided (system given : Option String) (state : σ) (state' : τ) :
    (∀ before path, files.Decides system given state before path →
      Concludes path (files.isPresent state path) (files.read state path) (files.load system given state).1 ∧
      ((∀ other ∈ before, others.isPresent state' other = files.isPresent state other) →
        others.isPresent state' path = files.isPresent state path →
        (files.isPresent state path = true → others.read state' path = files.read state path) →
        (others.load system given state').1 = (files.load system given state).1) ∧
      ∀ before' path', files.Decides system given state before' path' → path' = path) ∧
    ((∃ before path, files.Decides system given state before path) ∨ files.Undecided system given state) ∧
    (files.Undecided system given state → (files.load system given state).1 = .ok .default) := by
  refine ⟨fun before path decides => ⟨?_, fun agree present reads => ?_, fun _ _ => decides.unique⟩, ?_,
    fun undecided => ?_⟩
  · rw [decides.load_eq]
    exact files.concludes_settingsAt state path
  · rw [decides.load_eq, (decides.transfer agree present).load_eq, files.settingsAt_congr others present reads]
  · cases chosen : files.chosen? system given state with
    | some path =>
      obtain ⟨before, decides⟩ := files.chosen?_eq_some_iff.mp chosen
      exact Or.inl ⟨before, path, decides⟩
    | none => exact Or.inr (files.chosen?_eq_none_iff.mp chosen)
  · rw [FileSystem.load_eq, settings_eq, files.chosen?_eq_none_iff.mpr undecided]

/-- Texts by their paths, as a file system on which nothing fails but a read of what is absent. -/
def ofTexts : FileSystem (String → Option String) where
  Place := String
  place _ path := some path
  content state path := (state path).map String.toUTF8
  isPresent state path := (state path).isSome
  read state path := (state path).elim (.error .notFound) .ok
  write state path text := (.ok (), Function.update state path (some text))
  of_read := by
    intro state path text readable
    cases found : state path with
    | none =>
      rw [found] at readable
      cases readable
    | some other =>
      rw [found] at readable
      cases readable
      exact ⟨path, rfl, congrArg (Option.map String.toUTF8) found⟩
  of_write := by
    rintro state _ path text ⟨⟩
    refine ⟨path, rfl, by rw [Function.update_self]; rfl, fun other different => ?_⟩
    rw [Function.update_of_ne different]

theorem ofTexts_of_eq_some {state : String → Option String} {path text : String} (holds : state path = some text) :
    ofTexts.isPresent state path = true ∧ ofTexts.read state path = .ok text := by
  simp only [ofTexts, holds]
  exact ⟨rfl, rfl⟩

/-- A malformed file of the directory decides, be there a file of the system that could be loaded or none. -/
theorem load_malformed :
    let directory : String → Option String := fun path => if path = localPath then some "parser" else none
    let both := Function.update directory "system" (some "parser.strict = true")
    (ofTexts.load (some "system") none both).1 = .error LoadFault.malformed.failure ∧
      (ofTexts.load (some "system") none directory).1 = .error LoadFault.malformed.failure := by
  intro directory both
  have other : localPath ≠ "system" := by decide +kernel
  have holds : both localPath = some "parser" := (Function.update_of_ne other _ _).trans (if_pos rfl)
  obtain ⟨present, reading⟩ := ofTexts_of_eq_some holds
  obtain ⟨present', reading'⟩ := ofTexts_of_eq_some (show directory localPath = some "parser" from if_pos rfl)
  have decides : ofTexts.Decides (some "system") none both [] localPath :=
    ⟨⟨["system"], rfl⟩, by simp, fun _ => present⟩
  have refused : ofToml "parser" = .error .malformed := by
    have unread : Toml.parse? "parser" = none := Option.isNone_iff_eq_none.mp (by decide +kernel)
    rw [ofToml, unread]
  obtain ⟨concludes, same, _⟩ :=
    (load_decided ofTexts ofTexts (some "system") none both directory).1 [] localPath decides
  have failed : (ofTexts.load (some "system") none both).1 = .error LoadFault.malformed.failure := by
    rw [present, reading] at concludes
    generalize (ofTexts.load (some "system") none both).1 = outcome at concludes
    cases concludes with
    | malformed refused' => rw [Except.error.inj (refused'.symm.trans refused)]
    | invalid decoded _ => cases decoded.symm.trans refused
    | accepted decoded _ => cases decoded.symm.trans refused
  exact ⟨failed, (same (by simp) (present'.trans present.symm) fun _ => reading'.trans reading.symm).trans failed⟩

end FileSystem

end PipelineChart
