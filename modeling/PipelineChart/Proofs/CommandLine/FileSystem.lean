import PipelineChart.CommandLine.Run

/-!
File systems. A path leads to a place, and a place may hold content. Asking and reading change nothing,
and any operation may fail. A write that succeeds changes the place of its path alone; nothing is said
of what one that fails leaves behind. A disk in memory is such a file system.
-/

namespace PipelineChart

structure FileSystem (σ : Type) where
  Place : Type
  place : σ → String → Option Place
  content : σ → Place → Option ByteArray
  isPresent : σ → String → Bool
  read : σ → String → Except DiskFault String
  write : σ → String → String → Except DiskFault Unit × σ
  of_read {state : σ} {path text : String} (readable : read state path = .ok text) :
    ∃ found, place state path = some found ∧ content state found = some text.toUTF8
  of_write {state after : σ} {path text : String} (written : write state path text = (.ok (), after)) :
    ∃ found, place state path = some found ∧ content after found = some text.toUTF8 ∧
      ∀ other, other ≠ found → content after other = content state other

namespace FileSystem

variable {σ : Type} (files : FileSystem σ)

@[reducible]
def disk : Disk (StateM σ) where
  isPresent path state := (files.isPresent state path, state)
  read path state := (files.read state path, state)
  write path text state := files.write state path text

def load (system given : Option String) (state : σ) : Except Failure Settings × σ :=
  letI := files.disk
  (Settings.load system given : ExceptT Failure (StateM σ) Settings).run.run state

def run (system : Option String) (arguments : Arguments) (state : σ) :
    Except Failure (List Report) × σ :=
  letI := files.disk
  (Arguments.run system arguments : ExceptT Failure (StateM σ) (List Report)).run.run state

def execute (system : Option String) (words : List String) (state : σ) : Outcome × σ :=
  letI := files.disk
  (PipelineChart.execute system words : StateM σ Outcome).run state

section

variable {α β : Type}

theorem run_asked (question : StateM σ α) (next : α → ExceptT Failure (StateM σ) β) (state : σ) :
    (liftM question >>= next).run.run state =
      (next (question.run state).1).run.run (question.run state).2 := rfl

theorem run_bind (action : ExceptT Failure (StateM σ) α) (next : α → ExceptT Failure (StateM σ) β)
    (state : σ) :
    (action >>= next).run.run state =
      match action.run.run state with
      | (.ok value, after) => (next value).run.run after
      | (.error failure, after) => (.error failure, after) := by
  change (ExceptT.bindCont next (action.run.run state).1).run (action.run.run state).2 = _
  rcases action.run.run state with ⟨_ | _, after⟩ <;> rfl

end

theorem run_present {α : Type} (path : String) (found missing : ExceptT Failure (StateM σ) α)
    (state : σ) :
    letI := files.disk
    (do if ← (Disk.isPresent path : StateM σ Bool) then found else missing :
        ExceptT Failure (StateM σ) α).run.run state =
      if files.isPresent state path then found.run.run state else missing.run.run state := by
  let := files.disk
  refine (run_asked _ _ state).trans ?_
  change StateT.run (ExceptT.run (if files.isPresent state path then _ else _)) state = _
  cases files.isPresent state path <;> rfl

def readText (state : σ) (path : String) : Except Failure String :=
  match files.read state path with
  | .ok text => .ok text
  | .error fault => .error (.file fault.message)

theorem readText_eq_ok_iff {state : σ} {path text : String} :
    files.readText state path = .ok text ↔ files.read state path = .ok text := by
  unfold readText
  cases files.read state path <;> simp

theorem readText_eq_error {state : σ} {path : String} {failure : Failure}
    (failed : files.readText state path = .error failure) :
    ∃ fault : DiskFault, failure = .file fault.message := by
  unfold readText at failed
  split at failed
  · cases failed
  · rename_i fault _
    exact ⟨fault, (Except.error.inj failed).symm⟩

theorem run_readText (path : String) (state : σ) :
    letI := files.disk
    (Settings.readText path : ExceptT Failure (StateM σ) String).run.run state =
      (files.readText state path, state) := by
  let := files.disk
  unfold Settings.readText readText
  rw [run_asked]
  dsimp only [Disk.read, StateT.run]
  cases files.read state path <;> rfl

def settingsAt (state : σ) (path : String) : Except Failure Settings :=
  if files.isPresent state path then
    match files.readText state path with
    | .error failure => .error failure
    | .ok text =>
        match Settings.ofFile text with
        | .ok settings => .ok settings
        | .error fault => .error fault.failure
  else .error (LoadFault.missing path).failure

theorem settingsAt_eq_ok_iff {state : σ} {path : String} {loaded : Settings} :
    files.settingsAt state path = .ok loaded ↔ files.isPresent state path ∧
      ∃ text, files.read state path = .ok text ∧ Settings.ofFile text = .ok loaded := by
  simp only [← readText_eq_ok_iff]
  unfold settingsAt
  cases files.isPresent state path with
  | false => simp
  | true =>
    cases files.readText state path with
    | error failure => simp
    | ok text =>
      dsimp only [↓reduceIte]
      cases fits : Settings.ofFile text <;> simp [fits]

theorem run_loadFrom (path : String) (state : σ) :
    letI := files.disk
    (Settings.loadFrom path : ExceptT Failure (StateM σ) Settings).run.run state =
      (files.settingsAt state path, state) := by
  let := files.disk
  refine (files.run_present path _ _ state).trans ?_
  unfold settingsAt
  cases files.isPresent state path with
  | false => rfl
  | true =>
    refine (run_bind (Settings.readText path) _ state).trans ?_
    rw [files.run_readText path state]
    cases files.readText state path with
    | error failure => rfl
    | ok text =>
      dsimp only [↓reduceIte]
      cases Settings.ofFile text <;> rfl

/-- The settings of the first candidate that is there: the given path, whether it is there or not, else the
file of the directory, else that of the system. -/
def settings (system given : Option String) (state : σ) : Except Failure Settings :=
  match given with
  | some path => files.settingsAt state path
  | none =>
      if files.isPresent state Settings.localPath then files.settingsAt state Settings.localPath
      else
        match system with
        | none => .ok .default
        | some path => if files.isPresent state path then files.settingsAt state path else .ok .default

theorem settings_cases (system given : Option String) (state : σ) :
    files.settings system given state = .ok .default ∨
      ∃ path, files.settings system given state = files.settingsAt state path := by
  unfold settings
  cases given with
  | some path => exact Or.inr ⟨path, rfl⟩
  | none =>
    cases files.isPresent state Settings.localPath with
    | true => exact Or.inr ⟨_, rfl⟩
    | false =>
      cases system with
      | none => exact Or.inl rfl
      | some path =>
        dsimp only
        cases files.isPresent state path with
        | true => exact Or.inr ⟨path, rfl⟩
        | false => exact Or.inl rfl

theorem load_eq (system given : Option String) (state : σ) :
    files.load system given state = (files.settings system given state, state) := by
  let := files.disk
  unfold load settings
  cases given with
  | some path => exact files.run_loadFrom path state
  | none =>
    refine (files.run_present Settings.localPath _ _ state).trans ?_
    cases files.isPresent state Settings.localPath with
    | true => exact files.run_loadFrom Settings.localPath state
    | false =>
      cases system with
      | none => rfl
      | some path =>
        refine (files.run_present path _ _ state).trans ?_
        dsimp only
        cases files.isPresent state path with
        | true => exact files.run_loadFrom path state
        | false => rfl

theorem load_eq_ok_iff {system given : Option String} {state : σ} {loaded : Settings} :
    (files.load system given state).1 = .ok loaded ↔ files.settings system given state = .ok loaded := by
  rw [load_eq]

end FileSystem

namespace MemoryDisk

theorem lookup_putEntry (path : DiskPath) (entry : DiskEntry) (entries : List (DiskPath × DiskEntry))
    (other : DiskPath) :
    (putEntry path entry entries).lookup other =
      if other = path then some entry else entries.lookup other := by
  induction entries with
  | nil =>
    by_cases same : other = path
    · simp [putEntry, same]
    · simp [putEntry, List.lookup_cons, same, beq_false_of_ne same]
  | cons first entries ih =>
    obtain ⟨place, old⟩ := first
    unfold putEntry
    by_cases known : place = path
    · by_cases same : other = path
      · simp [known, same]
      · simp [List.lookup_cons, known, same, beq_false_of_ne same]
    · by_cases here : other = place
      · simp [known, here]
      · simp [List.lookup_cons, known, ih, beq_false_of_ne here]

/-- The root stays a directory whatever is put. -/
theorem find?_put (disk : MemoryDisk) {path : DiskPath} (proper : path ≠ []) (entry : DiskEntry)
    (other : DiskPath) :
    (disk.put path entry).find? other = if other = path then some entry else disk.find? other := by
  unfold find?
  by_cases root : other = []
  · have different : other ≠ path := fun same => proper (same.symm.trans root)
    rw [if_pos root, if_neg different, if_pos root]
  · rw [if_neg root, if_neg root]
    exact lookup_putEntry path entry disk.entries other

def content (disk : MemoryDisk) (path : DiskPath) : Option ByteArray :=
  match disk.find? path with
  | some (.file bytes) => some bytes
  | _ => none

theorem toUTF8_of_fromUTF8? {bytes : ByteArray} {text : String}
    (readable : String.fromUTF8? bytes = some text) : text.toUTF8 = bytes := by
  unfold String.fromUTF8? at readable
  split at readable
  · cases readable
    rfl
  · cases readable

theorem resolve_name {disk : MemoryDisk} {name : String} (single : name.splitOn "/" = [name])
    (proper : '\x00' ∉ name.toList ∧ name ∉ ["", ".", ".."] ∧ name.utf8ByteSize ≤ 255 ∧
      name.startsWith "/" = false)
    (begins : disk.find? disk.current = some .directory) : disk.resolve name = .ok (disk.current ++ [name]) := by
  obtain ⟨text, step, short, relative⟩ := proper
  simp only [List.mem_cons, List.not_mem_nil, or_false, not_or] at step
  obtain ⟨filled, here, parent⟩ := step
  have whole : ¬ 4095 < name.utf8ByteSize := by omega
  have part : ¬ 255 < name.utf8ByteSize := by omega
  simp [resolve, place, walk, single, text, filled, here, parent, whole, part, relative, begins]

theorem read_of_file {disk : MemoryDisk} {path text : String} {found : DiskPath}
    (leads : disk.resolve path = .ok found) (stands : disk.find? found = some (.file text.toUTF8)) :
    disk.read path = .ok text := by
  have decoded : String.fromUTF8? text.toUTF8 = some text := dif_pos text.isValidUTF8
  simp only [read, leads, stands, decoded, bind, Except.bind, pure, Except.pure]

theorem write_of_place {disk : MemoryDisk} {path : String} {found : DiskPath}
    (names : path.endsWith "/" = false) (leads : disk.resolve path = .ok found)
    (free : (disk.find? found).any DiskEntry.isDirectory = false) (text : String) :
    disk.write path text = .ok (disk.put found (.file text.toUTF8)) := by
  simp [write, names, leads, free, bind, Except.bind, pure, Except.pure]

theorem content_of_read {disk : MemoryDisk} {path text : String} (readable : disk.read path = .ok text) :
    ∃ found, (disk.resolve path).toOption = some found ∧ disk.content found = some text.toUTF8 := by
  unfold read at readable
  cases resolved : disk.resolve path with
  | error fault =>
    rw [resolved] at readable
    cases readable
  | ok found =>
    simp only [resolved, bind, Except.bind, pure, Except.pure] at readable
    refine ⟨found, rfl, ?_⟩
    unfold content
    split at readable
    · cases readable
    · cases readable
    · rename_i bytes standing
      rw [standing]
      split at readable
      · rename_i decoded
        cases readable
        exact congrArg some (toUTF8_of_fromUTF8? decoded).symm
      · cases readable

theorem content_of_write {disk after : MemoryDisk} {path text : String}
    (written : disk.write path text = .ok after) :
    ∃ found, (disk.resolve path).toOption = some found ∧ after.content found = some text.toUTF8 ∧
      ∀ other, other ≠ found → after.content other = disk.content other := by
  simp only [write, bind, Except.bind, pure, Except.pure, throw, throwThe, MonadExceptOf.throw]
    at written
  split at written
  · split at written
    · cases written
    · split at written <;> cases written
  · cases resolved : disk.resolve path with
    | error fault =>
      rw [resolved] at written
      cases written
    | ok found =>
      simp only [resolved] at written
      split at written
      · cases written
      · rename_i plain
        cases written
        have proper : found ≠ [] := by
          rintro rfl
          exact plain rfl
        refine ⟨found, rfl, ?_, fun other different => ?_⟩
        · rw [content, find?_put disk proper, if_pos rfl]
        · rw [content, content, find?_put disk proper, if_neg different]

def fileSystem : FileSystem MemoryDisk where
  Place := DiskPath
  place disk path := (disk.resolve path).toOption
  content := content
  isPresent := isPresent
  read := read
  write disk path text :=
    match disk.write path text with
    | .ok after => (.ok (), after)
    | .error fault => (.error fault, disk)
  of_read := content_of_read
  of_write := by
    intro disk after path text written
    split at written
    · rename_i after' done
      cases written
      exact content_of_write done
    · cases written

theorem fileSystem_write {disk after : MemoryDisk} {path text : String}
    (written : disk.write path text = .ok after) : fileSystem.write disk path text = (.ok (), after) := by
  simp only [fileSystem, written]

theorem settings_of_file {disk : MemoryDisk} {path text : String} {found : DiskPath} {loaded : Settings}
    (leads : disk.resolve path = .ok found) (stands : disk.find? found = some (.file text.toUTF8))
    (fits : Settings.ofFile text = .ok loaded) (system : Option String) :
    fileSystem.settings system (some path) disk = .ok loaded := by
  have present : disk.isPresent path = true := by
    simp only [isPresent, leads, stands]
    rfl
  exact fileSystem.settingsAt_eq_ok_iff.mpr ⟨present, text, read_of_file leads stands, fits⟩

end MemoryDisk

end PipelineChart
