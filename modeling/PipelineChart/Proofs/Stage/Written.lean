import PipelineChart.Proofs.Stage.Forest
import PipelineChart.Proofs.Stage.Scan
import PipelineChart.Proofs.Stage.Silent

/-!
Stages as they are written, and scanned back. A stage is a block whose heading declares its name, and it
holds one block: that of its steps, or that of its branches.
-/

namespace PipelineChart

open Text

mutual

/-- A stage, with a style for each call by the path that leads to it. -/
def Stage.text (style : List Nat → Step.Style) : Stage → List Char
  | .leaf name steps =>
      Block.write (Stage.Declaration.heading name)
        [Block.write "steps" (Step.write (fun index => style [index]) steps)]
  | .parallel name branches =>
      Block.write (Stage.Declaration.heading name)
        [Block.write "parallel" (Forest.texts (fun index path => style (index :: path)) branches)]

def Forest.texts (style : Nat → List Nat → Step.Style) : List Stage → List (List Char)
  | [] => []
  | stage :: stages => stage.text (style 0) :: Forest.texts (fun index => style (index + 1)) stages

end

structure PlainTexts (names : List String) (leaves : List Leaf) : Prop where
  names : ∀ name ∈ names, Plain name.toList
  steps : ∀ leaf ∈ leaves, ∀ step ∈ leaf.steps, Plain step.toList

namespace PlainTexts

theorem of_leaf {name : String} {steps : List String}
    (plain : PlainTexts (Stage.leaf name steps).names (Stage.leaf name steps).leaves) :
    Plain name.toList ∧ ∀ step ∈ steps, Plain step.toList :=
  ⟨plain.names name List.mem_cons_self, plain.steps ⟨name, steps⟩ List.mem_cons_self⟩

theorem of_parallel {name : String} {branches : List Stage}
    (plain : PlainTexts (Stage.parallel name branches).names (Stage.parallel name branches).leaves) :
    Plain name.toList ∧ PlainTexts (Forest.names branches) (Forest.leaves branches) := by
  rcases plain with ⟨names, steps⟩
  rw [Stage.names, List.forall_mem_cons] at names
  rw [Stage.leaves] at steps
  exact ⟨names.1, names.2, steps⟩

theorem of_cons {stage : Stage} {stages : List Stage}
    (plain : PlainTexts (Forest.names (stage :: stages)) (Forest.leaves (stage :: stages))) :
    PlainTexts stage.names stage.leaves ∧ PlainTexts (Forest.names stages) (Forest.leaves stages) := by
  rcases plain with ⟨names, steps⟩
  rw [Forest.names, List.forall_mem_append] at names
  rw [Forest.leaves, List.forall_mem_append] at steps
  exact ⟨⟨names.1, steps.1⟩, names.2, steps.2⟩

end PlainTexts

/-- A property that a block has when the words and calls in it have. -/
structure Compositional (p : List Char → Prop) : Prop where
  block : ∀ {heading : String} {texts : List (List Char)}, p heading.toList → (∀ text ∈ texts, p text) →
    p (Block.write heading texts)
  heading : ∀ {name : String}, Plain name.toList → p (Stage.Declaration.heading name).toList
  steps : p "steps".toList
  parallel : p "parallel".toList
  call : ∀ (style : Step.Style) {step : String}, Plain step.toList → p (style.write step)

namespace Compositional

variable {p : List Char → Prop}

mutual

theorem stage (compositional : Compositional p) : (stage : Stage) → (style : List Nat → Step.Style) →
    PlainTexts stage.names stage.leaves → p (stage.text style)
  | .leaf name steps, style, plain => by
      rcases plain.of_leaf with ⟨named, steps⟩
      unfold Stage.text
      apply compositional.block (compositional.heading named)
      rw [List.forall_mem_singleton]
      exact compositional.block compositional.steps (Step.forall_write compositional.call _ steps)
  | .parallel name branches, style, plain => by
      rcases plain.of_parallel with ⟨named, plain⟩
      unfold Stage.text
      apply compositional.block (compositional.heading named)
      rw [List.forall_mem_singleton]
      exact compositional.block compositional.parallel (compositional.forest branches _ plain)

theorem forest (compositional : Compositional p) : (stages : List Stage) →
    (style : Nat → List Nat → Step.Style) →
    PlainTexts (Forest.names stages) (Forest.leaves stages) → ∀ text ∈ Forest.texts style stages, p text
  | [], _, _ => by simp [Forest.texts]
  | stage :: stages, style, plain => by
      rcases plain.of_cons with ⟨first, others⟩
      rw [Forest.texts, List.forall_mem_cons]
      exact ⟨compositional.stage stage _ first, compositional.forest stages _ others⟩

end

theorem balanced : Compositional Block.Balanced where
  block := Block.Balanced.write
  heading := by
    intro name plain
    have word : Block.Balanced ("stage".toList ++ ['(', '\'']) :=
      Block.Balanced.of_unbraced (by decide) (by decide)
    have mark : Block.Balanced ['\'', ')'] := Block.Balanced.of_unbraced (by decide) (by decide)
    rw [Stage.Declaration.heading_toList]
    exact word.append ((Block.Balanced.of_unbraced plain.unbraced.1 plain.unbraced.2).append mark)
  steps := Block.Balanced.of_unbraced (by decide) (by decide)
  parallel := Block.Balanced.of_unbraced (by decide) (by decide)
  call := by
    intro style step plain
    obtain ⟨opened, closed⟩ := Step.unbraced_write style plain
    exact Block.Balanced.of_unbraced opened closed

theorem untouched : Compositional Comment.Untouched where
  block := Comment.Untouched.write
  heading := by
    intro name plain
    have word : Comment.Untouched ("stage".toList ++ ['(', '\'']) :=
      Comment.Untouched.of_absent (by decide)
    have argument : Comment.Untouched (name.toList ++ ['\'']) :=
      Comment.Untouched.quoted plain.uncommented rfl
    have parenthesis : Comment.Untouched [')'] := Comment.Untouched.glyph (by decide)
    have ending := argument.append parenthesis
    rw [List.append_assoc, List.singleton_append] at ending
    rw [Stage.Declaration.heading_toList]
    exact word.append ending
  steps := Comment.Untouched.of_absent (by decide)
  parallel := Comment.Untouched.of_absent (by decide)
  call := Step.untouched_write

end Compositional

theorem solid_block (heading : String) (texts : List (List Char)) : Solid (Block.write heading texts) :=
  ⟨heading.toList ++ ' ' :: '{' :: '\n' :: lines texts, '}', by simp [Block.write], rfl⟩

theorem trim_block {heading : String} (visible : ∃ first others, heading.toList = first :: others ∧
    isBlank first = false) (texts : List (List Char)) :
    trim ('\n' :: lines [Block.write heading texts]) = Block.write heading texts := by
  rcases visible with ⟨first, others, spelled, visible⟩
  have solid := solid_block heading texts
  rw [Block.write, spelled, List.cons_append] at solid ⊢
  exact trim_newline_line visible solid

theorem Stage.solid_text (stage : Stage) (style : List Nat → Step.Style) : Solid (stage.text style) := by
  cases stage with
  | leaf name steps => exact solid_block _ _
  | parallel name branches => exact solid_block _ _

theorem Forest.solid_texts (stages : List Stage) (style : Nat → List Nat → Step.Style) :
    ∀ text ∈ Forest.texts style stages, Solid text := by
  induction stages generalizing style with
  | nil => simp [Forest.texts]
  | cons stage stages ih =>
    rw [Forest.texts, List.forall_mem_cons]
    exact ⟨stage.solid_text _, ih _⟩

namespace Outline

variable {limit depth : Nat}

open Stage.Declaration

theorem declared_text {name : String} (plain : Plain name.toList) (texts : List (List Char))
    (rest : List Char) :
    leftmost? read? (Block.write (heading name) texts ++ rest) =
      some ⟨(heading name).toList ++ [' ', '{'], name.toList, '\n' :: lines texts ++ '}' :: rest⟩ := by
  have whole : Block.write (heading name) texts ++ rest =
      ((heading name).toList ++ [' ', '{']) ++ ('\n' :: lines texts ++ '}' :: rest) := by
    simp [Block.write]
  rw [whole]
  exact leftmost?_of_some (read?_declares (declares_heading plain) _)

theorem closed_text {texts : List (List Char)} (balanced : ∀ text ∈ texts, Block.Balanced text)
    (rest : List Char) :
    Block.close? 0 ('\n' :: lines texts ++ '}' :: rest) = some ('\n' :: lines texts, rest) := by
  have newline : Block.Balanced ['\n'] := Block.Balanced.glyph (by decide) (by decide)
  exact (newline.append (Block.Balanced.lines balanced)).close rest

theorem scan_congr {text other : List Char}
    (same : leftmost? read? text = leftmost? read? other) :
    scan limit depth text = scan limit depth other := by
  rw [scan, scan, ← same]

theorem scan_silent {text : List Char} (silent : Silent text) (rest : List Char) :
    scan limit depth (text ++ rest) = scan limit depth rest :=
  scan_congr (silent rest)

theorem scan_dropBlanks (text : List Char) :
    scan limit depth (dropBlanks text) = scan limit depth text := by
  apply scan_congr
  apply leftmost?_dropBlanks
  intro glyph rest blank
  apply read?_cons_eq_none
  intro same
  subst same
  exact absurd blank (by decide)

theorem silent_leaf (style : Nat → Step.Style) {steps : List String}
    (plain : ∀ step ∈ steps, Plain step.toList) :
    Silent ('\n' :: lines [Block.write "steps" (Step.write style steps)] ++ ['}']) := by
  have newline : Silent ['\n'] := Silent.of_absent (by decide)
  have closing : Silent ['}', '\n', '}'] := Silent.of_absent (by decide)
  have calls : Silent (lines (Step.write style steps)) :=
    Silent.additive.lines (Step.forall_write Silent.call style plain)
  have whole : '\n' :: lines [Block.write "steps" (Step.write style steps)] ++ ['}'] =
      ['\n'] ++ ("steps".toList ++ [' ', '{'] ++
        (['\n'] ++ (lines (Step.write style steps) ++ ['}', '\n', '}']))) := by
    rw [lines_cons, Block.write]
    simp [lines]
  rw [whole]
  exact newline.append (Silent.steps.append (newline.append (calls.append closing)))

theorem arguments_lines (style : Nat → Step.Style) {steps : List String}
    (plain : ∀ step ∈ steps, Plain step.toList) :
    (Step.arguments (trim ('\n' :: lines (Step.write style steps)))).map string = steps := by
  have solid : ∀ text ∈ Step.write style steps, Solid text :=
    Step.forall_write (fun style step _ => Step.solid_write style step) style plain
  rw [trim_newline_lines solid, Step.arguments_dropBlanks, Step.arguments_led style plain, List.map_map]
  exact (List.map_congr_left fun step _ => by simp [string]).trans (List.map_id steps)

theorem scan_leaf_text {name : String} {steps : List String} (style : List Nat → Step.Style)
    (plain : PlainTexts (Stage.leaf name steps).names (Stage.leaf name steps).leaves)
    (rest : List Char) :
    scan limit depth ((Stage.leaf name steps).text style ++ rest) =
      (scan limit depth rest).stage (.leaf name steps) := by
  rcases plain.of_leaf with ⟨named, arguments⟩
  unfold Stage.text
  generalize (fun index => style [index]) = style
  have calls := Step.forall_write Compositional.balanced.call style arguments
  have inner := Block.Balanced.write Compositional.balanced.steps calls
  have closed := closed_text (List.forall_mem_singleton.mpr inner) rest
  have body : trim ('\n' :: lines [Block.write "steps" (Step.write style steps)]) = _ :=
    trim_block ⟨'s', "teps".toList, by decide, by decide⟩ _
  have unlocated : Block.locate "parallel".toList (Block.write "steps" (Step.write style steps)) =
      .error .missing := by
    apply Block.locate_write_missing (by decide) (by decide)
    exact Step.forall_write (fun style _ plain => (Step.unbraced_write style plain).1) style arguments
  rw [← body] at unlocated
  have located := Block.locate_write "steps" calls []
  rw [List.append_nil] at located
  have silent : scan limit depth _ = scan limit depth rest :=
    scan_silent (silent_leaf style arguments) rest
  rw [List.append_assoc, List.singleton_append] at silent
  rw [scan_of_leaf (declared_text named _ rest) closed unlocated, silent, body, leaf, located]
  show stage (.leaf (string name.toList) _) _ = _
  rw [arguments_lines style arguments, string, chars_self, String.ofList_toList]

theorem foldr_stage (stages : List Stage) (outline : Outline Char) :
    stages.foldr Outline.stage outline = ⟨stages ++ outline.stages, outline.problems⟩ := by
  induction stages with
  | nil => rfl
  | cons stage stages ih =>
    rw [List.foldr_cons, ih]
    rfl

theorem scan_parallel_text {name : String} {branches : List Stage} (style : List Nat → Step.Style)
    (plain : PlainTexts (Stage.parallel name branches).names (Stage.parallel name branches).leaves)
    (shallow : depth < limit) (rest : List Char)
    (scanned : ∀ style, scan limit (depth + 1) (led (Forest.texts style branches)) = ⟨branches, []⟩) :
    scan limit depth ((Stage.parallel name branches).text style ++ rest) =
      (scan limit depth rest).stage (.parallel name branches) := by
  rcases plain.of_parallel with ⟨named, plain⟩
  unfold Stage.text
  generalize (fun index path => style (index :: path)) = style
  have texts := Compositional.balanced.forest branches style plain
  have inner := Block.Balanced.write Compositional.balanced.parallel texts
  have closed := closed_text (List.forall_mem_singleton.mpr inner) rest
  have body : trim ('\n' :: lines [Block.write "parallel" (Forest.texts style branches)]) = _ :=
    trim_block ⟨'p', "arallel".toList, by decide, by decide⟩ _
  have located := Block.locate_write "parallel" texts []
  rw [List.append_nil, ← body] at located
  rw [scan_of_block (declared_text named _ rest) closed located, if_neg (not_le.mpr shallow),
    trim_newline_lines (Forest.solid_texts branches style), scan_dropBlanks, scanned]
  show parallel (string name.toList) ⟨branches, []⟩ _ = _
  rw [string, chars_self, String.ofList_toList]
  rfl

mutual

theorem scan_text : (stage : Stage) → (style : List Nat → Step.Style) → (depth : Nat) →
    PlainTexts stage.names stage.leaves → depth + stage.nesting ≤ limit → (rest : List Char) →
    scan limit depth (stage.text style ++ rest) = (scan limit depth rest).stage stage
  | .leaf _ _, style, _, plain, _, rest => scan_leaf_text style plain rest
  | .parallel name branches, style, depth, plain, shallow, rest => by
      rw [Stage.nesting] at shallow
      apply scan_parallel_text style plain (by omega) rest
      intro style
      have scanned := scan_texts branches style (depth + 1) plain.of_parallel.2 (by omega) []
      have nothing : scan limit (depth + 1) ([] : List Char) = empty := scan_of_absent rfl
      rw [List.append_nil, nothing, foldr_stage] at scanned
      rw [scanned, empty, List.append_nil]

theorem scan_texts : (stages : List Stage) → (style : Nat → List Nat → Step.Style) → (depth : Nat) →
    PlainTexts (Forest.names stages) (Forest.leaves stages) → depth + Forest.nesting stages ≤ limit →
    (rest : List Char) → scan limit depth (led (Forest.texts style stages) ++ rest) =
      stages.foldr Outline.stage (scan limit depth rest)
  | [], _, _, _, _, _ => rfl
  | stage :: stages, style, depth, plain, shallow, rest => by
      rcases plain.of_cons with ⟨first, others⟩
      rw [Forest.nesting] at shallow
      have newline : Silent ['\n'] := Silent.of_absent (by decide)
      let later := led (Forest.texts (fun index => style (index + 1)) stages) ++ rest
      calc
        _ = scan limit depth (['\n'] ++ (stage.text (style 0) ++ later)) := by
          rw [Forest.texts, led_cons, List.cons_append, List.append_assoc]
          rfl
        _ = scan limit depth (stage.text (style 0) ++ later) := scan_silent newline _
        _ = (scan limit depth later).stage stage := scan_text stage (style 0) depth first (by omega) _
        _ = (stages.foldr Outline.stage (scan limit depth rest)).stage stage :=
          congrArg (Outline.stage stage) (scan_texts stages _ depth others (by omega) rest)

end

theorem scan_stages {stages : List Stage} (style : Nat → List Nat → Step.Style)
    (plain : PlainTexts (Forest.names stages) (Forest.leaves stages))
    (shallow : depth + Forest.nesting stages ≤ limit) :
    scan limit depth (Block.write "stages" (Forest.texts style stages)) = ⟨stages, []⟩ := by
  have nothing : scan limit depth ['\n', '}'] = empty := scan_of_absent rfl
  calc
    _ = scan limit depth ("stages".toList ++ [' ', '{'] ++
        (led (Forest.texts style stages) ++ ['\n', '}'])) := by
      rw [List.append_cons _ '\n', ← newline_lines]
      simp [Block.write]
    _ = scan limit depth (led (Forest.texts style stages) ++ ['\n', '}']) :=
      scan_silent Silent.stages _
    _ = stages.foldr Outline.stage empty := by
      rw [scan_texts stages style depth plain shallow, nothing]
    _ = ⟨stages, []⟩ := by rw [foldr_stage, empty, List.append_nil]

end Outline

end PipelineChart
