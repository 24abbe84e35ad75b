import PipelineChart.Proofs.Text.Reading

/-!
Patterns: parts that are read one behind the other. A part may be read in several ways, of which an eager part prefers
those that take more of the text, and a captured run those that take less. A part is read in the first way behind
which the other parts can be read, so it falls back to its next reading where they cannot.
-/

namespace PipelineChart.Text

inductive CharSet where
  | only (char : Char)
  | among (chars : List Char)
  | blank
  | inline

namespace CharSet

def holds : CharSet → Char → Bool
  | only mark, char => char == mark
  | among marks, char => marks.contains char
  | blank, char => isBlank char
  | inline, char => !isNewline char

/-- Characters that stand for themselves only behind a backslash. -/
def special : List Char := ['\\', '.', '+', '*', '?', '(', ')', '|', '[', ']', '{', '}', '^', '$']

def text : CharSet → String
  | only mark => (if mark ∈ special then "\\" else "") ++ String.singleton mark
  | among marks => "[" ++ String.ofList marks ++ "]"
  | blank => "\\s"
  | inline => "."

def after? (set : CharSet) : List Char → Option (List Char)
  | [] => none
  | char :: text => if set.holds char then some text else none

/-- What may be left of a text behind a run, the longest run first. -/
def eager (set : CharSet) : List Char → List (List Char)
  | [] => [[]]
  | char :: text => if set.holds char then set.eager text ++ [char :: text] else [char :: text]

/-- The runs of one character at least, the shortest first, each with what it leaves. -/
def lazy (set : CharSet) : List Char → List (List Char × List Char)
  | [] => []
  | char :: text =>
      if set.holds char then
        ([char], text) :: (set.lazy text).map (Prod.map (char :: ·) id)
      else []

end CharSet

inductive Part where
  | word (choices : List String)
  | one (set : CharSet)
  | optional (set : CharSet)
  | many (set : CharSet)
  | captured (set : CharSet)

namespace Part

def text : Part → String
  | word choices => "(?:" ++ "|".intercalate choices ++ ")"
  | one set => set.text
  | optional set => set.text ++ "?"
  | many set => set.text ++ "*"
  | captured set => "(" ++ set.text ++ "+?)"

/-- What a part captures of a text and what it leaves, in the order of preference. -/
def readings (text : List Char) : Part → List (List Char × List Char)
  | word choices => (choices.filterMap fun word => Text.after? word.toList text).map fun rest => ([], rest)
  | one set => (set.after? text).toList.map fun rest => ([], rest)
  | optional set => ((set.after? text).toList ++ [text]).map fun rest => ([], rest)
  | many set => (set.eager text).map fun rest => ([], rest)
  | captured set => set.lazy text

end Part

abbrev Pattern := List Part

namespace Pattern

def text (pattern : Pattern) : String := String.join (pattern.map Part.text)

def read? : Pattern → List Char → Option (List Char × List Char)
  | [], text => some ([], text)
  | part :: parts, text => (part.readings text).findSome? fun reading =>
      (read? parts reading.2).map (Prod.map (reading.1 ++ ·) id)

/-- What is captured at the leftmost place where the pattern can be read, then at the leftmost one behind that
reading, and so on. -/
inductive Captures (pattern : Pattern) : List Char → List (List Char) → Prop where
  | none {text : List Char} (absent : leftmost? pattern.read? text = none) : Captures pattern text []
  | some {text captured rest : List Char} {others : List (List Char)}
      (found : leftmost? pattern.read? text = some (captured, rest)) (behind : Captures pattern rest others) :
      Captures pattern text (captured :: others)

variable {set : CharSet} {parts : Pattern}

theorem findSome?_uncaptured (parts : Pattern) (rests : List (List Char)) :
    (rests.map fun rest => (([] : List Char), rest)).findSome? (fun reading =>
      (read? parts reading.2).map (Prod.map (reading.1 ++ ·) id)) = rests.findSome? (read? parts) := by
  rw [List.findSome?_map]
  congr 1
  funext rest
  exact Option.map_id'

theorem read?_one (set : CharSet) (parts : Pattern) (text : List Char) :
    read? (.one set :: parts) text = (set.after? text).bind (read? parts) := by
  rw [read?, Part.readings, findSome?_uncaptured]
  cases set.after? text <;> simp

theorem read?_optional (set : CharSet) (parts : Pattern) (text : List Char) :
    read? (.optional set :: parts) text = ((set.after? text).bind (read? parts)).or (read? parts text) := by
  rw [read?, Part.readings, findSome?_uncaptured, List.findSome?_append]
  cases set.after? text <;> simp

/-- An eager run takes all that it may, unless the parts behind can be read off what it takes but not behind it. -/
theorem read?_many (refused : ∀ char rest, set.holds char = true →
      read? parts (rest.dropWhile set.holds) = none → read? parts (char :: rest) = none) (text : List Char) :
    read? (.many set :: parts) text = read? parts (text.dropWhile set.holds) := by
  rw [read?, Part.readings, findSome?_uncaptured]
  induction text with
  | nil => simp [CharSet.eager]
  | cons char text ih =>
    unfold CharSet.eager
    by_cases held : set.holds char
    · rw [if_pos held, List.findSome?_append, ih, List.dropWhile_cons_of_pos held]
      cases found : read? parts (text.dropWhile set.holds) with
      | some reading => rfl
      | none => simp [refused char text held found]
    · rw [if_neg held, List.dropWhile_cons_of_neg held]
      simp

theorem read?_captured (set : CharSet) (parts : Pattern) (char : Char) (text : List Char) :
    read? (.captured set :: parts) (char :: text) =
      if set.holds char then
        ((read? parts text).or (read? (.captured set :: parts) text)).map (Prod.map (char :: ·) id)
      else none := by
  rw [read?, Part.readings, CharSet.lazy]
  split_ifs with held
  · have longer : ((set.lazy text).map (Prod.map (char :: ·) id)).findSome? (fun reading =>
        (read? parts reading.2).map (Prod.map (reading.1 ++ ·) id)) =
        (read? (.captured set :: parts) text).map (Prod.map (char :: ·) id) := by
      rw [read?, Part.readings, List.map_findSome?, List.findSome?_map]
      congr 1
      funext reading
      rw [Function.comp_apply, Function.comp_apply, Option.map_map]
      rfl
    rw [List.findSome?_cons, longer]
    cases read? parts text <;> rfl
  · rfl

end Pattern

end PipelineChart.Text
