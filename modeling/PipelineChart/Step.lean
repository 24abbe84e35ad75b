import PipelineChart.Text.Glyph

/-!
Steps: the quoted arguments of calls to the known verbs, in the order in which they stand.
-/

namespace PipelineChart.Step

open Text

variable {α : Type} [Glyph α]

def verbs : List String := ["sh", "echo", "bat"]

def pattern : String := "(?:sh|echo|bat)\\s*\\(?\\s*['\"](.+?)['\"]\\s*\\)?"

def afterVerb? : List String → List α → Option (List α)
  | [], _ => none
  | verb :: others, text =>
      match after? verb.toList text with
      | some rest => some rest
      | none => afterVerb? others text

def afterOptional (mark : Char) : List α → List α
  | [] => []
  | glyph :: text => if Glyph.char glyph = mark then text else glyph :: text

def upToQuote? : List α → Option (List α × List α)
  | [] => none
  | glyph :: text =>
      if isQuote glyph then some ([], text)
      else if isNewline glyph then none
      else (upToQuote? text).map fun (argument, rest) => (glyph :: argument, rest)

/-- An argument has one glyph at least, and only that one may be a quote. It stays on its line. -/
def argument? : List α → Option (List α × List α)
  | [] => none
  | glyph :: text =>
      if isNewline glyph then none
      else (upToQuote? text).map fun (argument, rest) => (glyph :: argument, rest)

def call? (text : List α) : Option (List α × List α) :=
  (afterVerb? verbs text).bind fun rest =>
    (afterQuote? (dropBlanks (afterOptional '(' (dropBlanks rest)))).bind fun quoted =>
      (argument? quoted).map fun (argument, rest) =>
        (argument, afterOptional ')' (dropBlanks rest))

theorem afterVerb?_length {words : List String} {text rest : List α}
    (found : afterVerb? words text = some rest) : rest.length ≤ text.length := by
  induction words with
  | nil => simp [afterVerb?] at found
  | cons verb others ih =>
    simp only [afterVerb?] at found
    split at found
    · rename_i taken
      have := after?_length taken
      simp only [Option.some.injEq] at found
      subst found
      omega
    · exact ih found

theorem afterOptional_length (mark : Char) (text : List α) :
    (afterOptional mark text).length ≤ text.length := by
  cases text with
  | nil => simp [afterOptional]
  | cons glyph text =>
    simp only [afterOptional]
    split <;> simp

theorem upToQuote?_length {text argument rest : List α}
    (found : upToQuote? text = some (argument, rest)) : rest.length < text.length := by
  induction text generalizing argument with
  | nil => simp [upToQuote?] at found
  | cons glyph text ih =>
    simp only [upToQuote?] at found
    split at found
    · simp_all
    · split at found
      · simp at found
      · obtain ⟨⟨inner, last⟩, closed, same⟩ := Option.map_eq_some_iff.mp found
        simp only [Prod.mk.injEq] at same
        obtain ⟨_, rfl⟩ := same
        have := ih closed
        simp only [List.length_cons]
        omega

theorem call?_shorter {text argument rest : List α} (found : call? text = some (argument, rest)) :
    rest.length < text.length := by
  obtain ⟨begun, verb, found⟩ := Option.bind_eq_some_iff.mp found
  obtain ⟨quoted, quote, found⟩ := Option.bind_eq_some_iff.mp found
  obtain ⟨⟨inner, last⟩, read, same⟩ := Option.map_eq_some_iff.mp found
  simp only [Prod.mk.injEq] at same
  obtain ⟨_, rfl⟩ := same
  have verbLength := afterVerb?_length verb
  have quoteLength := afterQuote?_length quote
  have inBlanks := dropBlanks_length (afterOptional '(' (dropBlanks begun))
  have inMark := afterOptional_length '(' (dropBlanks begun)
  have outBlanks := dropBlanks_length begun
  have endMark := afterOptional_length ')' (dropBlanks last)
  have endBlanks := dropBlanks_length last
  have argumentLength : last.length < quoted.length := by
    cases quoted with
    | nil => simp [argument?] at read
    | cons glyph text =>
      simp only [argument?] at read
      split at read
      · simp at read
      · obtain ⟨⟨inner', last'⟩, closed, same⟩ := Option.map_eq_some_iff.mp read
        simp only [Prod.mk.injEq] at same
        obtain ⟨_, rfl⟩ := same
        have := upToQuote?_length closed
        simp only [List.length_cons]
        omega
  omega

theorem leftmost_call?_shorter {text argument rest : List α}
    (found : leftmost? call? text = some (argument, rest)) : rest.length < text.length := by
  obtain ⟨before, last, rfl, reading⟩ := leftmost?_suffix found
  have := call?_shorter reading
  simp only [List.length_append]
  omega

def arguments (text : List α) : List (List α) :=
  match _call : leftmost? call? text with
  | none => []
  | some (argument, rest) => argument :: arguments rest
termination_by text.length
decreasing_by exact leftmost_call?_shorter _call

def extract (text : String) : List String := (arguments text.toList).map String.ofList

end PipelineChart.Step
