import PipelineChart.Text.Glyph

/-!
Stage declarations: the word `stage`, a quoted name in parentheses, and the brace that opens the
stage, with blanks allowed between them.
-/

namespace PipelineChart.Stage

open Text

variable {α : Type} [Glyph α]

/-- `text` is all of the declaration, its brace included, and `inside` what follows. -/
structure Declaration (α : Type) where
  text : List α
  name : List α
  inside : List α

namespace Declaration

def pattern : String := "stage\\s*\\(\\s*['\"](.+?)['\"]\\s*\\)\\s*\\\x7b"

def closing? (text : List α) : Option (List α) :=
  (afterQuote? text).bind fun quoted =>
    (after? [')'] (dropBlanks quoted)).bind fun rest => after? ['{'] (dropBlanks rest)

/-- A name has one glyph at least, stays on its line, and is the shortest that the closing follows:
it may hold quotes where no closing is complete. -/
def name? : List α → Option (List α × List α)
  | [] => none
  | glyph :: text =>
      if isNewline glyph then none
      else
        match closing? text with
        | some inside => some ([glyph], inside)
        | none => (name? text).map fun (name, inside) => (glyph :: name, inside)

def read? (text : List α) : Option (Declaration α) :=
  (after? "stage".toList text).bind fun word =>
    (after? ['('] (dropBlanks word)).bind fun opened =>
      (afterQuote? (dropBlanks opened)).bind fun quoted =>
        (name? quoted).map fun (name, inside) => ⟨upTo inside text, name, inside⟩

theorem closing?_shorter {text rest : List α} (found : closing? text = some rest) :
    rest.length < text.length := by
  obtain ⟨quoted, quote, found⟩ := Option.bind_eq_some_iff.mp found
  obtain ⟨closed, parenthesis, brace⟩ := Option.bind_eq_some_iff.mp found
  have first := afterQuote?_length quote
  have second := after?_length parenthesis
  have third := after?_length brace
  have blanks := dropBlanks_length quoted
  have more := dropBlanks_length closed
  omega

theorem name?_shorter {text name inside : List α} (found : name? text = some (name, inside)) :
    inside.length < text.length := by
  induction text generalizing name with
  | nil => simp [name?] at found
  | cons glyph text ih =>
    simp only [name?] at found
    split at found
    · simp at found
    · split at found
      · rename_i rest closed
        have := closing?_shorter closed
        simp only [Option.some.injEq, Prod.mk.injEq] at found
        obtain ⟨_, rfl⟩ := found
        simp only [List.length_cons]
        omega
      · obtain ⟨⟨front, last⟩, read, same⟩ := Option.map_eq_some_iff.mp found
        simp only [Prod.mk.injEq] at same
        obtain ⟨_, rfl⟩ := same
        have := ih read
        simp only [List.length_cons]
        omega

theorem read?_shorter {text : List α} {declaration : Declaration α}
    (found : read? text = some declaration) : declaration.inside.length < text.length := by
  obtain ⟨word, keyword, found⟩ := Option.bind_eq_some_iff.mp found
  obtain ⟨opened, parenthesis, found⟩ := Option.bind_eq_some_iff.mp found
  obtain ⟨quoted, quote, found⟩ := Option.bind_eq_some_iff.mp found
  obtain ⟨⟨name, inside⟩, read, rfl⟩ := Option.map_eq_some_iff.mp found
  have first := after?_length keyword
  have second := after?_length parenthesis
  have third := afterQuote?_length quote
  have last := name?_shorter read
  have blanks := dropBlanks_length word
  have more := dropBlanks_length opened
  change inside.length < text.length
  omega

theorem leftmost_read?_shorter {text : List α} {declaration : Declaration α}
    (found : leftmost? read? text = some declaration) :
    declaration.inside.length < text.length := by
  obtain ⟨before, last, rfl, reading⟩ := leftmost?_suffix found
  have := read?_shorter reading
  simp only [List.length_append]
  omega

end Declaration

end PipelineChart.Stage
