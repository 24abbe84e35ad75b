import PipelineChart.Text.Glyph

/-!
Removal of comments. A line comment runs from two slashes up to the end of its line, a block comment
from slash and star to the first star and slash behind them. Quotes do not protect either. A block
comment that is never closed is no comment: its characters stay.
-/

namespace PipelineChart.Comment

open Text

variable {α : Type} [Glyph α]

def pattern : String := "//.*|/\\*[\\s\\S]*?\\*/"

def lineRest (text : List α) : List α := text.dropWhile fun glyph => !isNewline glyph

def after? (text : List α) : Option (List α) :=
  match Text.after? "//".toList text with
  | some rest => some (lineRest rest)
  | none => (Text.after? "/*".toList text).bind (leftmost? (Text.after? "*/".toList))

theorem after?_shorter {text rest : List α} (found : after? text = some rest) :
    rest.length < text.length := by
  simp only [after?] at found
  split at found
  · rename_i line opened
    have marker := after?_length opened
    have shorter : (lineRest line).length ≤ line.length := (List.dropWhile_sublist _).length_le
    simp only [Option.some.injEq] at found
    subst found
    have two : "//".toList.length = 2 := by decide
    omega
  · obtain ⟨inside, opened, closed⟩ := Option.bind_eq_some_iff.mp found
    have opening := after?_length opened
    obtain ⟨before, last, split, closing⟩ := leftmost?_suffix closed
    have length := after?_length closing
    have total := congrArg List.length split
    have two : "/*".toList.length = 2 := by decide
    simp only [List.length_append] at total
    omega

def strip : List α → List α
  | [] => []
  | glyph :: text =>
      match _comment : after? (glyph :: text) with
      | some rest => strip rest
      | none => glyph :: strip text
termination_by text => text.length
decreasing_by
  · exact after?_shorter _comment
  · simp

end PipelineChart.Comment
