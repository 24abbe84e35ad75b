import PipelineChart.Proofs.Stage.Declaration
import PipelineChart.Proofs.Step.Pattern

/-!
The pattern of declarations. Each eager run is of blanks, and what is read behind it is no blank, so no run ever
gives anything back. Only the name is tried at several lengths, the shortest first. So the first reading of the
pattern is the declaration that is read off a text.
-/

namespace PipelineChart.Stage

open Text
open Step (quotes read?_quote read?_quote_eq_none read?_blanks)

def closingPattern : Pattern := [.one quotes, .many .blank, .one (.only ')'), .many .blank, .one (.only '{')]

def declarationPattern : Pattern :=
  "stage".toList.map (fun letter => .one (.only letter)) ++
    .many .blank :: .one (.only '(') :: .many .blank :: .one quotes :: .captured .inline :: closingPattern

theorem text_declarationPattern : declarationPattern.text = Declaration.pattern := by
  decide +kernel

section

variable (parts : Pattern)

theorem read?_word (word text : List Char) :
    Pattern.read? (word.map (fun letter => .one (.only letter)) ++ parts) text =
      (after? word text).bind parts.read? := by
  induction word generalizing text with
  | nil => rfl
  | cons letter word ih =>
    rw [List.map_cons, List.cons_append, Pattern.read?_one]
    cases text with
    | nil => rfl
    | cons glyph text =>
      rw [CharSet.after?, CharSet.holds, after?, char_self]
      by_cases same : glyph = letter
      · rw [if_pos same, if_pos (beq_iff_eq.mpr same)]
        exact ih text
      · rw [if_neg same, if_neg (beq_iff_eq.not.mpr same)]
        rfl

theorem read?_mark (mark : Char) (text : List Char) :
    Pattern.read? (.one (.only mark) :: parts) text = (after? [mark] text).bind parts.read? :=
  read?_word parts [mark] text

theorem read?_blanks_mark {mark : Char} (visible : isBlank mark = false) (text : List Char) :
    Pattern.read? (.many .blank :: .one (.only mark) :: parts) text =
      (after? [mark] (dropBlanks text)).bind parts.read? := by
  rw [read?_blanks, read?_mark]
  intro glyph rest blank _
  have other : glyph ≠ mark := by
    intro same
    rw [same, visible] at blank
    cases blank
  rw [read?_mark, after?, char_self, if_neg other]
  rfl

theorem read?_blanks_quote (text : List Char) :
    Pattern.read? (.many .blank :: .one quotes :: parts) text =
      (afterQuote? (dropBlanks text)).bind parts.read? := by
  rw [read?_blanks, read?_quote]
  intro glyph rest blank _
  exact read?_quote_eq_none (isQuote_of_isBlank blank) parts rest

end

namespace Declaration

theorem read?_closingPattern (text : List Char) :
    closingPattern.read? text = (closing? text).map fun rest => ([], rest) := by
  rw [closingPattern, read?_quote, closing?, Option.map_bind]
  congr 1
  funext quoted
  rw [read?_blanks_mark _ rfl, Function.comp_apply, Option.map_bind]
  congr 1
  funext rest
  rw [read?_blanks_mark _ rfl, Function.comp_apply, Option.map_eq_bind]
  rfl

/-- A run goes on, glyph by glyph, until a closing can be read behind it: so it is the shortest name. -/
theorem read?_name (text : List Char) :
    Pattern.read? (.captured .inline :: closingPattern) text = name? text := by
  induction text with
  | nil => rfl
  | cons glyph text ih =>
    rw [Pattern.read?_captured, ih, read?_closingPattern, name?, CharSet.holds]
    cases isNewline glyph with
    | true => rfl
    | false => cases closing? text <;> rfl

theorem read?_declarationPattern (text : List Char) :
    declarationPattern.read? text = (read? text).map fun declaration => (declaration.name, declaration.inside) := by
  rw [declarationPattern, read?_word, read?, Option.map_bind]
  congr 1
  funext word
  rw [read?_blanks_mark _ rfl, Function.comp_apply, Option.map_bind]
  congr 1
  funext opened
  rw [read?_blanks_quote, Function.comp_apply, Option.map_bind]
  congr 1
  funext quoted
  rw [read?_name, Function.comp_apply, Option.map_map]
  exact Option.map_id'.symm

theorem leftmost?_declarationPattern {α : Type} [Glyph α] (text : List α) :
    leftmost? declarationPattern.read? (Text.chars text) = (leftmost? read? text).map fun declaration =>
      (Text.chars declaration.name, Text.chars declaration.inside) := by
  refine leftmost?_chars (fun text => ?_) text
  rw [read?_declarationPattern, read?_chars, Option.map_map]
  rfl

example : declarationPattern.read? "stage('a') stage(\"b') \x7b".toList = some ("a') stage(\"b".toList, []) := by
  decide +kernel

end Declaration

end PipelineChart.Stage
