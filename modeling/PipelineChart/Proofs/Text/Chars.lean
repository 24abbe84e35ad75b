import Mathlib.Data.List.Basic
import PipelineChart.Pipeline

/-!
What is read off a text depends on its characters alone. Each reader, given the characters of a text,
answers with the characters of what it answers for the text; so the stages of a source are those of its
plain characters, and places matter for diagnostics only.
-/

namespace PipelineChart

namespace Text

variable {α : Type} [Glyph α]

@[simp]
theorem char_self (char : Char) : Glyph.char char = char := rfl

@[simp]
theorem chars_nil : chars ([] : List α) = [] := rfl

@[simp]
theorem chars_cons (glyph : α) (text : List α) :
    chars (glyph :: text) = Glyph.char glyph :: chars text := rfl

@[simp]
theorem chars_length (text : List α) : (chars text).length = text.length := List.length_map _

@[simp]
theorem chars_self (text : List Char) : chars text = text := List.map_id text

@[simp]
theorem string_chars (text : List α) : string (chars text) = string text := by
  rw [string, chars_self, string]

@[simp]
theorem isNewline_char (glyph : α) : isNewline (Glyph.char glyph) = isNewline glyph := rfl

@[simp]
theorem isQuote_char (glyph : α) : isQuote (Glyph.char glyph) = isQuote glyph := rfl

theorem dropBlanks_chars (text : List α) : dropBlanks (chars text) = chars (dropBlanks text) := by
  rw [dropBlanks, chars, List.dropWhile_map]
  rfl

theorem trim_chars (text : List α) : trim (chars text) = chars (trim text) := by
  rw [trim, dropBlanks_chars, dropBlanksEnd, chars, ← List.map_reverse, List.dropWhile_map,
    ← List.map_reverse]
  rfl

theorem after?_chars (word : List Char) (text : List α) :
    after? word (chars text) = (after? word text).map chars := by
  induction word generalizing text with
  | nil => rfl
  | cons letter word ih =>
    cases text with
    | nil => rfl
    | cons glyph text =>
      rw [chars_cons, after?, after?, char_self]
      split_ifs
      · exact ih text
      · rfl

theorem afterQuote?_chars (text : List α) :
    afterQuote? (chars text) = (afterQuote? text).map chars := by
  cases text with
  | nil => rfl
  | cons glyph text =>
    rw [chars_cons, afterQuote?, afterQuote?, isQuote_char]
    split_ifs <;> rfl

theorem upTo_chars (rest text : List α) : upTo (chars rest) (chars text) = chars (upTo rest text) := by
  rw [upTo, chars_length, chars_length, chars, ← List.map_take]
  rfl

theorem leftmost?_chars {β γ : Type} {read : List α → Option β} {plain : List Char → Option γ}
    {forget : β → γ} (agree : ∀ text, plain (chars text) = (read text).map forget) (text : List α) :
    leftmost? plain (chars text) = (leftmost? read text).map forget := by
  induction text with
  | nil => exact agree []
  | cons glyph text ih =>
    have here := agree (glyph :: text)
    rw [chars_cons] at here ⊢
    rw [leftmost?, leftmost?, here]
    cases read (glyph :: text) with
    | none => exact ih
    | some found => rfl

end Text

open Text

variable {α : Type} [Glyph α]

namespace Comment

theorem after?_chars (text : List α) : after? (chars text) = (after? text).map chars := by
  have line (rest : List α) : lineRest (chars rest) = chars (lineRest rest) := by
    rw [lineRest, chars, List.dropWhile_map]
    rfl
  rw [after?, after?, Text.after?_chars]
  cases Text.after? "//".toList text with
  | some rest => simp only [Option.map_some, line]
  | none =>
    rw [Option.map_none, Text.after?_chars]
    cases Text.after? "/*".toList text with
    | none => rfl
    | some inside => exact leftmost?_chars (Text.after?_chars "*/".toList) inside

theorem strip_chars (text : List α) : strip (chars text) = chars (strip text) := by
  fun_induction strip text with
  | case1 => rw [chars_nil, strip]
  | case2 glyph text rest comment ih =>
    rw [chars_cons, strip]
    split
    · rename_i other found
      rw [← chars_cons, after?_chars, comment] at found
      cases found
      exact ih
    · rename_i absent
      rw [← chars_cons, after?_chars, comment] at absent
      cases absent
  | case3 glyph text comment ih =>
    rw [chars_cons, strip]
    split
    · rename_i other found
      rw [← chars_cons, after?_chars, comment] at found
      cases found
    · rw [ih, chars_cons]

end Comment

namespace Block

def Opening.chars (opening : Opening α) : Opening Char :=
  ⟨Text.chars opening.keyword, Text.chars opening.inside⟩

def Fault.chars : Fault α → Fault Char
  | .missing => .missing
  | .unterminated keyword => .unterminated (Text.chars keyword)

def chars (block : Block α) : Block Char :=
  ⟨Text.chars block.keyword, Text.chars block.body, Text.chars block.rest⟩

theorem opening?_chars (keyword : List Char) (text : List α) :
    opening? keyword (Text.chars text) = (opening? keyword text).map Opening.chars := by
  rw [opening?, opening?, Text.after?_chars]
  cases after? keyword text with
  | none => rfl
  | some rest =>
    simp only [Option.map_some, Option.bind_some]
    rw [dropBlanks_chars, Text.after?_chars]
    cases after? ['{'] (dropBlanks rest) with
    | none => rfl
    | some inside =>
      simp only [Option.map_some, Opening.chars]
      rw [upTo_chars]

theorem close?_chars (depth : Nat) (text : List α) :
    close? depth (Text.chars text) =
      (close? depth text).map fun (interior, rest) => (Text.chars interior, Text.chars rest) := by
  induction text generalizing depth with
  | nil => rfl
  | cons glyph text ih =>
    rw [chars_cons, close?.eq_def, close?.eq_def]
    simp only [char_self]
    split_ifs
    · cases depth with
      | zero => rfl
      | succ depth =>
        simp only [ih, Option.map_map]
        rfl
    all_goals
      simp only [ih, Option.map_map]
      rfl

theorem locate_chars (keyword : List Char) (text : List α) :
    locate keyword (Text.chars text) =
      match locate keyword text with
      | .ok block => .ok block.chars
      | .error fault => .error fault.chars := by
  rw [locate, locate, leftmost?_chars (opening?_chars keyword)]
  cases leftmost? (opening? keyword) text with
  | none => rfl
  | some opening =>
    simp only [Option.map_some, Opening.chars, close?_chars]
    cases close? 0 opening.inside with
    | none => rfl
    | some found =>
      simp only [Option.map_some, trim_chars]
      rfl

end Block

namespace Step

theorem afterVerb?_chars (words : List String) (text : List α) :
    afterVerb? words (chars text) = (afterVerb? words text).map chars := by
  induction words with
  | nil => rfl
  | cons verb others ih =>
    rw [afterVerb?, afterVerb?, Text.after?_chars]
    cases after? verb.toList text with
    | none => exact ih
    | some rest => rfl

theorem afterOptional_chars (mark : Char) (text : List α) :
    afterOptional mark (chars text) = chars (afterOptional mark text) := by
  cases text with
  | nil => rfl
  | cons glyph text =>
    rw [chars_cons, afterOptional, afterOptional, char_self]
    split_ifs <;> rfl

theorem upToQuote?_chars (text : List α) :
    upToQuote? (chars text) =
      (upToQuote? text).map fun (argument, rest) => (chars argument, chars rest) := by
  induction text with
  | nil => rfl
  | cons glyph text ih =>
    rw [chars_cons, upToQuote?, upToQuote?, isQuote_char, isNewline_char]
    split_ifs
    · rfl
    · rfl
    · rw [ih, Option.map_map, Option.map_map]
      rfl

theorem argument?_chars (text : List α) :
    argument? (chars text) =
      (argument? text).map fun (argument, rest) => (chars argument, chars rest) := by
  cases text with
  | nil => rfl
  | cons glyph text =>
    rw [chars_cons, argument?, argument?, isNewline_char]
    split_ifs
    · rfl
    · rw [upToQuote?_chars, Option.map_map, Option.map_map]
      rfl

theorem call?_chars (text : List α) :
    call? (chars text) =
      (call? text).map fun (argument, rest) => (chars argument, chars rest) := by
  rw [call?, call?, afterVerb?_chars]
  cases afterVerb? verbs text with
  | none => rfl
  | some rest =>
    simp only [Option.map_some, Option.bind_some, dropBlanks_chars, afterOptional_chars,
      afterQuote?_chars]
    cases afterQuote? (dropBlanks (afterOptional '(' (dropBlanks rest))) with
    | none => rfl
    | some quoted =>
      simp only [Option.map_some, Option.bind_some, argument?_chars, Option.map_map]
      congr 1
      funext ⟨argument, after⟩
      simp only [Function.comp_apply, dropBlanks_chars, afterOptional_chars]

theorem arguments_chars (text : List α) : arguments (chars text) = (arguments text).map chars := by
  fun_induction arguments text with
  | case1 text absent =>
    rw [arguments]
    split
    · rfl
    · rename_i found
      rw [leftmost?_chars call?_chars, absent] at found
      cases found
  | case2 text argument rest call ih =>
    rw [arguments]
    split
    · rename_i absent
      rw [leftmost?_chars call?_chars, call] at absent
      cases absent
    · rename_i found
      rw [leftmost?_chars call?_chars, call] at found
      cases found
      rw [ih, List.map_cons]

end Step

namespace Stage.Declaration

def chars (declaration : Declaration α) : Declaration Char :=
  ⟨Text.chars declaration.text, Text.chars declaration.name, Text.chars declaration.inside⟩

theorem closing?_chars (text : List α) :
    closing? (Text.chars text) = (closing? text).map Text.chars := by
  rw [closing?, closing?, afterQuote?_chars]
  cases afterQuote? text with
  | none => rfl
  | some quoted =>
    simp only [Option.map_some, Option.bind_some, dropBlanks_chars, Text.after?_chars]
    cases after? [')'] (dropBlanks quoted) with
    | none => rfl
    | some rest =>
      simp only [Option.map_some, Option.bind_some, dropBlanks_chars, Text.after?_chars]

theorem name?_chars (text : List α) :
    name? (Text.chars text) =
      (name? text).map fun (name, inside) => (Text.chars name, Text.chars inside) := by
  induction text with
  | nil => rfl
  | cons glyph text ih =>
    rw [chars_cons, name?, name?, isNewline_char]
    split_ifs
    · rfl
    · rw [closing?_chars]
      cases closing? text with
      | none =>
        simp only [Option.map_none, ih, Option.map_map]
        rfl
      | some inside => rfl

theorem read?_chars (text : List α) : read? (Text.chars text) = (read? text).map chars := by
  rw [read?, read?, Text.after?_chars]
  cases after? "stage".toList text with
  | none => rfl
  | some word =>
    simp only [Option.map_some, Option.bind_some, dropBlanks_chars, Text.after?_chars]
    cases after? ['('] (dropBlanks word) with
    | none => rfl
    | some opened =>
      simp only [Option.map_some, Option.bind_some, dropBlanks_chars, afterQuote?_chars]
      cases afterQuote? (dropBlanks opened) with
      | none => rfl
      | some quoted =>
        simp only [Option.map_some, Option.bind_some, name?_chars, Option.map_map]
        congr 1
        funext ⟨name, inside⟩
        simp only [Function.comp_apply, chars, upTo_chars]

end Stage.Declaration

end PipelineChart
