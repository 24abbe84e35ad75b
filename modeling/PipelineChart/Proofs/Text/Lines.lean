import PipelineChart.Proofs.Text.Reading

/-!
Texts on lines of their own. What holds of each line and is kept when texts are joined holds of all of
them. Trimming takes the line breaks off at both ends of such lines, and leaves those between them.
-/

namespace PipelineChart.Text

def lines (texts : List (List Char)) : List Char := texts.flatMap (· ++ ['\n'])

def led (texts : List (List Char)) : List Char := texts.flatMap ('\n' :: ·)

/-- A property that a text has when its parts have it. -/
structure Additive (p : List Char → Prop) : Prop where
  nil : p []
  append : ∀ {text rest : List Char}, p text → p rest → p (text ++ rest)

def Solid (text : List Char) : Prop := ∃ front last, text = front ++ [last] ∧ isBlank last = false

theorem lines_cons (text : List Char) (texts : List (List Char)) :
    lines (text :: texts) = text ++ '\n' :: lines texts := by
  rw [lines, List.flatMap_cons, List.append_assoc]
  rfl

theorem lines_singleton (text : List Char) : lines [text] = text ++ ['\n'] := lines_cons text []

theorem led_cons (text : List Char) (texts : List (List Char)) :
    led (text :: texts) = '\n' :: (text ++ led texts) := rfl

theorem mem_lines {glyph : Char} {texts : List (List Char)} (visible : glyph ≠ '\n') :
    glyph ∈ lines texts ↔ ∃ text ∈ texts, glyph ∈ text := by
  rw [lines, List.mem_flatMap]
  simp only [List.mem_append, List.mem_singleton, visible, or_false]

theorem newline_lines (texts : List (List Char)) : '\n' :: lines texts = led texts ++ ['\n'] := by
  induction texts with
  | nil => rfl
  | cons text texts ih => rw [lines_cons, ih, led_cons, List.cons_append, List.append_assoc]

theorem Additive.flatMap {α : Type} {p : List Char → Prop} (additive : Additive p)
    {f : α → List Char} {parts : List α} (each : ∀ part ∈ parts, p (f part)) : p (parts.flatMap f) := by
  induction parts with
  | nil => exact additive.nil
  | cons part parts ih =>
    rw [List.forall_mem_cons] at each
    rw [List.flatMap_cons]
    exact additive.append each.1 (ih each.2)

theorem Additive.of_glyphs {p : List Char → Prop} (additive : Additive p) {text : List Char}
    (each : ∀ glyph ∈ text, p [glyph]) : p text := by
  have whole := additive.flatMap each
  rwa [List.flatMap_singleton'] at whole

theorem Additive.lines {p : List Char → Prop} (additive : Additive p) {texts : List (List Char)}
    (each : ∀ text ∈ texts, p (text ++ ['\n'])) : p (lines texts) :=
  additive.flatMap each

theorem Solid.append (front : List Char) {text : List Char} (solid : Solid text) :
    Solid (front ++ text) := by
  rcases solid with ⟨start, last, rfl, visible⟩
  exact ⟨front ++ start, last, (List.append_assoc _ _ _).symm, visible⟩

theorem solid_led {texts : List (List Char)} (solid : ∀ text ∈ texts, Solid text)
    (nonempty : texts ≠ []) : Solid (led texts) := by
  induction texts with
  | nil => exact absurd rfl nonempty
  | cons text texts ih =>
    rw [List.forall_mem_cons] at solid
    rw [led_cons]
    by_cases single : texts = []
    · rw [single]
      exact (show Solid (text ++ []) by rw [List.append_nil]; exact solid.1).append ['\n']
    · exact (ih solid.2 single).append ('\n' :: text)

theorem dropBlanks_append_cons {last : Char} (visible : isBlank last = false) (front rest : List Char) :
    dropBlanks (front ++ last :: rest) = dropBlanks front ++ last :: rest := by
  induction front with
  | nil => exact dropBlanks_cons visible rest
  | cons glyph front ih =>
    by_cases blank : isBlank glyph = true
    · rw [List.cons_append, dropBlanks, List.dropWhile_cons_of_pos blank, dropBlanks,
        List.dropWhile_cons_of_pos blank]
      exact ih
    · rw [Bool.not_eq_true] at blank
      rw [List.cons_append, dropBlanks_cons blank, dropBlanks_cons blank, List.cons_append]

theorem trim_append {text gap : List Char} (solid : Solid text) (blank : Blanks gap) :
    trim (text ++ gap) = dropBlanks text := by
  rcases solid with ⟨front, last, rfl, visible⟩
  have backwards : Blanks gap.reverse := fun glyph member => blank glyph (List.mem_reverse.mp member)
  calc
    trim (front ++ [last] ++ gap) = dropBlanksEnd (dropBlanks front ++ last :: gap) := by
      rw [List.append_assoc, List.singleton_append, trim, dropBlanks_append_cons visible]
    _ = (dropBlanks (gap.reverse ++ last :: (dropBlanks front).reverse)).reverse := by
      rw [dropBlanksEnd, List.reverse_append, List.reverse_cons, List.append_assoc,
        List.singleton_append, ← dropBlanks]
    _ = (last :: (dropBlanks front).reverse).reverse := by
      rw [dropBlanks_append backwards, dropBlanks_cons visible]
    _ = dropBlanks front ++ [last] := by rw [List.reverse_cons, List.reverse_reverse]
    _ = dropBlanks (front ++ [last]) := (dropBlanks_append_cons visible front []).symm

theorem trim_newline_lines {texts : List (List Char)} (solid : ∀ text ∈ texts, Solid text) :
    trim ('\n' :: lines texts) = dropBlanks (led texts) := by
  rw [newline_lines]
  by_cases empty : texts = []
  · rw [empty]
    rfl
  · exact trim_append (solid_led solid empty) (by decide)

theorem trim_newline_line {first : Char} {text : List Char} (visible : isBlank first = false)
    (solid : Solid (first :: text)) : trim ('\n' :: lines [first :: text]) = first :: text := by
  rw [trim_newline_lines (by simpa using solid), led_cons]
  show dropBlanks (['\n'] ++ first :: (text ++ [])) = first :: text
  rw [dropBlanks_append (by decide), dropBlanks_cons visible, List.append_nil]

end PipelineChart.Text
