import PipelineChart.Proofs.Stage.Declaration
import PipelineChart.Proofs.Step.Written

/-!
Texts in which nothing is declared. No declaration begins in a call, whatever its argument: where an
argument ends like the head of a declaration, its closing quote is followed by the end of the line, and
a name stays on its line.
-/

namespace PipelineChart

open Text

namespace Stage

namespace Declaration

def heading (name : String) : String := "stage('" ++ name ++ "')"

/-- Nothing can be read at any place of the text, whatever follows. -/
def Silent (text : List Char) : Prop :=
  ∀ rest, leftmost? read? (text ++ rest) = leftmost? read? rest

theorem shortest_of_plain {name : List Char} (plain : Plain name) (tail : List Char) :
    Shortest name tail := by
  refine ⟨plain.nonempty, plain.quotable.isNewline_eq_false, ?_⟩
  intro front back split _ last
  obtain ⟨glyph, others, rfl⟩ := List.exists_cons_of_ne_nil last
  have unquoted := plain.quotable.isQuote_eq_false glyph (by rw [split]; simp)
  rw [closing?, List.cons_append, afterQuote?, unquoted]
  rfl

theorem heading_toList (name : String) :
    (heading name).toList = "stage".toList ++ ['(', '\''] ++ (name.toList ++ ['\'', ')']) := by
  have word : "stage('".toList = "stage".toList ++ ['(', '\''] := by decide
  have mark : "')".toList = ['\'', ')'] := by decide
  rw [heading, String.toList_append, String.toList_append, word, mark, List.append_assoc]

theorem declares_heading {name : String} (plain : Plain name.toList) :
    Declares ((heading name).toList ++ [' ', '{']) name.toList := by
  have head : Head ("stage".toList ++ [] ++ '(' :: [] ++ ['\'']) := .mk blanks_nil blanks_nil rfl
  have tail : Tail ('\'' :: [] ++ ')' :: [' '] ++ ['{']) := .mk rfl blanks_nil (by decide)
  have whole := Declares.mk head (shortest_of_plain plain _) tail
  rw [heading_toList]
  simp only [List.append_assoc, List.cons_append, List.nil_append] at whole ⊢
  exact whole

theorem read?_cons_eq_none {glyph : Char} (other : glyph ≠ 's') (text : List Char) :
    read? (glyph :: text) = none := by
  have absent : after? "stage".toList (glyph :: text) = none := by simp [after?, other]
  rw [read?, absent, Option.bind_none]

theorem name_ne_newline {name tail inside rest : List Char}
    (line : ∀ glyph ∈ name, isNewline glyph = false) (ending : Tail tail) :
    name ++ (tail ++ inside) ≠ '\n' :: rest := by
  intro same
  cases name with
  | nil =>
    rcases ending.quote_first with ⟨quote, others, rfl, quoted, _⟩
    rw [List.nil_append, List.cons_append] at same
    rw [(List.cons.inj same).1] at quoted
    cases quoted
  | cons glyph name =>
    have newline := line glyph List.mem_cons_self
    rw [(List.cons.inj same).1] at newline
    cases newline

/-- No declaration begins in an argument: the quote that closes it stands at the end of its line, or
in front of a parenthesis that does. -/
theorem read?_ending {argument : List Char} (unquoted : ∀ glyph ∈ argument, isQuote glyph = false)
    (style : Step.Style) (rest : List Char) :
    read? (argument ++ (style.closing ++ '\n' :: rest)) = none := by
  rw [Option.eq_none_iff_forall_ne_some]
  intro ⟨text, name, inside⟩ found
  obtain ⟨declares, split⟩ := read?_eq_some_iff.mp found
  dsimp only at declares split
  obtain @⟨head, name, tail, opening, shortest, ending⟩ := declares
  rcases opening.quote_last with ⟨before, quote, rfl, quoted, silent⟩
  rw [Step.Style.closing, List.append_assoc, List.append_assoc, List.append_assoc,
    List.singleton_append, List.cons_append] at split
  obtain ⟨rfl, rfl, behind⟩ := first_unique unquoted silent style.quoted quoted split
  cases parenthesis : style.parenthesized with
  | false =>
    rw [parenthesis] at behind
    exact name_ne_newline shortest.line ending behind.symm
  | true =>
    rw [parenthesis] at behind
    obtain ⟨first, others, rfl⟩ := List.exists_cons_of_ne_nil shortest.nonempty
    exact name_ne_newline (List.forall_mem_cons.mp shortest.line).2 ending
      (List.cons.inj behind).2.symm

namespace Silent

variable {text rest : List Char}

theorem append (silent : Silent text) (silent' : Silent rest) : Silent (text ++ rest) := by
  intro after
  rw [List.append_assoc, silent, silent']

theorem additive : Additive Silent where
  nil _ := rfl
  append := append

theorem cons {glyph : Char} (refused : ∀ rest, read? (glyph :: (text ++ rest)) = none)
    (silent : Silent text) : Silent (glyph :: text) := by
  intro rest
  rw [List.cons_append, leftmost?_cons_of_none (refused rest), silent]

theorem of_absent (absent : 's' ∉ text) : Silent text := by
  apply additive.of_glyphs
  intro glyph member
  have other := ne_of_mem_of_not_mem member absent
  exact cons (fun rest => read?_cons_eq_none other _) additive.nil

theorem word {letter : Char} (other : letter ≠ 't') (absent : 's' ∉ letter :: text) :
    Silent ('s' :: letter :: text) := by
  refine cons (fun rest => ?_) (of_absent absent)
  have refused : after? "stage".toList ('s' :: (letter :: text ++ rest)) = none := by
    simp [after?, other]
  rw [read?, refused, Option.bind_none]

theorem ending {argument : List Char} (plain : ∀ glyph ∈ argument, isQuote glyph = false)
    (style : Step.Style) : Silent (argument ++ (style.closing ++ ['\n'])) := by
  induction argument with
  | nil =>
    have absent : ∀ text ∈ Step.Style.closings, 's' ∉ text ++ ['\n'] := by decide
    exact of_absent (absent _ style.closing_mem)
  | cons glyph argument ih =>
    refine cons (fun rest => ?_) (ih (List.forall_mem_cons.mp plain).2)
    have refused := read?_ending plain style rest
    have whole : glyph :: (argument ++ (style.closing ++ ['\n']) ++ rest) =
        (glyph :: argument) ++ (style.closing ++ '\n' :: rest) := by simp
    exact (congrArg read? whole).trans refused

theorem call (style : Step.Style) {step : String} (plain : Plain step.toList) :
    Silent (style.write step ++ ['\n']) := by
  have letters : ∀ text ∈ Step.Style.openings, 's' ∉ text ∨ ['s', 'h'] <+: text ∧ 's' ∉ text.tail := by
    decide
  have opening : Silent style.opening := by
    rcases letters _ style.opening_mem with absent | ⟨⟨rest, begun⟩, absent⟩
    · exact of_absent absent
    · rw [← begun] at absent ⊢
      exact word (by decide) absent
  have whole := opening.append (ending plain.quotable.isQuote_eq_false style)
  rw [Step.Style.write, List.append_assoc, List.append_assoc]
  exact whole

theorem steps : Silent ("steps".toList ++ [' ', '{']) := by
  have spelled : "steps".toList = ['s', 't', 'e', 'p', 's'] := by decide
  have middle : Silent ['t', 'e', 'p'] := of_absent (by decide)
  have last : Silent ['s', ' ', '{'] := word (by decide) (by decide)
  rw [spelled]
  refine cons (fun rest => ?_) (middle.append last)
  simp [read?, after?]

theorem stages : Silent ("stages".toList ++ [' ', '{']) := by
  have spelled : "stages".toList = ['s', 't', 'a', 'g', 'e', 's'] := by decide
  have middle : Silent ['t', 'a', 'g', 'e'] := of_absent (by decide)
  have last : Silent ['s', ' ', '{'] := word (by decide) (by decide)
  rw [spelled]
  refine cons (fun rest => ?_) (middle.append last)
  have absent : after? ['('] (dropBlanks ('s' :: ' ' :: '{' :: rest)) = none := rfl
  simp [read?, after?, absent]

end Silent

end Declaration

end Stage

end PipelineChart
