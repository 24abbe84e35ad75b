import Mathlib.Data.List.Infix
import PipelineChart.Proofs.Block.Written
import PipelineChart.Proofs.Source.Kept

/-!
Plain texts: those that may stand between quotes and mean nothing but themselves. They stay on their
line, hold no quote and no brace, and no comment begins in them.
-/

namespace PipelineChart

open Text

namespace Text

structure Plain (text : List Char) : Prop where
  nonempty : text ≠ []
  inline : '\n' ∉ text
  unquoted : '\'' ∉ text ∧ '"' ∉ text
  unbraced : '{' ∉ text ∧ '}' ∉ text
  uncommented : ¬ ['/', '/'] <:+: text ∧ ¬ ['/', '*'] <:+: text

theorem plain_iff (text : List Char) : Plain text ↔
    text ≠ [] ∧ '\n' ∉ text ∧ ('\'' ∉ text ∧ '"' ∉ text) ∧ ('{' ∉ text ∧ '}' ∉ text) ∧
      ¬ ['/', '/'] <:+: text ∧ ¬ ['/', '*'] <:+: text :=
  ⟨fun plain => ⟨plain.1, plain.2, plain.3, plain.4, plain.5⟩,
    fun ⟨nonempty, inline, unquoted, unbraced, uncommented⟩ =>
      ⟨nonempty, inline, unquoted, unbraced, uncommented⟩⟩

instance (text : List Char) : Decidable (Plain text) := decidable_of_iff' _ (plain_iff text)

theorem isNewline_eq_false_of_inline {text : List Char} (inline : '\n' ∉ text) :
    ∀ glyph ∈ text, isNewline glyph = false := by
  intro glyph member
  by_contra newline
  simp only [isNewline, char_self, Bool.not_eq_false, beq_iff_eq] at newline
  exact inline (newline ▸ member)

theorem isQuote_eq_false_iff {char : Char} : isQuote char = false ↔ char ≠ '\'' ∧ char ≠ '"' := by
  simp [isQuote, char_self]

/-- A text that may stand between quotes: no quote ends it early, and it stays on its line. -/
structure Quotable (text : List Char) : Prop where
  nonempty : text ≠ []
  inline : '\n' ∉ text
  unquoted : '\'' ∉ text ∧ '"' ∉ text

namespace Quotable

variable {text : List Char}

theorem isQuote_eq_false (quotable : Quotable text) : ∀ glyph ∈ text, isQuote glyph = false :=
  fun _ member => isQuote_eq_false_iff.mpr
    ⟨ne_of_mem_of_not_mem member quotable.unquoted.1, ne_of_mem_of_not_mem member quotable.unquoted.2⟩

theorem isNewline_eq_false (quotable : Quotable text) : ∀ glyph ∈ text, isNewline glyph = false :=
  isNewline_eq_false_of_inline quotable.inline

end Quotable

theorem Plain.quotable {text : List Char} (plain : Plain text) : Quotable text :=
  ⟨plain.nonempty, plain.inline, plain.unquoted⟩

end Text

namespace Comment

/-- No comment begins in the text, whatever follows. -/
def Untouched (text : List Char) : Prop := ∀ rest, strip (text ++ rest) = text ++ strip rest

namespace Untouched

variable {text rest : List Char}

theorem append (untouched : Untouched text) (untouched' : Untouched rest) :
    Untouched (text ++ rest) := by
  intro after
  rw [List.append_assoc, untouched, untouched', List.append_assoc]

theorem additive : Additive Untouched where
  nil _ := rfl
  append := append

theorem glyph {glyph : Char} (other : glyph ≠ '/') : Untouched [glyph] := by
  intro rest
  rw [List.singleton_append, strip_cons_of_none (after?_cons_of_ne other rest), List.singleton_append]

theorem of_absent (absent : '/' ∉ text) : Untouched text := by
  apply additive.of_glyphs
  intro first member
  exact glyph (ne_of_mem_of_not_mem member absent)

theorem quoted {quote : Char} (plain : ¬ ['/', '/'] <:+: text ∧ ¬ ['/', '*'] <:+: text)
    (quoted : isQuote quote = true) : Untouched (text ++ [quote]) := by
  have slash : quote ≠ '/' := by
    intro same
    subst same
    cases quoted
  have star : quote ≠ '*' := by
    intro same
    subst same
    cases quoted
  induction text with
  | nil => exact glyph slash
  | cons first text ih =>
    have rest := ih
      ⟨fun found => plain.1 (List.infix_cons found), fun found => plain.2 (List.infix_cons found)⟩
    by_cases other : first = '/'
    · have next : ∀ after, ∃ second more, text ++ [quote] ++ after = second :: more ∧
          second ≠ '/' ∧ second ≠ '*' := by
        intro after
        cases text with
        | nil => exact ⟨quote, after, rfl, slash, star⟩
        | cons second text =>
          refine ⟨second, text ++ [quote] ++ after, rfl, ?_, ?_⟩
          · intro same
            subst same
            exact plain.1 ⟨[], text, by rw [other]; rfl⟩
          · intro same
            subst same
            exact plain.2 ⟨[], text, by rw [other]; rfl⟩
      intro after
      obtain ⟨second, more, whole, slash', star'⟩ := next after
      have absent : Comment.after? (first :: (text ++ [quote] ++ after)) = none := by
        rw [other, whole]
        exact after?_cons_cons_of_ne slash' star' more
      rw [List.cons_append, List.cons_append, strip_cons_of_none absent, rest, List.cons_append]
    · exact (glyph other).append rest

theorem lines {texts : List (List Char)} (untouched : ∀ text ∈ texts, Untouched text) :
    Untouched (lines texts) := by
  apply additive.lines
  intro text listed
  exact (untouched text listed).append (glyph (by decide))

theorem write {heading : String} {texts : List (List Char)} (untouched : Untouched heading.toList)
    (untouched' : ∀ text ∈ texts, Untouched text) : Untouched (Block.write heading texts) := by
  have opening : Untouched [' ', '{', '\n'] := of_absent (by decide)
  have closing : Untouched ['}'] := glyph (by decide)
  exact untouched.append (opening.append ((lines untouched').append closing))

end Untouched

end Comment

end PipelineChart
