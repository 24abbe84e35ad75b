import PipelineChart.Proofs.Step.Written
import PipelineChart.Proofs.Text.Pattern

/-!
The pattern of calls. Its eager parts never have to give anything back: where the quote does not follow all the blanks,
it follows none of the shorter runs, and a parenthesis that is left is no quote. The argument grows until a quote
follows. So the first reading of the pattern is the call that is read without trying anything twice.
-/

namespace PipelineChart.Step

open Text

def quotes : CharSet := .among ['\'', '"']

def callPattern : Pattern :=
  [.word verbs, .many .blank, .optional (.only '('), .many .blank, .one quotes, .captured .inline, .one quotes,
    .many .blank, .optional (.only ')')]

theorem text_callPattern : callPattern.text = pattern := by
  decide +kernel

section

variable {parts : Pattern}

theorem read?_quote (parts : Pattern) (text : List Char) :
    Pattern.read? (.one quotes :: parts) text = (afterQuote? text).bind parts.read? := by
  rw [Pattern.read?_one]
  cases text with
  | nil => rfl
  | cons glyph text =>
    have same : quotes.holds glyph = isQuote glyph := by
      simp [quotes, CharSet.holds, isQuote, char_self, Bool.beq_eq_decide_eq]
    rw [CharSet.after?, afterQuote?, same]

theorem read?_quote_eq_none {glyph : Char} (unquoted : isQuote glyph = false) (parts : Pattern) (text : List Char) :
    Pattern.read? (.one quotes :: parts) (glyph :: text) = none := by
  rw [read?_quote, afterQuote?, unquoted]
  rfl

theorem read?_blanks (refused : ∀ glyph rest, isBlank glyph = true →
      parts.read? (dropBlanks rest) = none → parts.read? (glyph :: rest) = none) (text : List Char) :
    Pattern.read? (.many .blank :: parts) text = parts.read? (dropBlanks text) :=
  @Pattern.read?_many .blank parts refused text

theorem read?_mark {mark : Char} (text : List Char) (refused : ∀ rest, parts.read? rest = none →
      parts.read? (mark :: rest) = none) :
    Pattern.read? (.optional (.only mark) :: parts) text = parts.read? (afterOptional mark text) := by
  rw [Pattern.read?_optional]
  cases text with
  | nil => rfl
  | cons glyph text =>
    rw [CharSet.after?, CharSet.holds, afterOptional, char_self]
    by_cases same : glyph = mark
    · subst same
      rw [beq_self_eq_true, if_pos rfl, if_pos rfl, Option.bind_some]
      cases found : parts.read? text with
      | none => rw [refused text found, Option.or_none]
      | some reading => rfl
    · rw [beq_false_of_ne same, if_neg Bool.false_ne_true, if_neg same]
      rfl

theorem read?_ending (text : List Char) :
    Pattern.read? [.many .blank, .optional (.only ')')] text = some ([], afterOptional ')' (dropBlanks text)) := by
  have mark (text : List Char) : Pattern.read? [.optional (.only ')')] text = some ([], afterOptional ')' text) :=
    read?_mark text fun _ absent => nomatch absent
  rw [read?_blanks fun _ rest _ absent => ?_, mark]
  rw [mark] at absent
  cases absent

theorem read?_closing (text : List Char) :
    Pattern.read? [.one quotes, .many .blank, .optional (.only ')')] text =
      (afterQuote? text).map fun rest => ([], afterOptional ')' (dropBlanks rest)) := by
  rw [read?_quote, Option.map_eq_bind]
  congr 1
  funext rest
  exact read?_ending rest

/-- A run is not continued behind a quote, so it goes up to the first one. -/
theorem read?_upToQuote (text : List Char) :
    (Pattern.read? [.one quotes, .many .blank, .optional (.only ')')] text).or
        (Pattern.read? [.captured .inline, .one quotes, .many .blank, .optional (.only ')')] text) =
      (upToQuote? text).map fun (argument, rest) => (argument, afterOptional ')' (dropBlanks rest)) := by
  induction text with
  | nil => rfl
  | cons glyph text ih =>
    rw [read?_closing, afterQuote?, upToQuote?]
    by_cases quoted : isQuote glyph = true
    · rw [if_pos quoted, if_pos quoted]
      rfl
    · rw [if_neg quoted, if_neg quoted, Option.map_none, Option.none_or, Pattern.read?_captured, ih, CharSet.holds]
      cases isNewline glyph with
      | true => rfl
      | false => cases upToQuote? text <;> rfl

theorem read?_argument (text : List Char) :
    Pattern.read? [.captured .inline, .one quotes, .many .blank, .optional (.only ')')] text =
      (argument? text).map fun (argument, rest) => (argument, afterOptional ')' (dropBlanks rest)) := by
  cases text with
  | nil => rfl
  | cons glyph text =>
    rw [Pattern.read?_captured, read?_upToQuote, argument?, CharSet.holds]
    cases isNewline glyph with
    | true => rfl
    | false => cases upToQuote? text <;> rfl

theorem read?_opening (parts : Pattern) (text : List Char) :
    Pattern.read? (.many .blank :: .optional (.only '(') :: .many .blank :: .one quotes :: parts) text =
      (afterQuote? (dropBlanks (afterOptional '(' (dropBlanks text)))).bind parts.read? := by
  have inner (text : List Char) : Pattern.read? (.many .blank :: .one quotes :: parts) text =
      Pattern.read? (.one quotes :: parts) (dropBlanks text) :=
    read?_blanks (fun _ rest blank _ => read?_quote_eq_none (isQuote_of_isBlank blank) parts rest) text
  have marked (text : List Char) :
      Pattern.read? (.optional (.only '(') :: .many .blank :: .one quotes :: parts) text =
        Pattern.read? (.one quotes :: parts) (dropBlanks (afterOptional '(' text)) := by
    rw [read?_mark text fun rest _ => ?_, inner]
    rw [inner, dropBlanks_cons rfl]
    exact read?_quote_eq_none rfl parts rest
  rw [read?_blanks fun glyph rest blank absent => ?_, marked, read?_quote]
  have other : glyph ≠ '(' := by
    rintro rfl
    cases blank
  rw [marked] at absent
  rw [marked, afterOptional_of_ne other, show dropBlanks (glyph :: rest) = dropBlanks rest from
    List.dropWhile_cons_of_pos blank]
  have visible := head?_dropBlanks rest
  cases begun : dropBlanks rest with
  | nil => rfl
  | cons first more =>
    rw [begun] at absent visible
    by_cases same : first = '('
    · subst same
      exact read?_quote_eq_none rfl parts more
    · rwa [afterOptional_of_ne same, dropBlanks_cons (visible first rfl)] at absent

theorem head?_of_after? {word text rest : List Char} (spelled : word ≠ []) (found : after? word text = some rest) :
    word.head? = text.head? := by
  obtain ⟨front, same, rfl⟩ := after?_eq_some_iff.mp found
  rw [chars_self] at same
  rw [same, List.head?_append_of_ne_nil _ spelled]

theorem filterMap_after? {words : List String} (distinct : words.Pairwise fun word other =>
      word.toList.head? ≠ other.toList.head?) (spelled : ∀ word ∈ words, word.toList ≠ []) (text : List Char) :
    words.filterMap (fun word => after? word.toList text) = (afterVerb? words text).toList := by
  induction words with
  | nil => rfl
  | cons word words ih =>
    rw [List.pairwise_cons] at distinct
    rw [List.forall_mem_cons] at spelled
    rw [List.filterMap_cons, afterVerb?]
    cases found : after? word.toList text with
    | none => exact ih distinct.2 spelled.2
    | some rest =>
      have others : words.filterMap (fun word => after? word.toList text) = [] := by
        rw [List.filterMap_eq_nil_iff]
        intro other member
        by_contra begun
        obtain ⟨last, again⟩ := Option.ne_none_iff_exists'.mp begun
        exact distinct.1 other member
          ((head?_of_after? spelled.1 found).trans (head?_of_after? (spelled.2 other member) again).symm)
      rw [others]
      rfl

theorem read?_verb (parts : Pattern) (text : List Char) :
    Pattern.read? (.word verbs :: parts) text = (afterVerb? verbs text).bind parts.read? := by
  rw [Pattern.read?, Part.readings, Pattern.findSome?_uncaptured, filterMap_after? (by decide) (by decide)]
  cases afterVerb? verbs text <;> simp

theorem read?_callPattern (text : List Char) : callPattern.read? text = call? text := by
  rw [callPattern, read?_verb, call?]
  congr 1
  funext after
  rw [read?_opening]
  congr 1
  funext quoted
  exact read?_argument quoted

example : callPattern.read? "sh ''x'\" )".toList = some ("'x".toList, "\" )".toList) := by decide +kernel

theorem captures_iff {text : List Char} {arguments : List (List Char)} :
    callPattern.Captures text arguments ↔ Step.arguments text = arguments := by
  have same : callPattern.read? = call? := funext read?_callPattern
  constructor
  · intro captures
    induction captures with
    | none absent =>
      rw [same] at absent
      exact arguments_of_none absent
    | some found _ ih =>
      rw [same] at found
      rw [arguments_of_leftmost found, ih]
  · rintro rfl
    fun_induction Step.arguments text with
    | case1 text absent => exact .none (same ▸ absent)
    | case2 text argument rest found ih => exact .some (same ▸ found) ih

end

end PipelineChart.Step
