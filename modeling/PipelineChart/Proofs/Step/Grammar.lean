import PipelineChart.Proofs.Step.Pattern

/-!
The grammar of calls. A call is an opening, an argument and a closing quote; behind it blanks and a parenthesis are
passed over. A scan takes the call that begins first, goes on behind it, and ends where no call begins any more. At
one place there is one call at most, so there is one scan of a text, and it yields what is extracted. It is also what
the pattern of calls captures, though that tries its parts in all ways.
-/

namespace PipelineChart.Step

open Text

/-- A verb and a quote; between them blanks, and a parenthesis or none. -/
inductive Opening : List Char → Prop where
  | mk {verb : String} {gap mark space : List Char} {quote : Char} (known : verb ∈ verbs) (before : Blanks gap)
      (marked : mark = [] ∨ mark = ['(']) (behind : Blanks space) (quoted : isQuote quote = true) :
      Opening (verb.toList ++ gap ++ mark ++ space ++ [quote])

/-- A text on one line of which only the first glyph may be a quote. -/
inductive Argument : List Char → Prop where
  | mk {first : Char} {inner : List Char} (line : '\n' ∉ first :: inner)
      (unquoted : ∀ glyph ∈ inner, isQuote glyph = false) : Argument (first :: inner)

/-- A quote with the blanks behind it, and with the parenthesis behind these if there is one. Then `rest` follows. -/
inductive Closing : List Char → List Char → Prop where
  | parenthesis {quote : Char} {gap : List Char} (rest : List Char) (quoted : isQuote quote = true)
      (blank : Blanks gap) : Closing (quote :: (gap ++ [')'])) rest
  | bare {quote : Char} {gap rest : List Char} (quoted : isQuote quote = true) (blank : Blanks gap)
      (stops : ∀ glyph ∈ rest.head?, isBlank glyph = false ∧ glyph ≠ ')') : Closing (quote :: gap) rest

/-- The text goes on with a call of this argument. -/
def Begins (text argument : List Char) : Prop :=
  ∃ opening quote behind, Opening opening ∧ Argument argument ∧ isQuote quote = true ∧
    text = opening ++ (argument ++ quote :: behind)

def Silent (text rest : List Char) : Prop :=
  ∀ later, later <:+ text → later ≠ [] → ∀ argument, ¬ Begins (later ++ rest) argument

/-- Calls are taken from left to right, each at the first place where one begins. -/
inductive Scans : List Char → List (List Char) → Prop where
  | nothing {text : List Char} (silent : Silent text []) : Scans text []
  | call {skipped opening argument closing rest : List Char} {arguments : List (List Char)}
      (silent : Silent skipped (opening ++ (argument ++ (closing ++ rest)))) (opens : Opening opening)
      (argued : Argument argument) (closes : Closing closing rest) (behind : Scans rest arguments) :
      Scans (skipped ++ (opening ++ (argument ++ (closing ++ rest)))) (argument :: arguments)

structure Site where
  skipped : List Char
  opening : List Char
  argument : List Char
  closing : List Char
  silent : Silent skipped []
  opens : Opening opening
  argued : Argument argument
  closes : ∃ rest, Closing closing rest

def Site.text (site : Site) : List Char := site.skipped ++ (site.opening ++ (site.argument ++ site.closing))

section

variable {text argument behind rest inner : List Char}

theorem Argument.exists_cons (argued : Argument argument) : ∃ first inner, argument = first :: inner ∧
    '\n' ∉ first :: inner ∧ ∀ glyph ∈ inner, isQuote glyph = false := by
  cases argued with
  | mk line unquoted => exact ⟨_, _, rfl, line, unquoted⟩

theorem upToQuote?_eq_some_iff : upToQuote? text = some (inner, rest) ↔
    (∀ glyph ∈ inner, isQuote glyph = false) ∧ '\n' ∉ inner ∧
      ∃ quote, isQuote quote = true ∧ text = inner ++ quote :: rest := by
  constructor
  · intro found
    induction text generalizing inner with
    | nil => cases found
    | cons glyph text ih =>
      rw [upToQuote?] at found
      split_ifs at found with quoted newline
      · cases found
        exact ⟨by simp, by simp, glyph, quoted, rfl⟩
      · obtain ⟨⟨others, last⟩, closed, same⟩ := Option.map_eq_some_iff.mp found
        cases same
        obtain ⟨unquoted, line, quote, ends, rfl⟩ := ih closed
        rw [Bool.not_eq_true] at quoted
        have inline : '\n' ≠ glyph := by
          rintro rfl
          exact newline rfl
        exact ⟨List.forall_mem_cons.mpr ⟨quoted, unquoted⟩, List.not_mem_cons_of_ne_of_not_mem inline line, quote,
          ends, rfl⟩
  · rintro ⟨unquoted, line, quote, quoted, rfl⟩
    exact upToQuote?_append unquoted (isNewline_eq_false_of_inline line) quoted rest

theorem argument?_eq_some_iff : argument? text = some (argument, rest) ↔
    Argument argument ∧ ∃ quote, isQuote quote = true ∧ text = argument ++ quote :: rest := by
  constructor
  · intro found
    cases text with
    | nil => cases found
    | cons first text =>
      rw [argument?] at found
      split_ifs at found with newline
      obtain ⟨⟨inner, last⟩, closed, same⟩ := Option.map_eq_some_iff.mp found
      cases same
      obtain ⟨unquoted, line, quote, quoted, rfl⟩ := upToQuote?_eq_some_iff.mp closed
      have inline : '\n' ≠ first := by
        rintro rfl
        exact newline rfl
      exact ⟨.mk (List.not_mem_cons_of_ne_of_not_mem inline line) unquoted, quote, quoted, rfl⟩
  · rintro ⟨@⟨first, inner, line, unquoted⟩, quote, quoted, rfl⟩
    have inline := isNewline_eq_false_of_inline line
    rw [List.forall_mem_cons] at inline
    rw [List.cons_append, argument?, inline.1, upToQuote?_append unquoted inline.2 quoted]
    rfl

theorem closing_iff {quote : Char} (quoted : isQuote quote = true) :
    (∃ passed, Closing (quote :: passed) rest ∧ behind = passed ++ rest) ↔
      afterOptional ')' (dropBlanks behind) = rest := by
  constructor
  · rintro ⟨passed, closes, rfl⟩
    cases closes with
    | parenthesis rest quoted blank =>
      rw [List.append_assoc, dropBlanks_append blank]
      rfl
    | bare quoted blank stops =>
      rw [dropBlanks_append blank]
      cases rest with
      | nil => rfl
      | cons glyph rest =>
        obtain ⟨visible, other⟩ := stops glyph rfl
        rw [dropBlanks_cons visible, afterOptional_of_ne other]
  · rintro rfl
    obtain ⟨gap, blank, split⟩ := exists_dropBlanks behind
    have visible := head?_dropBlanks behind
    cases left : dropBlanks behind with
    | nil =>
      rw [left] at split
      exact ⟨gap, .bare quoted blank (by simp [afterOptional]), split⟩
    | cons glyph more =>
      rw [left] at split visible
      rw [afterOptional, char_self]
      split_ifs with parenthesis
      · subst parenthesis
        exact ⟨gap ++ [')'], .parenthesis more quoted blank, by rw [split, List.append_assoc]; rfl⟩
      · refine ⟨gap, .bare quoted blank ?_, split⟩
        rintro _ ⟨⟩
        exact ⟨visible glyph rfl, parenthesis⟩

theorem Closing.exists_quote {closing : List Char} (closes : Closing closing rest) :
    ∃ quote passed, isQuote quote = true ∧ closing = quote :: passed := by
  cases closes with
  | parenthesis rest quoted _ => exact ⟨_, _, quoted, rfl⟩
  | bare quoted _ _ => exact ⟨_, _, quoted, rfl⟩

theorem Opening.exists_quote {opening : List Char} (opens : Opening opening) : ∃ front quote,
    opening = front ++ [quote] ∧ (∀ glyph ∈ front, isQuote glyph = false) ∧ isQuote quote = true := by
  obtain @⟨verb, gap, mark, space, quote, known, before, marked, behind, quoted⟩ := opens
  have unquoted : ∀ verb ∈ verbs, ∀ glyph ∈ verb.toList, isQuote glyph = false := by
    simp [verbs, isQuote, char_self]
  refine ⟨_, quote, rfl, ?_, quoted⟩
  simp only [List.forall_mem_append]
  refine ⟨⟨⟨unquoted verb known, fun glyph member => isQuote_of_isBlank (before glyph member)⟩, ?_⟩,
    fun glyph member => isQuote_of_isBlank (behind glyph member)⟩
  rcases marked with rfl | rfl
  · exact List.forall_mem_nil _
  · exact List.forall_mem_singleton.mpr rfl

theorem opening_iff {quoted : List Char} :
    (∃ after, afterVerb? verbs text = some after ∧
      afterQuote? (dropBlanks (afterOptional '(' (dropBlanks after))) = some quoted) ↔
    ∃ opening, Opening opening ∧ text = opening ++ quoted := by
  constructor
  · rintro ⟨after, begun, found⟩
    obtain ⟨verb, known, rfl⟩ := verb_of_afterVerb? begun
    obtain ⟨space, quote, between, opens, inner⟩ := afterQuote?_dropBlanks_eq_some_iff.mp found
    obtain ⟨gap, before, outer⟩ := exists_dropBlanks after
    obtain ⟨mark, marked, middle⟩ := exists_afterOptional '(' (dropBlanks after)
    refine ⟨_, .mk known before marked between opens, ?_⟩
    rw [outer, middle, inner]
    simp only [List.append_assoc, List.singleton_append]
  · rintro ⟨_, @⟨verb, gap, mark, space, quote, known, before, marked, between, opens⟩, rfl⟩
    refine ⟨gap ++ (mark ++ (space ++ quote :: quoted)), ?_, quote_found before marked between opens quoted⟩
    simp only [List.append_assoc, List.singleton_append]
    exact afterVerb?_append known _

theorem call?_eq_some_iff : call? text = some (argument, rest) ↔
    ∃ opening closing, Opening opening ∧ Argument argument ∧ Closing closing rest ∧
      text = opening ++ (argument ++ (closing ++ rest)) := by
  simp only [call?, Option.bind_eq_some_iff, Option.map_eq_some_iff, Prod.exists, Prod.mk.injEq]
  constructor
  · rintro ⟨after, begun, quoted, found, _, behind, read, rfl, resumed⟩
    obtain ⟨opening, opens, rfl⟩ := opening_iff.mp ⟨after, begun, found⟩
    obtain ⟨argued, quote, ends, rfl⟩ := argument?_eq_some_iff.mp read
    obtain ⟨passed, closes, rfl⟩ := (closing_iff ends).mpr resumed
    exact ⟨opening, quote :: passed, opens, argued, closes, rfl⟩
  · rintro ⟨opening, closing, opens, argued, closes, rfl⟩
    obtain ⟨quote, passed, quoted, rfl⟩ := closes.exists_quote
    obtain ⟨after, begun, found⟩ := opening_iff.mpr ⟨opening, opens, rfl⟩
    have read : argument? (argument ++ (quote :: passed ++ rest)) = some (argument, passed ++ rest) :=
      argument?_eq_some_iff.mpr ⟨argued, quote, quoted, rfl⟩
    exact ⟨after, begun, _, found, argument, _, read, rfl, (closing_iff quoted).mp ⟨passed, closes, rfl⟩⟩

theorem begins_iff : Begins text argument ↔ ∃ rest, call? text = some (argument, rest) := by
  constructor
  · rintro ⟨opening, quote, behind, opens, argued, quoted, rfl⟩
    obtain ⟨passed, closes, split⟩ := (closing_iff quoted).mpr (rfl : _ = afterOptional ')' (dropBlanks behind))
    have whole := congrArg (fun behind => opening ++ (argument ++ quote :: behind)) split
    exact ⟨_, call?_eq_some_iff.mpr ⟨opening, quote :: passed, opens, argued, closes, whole⟩⟩
  · rintro ⟨rest, found⟩
    obtain ⟨opening, closing, opens, argued, closes, rfl⟩ := call?_eq_some_iff.mp found
    obtain ⟨quote, passed, quoted, rfl⟩ := closes.exists_quote
    exact ⟨opening, quote, passed ++ rest, opens, argued, quoted, rfl⟩

theorem Begins.append (begins : Begins text argument) (more : List Char) : Begins (text ++ more) argument := by
  obtain ⟨opening, quote, behind, opens, argued, quoted, rfl⟩ := begins
  exact ⟨opening, quote, behind ++ more, opens, argued, quoted, by simp only [List.append_assoc, List.cons_append]⟩

theorem not_begins_iff : (∀ argument, ¬ Begins text argument) ↔ call? text = none := by
  simp only [begins_iff, Option.eq_none_iff_forall_ne_some, Prod.forall, not_exists]

theorem silent_iff : Silent text rest ↔ ∀ later, later <:+ text → later ≠ [] → call? (later ++ rest) = none := by
  simp only [Silent, not_begins_iff]

theorem Silent.alone (silent : Silent text rest) : Silent text [] := by
  intro later within nonempty argument begins
  rw [List.append_nil] at begins
  exact silent later within nonempty argument (begins.append rest)

theorem scans_arguments (text : List Char) : Scans text (arguments text) := by
  fun_induction arguments text with
  | case1 text absent =>
    refine .nothing (silent_iff.mpr fun later within _ => ?_)
    obtain ⟨front, split⟩ := within
    rw [List.append_nil]
    exact leftmost?_eq_none_iff.mp absent front later split.symm
  | case2 text argument rest found ih =>
    obtain ⟨skipped, later, rfl, read, least⟩ := leftmost?_first found
    obtain ⟨opening, closing, opens, argued, closes, rfl⟩ := call?_eq_some_iff.mp read
    refine .call (silent_iff.mpr fun last within nonempty => ?_) opens argued closes ih
    obtain ⟨front, rfl⟩ := within
    by_contra begun
    have before := least front _ (List.append_assoc ..) (Option.isSome_iff_ne_none.mpr begun)
    have longer := List.length_pos_iff.mpr nonempty
    rw [List.length_append] at before
    omega

theorem scans_iff {arguments : List (List Char)} : Scans text arguments ↔ Step.arguments text = arguments := by
  constructor
  · intro scans
    induction scans with
    | @nothing text silent =>
      rw [← List.append_nil text, arguments_skip (silent_iff.mp silent)]
      exact arguments_of_none rfl
    | call silent opens argued closes _ ih =>
      rw [arguments_skip (silent_iff.mp silent),
        arguments_of_some (call?_eq_some_iff.mpr ⟨_, _, opens, argued, closes, rfl⟩), ih]
  · rintro rfl
    exact scans_arguments text

theorem Scans.exists_sites {arguments : List (List Char)} (scans : Scans text arguments) :
    ∃ (sites : List Site) (last : List Char), Silent last [] ∧ text = sites.flatMap Site.text ++ last ∧
      arguments = sites.map Site.argument := by
  induction scans with
  | @nothing text silent => exact ⟨[], text, silent, rfl, rfl⟩
  | @call skipped opening argument closing rest _ silent opens argued closes _ ih =>
    obtain ⟨sites, last, quiet, rfl, rfl⟩ := ih
    refine ⟨⟨skipped, opening, argument, closing, silent.alone, opens, argued, _, closes⟩ :: sites, last, quiet, ?_, rfl⟩
    simp only [List.flatMap_cons, Site.text, List.append_assoc]

theorem map_toList_extract (text : String) : (extract text).map String.toList = Step.arguments text.toList := by
  rw [extract, List.map_map]
  exact List.map_id'' (fun _ => String.toList_ofList) _

theorem extract_eq_iff {text : String} {steps : List String} :
    extract text = steps ↔ Step.arguments text.toList = steps.map String.toList := by
  constructor
  · rintro rfl
    exact (map_toList_extract text).symm
  · intro same
    rw [extract, same, List.map_map]
    exact List.map_id'' (fun _ => String.ofList_toList) steps

end

/-- What is extracted from a text is its scan, and what the pattern of calls captures. So every step has a first
character, which may be a quote, and others that are not, all on one line; and the steps stand in the text one behind
the other, with no call in what was skipped between them. -/
theorem extract_scans (text : String) :
    (∀ steps, extract text = steps ↔ Scans text.toList (steps.map String.toList)) ∧
    (callPattern.text = pattern ∧
      ∀ steps, extract text = steps ↔ callPattern.Captures text.toList (steps.map String.toList)) ∧
    (∀ step ∈ extract text, ∃ first inner, step.toList = first :: inner ∧ '\n' ∉ step.toList ∧
      ∀ char ∈ inner, char ≠ '\'' ∧ char ≠ '"') ∧
    ∃ (sites : List Site) (last : List Char), Silent last [] ∧ text.toList = sites.flatMap Site.text ++ last ∧
      (extract text).map String.toList = sites.map Site.argument := by
  obtain ⟨sites, last, quiet, split, found⟩ := (scans_arguments text.toList).exists_sites
  rw [← map_toList_extract] at found
  refine ⟨fun steps => ?_, ⟨text_callPattern, fun steps => ?_⟩, fun step member => ?_, sites, last, quiet, split, found⟩
  · rw [extract_eq_iff, scans_iff]
  · rw [extract_eq_iff, captures_iff]
  · have argued : ∃ site ∈ sites, site.argument = step.toList := by
      rw [← List.mem_map, ← found]
      exact List.mem_map_of_mem member
    obtain ⟨site, _, same⟩ := argued
    obtain ⟨first, inner, spelled, line, unquoted⟩ := site.argued.exists_cons
    rw [← same, spelled]
    exact ⟨first, inner, rfl, line, fun char within => isQuote_eq_false_iff.mp (unquoted char within)⟩

end PipelineChart.Step
