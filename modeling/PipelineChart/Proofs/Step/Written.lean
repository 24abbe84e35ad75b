import PipelineChart.Proofs.Text.Plain

/-!
Calls as they are written, one on each line, and read back. Any known verb may be used, quotes of either
kind, and parentheses or none.
-/

namespace PipelineChart.Step

open Text

structure Style where
  verb : String
  quote : Char
  parenthesized : Bool
  known : verb ∈ verbs
  quoted : isQuote quote = true

namespace Style

def opening (style : Style) : List Char :=
  style.verb.toList ++ [if style.parenthesized then '(' else ' ', style.quote]

def closing (style : Style) : List Char :=
  style.quote :: if style.parenthesized then [')'] else []

def write (style : Style) (argument : String) : List Char :=
  style.opening ++ argument.toList ++ style.closing

def openings : List (List Char) :=
  verbs.flatMap fun verb => ['(', ' '].flatMap fun mark =>
    ['\'', '"'].map fun quote => verb.toList ++ [mark, quote]

def closings : List (List Char) := [['\''], ['\'', ')'], ['"'], ['"', ')']]

theorem quote_cases (style : Style) : style.quote = '\'' ∨ style.quote = '"' := by
  have quoted := style.quoted
  simp only [isQuote, char_self, Bool.or_eq_true, beq_iff_eq] at quoted
  exact quoted

theorem opening_mem (style : Style) : style.opening ∈ openings := by
  rw [openings, List.mem_flatMap]
  refine ⟨style.verb, style.known, List.mem_flatMap.mpr ⟨_, ?_, List.mem_map.mpr ⟨_, ?_, rfl⟩⟩⟩
  · cases style.parenthesized <;> decide
  · rcases style.quote_cases with single | double
    · rw [single]
      decide
    · rw [double]
      decide

theorem closing_mem (style : Style) : style.closing ∈ closings := by
  unfold closing
  rcases style.quote_cases with single | double
  · rw [single]
    cases style.parenthesized <;> decide
  · rw [double]
    cases style.parenthesized <;> decide

end Style

def write (style : Nat → Style) (steps : List String) : List (List Char) :=
  steps.mapIdx fun index step => (style index).write step

theorem write_cons (style : Nat → Style) (step : String) (steps : List String) :
    write style (step :: steps) = (style 0).write step :: write (fun index => style (index + 1)) steps :=
  List.mapIdx_cons

theorem forall_write {p : List Char → Prop}
    (each : ∀ (style : Style) {step : String}, Plain step.toList → p (style.write step))
    (style : Nat → Style) {steps : List String} (plain : ∀ step ∈ steps, Plain step.toList) :
    ∀ text ∈ write style steps, p text := by
  intro text member
  obtain ⟨index, inside, rfl⟩ := List.mem_mapIdx.mp member
  exact each _ (plain _ (List.getElem_mem inside))

variable {style : Style}

theorem afterVerb?_append {verb : String} (known : verb ∈ verbs) (rest : List Char) :
    afterVerb? verbs (verb.toList ++ rest) = some rest := by
  simp only [verbs, List.mem_cons, List.not_mem_nil, or_false] at known
  rcases known with same | same | same <;> rw [same] <;> rfl

theorem verb_of_afterVerb? {words : List String} {text rest : List Char}
    (found : afterVerb? words text = some rest) : ∃ verb ∈ words, text = verb.toList ++ rest := by
  induction words with
  | nil => cases found
  | cons verb others ih =>
    rw [afterVerb?] at found
    cases here : after? verb.toList text with
    | some after =>
      rw [here] at found
      obtain rfl := Option.some.inj found
      obtain ⟨front, spelled, split⟩ := after?_eq_some_iff.mp here
      rw [chars_self] at spelled
      exact ⟨verb, List.mem_cons_self, by rw [split, spelled]⟩
    | none =>
      rw [here] at found
      obtain ⟨other, member, split⟩ := ih found
      exact ⟨other, List.mem_cons_of_mem _ member, split⟩

theorem upToQuote?_append {text : List Char} (unquoted : ∀ glyph ∈ text, isQuote glyph = false)
    (inline : ∀ glyph ∈ text, isNewline glyph = false) {quote : Char} (quoted : isQuote quote = true)
    (rest : List Char) : upToQuote? (text ++ quote :: rest) = some (text, rest) := by
  induction text with
  | nil => rw [List.nil_append, upToQuote?, if_pos quoted]
  | cons glyph text ih =>
    rw [List.forall_mem_cons] at unquoted inline
    rw [List.cons_append, upToQuote?, unquoted.1, inline.1, ih unquoted.2 inline.2]
    rfl

theorem argument?_append {argument : List Char} (quotable : Quotable argument) {quote : Char}
    (quoted : isQuote quote = true) (rest : List Char) :
    argument? (argument ++ quote :: rest) = some (argument, rest) := by
  have unquoted := quotable.isQuote_eq_false
  have inline := quotable.isNewline_eq_false
  obtain ⟨first, others, rfl⟩ := List.exists_cons_of_ne_nil quotable.nonempty
  rw [List.forall_mem_cons] at unquoted inline
  rw [List.cons_append, argument?, inline.1, upToQuote?_append unquoted.2 inline.2 quoted]
  rfl

theorem afterOptional_of_ne {mark glyph : Char} (other : glyph ≠ mark) (text : List Char) :
    afterOptional mark (glyph :: text) = glyph :: text := by
  rw [afterOptional, char_self, if_neg other]

theorem exists_afterOptional (mark : Char) (text : List Char) :
    ∃ passed, (passed = [] ∨ passed = [mark]) ∧ text = passed ++ afterOptional mark text := by
  cases text with
  | nil => exact ⟨[], Or.inl rfl, rfl⟩
  | cons glyph text =>
    rw [afterOptional, char_self]
    split_ifs with same
    · exact ⟨[mark], Or.inr rfl, by rw [same]; rfl⟩
    · exact ⟨[], Or.inl rfl, rfl⟩

theorem quote_found {gap mark space : List Char} {quote : Char} (before : Blanks gap)
    (marked : mark = [] ∨ mark = ['(']) (behind : Blanks space) (quoted : isQuote quote = true)
    (inside : List Char) :
    afterQuote? (dropBlanks (afterOptional '(' (dropBlanks (gap ++ (mark ++ (space ++ quote :: inside)))))) =
      some inside := by
  have visible : isBlank quote = false := isBlank_of_isQuote quoted
  have other : quote ≠ '(' := by
    rintro rfl
    cases quoted
  have begun : dropBlanks (afterOptional '(' (dropBlanks (gap ++ (mark ++ (space ++ quote :: inside))))) =
      quote :: inside := by
    rw [dropBlanks_append before]
    rcases marked with rfl | rfl
    · rw [List.nil_append, dropBlanks_append behind, dropBlanks_cons visible, afterOptional_of_ne other,
        dropBlanks_cons visible]
    · show dropBlanks (space ++ quote :: inside) = quote :: inside
      rw [dropBlanks_append behind, dropBlanks_cons visible]
  rw [begun, afterQuote?, if_pos quoted]

theorem Style.quote_found (style : Style) (inside : List Char) :
    afterQuote? (dropBlanks (afterOptional '(' (dropBlanks
      ((if style.parenthesized then '(' else ' ') :: style.quote :: inside)))) = some inside := by
  cases style.parenthesized with
  | true => exact Step.quote_found blanks_nil (Or.inr rfl) blanks_nil style.quoted inside
  | false => exact Step.quote_found (show Blanks [' '] by decide) (Or.inl rfl) blanks_nil style.quoted inside

theorem call?_write (style : Style) {step : String} (quotable : Quotable step.toList) (rest : List Char) :
    call? (style.write step ++ rest) = some (step.toList,
      if style.parenthesized then rest else afterOptional ')' (dropBlanks rest)) := by
  have whole : style.write step ++ rest = style.verb.toList ++
      ((if style.parenthesized then '(' else ' ') :: style.quote :: (step.toList ++ style.quote ::
        ((if style.parenthesized then [')'] else []) ++ rest))) := by
    simp [Style.write, Style.opening, Style.closing]
  have ending : afterOptional ')' (dropBlanks ((if style.parenthesized then [')'] else []) ++ rest)) =
      if style.parenthesized then rest else afterOptional ')' (dropBlanks rest) := by
    cases style.parenthesized <;> rfl
  rw [whole, call?, afterVerb?_append style.known, Option.bind_some, style.quote_found, Option.bind_some,
    argument?_append quotable style.quoted, Option.map_some]
  exact congrArg (fun rest => some (step.toList, rest)) ending

theorem call?_cons_eq_none {glyph : Char} (other : glyph ∉ ['s', 'e', 'b']) (text : List Char) :
    call? (glyph :: text) = none := by
  simp only [List.mem_cons, List.not_mem_nil, or_false, not_or] at other
  have refused : afterVerb? verbs (glyph :: text) = none := by
    simp [verbs, afterVerb?, after?, other]
  rw [call?, refused, Option.bind_none]

theorem arguments_of_leftmost {text argument rest : List Char}
    (found : leftmost? call? text = some (argument, rest)) : arguments text = argument :: arguments rest := by
  rw [arguments]
  split
  · rename_i absent
    rw [found] at absent
    cases absent
  · rename_i same
    rw [found] at same
    cases same
    rfl

theorem arguments_of_some {text argument rest : List Char} (found : call? text = some (argument, rest)) :
    arguments text = argument :: arguments rest :=
  arguments_of_leftmost (leftmost?_of_some found)

theorem arguments_of_none {text : List Char} (absent : leftmost? call? text = none) : arguments text = [] := by
  rw [arguments]
  split
  · rfl
  · rename_i found
    rw [absent] at found
    cases found

/-- The arguments depend on where the leftmost call ends, and on nothing before it. -/
theorem arguments_congr {text other : List Char}
    (same : leftmost? call? text = leftmost? call? other) : arguments text = arguments other := by
  rw [arguments, arguments, ← same]

theorem arguments_skip {front text : List Char}
    (refused : ∀ last, last <:+ front → last ≠ [] → call? (last ++ text) = none) :
    arguments (front ++ text) = arguments text := by
  induction front with
  | nil => rfl
  | cons glyph front ih =>
    have here : call? (glyph :: (front ++ text)) = none := refused _ List.suffix_rfl (List.cons_ne_nil _ _)
    rw [List.cons_append, arguments_congr (leftmost?_cons_of_none here)]
    exact ih fun last within => refused last (within.trans (List.suffix_cons _ _))

theorem arguments_cons {glyph : Char} (other : glyph ∉ ['s', 'e', 'b']) (text : List Char) :
    arguments (glyph :: text) = arguments text :=
  arguments_congr (leftmost?_cons_of_none (call?_cons_eq_none other text))

theorem arguments_dropBlanks (text : List Char) : arguments (dropBlanks text) = arguments text := by
  apply arguments_congr
  apply leftmost?_dropBlanks
  intro glyph rest blank
  apply call?_cons_eq_none
  intro member
  simp only [List.mem_cons, List.not_mem_nil, or_false] at member
  rcases member with rfl | rfl | rfl <;> exact absurd blank (by decide)

theorem arguments_afterOptional (text : List Char) :
    arguments (afterOptional ')' text) = arguments text := by
  cases text with
  | nil => rfl
  | cons glyph text =>
    rw [afterOptional]
    split_ifs with parenthesis
    · rw [char_self] at parenthesis
      rw [parenthesis, arguments_cons (by decide)]
    · rfl

theorem arguments_write (style : Style) {step : String} (quotable : Quotable step.toList)
    (rest : List Char) : arguments (style.write step ++ rest) = step.toList :: arguments rest := by
  rw [arguments_of_some (call?_write style quotable rest)]
  split_ifs
  · rfl
  · rw [arguments_afterOptional, arguments_dropBlanks]

theorem arguments_led (style : Nat → Style) {steps : List String}
    (plain : ∀ step ∈ steps, Plain step.toList) :
    arguments (led (write style steps)) = steps.map String.toList := by
  induction steps generalizing style with
  | nil => exact arguments_of_none rfl
  | cons step steps ih =>
    rw [List.forall_mem_cons] at plain
    rw [write_cons, led_cons, arguments_cons (by decide), arguments_write (style 0) plain.1.quotable,
      ih _ plain.2, List.map_cons]

theorem unbraced_write (style : Style) {step : String} (plain : Plain step.toList) :
    '{' ∉ style.write step ∧ '}' ∉ style.write step := by
  have opening : ∀ text ∈ Style.openings, '{' ∉ text ∧ '}' ∉ text := by decide
  have closing : ∀ text ∈ Style.closings, '{' ∉ text ∧ '}' ∉ text := by decide
  have front := opening _ style.opening_mem
  have back := closing _ style.closing_mem
  simp only [Style.write, List.mem_append, not_or]
  exact ⟨⟨⟨front.1, plain.unbraced.1⟩, back.1⟩, ⟨front.2, plain.unbraced.2⟩, back.2⟩

theorem untouched_write (style : Style) {step : String} (plain : Plain step.toList) :
    Comment.Untouched (style.write step) := by
  have opening : ∀ text ∈ Style.openings, '/' ∉ text := by decide
  have front := Comment.Untouched.of_absent (opening _ style.opening_mem)
  have argument := Comment.Untouched.quoted plain.uncommented style.quoted
  have back : Comment.Untouched (if style.parenthesized then [')'] else []) := by
    cases style.parenthesized
    · exact Comment.Untouched.additive.nil
    · exact Comment.Untouched.glyph (by decide)
  have whole := (front.append argument).append back
  simp only [List.append_assoc, List.singleton_append] at whole
  rw [Style.write, Style.closing, List.append_assoc]
  exact whole

theorem solid_write (style : Style) (step : String) : Solid (style.write step) := by
  have closing : Solid style.closing := by
    unfold Style.closing
    cases style.parenthesized with
    | false => exact ⟨[], style.quote, rfl, isBlank_of_isQuote style.quoted⟩
    | true => exact ⟨[style.quote], ')', rfl, rfl⟩
  exact closing.append _

end PipelineChart.Step
