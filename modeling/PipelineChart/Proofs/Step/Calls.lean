import PipelineChart.Proofs.Step.Grammar

/-!
Calls of any command, one on each line. A verb is looked for at every glyph, so it is found at the end of a longer word
as well; nowhere else on the line, since what follows it there is no quote, or the quote that ends the argument. A
call therefore yields its argument if its word ends in a verb, and nothing otherwise, and never touches the
lines around it.
-/

namespace PipelineChart.Step

open Text

/-- A part of a call that is no blank and opens nothing, such as letters, digits and underscores. -/
def isWordGlyph (glyph : Char) : Bool := !(isBlank glyph || isQuote glyph || glyph == '(')

def Word (text : List Char) : Prop := ∀ glyph ∈ text, isWordGlyph glyph = true

instance (text : List Char) : Decidable (Word text) :=
  List.decidableBAll _ text

theorem Word.not_mem {text : List Char} {glyph : Char} (word : Word text) (other : isWordGlyph glyph = false) :
    glyph ∉ text := by
  intro member
  rw [word glyph member] at other
  cases other

theorem word_of_known {verb : String} (known : verb ∈ verbs) : Word verb.toList := by
  have each : ∀ verb ∈ verbs, Word verb.toList := by decide
  exact each verb known

theorem isWordGlyph_quote {quote : Char} (quoted : isQuote quote = true) : isWordGlyph quote = false := by
  simp [isWordGlyph, quoted]

theorem isWordGlyph_blank {glyph : Char} (blank : isBlank glyph = true) : isWordGlyph glyph = false := by
  simp [isWordGlyph, blank]

/-- A call of any command, of which the argument stands in parentheses or behind a space. -/
structure Call where
  verb : String
  quote : Char
  parenthesized : Bool
  argument : String
  word : Word verb.toList
  quoted : isQuote quote = true
  quotable : Quotable argument.toList

namespace Call

def text (call : Call) : String :=
  call.verb ++ (if call.parenthesized then "(" else " ") ++ String.singleton call.quote ++ call.argument ++
    String.singleton call.quote ++ if call.parenthesized then ")" else ""

def EndsInVerb (call : Call) : Prop := ∃ known ∈ verbs, known.toList <:+ call.verb.toList

instance (call : Call) : Decidable call.EndsInVerb :=
  inferInstanceAs (Decidable (∃ known ∈ verbs, known.toList <:+ call.verb.toList))

def mark (call : Call) : Char := if call.parenthesized then '(' else ' '

def ending (call : Call) : List Char := if call.parenthesized then [')'] else []

theorem toList_text (call : Call) : call.text.toList = call.verb.toList ++
    call.mark :: call.quote :: (call.argument.toList ++ call.quote :: call.ending) := by
  unfold text mark ending
  cases call.parenthesized <;> simp

theorem isWordGlyph_mark (call : Call) : isWordGlyph call.mark = false := by
  unfold mark
  cases call.parenthesized <;> rfl

theorem endsInVerb_of_known {call : Call} (known : call.verb ∈ verbs) : call.EndsInVerb :=
  ⟨call.verb, known, List.suffix_rfl⟩

end Call

theorem eq_of_suffix {verb other : String} (known : verb ∈ verbs) (known' : other ∈ verbs)
    (ends : other.toList <:+ verb.toList) : verb = other := by
  have each : ∀ verb ∈ verbs, ∀ other ∈ verbs, other.toList <:+ verb.toList → verb = other := by decide
  exact each verb known other known' ends

theorem Opening.exists_verb {opening : List Char} (opens : Opening opening) :
    ∃ verb ∈ verbs, ∃ mark behind, isWordGlyph mark = false ∧ opening = verb.toList ++ mark :: behind := by
  obtain @⟨verb, gap, mark, space, quote, known, before, marked, between, quoted⟩ := opens
  have apart : ∀ glyph ∈ gap ++ mark ++ space ++ [quote], isWordGlyph glyph = false := by
    simp only [List.forall_mem_append]
    refine ⟨⟨⟨fun glyph member => isWordGlyph_blank (before glyph member), ?_⟩,
      fun glyph member => isWordGlyph_blank (between glyph member)⟩,
      List.forall_mem_singleton.mpr (isWordGlyph_quote quoted)⟩
    rcases marked with rfl | rfl
    · exact List.forall_mem_nil _
    · exact List.forall_mem_singleton.mpr rfl
  obtain ⟨first, behind, same⟩ := List.exists_cons_of_ne_nil (List.concat_ne_nil quote (gap ++ mark ++ space))
  rw [same] at apart
  refine ⟨verb, known, first, behind, apart first List.mem_cons_self, ?_⟩
  rw [← same]
  simp only [List.append_assoc]

theorem call?_word {word text : List Char} {mark : Char} (plain : Word word)
    (unknown : ∀ verb ∈ verbs, verb.toList ≠ word) (marked : isWordGlyph mark = false) :
    call? (word ++ mark :: text) = none := by
  rw [Option.eq_none_iff_forall_ne_some]
  rintro ⟨argument, rest⟩ found
  obtain ⟨opening, closing, opens, _, _, split⟩ := call?_eq_some_iff.mp found
  obtain ⟨verb, known, mark', behind, marked', rfl⟩ := opens.exists_verb
  rw [List.append_assoc, List.cons_append] at split
  have apart (text : List Char) (word : Word text) : ∀ glyph ∈ text, (!isWordGlyph glyph) = false := by
    intro glyph member
    rw [word glyph member]
    rfl
  have same := first_unique (apart _ plain) (apart _ (word_of_known known)) (by rw [marked]; rfl) (by rw [marked']; rfl)
    split
  exact unknown verb known same.1.symm

/-- Inside an argument the quote that ends it would open the next one, and no quote follows on the line. -/
theorem call?_inside {inside rest : List Char} {quote : Char} (unquoted : ∀ glyph ∈ inside, isQuote glyph = false)
    (closing : isQuote quote = true) (unread : argument? rest = none) : call? (inside ++ quote :: rest) = none := by
  rw [Option.eq_none_iff_forall_ne_some]
  rintro ⟨argument, after⟩ found
  obtain ⟨opening, ending, opens, argued, closes, split⟩ := call?_eq_some_iff.mp found
  obtain ⟨front, first, rfl, unquoted', opened⟩ := opens.exists_quote
  rw [List.append_assoc, List.singleton_append] at split
  obtain ⟨_, _, rfl⟩ := first_unique unquoted unquoted' closing opened split
  obtain ⟨last, passed, quoted, rfl⟩ := closes.exists_quote
  cases unread.symm.trans (argument?_eq_some_iff.mpr ⟨argued, last, quoted, rfl⟩)

variable {call : Call} {rest : List Char}

theorem argument?_of_unquoted (unquoted : upToQuote? rest = none) : argument? rest = none := by
  cases rest with
  | nil => rfl
  | cons glyph rest =>
    rw [upToQuote?] at unquoted
    rw [argument?]
    split_ifs at unquoted ⊢ with quoted newline
    · rfl
    · rw [Option.map_eq_none_iff] at unquoted ⊢
      exact unquoted

theorem argument?_ending (unquoted : upToQuote? rest = none) : argument? (call.ending ++ rest) = none := by
  unfold Call.ending
  cases call.parenthesized with
  | false => exact argument?_of_unquoted unquoted
  | true =>
    show (if isNewline ')' then none else (upToQuote? rest).map _) = none
    rw [unquoted]
    rfl

theorem arguments_of_other (other : ¬ call.EndsInVerb) (unquoted : upToQuote? rest = none) :
    arguments (call.text.toList ++ rest) = arguments rest := by
  have letters : Word ['s', 'e', 'b'] := by decide
  have quote : call.quote ∉ ['s', 'e', 'b'] := letters.not_mem (isWordGlyph_quote call.quoted)
  have mark : call.mark ∉ ['s', 'e', 'b'] := letters.not_mem call.isWordGlyph_mark
  have whole : call.text.toList ++ rest = call.verb.toList ++ call.mark :: call.quote ::
      (call.argument.toList ++ call.quote :: (call.ending ++ rest)) := by
    rw [call.toList_text]
    simp only [List.append_assoc, List.cons_append]
  calc
    arguments (call.text.toList ++ rest) = arguments (call.mark :: call.quote ::
        (call.argument.toList ++ call.quote :: (call.ending ++ rest))) := by
      rw [whole]
      apply arguments_skip
      intro last within _
      refine call?_word (fun glyph member => call.word glyph (within.subset member)) ?_ call.isWordGlyph_mark
      rintro verb known rfl
      exact other ⟨verb, known, within⟩
    _ = arguments (call.argument.toList ++ call.quote :: (call.ending ++ rest)) := by
      rw [arguments_cons mark, arguments_cons quote]
    _ = arguments (call.quote :: (call.ending ++ rest)) := by
      apply arguments_skip
      intro last within _
      have inside : ∀ glyph ∈ last, isQuote glyph = false :=
        fun glyph member => call.quotable.isQuote_eq_false glyph (within.subset member)
      exact call?_inside inside call.quoted (argument?_ending unquoted)
    _ = arguments rest := by
      rw [arguments_cons quote]
      unfold Call.ending
      cases call.parenthesized with
      | false => rfl
      | true => exact arguments_cons (by decide) rest

theorem arguments_of_endsInVerb (ends : call.EndsInVerb) :
    arguments (call.text.toList ++ rest) = call.argument.toList :: arguments rest := by
  obtain ⟨known, member, lead, split⟩ := ends
  let style : Style := ⟨known, call.quote, call.parenthesized, member, call.quoted⟩
  have written : call.text.toList = lead ++ style.write call.argument := by
    rw [call.toList_text, ← split]
    simp only [Style.write, Style.opening, Style.closing, Call.mark, Call.ending, style, List.append_assoc,
      List.cons_append, List.nil_append]
  rw [written, List.append_assoc, arguments_skip, arguments_write style call.quotable]
  intro last within nonempty
  have text : last ++ (style.write call.argument ++ rest) = last ++ known.toList ++
      call.mark :: (call.quote :: (call.argument.toList ++ (style.closing ++ rest))) := by
    simp only [Style.write, Style.opening, Call.mark, style, List.append_assoc, List.cons_append, List.nil_append]
  rw [text]
  refine call?_word ?_ ?_ call.isWordGlyph_mark
  · intro glyph inside
    apply call.word glyph
    rw [← split]
    rcases List.mem_append.mp inside with front | back
    · exact List.mem_append_left _ (within.subset front)
    · exact List.mem_append_right _ back
  · -- the front of the word would have to be empty, as no verb ends in another
    intro verb known' same
    have equal := eq_of_suffix known' member ⟨last, same.symm⟩
    rw [equal] at same
    exact nonempty (List.self_eq_append_left.mp same)

theorem upToQuote?_blanks {gap : List Char} (blank : Blanks gap) : upToQuote? gap = none := by
  induction gap with
  | nil => rfl
  | cons glyph gap ih =>
    rw [Blanks, List.forall_mem_cons] at blank
    rw [upToQuote?, isQuote_of_isBlank blank.1, ih blank.2, if_neg Bool.false_ne_true]
    split_ifs <;> rfl

theorem arguments_text {read : List (List Char)} (unquoted : upToQuote? rest = none) (others : arguments rest = read) :
    arguments (call.text.toList ++ rest) = if call.EndsInVerb then call.argument.toList :: read else read := by
  subst others
  split_ifs with ends
  · exact arguments_of_endsInVerb ends
  · exact arguments_of_other ends unquoted

theorem arguments_calls (calls : List Call) {gap : List Char} (blank : Blanks gap) :
    arguments (("\n".intercalate (calls.map Call.text)).toList ++ gap) =
      (calls.filter fun call => call.EndsInVerb).map fun call => call.argument.toList := by
  induction calls with
  | nil =>
    have nothing := dropBlanks_append blank []
    rw [List.append_nil] at nothing
    show arguments gap = []
    rw [← arguments_dropBlanks, nothing]
    exact arguments_of_none rfl
  | cons call calls ih =>
    have filtered : ((call :: calls).filter fun call => call.EndsInVerb).map (fun call => call.argument.toList) =
        if call.EndsInVerb then
          call.argument.toList :: (calls.filter fun call => call.EndsInVerb).map fun call => call.argument.toList
        else (calls.filter fun call => call.EndsInVerb).map fun call => call.argument.toList := by
      rw [List.filter_cons]
      simp only [decide_eq_true_eq]
      split_ifs <;> rfl
    rw [filtered]
    cases calls with
    | nil =>
      have alone : ("\n".intercalate ([call].map Call.text)).toList = call.text.toList := by simp
      rw [alone]
      exact arguments_text (upToQuote?_blanks blank) ih
    | cons next calls =>
      have whole : ("\n".intercalate ((call :: next :: calls).map Call.text)).toList ++ gap =
          call.text.toList ++ '\n' :: (("\n".intercalate ((next :: calls).map Call.text)).toList ++ gap) := by
        simp
      rw [whole]
      exact arguments_text rfl ((arguments_cons (by decide) _).trans ih)

/-- What is extracted of calls on lines of their own are the arguments of those that end in a verb. So it is the
arguments of the known verbs exactly if no other word ends in one. -/
theorem extract_calls_iff (calls : List Call) {ending : String} (blank : Blanks ending.toList) :
    let text := "\n".intercalate (calls.map Call.text) ++ ending
    extract text = (calls.filter fun call => call.EndsInVerb).map Call.argument ∧
      (extract text = (calls.filter fun call => call.verb ∈ verbs).map Call.argument ↔
        ∀ call ∈ calls, call.EndsInVerb → call.verb ∈ verbs) := by
  intro text
  have read : extract text = (calls.filter fun call => call.EndsInVerb).map Call.argument := by
    rw [extract, String.toList_append, arguments_calls calls blank, List.map_map]
    apply List.map_congr_left
    intro call _
    exact String.ofList_toList
  refine ⟨read, ?_⟩
  -- the calls of known verbs are some of those read, and all of them if there are as many
  have known : calls.filter (fun call => call.verb ∈ verbs) =
      (calls.filter fun call => call.EndsInVerb).filter fun call => call.verb ∈ verbs := by
    rw [List.filter_filter]
    apply List.filter_congr
    intro call _
    rw [Bool.eq_iff_iff, Bool.and_eq_true, decide_eq_true_eq, decide_eq_true_eq]
    exact (and_iff_left_of_imp Call.endsInVerb_of_known).symm
  rw [read, known]
  constructor
  · intro same call member ends
    have lengths := congrArg List.length same
    rw [List.length_map, List.length_map] at lengths
    have all := List.length_filter_eq_length_iff.mp lengths.symm call
      (List.mem_filter.mpr ⟨member, decide_eq_true ends⟩)
    exact of_decide_eq_true all
  · intro each
    have all : ∀ call ∈ calls.filter fun call => call.EndsInVerb, decide (call.verb ∈ verbs) = true := by
      intro call member
      obtain ⟨member, ends⟩ := List.mem_filter.mp member
      exact decide_eq_true (each call member (of_decide_eq_true ends))
    rw [List.filter_eq_self.mpr all]

/-- Verbs in an argument, in front of a word and in a line of another command: two calls are read out of four. -/
theorem extract_calls_among_others :
    let calls : List Call := [⟨"sh", '\'', false, "make", by decide, rfl, ⟨by decide, by decide, by decide⟩⟩,
      ⟨"shell_2", '"', true, "sh (", by decide, rfl, ⟨by decide, by decide, by decide⟩⟩,
      ⟨"run", '\'', false, "echo", by decide, rfl, ⟨by decide, by decide, by decide⟩⟩,
      ⟨"bat", '"', true, "// \x7b", by decide, rfl, ⟨by decide, by decide, by decide⟩⟩]
    Blanks "\n".toList ∧ (∀ call ∈ calls, call.EndsInVerb → call.verb ∈ verbs) ∧
      extract ("\n".intercalate (calls.map Call.text) ++ "\n") = ["make", "// \x7b"] := by
  intro calls
  have blank : Blanks "\n".toList := by decide
  have each : ∀ call ∈ calls, call.EndsInVerb → call.verb ∈ verbs := by decide
  exact ⟨blank, each, (extract_calls_iff calls blank).2.mpr each⟩

/-- The command `publish` is no verb, and its argument is read as that of `sh`. -/
theorem extract_of_longer_word :
    let call : Call := ⟨"publish", '\'', false, "x", by decide, rfl, ⟨by decide, by decide, by decide⟩⟩
    call.text = "publish 'x'" ∧ [call].filter (fun call => call.verb ∈ verbs) = [] ∧
      extract call.text = ["x"] := by
  decide +kernel

end PipelineChart.Step
