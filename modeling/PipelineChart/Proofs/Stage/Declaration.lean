import PipelineChart.Proofs.Text.Reading

/-!
The parts of a declaration: a head up to the quote that opens the name, the name, and a tail from the
quote that closes it. The name is the shortest that a tail follows. A head holds no quote but its last
glyph and a tail none but its first, so what follows a tail never decides where a name ends; and a
declaration that begins inside another one begins inside its name.
-/

namespace PipelineChart.Stage.Declaration

open Text

/-- The word `stage`, a parenthesis and a quote, with blanks between them. -/
inductive Head : List Char → Prop where
  | mk {gap space : List Char} {quote : Char} (before : Blanks gap) (behind : Blanks space)
      (quoted : isQuote quote = true) : Head ("stage".toList ++ gap ++ '(' :: space ++ [quote])

/-- A quote, a parenthesis and a brace, with blanks between them. -/
inductive Tail : List Char → Prop where
  | mk {gap space : List Char} {quote : Char} (quoted : isQuote quote = true) (before : Blanks gap)
      (behind : Blanks space) : Tail (quote :: gap ++ ')' :: space ++ ['{'])

/-- A name that stays on its line, with no tail before `rest` but behind its first glyph at most. -/
structure Shortest (name rest : List Char) : Prop where
  nonempty : name ≠ []
  line : ∀ glyph ∈ name, isNewline glyph = false
  least : ∀ front back, name = front ++ back → front ≠ [] → back ≠ [] →
    closing? (back ++ rest) = none

/-- A text that is a declaration of a name from its first glyph to its last. -/
inductive Declares : List Char → List Char → Prop where
  | mk {head name tail : List Char} (opening : Head head) (shortest : Shortest name tail)
      (ending : Tail tail) : Declares (head ++ name ++ tail) name

theorem Head.quote_last {head : List Char} (opening : Head head) :
    ∃ before quote, head = before ++ [quote] ∧ isQuote quote = true ∧
      ∀ glyph ∈ before, isQuote glyph = false := by
  obtain @⟨gap, space, quote, before, behind, quoted⟩ := opening
  refine ⟨_, quote, rfl, quoted, ?_⟩
  intro glyph member
  rw [List.mem_append, List.mem_append, List.mem_cons] at member
  rcases member with (word | blank) | rfl | blank
  · have unquoted : "stage".toList.all (fun glyph => !isQuote glyph) = true := by decide
    simpa using List.all_eq_true.mp unquoted glyph word
  · exact isQuote_of_isBlank (before glyph blank)
  · rfl
  · exact isQuote_of_isBlank (behind glyph blank)

theorem Head.letter_first {head : List Char} (opening : Head head) :
    ∃ others, head = 's' :: others ∧ 's' ∉ others := by
  obtain @⟨gap, space, quote, before, behind, quoted⟩ := opening
  refine ⟨"tage".toList ++ gap ++ '(' :: space ++ [quote], rfl, ?_⟩
  intro member
  rw [List.mem_append, List.mem_append, List.mem_append, List.mem_cons, List.mem_singleton] at member
  rcases member with ((word | blank) | parenthesis | blank) | rfl
  · exact absurd word (by decide)
  · exact absurd (before 's' blank) (by decide)
  · exact absurd parenthesis (by decide)
  · exact absurd (behind 's' blank) (by decide)
  · exact absurd quoted (by decide)

theorem Tail.quote_first {tail : List Char} (ending : Tail tail) :
    ∃ quote others, tail = quote :: others ∧ isQuote quote = true ∧
      ∀ glyph ∈ others, isQuote glyph = false := by
  obtain @⟨gap, space, quote, quoted, before, behind⟩ := ending
  refine ⟨quote, gap ++ ')' :: space ++ ['{'], rfl, quoted, ?_⟩
  intro glyph member
  rw [List.mem_append, List.mem_append, List.mem_cons, List.mem_singleton] at member
  rcases member with (blank | rfl | blank) | rfl
  · exact isQuote_of_isBlank (before glyph blank)
  · rfl
  · exact isQuote_of_isBlank (behind glyph blank)
  · rfl

theorem Tail.letter_absent {tail : List Char} (ending : Tail tail) : 's' ∉ tail := by
  obtain @⟨gap, space, quote, quoted, before, behind⟩ := ending
  intro member
  rw [List.mem_append, List.mem_append, List.mem_cons, List.mem_cons, List.mem_singleton] at member
  rcases member with ((rfl | blank) | parenthesis | blank) | brace
  · exact absurd quoted (by decide)
  · exact absurd (before 's' blank) (by decide)
  · exact absurd parenthesis (by decide)
  · exact absurd (behind 's' blank) (by decide)
  · exact absurd brace (by decide)

theorem Tail.front_eq_nil {tail front back : List Char} {quote : Char} (ending : Tail tail)
    (split : tail = front ++ quote :: back) (quoted : isQuote quote = true) : front = [] := by
  rcases ending.quote_first with ⟨first, others, rfl, _, silent⟩
  cases front with
  | nil => rfl
  | cons glyph front =>
    rw [List.cons_append, List.cons.injEq] at split
    have unquoted := silent quote (by rw [split.2]; simp)
    rw [quoted] at unquoted
    cases unquoted

theorem Head.back_eq_nil {head front back : List Char} {quote : Char} (opening : Head head)
    (split : head = front ++ quote :: back) (quoted : isQuote quote = true) : back = [] := by
  rcases opening.quote_last with ⟨before, last, rfl, _, silent⟩
  have absent : quote ∉ before := by
    intro member
    rw [silent quote member] at quoted
    cases quoted
  obtain ⟨lead, rfl, behind⟩ := split_behind split absent
  cases lead with
  | nil => exact (List.cons.inj behind).2.symm
  | cons glyph lead =>
    have lengths := congrArg List.length behind
    simp at lengths

theorem closing?_eq_some_iff {text rest : List Char} :
    closing? text = some rest ↔ ∃ tail, Tail tail ∧ text = tail ++ rest := by
  simp only [closing?, Option.bind_eq_some_iff, afterQuote?_eq_some_iff, char_self,
    after?_dropBlanks_eq_some_iff (show isBlank ')' = false from rfl),
    after?_dropBlanks_eq_some_iff (show isBlank '{' = false from rfl)]
  constructor
  · intro parts
    rcases parts with
      ⟨_, ⟨quote, quoted, rfl⟩, _, ⟨gap, _, before, rfl, rfl⟩, space, _, behind, rfl, rfl⟩
    exact ⟨_, .mk quoted before behind, by simp⟩
  · intro parts
    rcases parts with ⟨_, ⟨quoted, before, behind⟩, rfl⟩
    exact ⟨_, ⟨_, quoted, by simp⟩, _, ⟨_, _, before, rfl, rfl⟩, _, _, behind, rfl, rfl⟩

theorem Tail.append_inj {tail other rest more : List Char} (ending : Tail tail) (ending' : Tail other)
    (split : tail ++ rest = other ++ more) : tail = other ∧ rest = more := by
  have first : closing? (tail ++ rest) = some rest := closing?_eq_some_iff.mpr ⟨tail, ending, rfl⟩
  have second := closing?_eq_some_iff.mpr ⟨other, ending', split⟩
  obtain rfl := Option.some.inj (first.symm.trans second)
  exact ⟨List.append_cancel_right split, rfl⟩

theorem closing?_eq_none_iff {text : List Char} :
    closing? text = none ↔ ∀ tail rest, Tail tail → text ≠ tail ++ rest := by
  rw [Option.eq_none_iff_forall_ne_some]
  constructor
  · intro refused tail rest ending split
    exact refused rest (closing?_eq_some_iff.mpr ⟨tail, ending, split⟩)
  · intro absent rest found
    obtain ⟨tail, ending, split⟩ := closing?_eq_some_iff.mp found
    exact absent tail rest ending split

/-- What follows a tail does not decide whether another one stands before it. -/
theorem closing?_append_tail {back tail : List Char} (ending : Tail tail) (rest : List Char)
    (nonempty : back ≠ []) :
    closing? (back ++ (tail ++ rest)) = none ↔ closing? (back ++ tail) = none := by
  rw [closing?_eq_none_iff, closing?_eq_none_iff]
  constructor
  · intro absent other more ending' split
    apply absent other (more ++ rest) ending'
    rw [← List.append_assoc, split, List.append_assoc]
  · intro absent other more ending' split
    rw [← List.append_assoc] at split
    rcases List.append_eq_append_iff.mp split with ⟨surplus, whole, _⟩ | ⟨surplus, whole, _⟩
    · rcases ending.quote_first with ⟨quote, others, rfl, quoted, _⟩
      have clash : other = back ++ quote :: (others ++ surplus) := by
        rw [whole]
        simp
      exact nonempty (ending'.front_eq_nil clash quoted)
    · exact absent other surplus ending' whole

theorem shortest_cons_iff {glyph : Char} {name rest : List Char} :
    Shortest (glyph :: name) rest ↔
      isNewline glyph = false ∧ (name = [] ∨ closing? (name ++ rest) = none ∧ Shortest name rest) := by
  constructor
  · intro shortest
    have line := List.forall_mem_cons.mp shortest.line
    refine ⟨line.1, ?_⟩
    by_cases single : name = []
    · exact Or.inl single
    · refine Or.inr ⟨shortest.least [glyph] name rfl (List.cons_ne_nil _ _) single, single, line.2, ?_⟩
      intro front back split _ last
      exact shortest.least (glyph :: front) back (congrArg (glyph :: ·) split)
        (List.cons_ne_nil _ _) last
  · intro parts
    rcases parts with ⟨line, single | ⟨open', shortest⟩⟩
    · rw [single]
      refine ⟨List.cons_ne_nil _ _, List.forall_mem_singleton.mpr line, ?_⟩
      intro front back split first last
      have lengths := congrArg List.length split
      have one := List.length_pos_iff.mpr first
      have more := List.length_pos_iff.mpr last
      simp only [List.length_singleton, List.length_append] at lengths
      omega
    · refine ⟨List.cons_ne_nil _ _, List.forall_mem_cons.mpr ⟨line, shortest.line⟩, ?_⟩
      intro front back split first last
      rcases List.exists_cons_of_ne_nil first with ⟨same, front, rfl⟩
      rw [List.cons_append, List.cons.injEq] at split
      by_cases begun : front = []
      · rw [begun, List.nil_append] at split
        rw [← split.2]
        exact open'
      · exact shortest.least front back split.2 begun last

theorem name?_append {name rest inside : List Char} (shortest : Shortest name rest)
    (closed : closing? rest = some inside) : name? (name ++ rest) = some (name, inside) := by
  induction name with
  | nil => exact absurd rfl shortest.nonempty
  | cons glyph name ih =>
    rcases shortest_cons_iff.mp shortest with ⟨line, rfl | ⟨open', shortest⟩⟩
    · simp only [List.cons_append, List.nil_append, name?, line, closed]
      rfl
    · simp only [List.cons_append, name?, line, open', ih shortest]
      rfl

theorem name?_shortest {text name inside : List Char} (found : name? text = some (name, inside)) :
    ∃ rest, Shortest name rest ∧ text = name ++ rest ∧ closing? rest = some inside := by
  induction text generalizing name with
  | nil => cases found
  | cons glyph text ih =>
    unfold name? at found
    split_ifs at found with newline
    rw [Bool.not_eq_true] at newline
    cases closed : closing? text with
    | some after =>
      rw [closed] at found
      cases found
      exact ⟨text, shortest_cons_iff.mpr ⟨newline, Or.inl rfl⟩, rfl, closed⟩
    | none =>
      rw [closed] at found
      rcases Option.map_eq_some_iff.mp found with ⟨⟨others, last⟩, read, same⟩
      cases same
      rcases ih read with ⟨rest, shortest, rfl, ending⟩
      exact ⟨rest, shortest_cons_iff.mpr ⟨newline, Or.inr ⟨closed, shortest⟩⟩, rfl, ending⟩

theorem Shortest.append_iff {name tail : List Char} (ending : Tail tail) (rest : List Char) :
    Shortest name (tail ++ rest) ↔ Shortest name tail := by
  constructor
  · intro shortest
    refine ⟨shortest.nonempty, shortest.line, fun front back split first last => ?_⟩
    exact (closing?_append_tail ending rest last).mp (shortest.least front back split first last)
  · intro shortest
    refine ⟨shortest.nonempty, shortest.line, fun front back split first last => ?_⟩
    exact (closing?_append_tail ending rest last).mpr (shortest.least front back split first last)

theorem after?_stage_iff {text rest : List Char} :
    after? "stage".toList text = some rest ↔ text = "stage".toList ++ rest := by
  simp only [after?_eq_some_iff, chars_self, exists_eq_left]

theorem read?_head {head : List Char} (opening : Head head) (quoted : List Char) :
    read? (head ++ quoted) =
      (name? quoted).map fun (name, inside) => ⟨upTo inside (head ++ quoted), name, inside⟩ := by
  obtain @⟨gap, space, quote, before, behind, mark⟩ := opening
  let opened := space ++ quote :: quoted
  have word : after? "stage".toList ("stage".toList ++ gap ++ '(' :: space ++ [quote] ++ quoted) =
      some (gap ++ '(' :: opened) := after?_stage_iff.mpr (by simp [opened])
  have parenthesis : after? ['('] (dropBlanks (gap ++ '(' :: opened)) = some opened :=
    (after?_dropBlanks_eq_some_iff rfl).mpr ⟨gap, '(', before, rfl, rfl⟩
  have first : afterQuote? (dropBlanks opened) = some quoted :=
    afterQuote?_dropBlanks_eq_some_iff.mpr ⟨space, quote, behind, mark, rfl⟩
  rw [read?, word, Option.bind_some, parenthesis, Option.bind_some, first, Option.bind_some]

theorem read?_declares {text name : List Char} (declares : Declares text name) (inside : List Char) :
    read? (text ++ inside) = some ⟨text, name, inside⟩ := by
  obtain @⟨head, _, tail, opening, shortest, ending⟩ := declares
  have closed : closing? (tail ++ inside) = some inside := closing?_eq_some_iff.mpr ⟨tail, ending, rfl⟩
  have named := name?_append ((Shortest.append_iff ending inside).mpr shortest) closed
  have whole : head ++ name ++ tail ++ inside = head ++ (name ++ (tail ++ inside)) := by
    simp only [List.append_assoc]
  rw [whole, read?_head opening, named, ← whole, Option.map_some]
  dsimp only
  rw [upTo_append]

theorem read?_eq_some_iff {text : List Char} {declaration : Declaration Char} :
    read? text = some declaration ↔
      Declares declaration.text declaration.name ∧ text = declaration.text ++ declaration.inside := by
  constructor
  · simp only [read?, Option.bind_eq_some_iff, Option.map_eq_some_iff, Prod.exists, char_self,
      after?_stage_iff, after?_dropBlanks_eq_some_iff (show isBlank '(' = false from rfl),
      afterQuote?_dropBlanks_eq_some_iff]
    intro parts
    rcases parts with ⟨_, rfl, _, ⟨gap, _, before, rfl, rfl⟩, _, ⟨space, quote, behind, quoted, rfl⟩,
        name, inside, named, rfl⟩
    rcases name?_shortest named with ⟨_, shortest, rfl, closed⟩
    rcases closing?_eq_some_iff.mp closed with ⟨tail, ending, rfl⟩
    have declares := Declares.mk (Head.mk before behind quoted)
      ((Shortest.append_iff ending inside).mp shortest) ending
    have whole : "stage".toList ++ (gap ++ '(' :: (space ++ quote :: (name ++ (tail ++ inside)))) =
        ("stage".toList ++ gap ++ '(' :: space ++ [quote] ++ name ++ tail) ++ inside := by simp
    rw [whole, upTo_append]
    exact ⟨declares, rfl⟩
  · intro parts
    rw [parts.2]
    exact read?_declares parts.1 declaration.inside

end PipelineChart.Stage.Declaration
