import PipelineChart.Proofs.Stage.Declaration

/-!
Declarations that overlap. One that begins inside another begins inside its name, since the glyph `s`
that begins a head stands nowhere else in a head or a tail. Either it ends with the other, and its name
is an end of the other name; or its head runs up to the quote that ends the other name, and it ends
later.
-/

namespace PipelineChart.Stage.Declaration

open Text

/-- How a declaration of `other` that `after` follows overlaps one that `rest` follows: it begins with
`start`, which is the end of the name of the earlier one. -/
inductive Overlap (start other rest after : List Char) : Prop where
  | inner {head : List Char} (opening : Head head) (whole : start = head ++ other) (same : rest = after)
  | linked {head kept more tail : List Char} (opening : Head head) (begins : start <+: head)
      (named : other = kept ++ more) (silent : 's' ∉ kept) (shortest : Shortest other tail)
      (ending : Tail tail) (further : rest = more ++ tail ++ after)

theorem Shortest.of_append {lead name rest : List Char} (shortest : Shortest (lead ++ name) rest)
    (nonempty : name ≠ []) : Shortest name rest := by
  refine ⟨nonempty, fun glyph member => shortest.line glyph (List.mem_append_right _ member), ?_⟩
  intro front back split first last
  exact shortest.least (lead ++ front) back (by rw [split, List.append_assoc])
    (List.append_ne_nil_of_right_ne_nil lead first) last

theorem Declares.letter_first {text name : List Char} (declares : Declares text name) :
    ∃ others, text = 's' :: others := by
  obtain @⟨head, name, tail, opening, _, _⟩ := declares
  rcases opening.letter_first with ⟨others, rfl, _⟩
  exact ⟨others ++ name ++ tail, rfl⟩

theorem Declares.name_ne_nil {text name : List Char} (declares : Declares text name) : name ≠ [] := by
  rcases declares with ⟨_, shortest, _⟩
  exact shortest.nonempty

theorem letter_in_name {head name tail front back : List Char} (opening : Head head) (ending : Tail tail)
    (split : head ++ name ++ tail = front ++ 's' :: back) (nonempty : front ≠ []) :
    ∃ lead start, name = lead ++ 's' :: start ∧ front = head ++ lead ∧ back = start ++ tail := by
  rcases opening.letter_first with ⟨others, rfl, silent⟩
  obtain ⟨first, front, rfl⟩ := List.exists_cons_of_ne_nil nonempty
  rw [List.cons_append, List.cons_append, List.cons_append, List.cons.injEq] at split
  rcases split with ⟨rfl, split⟩
  rw [List.append_assoc] at split
  obtain ⟨lead, rfl, whole⟩ := split_behind split silent
  obtain ⟨start, named, behind⟩ := split_before whole ending.letter_absent
  exact ⟨lead, start, named, rfl, behind⟩

theorem linked_of_append {start head other tail tail' rest after more : List Char} (opening : Head head)
    (ending : Tail tail) (shortest : Shortest other tail') (ending' : Tail tail')
    (whole : head ++ other = start ++ (tail ++ more)) (further : rest = more ++ tail' ++ after) :
    Overlap start other rest after := by
  rcases ending.quote_first with ⟨quote, others, rfl, quoted, _⟩
  have behind : start = head → other = quote :: others ++ more → Overlap start other rest after := by
    intro begins named
    exact .linked opening (begins ▸ List.prefix_rfl) named ending.letter_absent shortest ending' further
  rcases List.append_eq_append_iff.mp whole with ⟨surplus, begun, named⟩ | ⟨surplus, begun, named⟩
  · cases surplus with
    | nil => exact behind (begun.trans (List.append_nil head)) named
    | cons glyph surplus =>
      have early := shortest.least (glyph :: surplus) _ named (List.cons_ne_nil _ _) (by simp)
      rw [List.append_assoc, closing?_eq_none_iff] at early
      exact absurd rfl (early _ _ ending)
  · cases surplus with
    | nil => exact behind (by rw [begun, List.append_nil]) named.symm
    | cons glyph surplus =>
      rw [List.cons_append, List.cons_append, List.cons.injEq] at named
      rcases named with ⟨rfl, named⟩
      obtain rfl := opening.back_eq_nil begun quoted
      exact .linked opening ⟨[quote], begun.symm⟩ named.symm
        (fun member => ending.letter_absent (List.mem_cons_of_mem _ member)) shortest ending' further

theorem overlap_of_start {lead start tail text other rest after : List Char}
    (shortest : Shortest (lead ++ start) tail) (ending : Tail tail) (later : Declares text other)
    (same : start ++ tail ++ rest = text ++ after) : Overlap start other rest after := by
  obtain @⟨head, other, tail', opening, shortest', ending'⟩ := later
  rw [List.append_assoc, List.append_assoc (head ++ other)] at same
  rcases List.append_eq_append_iff.mp same with ⟨surplus, named, split⟩ | ⟨surplus, named, split⟩
  · rcases List.append_eq_append_iff.mp split with ⟨more, rfl, further⟩ | ⟨held, whole, begun⟩
    · exact linked_of_append opening ending shortest' ending' named
        (further.trans (List.append_assoc _ _ _).symm)
    · cases held with
      | nil =>
        rw [List.append_nil] at whole
        have named' : head ++ other = start ++ (tail ++ []) := by rw [named, whole, List.append_nil]
        exact linked_of_append opening ending shortest' ending' named' begun.symm
      | cons glyph held =>
        rcases ending'.quote_first with ⟨quote, others, rfl, quoted, _⟩
        rw [List.cons_append, List.cons_append, List.cons.injEq] at begun
        rw [← begun.1] at whole
        obtain rfl := ending.front_eq_nil whole quoted
        have cut := ending.append_inj ending' split
        exact .inner opening (by rw [named, List.append_nil]) cut.2
  · cases surplus with
    | nil =>
      have cut := ending'.append_inj ending split
      exact .inner opening (by rw [named, List.append_nil]) cut.2.symm
    | cons glyph surplus =>
      have begun : lead ++ (head ++ other) ≠ [] := by
        rcases opening.letter_first with ⟨letters, rfl, _⟩
        simp
      have early := shortest.least (lead ++ (head ++ other)) (glyph :: surplus)
        (by rw [named, List.append_assoc, List.append_assoc, List.append_assoc]) begun
        (List.cons_ne_nil _ _)
      rw [← closing?_append_tail ending rest (List.cons_ne_nil _ _), ← split,
        closing?_eq_none_iff] at early
      exact absurd rfl (early tail' after ending')

/-- A declaration that begins inside another one begins with an end of its name. -/
theorem overlap {head name tail front text other rest after : List Char} (opening : Head head)
    (shortest : Shortest name tail) (ending : Tail tail) (later : Declares text other)
    (whole : head ++ name ++ tail ++ rest = front ++ (text ++ after)) (begun : front ≠ [])
    (inside : front.length < (head ++ name ++ tail).length) :
    ∃ lead start, name = lead ++ 's' :: start ∧ front = head ++ lead ∧
      Overlap ('s' :: start) other rest after := by
  obtain ⟨back, held, same⟩ := exists_append_of_length_le whole.symm inside.le
  have nonempty : back ≠ [] := by
    intro empty
    rw [held, empty, List.append_nil] at inside
    exact lt_irrefl _ inside
  rcases later.letter_first with ⟨letters, rfl⟩
  obtain ⟨first, back, rfl⟩ := List.exists_cons_of_ne_nil nonempty
  obtain ⟨rfl, -⟩ := List.cons.inj same
  obtain ⟨lead, start, rfl, rfl, rfl⟩ := letter_in_name opening ending held begun
  exact ⟨lead, start, rfl, rfl, overlap_of_start shortest ending later same.symm⟩

theorem Overlap.ends_later {start other rest after : List Char}
    (overlapping : Overlap start other rest after) : ∃ surplus, rest = surplus ++ after := by
  rcases overlapping with ⟨_, _, same⟩ | @⟨_, _, more, tail, _, _, _, _, _, _, further⟩
  · exact ⟨[], same⟩
  · exact ⟨more ++ tail, further⟩

theorem Declares.append_inj {text name other later rest after : List Char}
    (declares : Declares text name) (declares' : Declares later other)
    (same : text ++ rest = later ++ after) : text = later ∧ name = other ∧ rest = after := by
  have first := read?_declares declares rest
  have second := read?_declares declares' after
  rw [← same, first, Option.some.injEq, Declaration.mk.injEq] at second
  exact second

theorem ends_later {text name other later before gap rest after : List Char}
    (declares : Declares text name) (declares' : Declares later other)
    (split : before ++ (text ++ rest) = gap ++ (later ++ after))
    (behind : before.length ≤ gap.length) : ∃ surplus, rest = surplus ++ after := by
  obtain ⟨front, rfl, whole⟩ := exists_append_of_length_le split behind
  by_cases begun : front = []
  · rw [begun, List.nil_append] at whole
    exact ⟨[], (declares.append_inj declares' whole).2.2⟩
  · by_cases inside : front.length < text.length
    · obtain @⟨head, name, tail, opening, shortest, ending⟩ := declares
      obtain ⟨_, _, _, _, overlapping⟩ :=
        overlap opening shortest ending declares' whole begun inside
      exact overlapping.ends_later
    · obtain ⟨surplus, _, disjoint⟩ := exists_append_of_length_le whole (not_lt.mp inside)
      exact ⟨surplus ++ later, by rw [disjoint, List.append_assoc]⟩

/-- A name that holds a head and another name declares that name again, wherever it is declared. -/
theorem declares_of_name {name lead head other kept more tail : List Char} (opening : Head head)
    (shortest : Shortest name tail) (ending : Tail tail) (nonempty : other ≠ [])
    (named : name = lead ++ (head ++ other)) (named' : name = kept ++ more) (silent : 's' ∉ kept) :
    ∃ between, more = between ++ (head ++ other) ∧ Declares (head ++ other ++ tail) other := by
  rcases opening.letter_first with ⟨letters, rfl, -⟩
  obtain ⟨between, rfl, copied⟩ := split_behind (named'.symm.trans named) silent
  rw [named, ← List.append_assoc] at shortest
  exact ⟨between, copied, .mk opening (shortest.of_append nonempty) ending⟩

theorem not_prefix_of_end {name lead start gap start' head : List Char} (opening : Head head)
    (named : name = lead ++ 's' :: start) (named' : name = lead ++ gap ++ 's' :: start')
    (apart : gap ≠ []) : ¬ 's' :: start <+: head := by
  intro begins
  rcases opening.letter_first with ⟨letters, rfl, absent⟩
  rw [named, List.append_assoc] at named'
  have shared : 's' :: start = gap ++ 's' :: start' := List.append_cancel_left named'
  obtain ⟨first, gap, rfl⟩ := List.exists_cons_of_ne_nil apart
  obtain ⟨-, rfl⟩ := List.cons.inj shared
  exact absent ((List.cons_prefix_cons.mp begins).2.subset (by simp))

/-- When a declaration begins inside one of the same name, and a third begins between the two, the name
of the third is declared once more behind it: the later of the two equal names holds a copy. -/
theorem declares_again {text name later middle other before gap rest behind after : List Char}
    (declares : Declares text name) (declares' : Declares middle other)
    (again : Declares later name) (first : text ++ rest = before ++ (middle ++ behind))
    (second : middle ++ behind = gap ++ (later ++ after)) (apart : before ≠ []) (apart' : gap ≠ [])
    (inside : before.length + gap.length < text.length) :
    ∃ between copy, Declares copy other ∧ behind = between ++ (copy ++ after) := by
  obtain @⟨head, name, tail, opening, shortest, ending⟩ := declares
  have third : head ++ name ++ tail ++ rest = (before ++ gap) ++ (later ++ after) := by
    rw [first, second, List.append_assoc]
  obtain ⟨lead, start, named, rfl, middling⟩ :=
    overlap opening shortest ending declares' first apart (by omega)
  obtain ⟨lead', start', named', further, lasting⟩ := overlap opening shortest ending again third
    (List.append_ne_nil_of_left_ne_nil apart _) (by rw [List.length_append]; omega)
  rw [List.append_assoc, List.append_cancel_left_eq] at further
  subst further
  rcases lasting with ⟨opening', whole, -⟩ |
    @⟨_, kept, more, tail', -, -, named'', silent, shortest', ending', surplus⟩
  · -- a name is no proper end of itself
    rcases opening'.letter_first with ⟨letters, rfl, -⟩
    have lengths := congrArg List.length (named'.trans (congrArg (lead ++ gap ++ ·) whole))
    simp only [List.length_append, List.length_cons] at lengths
    omega
  · rcases middling with @⟨head', opening', whole, rfl⟩ | ⟨opening', begins, -, -, -, -, -⟩
    · rw [whole] at named
      obtain ⟨between, copied, declares⟩ := declares_of_name opening' shortest' ending'
        declares'.name_ne_nil named named'' silent
      refine ⟨between, _, declares, ?_⟩
      rw [surplus, copied]
      simp only [List.append_assoc]
    · exact absurd begins (not_prefix_of_end opening' named named' apart')

end PipelineChart.Stage.Declaration
