import PipelineChart.Proofs.Stage.Declaration

/-!
Where declarations stand in a text. A declaration that is read off a text is a front of it, its name
stands between its head and its tail, and it ends with a brace, behind which its inside begins.
-/

namespace PipelineChart.Stage.Declaration

open Text

variable {α : Type} [Glyph α] {text : List α} {declaration : Declaration α}

theorem exists_closing {rest : List α} (found : closing? text = some rest) :
    ∃ front brace, Glyph.char brace = '{' ∧ text = front ++ brace :: rest := by
  simp only [closing?, Option.bind_eq_some_iff, afterQuote?_eq_some_iff,
    after?_dropBlanks_eq_some_iff (show isBlank ')' = false from rfl),
    after?_dropBlanks_eq_some_iff (show isBlank '{' = false from rfl)] at found
  rcases found with ⟨_, ⟨quote, _, rfl⟩, _, ⟨gap, mark, _, _, rfl⟩, space, brace, _, opened, rfl⟩
  exact ⟨quote :: (gap ++ mark :: space), brace, opened, by simp⟩

theorem exists_name {name inside : List α} (found : name? text = some (name, inside)) :
    ∃ rest, text = name ++ rest ∧ closing? rest = some inside := by
  induction text generalizing name with
  | nil => cases found
  | cons glyph text ih =>
    unfold name? at found
    split_ifs at found with newline
    cases closed : closing? text with
    | some after =>
      rw [closed] at found
      cases found
      exact ⟨text, rfl, closed⟩
    | none =>
      rw [closed] at found
      rcases Option.map_eq_some_iff.mp found with ⟨⟨others, last⟩, read, same⟩
      cases same
      rcases ih read with ⟨rest, rfl, ending⟩
      exact ⟨rest, rfl, ending⟩

theorem exists_front (found : read? text = some declaration) :
    ∃ front brace, Glyph.char brace = '{' ∧ declaration.text = front ++ [brace] ∧
      text = declaration.text ++ declaration.inside := by
  simp only [read?, Option.bind_eq_some_iff, Option.map_eq_some_iff, Prod.exists,
    @after?_eq_some_iff _ _ "stage".toList,
    after?_dropBlanks_eq_some_iff (show isBlank '(' = false from rfl),
    afterQuote?_dropBlanks_eq_some_iff] at found
  rcases found with ⟨_, ⟨word, _, rfl⟩, _, ⟨gap, mark, _, _, rfl⟩, _, ⟨space, quote, _, _, rfl⟩,
    name, inside, named, rfl⟩
  obtain ⟨rest, rfl, closed⟩ := exists_name named
  obtain ⟨tail, brace, opened, rfl⟩ := exists_closing closed
  have whole : word ++ (gap ++ mark :: (space ++ quote :: (name ++ (tail ++ brace :: inside)))) =
      (word ++ gap ++ mark :: space ++ quote :: name ++ tail ++ [brace]) ++ inside := by simp
  rw [whole, upTo_append]
  exact ⟨_, brace, opened, rfl, rfl⟩

theorem Declares.ne_nil {whole name : List Char} (declares : Declares whole name) : whole ≠ [] := by
  obtain ⟨_, shortest, _⟩ := declares
  exact List.append_ne_nil_of_left_ne_nil (List.append_ne_nil_of_right_ne_nil _ shortest.nonempty) _

theorem declares_of_read? (found : read? text = some declaration) :
    Declares (Text.chars declaration.text) (Text.chars declaration.name) := by
  have plain : read? (Text.chars text) = some declaration.chars := by
    rw [read?_chars, found]
    rfl
  exact (read?_eq_some_iff.mp plain).1

theorem read?_append (found : read? text = some declaration) (more : List α) :
    ∃ longer, read? (text ++ more) = some longer ∧ longer.text = declaration.text ∧
      longer.inside = declaration.inside ++ more ∧ string longer.name = string declaration.name := by
  obtain ⟨_, _, _, _, whole⟩ := exists_front found
  have plain := read?_declares (declares_of_read? found) (Text.chars (declaration.inside ++ more))
  have joined : Text.chars declaration.text ++ Text.chars (declaration.inside ++ more) =
      Text.chars (text ++ more) := by
    rw [whole, List.append_assoc]
    exact List.map_append.symm
  rw [joined, read?_chars] at plain
  obtain ⟨longer, reading, same⟩ := Option.map_eq_some_iff.mp plain
  obtain ⟨texts, names, _⟩ := (Declaration.mk.injEq ..).mp same
  obtain ⟨_, _, _, _, whole'⟩ := exists_front reading
  have lengths : longer.text.length = declaration.text.length := by
    rw [← chars_length, texts, chars_length]
  rw [whole, List.append_assoc] at whole'
  obtain ⟨front, rest⟩ := List.append_inj whole' lengths.symm
  exact ⟨longer, reading, front.symm, rest.symm, congrArg String.ofList names⟩

variable {region : List α}

theorem exists_place (declared : leftmost? read? region = some declaration) :
    Declares (Text.chars declaration.text) (Text.chars declaration.name) ∧
      ∃ before, region = before ++ (declaration.text ++ declaration.inside) := by
  obtain ⟨before, rest, split, reading⟩ := leftmost?_suffix declared
  obtain ⟨_, _, _, _, whole⟩ := exists_front reading
  exact ⟨declares_of_read? reading, before, split.trans (congrArg (before ++ ·) whole)⟩

theorem exists_brace (declared : leftmost? read? region = some declaration) :
    ∃ brace, Glyph.char brace = '{' ∧ brace :: declaration.inside <:+ region := by
  obtain ⟨before, rest, rfl, reading⟩ := leftmost?_suffix declared
  obtain ⟨front, brace, opened, last, whole⟩ := exists_front reading
  refine ⟨brace, opened, before ++ front, ?_⟩
  rw [whole, last]
  simp only [List.append_assoc, List.singleton_append]

theorem inside_suffix (declared : leftmost? read? region = some declaration) :
    declaration.inside <:+ region := by
  obtain ⟨brace, _, within⟩ := exists_brace declared
  exact (List.suffix_cons brace _).trans within

end PipelineChart.Stage.Declaration
