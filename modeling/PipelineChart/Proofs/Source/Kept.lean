import PipelineChart.Proofs.Text.Reading

/-!
What is kept of a text without its comments. A comment is read alike wherever the text is cut behind it,
and none begins in a text that was cut if none began there before. So a part of what is kept is all that
is kept of a slice of the text, from its first glyph to its last.
-/

namespace PipelineChart

open Text

variable {α : Type} [Glyph α]

namespace Text

theorem after?_eq_none_append {word : List Char} {front rest : List α}
    (long : word.length ≤ front.length) (absent : after? word (front ++ rest) = none)
    (other : List α) : after? word (front ++ other) = none := by
  rw [Option.eq_none_iff_forall_ne_some]
  intro behind found
  obtain ⟨lead, spelled, split⟩ := after?_eq_some_iff.mp found
  have short : lead.length ≤ front.length := by
    rw [← chars_length lead, spelled]
    exact long
  obtain ⟨surplus, rfl, _⟩ := exists_append_of_length_le split.symm short
  rw [List.append_assoc, after?_eq_some_iff.mpr ⟨lead, spelled, rfl⟩] at absent
  cases absent

theorem leftmost_after?_append {word : List Char} {text rest : List α}
    (found : leftmost? (after? word) text = some rest) :
    ∃ front, word.length ≤ front.length ∧ text = front ++ rest ∧
      ∀ other, leftmost? (after? word) (front ++ other) = some other := by
  have here {start behind : List α} (reading : after? word start = some behind) :
      ∃ front, word.length ≤ front.length ∧ start = front ++ behind ∧
        ∀ other, leftmost? (after? word) (front ++ other) = some other := by
    obtain ⟨front, spelled, split⟩ := after?_eq_some_iff.mp reading
    refine ⟨front, ?_, split, fun other => ?_⟩
    · rw [← spelled, chars_length]
    · exact leftmost?_of_some (after?_eq_some_iff.mpr ⟨front, spelled, rfl⟩)
  induction text with
  | nil => exact here found
  | cons glyph text ih =>
    cases reading : after? word (glyph :: text) with
    | some first =>
      rw [leftmost?_of_some reading] at found
      cases found
      exact here reading
    | none =>
      rw [leftmost?_cons_of_none reading] at found
      obtain ⟨front, long, rfl, again⟩ := ih found
      refine ⟨glyph :: front, Nat.le_succ_of_le long, rfl, fun other => ?_⟩
      have refused : after? word (glyph :: front ++ other) = none :=
        after?_eq_none_append (Nat.le_succ_of_le long) reading other
      exact (leftmost?_cons_of_none refused).trans (again other)

end Text

namespace Comment

theorem strip_of_comment {text rest : List α} (comment : after? text = some rest) :
    strip text = strip rest := by
  cases text with
  | nil => cases comment
  | cons glyph text =>
    rw [strip]
    split
    · rename_i found
      rw [comment] at found
      cases found
      rfl
    · rename_i absent
      rw [comment] at absent
      cases absent

theorem strip_cons_of_none {glyph : α} {text : List α} (absent : after? (glyph :: text) = none) :
    strip (glyph :: text) = glyph :: strip text := by
  rw [strip]
  split
  · rename_i found
    rw [absent] at found
    cases found
  · rfl

theorem after?_of_line {text line : List α} (opened : Text.after? "//".toList text = some line) :
    after? text = some (lineRest line) := by
  rw [after?, opened]

theorem after?_of_block {text inside : List α} (other : Text.after? "//".toList text = none)
    (opened : Text.after? "/*".toList text = some inside) :
    after? text = leftmost? (Text.after? "*/".toList) inside := by
  rw [after?, other, opened]
  rfl

theorem after?_cons_of_ne {glyph : α} (other : Glyph.char glyph ≠ '/') (text : List α) :
    after? (glyph :: text) = none := by
  simp [after?, Text.after?, other]

theorem after?_cons_cons_of_ne {glyph next : α} (slash : Glyph.char next ≠ '/') (star : Glyph.char next ≠ '*')
    (text : List α) : after? (glyph :: next :: text) = none := by
  simp [after?, Text.after?, slash, star]

theorem after?_kept {text rest : List α} (comment : after? text = some rest) :
    ∃ front, text = front ++ rest ∧ ∀ kept more, rest = kept ++ more → kept ≠ [] →
      after? (front ++ kept) = some kept := by
  cases opened : Text.after? "//".toList text with
  | some line =>
    rw [after?_of_line opened] at comment
    obtain rfl := Option.some.inj comment
    obtain ⟨slashes, spelled, rfl⟩ := after?_eq_some_iff.mp opened
    refine ⟨slashes ++ line.takeWhile fun glyph => !isNewline glyph, ?_, ?_⟩
    · rw [List.append_assoc, lineRest, List.takeWhile_append_dropWhile]
    · intro kept more split nonempty
      obtain ⟨first, others, rfl⟩ := List.exists_cons_of_ne_nil nonempty
      -- what follows a line comment begins with the end of the line, also where the text is cut
      have stops := List.head?_dropWhile_not (fun glyph => !isNewline glyph) line
      rw [← lineRest, split] at stops
      have inline : ∀ glyph ∈ line.takeWhile fun glyph => !isNewline glyph, (!isNewline glyph) = true := by
        intro glyph member
        have kept := List.mem_takeWhile_imp member
        exact kept
      have opened' (behind : List α) : Text.after? "//".toList (slashes ++ behind) = some behind :=
        after?_eq_some_iff.mpr ⟨slashes, spelled, rfl⟩
      rw [List.append_assoc, after?_of_line (opened' _), lineRest,
        List.dropWhile_append_of_pos inline, List.dropWhile_cons_of_neg (by simpa using stops)]
  | none =>
    cases opened' : Text.after? "/*".toList text with
    | none =>
      rw [after?, opened, opened'] at comment
      cases comment
    | some inside =>
      rw [after?_of_block opened opened'] at comment
      obtain ⟨marks, spelled, rfl⟩ := after?_eq_some_iff.mp opened'
      obtain ⟨lead, _, rfl, again⟩ := leftmost_after?_append comment
      refine ⟨marks ++ lead, (List.append_assoc _ _ _).symm, ?_⟩
      intro kept more _ _
      have two : "//".toList.length ≤ marks.length := by
        rw [← chars_length marks, spelled]
        decide
      have other := after?_eq_none_append two opened (lead ++ kept)
      rw [List.append_assoc, after?_of_block other (after?_eq_some_iff.mpr ⟨marks, spelled, rfl⟩)]
      exact again kept

theorem after?_eq_none_of_append {text more : List α} (absent : after? (text ++ more) = none) :
    after? text = none := by
  rw [Option.eq_none_iff_forall_ne_some]
  intro rest comment
  have longer {word : List Char} {behind : List α} (opened : Text.after? word text = some behind) :
      Text.after? word (text ++ more) = some (behind ++ more) := by
    obtain ⟨front, spelled, rfl⟩ := after?_eq_some_iff.mp opened
    exact after?_eq_some_iff.mpr ⟨front, spelled, List.append_assoc _ _ _⟩
  cases other : Text.after? "//".toList (text ++ more) with
  | some line =>
    rw [after?_of_line other] at absent
    cases absent
  | none =>
    cases opened : Text.after? "//".toList text with
    | some line =>
      rw [longer opened] at other
      cases other
    | none =>
      cases opened' : Text.after? "/*".toList text with
      | none =>
        rw [after?, opened, opened'] at comment
        cases comment
      | some inside =>
        rw [after?_of_block opened opened'] at comment
        obtain ⟨front, _, rfl, again⟩ := leftmost_after?_append comment
        rw [after?_of_block other (longer opened'), List.append_assoc, again] at absent
        cases absent

theorem exists_end {text front rest : List α} {last : α} (kept : strip text = front ++ last :: rest) :
    ∃ before behind, text = before ++ last :: behind ∧ strip (before ++ [last]) = front ++ [last] := by
  fun_induction strip text generalizing front with
  | case1 =>
    have lengths := congrArg List.length kept
    simp at lengths
  | case2 glyph text after comment ih =>
    obtain ⟨before, behind, rfl, same⟩ := ih kept
    obtain ⟨lead, split, again⟩ := after?_kept comment
    have cut := again (before ++ [last]) behind (by simp) (by simp)
    refine ⟨lead ++ before, behind, ?_, ?_⟩
    · rw [split, List.append_assoc]
    · rw [List.append_assoc, strip_of_comment cut, same]
  | case3 glyph text comment ih =>
    cases front with
    | nil =>
      obtain ⟨rfl, _⟩ := List.cons.inj kept
      have whole : after? ([glyph] ++ text) = none := comment
      refine ⟨[], text, rfl, ?_⟩
      rw [List.nil_append, strip_cons_of_none (after?_eq_none_of_append whole), strip]
    | cons first front =>
      obtain ⟨rfl, kept'⟩ := List.cons.inj kept
      obtain ⟨before, behind, rfl, same⟩ := ih kept'
      have cut : glyph :: (before ++ last :: behind) = glyph :: (before ++ [last]) ++ behind := by simp
      rw [cut] at comment
      refine ⟨glyph :: before, behind, rfl, ?_⟩
      rw [List.cons_append, strip_cons_of_none (after?_eq_none_of_append comment), same]
      rfl

theorem exists_begin {text front rest : List α} {first : α}
    (kept : strip text = front ++ first :: rest) :
    ∃ before behind, text = before ++ first :: behind ∧ strip (first :: behind) = first :: rest := by
  fun_induction strip text generalizing front with
  | case1 =>
    have lengths := congrArg List.length kept
    simp at lengths
  | case2 glyph text after comment ih =>
    obtain ⟨before, behind, rfl, same⟩ := ih kept
    obtain ⟨lead, split, _⟩ := after?_kept comment
    exact ⟨lead ++ before, behind, by rw [split, List.append_assoc], same⟩
  | case3 glyph text comment ih =>
    cases front with
    | nil =>
      obtain ⟨rfl, rest'⟩ := List.cons.inj kept
      exact ⟨[], text, rfl, by rw [strip_cons_of_none comment, rest']⟩
    | cons other front =>
      obtain ⟨rfl, kept'⟩ := List.cons.inj kept
      obtain ⟨before, behind, rfl, same⟩ := ih kept'
      exact ⟨glyph :: before, behind, rfl, same⟩

/-- A part of what is kept is what is kept of a slice with the same ends. -/
theorem exists_slice {text front part rest : List α} (kept : strip text = front ++ (part ++ rest))
    (nonempty : part ≠ []) :
    ∃ before slice behind, text = before ++ (slice ++ behind) ∧ slice.head? = part.head? ∧
      slice.getLast? = part.getLast? ∧ strip slice = part := by
  obtain ⟨first, others, rfl⟩ := List.exists_cons_of_ne_nil nonempty
  obtain ⟨before, behind, rfl, begun⟩ := exists_begin kept
  have parted := List.dropLast_append_getLast nonempty
  have begun' : strip (first :: behind) =
      (first :: others).dropLast ++ (first :: others).getLast nonempty :: rest := by
    calc
      _ = first :: others ++ rest := begun
      _ = (first :: others).dropLast ++ [(first :: others).getLast nonempty] ++ rest := by rw [parted]
      _ = _ := List.append_assoc _ _ _
  obtain ⟨within, after, split, ended⟩ := exists_end begun'
  rw [parted] at ended
  refine ⟨before, within ++ [(first :: others).getLast nonempty], after, ?_, ?_, ?_, ended⟩
  · rw [split]
    simp
  · cases within with
    | nil => exact congrArg some (List.cons.inj split).1.symm
    | cons glyph within => exact congrArg some (List.cons.inj split).1.symm
  · rw [List.getLast?_append_of_ne_nil _ (List.cons_ne_nil _ _), List.getLast?_eq_some_getLast nonempty]
    rfl

theorem strip_sublist (text : List α) : (strip text).Sublist text := by
  fun_induction strip text with
  | case1 => exact List.Sublist.slnil
  | case2 glyph text rest comment ih =>
    obtain ⟨lead, split, _⟩ := after?_kept comment
    rw [split]
    exact ih.trans (List.sublist_append_right lead rest)
  | case3 glyph text comment ih => exact ih.cons_cons glyph

end Comment

end PipelineChart
