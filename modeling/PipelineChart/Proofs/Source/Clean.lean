import PipelineChart.Proofs.Source.Kept
import PipelineChart.Proofs.Stage.Scan

/-!
What is left of a source without its comments. A glyph is kept only where no comment begins, and a comment begins
with a slash. So a slash that follows a kept glyph followed it before, whatever was removed between the two, and
where kept parts meet no mark of a comment comes about. Hence what is left holds no comment, removing comments again
changes nothing, and the stages of a source are those of what is left of it.
-/

namespace PipelineChart

open Text

namespace Text

variable {word text rest : List Char}

theorem after?_eq_some_iff_append : after? word text = some rest ↔ text = word ++ rest := by
  simp only [after?_eq_some_iff, chars_self, exists_eq_left]

theorem after?_eq_none_iff : after? word text = none ↔ ¬ word <+: text := by
  rw [Option.eq_none_iff_forall_ne_some]
  constructor
  · rintro refused ⟨rest, split⟩
    exact refused rest (after?_eq_some_iff_append.mpr split.symm)
  · rintro absent rest found
    exact absent ⟨rest, (after?_eq_some_iff_append.mp found).symm⟩

theorem leftmost_after?_eq_none_iff : leftmost? (after? word) text = none ↔ ¬ word <:+: text := by
  rw [leftmost?_eq_none_iff, List.infix_iff_prefix_suffix]
  constructor
  · rintro refused ⟨rest, begun, before, split⟩
    exact after?_eq_none_iff.mp (refused before rest split.symm) begun
  · rintro absent before rest split
    exact after?_eq_none_iff.mpr fun begun => absent ⟨rest, begun, before, split.symm⟩

end Text

namespace Comment

/-- No comment stands in the text: no two slashes, and no slash and star that a star and slash close. -/
structure Free (text : List Char) : Prop where
  line : ¬ "//".toList <:+: text
  block : ∀ front inside, text = front ++ ("/*".toList ++ inside) → ¬ "*/".toList <:+: inside

theorem after?_eq_none_iff {text : List Char} : after? text = none ↔
    ¬ "//".toList <+: text ∧ ∀ inside, text = "/*".toList ++ inside → ¬ "*/".toList <:+: inside := by
  cases line : Text.after? "//".toList text with
  | some rest =>
    rw [after?_of_line line]
    simp [after?_eq_some_iff_append.mp line]
  | none =>
    rw [and_iff_right (Text.after?_eq_none_iff.mp line)]
    cases block : Text.after? "/*".toList text with
    | some inside =>
      rw [after?_of_block line block, leftmost_after?_eq_none_iff, after?_eq_some_iff_append.mp block]
      simp
    | none =>
      have absent := Text.after?_eq_none_iff.mp block
      rw [after?, line, block]
      exact iff_of_true rfl fun inside split => absurd ⟨inside, split.symm⟩ absent

theorem free_iff {text : List Char} : Free text ↔ ∀ rest, rest <:+ text → after? rest = none := by
  simp only [after?_eq_none_iff]
  constructor
  · rintro free rest ⟨front, rfl⟩
    refine ⟨fun begun => free.line (begun.isInfix.trans (List.suffix_append _ _).isInfix), ?_⟩
    rintro inside rfl
    exact free.block front inside rfl
  · intro none
    refine ⟨fun within => ?_, ?_⟩
    · obtain ⟨rest, begun, last⟩ := List.infix_iff_prefix_suffix.mp within
      exact (none rest last).1 begun
    · rintro front inside rfl
      exact (none _ (List.suffix_append _ _)).2 inside rfl

theorem Free.nil : Free [] := free_iff.mpr fun rest last => by
  rw [List.suffix_nil.mp last]
  decide

theorem Free.cons {char : Char} {text : List Char} (free : Free text)
    (absent : after? (char :: text) = none) : Free (char :: text) := by
  refine free_iff.mpr fun rest last => ?_
  rcases List.suffix_cons_iff.mp last with rfl | later
  · exact absent
  · exact free_iff.mp free rest later

theorem strip_of_free {text : List Char} (free : Free text) : strip text = text := by
  have refused := free_iff.mp free
  clear free
  induction text with
  | nil => rw [strip]
  | cons char text ih =>
    rw [strip_cons_of_none (refused _ List.suffix_rfl),
      ih fun rest last => refused rest (last.trans (List.suffix_cons char text))]

theorem exists_slash {text rest : List Char} (comment : after? text = some rest) :
    ∃ behind, text = '/' :: behind := by
  cases line : Text.after? "//".toList text with
  | some line' => exact ⟨_, after?_eq_some_iff_append.mp line⟩
  | none =>
    cases block : Text.after? "/*".toList text with
    | some inside => exact ⟨_, after?_eq_some_iff_append.mp block⟩
    | none =>
      rw [after?, line, block] at comment
      cases comment

theorem exists_slash_of_strip {text rest : List Char} (kept : strip text = '/' :: rest) :
    ∃ behind, text = '/' :: behind := by
  cases text with
  | nil =>
    rw [strip] at kept
    cases kept
  | cons char text =>
    cases comment : after? (char :: text) with
    | some _ => exact exists_slash comment
    | none =>
      rw [strip_cons_of_none comment] at kept
      obtain ⟨rfl, _⟩ := List.cons.inj kept
      exact ⟨text, rfl⟩

/-- Where kept parts meet no star and slash comes about. -/
theorem infix_of_infix_strip {text : List Char} (within : "*/".toList <:+: strip text) :
    "*/".toList <:+: text := by
  fun_induction strip text with
  | case1 => exact within
  | case2 char text rest comment ih =>
    obtain ⟨front, split, _⟩ := after?_kept comment
    rw [split]
    exact (ih within).trans (List.suffix_append _ _).isInfix
  | case3 char text absent ih =>
    rcases List.infix_cons_iff.mp within with ⟨behind, begun⟩ | later
    · obtain ⟨rfl, slash⟩ := List.cons.inj begun
      obtain ⟨rest, rfl⟩ := exists_slash_of_strip slash.symm
      exact List.IsPrefix.isInfix ⟨rest, rfl⟩
    · exact (ih later).trans (List.suffix_cons _ _).isInfix

/-- A comment at a glyph that was kept would have been one before. -/
theorem after?_cons_strip {char : Char} {text : List Char} (absent : after? (char :: text) = none) :
    after? (char :: strip text) = none := by
  rw [after?_eq_none_iff] at absent ⊢
  refine ⟨?_, ?_⟩
  · rintro ⟨behind, begun⟩
    obtain ⟨rfl, slash⟩ := List.cons.inj begun
    obtain ⟨rest, rfl⟩ := exists_slash_of_strip slash.symm
    exact absent.1 ⟨rest, rfl⟩
  · intro inside begun closed
    obtain ⟨rfl, star⟩ := List.cons.inj begun
    cases text with
    | nil =>
      rw [strip] at star
      cases star
    | cons next text =>
      cases comment : after? (next :: text) with
      | some rest =>
        obtain ⟨behind, slash⟩ := exists_slash comment
        exact absent.1 ⟨behind, by rw [slash]; rfl⟩
      | none =>
        rw [strip_cons_of_none comment] at star
        obtain ⟨rfl, rfl⟩ := List.cons.inj star
        exact absent.2 text rfl (infix_of_infix_strip closed)

theorem free_strip (text : List Char) : Free (strip text) := by
  fun_induction strip text with
  | case1 => exact .nil
  | case2 char text rest comment ih => exact ih
  | case3 char text absent ih => exact ih.cons (after?_cons_strip absent)

/-- The text of a source that is searched for a pipeline. -/
def cleaned (source : String) : String := string (strip (Placed.locate 0 source.toList))

theorem cleaned_toList (source : String) : (cleaned source).toList = strip source.toList := by
  rw [cleaned, string, String.toList_ofList, ← strip_chars, Placed.chars_locate]

end Comment

namespace Pipeline

/-- No comment is left where comments were removed, so removing them again changes nothing, and the stages of a source
are those of what is left. -/
theorem stages_cleaned (source : String) :
    Comment.Free (Comment.cleaned source).toList ∧
      Comment.cleaned (Comment.cleaned source) = Comment.cleaned source ∧
      stages (Comment.cleaned source) = stages source := by
  have free := Comment.free_strip source.toList
  have same := Comment.strip_of_free free
  refine ⟨?_, ?_, ?_⟩
  · rw [Comment.cleaned_toList]
    exact free
  · apply String.toList_injective
    rw [Comment.cleaned_toList, Comment.cleaned_toList, same]
  · have outline (text : String) : stages text =
        (Outline.ofPipeline defaultDepth (Comment.strip text.toList)).stages :=
      congrArg Outline.stages (Outline.ofSource_chars defaultDepth text)
    rw [outline, outline, Comment.cleaned_toList, same]

end Pipeline

end PipelineChart
