import PipelineChart.Proofs.Pipeline.Terminated
import PipelineChart.Proofs.Source.Clean
import PipelineChart.Proofs.Source.Cut

/-!
Sources that are continued. Where no block comment is left open, what is written behind a source can make a comment
of a slash at its end, and leaves all else that was kept. A closed pipeline ends with a brace, so it stands in front of
such a slash. It is found again with every glyph at its place, and what is read off it is the same.
-/

namespace PipelineChart

open Text

variable {α : Type} [Glyph α]

namespace Comment

theorem lineRest_append {line : List α} (ended : lineRest line ≠ []) (more : List α) :
    lineRest (line ++ more) = lineRest line ++ more := by
  unfold lineRest at ended ⊢
  rw [List.dropWhile_append, if_neg]
  rw [List.isEmpty_iff]
  exact ended

theorem after?_append {text rest : List α} (comment : after? text = some rest) (followed : rest ≠ [])
    (more : List α) : after? (text ++ more) = some (rest ++ more) := by
  cases opened : Text.after? "//".toList text with
  | some line =>
    rw [after?_of_line opened] at comment
    obtain rfl := Option.some.inj comment
    obtain ⟨slashes, spelled, rfl⟩ := after?_eq_some_iff.mp opened
    have opened' : Text.after? "//".toList (slashes ++ line ++ more) = some (line ++ more) :=
      after?_eq_some_iff.mpr ⟨slashes, spelled, List.append_assoc _ _ _⟩
    rw [after?_of_line opened', lineRest_append followed]
  | none =>
    cases opened' : Text.after? "/*".toList text with
    | none =>
      rw [after?, opened, opened'] at comment
      cases comment
    | some inside =>
      rw [after?_of_block opened opened'] at comment
      obtain ⟨marks, spelled, rfl⟩ := after?_eq_some_iff.mp opened'
      obtain ⟨lead, _, rfl, again⟩ := leftmost_after?_append comment
      have two : "//".toList.length ≤ marks.length := by
        rw [← chars_length marks, spelled]
        decide
      have other := after?_eq_none_append two opened (lead ++ (rest ++ more))
      have whole : marks ++ (lead ++ rest) ++ more = marks ++ (lead ++ (rest ++ more)) := by
        simp only [List.append_assoc]
      rw [whole, after?_of_block other (after?_eq_some_iff.mpr ⟨marks, spelled, rfl⟩)]
      exact again (rest ++ more)

/-- Where no comment begins and no block comment is opened, more that is written behind begins none. -/
theorem after?_eq_none_of_unopened {glyph next : α} {text : List α} (absent : after? (glyph :: next :: text) = none)
    (unopened : ¬ (Glyph.char glyph = '/' ∧ Glyph.char next = '*')) (other : List α) :
    after? (glyph :: next :: other) = none := by
  by_cases slash : Glyph.char glyph = '/'
  · have star : Glyph.char next ≠ '*' := fun same => unopened ⟨slash, same⟩
    have line : Glyph.char next ≠ '/' := by
      intro same
      simp [after?, Text.after?, slash, same] at absent
    exact after?_cons_cons_of_ne line star other
  · exact after?_cons_of_ne slash (next :: other)

/-- Of what is kept of a text only slashes at the end can be lost when more is written behind. -/
theorem exists_strip_append {text : List α} (closed : ¬ "/*".toList <:+: chars (strip text)) (more : List α) :
    ∃ front slashes behind, strip text = front ++ slashes ∧ (∀ glyph ∈ slashes, Glyph.char glyph = '/') ∧
      strip (text ++ more) = front ++ behind := by
  fun_induction strip text with
  | case1 => exact ⟨[], [], strip more, rfl, by simp, rfl⟩
  | case2 glyph text rest comment ih =>
    by_cases last : rest = []
    · subst last
      exact ⟨[], [], strip (glyph :: text ++ more), by rw [strip, List.nil_append], by simp, rfl⟩
    · rw [strip_of_comment (after?_append comment last more)]
      exact ih closed
  | case3 glyph text absent ih =>
    cases text with
    | nil =>
      by_cases slash : Glyph.char glyph = '/'
      · exact ⟨[], [glyph], strip ([glyph] ++ more), by rw [strip, List.nil_append], by simpa using slash, rfl⟩
      · have kept := strip_cons_of_none (after?_cons_of_ne slash more)
        exact ⟨[glyph], [], strip more, by rw [strip, List.append_nil], by simp, kept⟩
    | cons next text =>
      have unopened : ¬ (Glyph.char glyph = '/' ∧ Glyph.char next = '*') := by
        rintro ⟨slash, star⟩
        have other : Glyph.char next ≠ '/' := by
          rw [star]
          decide
        apply closed
        rw [strip_cons_of_none (after?_cons_of_ne other text), chars_cons, chars_cons, slash, star]
        exact List.IsPrefix.isInfix ⟨chars (strip text), rfl⟩
      have absent' := after?_eq_none_of_unopened absent unopened (text ++ more)
      obtain ⟨front, slashes, behind, parts, spelled, kept⟩ := ih fun within => closed (List.infix_cons within)
      refine ⟨glyph :: front, slashes, behind, by rw [parts, List.cons_append], spelled, ?_⟩
      have whole : strip (glyph :: (next :: text ++ more)) = glyph :: strip (next :: text ++ more) :=
        strip_cons_of_none absent'
      rw [List.cons_append, whole, kept, List.cons_append]

end Comment

namespace Block

variable {keyword : List Char} {text before : List α} {opening : Opening α}

theorem Opens.append (opens : Opens keyword text before opening) (more : List α) :
    Opens keyword (text ++ more) before ⟨opening.keyword, opening.inside ++ more⟩ := by
  obtain ⟨gap, brace, spelled, blank, opened, rfl⟩ := opens
  exact ⟨gap, brace, spelled, blank, opened, by simp only [List.append_assoc, List.cons_append]⟩

theorem Opens.of_append {rest more : List α} (opens : Opens keyword (before ++ rest ++ more) before opening)
    (visible : '{' ∉ keyword) (braced : '{' ∈ Text.chars rest) :
    ∃ other, Opens keyword (before ++ rest) before other := by
  obtain ⟨gap, brace, spelled, blank, opened, split⟩ := opens
  have unbraced : '{' ∉ Text.chars (opening.keyword ++ gap) := by
    rw [Text.chars, List.map_append, List.mem_append, not_or]
    refine ⟨by rw [← Text.chars, spelled]; exact visible, fun member => ?_⟩
    obtain ⟨glyph, held, same⟩ := List.mem_map.mp member
    have visible : isBlank glyph = false := by
      rw [isBlank, same]
      rfl
    rw [blank glyph held] at visible
    cases visible
  rw [List.append_assoc] at split
  have parts : opening.keyword ++ gap ++ brace :: opening.inside = rest ++ more := by
    rw [List.append_assoc]
    exact (List.append_cancel_left split).symm
  rcases List.append_eq_append_iff.mp parts with ⟨lead, whole, ends⟩ | ⟨lead, whole, _⟩
  · cases lead with
    | nil =>
      rw [whole, List.append_nil] at braced
      exact absurd braced unbraced
    | cons first lead =>
      obtain ⟨rfl, _⟩ := List.cons.inj ends
      exact ⟨⟨opening.keyword, lead⟩, gap, brace, spelled, blank, opened, by rw [whole, List.append_assoc]⟩
  · refine absurd ?_ unbraced
    rw [whole, Text.chars, List.map_append]
    exact List.mem_append_left _ braced

theorem exists_locate_of_front {front slashes : List α} {block : Block α} (visible : '{' ∉ keyword)
    (located : locate keyword (front ++ slashes) = .ok block)
    (unclosing : ∀ glyph ∈ slashes, Glyph.char glyph ≠ '}') (behind : List α) :
    ∃ rest, locate keyword (front ++ behind) = .ok ⟨block.keyword, block.body, rest⟩ := by
  obtain ⟨before, inside, interior, ⟨opens, least⟩, closed, body⟩ := exists_opening_of_locate located
  obtain ⟨gap, brace, spelled, blank, opened, split⟩ := opens
  obtain ⟨closing, closes, rfl⟩ := close?_split closed
  have whole : front ++ slashes =
      before ++ (block.keyword ++ (gap ++ brace :: interior)) ++ closing :: block.rest := by
    rw [split]
    simp only [List.append_assoc, List.cons_append]
  obtain ⟨start, rfl, _⟩ := split_before whole fun member => unclosing closing member closes
  have first : OpensFirst keyword (before ++ (block.keyword ++ (gap ++ brace :: interior)) ++ closing :: start ++ behind)
      before ⟨block.keyword, interior ++ closing :: (start ++ behind)⟩ := by
    refine ⟨⟨gap, brace, spelled, blank, opened, by simp only [List.append_assoc, List.cons_append]⟩, ?_⟩
    intro lead other opens'
    by_contra earlier
    obtain ⟨after, begun, _⟩ := opens_iff.mp opens'
    simp only [List.append_assoc] at begun
    obtain ⟨between, rfl, _⟩ := exists_append_of_length_le begun.symm (by omega)
    have cut : lead ++ between ++ (block.keyword ++ (gap ++ brace :: interior)) ++ closing :: start =
        lead ++ (between ++ (block.keyword ++ (gap ++ brace :: interior)) ++ closing :: start) := by
      simp only [List.append_assoc]
    rw [cut] at opens' least
    obtain ⟨other', opens''⟩ := opens'.of_append visible (by simp [Text.chars, opened])
    exact earlier (least lead _ (opens''.append slashes))
  have held : Closed (interior ++ closing :: (start ++ behind)) interior :=
    ⟨level_of_closed closed, closing, _, closes, rfl⟩
  obtain ⟨rest, closed'⟩ := held.exists_close?
  refine ⟨rest, ?_⟩
  rw [first.locate_of_closed closed', body]

end Block

theorem Outline.ofSource_append {source : String} {block : Block Placed}
    (located : Block.locate "pipeline".toList (Comment.strip (Placed.locate 0 source.toList)) = .ok block)
    (closed : ¬ "/*".toList <:+: (Comment.cleaned source).toList) (limit : Nat) (more : String) :
    ofSource limit (source ++ more) = ofSource limit source := by
  have plain : ¬ "/*".toList <:+: Text.chars (Comment.strip (Placed.locate 0 source.toList)) := by
    rw [← Comment.strip_chars, Placed.chars_locate, ← Comment.cleaned_toList]
    exact closed
  obtain ⟨front, slashes, behind, parts, spelled, kept⟩ := Comment.exists_strip_append plain
    (Placed.locate (0 + String.utf8Len source.toList) more.toList)
  rw [← Placed.locate_append, ← String.toList_append] at kept
  rw [parts] at located
  have unclosing : ∀ glyph ∈ slashes, Glyph.char glyph ≠ '}' := by
    intro glyph member
    rw [spelled glyph member]
    decide
  obtain ⟨rest, located'⟩ := Block.exists_locate_of_front (by decide) located unclosing behind
  rw [← kept] at located'
  rw [← parts] at located
  rw [ofSource_of_block located, ofSource_of_block located']

namespace Pipeline

theorem exists_block_of_codes {options : Options} {source : String}
    (found : ∀ diagnostic ∈ reported (parse options source),
      diagnostic.code ≠ some .missingPipeline ∧ diagnostic.code ≠ some .unterminatedPipeline) :
    ∃ block, Block.locate "pipeline".toList (Comment.strip (Placed.locate 0 source.toList)) = .ok block := by
  have others : ∀ code ∈ (Outline.ofSource options.maxDepth source).problems.map fun problem =>
      problem.diagnostic.code, code ≠ some .missingPipeline ∧ code ≠ some .unterminatedPipeline := by
    rw [← codes_reported]
    exact List.forall_mem_map.mpr found
  cases located : Block.locate "pipeline".toList (Comment.strip (Placed.locate 0 source.toList)) with
  | ok block => exact ⟨block, rfl⟩
  | error fault =>
    cases fault with
    | missing =>
      rw [Outline.ofSource_of_missing located] at others
      exact absurd rfl (others _ List.mem_cons_self).1
    | unterminated keyword =>
      rw [Outline.ofSource_of_unterminated located] at others
      exact absurd rfl (others _ List.mem_cons_self).2

/-- Nothing that is written behind a source changes its stages or what is reported of it, if the pipeline of the
source is closed and no block comment is left open. -/
theorem parse_continued {options : Options} {source : String}
    (found : ∀ diagnostic ∈ reported (parse ⟨options.maxDepth, false⟩ source),
      diagnostic.code ≠ some .missingPipeline ∧ diagnostic.code ≠ some .unterminatedPipeline)
    (closed : ¬ "/*".toList <:+: (Comment.cleaned source).toList) (more : String) :
    parse options (source ++ more) = parse options source := by
  obtain ⟨block, located⟩ := exists_block_of_codes found
  rw [parse, parse, Outline.ofSource_append located closed]

/-- A slash at the end of the source is made a comment of, which hides a brace and another pipeline. -/
theorem parse_continued_slash :
    let source := "pipeline \x7b stage('A') /* é */ \x7b \x7d \x7d // end\n/"
    let more := "* \x7b */ pipeline \x7b stage('B') \x7b"
    let warning : Diagnostic := ⟨.warning, some .missingSteps, "stage `A` has no steps block",
      [⟨⟨11, 32, by decide⟩, "stage declared here", true⟩], none⟩
    parse ⟨64, false⟩ source = .ok ⟨[.leaf "A" []], [warning]⟩ ∧
      ¬ "/*".toList <:+: (Comment.cleaned source).toList ∧
      parse ⟨64, false⟩ (source ++ more) = .ok ⟨[.leaf "A" []], [warning]⟩ := by
  intro source more warning
  have told : parse ⟨64, false⟩ source = .ok ⟨[.leaf "A" []], [warning]⟩ := by decide +kernel
  have closed : ¬ "/*".toList <:+: (Comment.cleaned source).toList := by decide +kernel
  have found : ∀ diagnostic ∈ reported (parse ⟨64, false⟩ source),
      diagnostic.code ≠ some .missingPipeline ∧ diagnostic.code ≠ some .unterminatedPipeline := by
    rw [told]
    decide
  exact ⟨told, closed, (parse_continued found closed more).trans told⟩

end Pipeline

end PipelineChart
