import PipelineChart.Proofs.Block.Offsets
import PipelineChart.Proofs.Source.Cut
import PipelineChart.Proofs.Text.Lines

/-!
What is extracted as the block of a keyword, told by the numbers of braces. From the brace of the leftmost
opening on, the block is closed by the first brace that makes as many closed as opened, and it is never closed
if every front opens more than it closes. The numbers move by one at each brace, so they are equal at a closing
brace before fewer are opened than closed; the interior of a block is therefore level. The search by byte offsets,
with each of its slices and differences checked, ends on every text and has the same answer.
-/

namespace PipelineChart

namespace Text

/-- `body` is what is left of a text without the blanks at both its ends. -/
structure Trimmed (text body : List Char) : Prop where
  parts : ∃ before behind, Blanks before ∧ Blanks behind ∧ text = before ++ (body ++ behind)
  begins : ∀ glyph ∈ body.head?, isBlank glyph = false
  ends : ∀ glyph ∈ body.getLast?, isBlank glyph = false

theorem trimmed_trim (text : List Char) : Trimmed text (trim text) := by
  obtain ⟨before, behind, blank, blank', split⟩ := exists_trim text
  refine ⟨⟨before, behind, blank, blank', split⟩, ?_, ?_⟩
  · intro glyph begun
    obtain ⟨gap, _, whole⟩ := exists_dropBlanks (dropBlanks text).reverse
    have front := congrArg List.reverse whole
    rw [List.reverse_reverse, List.reverse_append] at front
    apply head?_dropBlanks text
    rw [Option.mem_def, front, List.head?_append, show (dropBlanks (dropBlanks text).reverse).reverse.head? =
      some glyph from begun]
    rfl
  · intro glyph ended
    apply head?_dropBlanks (dropBlanks text).reverse
    rw [Option.mem_def, ← List.getLast?_reverse]
    exact ended

theorem Trimmed.eq_trim {text body : List Char} (trimmed : Trimmed text body) : body = trim text := by
  obtain ⟨⟨before, behind, blank, blank', rfl⟩, begins, ends⟩ := trimmed
  have front : trim (before ++ (body ++ behind)) = trim (body ++ behind) := by
    rw [trim, trim, dropBlanks_append blank]
  rw [front]
  cases body with
  | nil =>
    have nothing := dropBlanks_append blank' []
    rw [List.append_nil] at nothing
    rw [List.nil_append, trim, nothing]
    rfl
  | cons first others =>
    have visible : isBlank first = false := begins first rfl
    have solid : Solid (first :: others) := by
      refine ⟨(first :: others).dropLast, _, (List.dropLast_append_getLast (List.cons_ne_nil _ _)).symm, ?_⟩
      exact ends _ (List.getLast?_eq_some_getLast (List.cons_ne_nil _ _))
    rw [trim_append solid blank', dropBlanks_cons visible]

end Text

namespace Block

open Text

/-- From the brace in front of `inside` on, every front that holds a glyph opens more than it closes. -/
def Unclosed (inside : List Char) : Prop :=
  ∀ front, front ≠ [] → front <+: '{' :: inside → front.count '}' < front.count '{'

/-- Counted from the brace in front of `inside` on, the brace between `interior` and `rest` is the first closing
one at which as many are closed as opened. -/
structure ClosedFirst (inside interior rest : List Char) : Prop where
  split : inside = interior ++ '}' :: rest
  equal : ('{' :: (interior ++ ['}'])).count '{' = ('{' :: (interior ++ ['}'])).count '}'
  first : ∀ front, front ++ ['}'] <+: interior →
    ('{' :: (front ++ ['}'])).count '{' ≠ ('{' :: (front ++ ['}'])).count '}'

/-- What the block of a keyword in a text yields: nothing if the keyword opens nowhere or is never closed where it
opens first, and else the trimmed interior. -/
inductive Extracts (keyword text : List Char) : Option (List Char) → Prop where
  | missing (absent : ∀ before opening, ¬ Opens keyword text before opening) : Extracts keyword text none
  | unclosed {before : List Char} {opening : Opening Char} (first : OpensFirst keyword text before opening)
      (unclosed : Unclosed opening.inside) : Extracts keyword text none
  | closed {before interior rest body : List Char} {opening : Opening Char}
      (first : OpensFirst keyword text before opening) (closed : ClosedFirst opening.inside interior rest)
      (trimmed : Trimmed interior body) : Extracts keyword text (some body)

def body? : Except (Fault Char) (Block Char) → Option (List Char)
  | .ok block => some block.body
  | .error _ => none

variable {keyword inside interior rest text body : List Char}

theorem depth_chars (text : List Char) : depth text = (text.count '{' : ℤ) - text.count '}' := by
  rw [depth, chars_self]

theorem unclosed_iff : Unclosed inside ↔ Open inside := by
  constructor
  · intro unclosed front within
    have more := unclosed ('{' :: front) (List.cons_ne_nil _ _) ((List.prefix_cons_inj _).mpr within)
    have deeper := depth_opening (show Glyph.char '{' = '{' from rfl) front
    rw [depth_chars] at deeper
    omega
  · intro opened front nonempty within
    obtain ⟨first, others, rfl⟩ := List.exists_cons_of_ne_nil nonempty
    obtain ⟨rfl, within'⟩ := List.cons_prefix_cons.mp within
    have deeper := depth_opening (show Glyph.char '{' = '{' from rfl) others
    have below := opened others within'
    rw [depth_chars] at deeper
    omega

theorem count_eq_iff : ('{' :: (text ++ ['}'])).count '{' = ('{' :: (text ++ ['}'])).count '}' ↔
    depth text = 0 := by
  have deeper := depth_opening (show Glyph.char '{' = '{' from rfl) (text ++ ['}'])
  have closing := depth_closing (show Glyph.char '}' = '}' from rfl) []
  rw [depth_append, closing, depth_nil, depth_chars] at deeper
  omega

theorem ClosedFirst.level (closed : ClosedFirst inside interior rest) : Level interior := by
  constructor
  · intro front within
    -- the front grows by one glyph at a time, and a closing brace cannot bring it below the start
    induction front using List.reverseRecOn with
    | nil => exact le_of_eq depth_nil.symm
    | append_singleton front glyph ih =>
      have above := ih ((List.prefix_append front [glyph]).trans within)
      rw [depth_append]
      by_cases closing : glyph = '}'
      · subst closing
        have unequal := closed.first front within
        rw [Ne, count_eq_iff] at unequal
        have step := depth_closing (show Glyph.char '}' = '}' from rfl) []
        rw [step, depth_nil]
        omega
      · by_cases opening : glyph = '{'
        · subst opening
          have step := depth_opening (show Glyph.char '{' = '{' from rfl) []
          rw [step, depth_nil]
          omega
        · have step := depth_other (show Glyph.char glyph ≠ '{' from opening) closing []
          rw [step, depth_nil]
          omega
  · exact count_eq_iff.mp closed.equal

theorem closedFirst_iff : ClosedFirst inside interior rest ↔ close? 0 inside = some (interior, rest) := by
  constructor
  · intro closed
    have held : Closed inside interior := ⟨closed.level, '}', rest, rfl, closed.split⟩
    obtain ⟨after, found⟩ := held.exists_close?
    obtain ⟨brace, _, split⟩ := close?_split found
    have same := List.append_cancel_left (closed.split.symm.trans split)
    rw [found, (List.cons.inj same).2]
  · intro found
    obtain ⟨brace, closing, split⟩ := close?_split found
    obtain rfl : brace = '}' := closing
    have level := level_of_closed found
    refine ⟨split, count_eq_iff.mpr level.total, ?_⟩
    intro front within equal
    have below := level.front _ within
    have step := depth_closing (show Glyph.char '}' = '}' from rfl) []
    rw [depth_append, count_eq_iff.mp equal, step, depth_nil] at below
    omega

theorem extracts_locate (keyword text : List Char) : Extracts keyword text (body? (locate keyword text)) := by
  cases found : leftmost? (opening? keyword) text with
  | none =>
    have absent := leftmost_opening_eq_none_iff.mp found
    rw [locate_of_absent absent]
    exact .missing absent
  | some opening =>
    obtain ⟨before, first⟩ := opensFirst_of_leftmost found
    cases closed : close? 0 opening.inside with
    | none =>
      have unclosed := close?_eq_none_iff_open.mp closed
      rw [first.locate_of_open unclosed]
      exact .unclosed first (unclosed_iff.mpr unclosed)
    | some parts =>
      obtain ⟨interior, rest⟩ := parts
      rw [first.locate_of_closed closed]
      exact .closed first (closedFirst_iff.mpr closed) (trimmed_trim interior)

theorem Extracts.eq_locate {answer : Option (List Char)} (extracts : Extracts keyword text answer) :
    answer = body? (locate keyword text) := by
  cases extracts with
  | missing absent =>
    rw [locate_of_absent absent]
    rfl
  | unclosed first unclosed =>
    rw [first.locate_of_open (unclosed_iff.mp unclosed)]
    rfl
  | closed first closed trimmed =>
    rw [first.locate_of_closed (closedFirst_iff.mp closed), trimmed.eq_trim]
    rfl

theorem toList_extract? (keyword text : String) :
    (extract? keyword text).map String.toList = body? (locate keyword.toList text.toList) := by
  unfold extract?
  cases locate keyword.toList text.toList with
  | error fault => rfl
  | ok block => exact congrArg some String.toList_ofList

theorem extractAt_eq (keyword text : List Char) :
    extractAt keyword text = .ok (body? (locate keyword text)) := by
  obtain ⟨located, finds, agrees⟩ := exists_locateAt keyword text
  rw [extractAt, finds, ok_bind]
  generalize locate keyword text = answer at agrees
  cases agrees with
  | missing => rfl
  | unterminated cuts => rfl
  | block cuts cuts' =>
    dsimp only
    rw [cuts'.slice]
    rfl

theorem exists_cuts_of_extract? {keyword text body : String} (extracted : extract? keyword text = some body) :
    ∃ span : Span, span.Cuts text body := by
  unfold extract? at extracted
  cases located : locate keyword.toList text.toList with
  | error fault =>
    rw [located] at extracted
    cases extracted
  | ok block =>
    rw [located] at extracted
    obtain rfl := Option.some.inj extracted
    obtain ⟨before, between, behind, _, split⟩ := exists_parts located
    let front := String.ofList (before ++ (block.keyword ++ between))
    let slice := String.ofList block.body
    have ordered : front.utf8ByteSize ≤ (front ++ slice).utf8ByteSize := by
      rw [String.utf8ByteSize_append]
      exact Nat.le_add_right _ _
    refine ⟨⟨_, _, ordered⟩, front, String.ofList behind, ?_, rfl, rfl⟩
    rw [← String.toList_inj, split]
    simp [front]

/-- The answer for each keyword and text is the one that the numbers of braces behind the leftmost opening tell. The
interior of the block found there is level, and the answer stands between characters of the text. The search by offsets
fails at none of its checks: it locates what is located glyph by glyph, and cuts out the same answer. -/
theorem extract?_eq_iff (keyword text : String) :
    (∀ answer, extract? keyword text = answer ↔
      Extracts keyword.toList text.toList (answer.map String.toList)) ∧
    (∀ before opening interior rest, OpensFirst keyword.toList text.toList before opening →
      ClosedFirst opening.inside interior rest → Level interior) ∧
    (∀ body, extract? keyword text = some body → ∃ span : Span, span.Cuts text body) ∧
    (∃ located, locateAt keyword.toList text.toList = .ok located ∧
      located.Agrees text.toList (locate keyword.toList text.toList)) ∧
    extractAt keyword.toList text.toList = .ok ((extract? keyword text).map String.toList) := by
  refine ⟨fun answer => ?_, fun _ _ _ _ _ closed => closed.level, fun _ => exists_cuts_of_extract?,
    exists_locateAt _ _, ?_⟩
  · constructor
    · rintro rfl
      rw [toList_extract?]
      exact extracts_locate _ _
    · intro extracts
      have same := (toList_extract? keyword text).trans extracts.eq_locate.symm
      exact Option.map_injective (fun _ _ => String.toList_injective) same
  · rw [toList_extract?]
    exact extractAt_eq _ _

/-- The second of two places that share a glyph, blanks beyond the usual ones, and a brace that is one too many. -/
theorem extract?_eq_iff_of_overlap :
    let keyword := "aa"
    let text := "aaa\u3000\x7b é \x7d \x7d"
    extract? keyword text = some "é" ∧
      (∃ before opening interior rest, OpensFirst keyword.toList text.toList before opening ∧
        ClosedFirst opening.inside interior rest ∧ Trimmed interior "é".toList ∧ Level interior) ∧
      (∃ span : Span, span.Cuts text "é") ∧
      extractAt keyword.toList text.toList = .ok (some "é".toList) := by
  intro keyword text
  obtain ⟨answers, interiors, spans, _, reading⟩ := extract?_eq_iff keyword text
  have found : extract? keyword text = some "é" := by decide +kernel
  rw [found] at reading
  refine ⟨found, ?_, spans "é" found, reading⟩
  cases (answers (some "é")).mp found with
  | closed first closed trimmed =>
    exact ⟨_, _, _, _, first, closed, trimmed, interiors _ _ _ _ first closed⟩

end Block

end PipelineChart
