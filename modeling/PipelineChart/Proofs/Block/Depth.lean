import Mathlib.Data.List.Infix
import PipelineChart.Proofs.Text.Reading

/-!
The depth of braces. A block is open as long as no front of what follows its brace closes more than it
opens, and is closed by the brace that does. So the interior of a block is level: its braces match each
other, and each brace that opens in it is closed in it.
-/

namespace PipelineChart.Block

open Text

variable {α : Type} [Glyph α]

def depth (text : List α) : ℤ :=
  (Text.chars text).count '{' - (Text.chars text).count '}'

/-- No front closes more than it opens, so a block around the text does not end in it. -/
def Open (text : List α) : Prop := ∀ front, front <+: text → 0 ≤ depth front

/-- The braces in the text match each other. -/
structure Level (text : List α) : Prop where
  front : Open text
  total : depth text = 0

/-- Each brace that opens in the text is closed in it. -/
def Matched (text : List α) : Prop :=
  ∀ brace inside, brace :: inside <:+ text → Glyph.char brace = '{' →
    ∃ interior rest, close? 0 inside = some (interior, rest)

@[simp]
theorem depth_nil : depth ([] : List α) = 0 := rfl

theorem depth_append (text rest : List α) : depth (text ++ rest) = depth text + depth rest := by
  simp only [depth, Text.chars, List.map_append, List.count_append]
  omega

theorem depth_opening {brace : α} (opening : Glyph.char brace = '{') (text : List α) :
    depth (brace :: text) = depth text + 1 := by
  simp only [depth, chars_cons, opening, List.count_cons_self,
    List.count_cons_of_ne (show '{' ≠ '}' by decide)]
  omega

theorem depth_closing {brace : α} (closing : Glyph.char brace = '}') (text : List α) :
    depth (brace :: text) = depth text - 1 := by
  simp only [depth, chars_cons, closing, List.count_cons_self,
    List.count_cons_of_ne (show '}' ≠ '{' by decide)]
  omega

theorem depth_other {glyph : α} (opening : Glyph.char glyph ≠ '{') (closing : Glyph.char glyph ≠ '}')
    (text : List α) : depth (glyph :: text) = depth text := by
  simp only [depth, chars_cons, List.count_cons_of_ne opening, List.count_cons_of_ne closing]

theorem depth_blanks {gap : List α} (blank : Blanks gap) : depth gap = 0 := by
  induction gap with
  | nil => rfl
  | cons glyph gap ih =>
    have others := List.forall_mem_cons.mp blank
    have brace {mark : Char} (visible : isBlank mark = false) : Glyph.char glyph ≠ mark := by
      intro same
      subst same
      exact absurd others.1 (by rw [show isBlank glyph = false from visible]; decide)
    rw [depth_other (brace rfl) (brace rfl)]
    exact ih others.2

theorem close?_eq_none_iff {level : Nat} {text : List α} :
    close? level text = none ↔ ∀ front, front <+: text → 0 ≤ level + depth front := by
  induction text generalizing level with
  | nil =>
    simp only [close?, List.prefix_nil, forall_eq, depth_nil, true_iff]
    omega
  | cons glyph text ih =>
    have fronts : (∀ front, front <+: glyph :: text → 0 ≤ level + depth front) ↔
        ∀ front, front <+: text → 0 ≤ level + depth (glyph :: front) := by
      simp only [List.prefix_cons_iff, forall_eq_or_imp, depth_nil, forall_exists_index, and_imp]
      constructor
      · exact fun both front within => both.2 _ front rfl within
      · refine fun below => ⟨by omega, ?_⟩
        rintro _ front rfl within
        exact below front within
    rw [fronts, close?.eq_def]
    by_cases closing : Glyph.char glyph = '}'
    · simp only [if_pos closing, depth_closing closing]
      cases level with
      | zero =>
        constructor
        · intro impossible
          cases impossible
        · intro below
          have first := below [] List.nil_prefix
          simp at first
      | succ level =>
        simp only [Option.map_eq_none_iff, ih]
        apply forall₂_congr
        intro front _
        omega
    · by_cases opening : Glyph.char glyph = '{'
      · simp only [if_neg closing, if_pos opening, Option.map_eq_none_iff, ih, depth_opening opening]
        apply forall₂_congr
        intro front _
        omega
      · simp only [if_neg closing, if_neg opening, Option.map_eq_none_iff, ih,
          depth_other opening closing]

theorem close?_depth {level : Nat} {text interior rest : List α}
    (closed : close? level text = some (interior, rest)) :
    level + depth interior = 0 ∧ ∀ front, front <+: interior → 0 ≤ level + depth front := by
  induction text generalizing level interior with
  | nil => cases closed
  | cons glyph text ih =>
    have later {next : Nat} {inner : List α} (moved : close? next text = some (inner, rest))
        (turn : ∀ front, level + depth (glyph :: front) = next + depth front) :
        level + depth (glyph :: inner) = 0 ∧
          ∀ front, front <+: glyph :: inner → 0 ≤ level + depth front := by
      obtain ⟨total, below⟩ := ih moved
      refine ⟨(turn inner).trans total, ?_⟩
      intro front within
      rcases List.prefix_cons_iff.mp within with rfl | ⟨others, rfl, within'⟩
      · rw [depth_nil]
        omega
      · rw [turn]
        exact below others within'
    rw [close?.eq_def] at closed
    by_cases closing : Glyph.char glyph = '}'
    · simp only [if_pos closing] at closed
      cases level with
      | zero =>
        obtain ⟨rfl, -⟩ := Prod.mk.inj (Option.some.inj closed)
        simp
      | succ level =>
        obtain ⟨⟨inner, last⟩, moved, same⟩ := Option.map_eq_some_iff.mp closed
        obtain ⟨rfl, rfl⟩ := Prod.mk.inj same
        apply later moved
        intro front
        rw [depth_closing closing]
        push_cast
        omega
    · simp only [if_neg closing] at closed
      obtain ⟨⟨inner, last⟩, moved, same⟩ := Option.map_eq_some_iff.mp closed
      obtain ⟨rfl, rfl⟩ := Prod.mk.inj same
      apply later moved
      intro front
      split_ifs with opening
      · rw [depth_opening opening]
        push_cast
        omega
      · rw [depth_other opening closing]

theorem close?_eq_none_iff_open {text : List α} : close? 0 text = none ↔ Open text := by
  rw [close?_eq_none_iff, Open]
  apply forall₂_congr
  intro front _
  omega

theorem level_of_closed {text interior rest : List α}
    (closed : close? 0 text = some (interior, rest)) : Level interior := by
  obtain ⟨total, below⟩ := close?_depth closed
  constructor
  · intro front within
    have first := below front within
    omega
  · omega

/-- If what follows an opening brace left its block open, the whole text would open more than it closes. -/
theorem Level.matched {text : List α} (level : Level text) : Matched text := by
  intro brace inside within opening
  obtain ⟨before, rfl⟩ := within
  cases closed : close? 0 inside with
  | some found => exact ⟨found.1, found.2, rfl⟩
  | none =>
    have total := level.total
    have front := level.front before (List.prefix_append _ _)
    have rest := close?_eq_none_iff_open.mp closed inside List.prefix_rfl
    rw [depth_append, depth_opening opening] at total
    omega

theorem Matched.suffix {text rest : List α} (matched : Matched text) (within : rest <:+ text) :
    Matched rest :=
  fun brace inside last => matched brace inside (last.trans within)

theorem Level.trim {text : List α} (level : Level text) : Level (trim text) := by
  obtain ⟨before, behind, blank, blank', split⟩ := exists_trim text
  have total := level.total
  have moved (front : List α) : depth (before ++ front) = depth front := by
    rw [depth_append, depth_blanks blank, Int.zero_add]
  constructor
  · intro front within
    rw [← moved]
    apply level.front
    rw [split]
    exact (List.prefix_append_right_inj before).mpr (within.trans (List.prefix_append _ _))
  · rw [split, moved, depth_append, depth_blanks blank', Int.add_zero] at total
    exact total

end PipelineChart.Block
