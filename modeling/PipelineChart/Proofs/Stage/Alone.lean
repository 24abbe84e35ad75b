import Mathlib.Data.List.Forall2
import PipelineChart.Proofs.Block.Place
import PipelineChart.Proofs.Stage.Place
import PipelineChart.Proofs.Stage.Scan

/-!
Scans that meet no `parallel` block. Reading then always goes on right behind the brace of a
declaration, whether its stage is closed or not and whatever its body holds. So the declarations of a
text are those found one behind the other, and each yields what it would yield alone.
-/

namespace PipelineChart

open Text

variable {α : Type} [Glyph α]

namespace Stage.Declaration

/-- The declarations of a text: the leftmost, and those behind its brace. -/
def all (text : List α) : List (Declaration α) :=
  match _declared : leftmost? read? text with
  | none => []
  | some declaration => declaration :: all declaration.inside
termination_by text.length
decreasing_by exact leftmost_read?_shorter _declared

/-- The later declaration stands, with all that follows it, behind the brace of the earlier one. -/
def Precedes (earlier later : Declaration α) : Prop := later.text ++ later.inside <:+ earlier.inside

variable {text : List α} {declaration : Declaration α}

theorem suffix_of_declared (declared : leftmost? read? text = some declaration) :
    declaration.text ++ declaration.inside <:+ text := by
  obtain ⟨_, before, split⟩ := exists_place declared
  exact ⟨before, split.symm⟩

theorem suffix_of_mem_all (member : declaration ∈ all text) :
    declaration.text ++ declaration.inside <:+ text := by
  fun_induction all text with
  | case1 => cases member
  | case2 text first declared ih =>
    rcases List.mem_cons.mp member with rfl | later
    · exact suffix_of_declared declared
    · exact (ih later).trans (inside_suffix declared)

theorem pairwise_all (text : List α) : (all text).Pairwise Precedes := by
  fun_induction all text with
  | case1 => exact .nil
  | case2 text first declared ih => exact .cons (fun _ later => suffix_of_mem_all later) ih

theorem all_behind {earlier later : List (Declaration α)}
    (split : all text = earlier ++ declaration :: later) : later = all declaration.inside := by
  fun_induction all text generalizing earlier with
  | case1 => simp at split
  | case2 text first declared ih =>
    cases earlier with
    | nil =>
      obtain ⟨rfl, rfl⟩ := List.cons.inj split
      rfl
    | cons other earlier => exact ih (List.cons.inj split).2

/-- What a declaration yields by itself. Left open it yields a problem and no stage. Closed it yields a
leaf, with the steps of the first `steps` block of its body, or with a problem if none opens there. -/
inductive Yields (declaration : Declaration α) : Outline α → Prop where
  | unterminated (unclosed : Block.Open declaration.inside) :
      Yields declaration ⟨[], [.unterminatedStage (string declaration.name) declaration.text]⟩
  | steps {interior commands before : List α} {opening : Block.Opening α}
      (closed : Block.Closed declaration.inside interior)
      (first : Block.OpensFirst "steps".toList (trim interior) before opening)
      (closed' : Block.Closed opening.inside commands) :
      Yields declaration
        ⟨[.leaf (string declaration.name) ((Step.arguments (trim commands)).map string)], []⟩
  | stepless {interior : List α} (closed : Block.Closed declaration.inside interior)
      (absent : ∀ before opening, ¬ Block.Opens "steps".toList (trim interior) before opening) :
      Yields declaration ⟨[.leaf (string declaration.name) []],
        [.missingSteps (string declaration.name) declaration.text]⟩

end Stage.Declaration

namespace Outline

open Stage.Declaration

variable {text interior after : List α} {declaration : Stage.Declaration α} {own : Outline α}

theorem yields_iff_of_open (unclosed : Block.close? 0 declaration.inside = none) :
    declaration.Yields own ↔
      own = empty.problem (.unterminatedStage (string declaration.name) declaration.text) := by
  have never {interior : List α} : ¬ Block.Closed declaration.inside interior := by
    intro closed
    obtain ⟨after, found⟩ := closed.exists_close?
    rw [unclosed] at found
    cases found
  constructor
  · intro yields
    cases yields with
    | unterminated => rfl
    | steps closed => exact absurd closed never
    | stepless closed => exact absurd closed never
  · rintro rfl
    exact .unterminated (Block.close?_eq_none_iff_open.mp unclosed)

theorem yields_iff_of_closed (closed : Block.close? 0 declaration.inside = some (interior, after)) :
    declaration.Yields own ↔ own = empty.leaf declaration (trim interior) := by
  have closed' := Block.closed_of_close? closed
  constructor
  · intro yields
    cases yields with
    | unterminated unclosed =>
      rw [Block.close?_eq_none_iff_open.mpr unclosed] at closed
      cases closed
    | steps closed'' first inner =>
      obtain rfl := closed''.unique closed'
      obtain ⟨rest, inner⟩ := inner.exists_close?
      rw [leaf, first.locate_of_closed inner]
      rfl
    | stepless closed'' absent =>
      obtain rfl := closed''.unique closed'
      rw [leaf, Block.locate_of_absent absent]
      rfl
  · rintro rfl
    unfold leaf
    split
    · rename_i block located
      obtain ⟨before, inside, commands, first, inner, body⟩ := Block.exists_opening_of_locate located
      rw [body]
      exact .steps closed' first (Block.closed_of_close? inner)
    · rename_i fault located
      -- the braces of a body match, so a block that opens in it would have been found
      have matched := (Block.level_of_closed closed).trim.matched
      exact .stepless closed' (matched.not_opens located)

theorem yields_unique : Relator.RightUnique (Yields : Stage.Declaration α → Outline α → Prop) := by
  intro declaration own other yields yields'
  cases closed : Block.close? 0 declaration.inside with
  | none =>
    rw [yields_iff_of_open closed] at yields yields'
    exact yields.trans yields'.symm
  | some found =>
    rw [yields_iff_of_closed closed] at yields yields'
    exact yields.trans yields'.symm

theorem exists_yields (limit depth : Nat)
    (absent : ∀ before opening, ¬ Block.Opens "parallel".toList text before opening)
    (declared : leftmost? read? text = some declaration) :
    ∃ own, declaration.Yields own ∧ scan limit depth text =
      ⟨own.stages ++ (scan limit depth declaration.inside).stages,
        own.problems ++ (scan limit depth declaration.inside).problems⟩ := by
  cases closed : Block.close? 0 declaration.inside with
  | none =>
    rw [scan_of_open declared closed]
    exact ⟨_, (yields_iff_of_open closed).mpr rfl, rfl⟩
  | some found =>
    obtain ⟨interior, after⟩ := found
    have within : trim interior <:+: text := ((trim_within interior).trans
      (Block.interior_prefix closed).isInfix).trans (inside_suffix declared).isInfix
    have unlocated : Block.locate "parallel".toList (trim interior) = .error .missing := by
      apply Block.locate_of_absent
      intro before opening opens
      obtain ⟨front, other, opens'⟩ := opens.exists_within within
      exact absent front other opens'
    rw [scan_of_leaf declared closed unlocated]
    refine ⟨_, (yields_iff_of_closed closed).mpr rfl, ?_⟩
    rw [leaf, leaf]
    cases Block.locate "steps".toList (trim interior) <;> rfl

theorem exists_joined (limit depth : Nat)
    (absent : ∀ before opening, ¬ Block.Opens "parallel".toList text before opening) :
    ∃ outlines, List.Forall₂ Yields (all text) outlines ∧
      scan limit depth text = ⟨outlines.flatMap stages, outlines.flatMap problems⟩ := by
  fun_induction all text with
  | case1 text none => exact ⟨[], .nil, scan_of_absent none⟩
  | case2 text declaration declared ih =>
    obtain ⟨own, yields, step⟩ := exists_yields limit depth absent declared
    obtain ⟨outlines, others, joined⟩ := ih fun before opening opens => by
      obtain ⟨front, other, opens'⟩ := opens.exists_within (inside_suffix declared).isInfix
      exact absent front other opens'
    refine ⟨own :: outlines, .cons yields others, ?_⟩
    rw [step, joined]
    rfl

/-- Where no `parallel` block opens, each declaration yields a leaf or a problem by itself, and the scan
joins what they yield in the order of the text, in which a stage nested in another follows it. -/
theorem scan_alone (limit depth : Nat) {text : List α}
    (absent : ∀ before opening, ¬ Block.Opens "parallel".toList text before opening) :
    (∃ outlines, List.Forall₂ Yields (all text) outlines) ∧
      (∀ outlines, List.Forall₂ Yields (all text) outlines →
        scan limit depth text = ⟨outlines.flatMap stages, outlines.flatMap problems⟩) ∧
      (all text).Pairwise Precedes ∧
      ∀ earlier declaration later, all text = earlier ++ declaration :: later →
        later = all declaration.inside := by
  obtain ⟨outlines, yields, joined⟩ := exists_joined limit depth absent
  refine ⟨⟨outlines, yields⟩, fun others yields' => ?_, pairwise_all text, fun _ _ _ => all_behind⟩
  rw [List.right_unique_forall₂' yields_unique yields' yields]
  exact joined

/-- The last of three declarations is left open, the second is nested in the first and has no steps. -/
theorem scan_alone_of_nested :
    let text := "stage('A') \x7b steps \x7b sh 'a' \x7d stage('B') \x7b \x7d \x7d stage('C') \x7b \x7b \x7d".toList
    (∀ before opening, ¬ Block.Opens "parallel".toList text before opening) ∧
      (all text).map (fun declaration => string declaration.name) = ["A", "B", "C"] ∧
      (scan 0 0 text).stages.map (fun stage => (stage.name, stage.steps)) = [("A", ["a"]), ("B", [])] ∧
      ∃ outlines, List.Forall₂ Yields (all text) outlines ∧
        scan 0 0 text = ⟨outlines.flatMap stages, outlines.flatMap problems⟩ := by
  intro text
  have absent : ∀ before opening, ¬ Block.Opens "parallel".toList text before opening :=
    Block.leftmost_opening_eq_none_iff.mp (by decide +kernel)
  obtain ⟨⟨outlines, yields⟩, joined, _⟩ := scan_alone 0 0 absent
  exact ⟨absent, by decide +kernel, by decide +kernel, outlines, yields, joined outlines yields⟩

end Outline

end PipelineChart
