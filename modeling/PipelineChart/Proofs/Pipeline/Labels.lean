import PipelineChart.Proofs.Pipeline.Terminated
import PipelineChart.Proofs.Source.Cut
import PipelineChart.Proofs.Stage.Listed

/-!
What the labels of diagnostics point at. A label is on a part of the source that reads, without comments,
as the text that the diagnostic is about. The parts that a scan covers with its problems stand one behind
the other, so the primary labels are in the order of the source.
-/

namespace PipelineChart

open Text Stage.Declaration

namespace Label

/-- The label is the primary one and marks a declaration of the stage. -/
def OnStage (label : Label) (source name : String) : Prop :=
  label.isPrimary = true ∧ ∃ text, label.span.Marks source text ∧ Declares text name.toList

def Within (label : Label) (source : String) : Prop :=
  label.span.start ≤ label.span.stop ∧ label.span.stop ≤ source.utf8ByteSize ∧
    String.Pos.Raw.IsValid source ⟨label.span.start⟩ ∧ String.Pos.Raw.IsValid source ⟨label.span.stop⟩

end Label

theorem Span.Marks.within {span : Span} {source message : String} {text : List Char} {isPrimary : Bool}
    (marks : span.Marks source text) : (Label.mk span message isPrimary).Within source := by
  obtain ⟨slice, cuts, _⟩ := marks
  exact cuts.bounds

namespace Diagnostic

/-- The labels of a diagnostic of each code, and what they mark. -/
def Points (limit : Nat) (source : String) (diagnostic : Diagnostic) : Prop :=
  match diagnostic.code, diagnostic.labels with
  | some .missingPipeline, [] => True
  | some .unterminatedPipeline, [keyword] =>
      keyword.isPrimary = true ∧ keyword.span.Marks source "pipeline".toList
  | some .missingSteps, [stage] => ∃ name, stage.OnStage source name ∧
      diagnostic.message = "stage `" ++ name ++ "` has no steps block"
  | some .tooDeep, [stage, keyword] => (∃ name, stage.OnStage source name ∧ diagnostic.message =
      "parallel stage `" ++ name ++ "` is nested more than " ++ toString limit ++ " levels deep") ∧
      keyword.isPrimary = false ∧ keyword.span.Marks source "parallel".toList ∧
      stage.span.stop ≤ keyword.span.start
  | _, _ => False

def primaryStarts (diagnostic : Diagnostic) : List Nat :=
  (diagnostic.labels.filter Label.isPrimary).map fun label => label.span.start

variable {limit : Nat} {source : String} {diagnostic : Diagnostic}

theorem Points.marks (points : diagnostic.Points limit source) :
    ∀ label ∈ diagnostic.labels, ∃ text, label.span.Marks source text := by
  unfold Points at points
  split at points
  · rename_i labels
    simp [labels]
  · rename_i keyword _ labels
    rw [labels, List.forall_mem_singleton]
    exact ⟨_, points.2⟩
  · rename_i stage _ labels
    rw [labels, List.forall_mem_singleton]
    obtain ⟨name, ⟨_, text, marks, _⟩, _⟩ := points
    exact ⟨text, marks⟩
  · rename_i stage keyword _ labels
    rw [labels, List.forall_mem_cons, List.forall_mem_singleton]
    obtain ⟨⟨name, ⟨_, text, marks, _⟩, _⟩, _, marks', _⟩ := points
    exact ⟨⟨text, marks⟩, ⟨_, marks'⟩⟩
  · exact points.elim

theorem Points.within (points : diagnostic.Points limit source) :
    ∀ label ∈ diagnostic.labels, label.Within source := by
  intro label member
  obtain ⟨text, marks⟩ := points.marks label member
  exact marks.within

theorem points_record (collector : Collector) :
    (collector.record diagnostic).Points limit source ↔ diagnostic.Points limit source := by
  unfold Collector.record
  split_ifs <;> rfl

theorem primaryStarts_record (collector : Collector) :
    (collector.record diagnostic).primaryStarts = diagnostic.primaryStarts := by
  unfold Collector.record
  split_ifs <;> rfl

end Diagnostic

theorem ne_nil_of_chars {part : List Placed} (visible : Text.chars part ≠ []) : part ≠ [] := by
  rintro rfl
  exact visible rfl

namespace Problem

open Placed (locate Ordered)

variable {limit : Nat} {source name : String} {problem : Problem Placed}
  {before part behind declaration keyword : List Placed}

theorem points_of_missingSteps (kept : Comment.strip (locate 0 source.toList) = before ++ (part ++ behind))
    (covers : (missingSteps name declaration).Covers part) :
    (missingSteps name declaration).diagnostic.Points limit source := by
  cases covers with
  | missingSteps declares =>
    have marks := Placed.marks_of_kept kept (ne_nil_of_chars declares.ne_nil)
    exact ⟨name, ⟨rfl, _, marks, declares⟩, rfl⟩

theorem points_of_tooDeep (kept : Comment.strip (locate 0 source.toList) = before ++ (part ++ behind))
    (covers : (tooDeep limit name declaration keyword).Covers part) :
    (tooDeep limit name declaration keyword).diagnostic.Points limit source := by
  cases covers with
  | tooDeep _ between declares spelled =>
    have nonempty := ne_nil_of_chars declares.ne_nil
    have nonempty' : keyword ≠ [] := ne_nil_of_chars (by rw [spelled]; decide)
    have ordered : Ordered (declaration ++ (between ++ keyword)) := Placed.ordered_of_kept kept
    have kept' : Comment.strip (locate 0 source.toList) =
        before ++ declaration ++ between ++ (keyword ++ behind) := by
      rw [kept]
      simp only [List.append_assoc]
    rw [List.append_assoc] at kept
    have marks := Placed.marks_of_kept kept nonempty
    have marks' := Placed.marks_of_kept kept' nonempty'
    rw [spelled] at marks'
    exact ⟨⟨name, ⟨rfl, _, marks, declares⟩, rfl⟩, rfl, marks',
      Placed.span_stop_le_start ordered nonempty nonempty'⟩

theorem Covers.exists_first (covers : problem.Covers part) :
    ∃ first others, part = first :: others ∧ problem.diagnostic.primaryStarts = [first.offset] := by
  cases covers with
  | unterminatedStage declares | missingSteps declares =>
    obtain ⟨first, others, rfl⟩ := List.exists_cons_of_ne_nil (ne_nil_of_chars declares.ne_nil)
    exact ⟨first, others, rfl, congrArg ([·]) (Placed.span_start first others)⟩
  | tooDeep _ between declares _ =>
    obtain ⟨first, others, rfl⟩ := List.exists_cons_of_ne_nil (ne_nil_of_chars declares.ne_nil)
    exact ⟨first, others ++ (between ++ _), rfl, congrArg ([·]) (Placed.span_start first others)⟩

theorem Listed.starts_increase {text : List Placed} {problems : List (Problem Placed)}
    (listed : Listed text problems) (ordered : Ordered text) :
    (∀ start ∈ problems.flatMap (·.diagnostic.primaryStarts), ∃ glyph ∈ text, start = glyph.offset) ∧
      (problems.flatMap (·.diagnostic.primaryStarts)).Pairwise (· < ·) := by
  induction listed with
  | nil text => exact ⟨by simp, List.Pairwise.nil⟩
  | @cons gap part rest problem problems covers listed ih =>
    obtain ⟨first, others, rfl, starts⟩ := covers.exists_first
    have behind := List.pairwise_append.mp (List.pairwise_append.mp ordered).2.1
    obtain ⟨placed, increase⟩ := ih behind.2.1
    rw [List.flatMap_cons, starts, List.singleton_append]
    refine ⟨?_, List.pairwise_cons.mpr ⟨?_, increase⟩⟩
    · rw [List.forall_mem_cons]
      refine ⟨⟨first, by simp, rfl⟩, fun start member => ?_⟩
      obtain ⟨glyph, member', same⟩ := placed start member
      exact ⟨glyph, by simp [member'], same⟩
    · intro start member
      obtain ⟨glyph, member', rfl⟩ := placed start member
      exact first.offset_lt_stop.trans_le (behind.2.2 first List.mem_cons_self glyph member')

end Problem

namespace Pipeline

theorem exists_body {source : String} {block : Block Placed}
    (located : Block.locate "pipeline".toList
      (Comment.strip (Placed.locate 0 source.toList)) = .ok block) :
    ∃ before behind, Comment.strip (Placed.locate 0 source.toList) = before ++ (block.body ++ behind) := by
  obtain ⟨before, between, behind, _, kept⟩ := Block.exists_parts located
  exact ⟨before ++ (block.keyword ++ between), behind, by rw [kept]; simp only [List.append_assoc]⟩

theorem points_of_block {limit : Nat} {source : String} {block : Block Placed}
    (located : Block.locate "pipeline".toList
      (Comment.strip (Placed.locate 0 source.toList)) = .ok block) :
    ∀ problem ∈ (Outline.scan limit 0 block.body).problems, problem.diagnostic.Points limit source := by
  intro problem member
  obtain ⟨before, behind, kept⟩ := exists_body located
  obtain ⟨front, part, back, split, covers⟩ := (Outline.listed_scan limit 0 block.body).exists_part member
  have kept' : Comment.strip (Placed.locate 0 source.toList) =
      before ++ front ++ (part ++ (back ++ behind)) := by
    rw [kept, split]
    simp only [List.append_assoc]
  rcases Outline.problems_of_matched (Block.level_body located).matched problem member with
    ⟨name, declaration, rfl⟩ | ⟨name, declaration, keyword, rfl⟩
  · exact Problem.points_of_missingSteps kept' covers
  · exact Problem.points_of_tooDeep kept' covers

theorem points_warnings (limit : Nat) (source : String) :
    (∀ warning ∈ warnings limit source, warning.Points limit source) ∧
      ((warnings limit source).flatMap Diagnostic.primaryStarts).Pairwise (· < ·) := by
  unfold warnings
  rw [List.forall_mem_map, List.flatMap_map]
  cases located : Block.locate "pipeline".toList (Comment.strip (Placed.locate 0 source.toList)) with
  | ok block =>
    obtain ⟨before, behind, kept⟩ := exists_body located
    rw [Outline.ofSource_of_block located]
    exact ⟨points_of_block located,
      ((Outline.listed_scan limit 0 block.body).starts_increase (Placed.ordered_of_kept kept)).2⟩
  | error fault =>
    cases fault with
    | missing =>
      rw [Outline.ofSource_of_missing located]
      exact ⟨List.forall_mem_singleton.mpr trivial, List.Pairwise.nil⟩
    | unterminated keyword =>
      obtain ⟨before, behind, spelled, kept⟩ := Block.exists_unterminated located
      have marks := Placed.marks_of_kept kept (ne_nil_of_chars (by rw [spelled]; decide))
      rw [Outline.ofSource_of_unterminated located]
      refine ⟨List.forall_mem_singleton.mpr ⟨rfl, ?_⟩, List.pairwise_singleton _ _⟩
      exact spelled ▸ marks

/-- The labels of what is reported mark the text that it is about, and the primary ones are in the order
of the source. -/
theorem reported_in_order (options : Options) (source : String) :
    let diagnostics := reported (parse options source)
    (∀ diagnostic ∈ diagnostics, diagnostic.Points options.maxDepth source ∧
      ∀ label ∈ diagnostic.labels, label.Within source) ∧
    (diagnostics.flatMap Diagnostic.primaryStarts).Pairwise (· < ·) := by
  intro diagnostics
  obtain ⟨points, increase⟩ := points_warnings options.maxDepth source
  have told : diagnostics = (warnings options.maxDepth source).map
      (Collector.new options.strict).record := reported_parse options source
  rw [told, List.forall_mem_map, List.flatMap_map]
  refine ⟨fun warning member => ?_, ?_⟩
  · have pointed := (Diagnostic.points_record (Collector.new options.strict)).mpr (points warning member)
    exact ⟨pointed, pointed.within⟩
  · simp only [Diagnostic.primaryStarts_record]
    exact increase

/-- Comments inside a declaration and inside a keyword are no part of the text that the labels mark. -/
theorem reported_in_order_of_split :
    let source := "pipeline \x7b sta/* é */ge('é') \x7b \x7d stage('B') \x7b para/**/llel \x7b \x7d \x7d \x7d"
    let skipped : Diagnostic := ⟨.warning, some .missingSteps, "stage `é` has no steps block",
      [⟨⟨11, 32, by decide⟩, "stage declared here", true⟩], none⟩
    let flattened : Diagnostic := ⟨.warning, some .tooDeep,
      "parallel stage `B` is nested more than 0 levels deep",
      [⟨⟨35, 47, by decide⟩, "stage declared here", true⟩, ⟨⟨48, 60, by decide⟩, "parallel block", false⟩],
      some "flatten the nested parallel blocks or raise `max_depth`"⟩
    reported (parse ⟨0, false⟩ source) = [skipped, flattened] ∧ skipped.Points 0 source ∧
      flattened.Points 0 source ∧ [11, 35].Pairwise (· < ·) := by
  intro source skipped flattened
  have told : reported (parse ⟨0, false⟩ source) = [skipped, flattened] := by decide +kernel
  obtain ⟨points, increase⟩ := reported_in_order ⟨0, false⟩ source
  rw [told] at points increase
  exact ⟨told, (points skipped (by simp)).1, (points flattened (by simp)).1, increase⟩

end Pipeline

end PipelineChart
