import PipelineChart.Proofs.Block.Place
import PipelineChart.Proofs.Stage.Place
import PipelineChart.Proofs.Stage.Scan

/-!
The problems of a region in the order of its text. Each problem covers a part of the region that begins
with the declaration it is about, and stands behind the parts that the problems before it cover.
-/

namespace PipelineChart

open Text Stage.Declaration

variable {α : Type} [Glyph α]

/-- A problem with a stage covers its declaration, and its `parallel` keyword if it is about that. -/
inductive Problem.Covers : Problem α → List α → Prop where
  | unterminatedStage {name : String} {text : List α}
      (declares : Declares (Text.chars text) name.toList) :
      Covers (.unterminatedStage name text) text
  | missingSteps {name : String} {text : List α}
      (declares : Declares (Text.chars text) name.toList) : Covers (.missingSteps name text) text
  | tooDeep (limit : Nat) {name : String} {text keyword : List α} (between : List α)
      (declares : Declares (Text.chars text) name.toList)
      (spelled : Text.chars keyword = "parallel".toList) :
      Covers (.tooDeep limit name text keyword) (text ++ (between ++ keyword))

/-- Problems that cover parts of a text one behind the other. -/
inductive Problem.Listed : List α → List (Problem α) → Prop where
  | nil (text : List α) : Listed text []
  | cons (gap : List α) {part rest : List α} {problem : Problem α} {problems : List (Problem α)}
      (covers : problem.Covers part) (listed : Listed rest problems) :
      Listed (gap ++ (part ++ rest)) (problem :: problems)

namespace Problem.Listed

variable {text rest : List α} {problems more : List (Problem α)}

theorem prepend (listed : Listed text problems) (front : List α) : Listed (front ++ text) problems := by
  cases listed with
  | nil => exact .nil _
  | cons gap covers listed =>
    rw [← List.append_assoc]
    exact .cons (front ++ gap) covers listed

theorem append (listed : Listed text problems) (others : Listed rest more) :
    Listed (text ++ rest) (problems ++ more) := by
  induction listed with
  | nil text => exact others.prepend text
  | cons gap covers _ ih =>
    rw [List.append_assoc, List.append_assoc]
    exact .cons gap covers ih

theorem exists_part (listed : Listed text problems) {problem : Problem α} (member : problem ∈ problems) :
    ∃ before part behind, text = before ++ (part ++ behind) ∧ problem.Covers part := by
  induction listed with
  | nil => cases member
  | @cons gap part rest first problems covers listed ih =>
    rcases List.mem_cons.mp member with rfl | later
    · exact ⟨gap, part, rest, rfl, covers⟩
    · obtain ⟨before, part', behind, rfl, covers'⟩ := ih later
      exact ⟨gap ++ (part ++ before), part', behind, by simp only [List.append_assoc], covers'⟩

end Problem.Listed

namespace Outline

open Problem (Listed)

variable {region : List α} {declaration : Stage.Declaration α}

theorem declares_name (declared : leftmost? read? region = some declaration) :
    Declares (Text.chars declaration.text) (string declaration.name).toList := by
  rw [string, String.toList_ofList]
  exact (exists_place declared).1

theorem listed_scan (limit depth : Nat) (region : List α) :
    Listed region (scan limit depth region).problems := by
  fun_induction scan limit depth region with
  | case1 depth region absent => exact .nil region
  | case2 depth region declaration declared unclosed ih =>
    obtain ⟨_, before, split⟩ := exists_place declared
    rw [split]
    exact .cons before (.unterminatedStage (declares_name declared)) ih
  | case3 depth region declaration declared interior after closed fault unlocated ih =>
    obtain ⟨_, before, split⟩ := exists_place declared
    rw [split]
    unfold leaf
    split
    · exact (ih.prepend declaration.text).prepend before
    · exact .cons before (.missingSteps (declares_name declared)) ih
  | case4 depth region declaration declared interior after closed block located deep ih =>
    obtain ⟨_, before, split⟩ := exists_place declared
    obtain ⟨lead, between, behind, spelled, parts⟩ := Block.exists_nested_parts closed located
    have whole : region = before ++ ((declaration.text ++ (lead ++ block.keyword)) ++
        ((between ++ (block.body ++ behind)) ++ after)) := by
      rw [split, parts]
      simp only [List.append_assoc]
    rw [whole]
    exact .cons before (.tooDeep limit lead (declares_name declared) spelled) (ih.prepend _)
  | case5 depth region declaration declared interior after closed block located shallow inner outer =>
    obtain ⟨_, before, split⟩ := exists_place declared
    obtain ⟨lead, between, behind, _, parts⟩ := Block.exists_nested_parts closed located
    have whole : region = (before ++ (declaration.text ++ (lead ++ (block.keyword ++ between)))) ++
        (block.body ++ (behind ++ after)) := by
      rw [split, parts]
      simp only [List.append_assoc]
    rw [whole]
    exact (inner.append (outer.prepend behind)).prepend _

end Outline

end PipelineChart
