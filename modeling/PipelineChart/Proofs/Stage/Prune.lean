import PipelineChart.Proofs.Stage.Forest
import PipelineChart.Proofs.Stage.Scan

/-!
What the limit of a scan does. The stages found under a limit are those found under a larger one without
the parallel stages that lie in too many others. A scan that skips none of them does not notice the limit.
-/

namespace PipelineChart

variable {limit : Nat}

mutual

/-- Of a stage inside `depth` parallel stages, what is left without the parallel stages that lie in
`limit` others or more. -/
def Stage.prune (limit depth : Nat) : Stage → List Stage
  | .leaf name steps => [.leaf name steps]
  | .parallel name branches =>
      if limit ≤ depth then [] else [.parallel name (Forest.prune limit (depth + 1) branches)]

def Forest.prune (limit depth : Nat) : List Stage → List Stage
  | [] => []
  | stage :: stages => stage.prune limit depth ++ Forest.prune limit depth stages

end

theorem Forest.nesting_append (stages others : List Stage) :
    Forest.nesting (stages ++ others) = max (Forest.nesting stages) (Forest.nesting others) := by
  induction stages with
  | nil => exact (Nat.zero_max _).symm
  | cons stage stages ih =>
    rw [List.cons_append, Forest.nesting, ih, Forest.nesting]
    exact (Nat.max_assoc _ _ _).symm

mutual

theorem Stage.nesting_prune_le : (stage : Stage) → (depth : Nat) →
    Forest.nesting (stage.prune limit depth) ≤ limit - depth
  | .leaf name steps, depth => by simp [Stage.prune, Forest.nesting, Stage.nesting]
  | .parallel name branches, depth => by
      have below := Forest.nesting_prune_le branches (depth + 1)
      unfold Stage.prune
      split_ifs with deep
      · exact Nat.zero_le _
      · simp only [Forest.nesting, Stage.nesting, Nat.max_zero]
        omega

theorem Forest.nesting_prune_le : (stages : List Stage) → (depth : Nat) →
    Forest.nesting (Forest.prune limit depth stages) ≤ limit - depth
  | [], depth => Nat.zero_le _
  | stage :: stages, depth => by
      rw [Forest.prune, Forest.nesting_append]
      exact Nat.max_le.mpr ⟨stage.nesting_prune_le depth, Forest.nesting_prune_le stages depth⟩

end

namespace Outline

open Text

variable {α : Type} [Glyph α] {larger depth : Nat} {region : List α}

theorem exists_leaf (declaration : Stage.Declaration α) (body : List α) :
    ∃ steps problems, ∀ outline : Outline α, outline.leaf declaration body =
      ⟨.leaf (string declaration.name) steps :: outline.stages, problems ++ outline.problems⟩ := by
  unfold leaf
  cases Block.locate "steps".toList body with
  | ok block => exact ⟨_, [], fun _ => rfl⟩
  | error fault => exact ⟨[], [_], fun _ => rfl⟩

/-- A parallel stage that is skipped leaves the scan where it would go on behind its branches. -/
theorem stages_scan_eq_prune (within : limit ≤ larger) (depth : Nat) (region : List α) :
    (scan limit depth region).stages = Forest.prune limit depth (scan larger depth region).stages := by
  fun_induction scan larger depth region with
  | case1 depth region absent =>
    rw [scan_of_absent absent]
    rfl
  | case2 depth region declaration declared unclosed ih =>
    rw [scan_of_open declared unclosed]
    exact ih
  | case3 depth region declaration declared interior after closed fault unlocated ih =>
    obtain ⟨steps, problems, added⟩ := exists_leaf declaration (trim interior)
    rw [scan_of_leaf declared closed unlocated, added, added]
    simp only [ih, Forest.prune, Stage.prune, List.singleton_append]
  | case4 depth region declaration declared interior after closed block located deep ih =>
    rw [scan_of_block declared closed located, if_pos (Nat.le_trans within deep)]
    exact ih
  | case5 depth region declaration declared interior after closed block located shallow inner outer =>
    rw [scan_of_block declared closed located]
    simp only [parallel, Forest.prune, Stage.prune]
    split_ifs with deep
    · exact outer
    · simp only [inner, outer, List.singleton_append]

theorem scan_eq_of_shallow (within : limit ≤ larger)
    (shallow : ∀ name declaration keyword,
      .tooDeep limit name declaration keyword ∉ (scan limit depth region).problems) :
    scan larger depth region = scan limit depth region := by
  fun_induction scan limit depth region with
  | case1 depth region absent => exact scan_of_absent absent
  | case2 depth region declaration declared unclosed ih =>
    rw [scan_of_open declared unclosed, ih]
    exact fun name text keyword member => shallow name text keyword (List.mem_cons_of_mem _ member)
  | case3 depth region declaration declared interior after closed fault unlocated ih =>
    obtain ⟨steps, problems, added⟩ := exists_leaf declaration (trim interior)
    rw [scan_of_leaf declared closed unlocated, ih]
    intro name text keyword member
    apply shallow name text keyword
    rw [added]
    exact List.mem_append_right problems member
  | case4 depth region declaration declared interior after closed block located deep ih =>
    exact absurd List.mem_cons_self (shallow _ _ _)
  | case5 depth region declaration declared interior after closed block located room inner outer =>
    have room' : ¬ larger ≤ depth := fun deep => room (Nat.le_trans within deep)
    rw [scan_of_block declared closed located, if_neg room', inner, outer]
    · exact fun name text keyword member => shallow name text keyword (List.mem_append_right _ member)
    · exact fun name text keyword member => shallow name text keyword (List.mem_append_left _ member)

end Outline

end PipelineChart
