import Mathlib.Data.Finset.Basic
import PipelineChart.Proofs.Chart.Traversal
import PipelineChart.Settings.Basic

/-!
Which leaves a chart places. They are those that one traversal of the whole forest meets, a stage before its branches,
with one set of names: a stage whose name is in the set is passed over with all that is below it, and the name of any
other stage goes into the set before its branches are visited. So no name is placed twice, and where all names differ
every leaf is placed. Metrics and origin play no part in this.
-/

namespace PipelineChart

namespace Forest

theorem names_append (stages others : List Stage) : names (stages ++ others) = names stages ++ names others := by
  induction stages with
  | nil => rfl
  | cons stage stages ih => rw [List.cons_append, names, names, ih, List.append_assoc]

theorem leaves_append (stages others : List Stage) : leaves (stages ++ others) = leaves stages ++ leaves others := by
  induction stages with
  | nil => rfl
  | cons stage stages ih => rw [List.cons_append, leaves, leaves, ih, List.append_assoc]

/-- The leaves that are met if the names in `met` were met before; branches are visited before the stages that follow
their parallel stage. -/
def survivors (met : Finset String) : List Stage → List Leaf
  | [] => []
  | .leaf name steps :: stages =>
      if name ∈ met then survivors met stages
      else ⟨name, steps⟩ :: survivors (insert name met) stages
  | .parallel name branches :: stages =>
      if name ∈ met then survivors met stages
      else survivors (insert name met) (branches ++ stages)
termination_by stages => (names stages).length
decreasing_by
  all_goals
    simp only [names, names_append, Stage.names, List.length_append, List.length_cons]
    omega

variable {met : Finset String} {stages : List Stage}

theorem fresh_of_survives : ∀ leaf ∈ survivors met stages, leaf.name ∉ met := by
  fun_induction survivors met stages with
  | case1 => exact fun _ member => nomatch member
  | case2 met name steps stages again ih => exact ih
  | case3 met name steps stages fresh ih =>
    refine List.forall_mem_cons.mpr ⟨fresh, fun leaf member before => ?_⟩
    exact ih leaf member (Finset.mem_insert_of_mem before)
  | case4 met name branches stages again ih => exact ih
  | case5 met name branches stages fresh ih =>
    exact fun leaf member before => ih leaf member (Finset.mem_insert_of_mem before)

theorem nodup_survivors (met : Finset String) (stages : List Stage) :
    ((survivors met stages).map Leaf.name).Nodup := by
  fun_induction survivors met stages with
  | case1 => exact List.nodup_nil
  | case2 met name steps stages again ih => exact ih
  | case3 met name steps stages fresh ih =>
    refine List.nodup_cons.mpr ⟨fun again => ?_, ih⟩
    obtain ⟨leaf, member, same⟩ := List.mem_map.mp again
    exact fresh_of_survives leaf member (same ▸ Finset.mem_insert_self name met)
  | case4 met name branches stages again ih => exact ih
  | case5 met name branches stages fresh ih => exact ih

theorem fresh_insert {name : String} {others : List String} (distinct : (name :: others).Nodup)
    (fresh : ∀ other ∈ name :: others, other ∉ met) :
    name ∉ met ∧ others.Nodup ∧ ∀ other ∈ others, other ∉ insert name met := by
  rw [List.nodup_cons] at distinct
  rw [List.forall_mem_cons] at fresh
  refine ⟨fresh.1, distinct.2, fun other member again => ?_⟩
  rcases Finset.mem_insert.mp again with rfl | before
  · exact distinct.1 member
  · exact fresh.2 other member before

theorem survivors_of_nodup (distinct : (names stages).Nodup) (fresh : ∀ name ∈ names stages, name ∉ met) :
    survivors met stages = leaves stages := by
  fun_induction survivors met stages with
  | case1 => rfl
  | case2 met name steps stages again ih => exact absurd again (fresh_insert distinct fresh).1
  | case3 met name steps stages new ih =>
    obtain ⟨_, distinct, fresh⟩ := fresh_insert distinct fresh
    rw [ih distinct fresh, leaves]
    rfl
  | case4 met name branches stages again ih => exact absurd again (fresh_insert distinct fresh).1
  | case5 met name branches stages new ih =>
    rw [names, Stage.names, List.cons_append, ← names_append] at distinct fresh
    obtain ⟨_, distinct, fresh⟩ := fresh_insert distinct fresh
    rw [ih distinct fresh, leaves_append, leaves, Stage.leaves]

end Forest

mutual

theorem Stage.survivors_cons : (stage : Stage) → (met : List String) → (rest : List Stage) →
    Forest.survivors met.toFinset (stage :: rest) =
      Tip.leaves (stage.tips met) ++ Forest.survivors (stage.visit met).toFinset rest
  | .leaf name steps, met, rest => by
      rw [Forest.survivors, Stage.tips, Stage.visit]
      simp only [List.mem_toFinset]
      split_ifs
      · rfl
      · rw [List.toFinset_cons]
        rfl
  | .parallel name branches, met, rest => by
      rw [Forest.survivors, Stage.tips, Stage.visit]
      simp only [List.mem_toFinset]
      split_ifs
      · rfl
      · rw [← List.toFinset_cons]
        exact Forest.survivors_append branches (name :: met) rest

theorem Forest.survivors_append : (stages : List Stage) → (met : List String) → (rest : List Stage) →
    Forest.survivors met.toFinset (stages ++ rest) =
      Tip.leaves (Forest.tips met stages) ++ Forest.survivors (Forest.visit met stages).toFinset rest
  | [], met, rest => rfl
  | stage :: stages, met, rest => by
      rw [List.cons_append, stage.survivors_cons met, Forest.survivors_append stages, Forest.tips, Forest.visit,
        Tip.leaves_append, List.append_assoc]

end

theorem Forest.leaves_tips (stages : List Stage) : Tip.leaves (tips [] stages) = survivors ∅ stages := by
  have whole := survivors_append stages [] []
  rw [List.append_nil, survivors, List.append_nil] at whole
  exact whole.symm

namespace Placement

variable {α : Type} [Add α] [Min α] [Max α]

theorem leaf_foldl (metrics : Metrics α) (y : α) (row : Placement α) (stages : List Stage) :
    (stages.foldl (extend metrics y) row).nodes.map Node.leaf =
      row.nodes.map Node.leaf ++ Tip.leaves (Forest.tips row.met stages) := by
  induction stages generalizing row with
  | nil => exact (List.append_nil _).symm
  | cons stage stages ih =>
    have gains := gains_extend metrics stage y row
    obtain ⟨column, placed, leaves, _⟩ := gains.nodes
    rw [List.foldl_cons, ih, gains.met, placed, List.map_append, leaves, Forest.tips, Tip.leaves_append,
      List.append_assoc]

end Placement

namespace Chart

variable {α : Type} [Add α] [Min α] [Max α]

/-- No name is placed twice, and what is placed are the leaves that survive one traversal of the forest: all of them
where names differ. -/
theorem leaves_ofStages (metrics : Metrics α) (origin : Point α) (stages : List Stage) :
    let nodes := (ofStages metrics origin stages).nodes
    (nodes.map Node.name).Nodup ∧
      nodes.map Node.leaf = Forest.survivors ∅ stages ∧
      ((Forest.names stages).Nodup → nodes.map Node.leaf = Forest.leaves stages) := by
  intro nodes
  have placed : nodes.map Node.leaf = Forest.survivors ∅ stages := by
    rw [← Forest.leaves_tips]
    exact Placement.leaf_foldl metrics origin.y (.empty origin [] []) stages
  have names : nodes.map Node.name = (Forest.survivors ∅ stages).map Leaf.name := by
    rw [← placed, List.map_map]
    rfl
  refine ⟨?_, placed, fun distinct => placed.trans ?_⟩
  · rw [names]
    exact Forest.nodup_survivors ∅ stages
  · exact Forest.survivors_of_nodup distinct fun _ _ => Finset.notMem_empty _

/-- Names that differ at all levels: every leaf is placed, in the order of the forest. -/
theorem leaves_ofStages_distinct :
    let stages := [Stage.leaf "Build" ["make"],
      .parallel "Test" [.leaf "Unit" [], .parallel "Slow" [.leaf "Net" ["run"], .parallel "None" []]]]
    (Forest.names stages).Nodup ∧
      (ofStages Metrics.default .origin stages).nodes.map Node.leaf =
        [⟨"Build", ["make"]⟩, ⟨"Unit", []⟩, ⟨"Net", ["run"]⟩] := by
  intro stages
  have distinct : (Forest.names stages).Nodup := by decide
  exact ⟨distinct, (leaves_ofStages Metrics.default .origin stages).2.2 distinct⟩

end Chart

end PipelineChart
