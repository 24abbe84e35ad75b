import Mathlib.Algebra.BigOperators.Group.List.Basic
import Mathlib.Data.List.Sublists
import Mathlib.Data.Nat.Choose.Basic
import Mathlib.Tactic.Ring
import PipelineChart.Proofs.Chart.Forward
import PipelineChart.Proofs.Chart.Traversal

/-!
Edges that occur more than once. Each stage that is passed over hands on a copy of what is pending, and
copies are not merged. So a node is joined to one of a later stage once for every way of going on through
the stages between them, and an edge is repeated where there are two ways or more.
-/

namespace PipelineChart

def Forest.columns (met : List String) : List Stage → List (List Tip)
  | [] => []
  | stage :: stages => stage.tips met :: Forest.columns (stage.visit met) stages

namespace Tip

variable {pending : List String} {tips : List Tip} {columns : List (List Tip)} {id : String}

def links (pending : List String) : List (List Tip) → List Edge
  | [] => []
  | tips :: columns => edges pending tips ++ links (handOn pending tips) columns

/-- In how many ways what is pending goes on through all columns. -/
def ways (columns : List (List Tip)) : Nat := (columns.map copies).prod

theorem count_handOn (id : String) (pending : List String) (tips : List Tip) :
    (handOn pending tips).count id = copies tips * pending.count id + (ids tips).count id := by
  induction tips with
  | nil => simp [handOn, copies, ids, leaves]
  | cons tip tips ih =>
    have rest : (handOn pending (tip :: tips)).count id =
        (waiting pending tip).count id + (handOn pending tips).count id := by
      rw [handOn, List.flatMap_cons, List.count_append]
      rfl
    cases tip with
    | passed =>
      have more : copies (passed :: tips) = copies tips + 1 := by simp [copies]
      rw [rest, ih, more, waiting, Nat.succ_mul]
      change _ = _ + (ids tips).count id
      omega
    | placed leaf =>
      have same : copies (placed leaf :: tips) = copies tips := by simp [copies]
      have new : (ids (placed leaf :: tips)).count id =
          [nodeId leaf.name].count id + (ids tips).count id := by
        rw [← List.count_append]
        rfl
      rw [rest, ih, same, new, waiting]
      omega

theorem count_foldl_handOn (absent : id ∉ columns.flatMap ids) (pending : List String) :
    (columns.foldl handOn pending).count id = ways columns * pending.count id := by
  induction columns generalizing pending with
  | nil => simp [ways]
  | cons tips columns ih =>
    rw [List.flatMap_cons, List.mem_append, not_or] at absent
    rw [List.foldl_cons, ih absent.2, count_handOn, List.count_eq_zero_of_not_mem absent.1]
    simp only [ways, List.map_cons, List.prod_cons]
    ring

theorem mem_of_mem_foldl_handOn (member : id ∈ columns.foldl handOn pending) :
    id ∈ pending ∨ id ∈ columns.flatMap ids := by
  by_contra absent
  rw [not_or] at absent
  have none := count_foldl_handOn absent.2 pending
  rw [List.count_eq_zero_of_not_mem absent.1, Nat.mul_zero] at none
  exact List.count_eq_zero.mp none member

theorem count_of_placed {before between : List (List Tip)}
    (distinct : ((before ++ tips :: between).flatMap ids).Nodup) (member : id ∈ ids tips) :
    ((before ++ tips :: between).foldl handOn []).count id = ways between := by
  simp only [List.flatMap_append, List.flatMap_cons, List.nodup_append, List.mem_append] at distinct
  obtain ⟨_, ⟨once, _, apart⟩, apart'⟩ := distinct
  have later : id ∉ between.flatMap ids := fun again => apart id member id again rfl
  have earlier : id ∉ before.foldl handOn [] := by
    intro again
    rcases mem_of_mem_foldl_handOn again with none | again
    · cases none
    · exact apart' id again id (Or.inl member) rfl
  rw [List.foldl_append, List.foldl_cons, count_foldl_handOn later, count_handOn,
    List.count_eq_zero_of_not_mem earlier, List.count_eq_one_of_mem once member]
  ring

theorem nodup_foldl_iff (distinct : (columns.flatMap ids).Nodup) : (columns.foldl handOn []).Nodup ↔
    ∀ before first between, columns = before ++ first :: between → ids first ≠ [] → ways between ≤ 1 := by
  rw [List.nodup_iff_count_le_one]
  constructor
  · intro once before first between split placed
    obtain ⟨id, member⟩ := List.exists_mem_of_ne_nil _ placed
    subst split
    rw [← count_of_placed distinct member]
    exact once id
  · intro single id
    by_cases member : id ∈ columns.foldl handOn []
    · rcases mem_of_mem_foldl_handOn member with none | placed
      · cases none
      · obtain ⟨first, column, within⟩ := List.mem_flatMap.mp placed
        obtain ⟨before, between, split⟩ := List.append_of_mem column
        subst split
        rw [count_of_placed distinct within]
        exact single before first between rfl (List.ne_nil_of_mem within)
    · rw [List.count_eq_zero_of_not_mem member]
      exact Nat.zero_le 1

theorem mem_edges {edge : Edge} (member : edge ∈ edges pending tips) : edge.target ∈ ids tips := by
  obtain ⟨target, placed, entered⟩ := List.mem_flatMap.mp member
  obtain ⟨source, _, rfl⟩ := List.mem_map.mp entered
  exact placed

theorem mem_links {edge : Edge} (member : edge ∈ links pending columns) :
    edge.target ∈ columns.flatMap ids := by
  induction columns generalizing pending with
  | nil => cases member
  | cons tips columns ih =>
    rw [List.flatMap_cons, List.mem_append]
    rcases List.mem_append.mp member with here | later
    · exact Or.inl (mem_edges here)
    · exact Or.inr (ih later)

theorem nodup_edges_iff (distinct : (ids tips).Nodup) :
    (edges pending tips).Nodup ↔ (ids tips ≠ [] → pending.Nodup) := by
  have injective (target : String) : Function.Injective fun source => Edge.mk source target :=
    fun _ _ same => congrArg Edge.source same
  rw [edges, List.nodup_flatMap]
  constructor
  · intro once placed
    obtain ⟨target, member⟩ := List.exists_mem_of_ne_nil _ placed
    exact (List.nodup_map_iff (injective target)).mp (once.1 target member)
  · intro once
    refine ⟨fun target member => ?_, distinct.imp fun different => ?_⟩
    · exact (List.nodup_map_iff (injective target)).mpr (once (List.ne_nil_of_mem member))
    · intro edge first second
      obtain ⟨source, _, rfl⟩ := List.mem_map.mp first
      obtain ⟨source', _, same⟩ := List.mem_map.mp second
      exact different (congrArg Edge.target same).symm

theorem nodup_links_iff (distinct : (columns.flatMap ids).Nodup) : (links pending columns).Nodup ↔
    ∀ before last after, columns = before ++ last :: after → ids last ≠ [] →
      (before.foldl handOn pending).Nodup := by
  induction columns generalizing pending with
  | nil => simp [links]
  | cons tips columns ih =>
    rw [List.flatMap_cons, List.nodup_append] at distinct
    have apart : ∀ edge ∈ edges pending tips, ∀ other ∈ links (handOn pending tips) columns,
        edge ≠ other := by
      intro edge here other later same
      exact distinct.2.2 _ (mem_edges here) _ (mem_links later) (congrArg Edge.target same)
    rw [links, List.nodup_append, nodup_edges_iff distinct.1, ih distinct.2.1]
    constructor
    · rintro ⟨first, others, _⟩ before last after split placed
      rcases List.cons_eq_append_iff.mp split with ⟨rfl, same⟩ | ⟨before', rfl, split'⟩
      · obtain ⟨rfl, _⟩ := List.cons.inj same
        exact first placed
      · exact others before' last after split' placed
    · intro once
      refine ⟨once [] tips columns rfl, fun before last after split placed => ?_, apart⟩
      exact once (tips :: before) last after (congrArg (tips :: ·) split) placed

end Tip

namespace Placement

variable {α : Type} [Add α] [Min α] [Max α] (metrics : Metrics α) (y : α)

theorem edges_foldl (row : Placement α) (stages : List Stage) :
    (stages.foldl (extend metrics y) row).edges =
      row.edges ++ Tip.links row.pending (Forest.columns row.met stages) := by
  induction stages generalizing row with
  | nil => exact (List.append_nil _).symm
  | cons stage stages ih =>
    have gains := gains_extend metrics stage y row
    rw [List.foldl_cons, ih, gains.edges, gains.pending, gains.met, List.append_assoc]
    rfl

theorem ids_foldl (row : Placement α) (stages : List Stage) :
    (stages.foldl (extend metrics y) row).nodes.map Node.id =
      row.nodes.map Node.id ++ (Forest.columns row.met stages).flatMap Tip.ids := by
  induction stages generalizing row with
  | nil => exact (List.append_nil _).symm
  | cons stage stages ih =>
    have gains := gains_extend metrics stage y row
    obtain ⟨column, placed, leaves, _⟩ := gains.nodes
    have ids : column.map Node.id = Tip.ids (stage.tips row.met) := by
      rw [Tip.ids, ← leaves, List.map_map]
      rfl
    rw [List.foldl_cons, ih, gains.met, placed, List.map_append, ids, List.append_assoc]
    rfl

end Placement

namespace Chart

variable {α : Type} {clear : α → α → Prop}

/-- Edges that lead forward and are not repeated are no more than the pairs of nodes. -/
theorem length_edges_le {chart : Chart α} (forward : ∀ edge ∈ chart.edges, edge.Joins clear chart.nodes)
    (once : chart.edges.Nodup) :
    chart.edges.length ≤ chart.nodes.length * (chart.nodes.length - 1) / 2 := by
  let ends (edge : Edge) : List String := [edge.source, edge.target]
  have injective : Function.Injective ends := by
    rintro ⟨source, target⟩ ⟨source', target'⟩ same
    simpa [ends] using same
  have pairs : chart.edges.map ends ⊆ (chart.nodes.map Node.id).sublistsLen 2 := by
    intro pair member
    obtain ⟨edge, drawn, rfl⟩ := List.mem_map.mp member
    obtain ⟨source, target, placed, rfl, _⟩ := forward edge drawn
    exact List.mem_sublistsLen.mpr ⟨placed.map Node.id, rfl⟩
  calc chart.edges.length = (chart.edges.map ends).length := (List.length_map ends).symm
    _ ≤ ((chart.nodes.map Node.id).sublistsLen 2).length :=
        ((once.map injective).subperm pairs).length_le
    _ = chart.nodes.length * (chart.nodes.length - 1) / 2 := by
        rw [List.length_sublistsLen, List.length_map, Nat.choose_two_right]

variable [Add α] [Min α] [Max α]

/-- Where ids differ, an edge is repeated exactly if two stages place a leaf and there is more than one way
through the stages between them; without repeated edges there is one at most between any two nodes. -/
theorem edges_nodup_iff (metrics : Metrics α) (origin : Point α) (stages : List Stage)
    (distinct : ((ofStages metrics origin stages).nodes.map Node.id).Nodup) :
    let chart := ofStages metrics origin stages
    (chart.edges.Nodup ↔ ∀ before first between last after,
      Forest.columns [] stages = before ++ first :: (between ++ last :: after) →
        Tip.leaves first ≠ [] → Tip.leaves last ≠ [] → Tip.ways between ≤ 1) ∧
    (chart.edges.Nodup →
      chart.edges.length ≤ chart.nodes.length * (chart.nodes.length - 1) / 2) := by
  intro chart
  have edges : chart.edges = Tip.links [] (Forest.columns [] stages) :=
    Placement.edges_foldl metrics origin.y (.empty origin [] []) stages
  have ids : chart.nodes.map Node.id = (Forest.columns [] stages).flatMap Tip.ids :=
    Placement.ids_foldl metrics origin.y (.empty origin [] []) stages
  have placed (tips : List Tip) : Tip.ids tips ≠ [] ↔ Tip.leaves tips ≠ [] := not_congr List.map_eq_nil_iff
  change (chart.nodes.map Node.id).Nodup at distinct
  rw [ids] at distinct
  constructor
  · rw [edges, Tip.nodup_links_iff distinct]
    constructor
    · intro once before first between last after split first' last'
      have split' : Forest.columns [] stages = (before ++ first :: between) ++ last :: after := by
        rw [split, List.append_assoc, List.cons_append]
      have single := once _ last after split' ((placed last).mpr last')
      rw [split', List.flatMap_append] at distinct
      exact (Tip.nodup_foldl_iff distinct.of_append_left).mp single before first between rfl
        ((placed first).mpr first')
    · intro single before last after split last'
      rw [split, List.flatMap_append] at distinct
      rw [Tip.nodup_foldl_iff distinct.of_append_left]
      intro front first between split' first'
      apply single front first between last after _ ((placed first).mp first') ((placed last).mp last')
      rw [split, split', List.append_assoc, List.cons_append]
  · exact length_edges_le (joins_of_clears metrics.clears_true origin stages)

/-- One stage is passed over, in a branch: what is pending goes on past the parallel stage in one way. -/
theorem edges_nodup_beside_passed_branch :
    let stages := [Stage.leaf "Build" [], .parallel "Test" [.leaf "Unit" [],
      .parallel "Again" [.leaf "Build" []], .parallel "None" [], .leaf "Lint" []], .leaf "Ship" []]
    let chart := ofStages Metrics.default .origin stages
    (chart.nodes.map Node.id).Nodup ∧
      Forest.columns [] stages = [[.placed ⟨"Build", []⟩],
        [.placed ⟨"Unit", []⟩, .passed, .placed ⟨"Lint", []⟩], [.placed ⟨"Ship", []⟩]] ∧
      chart.edges.Nodup ∧ chart.edges.length ≤ 4 * 3 / 2 ∧
      Tip.ways [[.placed ⟨"Unit", []⟩, .passed, .placed ⟨"Lint", []⟩]] ≤ 1 := by
  intro stages chart
  have distinct : (chart.nodes.map Node.id).Nodup := by decide +kernel
  have columns : Forest.columns [] stages = [[.placed ⟨"Build", []⟩],
      [.placed ⟨"Unit", []⟩, .passed, .placed ⟨"Lint", []⟩], [.placed ⟨"Ship", []⟩]] := by
    decide +kernel
  have once : chart.edges.Nodup := by decide +kernel
  obtain ⟨single, bound⟩ := edges_nodup_iff Metrics.default .origin stages distinct
  refine ⟨distinct, columns, once, bound once, ?_⟩
  exact single.mp once [] [.placed ⟨"Build", []⟩] _ [.placed ⟨"Ship", []⟩] [] columns (by decide) (by decide)

/-- Two branches that are passed over hand on what was pending twice: two nodes are joined by two edges. -/
theorem edge_repeated_behind_passed_branches :
    let chart := ofStages Metrics.default .origin
      [.leaf "A" [], .parallel "Test" [.leaf "A" [], .leaf "A" []], .leaf "B" []]
    (chart.nodes.map Node.id = ["stage-A", "stage-B"] ∧ (chart.nodes.map Node.id).Nodup) ∧
      chart.edges = [⟨"stage-A", "stage-B"⟩, ⟨"stage-A", "stage-B"⟩] ∧ ¬ chart.edges.Nodup ∧
      ¬ chart.edges.length ≤ chart.nodes.length * (chart.nodes.length - 1) / 2 := by
  decide +kernel

end Chart

end PipelineChart
