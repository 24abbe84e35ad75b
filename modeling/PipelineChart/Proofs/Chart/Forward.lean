import Mathlib.Data.List.NodupEquivFin
import Mathlib.Logic.Relation
import PipelineChart.Proofs.Chart.Exact

/-!
Edges lead forward. Whatever is pending names a node that has been placed, so every edge begins at a node
that stands earlier in a chart than the one where it ends; and the earlier one ends, its spacing included,
before the later one begins. No edge dangles, and a chart whose ids differ has no cycle.
-/

namespace PipelineChart

variable {α : Type}

/-- The edge joins a node to a later one, and `clear` relates where the two stand on the x axis. -/
def Edge.Joins (clear : α → α → Prop) (nodes : List (Node α)) (edge : Edge) : Prop :=
  ∃ source target : Node α, [source, target].Sublist nodes ∧ edge = ⟨source.id, target.id⟩ ∧
    clear source.position.x target.position.x

theorem Edge.Joins.extend {clear : α → α → Prop} {nodes : List (Node α)} {edge : Edge}
    (joins : edge.Joins clear nodes) (more : List (Node α)) : edge.Joins clear (nodes ++ more) := by
  obtain ⟨source, target, placed, same, apart⟩ := joins
  exact ⟨source, target, placed.trans (List.sublist_append_left nodes more), same, apart⟩

theorem Edge.Joins.exists_places {clear : α → α → Prop} {nodes : List (Node α)} {edge : Edge}
    (joins : edge.Joins clear nodes) :
    ∃ i j : Fin nodes.length, i < j ∧ nodes[i].id = edge.source ∧ nodes[j].id = edge.target ∧
      clear nodes[i].position.x nodes[j].position.x := by
  obtain ⟨source, target, placed, rfl, apart⟩ := joins
  obtain ⟨place, places⟩ := List.sublist_iff_exists_fin_orderEmbedding_get_eq.mp placed
  have first : nodes[place 0] = source := (places 0).symm
  have second : nodes[place 1] = target := (places 1).symm
  refine ⟨place 0, place 1, place.lt_iff_lt.mpr Nat.zero_lt_one, ?_⟩
  rw [first, second]
  exact ⟨rfl, rfl, apart⟩

/-- A relation between x coordinates that holds from a node to the next column, and is kept when the
next column moves to the right. -/
structure Metrics.Clears [Add α] [Max α] (metrics : Metrics α) (clear : α → α → Prop) : Prop where
  pitch : ∀ x, clear x (x + metrics.pitch)
  max_left : ∀ {x left : α} (right : α), clear x left → clear x (max left right)
  max_right : ∀ {x right : α} (left : α), clear x right → clear x (max left right)

theorem Metrics.clears_true [Add α] [Max α] (metrics : Metrics α) : metrics.Clears fun _ _ => True :=
  ⟨fun _ => trivial, fun _ _ => trivial, fun _ _ => trivial⟩

namespace Placement

def Entered (clear : α → α → Prop) (nodes : List (Node α)) (x : α) (ids : List String) : Prop :=
  ∀ id ∈ ids, ∃ node ∈ nodes, node.id = id ∧ clear node.position.x x

/-- A placement that goes on from the nodes `before`: what is pending has been placed, and edges lead
forward. -/
structure Linked (clear : α → α → Prop) (before : List (Node α)) (placement : Placement α) : Prop where
  pending : Entered clear (before ++ placement.nodes) placement.nextX placement.pending
  edges : ∀ edge ∈ placement.edges, edge.Joins clear (before ++ placement.nodes)

variable {clear : α → α → Prop} {before : List (Node α)} {metrics : Metrics α}

theorem Entered.extend {nodes : List (Node α)} {x : α} {ids : List String}
    (entered : Entered clear nodes x ids) (more : List (Node α)) :
    Entered clear (nodes ++ more) x ids := by
  intro id member
  obtain ⟨node, placed, same, apart⟩ := entered id member
  exact ⟨node, List.mem_append_left more placed, same, apart⟩

theorem Entered.mono {nodes : List (Node α)} {x further : α} {ids : List String}
    (entered : Entered clear nodes x ids) (farther : ∀ {left : α}, clear left x → clear left further) :
    Entered clear nodes further ids := by
  intro id member
  obtain ⟨node, placed, same, apart⟩ := entered id member
  exact ⟨node, placed, same, farther apart⟩

theorem Entered.linked {start : Point α} {pending : List String}
    (entered : Entered clear before start.x pending) (met : List String) :
    Linked clear before (empty start pending met) where
  pending := by
    rw [empty, List.append_nil]
    exact entered
  edges := by simp [empty]

section

variable [Min α] [Max α]

theorem Linked.block {row stack : Placement α} (first : Linked clear before row)
    (second : Linked clear (before ++ row.nodes) stack) : Linked clear before (row.block stack) where
  pending := by
    have entered := second.pending
    rw [List.append_assoc] at entered
    exact entered
  edges := by
    intro edge member
    change edge.Joins clear (before ++ (row.nodes ++ stack.nodes))
    rw [← List.append_assoc]
    rcases List.mem_append.mp member with old | new
    · exact (first.edges edge old).extend stack.nodes
    · exact second.edges edge new

variable [Add α]

theorem Linked.beside (clears : metrics.Clears clear) {stack branch : Placement α}
    (first : Linked clear before stack) (second : Linked clear (before ++ stack.nodes) branch) :
    Linked clear before (stack.beside branch) where
  pending := by
    have above := (first.pending.extend branch.nodes).mono (clears.max_left branch.nextX)
    have below := second.pending.mono (clears.max_right stack.nextX)
    rw [List.append_assoc] at above below
    intro id member
    rcases List.mem_append.mp member with old | new
    · exact above id old
    · exact below id new
  edges := (first.block second).edges

/-- The node that is added is the last one, so what was pending stands before it. -/
theorem Linked.leaf (clears : metrics.Clears clear) {row : Placement α}
    (linked : Linked clear before row) (y : α) (name : String) (steps : List String) :
    Linked clear before (row.leaf metrics y name steps) where
  pending := by
    intro id member
    obtain rfl := List.mem_singleton.mp member
    refine ⟨⟨name, steps, ⟨row.nextX, y⟩⟩, ?_, rfl, clears.pitch row.nextX⟩
    exact List.mem_append_right _ (List.mem_append_right _ List.mem_cons_self)
  edges := by
    intro edge member
    change edge.Joins clear (before ++ (row.nodes ++ [⟨name, steps, ⟨row.nextX, y⟩⟩]))
    rw [← List.append_assoc]
    rcases List.mem_append.mp member with old | new
    · exact (linked.edges edge old).extend _
    · obtain ⟨id, waiting, rfl⟩ := List.mem_map.mp new
      obtain ⟨source, placed, rfl, apart⟩ := linked.pending id waiting
      have earlier : [source].Sublist (before ++ row.nodes) := List.singleton_sublist.mpr placed
      exact ⟨source, ⟨name, steps, ⟨row.nextX, y⟩⟩, earlier.append (List.Sublist.refl _), rfl, apart⟩

mutual

theorem linked_extend (clears : metrics.Clears clear) : (stage : Stage) → (y : α) →
    (before : List (Node α)) → (row : Placement α) → Linked clear before row →
    Linked clear before (extend metrics y row stage)
  | .leaf name steps, y, before, row, linked => by
      unfold extend
      split_ifs
      · exact linked
      · exact linked.leaf clears y name steps
  | .parallel name branches, y, before, row, linked => by
      unfold extend
      split_ifs
      · exact linked
      · apply linked.block
        have none : Entered clear (before ++ row.nodes) row.nextX [] := by simp [Entered]
        exact linked_stack clears branches row.nextX row.pending y _ _ linked.pending (none.linked _)

theorem linked_stack (clears : metrics.Clears clear) : (branches : List Stage) → (x : α) →
    (pending : List String) → (y : α) → (before : List (Node α)) → (above : Placement α) →
    Entered clear before x pending → Linked clear before above →
    Linked clear before (stack metrics x pending y above branches)
  | [], _, _, _, _, _, _, linked => by
      rw [stack]
      exact linked
  | branch :: branches, x, pending, y, before, above, entered, linked => by
      have begun : Linked clear (before ++ above.nodes) (empty ⟨x, y⟩ pending above.met) :=
        (entered.extend above.nodes).linked above.met
      have placed := linked_extend clears branch y (before ++ above.nodes) _ begun
      rw [stack]
      exact linked_stack clears branches x pending _ before _ entered (linked.beside clears placed)

end

theorem linked_row (clears : metrics.Clears clear) (origin : Point α) (stages : List Stage) :
    Linked clear [] (row metrics origin stages) := by
  have step : ∀ placed : Placement α, Linked clear [] placed →
      Linked clear [] (stages.foldl (extend metrics origin.y) placed) := by
    induction stages with
    | nil => exact fun _ linked => linked
    | cons stage stages ih =>
      intro placed linked
      exact ih _ (linked_extend clears stage origin.y [] placed linked)
  have none : Entered clear [] origin.x [] := by simp [Entered]
  exact step _ (none.linked [])

end

end Placement

namespace Chart

def Leads (chart : Chart α) (source target : String) : Prop := ⟨source, target⟩ ∈ chart.edges

def Acyclic (chart : Chart α) : Prop := ∀ id, ¬ Relation.TransGen chart.Leads id id

/-- Where ids differ, the place of an id grows along every edge. -/
theorem acyclic_of_joins {clear : α → α → Prop} {chart : Chart α}
    (forward : ∀ edge ∈ chart.edges, edge.Joins clear chart.nodes)
    (distinct : (chart.nodes.map Node.id).Nodup) : chart.Acyclic := by
  have rank {source target : String} (leads : chart.Leads source target) :
      (chart.nodes.map Node.id).idxOf source < (chart.nodes.map Node.id).idxOf target := by
    obtain ⟨i, j, later, rfl, rfl, _⟩ := (forward _ leads).exists_places
    have place (k : Fin chart.nodes.length) :
        (chart.nodes.map Node.id).idxOf chart.nodes[k].id = k := by
      have found := distinct.idxOf_getElem k (by simp)
      rwa [List.getElem_map] at found
    rw [place, place]
    exact later
  have ranks {source target : String} (path : Relation.TransGen chart.Leads source target) :
      (chart.nodes.map Node.id).idxOf source < (chart.nodes.map Node.id).idxOf target := by
    induction path with
    | single leads => exact rank leads
    | tail _ leads ih => exact ih.trans (rank leads)
  exact fun id cycle => (ranks cycle).false

theorem joins_of_clears [Add α] [Min α] [Max α] {metrics : Metrics α} {clear : α → α → Prop}
    (clears : metrics.Clears clear) (origin : Point α) (stages : List Stage) :
    ∀ edge ∈ (ofStages metrics origin stages).edges,
      edge.Joins clear (ofStages metrics origin stages).nodes :=
  (Placement.linked_row clears origin stages).edges

/-- Every edge leads from a node to a later one, in any numbers, and there is no cycle where ids differ;
in exact numbers the later node also stands a column further to the right, whatever the metrics are. -/
theorem edges_forward (stages : List Stage) :
    (∀ {α : Type} [Add α] [Min α] [Max α] (metrics : Metrics α) (origin : Point α),
      let chart := ofStages metrics origin stages
      (∀ edge ∈ chart.edges, ∃ i j : Fin chart.nodes.length, i < j ∧
        chart.nodes[i].id = edge.source ∧ chart.nodes[j].id = edge.target) ∧
      ((chart.nodes.map Node.id).Nodup → chart.Acyclic)) ∧
    ∀ (metrics : Metrics ℚ) (origin : Point ℚ),
      let chart := ofStages metrics origin stages
      ∀ edge ∈ chart.edges, ∃ i j : Fin chart.nodes.length, i < j ∧
        chart.nodes[i].id = edge.source ∧ chart.nodes[j].id = edge.target ∧
        chart.nodes[i].position.x + metrics.nodeWidth + metrics.horizontalSpacing ≤
          chart.nodes[j].position.x := by
  constructor
  · intro α _ _ _ metrics origin chart
    have joins := joins_of_clears metrics.clears_true origin stages
    refine ⟨fun edge member => ?_, acyclic_of_joins joins⟩
    obtain ⟨i, j, later, source, target, _⟩ := (joins edge member).exists_places
    exact ⟨i, j, later, source, target⟩
  · intro metrics origin chart edge member
    have clears : metrics.Clears fun left right => left + metrics.pitch ≤ right :=
      ⟨fun _ => le_rfl, fun _ apart => apart.trans (le_max_left _ _),
        fun _ apart => apart.trans (le_max_right _ _)⟩
    obtain ⟨i, j, later, source, target, apart⟩ :=
      (joins_of_clears clears origin stages edge member).exists_places
    refine ⟨i, j, later, source, target, ?_⟩
    rw [add_assoc]
    exact apart

/-- A branch without stages and a repeated one beside two leaves: what was pending is handed on. -/
theorem edges_forward_beside_gaps :
    let stages := [.leaf "Build" [], .parallel "Test" [.leaf "Unit" [], .parallel "None" [],
      .leaf "Build" [], .leaf "Lint" []], .leaf "Ship" []]
    let chart := ofStages Metrics.default.exact ⟨0, 0⟩ stages
    chart.edges = [⟨"stage-Build", "stage-Unit"⟩, ⟨"stage-Build", "stage-Lint"⟩,
      ⟨"stage-Unit", "stage-Ship"⟩, ⟨"stage-Build", "stage-Ship"⟩, ⟨"stage-Lint", "stage-Ship"⟩] ∧
    chart.Acyclic ∧
    ∃ i j : Fin chart.nodes.length, i < j ∧ chart.nodes[i].id = "stage-Lint" ∧
      chart.nodes[j].id = "stage-Ship" ∧
      chart.nodes[i].position.x + Metrics.default.exact.nodeWidth +
        Metrics.default.exact.horizontalSpacing ≤ chart.nodes[j].position.x := by
  intro stages chart
  have edges : chart.edges = [⟨"stage-Build", "stage-Unit"⟩, ⟨"stage-Build", "stage-Lint"⟩,
      ⟨"stage-Unit", "stage-Ship"⟩, ⟨"stage-Build", "stage-Ship"⟩, ⟨"stage-Lint", "stage-Ship"⟩] := by
    decide +kernel
  have distinct : (chart.nodes.map Node.id).Nodup := by decide +kernel
  obtain ⟨lists, exact⟩ := edges_forward stages
  refine ⟨edges, (lists Metrics.default.exact ⟨0, 0⟩).2 distinct, ?_⟩
  exact exact Metrics.default.exact ⟨0, 0⟩ ⟨"stage-Lint", "stage-Ship"⟩ (by rw [edges]; simp)

end Chart

end PipelineChart
