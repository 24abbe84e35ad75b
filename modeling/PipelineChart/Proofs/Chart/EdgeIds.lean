import PipelineChart.Proofs.Chart.Forward

/-!
What the id of an edge tells. It joins the ids of both ends by a hyphen, and these hold hyphens themselves. Two edges
have one id if the source of one runs on into the target of the other, and in no other case unless their ends are
the same. As ids of nodes begin with `stage-`, this takes a node whose id holds `-stage-` somewhere; the hyphen behind
the word that it begins with may be the first of the two.
-/

namespace PipelineChart

namespace Edge

/-- The source of `other` is that of `edge` with a hyphen and some text behind it, and the target of `edge` is this
text with a hyphen and the target of `other` behind it. -/
def Overlaps (edge other : Edge) : Prop :=
  ∃ middle, other.source = edge.source ++ "-" ++ middle ∧ edge.target = middle ++ "-" ++ other.target

variable {edge other : Edge}

theorem toList_id (edge : Edge) :
    edge.id.toList = "e-".toList ++ (edge.source.toList ++ '-' :: edge.target.toList) := by
  simp [id, edgeId]

theorem Overlaps.source_ne (overlaps : edge.Overlaps other) : edge.source ≠ other.source := by
  obtain ⟨middle, longer, _⟩ := overlaps
  intro same
  have lengths := congrArg String.length (same.trans longer)
  simp only [String.length_append] at lengths
  have hyphen : "-".length = 1 := rfl
  omega

theorem Overlaps.id_eq (overlaps : edge.Overlaps other) : edge.id = other.id := by
  obtain ⟨middle, source, target⟩ := overlaps
  simp only [id, edgeId, source, target, String.append_assoc]

theorem eq_or_overlaps {more : List Char} (longer : other.source.toList = edge.source.toList ++ more)
    (behind : '-' :: edge.target.toList = more ++ '-' :: other.target.toList) :
    edge = other ∨ edge.Overlaps other := by
  cases more with
  | nil =>
    rw [List.append_nil, String.toList_inj] at longer
    have target := String.toList_inj.mp (List.cons.inj behind).2
    rw [mk.injEq]
    exact Or.inl ⟨longer.symm, target⟩
  | cons hyphen more =>
    obtain ⟨rfl, target⟩ := List.cons.inj behind
    refine Or.inr ⟨String.ofList more, ?_, ?_⟩
    · rw [← String.toList_inj, longer]
      simp
    · rw [← String.toList_inj, target]
      simp

theorem id_eq_iff : edge.id = other.id ↔ edge = other ∨ edge.Overlaps other ∨ other.Overlaps edge := by
  constructor
  · intro same
    rw [← String.toList_inj, toList_id, toList_id, List.append_cancel_left_eq] at same
    rcases List.append_eq_append_iff.mp same with ⟨more, longer, behind⟩ | ⟨more, longer, behind⟩
    · exact (eq_or_overlaps longer behind).imp_right Or.inl
    · exact (eq_or_overlaps longer behind).imp Eq.symm Or.inr
  · rintro (rfl | overlaps | overlaps)
    · rfl
    · exact overlaps.id_eq
    · exact overlaps.id_eq.symm

end Edge

namespace Node

variable {α : Type}

/-- Anywhere in the id the word that all ids begin with stands between hyphens. The first hyphen may be the one behind
the word that the id itself begins with. -/
def RepeatsWord (node : Node α) : Prop := "-stage-".toList <:+: node.id.toList

example : RepeatsWord (⟨"stage Lint", [], ⟨0, 0⟩⟩ : Node ℕ) :=
  ⟨"stage".toList, "Lint".toList, by decide +kernel⟩

theorem repeatsWord_of_overlaps {edge other : Edge} (overlaps : edge.Overlaps other) {target last : Node α}
    (ends : target.id = edge.target) (ends' : last.id = other.target) : target.RepeatsWord := by
  obtain ⟨middle, _, split⟩ := overlaps
  refine ⟨middle.toList, hyphenate false last.name.toList, ?_⟩
  rw [ends, split, ← ends', id, nodeId]
  simp

end Node

namespace Chart

variable {α : Type} [Add α] [Min α] [Max α]

/-- Two edges have one id exactly if they have the same ends or overlap. So ids tell edges apart exactly if no two edges
overlap, which takes an edge to a node whose id holds `-stage-` anywhere. -/
theorem edge_ids_iff (metrics : Metrics α) (origin : Point α) (stages : List Stage) :
    let chart := ofStages metrics origin stages
    (∀ edge ∈ chart.edges, ∀ other ∈ chart.edges, edge.id = other.id ↔
      (edge.source = other.source ∧ edge.target = other.target) ∨ edge.Overlaps other ∨ other.Overlaps edge) ∧
    ((∀ edge ∈ chart.edges, ∀ other ∈ chart.edges, edge.id = other.id →
      edge.source = other.source ∧ edge.target = other.target) ↔
        ∀ edge ∈ chart.edges, ∀ other ∈ chart.edges, ¬ edge.Overlaps other) ∧
    ∀ edge ∈ chart.edges, ∀ other ∈ chart.edges, edge.Overlaps other →
      ∃ node ∈ chart.nodes, node.id = edge.target ∧ node.RepeatsWord := by
  intro chart
  have same_iff (edge other : Edge) : edge = other ↔ edge.source = other.source ∧ edge.target = other.target := by
    rw [← Edge.mk.injEq]
  refine ⟨?_, ?_, ?_⟩
  · intro edge _ other _
    rw [Edge.id_eq_iff, same_iff]
  · constructor
    · intro told edge drawn other drawn' overlaps
      exact overlaps.source_ne (told edge drawn other drawn' overlaps.id_eq).1
    · intro apart edge drawn other drawn' same
      rcases Edge.id_eq_iff.mp same with equal | overlaps | overlaps
      · exact (same_iff edge other).mp equal
      · exact absurd overlaps (apart edge drawn other drawn')
      · exact absurd overlaps (apart other drawn' edge drawn)
  · intro edge drawn other drawn' overlaps
    have joins := joins_of_clears metrics.clears_true origin stages
    obtain ⟨_, j, _, _, ends, _⟩ := (joins edge drawn).exists_places
    obtain ⟨_, j', _, _, ends', _⟩ := (joins other drawn').exists_places
    exact ⟨_, List.getElem_mem j.2, ends, Node.repeatsWord_of_overlaps overlaps ends ends'⟩

/-- Four nodes of different ids, and two edges of one id: one from `Build` to `Test stage Lint`, the other from
`Build stage Test` to `Lint`. -/
theorem edge_id_shared :
    let chart := ofStages Metrics.default .origin [.leaf "Build" [], .leaf "Test stage Lint" [],
      .leaf "Build stage Test" [], .leaf "Lint" []]
    (chart.nodes.map Node.id).Nodup ∧ ¬ ∀ edge ∈ chart.edges, ∀ other ∈ chart.edges, edge.id = other.id →
      edge.source = other.source ∧ edge.target = other.target := by
  decide +kernel

end Chart

end PipelineChart
