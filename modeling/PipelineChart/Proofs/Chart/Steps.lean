import Mathlib.Data.List.Iterate
import Mathlib.Data.List.Nodup
import PipelineChart.Proofs.Binary.Extent
import PipelineChart.Proofs.Chart.Slots

/-!
Steps from node to node. A row goes on by one pitch for each of its stages, and a column by a node and the
spacing below it for each of its slots. So nodes are told apart by their positions as long as each further step
goes on to a finite extent, and leaves of names of their own need every one of these steps.
-/

namespace PipelineChart

/-- The first `count` steps go on, each to a finite number. -/
def Advances {α : Type} [LT α] (isFinite : α → Prop) (step : α → α) (start : α) (count : Nat) : Prop :=
  ∀ index < count, step^[index] start < step^[index + 1] start ∧ isFinite (step^[index + 1] start)

instance {α : Type} [LT α] [DecidableLT α] (isFinite : α → Prop) [DecidablePred isFinite] (step : α → α)
    (start : α) (count : Nat) : Decidable (Advances isFinite step start count) :=
  inferInstanceAs (Decidable (∀ index < count, _ ∧ _))

def Metrics.under {α : Type} [Add α] (metrics : Metrics α) (y : α) : α :=
  y + metrics.nodeHeight + metrics.verticalSpacing

def Metrics.across {α : Type} [Add α] (metrics : Metrics α) (x : α) : α := x + metrics.pitch

namespace Extent

variable {format : BinaryFormat} {step : Extent format → Extent format}

instance : Growing (Extent format) := ⟨add_le_add_right, le_add_right⟩

theorem isFinite_iterate {count : Nat} (advances : Advances IsFinite step 0 count) {index : Nat}
    (within : index ≤ count) : (step^[index] 0).IsFinite := by
  cases index with
  | zero => exact isFinite_zero
  | succ index => exact (advances index within).2

theorem iterate_lt {count : Nat} (advances : Advances IsFinite step 0 count) {index later : Nat}
    (before : index < later) (within : later ≤ count) : step^[index] 0 < step^[later] 0 := by
  induction later with
  | zero => exact absurd before (Nat.not_lt_zero _)
  | succ later ih =>
    have last := (advances later within).1
    rcases Nat.lt_succ_iff_lt_or_eq.mp before with earlier | rfl
    · exact (ih earlier (Nat.le_of_succ_le within)).trans last
    · exact last

/-- Where a step stands still, the steps from zero never get past. -/
theorem lt_step {count : Nat} (advances : Advances IsFinite step 0 count) (mono : Monotone step) {index : Nat}
    (within : index < count) {extent : Extent format} (reached : extent ≤ step^[index] 0) :
    extent < step extent := by
  by_contra still
  have stuck (index : Nat) : step^[index] 0 ≤ extent := by
    induction index with
    | zero => exact zero_le extent
    | succ index ih =>
      rw [Function.iterate_succ_apply']
      exact (mono ih).trans (not_lt.mp still)
  exact absurd ((advances index within).1.trans_le (stuck (index + 1))) (not_lt.mpr reached)

theorem advances_of_nodup (grows : ∀ extent, extent ≤ step extent) {count : Nat}
    (distinct : (List.iterate step 0 (count + 1)).Nodup)
    (finite : ∀ extent ∈ List.iterate step 0 (count + 1), extent.IsFinite) :
    Advances IsFinite step 0 count := by
  intro index within
  have length := List.length_iterate step 0 (count + 1)
  have different := List.pairwise_iff_getElem.mp distinct index (index + 1) (by omega) (by omega)
    (Nat.lt_succ_self index)
  rw [List.getElem_iterate, List.getElem_iterate] at different
  refine ⟨lt_of_le_of_ne ?_ different, finite _ (List.mem_iterate.mpr ⟨index + 1, by omega, rfl⟩)⟩
  rw [Function.iterate_succ_apply']
  exact grows _

theorem not_advances (step : Extent format → Extent format) :
    ¬ Advances IsFinite step 0 (format.limit + 1) := by
  intro advances
  have counts (index : Nat) (within : index ≤ format.limit + 1) : index ≤ (step^[index] 0).count := by
    induction index with
    | zero => exact Nat.zero_le _
    | succ index ih => exact Nat.lt_of_le_of_lt (ih (Nat.le_of_succ_le within)) (advances index within).1
  have bound := (step^[format.limit + 1] 0).bounded
  have reached := counts (format.limit + 1) le_rfl
  omega

end Extent

namespace Placement

open Growing

variable {format : BinaryFormat} {metrics : Metrics (Extent format)}

theorem under_mono (metrics : Metrics (Extent format)) : Monotone metrics.under := by
  intro y lower less
  have side := Growing.add_le_add_right less metrics.nodeHeight
  exact Growing.add_le_add_right side metrics.verticalSpacing

theorem le_under (metrics : Metrics (Extent format)) (y : Extent format) :
    y + metrics.verticalSpacing ≤ metrics.under y :=
  Growing.add_le_add_right (le_add_right y metrics.nodeHeight) metrics.verticalSpacing

theorem slotNodes_apart {rows : Nat} (down : Advances Extent.IsFinite metrics.under 0 rows) (x : Extent format)
    (slots : List (Option Leaf)) (y : Extent format) (index : Nat) (reached : y ≤ metrics.under^[index] 0)
    (room : index + slots.length ≤ rows + 1) :
    (∀ node ∈ slotNodes metrics x y slots, y ≤ node.position.y ∧ node.position.y.IsFinite) ∧
      (slotNodes metrics x y slots).Pairwise fun node other => node.position.y < other.position.y := by
  induction slots generalizing y index with
  | nil => exact ⟨List.forall_mem_nil _, List.Pairwise.nil⟩
  | cons slot slots ih =>
    rw [List.length_cons] at room
    have further : metrics.under y ≤ metrics.under^[index + 1] 0 := by
      rw [Function.iterate_succ_apply']
      exact under_mono metrics reached
    cases slot with
    | none =>
      obtain ⟨bounds, apart⟩ := ih (y + metrics.verticalSpacing) (index + 1)
        ((le_under metrics y).trans further) (by omega)
      exact ⟨fun node below => ⟨(le_add_right y _).trans (bounds node below).1, (bounds node below).2⟩, apart⟩
    | some leaf =>
      obtain ⟨bounds, apart⟩ := ih (metrics.under y) (index + 1) further (by omega)
      have grown : y ≤ metrics.under y := (le_add_right y _).trans (le_under metrics y)
      have finite : y.IsFinite := (Extent.isFinite_iterate down (by omega)).of_le reached
      refine ⟨List.forall_mem_cons.mpr ⟨⟨le_rfl, finite⟩, fun node below => ?_⟩,
        List.pairwise_cons.mpr ⟨fun node below => ?_, apart⟩⟩
      · exact ⟨grown.trans (bounds node below).1, (bounds node below).2⟩
      · have more : slots ≠ [] := by
          rintro rfl
          cases below
        have positive := List.length_pos_iff.mpr more
        have step := Extent.lt_step down (under_mono metrics) (show index < rows by omega) reached
        exact step.trans_le (bounds node below).1

structure Apart (metrics : Metrics (Extent format)) (count : Nat) (row : Placement (Extent format)) : Prop where
  columns : ∃ index ≤ count, row.nextX = metrics.across^[index] 0 ∧
    ∀ node ∈ row.nodes, ∃ earlier < index, node.position.x = metrics.across^[earlier] 0
  finite : ∀ node ∈ row.nodes, node.position.y.IsFinite
  apart : row.nodes.Pairwise fun node other => node.position ≠ other.position

theorem apart_empty (metrics : Metrics (Extent format)) : Apart metrics 0 (empty .origin [] []) where
  columns := ⟨0, le_rfl, rfl, List.forall_mem_nil _⟩
  finite := List.forall_mem_nil _
  apart := List.Pairwise.nil

theorem Apart.extend {columns rows count : Nat} (right : Advances Extent.IsFinite metrics.across 0 columns)
    (down : Advances Extent.IsFinite metrics.under 0 rows) {row : Placement (Extent format)}
    (placed : Apart metrics count row) (room : count ≤ columns) {stage : Stage} (low : stage.ends ≤ rows + 1) :
    Apart metrics (count + 1) (extend metrics 0 row stage) := by
  have fills := fills_extend (Growing.onward metrics) stage 0 row
  have short := (stage.length_slots row.met).trans low
  obtain ⟨bounds, apart⟩ := slotNodes_apart down row.nextX (stage.slots row.met) 0 0 le_rfl (by omega)
  obtain ⟨index, within, nextX, behind⟩ := placed.columns
  have aligned : ∀ node ∈ slotNodes metrics row.nextX 0 (stage.slots row.met), node.position.x = row.nextX :=
    x_of_mem_slotNodes
  refine ⟨?columns, ?finite, ?apart⟩
  case columns =>
    rw [fills.nodes, fills.nextX]
    unfold columnEnd
    cases filled : (stage.slots row.met).any Option.isSome with
    | false =>
      rw [slotNodes_eq_nil filled, List.append_nil]
      exact ⟨index, Nat.le_succ_of_le within, nextX, behind⟩
    | true =>
      refine ⟨index + 1, Nat.succ_le_succ within, ?_, List.forall_mem_append.mpr ⟨?_, ?_⟩⟩
      · rw [Function.iterate_succ_apply', ← nextX]
        rfl
      · intro node member
        obtain ⟨earlier, before, place⟩ := behind node member
        exact ⟨earlier, Nat.lt_succ_of_lt before, place⟩
      · intro node member
        exact ⟨index, Nat.lt_succ_self index, (aligned node member).trans nextX⟩
  case finite =>
    rw [fills.nodes]
    exact List.forall_mem_append.mpr ⟨placed.finite, fun node member => (bounds node member).2⟩
  case apart =>
    rw [fills.nodes, List.pairwise_append]
    refine ⟨placed.apart, apart.imp fun higher same => ?_, fun node member other added same => ?_⟩
    · exact absurd (congrArg Point.y same) higher.ne
    · obtain ⟨earlier, before, place⟩ := behind node member
      have left := Extent.iterate_lt right before (within.trans room)
      rw [← place, ← nextX, ← aligned other added] at left
      exact absurd (congrArg Point.x same) left.ne

theorem apart_foldl {columns rows : Nat} (right : Advances Extent.IsFinite metrics.across 0 columns)
    (down : Advances Extent.IsFinite metrics.under 0 rows) (stages : List Stage)
    (low : ∀ stage ∈ stages, stage.ends ≤ rows + 1) {count : Nat} {row : Placement (Extent format)}
    (placed : Apart metrics count row) (room : count + stages.length ≤ columns + 1) :
    Apart metrics (count + stages.length) (stages.foldl (Placement.extend metrics 0) row) := by
  induction stages generalizing count row with
  | nil => exact placed
  | cons stage stages ih =>
    rw [List.length_cons] at room ⊢
    rw [List.forall_mem_cons] at low
    have next := placed.extend right down (by omega) low.1
    have all := ih low.2 next (by omega)
    rwa [Nat.add_assoc, Nat.add_comm 1] at all

end Placement

/-! Stages that need every step: leaves of names of their own, in a row or below one another. -/

section

variable {α : Type} [Add α]

def Leaf.stage (leaf : Leaf) : Stage := .leaf leaf.name leaf.steps

def Leaf.numbered (count : Nat) : List Leaf :=
  (List.range count).map fun index => ⟨String.ofList (List.replicate index 'a'), []⟩

theorem Leaf.length_numbered (count : Nat) : (numbered count).length = count := by simp [numbered]

theorem Leaf.numbered_ne_nil (count : Nat) : (numbered (count + 1)).map Leaf.stage ≠ [] := by
  have length := length_numbered (count + 1)
  intro none
  rw [List.map_eq_nil_iff.mp none] at length
  cases length

theorem Leaf.nodup_numbered (count : Nat) : ((numbered count).map Leaf.name).Nodup := by
  unfold numbered
  rw [List.map_map]
  refine List.nodup_range.map fun index other same => ?_
  have letters := congrArg (fun name => name.toList.length) same
  simpa using letters

theorem Leaf.fresh_cons {leaf : Leaf} {leaves : List Leaf} {met : List String}
    (distinct : ((leaf :: leaves).map Leaf.name).Nodup) (fresh : ∀ other ∈ leaf :: leaves, other.name ∉ met) :
    leaf.name ∉ met ∧ (leaves.map Leaf.name).Nodup ∧ ∀ other ∈ leaves, other.name ∉ leaf.name :: met := by
  rw [List.forall_mem_cons] at fresh
  rw [List.map_cons, List.nodup_cons] at distinct
  refine ⟨fresh.1, distinct.2, fun other member again => ?_⟩
  rcases List.mem_cons.mp again with same | before
  · exact distinct.1 (same ▸ List.mem_map_of_mem member)
  · exact fresh.2 other member before

theorem Forest.slots_leaves (leaves : List Leaf) (met : List String) (distinct : (leaves.map Leaf.name).Nodup)
    (fresh : ∀ leaf ∈ leaves, leaf.name ∉ met) : Forest.slots met (leaves.map Leaf.stage) = leaves.map some := by
  induction leaves generalizing met with
  | nil => rfl
  | cons leaf leaves ih =>
    obtain ⟨new, distinct, fresh⟩ := Leaf.fresh_cons distinct fresh
    simp [Forest.slots, Stage.slots, Stage.visit, Leaf.stage, new, ih _ distinct fresh]

theorem Forest.ends_leaves (leaves : List Leaf) : Forest.ends (leaves.map Leaf.stage) = leaves.length := by
  induction leaves with
  | nil => rfl
  | cons leaf leaves ih =>
    rw [List.map_cons, Forest.ends, ih, List.length_cons, Nat.add_comm]
    rfl

namespace Placement

theorem position_slotNodes (metrics : Metrics α) (x y : α) (leaves : List Leaf) :
    (slotNodes metrics x y (leaves.map some)).map Node.position =
      (List.iterate metrics.under y leaves.length).map (⟨x, ·⟩) := by
  induction leaves generalizing y with
  | nil => rfl
  | cons leaf leaves ih => exact congrArg (_ :: ·) (ih _)

theorem position_foldl [Min α] [Max α] (metrics : Metrics α) (y : α) (leaves : List Leaf) (row : Placement α)
    (distinct : (leaves.map Leaf.name).Nodup) (fresh : ∀ leaf ∈ leaves, leaf.name ∉ row.met) :
    ((leaves.map Leaf.stage).foldl (extend metrics y) row).nodes.map Node.position =
      row.nodes.map Node.position ++ (List.iterate metrics.across row.nextX leaves.length).map (⟨·, y⟩) := by
  induction leaves generalizing row with
  | nil => exact (List.append_nil _).symm
  | cons leaf leaves ih =>
    obtain ⟨new, distinct, fresh⟩ := Leaf.fresh_cons distinct fresh
    have placed : extend metrics y row leaf.stage = row.leaf metrics y leaf.name leaf.steps := if_neg new
    rw [List.map_cons, List.foldl_cons, placed, ih _ distinct fresh]
    simp [Placement.leaf, List.iterate, Metrics.across]

end Placement

end

namespace Chart

variable {format : BinaryFormat} {metrics : Metrics (Extent format)}

structure Distinct (chart : Chart (Extent format)) : Prop where
  finite : ∀ node ∈ chart.nodes, node.position.x.IsFinite ∧ node.position.y.IsFinite
  apart : (chart.nodes.map Node.position).Nodup

theorem distinct_of_advances {columns rows : Nat}
    (right : Advances Extent.IsFinite metrics.across 0 columns)
    (down : Advances Extent.IsFinite metrics.under 0 rows) {stages : List Stage}
    (short : stages.length ≤ columns + 1) (low : ∀ stage ∈ stages, stage.ends ≤ rows + 1) :
    (ofStages metrics .origin stages).Distinct := by
  have placed := Placement.apart_foldl right down stages low (Placement.apart_empty metrics) (by omega)
  obtain ⟨index, within, _, behind⟩ := placed.columns
  refine ⟨fun node member => ⟨?_, placed.finite node member⟩, List.pairwise_map.mpr placed.apart⟩
  obtain ⟨earlier, before, place⟩ := behind node member
  rw [place]
  exact Extent.isFinite_iterate right (by omega)

theorem Distinct.finite_of_mem {chart : Chart (Extent format)} (distinct : chart.Distinct)
    {point : Point (Extent format)} (member : point ∈ chart.nodes.map Node.position) :
    point.x.IsFinite ∧ point.y.IsFinite := by
  obtain ⟨node, placed, rfl⟩ := List.mem_map.mp member
  exact distinct.finite node placed

theorem advances_across {count : Nat}
    (distinct : (ofStages metrics .origin ((Leaf.numbered (count + 1)).map Leaf.stage)).Distinct) :
    Advances Extent.IsFinite metrics.across 0 count := by
  have positions := Placement.position_foldl metrics 0 (Leaf.numbered (count + 1)) (.empty .origin [] [])
    (Leaf.nodup_numbered _) (by simp [Placement.empty])
  rw [Leaf.length_numbered] at positions
  change (ofStages metrics .origin _).nodes.map Node.position =
    (List.iterate metrics.across 0 (count + 1)).map (⟨·, 0⟩) at positions
  refine Extent.advances_of_nodup (fun x => Extent.le_add_right x _) ?_ fun x reached => ?_
  · exact List.Nodup.of_map _ (positions ▸ distinct.apart)
  · exact (distinct.finite_of_mem (positions ▸ List.mem_map_of_mem reached)).1

theorem advances_under {count : Nat}
    (distinct : (ofStages metrics .origin
      [.parallel "b" ((Leaf.numbered (count + 1)).map Leaf.stage)]).Distinct) :
    Advances Extent.IsFinite metrics.under 0 count := by
  have other : ∀ leaf ∈ Leaf.numbered (count + 1), leaf.name ∉ ["b"] := by
    intro leaf member same
    obtain ⟨index, _, rfl⟩ := List.mem_map.mp member
    have letters := congrArg String.toList (List.mem_singleton.mp same)
    rw [String.toList_ofList] at letters
    have all : ∀ letter ∈ "b".toList, letter = 'a' := letters ▸ fun _ => List.eq_of_mem_replicate
    exact absurd (all 'b' (by decide)) (by decide)
  have slots := Stage.slots_parallel (Leaf.numbered_ne_nil count) (List.not_mem_nil (a := "b"))
  rw [Forest.slots_leaves _ _ (Leaf.nodup_numbered _) other] at slots
  have fills := Placement.fills_extend (Growing.onward metrics)
    (.parallel "b" ((Leaf.numbered (count + 1)).map Leaf.stage)) 0 (.empty .origin [] [])
  have positions := Placement.position_slotNodes metrics 0 0 (Leaf.numbered (count + 1))
  rw [Leaf.length_numbered, ← slots] at positions
  have placed : (ofStages metrics .origin
      [.parallel "b" ((Leaf.numbered (count + 1)).map Leaf.stage)]).nodes.map Node.position =
      (List.iterate metrics.under 0 (count + 1)).map (⟨0, ·⟩) := positions ▸ congrArg _ fills.nodes
  refine Extent.advances_of_nodup (fun y => ?_) ?_ fun y reached => ?_
  · exact (Extent.le_add_right y _).trans (Placement.le_under metrics y)
  · exact List.Nodup.of_map _ (placed ▸ distinct.apart)
  · exact (distinct.finite_of_mem (placed ▸ List.mem_map_of_mem reached)).2

theorem advances_of_distinct {columns rows : Nat}
    (distinct : ∀ stages : List Stage, stages.length ≤ columns + 1 → (∀ stage ∈ stages, stage.ends ≤ rows + 1) →
      (ofStages metrics .origin stages).Distinct) :
    Advances Extent.IsFinite metrics.across 0 columns ∧ Advances Extent.IsFinite metrics.under 0 rows := by
  refine ⟨advances_across (distinct _ ?_ ?_), advances_under (distinct _ ?_ ?_)⟩
  · simp [Leaf.length_numbered]
  · intro stage member
    obtain ⟨leaf, _, rfl⟩ := List.mem_map.mp member
    exact Nat.succ_le_succ (Nat.zero_le rows)
  · exact Nat.succ_le_succ (Nat.zero_le columns)
  · intro stage member
    obtain rfl := List.mem_singleton.mp member
    rw [Stage.ends_parallel (Leaf.numbered_ne_nil rows), Forest.ends_leaves, Leaf.length_numbered]

end Chart

end PipelineChart
