import PipelineChart.Builder
import PipelineChart.Proofs.Chart.Carried
import PipelineChart.Proofs.Chart.Growth
import PipelineChart.Proofs.Chart.Steps

/-!
How large charts may grow. Metrics are checked one by one, but nodes stand where rounded sums of them lead, and
these come to a point where a step is lost or goes beyond the largest number. So whatever the metrics, charts of
some size have nodes that fall together or stand nowhere. How large charts may be is told by the steps from zero
alone, exactly.
-/

namespace PipelineChart

namespace Metrics

variable {metrics : Metrics Single}

def extents (metrics : Metrics Single) : Metrics (Extent .single) where
  nodeWidth := metrics.nodeWidth.extent
  nodeHeight := metrics.nodeHeight.extent
  horizontalSpacing := metrics.horizontalSpacing.extent
  verticalSpacing := metrics.verticalSpacing.extent

theorem carried_extents (accepted : metrics.check = .ok ()) :
    metrics.extents.Carried Extent.number Extent.number metrics := by
  obtain ⟨⟨wide, high⟩, spaced⟩ := sizes_of_check accepted
  have finite := finite_of_check accepted
  simp only [fields, List.forall_mem_cons] at finite
  obtain ⟨_, height, horizontal, vertical, _⟩ := finite
  have proper {number : Single} (finite : number.isFinite = true) : number.isNaN = false := by
    cases number <;> first | rfl | cases finite
  have pitch : metrics.extents.pitch.number = metrics.pitch := by
    have sum := Binary.number_add_extent metrics.nodeWidth.extent (proper horizontal)
      fun less => spaced (Or.inl less)
    rwa [Binary.number_extent wide] at sum
  refine ⟨fun x => ?_, Extent.number_max, fun y => ?_, fun y => ?_, Extent.number_min, Extent.number_max⟩
  · have sum := Binary.number_add_extent x (Extent.isNaN_number metrics.extents.pitch)
      (Binary.not_lt_of_lt (pitch ▸ pitch_pos accepted))
    rwa [Binary.extent_number, pitch] at sum
  · exact Binary.number_add_extent y (proper height) (Binary.not_lt_of_lt high)
  · exact Binary.number_add_extent y (proper vertical) fun less => spaced (Or.inr less)

end Metrics

theorem advances_number_iff {format : BinaryFormat} {step : Extent format → Extent format}
    {step' : Binary format → Binary format} (carried : ∀ extent, (step extent).number = step' extent.number)
    (count : Nat) :
    Advances (fun number : Binary format => number.isFinite = true) step' 0 count ↔
      Advances Extent.IsFinite step 0 count := by
  have iterates (index : Nat) : step'^[index] 0 = (step^[index] 0).number := by
    have semiconj : Function.Semiconj Extent.number step step' := carried
    rw [(semiconj.iterate_right index).eq, Extent.number_zero]
  simp only [Advances, iterates, Extent.number_lt_iff, Extent.isFinite_number]

namespace Chart

/-- All positions are finite, and no two of them are equal. -/
structure Usable (chart : Chart Single) : Prop where
  finite : ∀ node ∈ chart.nodes, node.position.x.isFinite ∧ node.position.y.isFinite
  apart : chart.nodes.Pairwise fun node other =>
    ¬ (node.position.x.same other.position.x ∧ node.position.y.same other.position.y)

theorem usable_map_iff {chart : Chart (Extent .single)} : (chart.map Extent.number).Usable ↔ chart.Distinct := by
  have apart (point other : Point (Extent .single)) :
      ¬ ((point.map Extent.number).x.same (other.map Extent.number).x = true ∧
        (point.map Extent.number).y.same (other.map Extent.number).y = true) ↔ point ≠ other := by
    cases point
    cases other
    simp [Point.map, Point.carry, Extent.same_number]
  constructor
  · rintro ⟨finite, different⟩
    refine ⟨fun node placed => ?_, List.pairwise_map.mpr ?_⟩
    · obtain ⟨right, down⟩ : node.position.x.number.isFinite ∧ node.position.y.number.isFinite :=
        finite _ (List.mem_map_of_mem placed)
      exact ⟨Extent.isFinite_number.mp right, Extent.isFinite_number.mp down⟩
    · exact (List.pairwise_map.mp different).imp (apart _ _).mp
  · rintro ⟨finite, different⟩
    refine ⟨fun node placed => ?_, List.pairwise_map.mpr ?_⟩
    · obtain ⟨source, member, rfl⟩ := List.mem_map.mp placed
      obtain ⟨right, down⟩ := finite source member
      exact ⟨Extent.isFinite_number.mpr right, Extent.isFinite_number.mpr down⟩
    · exact (List.pairwise_map.mp different).imp (apart _ _).mpr

end Chart

namespace Settings

variable {settings : Settings}

theorem chart_usable_iff (accepted : settings.metrics.check = .ok ()) (stages : List Stage) :
    (∀ chart, settings.chart stages = .ok chart → chart.Usable) ↔
      (Chart.ofStages settings.metrics.extents .origin stages).Distinct := by
  have start : Point.map Extent.number .origin = (.origin : Point Single) := by
    rw [Point.map, Point.carry, Point.origin, Extent.number_zero]
    rfl
  rw [← Chart.usable_map_iff, Chart.map_ofStages (Metrics.carried_extents accepted), start,
    chart_of_check accepted]
  simp

/-- Charts of a given size are usable exactly if each step to their right and lower ends goes on, to a finite
number. No choice of metrics lets charts of all sizes be so. -/
theorem usable_up_to_iff (accepted : settings.metrics.check = .ok ()) :
    (∀ columns rows : Nat,
      (∀ stages chart, stages.length ≤ columns + 1 → (∀ stage ∈ stages, stage.ends ≤ rows + 1) →
        settings.chart stages = .ok chart → chart.Usable) ↔
      Advances (fun x : Single => x.isFinite = true) settings.metrics.across 0 columns ∧
        Advances (fun y : Single => y.isFinite = true) settings.metrics.under 0 rows) ∧
    ∃ stages chart, settings.chart stages = .ok chart ∧ ¬ chart.Usable := by
  have carried := Metrics.carried_extents accepted
  have right (count : Nat) : Advances (fun x : Single => x.isFinite = true) settings.metrics.across 0 count ↔
      Advances Extent.IsFinite settings.metrics.extents.across 0 count :=
    advances_number_iff (fun x => carried.pitch x) count
  have down (count : Nat) : Advances (fun y : Single => y.isFinite = true) settings.metrics.under 0 count ↔
      Advances Extent.IsFinite settings.metrics.extents.under 0 count := by
    refine advances_number_iff (fun y => ?_) count
    rw [Metrics.under, carried.verticalSpacing, carried.nodeHeight]
    rfl
  constructor
  · intro columns rows
    rw [down]
    refine Iff.trans ?_ (and_congr_left fun _ => (right columns).symm)
    constructor
    · intro usable
      refine Chart.advances_of_distinct fun stages short low => ?_
      exact (chart_usable_iff accepted stages).mp fun chart drawn => usable stages chart short low drawn
    · rintro ⟨across, under⟩ stages chart short low drawn
      exact (chart_usable_iff accepted stages).mpr (Chart.distinct_of_advances across under short low) chart drawn
  · -- else the steps to the right would never come to an end, and there are not that many numbers
    by_contra none
    have all (stages : List Stage) : (Chart.ofStages settings.metrics.extents .origin stages).Distinct := by
      refine (chart_usable_iff accepted stages).mp fun chart drawn => ?_
      by_contra failing
      exact none ⟨stages, chart, drawn, failing⟩
    exact Extent.not_advances _ (Chart.advances_across (all _))

theorem usable_up_to_default :
    Settings.default.metrics.check = .ok () ∧
    ∀ stages chart, stages.length ≤ 21 → (∀ stage ∈ stages, stage.ends ≤ 11) →
      Settings.default.chart stages = .ok chart → chart.Usable := by
  have accepted : Settings.default.metrics.check = .ok () := by decide +kernel
  refine ⟨accepted, ((usable_up_to_iff accepted).1 20 10).mpr ⟨?_, ?_⟩⟩
  · decide +kernel
  · decide +kernel

/-- Three leaves under metrics that pass their check: the pitch goes beyond the largest number, so the second and
the third stand together at infinity. -/
theorem unusable_of_wide_nodes :
    let metrics : Metrics Single := ⟨.ofDecimal ⟨false, 3, 38⟩, .ofInt 60, .ofDecimal ⟨false, 3, 38⟩, .ofInt 80⟩
    let settings : Settings := { Settings.default with metrics }
    let stages := [Stage.leaf "A" [], .leaf "B" [], .leaf "C" []]
    settings.metrics.check = .ok () ∧ ∃ chart, settings.chart stages = .ok chart ∧
      chart.nodes.map Node.position = [⟨0, 0⟩, ⟨.infinite false, 0⟩, ⟨.infinite false, 0⟩] ∧
      (Binary.infinite false : Single).json = .null ∧ ¬ chart.Usable := by
  intro metrics settings stages
  have accepted : settings.metrics.check = .ok () := by decide +kernel
  have positions : (Chart.ofStages metrics .origin stages).nodes.map Node.position =
      [⟨0, 0⟩, ⟨.infinite false, 0⟩, ⟨.infinite false, 0⟩] := by decide +kernel
  refine ⟨accepted, _, chart_of_check accepted stages, positions, rfl, fun usable => ?_⟩
  have beyond : ⟨.infinite false, 0⟩ ∈ (Chart.ofStages metrics .origin stages).nodes.map Node.position := by
    rw [positions]
    simp
  obtain ⟨node, placed, place⟩ := List.mem_map.mp beyond
  have finite := (usable.finite node placed).1
  rw [place] at finite
  cases finite

end Settings

end PipelineChart
