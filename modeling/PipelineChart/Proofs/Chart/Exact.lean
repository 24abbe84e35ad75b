import Mathlib.Algebra.Order.Field.Rat
import Mathlib.Tactic.NormNum
import Mathlib.Tactic.Positivity
import PipelineChart.Chart.Placement
import PipelineChart.Settings.Basic

/-!
Exact metrics. A finite number of a binary format stands for a rational, and finite numbers are
ordered as their rationals are. Metrics that pass their check keep nodes apart when they are read
exactly: nodes have a size and spacing is never negative.
-/

namespace PipelineChart

namespace Binary

variable {format : BinaryFormat}

def exact : Binary format → ℚ
  | nan => 0
  | infinite _ => 0
  | finite negative count _ => signed negative count / format.unit

theorem unit_pos (format : BinaryFormat) : (0 : ℚ) < format.unit := by
  have positive : 0 < format.unit := Nat.two_pow_pos _
  exact_mod_cast positive

theorem exact_zero : (0 : Binary format).exact = 0 := by
  change (signed false 0 : ℚ) / format.unit = 0
  simp [signed]

theorem lt_iff_exact {left right : Binary format} (first : left.isFinite) (second : right.isFinite) :
    left < right ↔ left.exact < right.exact := by
  cases left with
  | nan => cases first
  | infinite negative => cases first
  | finite negative count fits =>
    cases right with
    | nan => cases second
    | infinite other => cases second
    | finite other further room =>
      change decide (signed negative count < signed other further) = true ↔ _
      rw [decide_eq_true_iff, exact, exact, div_lt_div_iff_of_pos_right (unit_pos format)]
      norm_cast

end Binary

namespace Metrics

def exact (metrics : Metrics Single) : Metrics ℚ where
  nodeWidth := metrics.nodeWidth.exact
  nodeHeight := metrics.nodeHeight.exact
  horizontalSpacing := metrics.horizontalSpacing.exact
  verticalSpacing := metrics.verticalSpacing.exact

structure Roomy (metrics : Metrics ℚ) : Prop where
  width_pos : 0 < metrics.nodeWidth
  height_pos : 0 < metrics.nodeHeight
  horizontal_nonneg : 0 ≤ metrics.horizontalSpacing
  vertical_nonneg : 0 ≤ metrics.verticalSpacing

def drop {α : Type} [Add α] (metrics : Metrics α) : α := metrics.nodeHeight + metrics.verticalSpacing

theorem Roomy.pitch_pos {metrics : Metrics ℚ} (roomy : metrics.Roomy) : 0 < metrics.pitch :=
  add_pos_of_pos_of_nonneg roomy.width_pos roomy.horizontal_nonneg

theorem Roomy.drop_pos {metrics : Metrics ℚ} (roomy : metrics.Roomy) : 0 < metrics.drop :=
  add_pos_of_pos_of_nonneg roomy.height_pos roomy.vertical_nonneg

theorem finite_of_check {metrics : Metrics Single} (accepted : metrics.check = .ok ()) :
    ∀ field ∈ metrics.fields, field.2.isFinite := by
  unfold check at accepted
  split at accepted
  · cases accepted
  · rename_i absent
    intro field member
    simpa using List.find?_eq_none.mp absent field member

theorem sizes_of_check {metrics : Metrics Single} (accepted : metrics.check = .ok ()) :
    (0 < metrics.nodeWidth ∧ 0 < metrics.nodeHeight) ∧
      ¬(metrics.horizontalSpacing < 0 ∨ metrics.verticalSpacing < 0) := by
  unfold check at accepted
  split at accepted
  · cases accepted
  · split_ifs at accepted with size spacing
    exact ⟨size, spacing⟩

theorem exact_roomy {metrics : Metrics Single} (accepted : metrics.check = .ok ()) :
    metrics.exact.Roomy := by
  obtain ⟨⟨wide, high⟩, spaced⟩ := sizes_of_check accepted
  have finite := finite_of_check accepted
  simp only [fields, List.forall_mem_cons] at finite
  rcases finite with ⟨width, height, horizontal, vertical, _⟩
  have zero : (0 : Single).isFinite := rfl
  rw [not_or, Binary.lt_iff_exact horizontal zero, Binary.lt_iff_exact vertical zero,
    Binary.exact_zero, not_lt, not_lt] at spaced
  rw [Binary.lt_iff_exact zero width, Binary.exact_zero] at wide
  rw [Binary.lt_iff_exact zero height, Binary.exact_zero] at high
  exact ⟨wide, high, spaced.1, spaced.2⟩

end Metrics

end PipelineChart
