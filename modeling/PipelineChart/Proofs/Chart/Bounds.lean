import Mathlib.Data.List.Induction
import Mathlib.Order.Bounds.Basic
import Mathlib.Tactic.Linarith
import Mathlib.Tactic.Ring
import PipelineChart.Proofs.Chart.Exact
import PipelineChart.Proofs.Chart.Slots

/-!
The vertical bounds of a chart. Its upper bound is always the side of its origin, and its lower bound is where the
longest of its columns ends, empty slots included. So these are the sides of its highest and of its lowest node only
if no empty slot stands above the one or below the other; an empty slot is as high as the vertical spacing.
-/

namespace PipelineChart

theorem Metrics.Roomy.onward {metrics : Metrics ℚ} (roomy : metrics.Roomy) : metrics.Onward where
  pitch _ := le_add_of_nonneg_right roomy.pitch_pos.le
  nodeHeight _ := le_add_of_nonneg_right roomy.height_pos.le
  verticalSpacing _ := le_add_of_nonneg_right roomy.vertical_nonneg

def Forest.slotColumns (met : List String) : List Stage → List (List (Option Leaf))
  | [] => []
  | stage :: stages => stage.slots met :: Forest.slotColumns (stage.visit met) stages

theorem Stage.slots_ne_nil : (stage : Stage) → (met : List String) → stage.slots met ≠ []
  | .leaf name steps, met => by
      unfold Stage.slots
      split <;> exact List.cons_ne_nil _ _
  | .parallel name branches, met => by
      cases branches with
      | nil => exact List.cons_ne_nil _ _
      | cons branch branches =>
        unfold Stage.slots
        split
        · exact List.cons_ne_nil _ _
        · exact List.append_ne_nil_of_left_ne_nil (branch.slots_ne_nil _) _

theorem Forest.slotColumns_ne_nil (met : List String) (stages : List Stage) :
    ∀ slots ∈ slotColumns met stages, slots ≠ [] := by
  induction stages generalizing met with
  | nil => exact List.forall_mem_nil _
  | cons stage stages ih => exact List.forall_mem_cons.mpr ⟨stage.slots_ne_nil met, ih _⟩

namespace Placement

section

variable {α : Type} [Add α] {metrics : Metrics α}

def tops (metrics : Metrics α) : (y : α) → List (Option Leaf) → List α
  | _, [] => []
  | y, none :: slots => tops metrics (y + metrics.verticalSpacing) slots
  | y, some _ :: slots => y :: tops metrics (y + metrics.nodeHeight + metrics.verticalSpacing) slots

theorem y_slotNodes (metrics : Metrics α) (x y : α) (slots : List (Option Leaf)) :
    (slotNodes metrics x y slots).map (fun node => node.position.y) = tops metrics y slots := by
  induction slots generalizing y with
  | nil => rfl
  | cons slot slots ih =>
    cases slot with
    | none => exact ih _
    | some leaf => exact congrArg (y :: ·) (ih _)

theorem tops_append (metrics : Metrics α) (y : α) (slots others : List (Option Leaf)) :
    tops metrics y (slots ++ others) = tops metrics y slots ++ tops metrics (nextY metrics y slots) others := by
  induction slots generalizing y with
  | nil => rfl
  | cons slot slots ih =>
    cases slot with
    | none => exact ih _
    | some leaf => exact congrArg (y :: ·) (ih _)

theorem tops_ne_nil_iff {y : α} {slots : List (Option Leaf)} :
    tops metrics y slots ≠ [] ↔ ∃ leaf, some leaf ∈ slots := by
  induction slots generalizing y with
  | nil => simp [tops]
  | cons slot slots ih => cases slot <;> simp [tops, ih]

end

section

variable {α : Type} [LinearOrder α] [Add α] {metrics : Metrics α}

theorem le_nextY (onward : metrics.Onward) (y : α) (slots : List (Option Leaf)) : y ≤ nextY metrics y slots := by
  induction slots generalizing y with
  | nil => exact le_rfl
  | cons slot slots ih =>
    cases slot with
    | none => exact (onward.verticalSpacing y).trans (ih _)
    | some leaf => exact ((onward.nodeHeight y).trans (onward.verticalSpacing _)).trans (ih _)

theorem between_of_mem_tops (onward : metrics.Onward) {y : α} {slots : List (Option Leaf)} :
    ∀ top ∈ tops metrics y slots,
      y ≤ top ∧ top + metrics.nodeHeight + metrics.verticalSpacing ≤ nextY metrics y slots := by
  induction slots generalizing y with
  | nil => exact List.forall_mem_nil _
  | cons slot slots ih =>
    cases slot with
    | none => exact fun top member => ⟨(onward.verticalSpacing y).trans (ih top member).1, (ih top member).2⟩
    | some leaf =>
      refine List.forall_mem_cons.mpr ⟨⟨le_rfl, le_nextY onward _ slots⟩, fun top member => ?_⟩
      have further := (onward.nodeHeight y).trans (onward.verticalSpacing _)
      exact ⟨further.trans (ih top member).1, (ih top member).2⟩

/-- A stage comes to a row as it comes to an empty one that begins where the row has come to. -/
theorem extend_eq_block (metrics : Metrics α) (stage : Stage) {y : α} {row : Placement α} (upper : row.minY ≤ y)
    (lower : y ≤ row.maxY) : extend metrics y row stage =
      row.block (extend metrics y (empty ⟨row.nextX, y⟩ row.pending row.met) stage) := by
  have passed : row = row.block (empty ⟨row.nextX, y⟩ row.pending row.met) := by
    simp [block, empty, upper, lower]
  cases stage with
  | leaf name steps =>
    unfold extend
    split_ifs with again fresh fresh
    · exact passed
    · exact absurd again fresh
    · exact absurd fresh again
    · simp only [leaf, block, empty, List.nil_append, ← min_assoc, ← max_assoc, min_eq_left upper, max_eq_left lower]
  | parallel name branches =>
    unfold extend
    split_ifs with again fresh fresh
    · exact passed
    · exact absurd again fresh
    · exact absurd fresh again
    · simp only [block, empty, List.nil_append, ← min_assoc, ← max_assoc, min_eq_left upper, max_eq_left lower]

mutual

theorem minY_extend (onward : metrics.Onward) : (stage : Stage) → (y : α) → (row : Placement α) → row.minY ≤ y →
    (extend metrics y row stage).minY = row.minY
  | .leaf name steps, y, row, upper => by
      unfold extend
      split
      · rfl
      · exact min_eq_left upper
  | .parallel name branches, y, row, upper => by
      unfold extend
      split
      · rfl
      · have same := minY_stack onward branches row.nextX row.pending y
          (empty ⟨row.nextX, y⟩ [] (name :: row.met)) le_rfl
        exact (congrArg (min row.minY) same).trans (min_eq_left upper)

theorem minY_stack (onward : metrics.Onward) : (branches : List Stage) → (x : α) → (pending : List String) →
    (y : α) → (above : Placement α) → above.minY ≤ y →
    (stack metrics x pending y above branches).minY = above.minY
  | [], _, _, _, _, _ => rfl
  | branch :: branches, x, pending, y, above, upper => by
      have first := minY_extend onward branch y (empty ⟨x, y⟩ pending above.met) le_rfl
      have lower := ((fills_extend onward branch y (empty ⟨x, y⟩ pending above.met)).lower rfl).1
      rw [stack]
      generalize extend metrics y (empty ⟨x, y⟩ pending above.met) branch = placed at first lower ⊢
      have same : (above.beside placed).minY = above.minY :=
        (congrArg (min above.minY) first).trans (min_eq_left upper)
      rw [minY_stack onward branches x pending _ (above.beside placed), same]
      exact (same.le.trans upper).trans (lower.trans (onward.verticalSpacing _))

end

theorem minY_foldl (onward : metrics.Onward) {y : α} {row : Placement α} (upper : row.minY ≤ y)
    (stages : List Stage) : (stages.foldl (extend metrics y) row).minY = row.minY := by
  induction stages generalizing row with
  | nil => rfl
  | cons stage stages ih =>
    have same := minY_extend onward stage y row upper
    rw [List.foldl_cons, ih (same.le.trans upper), same]

theorem tops_foldl (onward : metrics.Onward) (y : α) (row : Placement α) (stages : List Stage) :
    (stages.foldl (extend metrics y) row).nodes.map (fun node => node.position.y) =
      row.nodes.map (fun node => node.position.y) ++
        (Forest.slotColumns row.met stages).flatMap (tops metrics y) := by
  induction stages generalizing row with
  | nil => exact (List.append_nil _).symm
  | cons stage stages ih =>
    have fills := fills_extend onward stage y row
    have met := (gains_extend metrics stage y row).met
    rw [List.foldl_cons, ih, met, fills.nodes, List.map_append, y_slotNodes, List.append_assoc]
    rfl

end

variable {metrics : Metrics ℚ}

/-- Where a column ends: the spacing behind its last slot is no part of it. -/
def foot (metrics : Metrics ℚ) (y : ℚ) (slots : List (Option Leaf)) : ℚ :=
  nextY metrics y slots - metrics.verticalSpacing

theorem maxY_extend (roomy : metrics.Roomy) (stage : Stage) {y : ℚ} {row : Placement ℚ} (upper : row.minY ≤ y)
    (lower : y ≤ row.maxY) :
    (extend metrics y row stage).maxY = max row.maxY (foot metrics y (stage.slots row.met)) := by
  have fills := (fills_extend roomy.onward stage y (empty ⟨row.nextX, y⟩ row.pending row.met)).lower rfl
  rw [extend_eq_block metrics stage upper lower, foot]
  exact congrArg (max row.maxY) (eq_sub_of_add_eq fills.2)

theorem maxY_foldl (roomy : metrics.Roomy) {y : ℚ} {row : Placement ℚ} (upper : row.minY ≤ y) (lower : y ≤ row.maxY)
    (stages : List Stage) : (stages.foldl (extend metrics y) row).maxY =
      ((Forest.slotColumns row.met stages).map (foot metrics y)).foldl max row.maxY := by
  induction stages generalizing row with
  | nil => rfl
  | cons stage stages ih =>
    have ends := maxY_extend roomy stage upper lower
    have met := (gains_extend metrics stage y row).met
    rw [List.foldl_cons, ih, met, ends]
    · rfl
    · exact (minY_extend roomy.onward stage y row upper).le.trans upper
    · rw [ends]
      exact lower.trans (le_max_left _ _)

theorem le_foot (roomy : metrics.Roomy) {y : ℚ} {slots : List (Option Leaf)} (nonempty : slots ≠ []) :
    y ≤ foot metrics y slots := by
  obtain ⟨slot, slots, rfl⟩ := List.exists_cons_of_ne_nil nonempty
  have height := roomy.height_pos
  cases slot with
  | none =>
    have further := le_nextY roomy.onward (y + metrics.verticalSpacing) slots
    rw [foot, nextY]
    linarith
  | some leaf =>
    have further := le_nextY roomy.onward (y + metrics.nodeHeight + metrics.verticalSpacing) slots
    rw [foot, nextY]
    linarith

theorem top_le_foot (roomy : metrics.Roomy) {y : ℚ} {slots : List (Option Leaf)} :
    ∀ top ∈ tops metrics y slots, top + metrics.nodeHeight ≤ foot metrics y slots := by
  intro top member
  have between := between_of_mem_tops roomy.onward top member
  rw [foot]
  linarith

theorem nextY_replicate (metrics : Metrics ℚ) (y : ℚ) (count : Nat) :
    nextY metrics y (List.replicate count none) = y + count * metrics.verticalSpacing := by
  induction count generalizing y with
  | zero => simp [nextY]
  | succ count ih =>
    rw [List.replicate_succ, nextY, ih]
    push_cast
    ring

theorem foot_eq_iff {y : ℚ} {slots : List (Option Leaf)} (nonempty : slots ≠ [])
    (vacant : ∀ leaf, some leaf ∉ slots) :
    foot metrics y slots = y ↔ metrics.verticalSpacing = 0 ∨ slots = [none] := by
  have none : ∀ slot ∈ slots, slot = none := fun slot member =>
    Option.eq_none_iff_forall_ne_some.mpr fun leaf same => vacant leaf (same ▸ member)
  have same := List.eq_replicate_of_mem none
  have room : foot metrics y slots = y ↔ (slots.length - 1 : ℚ) * metrics.verticalSpacing = 0 := by
    rw [foot, same, nextY_replicate, List.length_replicate]
    constructor <;> intro equal <;> linarith
  rw [room, mul_eq_zero, or_comm, sub_eq_zero, Nat.cast_eq_one, List.length_eq_one_iff]
  refine or_congr_right ⟨?_, fun single => ⟨_, single⟩⟩
  rintro ⟨slot, rfl⟩
  rw [none slot List.mem_cons_self]

theorem mem_tops_iff (roomy : metrics.Roomy) {y : ℚ} {slots : List (Option Leaf)} :
    y ∈ tops metrics y slots ↔ (∃ leaf rest, slots = some leaf :: rest) ∨
      metrics.verticalSpacing = 0 ∧ ∃ leaf, some leaf ∈ slots := by
  have spacing := roomy.vertical_nonneg
  induction slots generalizing y with
  | nil => simp [tops]
  | cons slot slots ih =>
    cases slot with
    | some leaf => simp [tops]
    | none =>
      rw [tops]
      constructor
      · intro member
        have further := (between_of_mem_tops roomy.onward y member).1
        have flat : metrics.verticalSpacing = 0 := by linarith
        obtain ⟨leaf, placed⟩ := tops_ne_nil_iff.mp (List.ne_nil_of_mem member)
        exact Or.inr ⟨flat, leaf, List.mem_cons_of_mem _ placed⟩
      · rintro (⟨leaf, rest, same⟩ | ⟨flat, leaf, member⟩)
        · cases same
        · have later : some leaf ∈ slots := by simpa using member
          rw [flat, add_zero]
          exact ih.mpr (Or.inr ⟨flat, leaf, later⟩)

theorem exists_foot_iff (roomy : metrics.Roomy) {y : ℚ} {slots : List (Option Leaf)} :
    (∃ top ∈ tops metrics y slots, top + metrics.nodeHeight = foot metrics y slots) ↔
      (∃ front leaf, slots = front ++ [some leaf]) ∨
        metrics.verticalSpacing = 0 ∧ ∃ leaf, some leaf ∈ slots := by
  have spacing := roomy.vertical_nonneg
  induction slots using List.reverseRecOn with
  | nil => simp [tops]
  | append_singleton front slot ih =>
    cases slot with
    | some leaf =>
      refine iff_of_true ⟨nextY metrics y front, ?_, ?_⟩ (Or.inl ⟨front, leaf, rfl⟩)
      · simp [tops_append, tops]
      · rw [foot, nextY_append, nextY, nextY]
        ring
    | none =>
      have ends : foot metrics y (front ++ [none]) = foot metrics y front + metrics.verticalSpacing := by
        rw [foot, foot, nextY_append, nextY, nextY]
        ring
      have same : tops metrics y (front ++ [none]) = tops metrics y front := by simp [tops_append, tops]
      rw [ends, same]
      constructor
      · rintro ⟨top, member, reached⟩
        have within := top_le_foot roomy top member
        have flat : metrics.verticalSpacing = 0 := by linarith
        obtain ⟨leaf, placed⟩ := tops_ne_nil_iff.mp (List.ne_nil_of_mem member)
        exact Or.inr ⟨flat, leaf, List.mem_append_left _ placed⟩
      · rintro (⟨other, leaf, last⟩ | ⟨flat, leaf, member⟩)
        · simp at last
        · have earlier : some leaf ∈ front := by simpa using member
          rw [flat, add_zero]
          exact ih.mpr (Or.inr ⟨flat, leaf, earlier⟩)

end Placement

namespace Chart

open Placement

/-- The bounds of a chart are the upper side of its highest node and the lower side of its lowest one, or both the side
of its origin if it has no nodes. -/
structure Tight (metrics : Metrics ℚ) (origin : Point ℚ) (chart : Chart ℚ) : Prop where
  upper : chart.nodes ≠ [] → IsLeast {y | ∃ node ∈ chart.nodes, node.position.y = y} chart.minY
  lower : chart.nodes ≠ [] →
    IsGreatest {y | ∃ node ∈ chart.nodes, node.position.y + metrics.nodeHeight = y} chart.maxY
  vacant : chart.nodes = [] → chart.minY = origin.y ∧ chart.maxY = origin.y

section

variable {metrics : Metrics ℚ} (roomy : metrics.Roomy) (origin : Point ℚ) (stages : List Stage)

include roomy

theorem tops_ofStages : (ofStages metrics origin stages).nodes.map (fun node => node.position.y) =
    (Forest.slotColumns [] stages).flatMap (tops metrics origin.y) :=
  tops_foldl roomy.onward origin.y (.empty origin [] []) stages

theorem minY_ofStages : (ofStages metrics origin stages).minY = origin.y := by
  have upper : (Placement.empty origin [] []).minY ≤ origin.y := le_rfl
  exact minY_foldl roomy.onward upper stages

theorem maxY_ofStages :
    let feet := (Forest.slotColumns [] stages).map (foot metrics origin.y)
    let low := (ofStages metrics origin stages).maxY
    low ∈ origin.y :: feet ∧ ∀ foot ∈ origin.y :: feet, foot ≤ low := by
  intro feet low
  have upper : (Placement.empty origin [] []).minY ≤ origin.y := le_rfl
  have lower : origin.y ≤ (Placement.empty origin [] []).maxY := le_rfl
  have ends : low = feet.foldl max origin.y := maxY_foldl roomy upper lower stages
  rw [← List.max?_eq_some_iff, List.max?_cons', ends]

theorem foot_le_maxY : ∀ slots ∈ Forest.slotColumns [] stages,
    foot metrics origin.y slots ≤ (ofStages metrics origin stages).maxY := fun _ member =>
  (maxY_ofStages roomy origin stages).2 _ (List.mem_cons_of_mem _ (List.mem_map_of_mem member))

theorem exists_node_iff (side : ℚ → Prop) :
    (∃ node ∈ (ofStages metrics origin stages).nodes, side node.position.y) ↔
      ∃ slots ∈ Forest.slotColumns [] stages, ∃ top ∈ tops metrics origin.y slots, side top := by
  have placed := tops_ofStages roomy origin stages
  constructor
  · rintro ⟨node, member, holds⟩
    have top := List.mem_map_of_mem (f := fun node : Node ℚ => node.position.y) member
    rw [placed] at top
    obtain ⟨slots, column, within⟩ := List.mem_flatMap.mp top
    exact ⟨slots, column, _, within, holds⟩
  · rintro ⟨slots, column, top, within, holds⟩
    have top := List.mem_flatMap_of_mem column within
    rw [← placed] at top
    obtain ⟨node, member, rfl⟩ := List.mem_map.mp top
    exact ⟨node, member, holds⟩

theorem exists_column {node : Node ℚ} (member : node ∈ (ofStages metrics origin stages).nodes) :
    ∃ slots ∈ Forest.slotColumns [] stages, node.position.y ∈ tops metrics origin.y slots := by
  obtain ⟨slots, column, top, within, rfl⟩ :=
    (exists_node_iff roomy origin stages (node.position.y = ·)).mp ⟨node, member, rfl⟩
  exact ⟨slots, column, within⟩

theorem nodes_eq_nil_iff : (ofStages metrics origin stages).nodes = [] ↔
    ∀ slots ∈ Forest.slotColumns [] stages, ∀ leaf, some leaf ∉ slots := by
  have none {slots : List (Option Leaf)} : tops metrics origin.y slots = [] ↔ ∀ leaf, some leaf ∉ slots := by
    rw [← not_iff_not, ← ne_eq, tops_ne_nil_iff, not_forall_not]
  rw [← List.map_eq_nil_iff (f := fun node : Node ℚ => node.position.y), tops_ofStages roomy,
    List.flatMap_eq_nil_iff]
  simp only [none]

theorem isLeast_minY_iff :
    IsLeast {y | ∃ node ∈ (ofStages metrics origin stages).nodes, node.position.y = y}
        (ofStages metrics origin stages).minY ↔
      ∃ slots ∈ Forest.slotColumns [] stages, origin.y ∈ tops metrics origin.y slots := by
  have below : origin.y ∈
      lowerBounds {y | ∃ node ∈ (ofStages metrics origin stages).nodes, node.position.y = y} := by
    rintro _ ⟨node, member, rfl⟩
    obtain ⟨slots, _, within⟩ := exists_column roomy origin stages member
    exact (between_of_mem_tops roomy.onward _ within).1
  rw [minY_ofStages roomy, IsLeast, and_iff_left below]
  refine (exists_node_iff roomy origin stages (· = origin.y)).trans ?_
  simp only [exists_eq_right]

theorem isGreatest_maxY_iff :
    IsGreatest {y | ∃ node ∈ (ofStages metrics origin stages).nodes, node.position.y + metrics.nodeHeight = y}
        (ofStages metrics origin stages).maxY ↔
      ∃ slots ∈ Forest.slotColumns [] stages,
        (∃ top ∈ tops metrics origin.y slots, top + metrics.nodeHeight = foot metrics origin.y slots) ∧
          ∀ other ∈ Forest.slotColumns [] stages, foot metrics origin.y other ≤ foot metrics origin.y slots := by
  have reaches := foot_le_maxY roomy origin stages
  constructor
  · rintro ⟨⟨node, member, lowest⟩, _⟩
    obtain ⟨slots, column, within⟩ := exists_column roomy origin stages member
    have ends : node.position.y + metrics.nodeHeight = foot metrics origin.y slots :=
      le_antisymm (top_le_foot roomy _ within) ((reaches slots column).trans lowest.ge)
    exact ⟨slots, column, ⟨_, within, ends⟩, fun other member => (reaches other member).trans
      (lowest.symm.trans ends).le⟩
  · rintro ⟨slots, column, ⟨top, within, ends⟩, longest⟩
    have last : (ofStages metrics origin stages).maxY = foot metrics origin.y slots := by
      refine le_antisymm ?_ (reaches slots column)
      rcases List.mem_cons.mp (maxY_ofStages roomy origin stages).1 with begun | reached
      · rw [begun]
        exact le_foot roomy (Forest.slotColumns_ne_nil [] stages slots column)
      · obtain ⟨other, member, same⟩ := List.mem_map.mp reached
        exact same.ge.trans (longest other member)
    refine ⟨?_, ?_⟩
    · rw [last]
      exact (exists_node_iff roomy origin stages (· + metrics.nodeHeight = _)).mpr ⟨slots, column, top, within, ends⟩
    · rintro _ ⟨node, member, rfl⟩
      obtain ⟨other, column', within'⟩ := exists_column roomy origin stages member
      exact (top_le_foot roomy _ within').trans (reaches other column')

theorem maxY_eq_iff : (ofStages metrics origin stages).maxY = origin.y ↔
    ∀ slots ∈ Forest.slotColumns [] stages, foot metrics origin.y slots = origin.y := by
  constructor
  · intro same slots column
    refine le_antisymm ?_ (le_foot roomy (Forest.slotColumns_ne_nil [] stages slots column))
    exact (foot_le_maxY roomy origin stages slots column).trans same.le
  · intro level
    rcases List.mem_cons.mp (maxY_ofStages roomy origin stages).1 with begun | reached
    · exact begun
    · obtain ⟨slots, column, same⟩ := List.mem_map.mp reached
      exact same.symm.trans (level slots column)

theorem maxY_eq_iff_of_vacant (vacant : (ofStages metrics origin stages).nodes = []) :
    (ofStages metrics origin stages).maxY = origin.y ↔
      metrics.verticalSpacing = 0 ∨ ∀ slots ∈ Forest.slotColumns [] stages, slots = [none] := by
  have empty := (nodes_eq_nil_iff roomy origin stages).mp vacant
  have nonempty := Forest.slotColumns_ne_nil [] stages
  have each : (∀ slots ∈ Forest.slotColumns [] stages, foot metrics origin.y slots = origin.y) ↔
      ∀ slots ∈ Forest.slotColumns [] stages, metrics.verticalSpacing = 0 ∨ slots = [none] :=
    forall₂_congr fun slots column => foot_eq_iff (nonempty slots column) (empty slots column)
  rw [maxY_eq_iff roomy, each]
  by_cases flat : metrics.verticalSpacing = 0 <;> simp [flat]

theorem exists_longest (flat : metrics.verticalSpacing = 0) (filled : (ofStages metrics origin stages).nodes ≠ []) :
    ∃ slots ∈ Forest.slotColumns [] stages, (∃ leaf, some leaf ∈ slots) ∧
      ∀ other ∈ Forest.slotColumns [] stages, foot metrics origin.y other ≤ foot metrics origin.y slots := by
  obtain ⟨node, member⟩ := List.exists_mem_of_ne_nil _ filled
  obtain ⟨column, among, within⟩ := exists_column roomy origin stages member
  have reaches := foot_le_maxY roomy origin stages
  have begun := (between_of_mem_tops roomy.onward _ within).1
  have ended := (top_le_foot roomy _ within).trans (reaches column among)
  have height := roomy.height_pos
  rcases List.mem_cons.mp (maxY_ofStages roomy origin stages).1 with same | reached
  · rw [same] at ended
    linarith
  · obtain ⟨slots, among', same⟩ := List.mem_map.mp reached
    refine ⟨slots, among', ?_, fun other member => (reaches other member).trans same.ge⟩
    by_contra empty
    have nonempty := Forest.slotColumns_ne_nil [] stages slots among'
    have level : foot metrics origin.y slots = origin.y :=
      (foot_eq_iff nonempty (not_exists.mp empty)).mpr (Or.inl flat)
    rw [← same, level] at ended
    linarith

end

/-- The bounds of a chart are those of its nodes exactly if empty slots take no room; or no column has more than one
slot, and that an empty one; or some column begins with a leaf, and some column that ends with a leaf is as long as
any. -/
theorem tight_iff {metrics : Metrics Single} (accepted : metrics.check = .ok ()) (origin : Point ℚ)
    (stages : List Stage) :
    let columns := Forest.slotColumns [] stages
    let foot := foot metrics.exact origin.y
    (ofStages metrics.exact origin stages).Tight metrics.exact origin ↔
      metrics.exact.verticalSpacing = 0 ∨ (∀ slots ∈ columns, slots = [none]) ∨
        (∃ leaf rest, some leaf :: rest ∈ columns) ∧
          ∃ front leaf, front ++ [some leaf] ∈ columns ∧
            ∀ other ∈ columns, foot other ≤ foot (front ++ [some leaf]) := by
  intro columns foot
  have roomy := Metrics.exact_roomy accepted
  have least := isLeast_minY_iff roomy origin stages
  have greatest := isGreatest_maxY_iff roomy origin stages
  simp only [mem_tops_iff roomy, exists_foot_iff roomy] at least greatest
  by_cases vacant : (ofStages metrics.exact origin stages).nodes = []
  · have none := (nodes_eq_nil_iff roomy origin stages).mp vacant
    have level := maxY_eq_iff_of_vacant roomy origin stages vacant
    have unplaced : ¬ ∃ leaf rest, some leaf :: rest ∈ columns := by
      rintro ⟨leaf, rest, member⟩
      exact none _ member leaf List.mem_cons_self
    rw [← or_assoc, or_iff_left (fun both => unplaced both.1), ← level]
    constructor
    · exact fun tight => (tight.vacant vacant).2
    · exact fun same => ⟨absurd vacant, absurd vacant, fun _ => ⟨minY_ofStages roomy origin stages, same⟩⟩
  · by_cases flat : metrics.exact.verticalSpacing = 0
    · obtain ⟨slots, column, placed, longest⟩ := exists_longest roomy origin stages flat vacant
      refine iff_of_true ⟨fun _ => ?_, fun _ => ?_, fun none => absurd none vacant⟩ (Or.inl flat)
      · exact least.mpr ⟨slots, column, Or.inr ⟨flat, placed⟩⟩
      · exact greatest.mpr ⟨slots, column, Or.inr ⟨flat, placed⟩, longest⟩
    · simp only [flat, false_and, or_false] at least greatest
      constructor
      · intro tight
        obtain ⟨_, column, leaf, rest, rfl⟩ := least.mp (tight.upper vacant)
        obtain ⟨_, column', ⟨front, last, rfl⟩, longest⟩ := greatest.mp (tight.lower vacant)
        exact Or.inr (Or.inr ⟨⟨leaf, rest, column⟩, front, last, column', longest⟩)
      · rintro (zero | single | ⟨⟨leaf, rest, column⟩, front, last, column', longest⟩)
        · exact absurd zero flat
        · refine absurd ((nodes_eq_nil_iff roomy origin stages).mpr fun slots member leaf placed => ?_) vacant
          rw [single slots member] at placed
          simp at placed
        · refine ⟨fun _ => ?_, fun _ => ?_, fun none => absurd none vacant⟩
          · exact least.mpr ⟨_, column, leaf, rest, rfl⟩
          · exact greatest.mpr ⟨_, column', ⟨front, last, rfl⟩, longest⟩

/-- An empty slot between two leaves, and a shorter column: no bound is moved. -/
theorem tight_around_gap :
    let stages := [Stage.parallel "Test" [.leaf "Unit" [], .parallel "None" [], .leaf "Lint" []], .leaf "Ship" []]
    Metrics.default.check = .ok () ∧
      (ofStages Metrics.default.exact ⟨0, 0⟩ stages).Tight Metrics.default.exact ⟨0, 0⟩ := by
  intro stages
  have accepted : Metrics.default.check = .ok () := by decide +kernel
  refine ⟨accepted, (tight_iff accepted ⟨0, 0⟩ stages).mpr (Or.inr (Or.inr ⟨?_, ?_⟩))⟩
  · exact ⟨⟨"Unit", []⟩, [none, some ⟨"Lint", []⟩], by decide +kernel⟩
  · exact ⟨[some ⟨"Unit", []⟩, none], ⟨"Lint", []⟩, by decide +kernel, by decide +kernel⟩

/-- Empty slots above and below the only node: the upper bound stands above it, and the lower bound below. -/
theorem bounds_beyond_node :
    let chart := ofStages Metrics.default.exact ⟨0, 0⟩
      [.parallel "Test" [.parallel "None" [], .leaf "Unit" [], .parallel "Nil" []]]
    Metrics.default.check = .ok () ∧ chart.nodes = [⟨"Unit", [], ⟨0, 80⟩⟩] ∧ chart.minY = 0 ∧ chart.maxY = 220 ∧
      80 + Metrics.default.exact.nodeHeight = 140 ∧ ¬ chart.Tight Metrics.default.exact ⟨0, 0⟩ := by
  intro chart
  have nodes : chart.nodes = [⟨"Unit", [], ⟨0, 80⟩⟩] := by decide +kernel
  have upper : chart.minY = 0 := by decide +kernel
  refine ⟨by decide +kernel, nodes, upper, by decide +kernel, by decide +kernel, fun tight => ?_⟩
  obtain ⟨node, member, highest⟩ := (tight.upper (by rw [nodes]; exact List.cons_ne_nil _ _)).1
  rw [nodes, List.mem_singleton] at member
  rw [member, upper] at highest
  norm_num at highest

end Chart

end PipelineChart
