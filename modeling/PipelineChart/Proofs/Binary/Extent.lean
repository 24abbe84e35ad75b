import Mathlib.Order.Lattice
import PipelineChart.Proofs.Binary.Order

/-!
Extents: the numbers from zero on, with infinity as the largest. They are in the order of their counts, and a
sum is the rounded sum of the counts, as long as it stays below infinity. So sums keep the order, and they never
go back.
-/

namespace PipelineChart

theorem quotientToEven_mono {dividend larger : Nat} (less : dividend ≤ larger) (divisor : Nat) :
    quotientToEven dividend divisor ≤ quotientToEven larger divisor := by
  rcases Nat.eq_or_lt_of_le (Nat.div_le_div_right (c := divisor) less) with same | below
  · have rest : dividend % divisor ≤ larger % divisor := by
      have first := Nat.div_add_mod dividend divisor
      have second := Nat.div_add_mod larger divisor
      rw [same] at first
      omega
    unfold quotientToEven
    rw [same]
    dsimp only
    split_ifs <;> omega
  · exact (quotientToEven_le dividend divisor).trans (below.trans_le (le_quotientToEven larger divisor))

namespace BinaryFormat

variable (format : BinaryFormat)

/-- Between numbers of different length stands a power of two, which neither is rounded past. -/
theorem round_mono {value larger : Nat} (less : value ≤ larger) :
    format.round value 1 ≤ format.round larger 1 := by
  rcases Nat.eq_or_lt_of_le (log2_le_log2 less) with same | lower
  · have gap : format.gap value = format.gap larger := by rw [gap, gap, same]
    rw [round_one, round_one, gap]
    exact Nat.mul_le_mul_right _ (quotientToEven_mono less _)
  · have visible : larger ≠ 0 := by
      rintro rfl
      exact absurd lower (Nat.not_lt_zero _)
    have power : value ≤ 2 ^ larger.log2 :=
      (Nat.lt_log2_self.trans_le (Nat.pow_le_pow_right Nat.two_pos lower)).le
    calc format.round value 1 ≤ 2 ^ larger.log2 :=
          round_le_of_dvd (format.gap_dvd_power lower.le) power
      _ ≤ format.round larger 1 :=
          le_round_of_dvd (format.gap_dvd_power (Nat.le_refl _)) (Nat.log2_self_le visible)

theorem gap_dvd_limit : format.gap format.limit ∣ format.limit := by
  have bits : format.limit.log2 = format.top := Nat.log2_two_pow
  exact format.gap_dvd_power (Nat.le_of_eq bits)

end BinaryFormat

@[ext]
structure Extent (format : BinaryFormat) where
  count : Nat
  bounded : count ≤ format.limit
  precise : format.gap count ∣ count

namespace Extent

variable {format : BinaryFormat}

instance : LinearOrder (Extent format) := LinearOrder.lift' count fun _ _ => Extent.ext

instance : Zero (Extent format) := ⟨⟨0, Nat.zero_le _, Nat.dvd_zero _⟩⟩

def infinite : Extent format := ⟨format.limit, Nat.le_refl _, format.gap_dvd_limit⟩

def round (count : Nat) : Extent format where
  count := min format.limit (format.round count 1)
  bounded := Nat.min_le_left _ _
  precise := by
    rcases Nat.le_total format.limit (format.round count 1) with beyond | within
    · rw [Nat.min_eq_left beyond]
      exact format.gap_dvd_limit
    · rw [Nat.min_eq_right within]
      exact format.gap_dvd_round count 1

instance : Add (Extent format) := ⟨fun first second => round (first.count + second.count)⟩

theorem zero_le (extent : Extent format) : 0 ≤ extent := Nat.zero_le extent.count

theorem add_le_add_right {first second : Extent format} (less : first ≤ second) (further : Extent format) :
    first + further ≤ second + further :=
  have counts : first.count + further.count ≤ second.count + further.count := Nat.add_le_add_right less _
  Nat.le_min.mpr ⟨Nat.min_le_left _ _, (Nat.min_le_right _ _).trans (format.round_mono counts)⟩

theorem le_add_right (extent further : Extent format) : extent ≤ extent + further :=
  have rounded : extent.count ≤ format.round (extent.count + further.count) 1 :=
    BinaryFormat.le_round_of_gap_dvd extent.precise (Nat.le_add_right _ _)
  Nat.le_min.mpr ⟨extent.bounded, rounded⟩

def IsFinite (extent : Extent format) : Prop := extent.count < format.limit

theorem IsFinite.of_le {extent larger : Extent format} (finite : larger.IsFinite) (less : extent ≤ larger) :
    extent.IsFinite := Nat.lt_of_le_of_lt less finite

theorem isFinite_zero : (0 : Extent format).IsFinite := Nat.two_pow_pos _

theorem fits_of_lt {extent : Extent format} (below : extent.count < format.limit) :
    format.Fits extent.count := ⟨below, extent.precise⟩

def number (extent : Extent format) : Binary format :=
  if below : extent.count < format.limit then .finite false extent.count (fits_of_lt below)
  else .infinite false

theorem number_of_lt {extent : Extent format} (below : extent.count < format.limit) :
    extent.number = .finite false extent.count (fits_of_lt below) := dif_pos below

theorem number_infinite : (infinite : Extent format).number = .infinite false :=
  dif_neg (Nat.lt_irrefl _)

theorem cases_number (extent : Extent format) : extent = infinite ∨ extent.count < format.limit := by
  rcases Nat.eq_or_lt_of_le extent.bounded with same | below
  · exact Or.inl (Extent.ext same)
  · exact Or.inr below

theorem number_zero : (0 : Extent format).number = 0 := number_of_lt (Nat.two_pow_pos _)

theorem isFinite_number {extent : Extent format} : extent.number.isFinite = true ↔ extent.IsFinite := by
  unfold number IsFinite
  split_ifs with below
  · simpa [Binary.isFinite] using below
  · simpa [Binary.isFinite] using below

theorem isNaN_number (extent : Extent format) : extent.number.isNaN = false := by
  unfold number
  split_ifs <;> rfl

theorem number_lt_iff {first second : Extent format} : first.number < second.number ↔ first < second := by
  rcases first.cases_number with rfl | below
  · have top : ¬ infinite < second := Nat.not_lt.mpr second.bounded
    rw [number_infinite]
    refine ⟨fun less => ?_, fun less => absurd less top⟩
    unfold number at less
    split_ifs at less <;> cases less
  · rcases second.cases_number with rfl | below'
    · rw [number_infinite, number_of_lt below]
      exact ⟨fun _ => below, fun _ => rfl⟩
    · rw [number_of_lt below, number_of_lt below', Binary.finite_lt_iff]
      exact Int.ofNat_lt

theorem number_max (first second : Extent format) :
    (max first second).number = max first.number second.number := by
  change _ = Binary.greatest first.number second.number
  unfold Binary.greatest
  rw [isNaN_number, if_neg Bool.false_ne_true]
  split_ifs with less
  · rw [max_eq_right (number_lt_iff.mp less).le]
  · rw [max_eq_left (not_lt.mp fun less' => less (number_lt_iff.mpr less'))]

theorem number_min (first second : Extent format) :
    (min first second).number = min first.number second.number := by
  change _ = Binary.least first.number second.number
  unfold Binary.least
  rw [isNaN_number, if_neg Bool.false_ne_true]
  split_ifs with less
  · rw [min_eq_right (number_lt_iff.mp less).le]
  · rw [min_eq_left (not_lt.mp fun less' => less (number_lt_iff.mpr less'))]

theorem same_number {first second : Extent format} :
    first.number.same second.number = true ↔ first = second := by
  simp only [Binary.same, isNaN_number, number_lt_iff, Bool.not_false, Bool.true_and, Bool.and_eq_true,
    Bool.not_eq_true', decide_eq_false_iff_not, not_lt]
  exact ⟨fun orders => le_antisymm orders.2 orders.1, fun same => ⟨same.ge, same.le⟩⟩

theorem number_round (count : Nat) :
    (round count : Extent format).number = Binary.ofQuotient false count 1 := by
  have reached : (round count : Extent format).count = min format.limit (format.round count 1) := rfl
  rcases Binary.ofQuotient_cases format false count with ⟨beyond, sum⟩ | ⟨fits, sum⟩
  · have top : (round count : Extent format) = infinite :=
      Extent.ext (reached.trans (Nat.min_eq_left beyond))
    rw [sum, top, number_infinite]
  · have within := reached.trans (Nat.min_eq_right fits.1.le)
    rw [sum, number_of_lt (within ▸ fits.1)]
    simp only [within]

theorem add_infinite (extent : Extent format) : extent + infinite = infinite := by
  have swapped : extent + infinite = infinite + extent := congrArg round (Nat.add_comm ..)
  rw [swapped]
  exact le_antisymm (bounded _) (le_add_right infinite extent)

theorem infinite_add (extent : Extent format) : infinite + extent = infinite :=
  le_antisymm (bounded _) (le_add_right infinite extent)

end Extent

namespace Binary

variable {format : BinaryFormat}

def extent : Binary format → Extent format
  | finite _ count fits => ⟨count, fits.1.le, fits.2⟩
  | _ => .infinite

theorem extent_number (extent : Extent format) : extent.number.extent = extent := by
  rcases extent.cases_number with rfl | below
  · rw [Extent.number_infinite]
    rfl
  · rw [Extent.number_of_lt below]
    rfl

theorem number_extent {number : Binary format} (positive : 0 < number) : number.extent.number = number := by
  cases number with
  | nan => cases positive
  | infinite negative =>
    obtain rfl := positive_of_lt positive
    exact Extent.number_infinite
  | finite negative count fits =>
    obtain ⟨rfl, _⟩ := pos_finite positive
    exact Extent.number_of_lt fits.1

theorem number_add_extent (extent : Extent format) {further : Binary format} (proper : further.isNaN = false)
    (nonneg : ¬ further < 0) : (extent + further.extent).number = extent.number + further := by
  cases further with
  | nan => cases proper
  | infinite negative =>
    cases negative with
    | true => exact absurd rfl nonneg
    | false =>
      refine (congrArg Extent.number extent.add_infinite).trans (Extent.number_infinite.trans ?_)
      unfold Extent.number
      split_ifs <;> rfl
  | finite negative count fits =>
    rcases extent.cases_number with rfl | below
    · rw [Extent.infinite_add, Extent.number_infinite]
      rfl
    · have sum : signed false extent.count + signed negative count = (extent.count + count : Nat) := by
        have least : ¬ signed negative count < 0 := fun less => nonneg (finite_lt_iff.mpr less)
        cases negative with
        | false => simp
        | true =>
          rw [signed_true] at least ⊢
          rw [signed_false]
          omega
      refine (Extent.number_round _).trans ?_
      change ofQuotient false (extent.count + count) 1 = _
      rw [Extent.number_of_lt below]
      rcases Nat.eq_zero_or_pos (extent.count + count) with zero | visible
      · have nothing : format.round 0 1 = 0 :=
          Nat.le_zero.mp (BinaryFormat.round_le format.zero_fits (Nat.le_refl 0))
        rw [add_finite, if_pos (by omega), zero, Bool.false_and]
        rcases ofQuotient_cases format false 0 with ⟨beyond, _⟩ | ⟨room, rounded⟩
        · rw [nothing] at beyond
          exact absurd beyond (Nat.not_le.mpr (Nat.two_pow_pos _))
        · rw [rounded]
          simp only [nothing]
      · rw [add_of_sum_pos sum visible]

end Binary

end PipelineChart
