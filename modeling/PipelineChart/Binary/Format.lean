/-!
Binary formats and rounding. A format counts in units of `2 ^ -scale`; a count fits where it needs
no more than `precision` significant bits and stays below `2 ^ top`. Rounding takes a quotient to the
nearest count of that precision, and a quotient halfway between two to the even one.
-/

namespace PipelineChart

structure BinaryFormat where
  precision : Nat
  scale : Nat
  top : Nat
  precise : 0 < precision

namespace BinaryFormat

def single : BinaryFormat := ⟨24, 149, 277, by decide⟩

def double : BinaryFormat := ⟨53, 1074, 2098, by decide⟩

def unit (format : BinaryFormat) : Nat := Nat.pow 2 format.scale

/-- No finite number has this many units, nor more. -/
def limit (format : BinaryFormat) : Nat := Nat.pow 2 format.top

def dense (format : BinaryFormat) : Nat := Nat.pow 2 format.precision

/-- The distance between neighbouring counts as large as `count`. -/
def gap (format : BinaryFormat) (count : Nat) : Nat :=
  Nat.pow 2 (count.log2 + 1 - format.precision)

def Fits (format : BinaryFormat) (count : Nat) : Prop :=
  count < format.limit ∧ format.gap count ∣ count

instance (format : BinaryFormat) (count : Nat) : Decidable (format.Fits count) :=
  inferInstanceAs (Decidable (_ ∧ _))

theorem gap_pos (format : BinaryFormat) (count : Nat) : 0 < format.gap count := Nat.two_pow_pos _

theorem zero_fits (format : BinaryFormat) : format.Fits 0 :=
  ⟨Nat.two_pow_pos _, Nat.dvd_zero _⟩

end BinaryFormat

def quotientToEven (dividend divisor : Nat) : Nat :=
  let below := dividend / divisor
  let twice := 2 * (dividend % divisor)
  if twice < divisor ∨ (twice = divisor ∧ below % 2 = 0) then below else below + 1

theorem le_quotientToEven (dividend divisor : Nat) :
    dividend / divisor ≤ quotientToEven dividend divisor := by
  unfold quotientToEven
  dsimp only
  split <;> omega

theorem quotientToEven_le (dividend divisor : Nat) :
    quotientToEven dividend divisor ≤ dividend / divisor + 1 := by
  unfold quotientToEven
  dsimp only
  split <;> omega

namespace BinaryFormat

variable (format : BinaryFormat)

def round (dividend divisor : Nat) : Nat :=
  quotientToEven dividend (divisor * format.gap (dividend / divisor)) *
    format.gap (dividend / divisor)

theorem gap_dvd_shift {front : Nat} (short : front ≤ format.dense) (shift : Nat) :
    format.gap (front * Nat.pow 2 shift) ∣ front * Nat.pow 2 shift := by
  by_cases zero : front = 0
  · simp [zero]
  · by_cases full : front = format.dense
    · have bits : (front * Nat.pow 2 shift).log2 = format.precision + shift := by
        rw [full, dense, Nat.pow_eq, Nat.pow_eq, ← Nat.pow_add, Nat.log2_two_pow]
      have exponent : format.precision + shift + 1 - format.precision = shift + 1 := by omega
      have positive := format.precise
      have carry : format.precision + shift = format.precision - 1 + (shift + 1) := by omega
      simp only [gap, bits, exponent]
      rw [full, dense, Nat.pow_eq, Nat.pow_eq, Nat.pow_eq, ← Nat.pow_add, carry,
        Nat.pow_add _ _ (shift + 1)]
      exact Nat.dvd_mul_left _ _
    · have short : front < format.dense := by omega
      have bits : (front * Nat.pow 2 shift).log2 < format.precision + shift := by
        refine (Nat.log2_lt ?_).mpr ?_
        · exact Nat.mul_ne_zero zero (Nat.ne_of_gt (Nat.two_pow_pos _))
        · rw [Nat.pow_add]
          exact Nat.mul_lt_mul_of_pos_right short (Nat.two_pow_pos _)
      have exponent : (front * Nat.pow 2 shift).log2 + 1 - format.precision ≤ shift := by omega
      exact Nat.dvd_mul_left_of_dvd (Nat.pow_dvd_pow 2 exponent) front

theorem div_gap_lt (count : Nat) : count / format.gap count < format.dense := by
  refine (Nat.div_lt_iff_lt_mul (format.gap_pos count)).mpr ?_
  have bits : count < 2 ^ (count.log2 + 1) := Nat.lt_log2_self
  have exponent : count.log2 + 1 ≤ format.precision + (count.log2 + 1 - format.precision) := by omega
  have wide := Nat.pow_le_pow_right (n := 2) (by decide) exponent
  rw [Nat.pow_add _ format.precision] at wide
  exact Nat.lt_of_lt_of_le bits wide

theorem gap_dvd_round (dividend divisor : Nat) :
    format.gap (format.round dividend divisor) ∣ format.round dividend divisor := by
  refine format.gap_dvd_shift ?_ _
  have bound := quotientToEven_le dividend (divisor * format.gap (dividend / divisor))
  have front := format.div_gap_lt (dividend / divisor)
  rw [Nat.div_div_eq_div_mul] at front
  omega

theorem round_fits {dividend divisor : Nat}
    (below : format.round dividend divisor < format.limit) :
    format.Fits (format.round dividend divisor) :=
  ⟨below, format.gap_dvd_round dividend divisor⟩

end BinaryFormat

end PipelineChart
