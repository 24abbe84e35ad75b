import Mathlib.Data.Nat.Log
import PipelineChart.Binary.Basic

/-!
Order and rounding. Rounding never passes a number of the format. So a number to which a positive one is
added does not go down, whether the sum is rounded up or down, is lost or goes beyond the largest number.
-/

namespace PipelineChart

namespace BinaryFormat

variable {format : BinaryFormat} {count value : Nat}

theorem log2_le_log2 (smaller : count ≤ value) : count.log2 ≤ value.log2 := by
  rw [Nat.log2_eq_log_two, Nat.log2_eq_log_two]
  exact Nat.log_mono_right smaller

theorem gap_dvd_gap (format : BinaryFormat) (smaller : count.log2 ≤ value.log2) :
    format.gap count ∣ format.gap value := by
  apply Nat.pow_dvd_pow
  omega

theorem gap_dvd_power (format : BinaryFormat) {power : Nat} (less : count.log2 ≤ power) :
    format.gap count ∣ Nat.pow 2 power := by
  have precise := format.precise
  apply Nat.pow_dvd_pow
  omega

theorem round_one (format : BinaryFormat) (value : Nat) :
    format.round value 1 = quotientToEven value (format.gap value) * format.gap value := by
  simp only [round, Nat.div_one, Nat.one_mul]

theorem le_round_of_dvd (multiple : format.gap value ∣ count) (smaller : count ≤ value) :
    count ≤ format.round value 1 := by
  rw [round_one]
  calc count = count / format.gap value * format.gap value := (Nat.div_mul_cancel multiple).symm
    _ ≤ quotientToEven value (format.gap value) * format.gap value := by
        apply Nat.mul_le_mul_right
        exact (Nat.div_le_div_right smaller).trans (le_quotientToEven _ _)

theorem round_le_of_dvd (multiple : format.gap value ∣ count) (larger : value ≤ count) :
    format.round value 1 ≤ count := by
  have positive := format.gap_pos value
  have front : quotientToEven value (format.gap value) ≤ count / format.gap value := by
    rcases Nat.eq_or_lt_of_le larger with rfl | below
    · have whole : value % format.gap value = 0 := Nat.mod_eq_zero_of_dvd multiple
      unfold quotientToEven
      simp [whole, positive]
    · have quotient : value / format.gap value < count / format.gap value := by
        rw [Nat.div_lt_iff_lt_mul positive, Nat.div_mul_cancel multiple]
        exact below
      exact (quotientToEven_le _ _).trans quotient
  rw [round_one]
  calc _ ≤ count / format.gap value * format.gap value := Nat.mul_le_mul_right _ front
    _ = count := Nat.div_mul_cancel multiple

/-- A smaller number either has the gap of the larger one or lies below a power of two that has it. -/
theorem le_round_of_gap_dvd (precise : format.gap count ∣ count) (smaller : count ≤ value) :
    count ≤ format.round value 1 := by
  rcases Nat.eq_or_lt_of_le (log2_le_log2 smaller) with same | lower
  · exact le_round_of_dvd (Nat.dvd_trans (format.gap_dvd_gap same.ge) precise) smaller
  · have visible : value ≠ 0 := by
      rintro rfl
      exact absurd lower (Nat.not_lt_zero _)
    have power : count < 2 ^ value.log2 :=
      Nat.lt_log2_self.trans_le (Nat.pow_le_pow_right Nat.two_pos lower)
    have multiple : format.gap value ∣ 2 ^ value.log2 := format.gap_dvd_power (Nat.le_refl _)
    exact power.le.trans (le_round_of_dvd multiple (Nat.log2_self_le visible))

theorem le_round (fits : format.Fits count) (smaller : count ≤ value) : count ≤ format.round value 1 :=
  le_round_of_gap_dvd fits.2 smaller

theorem round_le (fits : format.Fits count) (larger : value ≤ count) : format.round value 1 ≤ count :=
  round_le_of_dvd (Nat.dvd_trans (format.gap_dvd_gap (log2_le_log2 larger)) fits.2) larger

end BinaryFormat

namespace Binary

variable {format : BinaryFormat} {number further : Binary format}

theorem bounded_of_lt (less : number < further) : infinite true < further := by
  change below number further = true at less
  change below (infinite true) further = true
  cases further with
  | nan => cases number <;> cases less
  | infinite negative => cases number <;> cases negative <;> simp_all [below]
  | finite negative count fits => rfl

theorem bounded_of_isFinite (whole : number.isFinite) : infinite true < number := by
  cases number with
  | nan => cases whole
  | infinite negative => cases whole
  | finite negative count fits => rfl

@[simp]
theorem signed_false (count : Nat) : signed false count = count := rfl

@[simp]
theorem signed_true (count : Nat) : signed true count = -count := rfl

section

variable {negative other : Bool} {count value further : Nat} {fits : format.Fits count}

theorem finite_lt_iff {fits' : format.Fits value} :
    finite negative count fits < finite other value fits' ↔
      signed negative count < signed other value := decide_eq_true_iff

theorem pos_finite (positive : 0 < finite negative count fits) : negative = false ∧ 0 < count := by
  have sign : signed false 0 < signed negative count := finite_lt_iff.mp positive
  cases negative with
  | true =>
    rw [signed_false, signed_true] at sign
    omega
  | false => exact ⟨rfl, Int.ofNat_lt.mp sign⟩

theorem ofQuotient_cases (format : BinaryFormat) (negative : Bool) (value : Nat) :
    (format.limit ≤ format.round value 1 ∧
      (ofQuotient negative value 1 : Binary format) = infinite negative) ∨
    ∃ fits, (ofQuotient negative value 1 : Binary format) =
      finite negative (format.round value 1) fits := by
  unfold ofQuotient
  split_ifs with below
  · exact Or.inr ⟨format.round_fits below, rfl⟩
  · exact Or.inl ⟨Nat.not_lt.mp below, rfl⟩

theorem finite_lt_ofQuotient (more : signed negative count < format.round value 1) :
    finite negative count fits < ofQuotient false value 1 := by
  rcases ofQuotient_cases format false value with ⟨_, sum⟩ | ⟨room, sum⟩
  · rw [sum]
    rfl
  · rw [sum]
    exact finite_lt_iff.mpr more

theorem lt_or_eq_of_le_round (more : count ≤ format.round value 1) :
    finite false count fits < ofQuotient false value 1 ∨
      ofQuotient false value 1 = finite false count fits := by
  rcases ofQuotient_cases format false value with ⟨_, sum⟩ | ⟨room, sum⟩
  · rw [sum]
    exact Or.inl rfl
  · rw [sum]
    rcases Nat.eq_or_lt_of_le more with same | greater
    · simp only [same, or_true]
    · exact Or.inl (finite_lt_iff.mpr (Int.ofNat_lt.mpr greater))

theorem lt_or_eq_of_round_le (less : format.round value 1 ≤ count) :
    finite true count fits < ofQuotient true value 1 ∨
      ofQuotient true value 1 = finite true count fits := by
  rcases ofQuotient_cases format true value with ⟨beyond, _⟩ | ⟨room, sum⟩
  · exact absurd fits.1 (Nat.not_lt.mpr (beyond.trans less))
  · rw [sum]
    rcases Nat.eq_or_lt_of_le less with same | smaller
    · simp only [same, or_true]
    · exact Or.inl (finite_lt_iff.mpr (Int.neg_lt_neg (Int.ofNat_lt.mpr smaller)))

theorem add_finite {fits' : format.Fits value} : finite negative count fits + finite other value fits' =
    if signed negative count + signed other value = 0 then
      finite (negative && other) 0 format.zero_fits
    else ofQuotient (signed negative count + signed other value < 0)
      (signed negative count + signed other value).natAbs 1 := rfl

theorem add_of_sum_pos {fits' : format.Fits value}
    (sum : signed negative count + signed other value = (further : Nat)) (visible : 0 < further) :
    finite negative count fits + finite other value fits' = ofQuotient false further 1 := by
  rw [add_finite, sum, if_neg (by omega), decide_eq_false (by omega), Int.natAbs_natCast]

theorem add_of_sum_neg {fits' : format.Fits value}
    (sum : signed negative count + signed other value = -(further : Nat)) (visible : 0 < further) :
    finite negative count fits + finite other value fits' = ofQuotient true further 1 := by
  rw [add_finite, sum, if_neg (by omega), decide_eq_true (by omega), Int.natAbs_neg,
    Int.natAbs_natCast]

theorem lt_or_eq_add_finite {fits' : format.Fits further} (positive : 0 < further) :
    finite negative count fits < finite negative count fits + finite false further fits' ∨
      finite negative count fits + finite false further fits' = finite negative count fits := by
  cases negative with
  | false =>
    have sum : signed false count + signed false further = (count + further : Nat) := by simp
    rw [add_of_sum_pos sum (by omega)]
    exact lt_or_eq_of_le_round (BinaryFormat.le_round fits (Nat.le_add_right _ _))
  | true =>
    rcases Nat.lt_trichotomy count further with less | rfl | more
    · have sum : signed true count + signed false further = (further - count : Nat) := by
        rw [signed_true, signed_false]
        omega
      rw [add_of_sum_pos sum (by omega)]
      -- one above zero is more than one below it; from a zero the sum is the positive number itself
      refine Or.inl (finite_lt_ofQuotient ?_)
      rcases Nat.eq_zero_or_pos count with rfl | visible
      · have reached := BinaryFormat.le_round fits' (Nat.le_refl further)
        rw [signed_true, Nat.sub_zero]
        omega
      · rw [signed_true]
        omega
    · have sum : signed true count + signed false count = 0 := Int.add_left_neg _
      rw [add_finite, if_pos sum, Bool.and_false]
      refine Or.inl (finite_lt_iff.mpr ?_)
      rw [signed_true, signed_false]
      omega
    · have sum : signed true count + signed false further = -(count - further : Nat) := by
        rw [signed_true, signed_false]
        omega
      rw [add_of_sum_neg sum (by omega)]
      exact lt_or_eq_of_round_le (BinaryFormat.round_le fits (Nat.sub_le _ _))

end

theorem positive_of_lt {negative : Bool} (less : number < infinite negative) : negative = false := by
  cases negative with
  | true => exact absurd (bounded_of_lt less) Bool.false_ne_true
  | false => rfl

theorem lt_or_eq_add (bounded : infinite true < number) (positive : 0 < further) :
    number < number + further ∨ number + further = number := by
  cases number with
  | nan => cases bounded
  | infinite negative =>
    obtain rfl := positive_of_lt bounded
    cases further with
    | nan => cases positive
    | infinite negative =>
      obtain rfl := positive_of_lt positive
      exact Or.inr rfl
    | finite negative count fits => exact Or.inr rfl
  | finite negative count fits =>
    cases further with
    | nan => cases positive
    | infinite negative =>
      obtain rfl := positive_of_lt positive
      exact Or.inl rfl
    | finite other value fits' =>
      obtain ⟨rfl, visible⟩ := pos_finite positive
      exact lt_or_eq_add_finite visible

/-- A sum is at least as large as the positive one of its parts, so it is not rounded to zero. -/
theorem pos_add (positive : 0 < number) (whole : further.isFinite) (nonneg : ¬ further < 0) :
    0 < number + further := by
  cases further with
  | nan => cases whole
  | infinite negative => cases whole
  | finite other value fits =>
    cases number with
    | nan => cases positive
    | infinite negative =>
      obtain rfl := positive_of_lt positive
      rfl
    | finite negative count fits' =>
      obtain ⟨rfl, visible⟩ := pos_finite positive
      have spaced : ¬ signed other value < signed false 0 := fun less => nonneg (finite_lt_iff.mpr less)
      have sum : signed false count + signed other value = (count + value : Nat) := by
        cases other with
        | false => simp
        | true =>
          rw [signed_true, signed_false] at spaced
          rw [signed_true, signed_false]
          omega
      have reached := BinaryFormat.le_round fits' (Nat.le_add_right count value)
      rw [add_of_sum_pos sum (by omega)]
      apply finite_lt_ofQuotient
      rw [signed_false]
      omega

theorem not_lt_of_lt (less : number < further) : ¬ further < number := by
  change below number further = true at less
  change ¬ below further number = true
  cases number with
  | nan => cases less
  | infinite negative => cases negative <;> cases further <;> simp_all [below]
  | finite negative count fits =>
    cases further with
    | nan => cases less
    | infinite other => simp_all [below]
    | finite other value fits' =>
      simp only [below, decide_eq_true_eq] at less ⊢
      omega

theorem greatest_self (number : Binary format) : max number number = number := by
  change greatest number number = number
  unfold greatest
  split_ifs <;> rfl

theorem max_eq_right_of_lt (less : number < further) : max number further = further := by
  change greatest number further = further
  unfold greatest
  split_ifs <;> rfl

theorem max_eq_left_of_lt (less : further < number) : max number further = number := by
  change greatest number further = number
  unfold greatest
  rw [if_neg (not_lt_of_lt less)]
  split_ifs with nan
  · cases number with
    | nan => exact absurd less (by cases further <;> exact Bool.false_ne_true)
    | infinite negative => cases nan
    | finite negative count fits => cases nan
  · rfl

theorem max_add (bounded : infinite true < number) (positive : 0 < further) :
    max number (number + further) = number + further := by
  rcases lt_or_eq_add bounded positive with more | same
  · exact max_eq_right_of_lt more
  · rw [same, greatest_self]

theorem add_max (bounded : infinite true < number) (positive : 0 < further) :
    max (number + further) number = number + further := by
  rcases lt_or_eq_add bounded positive with more | same
  · exact max_eq_left_of_lt more
  · rw [same, greatest_self]

theorem bounded_add (bounded : infinite true < number) (positive : 0 < further) :
    infinite true < number + further := by
  rcases lt_or_eq_add bounded positive with more | same
  · exact bounded_of_lt more
  · rw [same]
    exact bounded

end Binary

end PipelineChart
