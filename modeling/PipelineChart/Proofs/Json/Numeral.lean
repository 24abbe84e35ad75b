import Mathlib.Data.List.Basic
import Mathlib.Data.List.TakeDrop
import PipelineChart.Json.Printer
import PipelineChart.Json.Reader

/-!
Numerals as they are written and read back. A numeral has a sign, digits before the point, digits behind it and
an exponent; what follows must not prolong it. A decimal is read back as it was if it ends in no zero, as those
made by `ofScaled` do.
-/

namespace PipelineChart

namespace Decimal

def Canonical (decimal : Decimal) : Prop :=
  ofScaled decimal.negative decimal.digits decimal.exponent = decimal

theorem trimmed_tenfold (negative : Bool) {digits : Nat} (proper : digits ≠ 0) (exponent : Int) :
    trimmed negative (digits * 10) exponent = trimmed negative digits (exponent + 1) := by
  have ends : digits * 10 ≠ 0 ∧ digits * 10 % 10 = 0 := by omega
  rw [trimmed, dif_pos ends, Nat.mul_div_cancel digits (by decide)]

theorem ofScaled_tenfold (negative : Bool) (digits : Nat) (exponent : Int) (times : Nat) :
    ofScaled negative (digits * tenTo times) exponent = ofScaled negative digits (exponent + times) := by
  by_cases zero : digits = 0
  · simp [ofScaled, zero]
  · have proper (times : Nat) : digits * tenTo times ≠ 0 :=
      Nat.mul_ne_zero zero (Nat.ne_of_gt (Nat.pow_pos (by decide)))
    simp only [ofScaled, proper, zero, ↓reduceIte]
    induction times generalizing exponent with
    | zero => simp [tenTo]
    | succ times ih =>
      have power : tenTo (times + 1) = tenTo times * 10 := Nat.pow_succ 10 times
      rw [power, ← Nat.mul_assoc, trimmed_tenfold negative (proper times), ih]
      congr 1
      omega

theorem canonical_zero (negative : Bool) : Canonical ⟨negative, 0, 0⟩ := rfl

theorem canonical_ofScaled (negative : Bool) (digits : Nat) (exponent : Int) :
    (ofScaled negative digits exponent).Canonical := by
  by_cases zero : digits = 0
  · simp only [ofScaled, zero, ↓reduceIte]
    exact canonical_zero negative
  · simp only [ofScaled, zero, ↓reduceIte]
    induction digits, exponent using trimmed.induct with
    | case1 digits exponent ends ih =>
      rw [trimmed, dif_pos ends]
      exact ih (by omega)
    | case2 digits exponent full =>
      have same : trimmed negative digits exponent = ⟨negative, digits, exponent⟩ := by
        rw [trimmed, dif_neg full]
      simp only [Canonical, same, ofScaled, zero, ↓reduceIte]

theorem digits_eq_zero {decimal : Decimal} (canonical : decimal.Canonical) (zero : decimal.digits = 0) :
    decimal.exponent = 0 := by
  have same : ofScaled decimal.negative decimal.digits decimal.exponent = ⟨decimal.negative, 0, 0⟩ := by
    simp [ofScaled, zero]
  exact (congrArg exponent (canonical.symm.trans same))

end Decimal

namespace Json

def Ends : List Char → Prop
  | [] => True
  | char :: _ => char.isDigit = false ∧ char ≠ '.' ∧ char ≠ 'e' ∧ char ≠ 'E'

/-- A zero alone, or digits that do not begin with one. -/
structure Whole (digits : List Char) : Prop where
  proper : digits ≠ []
  isDigit : ∀ char ∈ digits, char.isDigit = true
  lead : digits.head? = some '0' → digits = ['0']

theorem isDigit_toDigits (value : Nat) : ∀ char ∈ Nat.toDigits 10 value, char.isDigit = true :=
  fun _ => Nat.isDigit_of_mem_toDigits (by decide) (by decide)

theorem head?_toDigits {value : Nat} (proper : value ≠ 0) : (Nat.toDigits 10 value).head? ≠ some '0' := by
  induction value using Nat.strongRecOn with
  | ind value ih =>
    by_cases short : value < 10
    · rw [Nat.toDigits_of_lt_base short]
      simpa using proper
    · have rest := ih (value / 10) (by omega) (by omega)
      rwa [Nat.toDigits_of_base_le (by decide) (by omega),
        List.head?_append_of_ne_nil _ Nat.toDigits_ne_nil]

theorem whole_toDigits (value : Nat) : Whole (Nat.toDigits 10 value) where
  proper := Nat.toDigits_ne_nil
  isDigit := isDigit_toDigits value
  lead begins := by
    by_cases zero : value = 0
    · rw [zero, Nat.toDigits_zero]
    · exact absurd begins (head?_toDigits zero)

theorem whole_zero : Whole ['0'] := Nat.toDigits_zero 10 ▸ whole_toDigits 0

theorem Whole.head? {digits : List Char} (whole : Whole digits) :
    ∃ char rest, digits = char :: rest ∧ char.isDigit = true := by
  cases digits with
  | nil => exact absurd rfl whole.proper
  | cons char rest => exact ⟨char, rest, rfl, whole.isDigit char (List.mem_cons_self ..)⟩

theorem Ends.not_digit {rest : List Char} (ends : Ends rest) : ∀ char ∈ rest.head?, char.isDigit = false := by
  cases rest with
  | nil => simp
  | cons char rest => simpa using ends.1

theorem takeDigits_append {digits rest : List Char} (all : ∀ char ∈ digits, char.isDigit = true)
    (stops : ∀ char ∈ rest.head?, char.isDigit = false) : takeDigits (digits ++ rest) = (digits, rest) := by
  unfold takeDigits
  rw [List.span_eq_takeWhile_dropWhile, List.takeWhile_append_of_pos all, List.dropWhile_append_of_pos all]
  cases rest with
  | nil => simp
  | cons char rest =>
    have stop := stops char rfl
    simp [stop]

theorem readWhole?_append {digits rest : List Char} (whole : Whole digits)
    (stops : ∀ char ∈ rest.head?, char.isDigit = false) : readWhole? (digits ++ rest) = some (digits, rest) := by
  unfold readWhole?
  rw [takeDigits_append whole.isDigit stops]
  split
  · rename_i same
    exact absurd (congrArg Prod.fst same) whole.proper
  · rename_i same
    cases same
    cases whole.lead rfl
  · rename_i same
    cases same
    rfl

def behindPoint : List Char → List Char
  | [] => []
  | fraction => '.' :: fraction

theorem readFraction?_append {fraction rest : List Char} (all : ∀ char ∈ fraction, char.isDigit = true)
    (stops : ∀ char ∈ rest.head?, char.isDigit = false ∧ char ≠ '.') :
    readFraction? (behindPoint fraction ++ rest) = some (fraction, rest) := by
  cases fraction with
  | nil =>
    unfold readFraction? behindPoint
    rw [List.nil_append]
    split
    · exact absurd rfl (stops '.' rfl).2
    · rfl
  | cons digit fraction =>
    have taken := takeDigits_append all fun char behind => (stops char behind).1
    simp only [behindPoint, List.cons_append, readFraction?] at taken ⊢
    rw [taken]

theorem readExponent?_none {rest : List Char} (ends : Ends rest) : readExponent? rest = some (none, rest) := by
  cases rest with
  | nil => rfl
  | cons char rest =>
    obtain ⟨_, _, lower, upper⟩ := ends
    simp [readExponent?, lower, upper]

theorem readExponent?_append (power : Int) {rest : List Char} (ends : Ends rest) :
    readExponent? ('e' :: (if power < 0 then '-' else '+') :: Nat.toDigits 10 power.natAbs ++ rest) =
      some (some power, rest) := by
  have taken := takeDigits_append (isDigit_toDigits power.natAbs) ends.not_digit
  have value : Nat.ofDigitChars 10 (Nat.toDigits 10 power.natAbs) 0 = power.natAbs :=
    Nat.ofDigitChars_ten_toDigits
  obtain ⟨digit, digits, spelled⟩ := List.exists_cons_of_ne_nil
    (Nat.toDigits_ne_nil : Nat.toDigits 10 power.natAbs ≠ [])
  rw [spelled] at taken value ⊢
  by_cases negative : power < 0
  · simp only [negative, ↓reduceIte, List.cons_append, readExponent?, true_or] at taken ⊢
    rw [taken]
    simp only [value]
    congr 3
    omega
  · simp only [negative, ↓reduceIte, List.cons_append, readExponent?, true_or] at taken ⊢
    rw [taken]
    simp only [value]
    congr 3
    simp
    omega

def ofParts (negative : Bool) (whole fraction : List Char) (exponent : Option Int) : Json :=
  let digits := Nat.ofDigitChars 10 (whole ++ fraction) 0
  match fraction, exponent with
  | [], none =>
      if negative && digits == 0 then .decimal ⟨true, 0, 0⟩
      else .integer (if negative then -digits else digits)
  | _, _ => .decimal (Decimal.ofScaled negative digits (exponent.getD 0 - fraction.length))

def minus (negative : Bool) : List Char := if negative then ['-'] else []

theorem readNumber?_signed (negative : Bool) {text : List Char} (unsigned : text.head? ≠ some '-') :
    readNumber? (minus negative ++ text) =
      (readWhole? text).bind fun (whole, rest) =>
        (readFraction? rest).bind fun (fraction, rest) =>
          (readExponent? rest).map fun (exponent, rest) =>
            (ofParts negative whole fraction exponent, rest) := by
  unfold readNumber?
  split
  rename_i negative' text' parts
  obtain ⟨rfl, rfl⟩ : negative' = negative ∧ text' = text := by
    cases negative with
    | true =>
      cases parts
      exact ⟨rfl, rfl⟩
    | false =>
      unfold minus at parts
      rw [if_neg Bool.false_ne_true, List.nil_append] at parts
      split at parts
      · exact absurd rfl unsigned
      · cases parts
        exact ⟨rfl, rfl⟩
  congr 1
  funext (whole, rest)
  dsimp only
  congr 1
  funext (fraction, rest)
  dsimp only
  congr 1
  funext (exponent, rest)
  unfold ofParts
  rcases fraction with _ | ⟨digit, fraction⟩
  · cases exponent with
    | none =>
      dsimp only
      split <;> rfl
    | some exponent => rfl
  · rfl

theorem readNumber?_append (negative : Bool) {whole fraction behind rest : List Char} {exponent : Option Int}
    (digits : Whole whole) (all : ∀ char ∈ fraction, char.isDigit = true)
    (stops : ∀ char ∈ behind.head?, char.isDigit = false ∧ char ≠ '.')
    (read : readExponent? behind = some (exponent, rest)) :
    readNumber? (minus negative ++ (whole ++ (behindPoint fraction ++ behind))) =
      some (ofParts negative whole fraction exponent, rest) := by
  have unsigned : (whole ++ (behindPoint fraction ++ behind)).head? ≠ some '-' := by
    obtain ⟨char, digits, rfl, isDigit⟩ := digits.head?
    rintro same
    cases same
    cases isDigit
  have point : ∀ char ∈ (behindPoint fraction ++ behind).head?, char.isDigit = false := by
    cases fraction with
    | nil => exact fun char front => (stops char front).1
    | cons digit fraction => simp [behindPoint]
  rw [readNumber?_signed negative unsigned, readWhole?_append digits point]
  simp only [Option.bind_some, readFraction?_append all stops, read, Option.map_some]

theorem Ends.stops {rest : List Char} (ends : Ends rest) :
    ∀ char ∈ rest.head?, char.isDigit = false ∧ char ≠ '.' := by
  cases rest with
  | nil => simp
  | cons char rest => simpa using ⟨ends.1, ends.2.1⟩

theorem readNumber?_integer (value : Int) {rest : List Char} (ends : Ends rest) :
    readNumber? (integerChars value ++ rest) = some (.integer value, rest) := by
  have read := readNumber?_append (decide (value < 0)) (whole_toDigits value.natAbs)
    (List.forall_mem_nil _) ends.stops (readExponent?_none ends)
  have same : integerChars value ++ rest =
      minus (decide (value < 0)) ++ (Nat.toDigits 10 value.natAbs ++ (behindPoint [] ++ rest)) := by
    unfold integerChars minus behindPoint
    by_cases negative : value < 0 <;> simp [negative]
  rw [same, read]
  simp only [ofParts, List.append_nil, Nat.ofDigitChars_ten_toDigits]
  by_cases negative : value < 0
  · have proper : value.natAbs ≠ 0 := by omega
    simp only [negative, proper, decide_true, Bool.true_and, beq_iff_eq, ↓reduceIte]
    congr 3
    omega
  · simp only [negative, decide_false, Bool.false_and, Bool.false_eq_true, ↓reduceIte]
    congr 3
    omega

end Json

namespace Decimal

open Json

theorem digitChars_cons (decimal : Decimal) : ∃ first others, decimal.digitChars = first :: others ∧
    (decimal.digits ≠ 0 → first ≠ '0') ∧ ∀ char ∈ first :: others, char.isDigit = true := by
  obtain ⟨first, others, spelled⟩ := List.exists_cons_of_ne_nil
    (Nat.toDigits_ne_nil : Nat.toDigits 10 decimal.digits ≠ [])
  refine ⟨first, others, spelled, fun proper same => ?_, spelled ▸ isDigit_toDigits decimal.digits⟩
  have lead := head?_toDigits proper
  rw [spelled, same] at lead
  exact lead rfl

theorem whole_isWhole {decimal : Decimal} (canonical : decimal.Canonical) : Whole decimal.whole := by
  unfold whole
  split
  · exact whole_zero
  · rename_i before
    by_cases zero : decimal.digits = 0
    · have exponent := digits_eq_zero canonical zero
      have point : decimal.point = 1 := by simp [point, digitChars, zero, exponent]
      have chars : decimal.digitChars = ['0'] := by simp [digitChars, zero]
      rw [point, exponent, chars]
      exact whole_zero
    · obtain ⟨first, others, spelled, lead, digits⟩ := decimal.digitChars_cons
      obtain ⟨count, positive⟩ : ∃ count, decimal.point.toNat = count + 1 :=
        ⟨decimal.point.toNat - 1, by omega⟩
      rw [spelled, positive]
      refine ⟨by simp, ?_, fun begins => absurd (Option.some.inj begins) (lead zero)⟩
      intro char written
      rcases List.mem_append.mp written with taken | zeros
      · exact digits char (List.mem_of_mem_take taken)
      · rw [List.eq_of_mem_replicate zeros]
        rfl

theorem fraction_isDigit (decimal : Decimal) : ∀ char ∈ decimal.fraction, char.isDigit = true := by
  have digits := isDigit_toDigits decimal.digits
  change ∀ char ∈ decimal.digitChars, char.isDigit = true at digits
  intro char written
  unfold fraction at written
  split at written
  · rcases List.mem_append.mp written with zeros | kept
    · rw [List.eq_of_mem_replicate zeros]
      rfl
    · exact digits char kept
  · exact digits char (List.mem_of_mem_drop written)

theorem ofScaled_written {decimal : Decimal} (canonical : decimal.Canonical) :
    ofScaled decimal.negative (Nat.ofDigitChars 10 (decimal.whole ++ decimal.fraction) 0)
      (-decimal.fraction.length) = decimal := by
  have value : Nat.ofDigitChars 10 decimal.digitChars 0 = decimal.digits := Nat.ofDigitChars_ten_toDigits
  have place : decimal.point = decimal.digitChars.length + decimal.exponent := rfl
  refine Eq.trans ?_ canonical
  by_cases small : decimal.point ≤ 0
  · -- zeros stand between the point and the digits
    have written : Nat.ofDigitChars 10 (decimal.whole ++ decimal.fraction) 0 = decimal.digits := by
      simp [whole, fraction, small, Nat.ofDigitChars_append, Nat.ofDigitChars_cons,
        Nat.ofDigitChars_replicate_zero, value]
    have length : (-decimal.fraction.length : Int) = decimal.exponent := by
      simp only [fraction, small, ↓reduceIte, List.length_append, List.length_replicate]
      omega
    rw [written, length]
  · by_cases large : 0 ≤ decimal.exponent
    · -- zeros stand behind the digits
      have all : decimal.digitChars.length ≤ decimal.point.toNat := by omega
      have written : Nat.ofDigitChars 10 (decimal.whole ++ decimal.fraction) 0 =
          decimal.digits * tenTo decimal.exponent.toNat := by
        simp [tenTo, whole, fraction, small, List.take_of_length_le all, List.drop_of_length_le all,
          Nat.ofDigitChars_append, Nat.ofDigitChars_replicate_zero, value, Nat.mul_comm]
      have length : (-decimal.fraction.length : Int) = 0 := by
        simp [fraction, small, List.drop_of_length_le all]
      rw [written, length, ofScaled_tenfold]
      congr 1
      omega
    · -- the point stands between the digits
      have none : decimal.exponent.toNat = 0 := by omega
      have written : decimal.whole ++ decimal.fraction = decimal.digitChars := by
        simp [whole, fraction, small, none]
      have length : (-decimal.fraction.length : Int) = decimal.exponent := by
        simp only [fraction, small, ↓reduceIte, List.length_drop]
        omega
      rw [written, length, value]

theorem readNumber?_pointed {decimal : Decimal} (canonical : decimal.Canonical) {rest : List Char}
    (ends : Ends rest) : readNumber? (decimal.pointed ++ rest) = some (.decimal decimal, rest) := by
  have value := ofScaled_written canonical
  have digits := decimal.fraction_isDigit
  have read (fraction : List Char) (all : ∀ char ∈ fraction, char.isDigit = true) :=
    readNumber?_append decimal.negative (whole_isWhole canonical) all ends.stops (readExponent?_none ends)
  unfold pointed
  simp only [List.append_assoc]
  cases written : decimal.fraction with
  | nil =>
    refine (read ['0'] whole_zero.isDigit).trans ?_
    have tenfold : Nat.ofDigitChars 10 (decimal.whole ++ ['0']) 0 =
        Nat.ofDigitChars 10 (decimal.whole ++ []) 0 * tenTo 1 := by
      simp [tenTo, Nat.ofDigitChars_append, Nat.ofDigitChars_cons, Nat.mul_comm]
    rw [written] at value
    simp only [ofParts, Option.getD_none, tenfold, ofScaled_tenfold]
    exact congrArg (fun decimal => some (Json.decimal decimal, rest)) value
  | cons digit others =>
    rw [written] at digits value
    refine (read _ digits).trans ?_
    simp only [ofParts, Option.getD_none, Int.zero_sub, value]

theorem readNumber?_scientific {decimal : Decimal} (canonical : decimal.Canonical) {rest : List Char}
    (ends : Ends rest) : readNumber? (decimal.scientific ++ rest) = some (.decimal decimal, rest) := by
  obtain ⟨first, others, spelled, -, digits⟩ := decimal.digitChars_cons
  have value : Nat.ofDigitChars 10 (first :: others) 0 = decimal.digits := by
    rw [← spelled]
    exact Nat.ofDigitChars_ten_toDigits
  have leading : Whole [first] :=
    ⟨by simp, by simpa using digits first, fun begins => congrArg ([·]) (Option.some.inj begins)⟩
  have read := readNumber?_append decimal.negative leading
    (fun char behind => digits char (List.mem_cons_of_mem first behind)) (by simp)
    (readExponent?_append (decimal.point - 1) ends)
  have written : decimal.scientific ++ rest = minus decimal.negative ++ ([first] ++ (behindPoint others ++
      ('e' :: (if decimal.point - 1 < 0 then '-' else '+') ::
        Nat.toDigits 10 (decimal.point - 1).natAbs ++ rest))) := by
    unfold scientific
    rw [spelled]
    cases others <;> simp [sign, minus, power, behindPoint]
  have exponent : decimal.point - 1 - (others.length : Int) = decimal.exponent := by
    simp only [point, spelled, List.length_cons]
    omega
  rw [written, read]
  simp only [ofParts, List.singleton_append, value, Option.getD_some, exponent]
  exact congrArg (fun decimal => some (Json.decimal decimal, rest)) canonical

theorem readNumber?_json {decimal : Decimal} (canonical : decimal.Canonical) {rest : List Char}
    (ends : Ends rest) : readNumber? (decimal.json ++ rest) = some (.decimal decimal, rest) := by
  unfold json within
  split
  · exact readNumber?_pointed canonical ends
  · exact readNumber?_scientific canonical ends

end Decimal

end PipelineChart
