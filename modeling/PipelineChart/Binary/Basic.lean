import PipelineChart.Binary.Format
import PipelineChart.Decimal

/-!
Binary floating point: numbers of a format with signed zeros, infinities and a NaN. Every operation
gives the number nearest to the exact result.
-/

namespace PipelineChart

inductive Binary (format : BinaryFormat) where
  | nan
  | infinite (negative : Bool)
  | finite (negative : Bool) (count : Nat) (fits : format.Fits count)
  deriving DecidableEq

abbrev Single := Binary .single

abbrev Double := Binary .double

namespace Binary

variable {format : BinaryFormat}

def zero : Binary format := finite false 0 format.zero_fits

instance : Zero (Binary format) := ⟨zero⟩

instance : Inhabited (Binary format) := ⟨zero⟩

/-- The nearest number to a quotient of counts; beyond the largest one, infinity. -/
def ofQuotient (negative : Bool) (dividend divisor : Nat) : Binary format :=
  if below : format.round dividend divisor < format.limit then
    finite negative (format.round dividend divisor) (format.round_fits below)
  else infinite negative

def ofInt (value : Int) : Binary format :=
  ofQuotient (value < 0) (value.natAbs * format.unit) 1

/-- Numerals far outside the format are told from their exponent alone. -/
def ofDecimal (decimal : Decimal) : Binary format :=
  if decimal.digits = 0 then finite decimal.negative 0 format.zero_fits
  else if format.top ≤ decimal.exponent then infinite decimal.negative
  else if decimal.point + format.scale ≤ 0 then finite decimal.negative 0 format.zero_fits
  else
    ofQuotient decimal.negative
      (decimal.digits * tenTo decimal.exponent.toNat * format.unit)
      (tenTo (-decimal.exponent).toNat)

def convert {target : BinaryFormat} : Binary format → Binary target
  | nan => nan
  | infinite negative => infinite negative
  | finite negative count _ => ofQuotient negative (count * target.unit) format.unit

def signed (negative : Bool) (count : Nat) : Int := if negative then -count else count

def isNaN : Binary format → Bool
  | nan => true
  | _ => false

def isFinite : Binary format → Bool
  | finite _ _ _ => true
  | _ => false

/-- A sum of zeros is negative only where both are; any other exact zero is positive. -/
def add : Binary format → Binary format → Binary format
  | nan, _ => nan
  | _, nan => nan
  | infinite left, infinite right => if left = right then infinite left else nan
  | infinite left, finite _ _ _ => infinite left
  | finite _ _ _, infinite right => infinite right
  | finite left first _, finite right second _ =>
      let sum := signed left first + signed right second
      if sum = 0 then finite (left && right) 0 format.zero_fits
      else ofQuotient (sum < 0) sum.natAbs 1

instance : Add (Binary format) := ⟨add⟩

def below : Binary format → Binary format → Bool
  | nan, _ => false
  | _, nan => false
  | infinite left, infinite right => left && !right
  | infinite left, finite _ _ _ => left
  | finite _ _ _, infinite right => !right
  | finite left first _, finite right second _ => signed left first < signed right second

instance : LT (Binary format) := ⟨fun left right => below left right = true⟩

instance (left right : Binary format) : Decidable (left < right) :=
  inferInstanceAs (Decidable (below left right = true))

/-- A NaN gives way to the other operand. -/
def least (left right : Binary format) : Binary format :=
  if left.isNaN then right else if right < left then right else left

def greatest (left right : Binary format) : Binary format :=
  if left.isNaN then right else if left < right then right else left

instance : Min (Binary format) := ⟨least⟩

instance : Max (Binary format) := ⟨greatest⟩

/-- Equality of values: the zeros are equal, and a NaN equals nothing. -/
def same (left right : Binary format) : Bool :=
  !left.isNaN && !right.isNaN && !decide (left < right) && !decide (right < left)

end Binary

end PipelineChart
