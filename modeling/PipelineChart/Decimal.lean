/-!
Decimal numerals and their texts. A numeral is `digits * 10 ^ exponent` with a sign, which zero has
too. Numerals made by `ofScaled` end in no zero, so each value has one numeral.
-/

namespace PipelineChart

def tenTo (power : Nat) : Nat := Nat.pow 10 power

structure Decimal where
  negative : Bool
  digits : Nat
  exponent : Int
  deriving DecidableEq, Inhabited

namespace Decimal

def trimmed (negative : Bool) (digits : Nat) (exponent : Int) : Decimal :=
  if ends : digits ≠ 0 ∧ digits % 10 = 0 then trimmed negative (digits / 10) (exponent + 1)
  else ⟨negative, digits, exponent⟩
termination_by digits
decreasing_by omega

def ofScaled (negative : Bool) (digits : Nat) (exponent : Int) : Decimal :=
  if digits = 0 then ⟨negative, 0, 0⟩ else trimmed negative digits exponent

def digitChars (decimal : Decimal) : List Char := Nat.toDigits 10 decimal.digits

def sign (decimal : Decimal) : List Char := if decimal.negative then ['-'] else []

/-- How many digits stand before the point; where negative, how many zeros follow it. -/
def point (decimal : Decimal) : Int := decimal.digitChars.length + decimal.exponent

def whole (decimal : Decimal) : List Char :=
  if decimal.point ≤ 0 then ['0']
  else
    decimal.digitChars.take decimal.point.toNat ++ List.replicate decimal.exponent.toNat '0'

def fraction (decimal : Decimal) : List Char :=
  if decimal.point ≤ 0 then List.replicate (-decimal.point).toNat '0' ++ decimal.digitChars
  else decimal.digitChars.drop decimal.point.toNat

def plain (decimal : Decimal) : List Char :=
  decimal.sign ++ decimal.whole ++
    match decimal.fraction with
    | [] => []
    | fraction => '.' :: fraction

def pointed (decimal : Decimal) : List Char :=
  decimal.sign ++ decimal.whole ++ '.' ::
    match decimal.fraction with
    | [] => ['0']
    | fraction => fraction

def power (decimal : Decimal) : List Char :=
  let power := decimal.point - 1
  (if power < 0 then '-' else '+') :: Nat.toDigits 10 power.natAbs

def scientific (decimal : Decimal) : List Char :=
  decimal.sign ++ decimal.digitChars.take 1 ++
    (match decimal.digitChars.drop 1 with
    | [] => []
    | others => '.' :: others) ++
    'e' :: decimal.power

/-- Written out where the first digit stands from `first` to `last` places before the point. -/
def within (first last : Int) (decimal : Decimal) : List Char :=
  if first ≤ decimal.point ∧ decimal.point ≤ last then decimal.pointed else decimal.scientific

/-- Numerals from a millionth to below ten trillion are written out in documents. -/
def json (decimal : Decimal) : List Char := decimal.within (-5) 13

end Decimal

end PipelineChart
