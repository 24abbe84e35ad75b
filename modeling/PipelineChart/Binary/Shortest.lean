import PipelineChart.Binary.Basic

/-!
The shortest numeral that reads back as a number: of the numerals that round to it, one with the
fewest digits, and of those the nearest. Two may be equally near: documents then take the one with the
even digit, messages the one further from zero. Everything is compared in quarters of a count, where
the borders halfway to the neighbours are whole.
-/

namespace PipelineChart.Binary

inductive Tie where
  | even
  | upper
  deriving DecidableEq

def Tie.takesLower (tie : Tie) (lower : Nat) : Bool := tie = .even && lower % 2 = 0

/-- The numerals between the borders round to `value`; the borders do too where `closed`. -/
structure Interval where
  value : Nat
  low : Nat
  high : Nat
  closed : Bool

namespace Interval

/-- Below a power of two the neighbour is only half as far. -/
def ofCount (format : BinaryFormat) (count : Nat) : Interval :=
  let gap := format.gap count
  let front := count / gap
  let narrow := 2 * front = format.dense ∧ 1 < gap
  ⟨4 * count, 4 * count - (if narrow then gap else 2 * gap), 4 * count + 2 * gap, front % 2 = 0⟩

def scale (factor : Nat) (interval : Interval) : Interval :=
  ⟨interval.value * factor, interval.low * factor, interval.high * factor, interval.closed⟩

def holds (interval : Interval) (point : Nat) : Bool :=
  if interval.closed then interval.low ≤ point && point ≤ interval.high
  else interval.low < point && point < interval.high

def multiple? (interval : Interval) (tie : Tie) (step : Nat) : Option Nat :=
  let lower := interval.value / step
  let upper := lower + 1
  match interval.holds (lower * step), interval.holds (upper * step) with
  | true, false => some lower
  | false, true => some upper
  | false, false => none
  | true, true =>
      let above := 2 * interval.value
      let middle := (lower + upper) * step
      if above < middle ∨ (above = middle ∧ tie.takesLower lower) then some lower else some upper

/-- The first grid of powers of ten with a point in the interval, from `power` downwards. One unit
is a part in `unit`. -/
def search (interval : Interval) (tie : Tie) (unit : Nat) : Nat → Int → Nat × Int
  | 0, power => (interval.value * tenTo (-power).toNat / (unit * tenTo power.toNat), power)
  | steps + 1, power =>
      match (interval.scale (tenTo (-power).toNat)).multiple? tie (unit * tenTo power.toNat) with
      | some digits => (digits, power)
      | none => search interval tie unit steps (power - 1)

end Interval

def firstPower (format : BinaryFormat) (count : Nat) : Int :=
  if format.unit ≤ count then (Nat.toDigits 10 (count / format.unit)).length - 1
  else -((Nat.toDigits 10 ((format.unit - 1) / count)).length : Int)

/-- As many decimal digits as the format has binary ones are always enough. -/
def shortestCount (format : BinaryFormat) (tie : Tie) (negative : Bool) (count : Nat) : Decimal :=
  if count = 0 then ⟨negative, 0, 0⟩
  else
    let (digits, power) := (Interval.ofCount format count).search tie (4 * format.unit)
      format.precision (firstPower format count)
    Decimal.ofScaled negative digits power

variable {format : BinaryFormat}

def shortest? (tie : Tie) : Binary format → Option Decimal
  | finite negative count _ => some (shortestCount format tie negative count)
  | _ => none

def specialText : Binary format → List Char
  | infinite true => "-inf".toList
  | infinite false => "inf".toList
  | _ => "NaN".toList

/-- The text of a number in a message: every digit, without an exponent. -/
def text (number : Binary format) : String :=
  match number.shortest? .upper with
  | some decimal => String.ofList decimal.plain
  | none => String.ofList number.specialText

def jsonText (number : Binary format) : String :=
  match number.shortest? .even with
  | some decimal => String.ofList decimal.json
  | none => String.ofList number.specialText

/-- The text of a number of double precision where a datum is described. Numerals from a
hundred-thousandth to below ten quadrillion are written out. -/
def describe (number : Double) : String :=
  match number.shortest? .even with
  | some decimal => String.ofList (decimal.within (-4) 16)
  | none => String.ofList number.specialText

end PipelineChart.Binary
