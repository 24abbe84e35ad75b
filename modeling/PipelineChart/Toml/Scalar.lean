import PipelineChart.Settings.Datum
import PipelineChart.Text.Digits
import PipelineChart.Text.Glyph
import PipelineChart.Toml.Lexeme

/-!
TOML scalars that are written without quotes: booleans, integers, floating numbers, dates and times.
A numeral may have the form of a number and yet be none: one that is too large, or an integer with
other characters than digits behind an underscore. It is not malformed, but it cannot be read.
-/

namespace PipelineChart.Toml

open Text

def digits? (isDigit : Char → Bool) : List Char → Option (List Char)
  | [] => none
  | [char] => if isDigit char then some [char] else none
  | char :: '_' :: text =>
      if isDigit char then (digits? isDigit text).map (char :: ·) else none
  | char :: text => if isDigit char then (digits? isDigit text).map (char :: ·) else none

def isOctalDigit (char : Char) : Bool := '0' ≤ char && char ≤ '7'

def isBinaryDigit (char : Char) : Bool := char == '0' || char == '1'

def sign (text : List Char) : Bool × List Char :=
  match text with
  | '-' :: rest => (true, rest)
  | '+' :: rest => (false, rest)
  | _ => (false, text)

def wholeDigits? (text : List Char) : Option (List Char) :=
  match digits? Char.isDigit text with
  | some ('0' :: _ :: _) => none
  | found => found

def isExponentMark (char : Char) : Bool := char == 'e' || char == 'E'

def isFloatMark (char : Char) : Bool := char == '.' || isExponentMark char

/-- Each underscore stands between digits, of whatever base; `behind` tells that one comes before. -/
def isSpaced : (behind : Bool) → List Char → Bool
  | _, [] => true
  | behind, char :: text =>
      if char = '_' then behind && text.head?.any isHexDigit && isSpaced false text
      else isSpaced (isHexDigit char) text

def integerReach : Int := 0x80000000000000000000000000000000

/-- Integers take up to 128 bits, of which settings use 64. -/
def integerOf (base : Nat) (isDigit : Char → Bool) (negative : Bool) (digits : List Char) : Datum :=
  let value : Int := if negative then -(valueOf base digits : Int) else valueOf base digits
  if !digits.isEmpty && digits.all isDigit &&
      decide (-integerReach ≤ value ∧ value < 2 * integerReach) then .integer value
  else .unreadable

def basedInteger? (base : Nat) (isDigit : Char → Bool) (text : List Char) : Option Datum :=
  let digits := text.filter (· != '_')
  if digits.all isDigit && isSpaced false text then some (integerOf base isDigit false digits)
  else none

/-- Behind its first digits an integer ends or goes on with an underscore, and no zero stands in
front. -/
def plainInteger? (text : List Char) : Option Datum :=
  let (negative, unsigned) := sign text
  let rest := unsigned.dropWhile Char.isDigit
  if unsigned.head?.any Char.isDigit && (unsigned.head? != some '0' || unsigned.length == 1) &&
      (rest.isEmpty || rest.head? == some '_') && !unsigned.any isFloatMark &&
      !unsigned.contains ' ' && isSpaced false unsigned then
    some (integerOf 10 Char.isDigit negative (unsigned.filter (· != '_')))
  else none

def integer? (text : List Char) : Option Datum :=
  match text with
  | '0' :: 'x' :: rest => basedInteger? 16 isHexDigit rest
  | '0' :: 'o' :: rest => basedInteger? 8 isOctalDigit rest
  | '0' :: 'b' :: rest => basedInteger? 2 isBinaryDigit rest
  | _ => plainInteger? text

def exponent? (text : List Char) : Option Int :=
  match text with
  | [] => some 0
  | _ :: rest =>
      let (negative, rest) := sign rest
      (digits? Char.isDigit rest).map fun digits =>
        if negative then -(valueOf 10 digits : Int) else valueOf 10 digits

def fraction? (text : List Char) : Option (List Char) :=
  match text with
  | '.' :: rest => digits? Char.isDigit rest
  | [] => some []
  | _ => none

def decimal? (text : List Char) : Option Datum :=
  let (negative, unsigned) := sign text
  let (significand, power) := unsigned.span fun char => !isExponentMark char
  let (whole, part) := significand.span fun char => char != '.'
  if unsigned.any isFloatMark then
    (wholeDigits? whole).bind fun whole =>
      (fraction? part).bind fun part =>
        (exponent? power).map fun power =>
          let value : Double := Binary.ofDecimal
            (Decimal.ofScaled negative (valueOf 10 (whole ++ part)) (power - part.length))
          if value.isFinite then .float value else .unreadable
  else none

def special? (text : List Char) : Option Datum :=
  let (negative, unsigned) := sign text
  if unsigned = "inf".toList then some (.float (.infinite negative))
  else if unsigned = "nan".toList then some (.float .nan)
  else none

def fixed? (count : Nat) (text : List Char) : Option (Nat × List Char) :=
  let digits := text.take count
  if digits.length = count ∧ digits.all Char.isDigit then
    some (valueOf 10 digits, text.drop count)
  else none

def daysOf (year month : Nat) : Nat :=
  if month = 2 then
    if year % 4 = 0 ∧ (year % 100 ≠ 0 ∨ year % 400 = 0) then 29 else 28
  else if month ∈ [4, 6, 9, 11] then 30
  else 31

def afterChar? (char : Char) : List Char → Option (List Char)
  | [] => none
  | first :: rest => if first = char then some rest else none

def afterDate? (text : List Char) : Option (List Char) := do
  let (year, text) ← fixed? 4 text
  let (month, text) ← fixed? 2 (← afterChar? '-' text)
  let (day, text) ← fixed? 2 (← afterChar? '-' text)
  if 1 ≤ month ∧ month ≤ 12 ∧ 1 ≤ day ∧ day ≤ daysOf year month then some text else none

def afterTime? (text : List Char) : Option (List Char) := do
  let (hour, text) ← fixed? 2 text
  let (minute, text) ← fixed? 2 (← afterChar? ':' text)
  if 23 < hour ∨ 59 < minute then none
  else
    match text with
    | ':' :: text =>
        let (second, text) ← fixed? 2 text
        if 60 < second then none
        else
          match text with
          | '.' :: digit :: text => if digit.isDigit then some (text.dropWhile Char.isDigit) else none
          | ['.'] => none
          | text => some text
    | text => some text

def isOffset (text : List Char) : Bool :=
  match text with
  | [] => true
  | [mark] => mark == 'Z' || mark == 'z'
  | mark :: text =>
      (mark == '+' || mark == '-') &&
        match fixed? 2 text with
        | some (hour, ':' :: rest) =>
            match fixed? 2 rest with
            | some (minute, []) => hour < 24 && minute < 60
            | _ => false
        | _ => false

def isMoment (text : List Char) : Bool :=
  match afterDate? text with
  | some [] => true
  | some (mark :: rest) =>
      (mark == 'T' || mark == 't' || mark == ' ') &&
        match afterTime? rest with
        | some offset => isOffset offset
        | none => false
  | none => afterTime? text == some []

/-- A moment is a map of one key, which no setting has. -/
def momentKey : String := "moment"

def moment? (text : List Char) : Option Datum :=
  if isMoment text then some (.map [(momentKey, .string (String.ofList text))]) else none

def scalar? (text : List Char) : Option Datum :=
  if text = "true".toList then some (.bool true)
  else if text = "false".toList then some (.bool false)
  else (special? text).or ((integer? text).or ((decimal? text).or (moment? text)))

def isScalarChar (char : Char) : Bool := char ∉ "=,[]\x7b\x7d\r\n#".toList

/-- The characters that belong to a scalar, and the gaps behind it. Words with gaps between them are
one scalar, but a quote begins no further word. -/
def scalarFront : (behindGap : Bool) → List Char → List Char
  | _, [] => []
  | behindGap, char :: text =>
      if isGap char then char :: scalarFront true text
      else if isScalarChar char && !(behindGap && isQuote char) then char :: scalarFront false text
      else []

def readScalar? (text : List Char) : Option (Datum × List Char) :=
  let front := scalarFront false text
  let scalar := (front.reverse.dropWhile isGap).reverse
  (scalar? scalar).map (·, text.drop scalar.length)

end PipelineChart.Toml
