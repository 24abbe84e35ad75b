import PipelineChart.Json.Value
import PipelineChart.Text.Digits

/-!
Reading JSON values. A reader returns what it has read and the rest of the text, or nothing where the
text is no JSON. The length of a text bounds the number of values in it.
-/

namespace PipelineChart.Json

open Text

def skipBlanks (text : List Char) : List Char :=
  text.dropWhile fun char => char == ' ' || char == '\t' || char == '\n' || char == '\r'

def readCode? : List Char → Option (Nat × List Char)
  | a :: b :: c :: d :: rest =>
      if [a, b, c, d].all isHexDigit then some (valueOf 16 [a, b, c, d], rest) else none
  | _ => none

/-- The character of an escaped code; two surrogates in turn stand for one character. -/
def readUnicode? (text : List Char) : Option (Char × List Char) :=
  match readCode? text with
  | none => none
  | some (code, rest) =>
      if 0xD800 ≤ code ∧ code < 0xDC00 then
        match rest with
        | '\\' :: 'u' :: rest =>
            match readCode? rest with
            | some (low, rest) =>
                if 0xDC00 ≤ low ∧ low < 0xE000 then
                  (charOf? (0x10000 + (code - 0xD800) * 0x400 + (low - 0xDC00))).map (·, rest)
                else none
            | none => none
        | _ => none
      else (charOf? code).map (·, rest)

def unescape? : Char → Option Char
  | '"' => some '"'
  | '\\' => some '\\'
  | '/' => some '/'
  | 'b' => some '\x08'
  | 'f' => some '\x0c'
  | 'n' => some '\n'
  | 'r' => some '\r'
  | 't' => some '\t'
  | _ => none

def readChars? : (bound : Nat) → List Char → Option (List Char × List Char)
  | 0, _ => none
  | _, [] => none
  | bound + 1, char :: text =>
      if char = '"' then some ([], text)
      else if char = '\\' then
        match text with
        | [] => none
        | 'u' :: code =>
            (readUnicode? code).bind fun (char, rest) =>
              (readChars? bound rest).map fun (chars, rest) => (char :: chars, rest)
        | escaped :: rest =>
            (unescape? escaped).bind fun char =>
              (readChars? bound rest).map fun (chars, rest) => (char :: chars, rest)
      else if char.toNat < 32 then none
      else (readChars? bound text).map fun (chars, rest) => (char :: chars, rest)

def readString? (text : List Char) : Option (String × List Char) :=
  (readChars? (text.length + 1) text).map fun (chars, rest) => (String.ofList chars, rest)

def takeDigits (text : List Char) : List Char × List Char := text.span Char.isDigit

def readFraction? : List Char → Option (List Char × List Char)
  | '.' :: text =>
      match takeDigits text with
      | ([], _) => none
      | (digits, rest) => some (digits, rest)
  | text => some ([], text)

def readExponent? : List Char → Option (Option Int × List Char)
  | [] => some (none, [])
  | mark :: text =>
      if mark = 'e' ∨ mark = 'E' then
        let (negative, text) := match text with
          | '-' :: text => (true, text)
          | '+' :: text => (false, text)
          | text => (false, text)
        match takeDigits text with
        | ([], _) => none
        | (digits, rest) =>
            let value : Int := Nat.ofDigitChars 10 digits 0
            some (some (if negative then -value else value), rest)
      else some (none, mark :: text)

/-- The digits before the point: a zero alone, or digits that do not begin with one. -/
def readWhole? (text : List Char) : Option (List Char × List Char) :=
  match takeDigits text with
  | ([], _) => none
  | ('0' :: _ :: _, _) => none
  | (digits, rest) => some (digits, rest)

def readNumber? (text : List Char) : Option (Json × List Char) :=
  let (negative, text) := match text with
    | '-' :: text => (true, text)
    | text => (false, text)
  (readWhole? text).bind fun (whole, rest) =>
    (readFraction? rest).bind fun (fraction, rest) =>
      (readExponent? rest).map fun (exponent, rest) =>
        let digits := Nat.ofDigitChars 10 (whole ++ fraction) 0
        match fraction, exponent with
        | [], none =>
            if negative && digits == 0 then (.decimal ⟨true, 0, 0⟩, rest)
            else (.integer (if negative then -digits else digits), rest)
        | _, _ =>
            (.decimal (Decimal.ofScaled negative digits (exponent.getD 0 - fraction.length)), rest)

def readWord? (word : String) (value : Json) (text : List Char) : Option (Json × List Char) :=
  if word.toList.isPrefixOf text then some (value, text.drop word.length) else none

mutual

def readValue? : (bound : Nat) → List Char → Option (Json × List Char)
  | 0, _ => none
  | bound + 1, text =>
      match skipBlanks text with
      | [] => none
      | '"' :: rest => (readString? rest).map fun (value, rest) => (.string value, rest)
      | '[' :: rest =>
          match skipBlanks rest with
          | ']' :: rest => some (.array [], rest)
          | _ => (readItems? bound rest).map fun (items, rest) => (.array items, rest)
      | '{' :: rest =>
          match skipBlanks rest with
          | '}' :: rest => some (.object [], rest)
          | _ => (readMembers? bound rest).map fun (members, rest) => (.object members, rest)
      | 'n' :: rest => readWord? "null" .null ('n' :: rest)
      | 't' :: rest => readWord? "true" (.bool true) ('t' :: rest)
      | 'f' :: rest => readWord? "false" (.bool false) ('f' :: rest)
      | other => readNumber? other

def readItems? : (bound : Nat) → List Char → Option (List Json × List Char)
  | 0, _ => none
  | bound + 1, text =>
      (readValue? bound text).bind fun (item, rest) =>
        match skipBlanks rest with
        | ']' :: rest => some ([item], rest)
        | ',' :: rest => (readItems? bound rest).map fun (items, rest) => (item :: items, rest)
        | _ => none

def readMembers? : (bound : Nat) → List Char → Option (List (String × Json) × List Char)
  | 0, _ => none
  | bound + 1, text =>
      match skipBlanks text with
      | '"' :: rest =>
          (readString? rest).bind fun (key, rest) =>
            match skipBlanks rest with
            | ':' :: rest =>
                (readValue? bound rest).bind fun (value, rest) =>
                  match skipBlanks rest with
                  | '}' :: rest => some ([(key, value)], rest)
                  | ',' :: rest =>
                      (readMembers? bound rest).map fun (members, rest) =>
                        ((key, value) :: members, rest)
                  | _ => none
            | _ => none
      | _ => none

end

def parse? (text : String) : Option Json :=
  let chars := text.toList
  match readValue? (chars.length + 1) chars with
  | some (value, rest) => if (skipBlanks rest).isEmpty then some value else none
  | none => none

end PipelineChart.Json
