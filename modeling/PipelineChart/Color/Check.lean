import PipelineChart.Color.Named
import PipelineChart.Text.Digits
import PipelineChart.Text.Glyph

/-!
The written forms of a colour: hexadecimal digits, a name, or a function with its arguments. Only
whether a text is a colour is told, so each step of reading passes over what it accepts.
-/

namespace PipelineChart.Color

open Text

inductive Fault where
  | digitCount
  | trailing
  | malformed
  | missingArguments
  | unknownName
  | missingSpace
  | unknownSpace
  | unknownComponent
  | unknownUnit
  | unknownAngle
  | missingComma
  | unclosed
  deriving DecidableEq

def Fault.message : Fault → String
  | .digitCount => "wrong number of hex digits"
  | .trailing => "expected end of string"
  | .malformed => "unknown color syntax"
  | .missingArguments => "expected arguments"
  | .unknownName => "unknown color identifier"
  | .missingSpace => "expected color space identifier"
  | .unknownSpace => "unknown color space"
  | .unknownComponent => "unknown color component"
  | .unknownUnit => "unknown angle dimension"
  | .unknownAngle => "unknown angle"
  | .missingComma => "expected comma"
  | .unclosed => "expected closing parenthesis"

abbrev Step := List Char → Except Fault (List Char)

def isGap (char : Char) : Bool := char == ' ' || char == '\t' || char == '\r' || char == '\n'

def afterComment? (text : List Char) : Option (List Char) :=
  (after? "/*".toList text).bind (leftmost? (after? "*/".toList))

def skip (isBlank : Char → Bool) : (bound : Nat) → List Char → List Char
  | 0, text => text
  | bound + 1, text =>
      match text with
      | [] => []
      | char :: rest =>
          if isBlank char then skip isBlank bound rest
          else
            match afterComment? text with
            | some rest => skip isBlank bound rest
            | none => text

def gaps (text : List Char) : List Char := skip isGap text.length text

def comments (text : List Char) : List Char := skip (fun _ => false) text.length text

def lowered (text : List Char) : List Char := text.map Char.toLower

/-- A mark, where it stands: comments may come before it. A slash that opens a comment is none. -/
def mark? (mark : Char) (text : List Char) : Option (List Char) :=
  let text := comments text
  if (after? "/*".toList text).isSome then none else after? [mark] text

def isNameChar (char : Char) : Bool := char.isAlpha || char == '_' || char == '-'

/-- Digits may not begin a name, nor follow a hyphen that begins it. -/
def takeName (text : List Char) : List Char × List Char :=
  match text with
  | '-' :: char :: rest =>
      if isNameChar char then
        let (front, rest) := rest.span fun char => isNameChar char || char.isDigit
        ('-' :: char :: front, rest)
      else (['-'], char :: rest)
  | char :: rest =>
      if isNameChar char then
        let (front, rest) := rest.span fun char => isNameChar char || char.isDigit
        (char :: front, rest)
      else ([], text)
  | [] => ([], [])

def name? (text : List Char) : Option (List Char × List Char) :=
  match takeName text with
  | ([], _) => none
  | (['-'], _) => none
  | ('-' :: '-' :: _, _) => none
  | found => some found

def skipSign : List Char → List Char
  | '+' :: text => text
  | '-' :: text => text
  | text => text

def skipDigits (text : List Char) : List Char := text.dropWhile Char.isDigit

def skipFraction (text : List Char) : List Char :=
  match text with
  | '.' :: digit :: rest => if digit.isDigit then skipDigits rest else text
  | _ => text

def skipExponent (text : List Char) : List Char :=
  match text with
  | mark :: rest =>
      if mark = 'e' ∨ mark = 'E' then
        match skipSign rest with
        | digit :: rest => if digit.isDigit then skipDigits rest else text
        | [] => text
      else text
  | [] => text

def number? (text : List Char) : Option (List Char) :=
  let unsigned := skipSign text
  let rest := skipFraction (skipDigits unsigned)
  if rest.length < unsigned.length then some (skipExponent rest) else none

inductive Token where
  | number
  | percent
  | dimension (unit : List Char)
  | symbol (name : List Char)

def token? (text : List Char) : Option (Token × List Char) :=
  let text := comments text
  match number? text with
  | some ('%' :: rest) => some (.percent, rest)
  | some rest =>
      match name? rest with
      | some (unit, rest) => some (.dimension unit, rest)
      | none => some (.number, rest)
  | none => (name? text).map fun (name, rest) => (.symbol name, rest)

def isNone (name : List Char) : Bool := lowered name == "none".toList

def component : Step := fun text =>
  match token? (gaps text) with
  | some (.number, rest) => .ok rest
  | some (.percent, rest) => .ok rest
  | some (.symbol name, rest) => if isNone name then .ok rest else .error .unknownComponent
  | _ => .error .unknownComponent

def units : List String := ["deg", "rad", "grad", "turn"]

def angle : Step := fun text =>
  match token? (gaps text) with
  | some (.number, rest) => .ok rest
  | some (.symbol name, rest) => if isNone name then .ok rest else .error .unknownAngle
  | some (.dimension unit, rest) =>
      if String.ofList (lowered unit) ∈ units then .ok rest else .error .unknownUnit
  | _ => .error .unknownAngle

def alpha (mark : Char) : Step := fun text =>
  match mark? mark (gaps text) with
  | some rest => component rest
  | none => .ok (gaps text)

/-- The second and the third component. A comma before the second one wants one before the third,
and goes before the alpha; without commas the alpha follows a slash. -/
def rest (text : List Char) : Except Fault (List Char) :=
  match mark? ',' text with
  | some text => do
      let text ← component text
      match mark? ',' (gaps text) with
      | some text => component text >>= alpha ','
      | none => .error .missingComma
  | none => component text >>= component >>= alpha '/'

def space : Step := fun text =>
  match name? (gaps text) with
  | some (name, rest) =>
      if String.ofList (lowered name) ∈ spaces then .ok rest else .error .unknownSpace
  | none => .error .missingSpace

def arguments? (name : String) : Option Step :=
  if name ∈ ["rgb", "rgba"] then some fun text => component text >>= (rest ∘ gaps)
  else if name ∈ ["hsl", "hsla"] then some fun text => angle text >>= rest
  else if name = "hwb" then some fun text => angle text >>= component >>= component >>= alpha '/'
  else if name ∈ ["lab", "oklab"] then
    some fun text => component text >>= component >>= component >>= alpha '/'
  else if name ∈ ["lch", "oklch"] then
    some fun text => component text >>= component >>= angle >>= alpha '/'
  else if name = "color" then
    some fun text => space text >>= component >>= component >>= component >>= alpha '/'
  else none

/-- A call: its parenthesis follows the name at once. -/
def call (arguments : Step) : Step := fun text =>
  match text with
  | '(' :: text => do
      let text ← arguments text
      match mark? ')' (gaps text) with
      | some text => .ok text
      | none => .error .unclosed
  | _ => .error .missingArguments

def finish (text : List Char) : Except Fault Unit :=
  if text.isEmpty then .ok () else .error .trailing

def hexCount (text : List Char) : Nat := ((text.take 8).takeWhile isHexDigit).length

def hex (text : List Char) : Except Fault Unit :=
  if hexCount text ∈ [3, 4, 6, 8] then finish (text.drop (hexCount text)) else .error .digitCount

def named (text : List Char) : Except Fault Unit :=
  match name? text with
  | none => .error .malformed
  | some (name, text) =>
      let name := String.ofList (lowered name)
      match arguments? name with
      | some arguments => call arguments text >>= finish
      | none => if name ∈ names then finish text else .error .unknownName

def check (text : String) : Except Fault Unit :=
  match trim text.toList with
  | '#' :: digits => hex digits
  | text => named text

end PipelineChart.Color
