import PipelineChart.Json.Value
import PipelineChart.Text.Digits

/-!
The text of a JSON value. The compact text has no spaces; the indented text begins each item and each
member on a line of its own, two spaces further in, and leaves empty arrays and objects closed.
-/

namespace PipelineChart.Json

inductive Style where
  | compact
  | indented
  deriving DecidableEq

/-- Quotes, backslashes and the characters below the space are escaped, all others stand as they are. -/
def escape (char : Char) : List Char :=
  match char with
  | '"' => ['\\', '"']
  | '\\' => ['\\', '\\']
  | '\n' => ['\\', 'n']
  | '\r' => ['\\', 'r']
  | '\t' => ['\\', 't']
  | '\x08' => ['\\', 'b']
  | '\x0c' => ['\\', 'f']
  | char =>
      if char.toNat < 32 then
        ['\\', 'u', '0', '0', Text.hexChar (char.toNat / 16), Text.hexChar (char.toNat % 16)]
      else [char]

def quoted (text : String) : List Char := '"' :: text.toList.flatMap escape ++ ['"']

def integerChars (value : Int) : List Char :=
  (if value < 0 then ['-'] else []) ++ Nat.toDigits 10 value.natAbs

def Style.line (style : Style) (depth : Nat) : List Char :=
  match style with
  | .compact => []
  | .indented => '\n' :: List.replicate (2 * depth) ' '

def Style.colon : Style → List Char
  | .compact => [':']
  | .indented => [':', ' ']

mutual

def render (style : Style) (depth : Nat) : Json → List Char
  | .null => "null".toList
  | .bool true => "true".toList
  | .bool false => "false".toList
  | .integer value => integerChars value
  | .decimal value => value.json
  | .string value => quoted value
  | .array [] => ['[', ']']
  | .array (item :: items) =>
      '[' :: style.line (depth + 1) ++ render style (depth + 1) item ++
        renderItems style (depth + 1) items ++ style.line depth ++ [']']
  | .object [] => ['{', '}']
  | .object ((key, value) :: members) =>
      '{' :: style.line (depth + 1) ++ quoted key ++ style.colon ++ render style (depth + 1) value ++
        renderMembers style (depth + 1) members ++ style.line depth ++ ['}']

def renderItems (style : Style) (depth : Nat) : List Json → List Char
  | [] => []
  | item :: items =>
      ',' :: style.line depth ++ render style depth item ++ renderItems style depth items

def renderMembers (style : Style) (depth : Nat) : List (String × Json) → List Char
  | [] => []
  | (key, value) :: members =>
      ',' :: style.line depth ++ quoted key ++ style.colon ++ render style depth value ++
        renderMembers style depth members

end

def text (style : Style) (json : Json) : String := String.ofList (render style 0 json)

end PipelineChart.Json
