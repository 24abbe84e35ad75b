import PipelineChart.Binary.Shortest
import PipelineChart.Json.Value
import PipelineChart.Text.Hidden

/-!
The data that settings are read from, whichever notation they were written in. A notation may have
numerals that stand for no number: they are data too, and only where one is read it is a fault.
-/

namespace PipelineChart

inductive Datum where
  | null
  | bool (value : Bool)
  | integer (value : Int)
  | float (value : Double)
  | string (value : String)
  | sequence (items : List Datum)
  | map (members : List (String × Datum))
  | unreadable

namespace Datum

def isWord (value : Int) : Bool := -0x8000000000000000 ≤ value && value < 0x10000000000000000

/-- Integers of 64 bits stay integers, larger ones become floating numbers. -/
def ofInteger (value : Int) : Datum :=
  if isWord value then .integer value else .float (.ofInt value)

mutual

def ofJson : Json → Datum
  | .null => .null
  | .bool value => .bool value
  | .integer value => ofInteger value
  | .decimal value => .float (.ofDecimal value)
  | .string value => .string value
  | .array items => .sequence (ofItems items)
  | .object members => .map (ofMembers members)

def ofItems : List Json → List Datum
  | [] => []
  | item :: items => ofJson item :: ofItems items

def ofMembers : List (String × Json) → List (String × Datum)
  | [] => []
  | (key, value) :: members => (key, ofJson value) :: ofMembers members

end

mutual

def isReadable : Datum → Bool
  | .unreadable => false
  | .sequence items => areReadable items
  | .map members => membersReadable members
  | _ => true

def areReadable : List Datum → Bool
  | [] => true
  | item :: items => isReadable item && areReadable items

def membersReadable : List (String × Datum) → Bool
  | [] => true
  | (_, value) :: members => isReadable value && membersReadable members

end

def shownChar (char : Char) : List Char :=
  match char with
  | '"' => ['\\', '"']
  | '\\' => ['\\', '\\']
  | '\n' => ['\\', 'n']
  | '\r' => ['\\', 'r']
  | '\t' => ['\\', 't']
  | '\x00' => ['\\', '0']
  | char =>
      if Text.isHidden char then
        ['\\', 'u', '{'] ++ Nat.toDigits 16 char.toNat ++ ['}']
      else [char]

def shown (text : String) : String := String.ofList (text.toList.flatMap shownChar)

def description : Datum → String
  | .null => "null"
  | .bool value => "boolean `" ++ toString value ++ "`"
  | .integer value => "integer `" ++ toString value ++ "`"
  | .float value => "floating point `" ++ value.describe ++ "`"
  | .string value => "string \"" ++ shown value ++ "\""
  | .sequence _ => "sequence"
  | .map _ => "map"
  | .unreadable => "unreadable number"

end Datum

end PipelineChart
