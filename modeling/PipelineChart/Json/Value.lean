import PipelineChart.Decimal

/-!
JSON values. A number written without a fraction and without an exponent is an integer, any other a
decimal; negative zero is a decimal too. Members keep the order in which they stand.
-/

namespace PipelineChart

inductive Json where
  | null
  | bool (value : Bool)
  | integer (value : Int)
  | decimal (value : Decimal)
  | string (value : String)
  | array (items : List Json)
  | object (members : List (String × Json))
  deriving Inhabited

namespace Json

def strings (texts : List String) : Json := .array (texts.map .string)

def member? (json : Json) (key : String) : Option Json :=
  match json with
  | .object members => (members.find? fun member => member.1 == key).map Prod.snd
  | _ => none

end Json

end PipelineChart
