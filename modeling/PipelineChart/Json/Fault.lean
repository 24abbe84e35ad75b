import PipelineChart.Text.Digits

/-!
Faults of reading and writing JSON. The place of a fault, where it has one, stands at the end of its
text. Lines are counted from one, so a text that ends with line zero tells no place, and the words of
that ending belong to no message.
-/

namespace PipelineChart.Json

open Text

structure Place where
  line : Nat
  column : Nat
  deriving DecidableEq

structure Fault where
  message : String
  place : Option Place
  deriving DecidableEq

namespace Fault

def lineLabel : String := " at line "

def columnLabel : String := " column "

def text (fault : Fault) : String :=
  match fault.place with
  | none => fault.message
  | some place =>
      fault.message ++ lineLabel ++ toString place.line ++ columnLabel ++ toString place.column

def isCount (count : Nat) : Bool := count < 0x10000000000000000

def endingCount? (label text : List Char) : Option (List Char × Nat) :=
  let (digits, front) := text.reverse.span Char.isDigit
  let count := valueOf 10 digits.reverse
  if !digits.isEmpty && label.reverse.isPrefixOf front && isCount count then
    some ((front.drop label.length).reverse, count)
  else none

/-- The fault that a text tells: its last words may be a place, zeros in front of a count being
passed over. -/
def ofText (text : String) : Fault :=
  match endingCount? columnLabel.toList text.toList with
  | none => ⟨text, none⟩
  | some (front, column) =>
      match endingCount? lineLabel.toList front with
      | none => ⟨text, none⟩
      | some (message, line) =>
          ⟨String.ofList message, if line = 0 then none else some ⟨line, column⟩⟩

end Fault

end PipelineChart.Json
