/-!
Digits in the bases that texts are written in.
-/

namespace PipelineChart.Text

def hexValue? (char : Char) : Option Nat :=
  if char.isDigit then some (char.toNat - '0'.toNat)
  else if 'a' ≤ char ∧ char ≤ 'f' then some (char.toNat - 'a'.toNat + 10)
  else if 'A' ≤ char ∧ char ≤ 'F' then some (char.toNat - 'A'.toNat + 10)
  else none

def isHexDigit (char : Char) : Bool := (hexValue? char).isSome

def hexChar (value : Nat) : Char := Nat.digitChar value

/-- The value of digits in `base`; a character that is no digit counts as zero. -/
def valueOf (base : Nat) (digits : List Char) : Nat :=
  digits.foldl (fun value char => base * value + (hexValue? char).getD 0) 0

def charOf? (code : Nat) : Option Char :=
  if code.isValidChar then some (Char.ofNat code) else none

end PipelineChart.Text
