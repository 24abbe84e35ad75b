import PipelineChart.Text.Digits

/-!
The parts that TOML texts are made of: gaps, line ends, comments, strings and keys. A reader returns
what it has read and the rest of the text, or nothing where the text is malformed.
-/

namespace PipelineChart.Toml

open Text

def isGap (char : Char) : Bool := char == ' ' || char == '\t'

def skipGaps (text : List Char) : List Char := text.dropWhile isGap

/-- Controls other than the tab may stand nowhere. -/
def isControl (char : Char) : Bool :=
  (char.toNat < 32 && char != '\t') || char.toNat == 127

def afterLineEnd? : List Char → Option (List Char)
  | '\n' :: rest => some rest
  | '\r' :: '\n' :: rest => some rest
  | _ => none

def skipComment? : List Char → Option (List Char)
  | '#' :: text =>
      let rest := text.dropWhile fun char => !isControl char
      if rest.isEmpty || (afterLineEnd? rest).isSome then some rest else none
  | text => some text

def endLine? (text : List Char) : Option (List Char) :=
  (skipComment? (skipGaps text)).bind fun rest => if rest.isEmpty then some [] else afterLineEnd? rest

def skipLines? : (bound : Nat) → List Char → Option (List Char)
  | 0, text => some text
  | bound + 1, text =>
      match skipComment? (skipGaps text) with
      | none => none
      | some rest =>
          match afterLineEnd? rest with
          | some rest => skipLines? bound rest
          | none => some rest

def skipBetween? (text : List Char) : Option (List Char) := skipLines? (text.length + 1) text

def readCode? (digits : Nat) (text : List Char) : Option (Char × List Char) :=
  let code := text.take digits
  if code.length = digits ∧ code.all isHexDigit then
    (charOf? (valueOf 16 code)).map (·, text.drop digits)
  else none

def readEscape? : List Char → Option (Char × List Char)
  | 'b' :: rest => some ('\x08', rest)
  | 't' :: rest => some ('\t', rest)
  | 'n' :: rest => some ('\n', rest)
  | 'f' :: rest => some ('\x0c', rest)
  | 'r' :: rest => some ('\r', rest)
  | 'e' :: rest => some ('\x1b', rest)
  | '"' :: rest => some ('"', rest)
  | '\\' :: rest => some ('\\', rest)
  | 'x' :: rest => readCode? 2 rest
  | 'u' :: rest => readCode? 4 rest
  | 'U' :: rest => readCode? 8 rest
  | _ => none

abbrev Read (β : Type) := Option (β × List Char)

def push (char : Char) (read : Read (List Char)) : Read (List Char) :=
  read.map fun (chars, rest) => (char :: chars, rest)

def readBasic? : (bound : Nat) → List Char → Read (List Char)
  | 0, _ => none
  | _, [] => none
  | bound + 1, char :: text =>
      if char = '"' then some ([], text)
      else if char = '\\' then
        (readEscape? text).bind fun (char, rest) => push char (readBasic? bound rest)
      else if isControl char then none
      else push char (readBasic? bound text)

def readLiteral? : List Char → Read (List Char)
  | [] => none
  | char :: text =>
      if char = '\'' then some ([], text)
      else if isControl char then none
      else push char (readLiteral? text)

def skipBlankLines : List Char → List Char
  | [] => []
  | '\r' :: '\n' :: rest => skipBlankLines rest
  | char :: rest => if isGap char || char == '\n' then skipBlankLines rest else char :: rest

def afterContinuation? (text : List Char) : Option (List Char) :=
  (afterLineEnd? (skipGaps text)).map skipBlankLines

/-- The end of a string over several lines: three quotes close it, and up to two more belong to it. -/
def closing? (quote : Char) (text : List Char) : Read (List Char) :=
  let count := min 5 (text.takeWhile (· == quote)).length
  if 3 ≤ count then some (List.replicate (count - 3) quote, text.drop count) else none

/-- A string over several lines, behind its opening; with `escapes` for double quotes. -/
def readLines? (quote : Char) (escapes : Bool) : (bound : Nat) → List Char → Read (List Char)
  | 0, _ => none
  | bound + 1, text =>
      match closing? quote text with
      | some found => some found
      | none =>
          match text with
          | [] => none
          | '\r' :: '\n' :: rest => push '\r' (push '\n' (readLines? quote escapes bound rest))
          | char :: rest =>
              if char = '\\' ∧ escapes then
                match afterContinuation? rest with
                | some rest => readLines? quote escapes bound rest
                | none =>
                    (readEscape? rest).bind fun (char, rest) =>
                      push char (readLines? quote escapes bound rest)
              else if isControl char ∧ char ≠ '\n' then none
              else push char (readLines? quote escapes bound rest)

def skipFirstLineEnd (text : List Char) : List Char := (afterLineEnd? text).getD text

def readString? : List Char → Read String
  | '"' :: '"' :: '"' :: text => found (readLines? '"' true (text.length + 1) (skipFirstLineEnd text))
  | '\'' :: '\'' :: '\'' :: text =>
      found (readLines? '\'' false (text.length + 1) (skipFirstLineEnd text))
  | '"' :: text => found (readBasic? (text.length + 1) text)
  | '\'' :: text => found (readLiteral? text)
  | _ => none
where
  found (read : Read (List Char)) : Read String :=
    read.map fun (chars, rest) => (String.ofList chars, rest)

def isKeyChar (char : Char) : Bool := char.isAlphanum || char == '_' || char == '-'

/-- A key is a quoted string on one line, or bare letters, digits, underscores and hyphens. -/
def readKey? (text : List Char) : Read String :=
  match text with
  | '"' :: rest =>
      (readBasic? (rest.length + 1) rest).map fun (chars, rest) => (String.ofList chars, rest)
  | '\'' :: rest => (readLiteral? rest).map fun (chars, rest) => (String.ofList chars, rest)
  | _ =>
      match text.span isKeyChar with
      | ([], _) => none
      | (chars, rest) => some (String.ofList chars, rest)

/-- How deep arrays and inline tables may stand in each other, and how many keys a path may have. -/
def levelLimit : Nat := 80

def readPath? : (bound : Nat) → List Char → Read (List String)
  | 0, _ => none
  | bound + 1, text =>
      (readKey? text).bind fun (key, rest) =>
        match skipGaps rest with
        | '.' :: rest => (readPath? bound (skipGaps rest)).map fun (path, rest) => (key :: path, rest)
        | rest => some ([key], rest)

end PipelineChart.Toml
