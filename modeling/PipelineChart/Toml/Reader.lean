import PipelineChart.Toml.Lexeme
import PipelineChart.Toml.Scalar
import PipelineChart.Toml.Table

/-!
Reading TOML: statements line by line, each a header or a key with its value. The length of a text
bounds the number of values and of statements in it.
-/

namespace PipelineChart.Toml

mutual

/-- A value, in which arrays and inline tables go down at most `levels`. -/
def readValue? : (bound levels : Nat) → List Char → Read Datum
  | 0, _, _ => none
  | bound + 1, levels, text =>
      match levels, text with
      | 0, '[' :: _ => none
      | 0, '{' :: _ => none
      | levels + 1, '[' :: rest =>
          (readItems? bound levels rest).map fun (items, rest) => (.sequence items, rest)
      | levels + 1, '{' :: rest =>
          (readPairs? bound levels rest).bind fun (pairs, rest) =>
            (Entries.ofPairs? pairs).map fun entries => (.map (datums entries), rest)
      | _, '"' :: _ => (readString? text).map fun (value, rest) => (.string value, rest)
      | _, '\'' :: _ => (readString? text).map fun (value, rest) => (.string value, rest)
      | _, _ => readScalar? text

def readItems? : (bound levels : Nat) → List Char → Read (List Datum)
  | 0, _, _ => none
  | bound + 1, levels, text =>
      (skipBetween? text).bind fun text =>
        match text with
        | ']' :: rest => some ([], rest)
        | _ =>
            (readValue? bound levels text).bind fun (item, rest) =>
              (skipBetween? rest).bind fun rest =>
                match rest with
                | ']' :: rest => some ([item], rest)
                | ',' :: rest =>
                    (readItems? bound levels rest).map fun (items, rest) => (item :: items, rest)
                | _ => none

def readPairs? : (bound levels : Nat) → List Char → Read (List (List String × Datum))
  | 0, _, _ => none
  | bound + 1, levels, text =>
      (skipBetween? text).bind fun text =>
        match text with
        | '}' :: rest => some ([], rest)
        | _ =>
            (readPair? bound levels text).bind fun (pair, rest) =>
              (skipBetween? rest).bind fun rest =>
                match rest with
                | '}' :: rest => some ([pair], rest)
                | ',' :: rest =>
                    (readPairs? bound levels rest).map fun (pairs, rest) => (pair :: pairs, rest)
                | _ => none

def readPair? : (bound levels : Nat) → List Char → Read (List String × Datum)
  | 0, _, _ => none
  | bound + 1, levels, text =>
      (readPath? levelLimit text).bind fun (path, rest) =>
        (skipBetween? rest).bind fun rest =>
          match rest with
          | '=' :: rest =>
              (skipBetween? rest).bind fun rest =>
                (readValue? bound levels rest).map fun (datum, rest) => ((path, datum), rest)
          | _ => none

end

def readHeaderPath? (text : List Char) : Read (List String) :=
  (readPath? levelLimit (skipGaps text)).map fun (path, rest) => (path, skipGaps rest)

def readStatement? (text : List Char) : Read Statement :=
  match text with
  | '[' :: '[' :: rest =>
      match readHeaderPath? rest with
      | some (path, ']' :: ']' :: rest) => some (.elementHeader path, rest)
      | _ => none
  | '[' :: rest =>
      match readHeaderPath? rest with
      | some (path, ']' :: rest) => some (.header path, rest)
      | _ => none
  | _ =>
      (readPath? levelLimit text).bind fun (path, rest) =>
        match skipGaps rest with
        | '=' :: rest =>
            (readValue? (rest.length + 1) levelLimit (skipGaps rest)).map fun (datum, rest) =>
              (.pair path datum, rest)
        | _ => none

def readStatements? : (bound : Nat) → List Char → Option (List Statement)
  | 0, _ => none
  | bound + 1, text =>
      (skipBetween? text).bind fun text =>
        if text.isEmpty then some []
        else
          (readStatement? text).bind fun (statement, rest) =>
            (endLine? rest).bind fun rest => (readStatements? bound rest).map (statement :: ·)

def skipOrderMark : List Char → List Char
  | '\uFEFF' :: text => text
  | text => text

def parse? (text : String) : Option Datum :=
  let chars := skipOrderMark text.toList
  ((readStatements? (chars.length + 2) chars).bind Document.ofStatements?).map Document.datum

end PipelineChart.Toml
