import PipelineChart.Settings.Datum

/-!
Tables under construction. A header opens a table once; a table that only stands on the way to
another is implied, and may still be opened. Points in a key lead through implied tables and through
the last table of an array, and an implied table that they led through is opened by no header any more.
What a value has filled, arrays and inline tables among them, is closed.
-/

namespace PipelineChart.Toml

inductive Origin where
  | opened
  | implied
  | dotted
  deriving DecidableEq

inductive Entry where
  | value (datum : Datum)
  | table (origin : Origin) (entries : List (String × Entry))
  | tables (elements : List (List (String × Entry)))

abbrev Entries := List (String × Entry)

mutual

def Entry.datum : Entry → Datum
  | .value datum => datum
  | .table _ entries => .map (datums entries)
  | .tables elements => .sequence (elementData elements)

def datums : List (String × Entry) → List (String × Datum)
  | [] => []
  | (key, entry) :: entries => (key, entry.datum) :: datums entries

def elementData : List (List (String × Entry)) → List Datum
  | [] => []
  | element :: elements => .map (datums element) :: elementData elements

end

namespace Entries

def find? (entries : Entries) (key : String) : Option Entry :=
  (List.find? (fun entry => entry.1 == key) entries).map Prod.snd

def put (key : String) (entry : Entry) : Entries → Entries
  | [] => [(key, entry)]
  | (other, old) :: entries =>
      if other = key then (key, entry) :: entries else (other, old) :: put key entry entries

def changeLast? (change : Entries → Option Entries) : List Entries → Option (List Entries)
  | [] => none
  | [element] => (change element).map fun element => [element]
  | element :: elements => (changeLast? change elements).map (element :: ·)

/-- Changes the table at the end of the path of a header, which leads through the last table of an
array. -/
def changeAt? (change : Entries → Option Entries) : List String → Entries → Option Entries
  | [], entries => change entries
  | key :: path, entries =>
      match entries.find? key with
      | none =>
          (changeAt? change path []).map fun inner => entries.put key (.table .implied inner)
      | some (.table origin inner) =>
          (changeAt? change path inner).map fun inner => entries.put key (.table origin inner)
      | some (.tables elements) =>
          (changeLast? (changeAt? change path) elements).map fun elements =>
            entries.put key (.tables elements)
      | some (.value _) => none

def openTable? (key : String) (entries : Entries) : Option Entries :=
  match entries.find? key with
  | none => some (entries.put key (.table .opened []))
  | some (.table .implied inner) => some (entries.put key (.table .opened inner))
  | some _ => none

def openElement? (key : String) (entries : Entries) : Option Entries :=
  match entries.find? key with
  | none => some (entries.put key (.tables [[]]))
  | some (.tables elements) => some (entries.put key (.tables (elements ++ [[]])))
  | some _ => none

/-- Gives a value to the key at the end of a path. An opened table takes no values through points. -/
def assign? (datum : Datum) : List String → Entries → Option Entries
  | [], _ => none
  | key :: path, entries =>
      match entries.find? key with
      | none =>
          if path = [] then some (entries.put key (.value datum))
          else (assign? datum path []).map fun inner => entries.put key (.table .dotted inner)
      | some (.table .opened _) => none
      | some (.table _ inner) =>
          (assign? datum path inner).map fun inner => entries.put key (.table .dotted inner)
      | some (.tables elements) =>
          if path.length = 1 then none
          else
            (changeLast? (assign? datum path) elements).map fun elements =>
              entries.put key (.tables elements)
      | some (.value _) => none

def ofPairs? (pairs : List (List String × Datum)) : Option Entries :=
  pairs.foldlM (fun entries (path, datum) => assign? datum path entries) []

end Entries

inductive Statement where
  | header (path : List String)
  | elementHeader (path : List String)
  | pair (path : List String) (datum : Datum)

structure Document where
  current : List String
  entries : Entries

namespace Document

def empty : Document := ⟨[], []⟩

def openAt? (document : Document) (path : List String)
    (opened : String → Entries → Option Entries) : Option Document :=
  match path.getLast? with
  | none => none
  | some key => (Entries.changeAt? (opened key) path.dropLast document.entries).map (⟨path, ·⟩)

def add? (document : Document) : Statement → Option Document
  | .header path => document.openAt? path Entries.openTable?
  | .elementHeader path => document.openAt? path Entries.openElement?
  | .pair path datum =>
      (Entries.changeAt? (Entries.assign? datum path) document.current
        document.entries).map (⟨document.current, ·⟩)

def ofStatements? (statements : List Statement) : Option Document :=
  statements.foldlM add? empty

def datum (document : Document) : Datum := .map (datums document.entries)

end Document

end PipelineChart.Toml
