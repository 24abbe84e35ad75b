import PipelineChart.Settings.Basic
import PipelineChart.Settings.Datum

/-!
Reading settings from data. A section is a map of its fields in any order, or a sequence of them in
the order of their declaration. Fields that are not given keep their defaults. The values of keys that
name no field are read and dropped; what a sequence holds beyond the fields is not even read. The
first field that does not fit is reported.
-/

namespace PipelineChart

inductive Expected where
  | number
  | count
  | flag
  | text
  | record (name : String)
  deriving DecidableEq

def Expected.description : Expected → String
  | .number => "f32"
  | .count => "usize"
  | .flag => "a boolean"
  | .text => "a string"
  | .record name => "struct " ++ name

inductive DecodeFault where
  | wrongType (found : Datum) (expected : Expected)
  | outOfRange (found : Int) (expected : Expected)
  | surplus (count : Nat)
  | unreadable

def DecodeFault.message : DecodeFault → String
  | .wrongType found expected =>
      "invalid type: " ++ found.description ++ ", expected " ++ expected.description
  | .outOfRange found expected =>
      "invalid value: integer `" ++ toString found ++ "`, expected " ++ expected.description
  | .surplus count =>
      "invalid length " ++ toString count ++ ", expected fewer elements in array"
  | .unreadable => "unreadable number"

namespace Datum

/-- Integers go to the nearest number at once, floating numbers by way of double precision. -/
def single : Datum → Except DecodeFault Single
  | .integer value =>
      if isWord value then .ok (.ofInt value) else .error (.outOfRange value .number)
  | .float value => .ok value.convert
  | datum => .error (.wrongType datum .number)

def count : Datum → Except DecodeFault Nat
  | .integer value =>
      if 0 ≤ value ∧ isWord value then .ok value.toNat else .error (.outOfRange value .count)
  | datum => .error (.wrongType datum .count)

def flag : Datum → Except DecodeFault Bool
  | .bool value => .ok value
  | datum => .error (.wrongType datum .flag)

def text : Datum → Except DecodeFault String
  | .string value => .ok value
  | datum => .error (.wrongType datum .text)

end Datum

structure Field (σ : Type) where
  name : String
  put : σ → Datum → Except DecodeFault σ

structure Record (σ : Type) where
  name : String
  initial : σ
  fields : List (Field σ)

namespace Record

variable {σ : Type} (record : Record σ)

def putMember (value : σ) (member : String × Datum) : Except DecodeFault σ :=
  match record.fields.find? fun field => field.name == member.1 with
  | some field => field.put value member.2
  | none => if member.2.isReadable then .ok value else .error .unreadable

def putItems : List (Field σ) → List Datum → σ → Except DecodeFault σ
  | field :: fields, item :: items, value => do putItems fields items (← field.put value item)
  | _, _, value => .ok value

/-- Where `exact` is asked for, a sequence may not be longer than the fields. -/
def decode (exact : Bool) : Datum → Except DecodeFault σ
  | .map members => members.foldlM record.putMember record.initial
  | .sequence items => do
      let value ← putItems record.fields items record.initial
      if exact && record.fields.length < items.length then .error (.surplus items.length)
      else .ok value
  | datum => .error (.wrongType datum (.record record.name))

end Record

def Metrics.record : Record (Metrics Single) where
  name := "LayoutConfig"
  initial := .default
  fields :=
    [⟨"node_width", fun metrics datum => return { metrics with nodeWidth := ← datum.single }⟩,
      ⟨"node_height", fun metrics datum => return { metrics with nodeHeight := ← datum.single }⟩,
      ⟨"horizontal_spacing", fun metrics datum =>
        return { metrics with horizontalSpacing := ← datum.single }⟩,
      ⟨"vertical_spacing", fun metrics datum =>
        return { metrics with verticalSpacing := ← datum.single }⟩]

def Pipeline.Options.record : Record Pipeline.Options where
  name := "ParserConfig"
  initial := .default
  fields :=
    [⟨"max_depth", fun options datum => return { options with maxDepth := ← datum.count }⟩,
      ⟨"strict", fun options datum => return { options with strict := ← datum.flag }⟩]

def EdgeStyle.record : Record EdgeStyle where
  name := "StyleConfig"
  initial := .default
  fields :=
    [⟨"edge_color", fun style datum => return { style with color := ← datum.text }⟩,
      ⟨"edge_width", fun style datum => return { style with width := ← datum.single }⟩]

namespace Settings

def record (exact : Bool) : Record Settings where
  name := "AppConfig"
  initial := .default
  fields :=
    [⟨"layout", fun settings datum =>
        return { settings with metrics := ← Metrics.record.decode exact datum }⟩,
      ⟨"parser", fun settings datum =>
        return { settings with options := ← Pipeline.Options.record.decode exact datum }⟩,
      ⟨"style", fun settings datum =>
        return { settings with style := ← EdgeStyle.record.decode exact datum }⟩]

def decode (exact : Bool) (datum : Datum) : Except DecodeFault Settings :=
  (record exact).decode exact datum

def ofJson (json : Json) : Except DecodeFault Settings := decode true (Datum.ofJson json)

end Settings

end PipelineChart
