import PipelineChart.Chart.Document
import PipelineChart.Proofs.Json.Text

/-!
What a document tells of its chart. The two formats put the name and the steps of a node in different places;
readers of both find the same contents, in either style of the text.
-/

namespace PipelineChart

/-- A node as a document has it; the numerals of its position are left as they stand there. -/
structure NodeEntry where
  id : String
  name : String
  steps : List String
  x : Json
  y : Json

structure EdgeEntry where
  id : String
  source : String
  target : String

structure Contents where
  nodes : List NodeEntry
  edges : List EdgeEntry

namespace Json

def string? : Json → Option String
  | .string value => some value
  | _ => none

def items? : Json → Option (List Json)
  | .array items => some items
  | _ => none

def stringAt? (json : Json) (key : String) : Option String := (json.member? key).bind string?

def itemsAt? (json : Json) (key : String) : Option (List Json) := (json.member? key).bind items?

end Json

/-- Flow charts keep what a node shows in a record of its own. -/
def NodeEntry.ofJson? (format : DocumentFormat) (json : Json) : Option NodeEntry := do
  let (shown, label) ← match format with
    | .layout => some (json, "name")
    | .flow => (json.member? "data").map (·, "label")
  let position ← json.member? "position"
  return {
    id := ← json.stringAt? "id"
    name := ← shown.stringAt? label
    steps := ← (← shown.itemsAt? "steps").mapM Json.string?
    x := ← position.member? "x"
    y := ← position.member? "y" }

def EdgeEntry.ofJson? (json : Json) : Option EdgeEntry :=
  return ⟨← json.stringAt? "id", ← json.stringAt? "source", ← json.stringAt? "target"⟩

namespace Contents

def ofJson? (format : DocumentFormat) (json : Json) : Option Contents :=
  return {
    nodes := ← (← json.itemsAt? "nodes").mapM (NodeEntry.ofJson? format)
    edges := ← (← json.itemsAt? "edges").mapM EdgeEntry.ofJson? }

def ofText? (format : DocumentFormat) (text : String) : Option Contents :=
  (Json.parse? text).bind (ofJson? format)

end Contents

def Node.entry (node : Node Single) : NodeEntry :=
  ⟨node.id, node.name, node.steps, node.position.x.json, node.position.y.json⟩

def Edge.entry (edge : Edge) : EdgeEntry := ⟨edge.id, edge.source, edge.target⟩

namespace Chart

def contents (chart : Chart Single) : Contents :=
  ⟨chart.nodes.map Node.entry, chart.edges.map Edge.entry⟩

def json (chart : Chart Single) (style : EdgeStyle) : DocumentFormat → Json
  | .flow => chart.flowJson style
  | .layout => chart.layoutJson

end Chart

section Canonical

@[simp]
theorem Binary.canonical_json {format : BinaryFormat} (number : Binary format) : number.json.Canonical := by
  unfold json
  cases number with
  | finite negative count fits =>
    simp only [shortest?, Json.canonical_decimal]
    unfold shortestCount
    split
    · exact Decimal.canonical_zero negative
    · exact Decimal.canonical_ofScaled ..
  | _ => exact .null

@[simp]
theorem Json.canonical_strings (texts : List String) : (Json.strings texts).Canonical := by
  simp [Json.strings]

theorem Chart.canonical_json (chart : Chart Single) (style : EdgeStyle) (format : DocumentFormat) :
    (chart.json style format).Canonical := by
  cases format <;>
    simp [json, flowJson, layoutJson, Node.json, Node.flowJson, Edge.json, Edge.flowJson, Point.json]

end Canonical

section Decoding

theorem mapM_map_eq {α β γ : Type} {encode : α → β} {decode : β → Option γ} {view : α → γ}
    (decodes : ∀ value, decode (encode value) = some (view value)) (values : List α) :
    (values.map encode).mapM decode = some (values.map view) := by
  induction values with
  | nil => rfl
  | cons value values ih => simp [List.mapM_cons, decodes, ih]

theorem Json.mapM_strings (texts : List String) : (texts.map Json.string).mapM Json.string? = some texts := by
  have decodes (text : String) : Json.string? (.string text) = some (id text) := rfl
  rw [mapM_map_eq decodes texts, List.map_id]

theorem NodeEntry.ofJson?_layout (node : Node Single) : ofJson? .layout node.json = some node.entry := by
  have steps := Json.mapM_strings node.steps
  simp [ofJson?, Node.json, Point.json, Json.stringAt?, Json.itemsAt?, Json.member?, Json.string?, Json.items?,
    Json.strings, steps, Node.entry]

theorem NodeEntry.ofJson?_flow (node : Node Single) : ofJson? .flow node.flowJson = some node.entry := by
  have steps := Json.mapM_strings node.steps
  simp [ofJson?, Node.flowJson, Point.json, Json.stringAt?, Json.itemsAt?, Json.member?, Json.string?, Json.items?,
    Json.strings, steps, Node.entry]

theorem EdgeEntry.ofJson?_layout (edge : Edge) : ofJson? edge.json = some edge.entry := rfl

theorem EdgeEntry.ofJson?_flow (style : EdgeStyle) (edge : Edge) :
    ofJson? (edge.flowJson style) = some edge.entry := rfl

theorem Contents.ofJson?_json (chart : Chart Single) (style : EdgeStyle) (format : DocumentFormat) :
    ofJson? format (chart.json style format) = some chart.contents := by
  cases format with
  | layout =>
    have nodes := mapM_map_eq NodeEntry.ofJson?_layout chart.nodes
    have edges := mapM_map_eq EdgeEntry.ofJson?_layout chart.edges
    simp [ofJson?, Chart.json, Chart.layoutJson, Json.itemsAt?, Json.member?, Json.items?, nodes, edges,
      Chart.contents]
  | flow =>
    have nodes := mapM_map_eq NodeEntry.ofJson?_flow chart.nodes
    have edges := mapM_map_eq (EdgeEntry.ofJson?_flow style) chart.edges
    simp [ofJson?, Chart.json, Chart.flowJson, Json.itemsAt?, Json.member?, Json.items?, nodes, edges,
      Chart.contents]

end Decoding

/-- Documents are lossless, whatever stands in the strings: each text is the JSON value of its format, however it
is laid out, and the readers of both formats find the same contents in it, the nodes and edges of the chart in
their order. -/
theorem Chart.document_lossless (chart : Chart Single) (edges : EdgeStyle) (format : DocumentFormat)
    (style : Json.Style) :
    Json.parse? ((chart.json edges format).text style) = some (chart.json edges format) ∧
      Contents.ofText? format ((chart.json edges format).text style) =
        some ⟨chart.nodes.map fun node =>
            ⟨node.id, node.name, node.steps, node.position.x.json, node.position.y.json⟩,
          chart.edges.map fun edge => ⟨edge.id, edge.source, edge.target⟩⟩ := by
  have parsed := Json.parse?_text (chart.canonical_json edges format) style
  refine ⟨parsed, ?_⟩
  rw [Contents.ofText?, parsed]
  exact Contents.ofJson?_json chart edges format

end PipelineChart
