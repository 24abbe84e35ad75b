import PipelineChart.Json.Printer
import PipelineChart.Settings.Basic
import PipelineChart.Chart.Placement

/-!
Documents of a chart: the bare nodes and edges, or a flow chart that a renderer takes as it is, with
the style of its edges written into each of them.
-/

namespace PipelineChart

/-- A number without a decimal numeral is written as null. -/
def Binary.json {format : BinaryFormat} (number : Binary format) : Json :=
  match number.shortest? .even with
  | some decimal => .decimal decimal
  | none => .null

def Point.json (point : Point Single) : Json := .object [("x", point.x.json), ("y", point.y.json)]

def Node.json (node : Node Single) : Json :=
  .object
    [("id", .string node.id), ("name", .string node.name), ("steps", .strings node.steps),
      ("position", node.position.json), ("anchorIn", .string node.anchorIn.text),
      ("anchorOut", .string node.anchorOut.text)]

def Edge.json (edge : Edge) : Json :=
  .object
    [("id", .string edge.id), ("source", .string edge.source), ("target", .string edge.target)]

def Stage.json : Stage → Json
  | .leaf name steps =>
      .object
        [("name", .string name), ("kind", .string Kind.leaf.text), ("steps", .strings steps),
          ("branches", .array [])]
  | .parallel name branches =>
      .object
        [("name", .string name), ("kind", .string Kind.parallel.text), ("steps", .array []),
          ("branches", .array (branches.map json))]

def Node.flowJson (node : Node Single) : Json :=
  .object
    [("id", .string node.id), ("type", .string "customNode"),
      ("data", .object [("label", .string node.name), ("steps", .strings node.steps)]),
      ("position", node.position.json), ("sourcePosition", .string node.anchorOut.text),
      ("targetPosition", .string node.anchorIn.text)]

def Edge.flowJson (style : EdgeStyle) (edge : Edge) : Json :=
  .object
    [("id", .string edge.id), ("source", .string edge.source), ("target", .string edge.target),
      ("type", .string "smoothstep"),
      ("style", .object [("stroke", .string style.color), ("strokeWidth", style.width.json)]),
      ("markerEnd", .object [("type", .string "arrowclosed"), ("color", .string style.color)])]

namespace Chart

def layoutJson (chart : Chart Single) : Json :=
  .object
    [("nodes", .array (chart.nodes.map Node.json)), ("edges", .array (chart.edges.map Edge.json))]

def flowJson (style : EdgeStyle) (chart : Chart Single) : Json :=
  .object
    [("nodes", .array (chart.nodes.map Node.flowJson)),
      ("edges", .array (chart.edges.map (Edge.flowJson style)))]

end Chart

inductive DocumentFormat where
  | flow
  | layout
  deriving DecidableEq

namespace DocumentFormat

def all : List DocumentFormat := [.flow, .layout]

def text : DocumentFormat → String
  | .flow => "flow"
  | .layout => "layout"

def ofText? (text : String) : Option DocumentFormat := all.find? fun format => format.text == text

end DocumentFormat

end PipelineChart
