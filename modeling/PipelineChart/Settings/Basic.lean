import PipelineChart.Binary.Shortest
import PipelineChart.Chart.Geometry
import PipelineChart.Color.Check
import PipelineChart.Pipeline

/-!
Settings: the metrics of a chart, the options of the parser and the style of the edges, with the
checks that keep nodes apart and edges visible.
-/

namespace PipelineChart

structure EdgeStyle where
  color : String
  width : Single
  deriving DecidableEq

structure Settings where
  metrics : Metrics Single
  options : Pipeline.Options
  style : EdgeStyle
  deriving DecidableEq

inductive SettingsFault where
  | notFinite (field : String) (value : Single)
  | nodeSize (width height : Single)
  | spacing (horizontal vertical : Single)
  | edgeColor (color : String) (fault : Color.Fault)
  | edgeWidth (width : Single)
  deriving DecidableEq

def SettingsFault.message : SettingsFault → String
  | .notFinite field value =>
      "Invalid layout " ++ field ++ " " ++ value.text ++ " in config: must be finite"
  | .nodeSize width height =>
      "Invalid node size " ++ width.text ++ "x" ++ height.text ++ " in config: must be positive"
  | .spacing horizontal vertical =>
      "Invalid spacing " ++ horizontal.text ++ "/" ++ vertical.text ++
        " in config: must not be negative"
  | .edgeColor color fault => "Invalid edge color `" ++ color ++ "` in config: " ++ fault.message
  | .edgeWidth width =>
      "Invalid edge width " ++ width.text ++ " in config: must not be negative"

namespace Metrics

def default : Metrics Single := ⟨.ofInt 150, .ofInt 60, .ofInt 100, .ofInt 80⟩

def fields (metrics : Metrics Single) : List (String × Single) :=
  [("node_width", metrics.nodeWidth), ("node_height", metrics.nodeHeight),
    ("horizontal_spacing", metrics.horizontalSpacing),
    ("vertical_spacing", metrics.verticalSpacing)]

/-- Nodes have a size, spacing is no overlap, and all four are finite. -/
def check (metrics : Metrics Single) : Except SettingsFault Unit :=
  match metrics.fields.find? fun field => !field.2.isFinite with
  | some (field, value) => .error (.notFinite field value)
  | none =>
      if ¬(0 < metrics.nodeWidth ∧ 0 < metrics.nodeHeight) then
        .error (.nodeSize metrics.nodeWidth metrics.nodeHeight)
      else if metrics.horizontalSpacing < 0 ∨ metrics.verticalSpacing < 0 then
        .error (.spacing metrics.horizontalSpacing metrics.verticalSpacing)
      else .ok ()

end Metrics

namespace EdgeStyle

def default : EdgeStyle := ⟨"#b1b1b7", .ofInt 2⟩

def check (style : EdgeStyle) : Except SettingsFault Unit :=
  match Color.check style.color with
  | .error fault => .error (.edgeColor style.color fault)
  | .ok () => if style.width.isNaN ∨ style.width < 0 then .error (.edgeWidth style.width) else .ok ()

end EdgeStyle

namespace Settings

def default : Settings := ⟨.default, .default, .default⟩

def check (settings : Settings) : Except SettingsFault Unit := do
  settings.metrics.check
  settings.style.check

end Settings

end PipelineChart
