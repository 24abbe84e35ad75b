import PipelineChart.Chart.Document
import PipelineChart.Failure

/-!
From a source to a document under given settings. Metrics are checked where a chart is made, the
style where it is written.
-/

namespace PipelineChart.Settings

variable (settings : Settings)

def parse (source : String) : Except Failure Pipeline.Parsed :=
  match Pipeline.parse settings.options source with
  | .ok parsed => .ok parsed
  | .error rejection => .error (.rejected rejection source)

def chart (stages : List Stage) : Except Failure (Chart Single) :=
  match settings.metrics.check with
  | .ok () => .ok (Chart.ofStages settings.metrics .origin stages)
  | .error fault => .error (.settings fault.message)

theorem chart_of_check {settings : Settings} (accepted : settings.metrics.check = .ok ()) (stages : List Stage) :
    settings.chart stages = .ok (Chart.ofStages settings.metrics .origin stages) := by
  unfold chart
  rw [accepted]

def build (source : String) : Except Failure (Chart Single) := do
  let parsed ← settings.parse source
  settings.chart parsed.stages

def render (chart : Chart Single) (format : DocumentFormat) (style : Json.Style) :
    Except Failure String :=
  match format with
  | .layout => .ok (chart.layoutJson.text style)
  | .flow =>
      match settings.style.check with
      | .ok () => .ok ((chart.flowJson settings.style).text style)
      | .error fault => .error (.settings fault.message)

end PipelineChart.Settings
