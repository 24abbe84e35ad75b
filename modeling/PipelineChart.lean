import PipelineChart.Json.Reader
import PipelineChart.Main
import PipelineChart.Proofs.Block.Extracted
import PipelineChart.Proofs.Chart.Bounds
import PipelineChart.Proofs.Chart.Boxes
import PipelineChart.Proofs.Chart.Columns
import PipelineChart.Proofs.Chart.Document
import PipelineChart.Proofs.Chart.EdgeIds
import PipelineChart.Proofs.Chart.Forward
import PipelineChart.Proofs.Chart.Growth
import PipelineChart.Proofs.Chart.NodeIds
import PipelineChart.Proofs.Chart.Repeats
import PipelineChart.Proofs.Chart.Shifted
import PipelineChart.Proofs.Chart.Survivors
import PipelineChart.Proofs.Chart.Usable
import PipelineChart.Proofs.CommandLine.Reports
import PipelineChart.Proofs.Pipeline.Continued
import PipelineChart.Proofs.Pipeline.Labels
import PipelineChart.Proofs.Pipeline.Limit
import PipelineChart.Proofs.Pipeline.Lossless
import PipelineChart.Proofs.Pipeline.RoundTrip
import PipelineChart.Proofs.Source.Runs
import PipelineChart.Proofs.Stage.Alone
import PipelineChart.Proofs.Stage.Leftmost
import PipelineChart.Proofs.Stage.Offsets
import PipelineChart.Proofs.Stage.Site
import PipelineChart.Proofs.Step.Calls
import PipelineChart.Proofs.Step.Grammar
import PipelineChart.Text.Glyph
