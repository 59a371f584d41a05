import SweepReport.CommandLine
import SweepReport.Script.Shell
import SweepReport.Settings.Json
import SweepReport.Main
import SweepReport.Proofs.Builder.Exchange
import SweepReport.Proofs.Collection.Finite
import SweepReport.Proofs.Figure.Extent
import SweepReport.Proofs.Collection.Dependence
import SweepReport.Proofs.Collection.Steps
import SweepReport.Proofs.Collection.Inventory
import SweepReport.Proofs.Figure.Locality
import SweepReport.Proofs.Report
import SweepReport.Proofs.Collection.Renaming
import SweepReport.Proofs.Collection.Labels
import SweepReport.Proofs.Figure.PlotData
import SweepReport.Proofs.Trend.LeastSquares
import SweepReport.Proofs.Trend.NotFinite
import SweepReport.Proofs.Figure.Partition
import SweepReport.Proofs.Label.Order
import SweepReport.Proofs.Label.Pattern
import SweepReport.Proofs.Label.Spacing
import SweepReport.Proofs.Label.Display
import SweepReport.Proofs.Figure.Span
import SweepReport.Proofs.Figure.Sampling
import SweepReport.Proofs.Figure.Ending
import SweepReport.Proofs.Samples.Rows
import SweepReport.Proofs.Samples.Layout
import SweepReport.Proofs.Summary.Mean
import SweepReport.Proofs.Trend.Evaluation
import SweepReport.Proofs.Trend.Descent
import SweepReport.Proofs.Figure.Limits
import SweepReport.Proofs.Figure.Breadth
import SweepReport.Proofs.ScriptRenderer
import SweepReport.Proofs.Journal.Defaults
import SweepReport.Proofs.Trend.Basis
import SweepReport.Proofs.Trend.Indexed
import SweepReport.Proofs.Settings.Json
import SweepReport.Proofs.CommandLine.Layers
