import SpectrumViewer.Input.Reader
import SpectrumViewer.Main
import SpectrumViewer.Proofs.Frame.History
import SpectrumViewer.Proofs.Waterfall.Scrolling
import SpectrumViewer.Frame.Exchange
import SpectrumViewer.Proofs.Frame.LatestWins
import SpectrumViewer.Proofs.Input.Lines
import SpectrumViewer.Proofs.Display.Freshness
import SpectrumViewer.Proofs.Frame.Payload
import SpectrumViewer.Proofs.Frame.Enclosure
import SpectrumViewer.Proofs.Frame.Reception
import SpectrumViewer.Proofs.Number.Nearest
import SpectrumViewer.Proofs.Number.Value
import SpectrumViewer.Proofs.Number.FixedPlaces
import SpectrumViewer.Proofs.Demo.Magnitude
import SpectrumViewer.Proofs.Demo.RoundTrip
import SpectrumViewer.Proofs.Input.Accounting
import SpectrumViewer.Proofs.Yaml.Line
import SpectrumViewer.Proofs.Text.Utf8
import SpectrumViewer.Proofs.Number.Whole
import SpectrumViewer.Proofs.Input.Steps
import SpectrumViewer.Proofs.Number.Reading
import SpectrumViewer.Proofs.Number.Grammar
import SpectrumViewer.Proofs.Frame.Magnitudes
import SpectrumViewer.Proofs.Input.Stopping
import SpectrumViewer.Proofs.Input.Noticing
import SpectrumViewer.Proofs.Yaml.Scalar.Plain
import SpectrumViewer.Proofs.Yaml.Scalar.Quoted
import SpectrumViewer.Proofs.Yaml.Scalar.Block
import SpectrumViewer.Proofs.Yaml.Scalar.Printable
import SpectrumViewer.Proofs.Yaml.Node.Parser
import SpectrumViewer.Proofs.Yaml.Token.Key
import SpectrumViewer.Proofs.Yaml.Token.Mapping
import SpectrumViewer.Proofs.Yaml.Document
import SpectrumViewer.Proofs.Settings.Numerals
import SpectrumViewer.Proofs.Settings.Entries
import SpectrumViewer.Proofs.Settings.RoundTrip
import SpectrumViewer.Proofs.Number.Accuracy
import SpectrumViewer.Proofs.Number.Interpolation
import SpectrumViewer.Proofs.Waterfall.Resampling
import SpectrumViewer.Proofs.Waterfall.Intensity
import SpectrumViewer.Proofs.Spectrum.Legibility
import SpectrumViewer.Proofs.Spectrum.Mapping
import SpectrumViewer.Proofs.Spectrum.Layout
import SpectrumViewer.Proofs.Number.Monotone
import SpectrumViewer.Proofs.Spectrum.Trace
import SpectrumViewer.Proofs.Waterfall.Ramp
import SpectrumViewer.Proofs.Spectrum.TickLabels
import SpectrumViewer.Proofs.Settings.Sizes
import SpectrumViewer.Proofs.Demo.Sweep
import SpectrumViewer.Proofs.Number.Relative
import SpectrumViewer.Proofs.Spectrum.GridLines
import SpectrumViewer.Proofs.Spectrum.Peak
import SpectrumViewer.Proofs.CommandLine.Given
import SpectrumViewer.Proofs.CommandLine.Line
import SpectrumViewer.Proofs.CommandLine.Source
