import SpectrumViewer.Settings.Basic

set_option autoImplicit false

/-!
The fields of settings: their names, their order in a document, and the words for their cases.
-/

namespace SpectrumViewer

namespace Framing

def openingName : String := "start_sentinel"
def closingName : String := "end_sentinel"
def leadName : String := "payload_prefix"

end Framing

namespace Settings

inductive Field where
  | sampleRate
  | fftSize
  | baudRate
  | framing
  | waterfallDepth
  | waterfallWidth
  | newestAt
  | intensity
  | windowWidth
  | windowHeight
  | repaintInterval
  deriving DecidableEq, Repr

namespace Field

/-- All fields, in the order in which they are written. -/
def all : List Field :=
  [.sampleRate, .fftSize, .baudRate, .framing, .waterfallDepth, .waterfallWidth, .newestAt,
    .intensity, .windowWidth, .windowHeight, .repaintInterval]

def name : Field → String
  | .sampleRate => "sample_rate"
  | .fftSize => "fft_size"
  | .baudRate => "baud_rate"
  | .framing => "framing"
  | .waterfallDepth => "waterfall_depth"
  | .waterfallWidth => "waterfall_width"
  | .newestAt => "newest_at"
  | .intensity => "intensity"
  | .windowWidth => "window_width"
  | .windowHeight => "window_height"
  | .repaintInterval => "repaint_interval_ms"

def named? (name : String) : Option Field := all.find? (·.name = name)

/-- Takes one field over from other settings. -/
def copy (source : Settings) (s : Settings) : Field → Settings
  | .sampleRate => { s with sampleRate := source.sampleRate }
  | .fftSize => { s with fftSize := source.fftSize }
  | .baudRate => { s with baudRate := source.baudRate }
  | .framing => { s with framing := source.framing }
  | .waterfallDepth => { s with waterfallDepth := source.waterfallDepth }
  | .waterfallWidth => { s with waterfallWidth := source.waterfallWidth }
  | .newestAt => { s with newestAt := source.newestAt }
  | .intensity => { s with intensity := source.intensity }
  | .windowWidth => { s with windowWidth := source.windowWidth }
  | .windowHeight => { s with windowHeight := source.windowHeight }
  | .repaintInterval => { s with repaintInterval := source.repaintInterval }

end Field

def edgeWord : NewestEdge → String
  | .top => "top"
  | .bottom => "bottom"

def curveWord : Intensity → String
  | .linear => "linear"
  | .squareRoot => "sqrt"

def edgeOf? (word : String) : Option NewestEdge :=
  [NewestEdge.top, .bottom].find? (edgeWord · = word)

def curveOf? (word : String) : Option Intensity :=
  [Intensity.linear, .squareRoot].find? (curveWord · = word)

end Settings

end SpectrumViewer
