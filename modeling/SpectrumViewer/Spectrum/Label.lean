import SpectrumViewer.Number.FixedPlaces

set_option autoImplicit false

/-!
The texts of magnitudes and frequencies.
-/

namespace SpectrumViewer

namespace Label

/-- Decimal places of magnitudes on an axis that ends at `top`: small spectra get more, so that
their ticks differ. -/
def places (top : Binary32) : Nat :=
  if top < .ofRatio 1 100 then 6 else if top < 1 then 4 else 2

def magnitude (value top : Binary32) : String := value.fixed (places top)

def frequency (hz : Binary32) : String := hz.fixed 0 ++ " Hz"

end Label

end SpectrumViewer
