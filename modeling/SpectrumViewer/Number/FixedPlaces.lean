import SpectrumViewer.Number.Binary32

set_option autoImplicit false

/-!
Numbers with a fixed number of decimal places: the exact binary value, rounded half to even.
-/

namespace SpectrumViewer

namespace FixedPlaces

/-- The digits of a whole number of units of the last place, with at least one digit before the
point. -/
def placed (places n : Nat) : List Char :=
  let ds := Nat.toDigits 10 n
  let ds := List.replicate (places + 1 - ds.length) '0' ++ ds
  let whole := ds.length - places
  if places = 0 then ds else ds.take whole ++ '.' :: ds.drop whole

/-- A finite magnitude with a number of decimal places. -/
def magnitudeText (places code : Nat) : List Char :=
  placed places
    (roundHalfEven (BinaryFormat.single.units code * Nat.pow 10 places) Binary32.one)

def text (places : Nat) : Binary32 → List Char
  | .nan => "NaN".toList
  | .infinite negative => (if negative then ['-'] else []) ++ "inf".toList
  | .finite negative code => (if negative then ['-'] else []) ++ magnitudeText places code.val

end FixedPlaces

/-- A number with a fixed number of decimal places. The sign is that of the number, also where
only zeros are left of it. -/
def Binary32.fixed (places : Nat) (x : Binary32) : String :=
  String.ofList (FixedPlaces.text places x)

end SpectrumViewer
