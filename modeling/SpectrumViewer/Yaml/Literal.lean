import SpectrumViewer.Number.Decimal
import SpectrumViewer.Text.Hexadecimal
import SpectrumViewer.Yaml.Character

set_option autoImplicit false

/-!
What the text of a plain scalar stands for: nothing, a truth value, a whole number or a number with
fractions. `isAmbiguous` collects the texts that a plain scalar cannot hold as text.
-/

namespace SpectrumViewer

namespace Yaml

namespace Literal

def nullWords : List String := ["null", "Null", "NULL", "~"]

def truthWords : List String := ["true", "True", "TRUE", "false", "False", "FALSE"]

def infinityWords : List String := [".inf", ".Inf", ".INF"]

def negativeInfinityWords : List String := ["-.inf", "-.Inf", "-.INF"]

def nanWords : List String := [".nan", ".NaN", ".NAN"]

def isWordOf (words : List String) (cs : List Char) : Bool := words.any (·.toList = cs)

/-- The empty text stands for nothing too. -/
def isNull (cs : List Char) : Bool := cs.isEmpty || isWordOf nullWords cs

def isTruth (cs : List Char) : Bool := isWordOf truthWords cs

/-- The number written by digits of a base up to 16. -/
def digits? (base : Nat) (cs : List Char) : Option Nat :=
  if cs ≠ [] ∧ cs.all (fun c => Text.isHex c && decide (Text.hexValue c < base)) then
    some (cs.foldl (fun n c => base * n + Text.hexValue c) 0)
  else none

/-- Digits behind a zero. They are a text and no whole number. -/
def isZeroPadded (cs : List Char) : Bool :=
  match (Decimal.splitSign cs).2 with
  | '0' :: c :: rest => (c :: rest).all Char.isDigit
  | _ => false

/-- A whole number without a sign, in base sixteen, eight, two or ten. -/
def natural? : List Char → Option Nat
  | '0' :: 'x' :: cs => digits? 16 cs
  | '0' :: 'o' :: cs => digits? 8 cs
  | '0' :: 'b' :: cs => digits? 2 cs
  | cs => if isZeroPadded cs then none else digits? 10 cs

/-- A whole number that may have a plus sign. -/
def unsigned? : List Char → Option Nat
  | '+' :: cs => natural? cs
  | cs => natural? cs

/-- The magnitude of a whole number with a minus sign. -/
def negative? : List Char → Option Nat
  | '-' :: cs => natural? cs
  | _ => none

/-- Whole numbers of at most 128 bits. -/
def isWhole (cs : List Char) : Bool :=
  (unsigned? cs).any (· < Nat.pow 2 128) || (negative? cs).any (· ≤ Nat.pow 2 127)

/-- A number with fractions, an infinity, or no number, in single precision. A numeral has to be
finite in double precision, through which it is rounded. -/
def number? (cs : List Char) : Option Binary32 :=
  let unsigned := if cs.head? = some '+' then cs.tail else cs
  if isWordOf infinityWords unsigned then some (.infinite false)
  else if isWordOf negativeInfinityWords cs then some (.infinite true)
  else if isWordOf nanWords cs then some .nan
  else (Decimal.parse? cs).bind Decimal.toBinary32Twice?

/-- A text that would be read as something else, or that other readers could take for a number. -/
def isAmbiguous (cs : List Char) : Bool :=
  isNull cs || isTruth cs || isWhole cs || isZeroPadded cs || (number? cs).isSome

end Literal

end Yaml

end SpectrumViewer
