/-
Random numbers: the range that digits, facets and settings leave on the grid of
a scale, and the number drawn from it.
-/
import Specimen.Bounds
import Specimen.Number.Scaled
import Specimen.Random.Draws
import Specimen.Schema.Facets

namespace Specimen.Value

def greatestScale : Nat := 18

/-- The number of fraction digits where no facet gives one. -/
def usualScale : Nat := 2

/-- The upper end of the range of numbers where nothing bounds them; the lower
end is zero. -/
def usualGreatest : Int := 100000

/-- The bounds that facets set on the grid of a scale. -/
def facetBounds (facets : Facets) (scale : Nat) : Bounds where
  lower := facets.lower.bind fun l =>
    Scaled.bound l.value scale l.exclusive .lower
  upper := facets.upper.bind fun l =>
    Scaled.bound l.value scale l.exclusive .upper

/-- Whole bounds on the grid of a scale. -/
def onGrid (b : Bounds) (scale : Nat) : Bounds where
  lower := b.lower.map fun n => Number.clamp (n * Number.tenTo scale)
  upper := b.upper.map fun n => Number.clamp (n * Number.tenTo scale)

/-- A range with both ends: a missing end lies as far from the other as the
usual range is long. -/
def closeRange (b : Bounds) (scale : Nat) : Int × Int :=
  let span := Number.clamp (usualGreatest * Number.tenTo scale)
  match b.lower, b.upper with
  | some low, some high => (low, high)
  | some low, none => (low, Number.clamp (low + span))
  | none, some high => (Number.clamp (high - span), high)
  | none, none => (0, span)

/-- The range of the numbers for some facets on the grid of a scale. The digits
count only where `useDigits` is set. -/
def numberRange (facets : Facets) (numbers : Bounds) (scale : Nat)
    (useDigits : Bool) : Int × Int :=
  let digits : Bounds :=
    match facets.totalDigits with
    | some n => if useDigits then Bounds.ofDigits n else {}
    | none => {}
  closeRange (Bounds.merge digits (facetBounds facets scale)
    (onGrid numbers scale)) scale

/-- A random number with a fixed number of fraction digits. -/
def number (facets : Facets) (numbers : Bounds) (scale : Nat)
    (useDigits : Bool) : Draw String := do
  let scale := min scale greatestScale
  let (low, high) := numberRange facets numbers scale useDigits
  return String.ofList (Scaled.write (← Draw.integer low high) scale)

def whole (facets : Facets) (numbers : Bounds) : Draw String :=
  number facets numbers 0 true

/-- A decimal number: as many fraction digits as the facets give, but no more
than all digits. -/
def decimal (facets : Facets) (numbers : Bounds) : Draw String :=
  let asked := facets.fractionDigits.getD usualScale
  let scale := match facets.totalDigits with
    | some total => min asked total
    | none => asked
  number facets numbers scale true

def floating (facets : Facets) (numbers : Bounds) : Draw String :=
  number facets numbers usualScale false

end Specimen.Value
