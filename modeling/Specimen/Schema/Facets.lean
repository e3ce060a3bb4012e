/-
The facets that restrict a simple type, and their inheritance along a chain of
restrictions: what the derived type says goes before what its base says.
-/

namespace Specimen

/-- The restrictions of one derivation step, or of several taken together. -/
structure Facets where
  enumeration : List String := []
  patterns : List String := []
  length : Option Nat := none
  minLength : Option Nat := none
  maxLength : Option Nat := none
  minInclusive : Option String := none
  minExclusive : Option String := none
  maxInclusive : Option String := none
  maxExclusive : Option String := none
  totalDigits : Option Nat := none
  fractionDigits : Option Nat := none
deriving Repr, DecidableEq

/-- One side of a range of values as a schema writes it. -/
structure Limit where
  value : String
  exclusive : Bool
deriving Repr, DecidableEq

namespace Facets

def none : Facets := {}

/-- The facets of a derived type over those of its base. The enumeration, the
patterns and each side of the range are taken from the derived type as a whole
if it has any of them. -/
def inherit (derived base : Facets) : Facets where
  enumeration :=
    if derived.enumeration.isEmpty then base.enumeration
    else derived.enumeration
  patterns :=
    if derived.patterns.isEmpty then base.patterns else derived.patterns
  length := derived.length.or base.length
  minLength := derived.minLength.or base.minLength
  maxLength := derived.maxLength.or base.maxLength
  minInclusive :=
    if derived.minInclusive.isNone && derived.minExclusive.isNone then
      base.minInclusive
    else derived.minInclusive
  minExclusive :=
    if derived.minInclusive.isNone && derived.minExclusive.isNone then
      base.minExclusive
    else derived.minExclusive
  maxInclusive :=
    if derived.maxInclusive.isNone && derived.maxExclusive.isNone then
      base.maxInclusive
    else derived.maxInclusive
  maxExclusive :=
    if derived.maxInclusive.isNone && derived.maxExclusive.isNone then
      base.maxExclusive
    else derived.maxExclusive
  totalDigits := derived.totalDigits.or base.totalDigits
  fractionDigits := derived.fractionDigits.or base.fractionDigits

/-- The least and the greatest length; an exact length is both. -/
def lengthRange (f : Facets) : Option Nat × Option Nat :=
  match f.length with
  | some length => (some length, some length)
  | .none => (f.minLength, f.maxLength)

def lower (f : Facets) : Option Limit :=
  match f.minInclusive with
  | some value => some ⟨value, false⟩
  | .none => f.minExclusive.map (⟨·, true⟩)

def upper (f : Facets) : Option Limit :=
  match f.maxInclusive with
  | some value => some ⟨value, false⟩
  | .none => f.maxExclusive.map (⟨·, true⟩)

end Facets

end Specimen
