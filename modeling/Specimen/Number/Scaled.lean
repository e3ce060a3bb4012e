/-
Numbers with a fixed count of fraction digits, held as whole multiples of a
power of ten: how a bound written in decimal is brought to that grid, and how a
multiple is written.
-/
import Specimen.Number.Binary64
import Specimen.Text.Blank

namespace Specimen.Scaled

/-- A bound on the grid: the multiple reached by cutting digits off, whether
nothing was cut, and whether the bound lies below zero. -/
structure Reading where
  truncated : Int
  exact : Bool
  negative : Bool
deriving Repr, DecidableEq

/-- The greatest magnitude that a decimal may reach on the grid. -/
def limit : Nat := 0x7FFFFFFFFFFFFFFFFFFFFFFFFFFFFFFF

/-- Read digits, an optional point and digits at a scale. -/
def readDigits (negative : Bool) (s : List Char) (scale : Nat) :
    Option Reading :=
  let (whole, fraction) := (Text.cut '.' s).getD (s, [])
  if whole.isEmpty && fraction.isEmpty then none
  else if !(whole.all Char.isDigit && fraction.all Char.isDigit) then none
  else
    let kept := fraction.take scale
    let exact := (fraction.drop scale).all (· == '0')
    let magnitude :=
      Decimal.value (whole ++ kept) * Number.tenTo (scale - kept.length)
    if magnitude > limit then none
    else
      some
        { truncated := if negative then -(magnitude : Int) else magnitude
          exact
          negative := negative && !(exact && magnitude == 0) }

/-- Read a decimal with an exponent, which goes through double precision. -/
def readExponent (s : List Char) (scale : Nat) : Option Reading :=
  match Binary64.read? s with
  | none => none
  | some number =>
    if !number.isFinite then none
    else
      let scaled := number * Float.ofNat (Number.tenTo scale)
      some ⟨Binary64.truncate scaled, Binary64.isWhole scaled, number < 0⟩

def read (s : List Char) (scale : Nat) : Option Reading :=
  if s.contains 'e' || s.contains 'E' then readExponent s scale
  else
    match s with
    | [] => none
    | '-' :: rest => readDigits true rest scale
    | '+' :: rest => readDigits false rest scale
    | _ => readDigits false s scale

inductive Side where
  | lower
  | upper
deriving Repr, DecidableEq

/-- The outermost multiple that a bound admits: the bound itself moves inward to
the grid, and an excluded bound on the grid moves one further. -/
def bound (value : String) (scale : Nat) (exclusive : Bool)
    (side : Side) : Option Int :=
  (read (Text.trim value.toList) scale).map fun r =>
    let inward :=
      if r.exact then r.truncated
      else
        match side with
        | .lower => if r.negative then r.truncated else r.truncated + 1
        | .upper => if r.negative then r.truncated - 1 else r.truncated
    let admitted :=
      if r.exact && exclusive then
        match side with
        | .lower => inward + 1
        | .upper => inward - 1
      else inward
    Number.clamp admitted

/-- A multiple with exactly `scale` fraction digits. -/
def write (n : Int) (scale : Nat) : List Char :=
  if scale = 0 then Decimal.ofInt n
  else
    let magnitude := n.natAbs
    let body :=
      Decimal.digits (magnitude / Number.tenTo scale) ++
        '.' :: Decimal.zeroPadded scale (magnitude % Number.tenTo scale)
    if n < 0 then '-' :: body else body

end Specimen.Scaled
