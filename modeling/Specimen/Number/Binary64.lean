/-
Double precision numbers seen through their bits: a magnitude is `significand ·
2 ^ exponent`. From that come the whole part, the number nearest to a decimal,
and the shortest decimal that reads back. All arithmetic on magnitudes is exact.
-/
import Specimen.Number.Decimal

namespace Specimen

/-- A positive rational number, as two natural ones. -/
structure Ratio where
  num : Nat
  den : Nat
deriving Repr, DecidableEq

namespace Ratio

/-- The ratio times a power of a base. -/
def scale (r : Ratio) (base : Nat) : Int → Ratio
  | .ofNat e => ⟨r.num * base.pow e, r.den⟩
  | .negSucc e => ⟨r.num, r.den * base.pow (e + 1)⟩

def floor (r : Ratio) : Nat := r.num / r.den

/-- The nearest whole number; of two equally near ones the even one. -/
def round (r : Ratio) : Nat :=
  let down := r.num / r.den
  let left := 2 * (r.num % r.den)
  if left < r.den then down
  else if left > r.den then down + 1
  else down + down % 2

end Ratio

namespace Binary64

/-- The exponent of the least positive number. -/
def leastExponent : Int := -1074

def infinityBits : Nat := 0x7FF0000000000000

def signBit : Nat := 0x8000000000000000

/-- The leading bit of a significand of full length, which is not stored. -/
def hiddenBit : Nat := 0x10000000000000

def isNegative (x : Float) : Bool := x.toBits.toNat ≥ signBit

/-- Significand and exponent of the magnitude. Infinity reads as the power of
two behind the greatest number. -/
def magnitude (x : Float) : Nat × Int :=
  let bits := x.toBits.toNat % signBit
  let field := bits / hiddenBit
  let fraction := bits % hiddenBit
  if field = 0 then (fraction, leastExponent)
  else (fraction + hiddenBit, leastExponent + (field - 1 : Nat))

/-- The whole part, toward zero. -/
def truncate (x : Float) : Int :=
  let (significand, exponent) := magnitude x
  let whole : Int := ((⟨significand, 1⟩ : Ratio).scale 2 exponent).floor
  if isNegative x then -whole else whole

/-- The number has no fraction. -/
def isWhole (x : Float) : Bool :=
  let (significand, exponent) := magnitude x
  let r := (⟨significand, 1⟩ : Ratio).scale 2 exponent
  r.num % r.den == 0

/-- The bits of the number nearest to a positive ratio, a half going to the even
neighbour. -/
def bitsOfRatio (r : Ratio) : Nat :=
  let guess : Int := (r.num.log2 : Int) - r.den.log2 - 52
  let lower :=
    if (r.scale 2 (-guess)).floor ≥ hiddenBit then guess else guess - 1
  let exponent := max leastExponent lower
  let significand := (r.scale 2 (-exponent)).round
  min infinityBits ((exponent - leastExponent).toNat * hiddenBit + significand)

/-- The number nearest to `significand · 10 ^ exponent`. -/
def ofDecimal (negative : Bool) (significand : Nat) (exponent : Int) : Float :=
  let size := (Decimal.digits significand).length + exponent
  let bits :=
    if significand = 0 ∨ size < -400 then 0
    else if size > 400 then infinityBits
    else bitsOfRatio ((⟨significand, 1⟩ : Ratio).scale 10 exponent)
  Float.ofBits (UInt64.ofNat (if negative then bits + signBit else bits))

/-- Read a decimal numeral: an optional sign, digits with an optional point
among or around them, and an optional exponent. -/
def read? (s : List Char) : Option Float := do
  let (negative, unsigned) := match s with
    | '-' :: rest => (true, rest)
    | '+' :: rest => (false, rest)
    | _ => (false, s)
  let whole := unsigned.takeWhile Char.isDigit
  let behind := unsigned.dropWhile Char.isDigit
  let (fraction, tail) := match behind with
    | '.' :: rest => (rest.takeWhile Char.isDigit, rest.dropWhile Char.isDigit)
    | _ => ([], behind)
  if whole.isEmpty && fraction.isEmpty then none
  let significand := Decimal.value (whole ++ fraction)
  let shift : Int := -(fraction.length : Int)
  match tail with
  | [] => return ofDecimal negative significand shift
  | c :: rest =>
    if c ≠ 'e' ∧ c ≠ 'E' then none
    let (below, numeral) := match rest with
      | '-' :: numeral => (true, numeral)
      | '+' :: numeral => (false, numeral)
      | _ => (false, rest)
    if !Decimal.isNumeral numeral then none
    let exponent : Int := Decimal.value numeral
    return ofDecimal negative significand
      (shift + if below then -exponent else exponent)

/-- The interval of ratios that read back as a magnitude, its middle, and
whether the ends belong to it. All three have the same denominator. -/
structure Window where
  low : Nat
  middle : Nat
  high : Nat
  den : Nat
  closed : Bool

/-- The window of a magnitude. Below a power of two the neighbour is only half
as far. -/
def window (significand : Nat) (exponent : Int) : Window :=
  let unit := (⟨1, 1⟩ : Ratio).scale 2 (exponent - 2)
  let below :=
    if significand = hiddenBit ∧ exponent > leastExponent then 1 else 2
  { low := (4 * significand - below) * unit.num
    middle := 4 * significand * unit.num
    high := (4 * significand + 2) * unit.num
    den := unit.den
    closed := significand % 2 == 0 }

/-- The point `n · 10 ^ place` lies in the window. -/
def Window.admits (w : Window) (n : Nat) (place : Int) : Bool :=
  let point := (⟨n, 1⟩ : Ratio).scale 10 place
  let x := point.num * w.den
  let low := w.low * point.den
  let high := w.high * point.den
  if w.closed then low ≤ x && x ≤ high else low < x && x < high

/-- Of the two points of a grid around the middle, the one that reads back and
is nearer. -/
def Window.nearest? (w : Window) (place : Int) : Option Nat :=
  let middle := (⟨w.middle, w.den⟩ : Ratio).scale 10 (-place)
  let down := middle.floor
  let near := middle.round
  let far := if near = down then down + 1 else down
  if w.admits near place then some near
  else if w.admits far place then some far
  else none

/-- The place of the first digit of a positive ratio. -/
def leadingPlace (r : Ratio) : Int :=
  if r.floor > 0 then (Decimal.digits r.floor).length - 1
  else
    let inverse := Ratio.mk r.den r.num
    let size := (Decimal.digits inverse.floor).length
    if r.num * Number.tenTo (size - 1) ≥ r.den then -((size - 1 : Nat) : Int)
    else -(size : Int)

/-- Digits and the place of the last one, without zeros at the end. -/
def withoutZeros (n : Nat) (place : Int) : Nat × Int :=
  let written := Decimal.digits n
  let zeros := (written.reverse.takeWhile (· == '0')).length
  (n / Number.tenTo zeros, place + zeros)

/-- The fewest digits that read back as the magnitude of a finite number other
than zero, and the place of the last of them. -/
def shortest (x : Float) : Nat × Int :=
  let (significand, exponent) := magnitude x
  let w := window significand exponent
  let lead := leadingPlace ⟨w.middle, w.den⟩
  let found := (List.range 17).findSome? fun (more : Nat) =>
    (w.nearest? (lead - more)).map fun n => (n, lead - (more : Int))
  let (n, place) := found.getD (0, 0)
  withoutZeros n place

/-- Digits with the point in its place: `place` is that of the last digit. Zeros
fill the gap. -/
def positional (n : Nat) (place : Int) : List Char :=
  match place with
  | .ofNat p => Decimal.digits n ++ List.replicate p '0'
  | .negSucc p =>
    let written := Decimal.zeroPadded (p + 2) n
    written.take (written.length - (p + 1)) ++
      '.' :: written.drop (written.length - (p + 1))

/-- The digits of the magnitude; zero has one. -/
def magnitudeDigits (x : Float) : Nat × Int :=
  if (magnitude x).1 = 0 then (0, 0) else shortest x

/-- The shortest text without an exponent. -/
def plainText (x : Float) : String :=
  if x.isNaN then "NaN"
  else
    let sign := if isNegative x then "-" else ""
    if x.isInf then sign ++ "inf"
    else
      let (n, place) := magnitudeDigits x
      sign ++ String.ofList (positional n place)

/-- The shortest text that shows a fraction digit or an exponent: positional for
a leading digit between the fifth place behind the point and the sixteenth
before it, else with one digit before the point. -/
def markedText (x : Float) : String :=
  if x.isNaN then ".nan"
  else
    let sign := if isNegative x then "-" else ""
    if x.isInf then sign ++ ".inf"
    else
      let (n, place) := magnitudeDigits x
      let written := Decimal.digits n
      let point : Int := written.length + place
      let body :=
        if -5 < point ∧ point ≤ 16 then
          if place ≥ 0 then positional n place ++ ['.', '0']
          else positional n place
        else
          let exponent := 'e' :: Decimal.ofInt (point - 1)
          match written with
          | [d] => d :: exponent
          | d :: rest => d :: '.' :: rest ++ exponent
          | [] => exponent
      sign ++ String.ofList body

end Binary64

end Specimen
