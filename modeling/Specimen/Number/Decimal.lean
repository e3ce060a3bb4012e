/-
Whole numbers in decimal: their digits, texts padded to a width, and the strict
readers of signed and unsigned numbers of a limited range.
-/
import Specimen.Number

namespace Specimen.Decimal

/-- The digits of a number, without leading zeros. -/
def digits (n : Nat) : List Char := Nat.toDigits 10 n

/-- The number that digits stand for. -/
def value (s : List Char) : Nat := Nat.ofDigitChars 10 s 0

theorem value_digits (n : Nat) : value (digits n) = n := by
  simp [value, digits]

/-- The digits of a number, with zeros in front up to the given width. -/
def zeroPadded (width n : Nat) : List Char :=
  let written := digits n
  List.replicate (width - written.length) '0' ++ written

/-- A signed number; the sign counts for the width, and zeros stand behind it.
-/
def padded (width : Nat) (n : Int) : List Char :=
  if n < 0 then '-' :: zeroPadded (width - 1) n.natAbs
  else zeroPadded width n.natAbs

def ofInt (n : Int) : List Char := padded 1 n

/-- All characters are digits, and there is one. -/
def isNumeral (s : List Char) : Bool := !s.isEmpty && s.all Char.isDigit

/-- Read an unsigned number: digits behind an optional plus sign. -/
def readNat? (s : List Char) : Option Nat :=
  let numeral := match s with
    | '+' :: rest => rest
    | _ => s
  if isNumeral numeral then some (value numeral) else none

/-- Read an unsigned number of at most `bits` bits. -/
def readBits? (bits : Nat) (s : List Char) : Option Nat :=
  (readNat? s).filter (· < Nat.pow 2 bits)

/-- Read a signed number in range: digits behind an optional sign. -/
def readInt? (s : List Char) : Option Int :=
  let parsed : Option Int := match s with
    | '-' :: rest => if isNumeral rest then some (-(value rest : Int)) else none
    | _ => (readNat? s).map Int.ofNat
  parsed.bind Number.checked

end Specimen.Decimal
