/-
Russian registration numbers with valid check digits: taxpayer numbers, register
numbers, reason codes and insurance numbers.
-/
import Specimen.Number.Decimal
import Specimen.Random.Draws

namespace Specimen.Registration

/-- The weights of the check digits of taxpayer numbers: of the one of ten
digits, and of the first and the second one of twelve. -/
def weights10 : List Nat := [2, 4, 10, 3, 5, 9, 4, 6, 8]

def weights11 : List Nat := [7, 2, 4, 10, 3, 5, 9, 4, 6, 8]

def weights12 : List Nat := [3, 7, 2, 4, 10, 3, 5, 9, 4, 6, 8]

def digit : Draw Nat := return (← Draw.integer 0 9).toNat

def digits (n : Nat) : Draw (List Nat) := Draw.times digit n

/-- The two digits of a region, which is never 00. -/
def region : Draw (List Nat) := do
  let region := (← Draw.integer 1 99).toNat
  return [region / 10, region % 10]

/-- The weighted sum of digits, modulo 11 and then 10. -/
def weightedCheck (weights body : List Nat) : Nat :=
  Number.total (List.zipWith (· * ·) body weights) % 11 % 10

/-- The digits as one number, modulo the divisor; the remainder is carried from
digit to digit. -/
def remainder (divisor : Nat) (body : List Nat) : Nat :=
  body.foldl (fun carried d => (carried * 10 + d) % divisor) 0

/-- The digits as one number, modulo the divisor and then 10. -/
def remainderCheck (divisor : Nat) (body : List Nat) : Nat :=
  remainder divisor body % 10

/-- The control number of the nine digits of an insurance number: their sum with
weights from 9 down to 1, modulo 101, and 0 for a remainder of 100. -/
def insuranceCheck (body : List Nat) : Nat :=
  let sum := Number.total
    (List.zipWith (· * ·) body [9, 8, 7, 6, 5, 4, 3, 2, 1])
  if sum % 101 = 100 then 0 else sum % 101

/-- A digit as a character; greater numbers are none. -/
def digitChar? (d : Nat) : Option Char :=
  if d < 10 then some (Nat.digitChar d) else none

/-- Digits as text. What is no digit is left out. -/
def write (body : List Nat) : String :=
  String.ofList (body.filterMap digitChar?)

inductive Kind where
  | personTaxpayer
  | companyTaxpayer
  | traderRegister
  | companyRegister
  | reasonCode
  | insurance
deriving Repr, DecidableEq

/-- The twelve-digit taxpayer number of a person. -/
def personTaxpayer : Draw String := do
  let body := (← region) ++ (← digits 8)
  let first := body ++ [weightedCheck weights11 body]
  return write (first ++ [weightedCheck weights12 first])

/-- The ten-digit taxpayer number of a company. -/
def companyTaxpayer : Draw String := do
  let body := (← region) ++ (← digits 7)
  return write (body ++ [weightedCheck weights10 body])

/-- The fifteen-digit register number of a sole trader. -/
def traderRegister : Draw String := do
  let body := 3 :: (← digits 13)
  return write (body ++ [remainderCheck 13 body])

/-- The thirteen-digit register number of a company. -/
def companyRegister : Draw String := do
  let body := 1 :: (← digits 11)
  return write (body ++ [remainderCheck 11 body])

/-- The nine-digit reason code of a tax registration. -/
def reasonCode : Draw String := do
  let region ← region
  let office ← digits 2
  let serial ← digits 3
  return write (region ++ office ++ [0, 1] ++ serial)

/-- An insurance number: three groups of three digits and the control number. -/
def insurance : Draw String := do
  let body ← digits 9
  let numeral := (write body).toList
  let control := Decimal.zeroPadded 2 (insuranceCheck body)
  return String.ofList (numeral.take 3 ++ '-' :: (numeral.drop 3).take 3 ++
    '-' :: (numeral.drop 6).take 3 ++ ' ' :: control)

def draw : Kind → Draw String
  | .personTaxpayer => personTaxpayer
  | .companyTaxpayer => companyTaxpayer
  | .traderRegister => traderRegister
  | .companyRegister => companyRegister
  | .reasonCode => reasonCode
  | .insurance => insurance

end Specimen.Registration
