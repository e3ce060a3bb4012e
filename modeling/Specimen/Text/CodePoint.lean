/-
Characters by their code points, and code points in hexadecimal.
-/

namespace Specimen.Text

def charOfCode? (n : Nat) : Option Char :=
  if h : n.isValidChar then some (Char.ofNatAux n h) else none

def hexValue? (c : Char) : Option Nat :=
  if c.isDigit then some (c.toNat - '0'.toNat)
  else if 'a' ≤ c ∧ c ≤ 'f' then some (c.toNat - 'a'.toNat + 10)
  else if 'A' ≤ c ∧ c ≤ 'F' then some (c.toNat - 'A'.toNat + 10)
  else none

def hexNumber? (digits : List Char) : Option Nat := do
  let values ← digits.mapM hexValue?
  if values.isEmpty then none else some (values.foldl (fun n v => n * 16 + v) 0)

def charOfHex? (digits : List Char) : Option Char :=
  (hexNumber? digits).bind charOfCode?

end Specimen.Text
