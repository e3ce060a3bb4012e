/-
Whole numbers: powers of ten, sums, and the range of those that values and
settings hold, 64-bit signed numbers. Arithmetic on these stops at the ends of
the range.
-/

namespace Specimen.Number

/-- A power of ten. -/
def tenTo (n : Nat) : Nat := Nat.pow 10 n

def total : List Nat → Nat
  | [] => 0
  | n :: rest => n + total rest

def least : Int := -0x8000000000000000

def greatest : Int := 0x7FFFFFFFFFFFFFFF

def InRange (n : Int) : Prop := least ≤ n ∧ n ≤ greatest

instance (n : Int) : Decidable (InRange n) :=
  inferInstanceAs (Decidable (_ ∧ _))

/-- The nearest number in range. -/
def clamp (n : Int) : Int := max least (min greatest n)

/-- The number, if it is in range. -/
def checked (n : Int) : Option Int := if InRange n then some n else none

theorem clamp_of_inRange {n : Int} (h : InRange n) : clamp n = n := by
  unfold clamp
  have := h.1
  have := h.2
  omega

theorem inRange_clamp (n : Int) : InRange (clamp n) := by
  unfold InRange clamp least greatest
  omega

end Specimen.Number
