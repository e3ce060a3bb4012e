/-
Bounds on whole numbers and the order in which they apply: what the digits
allow, what the schema asks and what the settings prefer. Settings only narrow.
-/
import Specimen.Number

namespace Specimen

/-- A range of whole numbers; a missing side is open. -/
structure Bounds where
  lower : Option Int := none
  upper : Option Int := none
deriving Repr, DecidableEq

namespace Bounds

def Admits (b : Bounds) (n : Int) : Prop :=
  (∀ low ∈ b.lower, low ≤ n) ∧ (∀ high ∈ b.upper, n ≤ high)

instance (b : Bounds) (n : Int) : Decidable (b.Admits n) :=
  match b with
  | ⟨none, none⟩ => .isTrue ⟨nofun, nofun⟩
  | ⟨some low, none⟩ =>
    decidable_of_iff (low ≤ n)
      ⟨fun h => ⟨fun _ hl => by simp_all, nofun⟩, fun h => h.1 low rfl⟩
  | ⟨none, some high⟩ =>
    decidable_of_iff (n ≤ high)
      ⟨fun h => ⟨nofun, fun _ hh => by simp_all⟩, fun h => h.2 high rfl⟩
  | ⟨some low, some high⟩ =>
    decidable_of_iff (low ≤ n ∧ n ≤ high)
      ⟨fun h => ⟨fun _ hl => by simp_all, fun _ hh => by simp_all⟩,
        fun h => ⟨h.1 low rfl, h.2 high rfl⟩⟩

/-- Bounds in rising order: a reversed pair changes places. -/
def ordered : Bounds → Bounds
  | ⟨some low, some high⟩ =>
    if low > high then ⟨some high, some low⟩ else ⟨some low, some high⟩
  | b => b

/-- Raise the lower bound to at least `n`. -/
def raise (b : Bounds) (n : Int) : Bounds :=
  { b with
    lower := some (match b.lower with | none => n | some low => max low n) }

/-- Bring the upper bound down to at most `n`. -/
def cap (b : Bounds) (n : Int) : Bounds :=
  { b with
    upper := some (match b.upper with | none => n | some high => min high n) }

def raise? (b : Bounds) : Option Int → Bounds
  | none => b
  | some n => b.raise n

def cap? (b : Bounds) : Option Int → Bounds
  | none => b
  | some n => b.cap n

/-- Raise the lower bound unless that would pass the upper one. -/
def prefer (b : Bounds) : Option Int → Bounds
  | none => b
  | some n => if ∀ high ∈ b.upper, n ≤ high then b.raise n else b

/-- Bring the upper bound down unless that would pass the lower one. -/
def preferAtMost (b : Bounds) : Option Int → Bounds
  | none => b
  | some n => if ∀ low ∈ b.lower, low ≤ n then b.cap n else b

/-- The bounds of the schema, side by side with those of the digits where it has
none, put in order, kept within the digits, and then narrowed by the settings
where they leave a number. -/
def merge (digits schema configured : Bounds) : Bounds :=
  let asked :=
    (Bounds.mk (schema.lower.or digits.lower)
      (schema.upper.or digits.upper)).ordered
  let allowed := (asked.raise? digits.lower).cap? digits.upper
  (allowed.prefer configured.lower).preferAtMost configured.upper

/-- The bounds of numbers with the given number of digits; past 18 digits they
stay the same. -/
def ofDigits (digits : Nat) : Bounds :=
  let limit : Int := Number.tenTo (min digits 18) - 1
  ⟨some (-limit), some limit⟩

end Bounds

end Specimen
