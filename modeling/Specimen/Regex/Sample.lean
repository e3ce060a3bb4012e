/-
Random members of the language of a pattern. A choice takes each of its branches
with equal chance, captured choices inside it counting as branches of their own,
and a repetition of a repetition draws both counts before the text, the inner
one first.
-/
import Specimen.Random.Draws
import Specimen.Regex.Normal
import Specimen.Regex.Reader

namespace Specimen.Regex

/-- Why no text can be drawn for a pattern. -/
inductive SampleError where
  | malformed
  | anchored
  | unsatisfiable
deriving Repr, DecidableEq

namespace SampleError

def message : SampleError → String
  | malformed => "regex parse error"
  | anchored => "anchor is not supported"
  | unsatisfiable => "regex is unsatisfiable"

end SampleError

/-- The greatest excess of a repetition without upper bound over its lower
bound. -/
def openExcess : Nat := 10

/-- The counts that one repetition may take. -/
structure Span where
  least : Nat
  most : Nat
deriving Repr, DecidableEq

namespace Span

/-- A count; one that is fixed draws nothing. -/
def draw (s : Span) : Draw Nat := do
  if s.least = s.most then return s.least
  else return s.least + (← Draw.fair (s.most - s.least + 1))

/-- The product of the counts of several repetitions, drawn in order. -/
def drawProduct : List Span → Draw Nat
  | [] => return 1
  | s :: rest => do
    let first ← s.draw
    return first * (← drawProduct rest)

end Span

/-- How texts of a pattern are drawn: `under` makes one text for the given
repetitions around the pattern, the innermost first, and `branches` are the
texts that a choice around it may take. -/
structure Sampler where
  under : List Span → Draw (List Char)
  branches : List (Draw (List Char))

namespace Sampler

/-- Make one text as often as the repetitions say. -/
def repeating (one : Draw (List Char)) (spans : List Span) :
    Draw (List Char) := do
  let count ← Span.drawProduct spans
  return (← Draw.times one count).flatten

/-- A sampler that is a single branch. -/
def ofUnder (under : List Span → Draw (List Char)) : Sampler :=
  ⟨under, [under []]⟩

/-- A sampler that repeats one draw. -/
def ofOne (one : Draw (List Char)) : Sampler := ofUnder (repeating one)

def oneOf (draws : List (Draw (List Char))) : Draw (List Char) := do
  let i ← Draw.fair draws.length
  (draws[i]?).getD (return [])

def memberOf (set : CharSet) : Draw (List Char) := do
  let i ← Draw.fair set.size
  return (set.member? i).toList

end Sampler

namespace Pattern

/-- The sampler of a pattern in normal form. -/
def sampler : Pattern → Sampler
  | .empty => .ofOne (return [])
  | .text cs => .ofOne (return cs)
  | .chars set => .ofOne (Sampler.memberOf set)
  | .look _ => .ofOne (return [])
  | .repeated least most _ body =>
    .ofUnder fun spans =>
      body.sampler.under (⟨least, most.getD (least + openExcess)⟩ :: spans)
  | .group _ body => body.sampler
  | .sequence first second =>
    .ofOne do
      let u ← first.sampler.under []
      let v ← second.sampler.under []
      return u ++ v
  | .choice first second =>
    let branches := first.sampler.branches ++ second.sampler.branches
    ⟨Sampler.repeating (Sampler.oneOf branches), branches⟩

/-- The first part of a pattern, from left to right, that no text can be drawn
for. -/
def obstacle? : Pattern → Option SampleError
  | .empty => none
  | .text _ => none
  | .chars set => if set.ranges.isEmpty then some .unsatisfiable else none
  | .look _ => some .anchored
  | .repeated _ _ _ body => body.obstacle?
  | .group _ body => body.obstacle?
  | .sequence first second => first.obstacle?.or second.obstacle?
  | .choice first second => first.obstacle?.or second.obstacle?

end Pattern

/-- A random text of the language that an expression describes. -/
def sample [Package] (expression : String) :
    ExceptT SampleError Draw String := do
  let some pattern := Pattern.read false expression | throw .malformed
  let pattern := pattern.normal
  match pattern.obstacle? with
  | some reason => throw reason
  | none => return String.ofList (← pattern.sampler.under [])

end Specimen.Regex
