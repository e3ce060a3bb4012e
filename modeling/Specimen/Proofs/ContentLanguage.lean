/-
Content models as languages.  A particle stands for the words that its
children may form: repetitions are powers, a sequence is a product and a choice
a sum.  How often a particle may occur, what a word is made of and what a
wildcard allows is left open, so that one definition serves every reading of a
content model.
-/
import Mathlib.Computability.Language
import Specimen.Schema.Model

namespace Specimen

/-- A way to read content models as languages. -/
structure ContentReading (α : Type) where
  /-- The numbers of occurrences that bounds allow. -/
  counts : Occurs → Set Nat
  /-- The letter of an element. -/
  letter : ElementDecl → α
  /-- The words that a wildcard stands for. -/
  wildcard : Occurs → Language α

namespace ContentReading

variable {α : Type}

/-- The words that consist of an allowed number of words of a language. -/
def repetitions (counts : Set Nat) (once : Language α) : Language α :=
  { word | ∃ n ∈ counts, word ∈ once ^ n }

theorem mem_repetitions {counts : Set Nat} {once : Language α} {n : Nat}
    {word : List α} (hn : n ∈ counts) (hword : word ∈ once ^ n) :
    word ∈ repetitions counts once :=
  ⟨n, hn, hword⟩

variable (reading : ContentReading α)

mutual

def ofParticle : Particle → Language α
  | .element decl =>
    repetitions (reading.counts decl.occurs) {[reading.letter decl]}
  | .group g => ofGroup g
  | .any occurs => reading.wildcard occurs

/-- The words of a group.  One repetition is a word of every child in order, or
a word of one child; a choice without children has the empty repetition. -/
def ofGroup : GroupOf Particle → Language α
  | ⟨order, occurs, children⟩ =>
    repetitions (reading.counts occurs) <|
      match order with
      | .choice => if children.isEmpty then 1 else oneOf children
      | _ => inOrder children

/-- The words of several particles, one behind the other. -/
def inOrder : List Particle → Language α
  | [] => 1
  | p :: rest => ofParticle p * inOrder rest

/-- The words of any one of several particles. -/
def oneOf : List Particle → Language α
  | [] => 0
  | p :: rest => ofParticle p + oneOf rest

end

/-- The words of the content of a complex type; without content there is only
the empty word. -/
def ofContent : Option Group → Language α
  | none => 1
  | some g => reading.ofGroup g

end ContentReading

/-- The elements that a generated document may hold: a missing upper bound is
replaced by a cap, an upper bound below the lower one counts as equal to it, and
wildcards stand for nothing. -/
def ContentReading.capped (cap : Nat) : ContentReading ElementDecl where
  counts occurs :=
    { n | occurs.least ≤ n ∧ n ≤ max (occurs.most.getD cap) occurs.least }
  letter decl := decl
  wildcard _ := 1

end Specimen
