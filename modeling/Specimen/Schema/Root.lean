/-
The root of a document: the first top-level element that no declaration refers
to.
-/
import Specimen.Schema.Model
import Specimen.Session

namespace Specimen

/-- Why a model has no root. -/
inductive RootError where
  | noElements
  | noIndependentElements
deriving Repr, DecidableEq

namespace RootError

def message : RootError → String
  | noElements => "No elements found"
  | noIndependentElements => "No independent elements found"

end RootError

namespace Model

def independent (m : Model) : List ElementDecl :=
  m.elements.filter fun element => !m.isReferenced element.name

/-- The root of a model, with the other elements that could be it. -/
def root (m : Model) : Except RootError (ElementDecl × List ElementDecl) :=
  if m.elements.isEmpty then .error .noElements
  else
    match m.independent with
    | [] => .error .noIndependentElements
    | root :: others => .ok (root, others)

/-- Find the root, with a warning if there are several elements to choose from.
-/
def findRoot (m : Model) : Step RootError ElementDecl := do
  let (root, others) ← m.root
  if !others.isEmpty then
    Step.warn (.severalRoots root.name (others.map ElementDecl.name))
  return root

end Model

end Specimen
