/-
The types of a model in the order in which they are first mentioned: by the
top-level elements, and then by the types listed so far, one after the other.
-/
import Specimen.Schema.Model

namespace Specimen

mutual

/-- The types that a part of a content model mentions, in document order. -/
def Particle.mentions : Particle → List TypeId
  | .element decl => [decl.type]
  | .group g => GroupOf.mentions g
  | .any _ => []

def GroupOf.mentions : GroupOf Particle → List TypeId
  | ⟨_, _, children⟩ => Particle.mentionsAll children

def Particle.mentionsAll : List Particle → List TypeId
  | [] => []
  | p :: rest => p.mentions ++ Particle.mentionsAll rest

end

/-- The types that a definition mentions: the base, or the attributes and then
the content. -/
def TypeDef.mentions : TypeDef → List TypeId
  | .builtin _ => []
  | .restriction base _ => [base]
  | .complex type =>
    type.attributes.map AttributeDecl.type ++
      (type.content.map GroupOf.mentions).getD []

namespace Model

def listAll (listed : List TypeId) (mentioned : List TypeId) : List TypeId :=
  mentioned.foldl
    (fun listed id => if listed.contains id then listed else listed ++ [id])
    listed

/-- Go through the list from a position on, adding what each type mentions. -/
def listFrom (m : Model) : (left position : Nat) → List TypeId → List TypeId
  | 0, _, listed => listed
  | left + 1, position, listed =>
    match listed[position]? with
    | none => listed
    | some id =>
      m.listFrom left (position + 1) (listAll listed (m.get id).mentions)

/-- The types in the order in which they are first mentioned. -/
def listing (m : Model) : List TypeId :=
  m.listFrom m.types.length 0 (listAll [] (m.elements.map ElementDecl.type))

end Model

end Specimen
