/-
The content model of a schema: numbered type definitions, the top-level
elements, and the names of those that other declarations refer to. Builtin types
get their numbers when they are first asked for.
-/
import Specimen.Schema.Builtin

namespace Specimen

/-- The number of a type definition in a model. -/
abbrev TypeId := Nat

/-- Whether an attribute has to be present. -/
inductive Usage where
  | required
  | optional
  | prohibited
deriving Repr, DecidableEq

/-- How often something may occur; without an upper bound it may occur any
number of times. -/
structure Occurs where
  least : Nat := 1
  most : Option Nat := some 1
deriving Repr, DecidableEq

structure AttributeDecl where
  name : String
  type : TypeId
  usage : Usage
deriving Repr, DecidableEq

/-- An element, at the top level or in the content of a type. -/
structure ElementDecl where
  name : String
  type : TypeId
  occurs : Occurs := {}
deriving Repr, DecidableEq

/-- How the children of a group go together. -/
inductive Order where
  | sequence
  | choice
  | all
deriving Repr, DecidableEq

structure GroupOf (P : Type) where
  order : Order
  occurs : Occurs
  children : List P

/-- A part of a content model. Wildcards allow content but never produce any. -/
inductive Particle where
  | element (decl : ElementDecl)
  | group (group : GroupOf Particle)
  | any (occurs : Occurs)

/-- A group of the parts of a content model. -/
abbrev Group := GroupOf Particle

structure ComplexType where
  content : Option Group := none
  attributes : List AttributeDecl := []

inductive TypeDef where
  | builtin (kind : Kind)
  | restriction (base : TypeId) (facets : Facets)
  | complex (type : ComplexType)

structure Model where
  types : List TypeDef := []
  builtins : List (String × TypeId) := []
  elements : List ElementDecl := []
  references : List String := []

/-- Why a chain of restrictions gives no simple type. -/
inductive ChainError where
  | restrictsComplex (node : String)
  | tooDeep (node : String)
deriving Repr, DecidableEq

namespace ChainError

def message : ChainError → String
  | restrictsComplex node =>
    "Simple type of '" ++ node ++ "' restricts a complex type"
  | tooDeep node => "Restriction chain of '" ++ node ++ "' is too deep"

end ChainError

namespace Model

/-- Add a type definition; it gets the next number. -/
def add (m : Model) (type : TypeDef) : TypeId × Model :=
  (m.types.length, { m with types := m.types ++ [type] })

def define (m : Model) (id : TypeId) (type : TypeDef) : Model :=
  { m with types := m.types.set id type }

/-- The definition with a number of the model.  Only such numbers are meant: for
any other one, which no closed model holds, there is no definition, and any
content stands in its place. -/
def get (m : Model) (id : TypeId) : TypeDef :=
  (m.types[id]?).getD (.builtin .anyType)

/-- The number of a primitive type, which is added under its name if it has none
yet. -/
def primitive (m : Model) (name : String) (kind : Kind) : TypeId × Model :=
  match m.builtins.lookup name with
  | some id => (id, m)
  | none =>
    let (id, m) := m.add (.builtin kind)
    (id, { m with builtins := (name, id) :: m.builtins })

/-- The number of the builtin type with a name, if there is such a type. One
that is asked for the first time is added; a derived type with facets is a
restriction of its primitive. -/
def builtin? (m : Model) (name : String) : Option (TypeId × Model) :=
  match m.builtins.lookup name with
  | some id => some (id, m)
  | none =>
    (SimpleType.builtin? name).map fun type =>
      if type.facets = Facets.none then m.primitive name type.kind
      else
        let (base, m) := m.primitive type.kind.name type.kind
        let (id, m) := m.add (.restriction base type.facets)
        (id, { m with builtins := (name, id) :: m.builtins })

def addElement (m : Model) (element : ElementDecl) : Model :=
  { m with elements := m.elements ++ [element] }

def element? (m : Model) (name : String) : Option ElementDecl :=
  m.elements.find? (·.name == name)

/-- Note that a top-level element is referred to. -/
def addReference (m : Model) (name : String) : Model :=
  if m.references.contains name then m
  else { m with references := name :: m.references }

def isReferenced (m : Model) (name : String) : Bool :=
  m.references.contains name

/-- The greatest number of definitions that a chain of restrictions may have,
its end included. -/
def chainLimit : Nat := 64

/-- Follow a chain of restrictions to its builtin kind, collecting facets. At
most `left` definitions are looked up. -/
def chain (m : Model) (node : String) :
    (left : Nat) → Facets → TypeId → Except ChainError SimpleType
  | 0, _, _ => .error (.tooDeep node)
  | left + 1, facets, id =>
    match m.get id with
    | .builtin kind => .ok ⟨kind, facets⟩
    | .restriction base step => m.chain node left (facets.inherit step) base
    | .complex _ => .error (.restrictsComplex node)

/-- The simple type with a number, its restrictions taken together; complex
types give none. The node that uses the type is named in errors. -/
def resolve (m : Model) (id : TypeId) (node : String) :
    Except ChainError (Option SimpleType) :=
  match m.get id with
  | .complex _ => .ok none
  | _ => (m.chain node chainLimit Facets.none id).map some

end Model

end Specimen
