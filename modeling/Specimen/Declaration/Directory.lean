/-
The named declarations of a schema. They are collected before any of them is
converted, so they may stand in any order; every named type has its number from
then on.
-/
import Specimen.Declaration.Error
import Specimen.Declaration.Tree

namespace Specimen.Declaration

/-- An element declaration: its start tag and its parts. -/
structure ElementDeclaration where
  head : ElementHead
  items : List ElementItem

/-- What names stand for. Of several types or groups of one name the last
counts, of several elements the first. -/
structure Directory where
  types : List (String × TypeId) := []
  groups : List (String × List GroupItem) := []
  elements : List (String × ElementDeclaration) := []

/-- What is collected: a model with a place for each named type, the
declarations of those types, and the directory. -/
structure Collection where
  model : Model := {}
  simpleTypes : List (TypeId × List SimpleItem) := []
  complexTypes : List (TypeId × List ComplexItem) := []
  directory : Directory := {}

namespace Collection

/-- Give a name to the next type, which may have any content until it is
defined. -/
def reserve (c : Collection) (name : String) : TypeId × Collection :=
  let (id, model) := c.model.add (.builtin .anyType)
  let directory := { c.directory with types := (name, id) :: c.directory.types }
  (id, { c with model, directory })

def add (c : Collection) : TopLevel → Except DeclarationError Collection
  | .simpleType (some name) items =>
    let (id, c) := c.reserve name
    .ok { c with simpleTypes := c.simpleTypes ++ [(id, items)] }
  | .simpleType none _ => .error .unnamedSimpleType
  | .complexType (some name) items =>
    let (id, c) := c.reserve name
    .ok { c with complexTypes := c.complexTypes ++ [(id, items)] }
  | .complexType none _ => .error .unnamedComplexType
  | .group (some name) items =>
    .ok { c with
      directory :=
        { c.directory with groups := (name, items) :: c.directory.groups } }
  | .group none _ => .error .unnamedGroup
  | .element head items =>
    match head.name with
    | some name =>
      let elements := c.directory.elements ++ [(name, ⟨head, items⟩)]
      .ok { c with directory := { c.directory with elements } }
    | none => .error .unnamedElement
  | .unsupported construct => .error (.unsupported construct)

def ofTopLevel (declarations : List TopLevel) :
    Except DeclarationError Collection :=
  declarations.foldlM add {}

end Collection

end Specimen.Declaration
