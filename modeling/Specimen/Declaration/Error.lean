/-
Why declarations give no content model.
-/

namespace Specimen

/-- What is wrong with the declarations of a schema. -/
inductive DeclarationError where
  | unknownType (name : String)
  | unknownGroup (name : String)
  | unknownElement (name : String)
  | unsupported (construct : String)
  | unnamedSimpleType
  | unnamedComplexType
  | unnamedGroup
  | unnamedElement
  | unnamedAttribute
  | groupWithoutReference
  | groupInItself (name : String)
  | groupWithoutContent (name : String)
  | restrictionWithoutBase
  | typeTwice (element : String)
  | badFacet (value facet : String)
  | endless (name : String)
deriving Repr, DecidableEq

namespace DeclarationError

def message : DeclarationError → String
  | unknownType name => "Cannot find data type: " ++ name
  | unknownGroup name => "Cannot find group: " ++ name
  | unknownElement name => "Cannot find element: " ++ name
  | unsupported construct => "Unsupported schema construct: " ++ construct
  | unnamedSimpleType => "Top-level simple type does not have a name"
  | unnamedComplexType => "Top-level complex type does not have a name"
  | unnamedGroup => "Top-level group does not have a name"
  | unnamedElement => "Element does not have a name or a reference"
  | unnamedAttribute => "Attribute does not have a name"
  | groupWithoutReference => "Group does not have a reference"
  | groupInItself name => "Group '" ++ name ++ "' references itself"
  | groupWithoutContent name =>
    "Group '" ++ name ++ "' must contain a sequence, choice or all"
  | restrictionWithoutBase => "Restriction does not have a base type"
  | typeTwice element =>
    "Element '" ++ element ++ "' has a type and an inline type definition"
  | badFacet value facet =>
    "Invalid value '" ++ value ++ "' for facet " ++ facet
  | endless name => "Declaration of '" ++ name ++ "' has no end"

/-- The error is a name that nothing is declared under. -/
def isLookup : DeclarationError → Bool
  | unknownType _ => true
  | unknownGroup _ => true
  | unknownElement _ => true
  | _ => false

end DeclarationError

end Specimen
