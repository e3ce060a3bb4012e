/-
The declarations of a schema as they are written: types, groups and elements
that name one another. What has no bearing on content (annotations, wildcards
for attributes, identity constraints) is left out, and constructs that are known
but not supported keep only their names.
-/
import Specimen.Schema.Model

namespace Specimen.Declaration

inductive FacetKind where
  | minExclusive
  | minInclusive
  | maxExclusive
  | maxInclusive
  | totalDigits
  | fractionDigits
  | length
  | minLength
  | maxLength
  | enumeration
  | whiteSpace
  | pattern
  | assertion
  | explicitTimezone
deriving Repr, DecidableEq

/-- A facet with its value as written. -/
structure Facet where
  kind : FacetKind
  value : String
deriving Repr, DecidableEq

mutual

inductive SimpleItem where
  | restriction (base : Option String) (items : List RestrictionItem)
  | list
  | union

inductive RestrictionItem where
  | simpleType (items : List SimpleItem)
  | facet (facet : Facet)

end

structure Attribute where
  name : Option String
  reference : Option String
  type : Option String
  inline : Option (List SimpleItem)
  usage : Usage

/-- What is written in the start tag of an element declaration. -/
structure ElementHead where
  name : Option String
  reference : Option String
  type : Option String
  occurs : Occurs
  isAbstract : Bool
  substitutes : Bool
deriving Repr, DecidableEq

mutual

inductive GroupItem where
  | element (head : ElementHead) (items : List ElementItem)
  | reference (target : Option String) (occurs : Occurs)
  | group (order : Order) (occurs : Occurs) (items : List GroupItem)
  | any (occurs : Occurs)

inductive ElementItem where
  | simpleType (items : List SimpleItem)
  | complexType (items : List ComplexItem)
  | alternative

inductive ComplexItem where
  | group (order : Order) (occurs : Occurs) (items : List GroupItem)
  | reference (target : Option String) (occurs : Occurs)
  | attributeUse (decl : Attribute)
  | unsupported (construct : String)

end

inductive TopLevel where
  | simpleType (name : Option String) (items : List SimpleItem)
  | complexType (name : Option String) (items : List ComplexItem)
  | group (name : Option String) (items : List GroupItem)
  | element (head : ElementHead) (items : List ElementItem)
  | unsupported (construct : String)

end Specimen.Declaration
