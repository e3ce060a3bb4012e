/-
The content model that declarations describe. References to named groups are
replaced by what the groups contain, and references to elements share the type
of the element they name.

Conversion follows references, and the number of references that are followed
into one another is bounded. The bound of `toModel` leaves room for every chain
that comes to an end.
-/
import Specimen.Declaration.Directory
import Specimen.Number.Decimal
import Specimen.Text.Blank

namespace Specimen.Declaration

/-- The model as far as it is built, and the types of the top-level elements met
so far. -/
structure Builder where
  model : Model
  elementTypes : List (String × TypeId) := []

/-- A step of conversion. -/
abbrev Conversion := StateT Builder (Except DeclarationError)

namespace Conversion

def add (type : TypeDef) : Conversion TypeId := do
  let (id, model) := (← get).model.add type
  modify fun b => { b with model }
  return id

def define (id : TypeId) (type : TypeDef) : Conversion Unit :=
  modify fun b => { b with model := b.model.define id type }

def builtin (name : String) : Conversion TypeId := do
  match (← get).model.builtin? name with
  | some (id, model) =>
    modify fun b => { b with model }
    return id
  | none => throw (.unknownType name)

/-- Note the type of a top-level element. -/
def note (name : String) (id : TypeId) : Conversion Unit :=
  modify fun b => { b with elementTypes := (name, id) :: b.elementTypes }

/-- Note that a top-level element is referred to. -/
def refer (name : String) : Conversion Unit :=
  modify fun b => { b with model := b.model.addReference name }

/-- The number of the type that a name refers to: one of the schema, or else a
builtin one. -/
def type (directory : Directory) (name : String) : Conversion TypeId :=
  match directory.types.lookup name with
  | some id => return id
  | none => builtin name

end Conversion

/-- The number that a facet has as its value, of at most `bits` bits. -/
def facetNumber (bits : Nat) (value facet : String) :
    Except DeclarationError Nat :=
  match Decimal.readBits? bits (Text.trim value.toList) with
  | some n => .ok n
  | none => .error (.badFacet value facet)

/-- Facets with one more. Those on blanks and time zones have no effect on
values. -/
def addFacet (facets : Facets) : Facet → Except DeclarationError Facets
  | ⟨.minExclusive, value⟩ => .ok { facets with minExclusive := some value }
  | ⟨.minInclusive, value⟩ => .ok { facets with minInclusive := some value }
  | ⟨.maxExclusive, value⟩ => .ok { facets with maxExclusive := some value }
  | ⟨.maxInclusive, value⟩ => .ok { facets with maxInclusive := some value }
  | ⟨.totalDigits, value⟩ => do
    return { facets with
      totalDigits := some (← facetNumber 32 value "totalDigits") }
  | ⟨.fractionDigits, value⟩ => do
    return { facets with
      fractionDigits := some (← facetNumber 32 value "fractionDigits") }
  | ⟨.length, value⟩ => do
    return { facets with length := some (← facetNumber 64 value "length") }
  | ⟨.minLength, value⟩ => do
    return { facets with
      minLength := some (← facetNumber 64 value "minLength") }
  | ⟨.maxLength, value⟩ => do
    return { facets with
      maxLength := some (← facetNumber 64 value "maxLength") }
  | ⟨.enumeration, value⟩ =>
    .ok { facets with enumeration := facets.enumeration ++ [value] }
  | ⟨.pattern, value⟩ =>
    .ok { facets with patterns := facets.patterns ++ [value] }
  | ⟨.whiteSpace, _⟩ => .ok facets
  | ⟨.explicitTimezone, _⟩ => .ok facets
  | ⟨.assertion, _⟩ => .error (.unsupported "assertion facet")

/-- The definition that was found. A simple type that restricts nothing is a
string. -/
def orString : Option TypeDef → Conversion TypeDef
  | some definition => return definition
  | none => return .restriction (← Conversion.builtin "string") Facets.none

section Simple

variable (directory : Directory)

mutual

/-- The definition of a simple type by its last restriction, if it has one. -/
def simpleItems : List SimpleItem → Option TypeDef → Conversion (Option TypeDef)
  | [], found => return found
  | item :: rest, _ => do
    let definition ← simpleItem item
    simpleItems rest (some definition)

def simpleItem : SimpleItem → Conversion TypeDef
  | .restriction base items => do
    let named ← base.mapM (Conversion.type directory)
    restrictionItems items named Facets.none
  | .list => throw (.unsupported "list simple type")
  | .union => throw (.unsupported "union simple type")

/-- A restriction by its parts. An inline type goes before the one that is
named. -/
def restrictionItems :
    List RestrictionItem → Option TypeId → Facets → Conversion TypeDef
  | [], some base, facets => return .restriction base facets
  | [], none, _ => throw .restrictionWithoutBase
  | item :: rest, base, facets => do
    let (inline, facets) ← restrictionItem item facets
    restrictionItems rest (inline.or base) facets

/-- What a part adds to a restriction: a base or a facet. -/
def restrictionItem :
    RestrictionItem → Facets → Conversion (Option TypeId × Facets)
  | .simpleType items, facets => do
    let definition ← orString (← simpleItems items none)
    return (some (← Conversion.add definition), facets)
  | .facet facet, facets => do return (none, ← addFacet facets facet)

end

def simpleType (items : List SimpleItem) : Conversion TypeDef := do
  orString (← simpleItems directory items none)

/-- The type of an attribute: the one that is named, or else an inline one, or
else a string. -/
def attributeType (decl : Attribute) : Conversion TypeId :=
  match decl.type, decl.inline with
  | some named, _ => Conversion.type directory named
  | none, some items => do Conversion.add (← simpleType directory items)
  | none, none => Conversion.builtin "string"

def attributeDecl (decl : Attribute) : Conversion AttributeDecl :=
  if decl.reference.isSome then throw (.unsupported "attribute reference")
  else
    match decl.name with
    | none => throw .unnamedAttribute
    | some name => do
      return {
        name, type := ← attributeType directory decl, usage := decl.usage }

end Simple

/-- Elements that stand for others, or that only others may stand for, are not
supported. -/
def checkHead (head : ElementHead) (name : String) :
    Except DeclarationError Unit :=
  if head.substitutes then
    .error (.unsupported ("substitution group of element '" ++ name ++ "'"))
  else if head.isAbstract then
    .error (.unsupported ("abstract element '" ++ name ++ "'"))
  else .ok ()

/-- How references are followed: from the groups that are being expanded and a
name to the content of that group, or to the type of that top-level element. -/
structure References where
  group : List String → String → Conversion Group
  element : List String → String → Conversion TypeId

section Content

variable (directory : Directory) (references : References)
    (expanding : List String)

/-- The type of an element in a group, by its inline type and the name of its
type. -/
def ownType (element : String) (inline : Option TypeDef)
    (named : Option String) : Conversion TypeId :=
  match inline, named with
  | some _, some _ => throw (.typeTwice element)
  | some definition, none => Conversion.add definition
  | none, some name => Conversion.type directory name
  | none, none => Conversion.builtin "anyType"

/-- What a reference to a group stands for: the content of the group, as often
as the reference says. -/
def groupReference (target : Option String) (occurs : Occurs) :
    Conversion Group :=
  match target with
  | none => throw .groupWithoutReference
  | some name => do
    let content ← references.group expanding name
    return { order := .sequence, occurs, children := [.group content] }

mutual

def groupItems : List GroupItem → Conversion (List Particle)
  | [] => return []
  | item :: rest => do
    let particle ← groupItem item
    return particle :: (← groupItems rest)

def groupItem : GroupItem → Conversion Particle
  | .element head items =>
    match head.reference with
    | some name => do
      checkHead head name
      let type ← references.element expanding name
      Conversion.refer name
      return .element { name, type, occurs := head.occurs }
    | none =>
      match head.name with
      | none => throw .unnamedElement
      | some name => do
        checkHead head name
        let inline ← elementItems items none
        let type ← ownType directory name inline head.type
        return .element { name, type, occurs := head.occurs }
  | .reference target occurs =>
    return .group (← groupReference references expanding target occurs)
  | .group order occurs items =>
    return .group { order, occurs, children := ← groupItems items }
  | .any occurs => return .any occurs

def elementItems :
    List ElementItem → Option TypeDef → Conversion (Option TypeDef)
  | [], found => return found
  | item :: rest, _ => do
    let definition ← elementItem item
    elementItems rest (some definition)

def elementItem : ElementItem → Conversion TypeDef
  | .simpleType items => simpleType directory items
  | .complexType items => return .complex (← complexItems items {})
  | .alternative => throw (.unsupported "type alternative")

/-- A complex type by its parts: the last group is its content. -/
def complexItems : List ComplexItem → ComplexType → Conversion ComplexType
  | [], type => return type
  | item :: rest, type => do
    let type ← complexItem item type
    complexItems rest type

def complexItem : ComplexItem → ComplexType → Conversion ComplexType
  | .group order occurs items, type => do
    let children ← groupItems items
    return { type with content := some { order, occurs, children } }
  | .reference target occurs, type => do
    return { type with
      content := some (← groupReference references expanding target occurs) }
  | .attributeUse decl, type => do
    return { type with
      attributes := type.attributes ++ [← attributeDecl directory decl] }
  | .unsupported construct, _ => throw (.unsupported construct)

end

/-- The content of a named group: the group that it begins with. -/
def groupContent (name : String) (items : List GroupItem) : Conversion Group :=
  match items with
  | .group order occurs items :: _ => do
    return {
      order, occurs
      children := ← groupItems directory references expanding items }
  | _ => throw (.groupWithoutContent name)

/-- The content of the group with a name, unless it is being expanded already.
-/
def namedGroup (name : String) : Conversion Group :=
  if expanding.contains name then throw (.groupInItself name)
  else
    match directory.groups.lookup name with
    | none => throw (.unknownGroup name)
    | some items =>
      groupContent directory references (name :: expanding) name items

/-- Build the type of a top-level element with a named type. It must not have an
inline type too. -/
def namedType (name type : String) (items : List ElementItem) :
    Conversion TypeId := do
  match ← elementItems directory references expanding items none with
  | some _ => throw (.typeTwice name)
  | none => do
    let id ← Conversion.type directory type
    Conversion.note name id
    return id

/-- Build the inline type of a top-level element. It has its number before it is
built, so that the element may be referred to in its own content. -/
def inlineType (name : String) (items : List ElementItem) :
    Conversion TypeId := do
  let id ← Conversion.add (.builtin .anyType)
  Conversion.note name id
  let inline ← elementItems directory references expanding items none
  inline.forM (Conversion.define id)
  return id

/-- The type of a top-level element, which is built once. -/
def topLevelType (name : String) (decl : ElementDeclaration) :
    Conversion TypeId := do
  match (← get).elementTypes.lookup name with
  | some id => return id
  | none =>
    match decl.head.type with
    | some type => namedType directory references expanding name type decl.items
    | none => inlineType directory references expanding name decl.items

def namedElement (name : String) : Conversion TypeId :=
  match directory.elements.lookup name with
  | none => throw (.unknownElement name)
  | some decl => topLevelType directory references expanding name decl

end Content

/-- Follow references, at most `depth` of them into one another. -/
def References.within (directory : Directory) : (depth : Nat) → References
  | 0 =>
    ⟨fun _ name => throw (.endless name), fun _ name => throw (.endless name)⟩
  | depth + 1 =>
    let inner := within directory depth
    ⟨namedGroup directory inner, namedElement directory inner⟩

def defineSimple (directory : Directory)
    (types : List (TypeId × List SimpleItem)) : Conversion Unit :=
  types.forM fun (id, items) => do
    Conversion.define id (← simpleType directory items)

def defineComplex (directory : Directory) (references : References)
    (types : List (TypeId × List ComplexItem)) : Conversion Unit :=
  types.forM fun (id, items) => do
    let type ← complexItems directory references [] items {}
    Conversion.define id (.complex type)

def addElements (directory : Directory) (references : References) :
    Conversion Unit :=
  directory.elements.forM fun (name, decl) => do
    checkHead decl.head name
    let type ← topLevelType directory references [] name decl
    modify fun b => { b with model := b.model.addElement { name, type } }

/-- Build what was collected: the named types, and then the top-level elements.
-/
def Collection.build (c : Collection) (references : References) :
    Conversion Unit := do
  defineSimple c.directory c.simpleTypes
  defineComplex c.directory references c.complexTypes
  addElements c.directory references

/-- The model that the collected declarations describe, following at most
`depth` references into one another. -/
def Collection.toModel (c : Collection) (depth : Nat) :
    Except DeclarationError Model := do
  let (_, b) ← (c.build (References.within c.directory depth)).run
      { model := c.model }
  return b.model

/-- No chain of references that comes to an end is longer. Every group and every
element without a named type occurs at most once in it, and between two of them
no element occurs twice. -/
def Directory.depth (d : Directory) : Nat :=
  (d.groups.length + d.elements.length + 1) * (d.elements.length + 1) + 1

/-- The model that declarations describe. -/
def toModel (declarations : List TopLevel) : Except DeclarationError Model := do
  let c ← Collection.ofTopLevel declarations
  c.toModel c.directory.depth

end Specimen.Declaration
