/-
Reading the declarations of a schema from its text.
-/
import Specimen.Declaration.Grammar
import Specimen.Declaration.Tree

namespace Specimen.Declaration

open Markup (Element Item)

/-- The part of a qualified name behind its first colon, or the whole name. -/
def localPart (name : String) : String :=
  match Text.cut ':' name.toList with
  | some (_, part) => String.ofList part
  | none => name

/-- The local part of the name in an attribute. -/
def qualified? (e : Element) (name : String) : Option String :=
  (e.attribute? name).map localPart

/-- How often something may occur; once if nothing is said. -/
def readOccurs (e : Element) : Occurs where
  least := ((e.attribute? "minOccurs").bind readCount).getD 1
  most :=
    match e.attribute? "maxOccurs" with
    | none => some 1
    | some value => readCount value

def facetKind? : String → Option FacetKind
  | "minExclusive" => some .minExclusive
  | "minInclusive" => some .minInclusive
  | "maxExclusive" => some .maxExclusive
  | "maxInclusive" => some .maxInclusive
  | "totalDigits" => some .totalDigits
  | "fractionDigits" => some .fractionDigits
  | "length" => some .length
  | "minLength" => some .minLength
  | "maxLength" => some .maxLength
  | "enumeration" => some .enumeration
  | "whiteSpace" => some .whiteSpace
  | "pattern" => some .pattern
  | "assertion" => some .assertion
  | "explicitTimezone" => some .explicitTimezone
  | _ => none

mutual

def readSimpleItems : List Item → List SimpleItem
  | [] => []
  | .element e :: rest => readSimpleItem e ++ readSimpleItems rest
  | _ :: rest => readSimpleItems rest

def readSimpleItem : Element → List SimpleItem
  | .mk space localName attributes items =>
    match localName with
    | "restriction" =>
      [.restriction (qualified? (.mk space localName attributes items) "base")
        (readRestrictionItems items)]
    | "list" => [.list]
    | "union" => [.union]
    | _ => []

def readRestrictionItems : List Item → List RestrictionItem
  | [] => []
  | .element e :: rest => readRestrictionItem e ++ readRestrictionItems rest
  | _ :: rest => readRestrictionItems rest

def readRestrictionItem : Element → List RestrictionItem
  | .mk space localName attributes items =>
    if localName = "simpleType" then [.simpleType (readSimpleItems items)]
    else
      match facetKind? localName with
      | some kind =>
        let e := Element.mk space localName attributes items
        [.facet ⟨kind, (e.attribute? "value").getD ""⟩]
      | none => []

end

/-- The simple types among the parts of an element, by their content. -/
def inlineSimpleTypes (items : List Item) : List (List SimpleItem) :=
  items.filterMap fun item =>
    match item with
    | .element e =>
      if e.localName = "simpleType" then some (readSimpleItems e.items)
      else none
    | _ => none

def readAttribute (e : Element) : Attribute where
  name := e.attribute? "name"
  reference := qualified? e "ref"
  type := qualified? e "type"
  inline := (inlineSimpleTypes e.items).head?
  usage :=
    match e.attribute? "use" with
    | some "required" => .required
    | some "prohibited" => .prohibited
    | _ => .optional

def readHead (e : Element) : ElementHead where
  name := e.attribute? "name"
  reference := qualified? e "ref"
  type := qualified? e "type"
  occurs := readOccurs e
  isAbstract := (e.attribute? "abstract").any saysYes
  substitutes := (e.attribute? "substitutionGroup").isSome

/-- The order of the children of a group, by its name. -/
def order? : String → Option Order
  | "sequence" => some .sequence
  | "choice" => some .choice
  | "all" => some .all
  | _ => none

mutual

def readGroupItems : List Item → List GroupItem
  | [] => []
  | .element e :: rest => readGroupItem e ++ readGroupItems rest
  | _ :: rest => readGroupItems rest

def readGroupItem : Element → List GroupItem
  | .mk space localName attributes items =>
    let e := Element.mk space localName attributes items
    match order? localName with
    | some order => [.group order (readOccurs e) (readGroupItems items)]
    | none =>
      match localName with
      | "element" => [.element (readHead e) (readElementItems items)]
      | "group" => [.reference (qualified? e "ref") (readOccurs e)]
      | "any" => [.any (readOccurs e)]
      | _ => []

def readElementItems : List Item → List ElementItem
  | [] => []
  | .element e :: rest => readElementItem e ++ readElementItems rest
  | _ :: rest => readElementItems rest

def readElementItem : Element → List ElementItem
  | .mk _ localName _ items =>
    match localName with
    | "simpleType" => [.simpleType (readSimpleItems items)]
    | "complexType" => [.complexType (readComplexItems items)]
    | "alternative" => [.alternative]
    | _ => []

def readComplexItems : List Item → List ComplexItem
  | [] => []
  | .element e :: rest => readComplexItem e ++ readComplexItems rest
  | _ :: rest => readComplexItems rest

def readComplexItem : Element → List ComplexItem
  | .mk space localName attributes items =>
    let e := Element.mk space localName attributes items
    match order? localName with
    | some order => [.group order (readOccurs e) (readGroupItems items)]
    | none =>
      match localName with
      | "group" => [.reference (qualified? e "ref") (readOccurs e)]
      | "attribute" => [.attributeUse (readAttribute e)]
      | "annotation" => []
      | "anyAttribute" => []
      | construct => [.unsupported construct]

end

def readTopLevel (e : Element) : List TopLevel :=
  let name := e.attribute? "name"
  match e.localName with
  | "simpleType" => [.simpleType name (readSimpleItems e.items)]
  | "complexType" => [.complexType name (readComplexItems e.items)]
  | "group" => [.group name (readGroupItems e.items)]
  | "element" => [.element (readHead e) (readElementItems e.items)]
  | "annotation" => []
  | "attribute" => [.unsupported "top-level attribute"]
  | construct => [.unsupported construct]

/-- The declarations of a schema text, if it is a schema document. The name of
the first element does not matter. -/
def read (text : String) : Option (List TopLevel) := do
  let root ← Markup.read text
  if conforms .schema root then
    return root.items.flatMap fun item =>
      match item with
      | .element e => readTopLevel e
      | _ => []
  else none

end Specimen.Declaration
