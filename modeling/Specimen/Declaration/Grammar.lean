/-
Which markup is a schema document: what each construct may contain and which
values its attributes may have. The order of children is free.
-/
import Specimen.Markup.Reader
import Specimen.Number.Decimal

namespace Specimen.Declaration

open Markup (Element Item Space)

/-- The constructs of schema documents, as far as they differ in what they may
contain. -/
inductive Construct where
  | schema
  | annotation
  | free
  | element
  | complexType
  | group
  | simpleType
  | restriction
  | facet
  | assertion
  | ofType
  | attributeUse
  | attributeGroup
  | content
  | derivation
  | wildcard
  | openContent
  | constraint
  | path
  | alternative
  | other
  | importing
  | refused
deriving Repr, DecidableEq

namespace Construct

def schemaSpace : String := "http://www.w3.org/2001/XMLSchema"

def facetNames : List String :=
  ["minExclusive", "minInclusive", "maxExclusive", "maxInclusive",
    "totalDigits", "fractionDigits", "length", "minLength", "maxLength",
    "enumeration", "whiteSpace", "pattern", "explicitTimezone"]

/-- A facet, or an assertion in the place of one. -/
def facet? (name : String) : Option Construct :=
  if facetNames.contains name then some facet
  else if name = "assertion" then some assertion
  else none

/-- A group of particles or a reference to one. -/
def group? (name : String) : Option Construct :=
  if ["group", "all", "choice", "sequence"].contains name then some group
  else none

/-- What declares attributes. -/
def attribute? : String → Option Construct
  | "attribute" => some attributeUse
  | "attributeGroup" => some attributeGroup
  | "anyAttribute" => some wildcard
  | _ => none

/-- What a construct may contain beside annotations. -/
def ownChild? (parent : Construct) (name : String) : Option Construct :=
  match parent with
  | schema =>
    match name with
    | "include" => some refused
    | "redefine" => some refused
    | "override" => some refused
    | "import" => some importing
    | "defaultOpenContent" => some openContent
    | "simpleType" => some simpleType
    | "complexType" => some complexType
    | "group" => some group
    | "attributeGroup" => some attributeGroup
    | "element" => some element
    | "attribute" => some attributeUse
    | "notation" => some other
    | _ => none
  | element =>
    match name with
    | "simpleType" => some simpleType
    | "complexType" => some complexType
    | "alternative" => some alternative
    | "unique" => some constraint
    | "key" => some constraint
    | "keyref" => some constraint
    | _ => none
  | complexType =>
    match name with
    | "simpleContent" => some content
    | "complexContent" => some content
    | "openContent" => some openContent
    | "assert" => some assertion
    | _ => (group? name).or (attribute? name)
  | group =>
    match name with
    | "element" => some element
    | "any" => some wildcard
    | _ => group? name
  | simpleType =>
    match name with
    | "restriction" => some restriction
    | "list" => some ofType
    | "union" => some ofType
    | _ => none
  | restriction => if name = "simpleType" then some simpleType else facet? name
  | ofType => if name = "simpleType" then some simpleType else none
  | attributeUse => if name = "simpleType" then some simpleType else none
  | attributeGroup => attribute? name
  | content =>
    match name with
    | "restriction" => some derivation
    | "extension" => some derivation
    | _ => none
  | derivation =>
    match name with
    | "simpleType" => some simpleType
    | "openContent" => some openContent
    | "assert" => some assertion
    | _ => ((group? name).or (attribute? name)).or (facet? name)
  | openContent => if name = "any" then some wildcard else none
  | constraint => if name = "selector" ∨ name = "field" then some path else none
  | alternative =>
    match name with
    | "simpleType" => some simpleType
    | "complexType" => some complexType
    | _ => none
  | annotation =>
    if name = "documentation" ∨ name = "appinfo" then some free else none
  | _ => none

/-- What a construct may contain. -/
def child? (parent : Construct) (name : String) : Option Construct :=
  if name = "annotation" ∧ parent ≠ annotation ∧ parent ≠ free then
    some annotation
  else parent.ownChild? name

end Construct

/-- A truth value: a word in any case, or a digit. -/
def isTruth (value : String) : Bool :=
  ["true", "false", "1", "0"].contains (Text.lowercase value)

/-- A truth value that says yes. -/
def saysYes (value : String) : Bool :=
  ["true", "1"].contains (Text.lowercase value)

def readCount (value : String) : Option Nat := Decimal.readBits? 64 value.toList

/-- The attribute is missing or has a value that the test accepts. -/
def absentOr (e : Element) (name : String) (test : String → Bool) : Bool :=
  match e.attribute? name with
  | none => true
  | some value => test value

def occursValid (e : Element) : Bool :=
  absentOr e "minOccurs" (fun v => (readCount v).isSome) &&
    absentOr e "maxOccurs" (fun v => v == "unbounded" || (readCount v).isSome)

def isForm (value : String) : Bool :=
  value == "qualified" || value == "unqualified"

/-- The attributes that the construct needs are there, and those that have a
type have a value of it. Documents that others have to be loaded for are
refused. -/
def attributesValid (construct : Construct) (e : Element) : Bool :=
  match construct with
  | .schema =>
    absentOr e "elementFormDefault" isForm &&
      absentOr e "attributeFormDefault" isForm
  | .element =>
    occursValid e && absentOr e "abstract" isTruth &&
      absentOr e "nillable" isTruth && absentOr e "form" isForm
  | .complexType => absentOr e "abstract" isTruth && absentOr e "mixed" isTruth
  | .group => occursValid e
  | .facet => (e.attribute? "value").isSome && absentOr e "fixed" isTruth
  | .attributeUse =>
    absentOr e "use" (["prohibited", "optional", "required"].contains ·) &&
      absentOr e "form" isForm
  | .content => absentOr e "mixed" isTruth
  | .derivation => (e.attribute? "base").isSome
  | .wildcard =>
    occursValid e &&
      absentOr e "processContents" (["skip", "lax", "strict"].contains ·)
  | .path => (e.attribute? "xpath").isSome
  | .importing => (e.attribute? "schemaLocation").isNone
  | .refused => false
  | _ => true

def childNames (items : List Item) : List String :=
  items.filterMap fun item =>
    match item with
    | .element e => some e.localName
    | _ => none

/-- What an attribute contains comes at most once; other constructs may contain
more of a kind. -/
def repeatsValid (construct : Construct) (items : List Item) : Bool :=
  construct != .attributeUse || decide (childNames items).Nodup

/-- The element bears a name of schema documents: without a label, or with one
of their namespace. -/
def hasSchemaName (e : Element) : Bool :=
  e.space == .unlabelled || e.space == .bound Construct.schemaSpace

mutual

/-- The element is a well-formed construct of the given kind, with all that it
contains. -/
def conforms (construct : Construct) : Element → Bool
  | .mk space localName attributes items =>
    attributesValid construct (.mk space localName attributes items) &&
      (construct == .free ||
        (repeatsValid construct items && itemsConform construct items))

/-- The parts between the tags of a construct are blanks and children that it
may contain. -/
def itemsConform (construct : Construct) : List Item → Bool
  | [] => true
  | .text s :: rest => s.all Markup.Token.isSpace && itemsConform construct rest
  | .verbatim _ :: _ => false
  | .element e :: rest =>
    hasSchemaName e &&
      (match construct.child? e.localName with
        | none => false
        | some child => conforms child e) &&
      itemsConform construct rest

end

end Specimen.Declaration
