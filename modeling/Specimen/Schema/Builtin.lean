/-
The builtin types of the schema language: the primitive kinds that values are
generated for, and the derived names, each a kind with the facets that the
derivation adds.
-/
import Specimen.Schema.Facets
import Specimen.Number

namespace Specimen

/-- The kind of value that a simple type holds in the end, and the universal
type. -/
inductive Kind where
  | string
  | boolean
  | decimal
  | integer
  | float
  | double
  | duration
  | dateTime
  | time
  | date
  | gYearMonth
  | gYear
  | gMonthDay
  | gDay
  | gMonth
  | hexBinary
  | base64Binary
  | anyURI
  | qName
  | notationName
  | anyType
  | anySimpleType
  | entity
  | entities
  | idRefs
  | nmTokens
deriving Repr, DecidableEq

namespace Kind

def name : Kind → String
  | string => "string"
  | boolean => "boolean"
  | decimal => "decimal"
  | integer => "integer"
  | float => "float"
  | double => "double"
  | duration => "duration"
  | dateTime => "dateTime"
  | time => "time"
  | date => "date"
  | gYearMonth => "gYearMonth"
  | gYear => "gYear"
  | gMonthDay => "gMonthDay"
  | gDay => "gDay"
  | gMonth => "gMonth"
  | hexBinary => "hexBinary"
  | base64Binary => "base64Binary"
  | anyURI => "anyURI"
  | qName => "QName"
  | notationName => "NOTATION"
  | anyType => "anyType"
  | anySimpleType => "anySimpleType"
  | entity => "ENTITY"
  | entities => "ENTITIES"
  | idRefs => "IDREFS"
  | nmTokens => "NMTOKENS"

/-- The primitive kind with the given name. The atomic wildcard counts as the
simple one. -/
def ofName? : String → Option Kind
  | "string" => some string
  | "boolean" => some boolean
  | "decimal" => some decimal
  | "integer" => some integer
  | "float" => some float
  | "double" => some double
  | "duration" => some duration
  | "dateTime" => some dateTime
  | "time" => some time
  | "date" => some date
  | "gYearMonth" => some gYearMonth
  | "gYear" => some gYear
  | "gMonthDay" => some gMonthDay
  | "gDay" => some gDay
  | "gMonth" => some gMonth
  | "hexBinary" => some hexBinary
  | "base64Binary" => some base64Binary
  | "anyURI" => some anyURI
  | "QName" => some qName
  | "NOTATION" => some notationName
  | "anyType" => some anyType
  | "anySimpleType" => some anySimpleType
  | "anyAtomicType" => some anySimpleType
  | "ENTITY" => some entity
  | "ENTITIES" => some entities
  | "IDREFS" => some idRefs
  | "NMTOKENS" => some nmTokens
  | _ => none

end Kind

/-- A simple type with its chain of restrictions taken together. -/
structure SimpleType where
  kind : Kind
  facets : Facets
deriving Repr, DecidableEq

namespace SimpleType

/-- Whole numbers between two bounds, without fraction digits. -/
def wholeNumbers (least greatest : Option Int) : SimpleType where
  kind := .integer
  facets :=
    { minInclusive := least.map fun n => toString n
      maxInclusive := greatest.map fun n => toString n
      fractionDigits := some 0 }

def text : SimpleType := ⟨.string, .none⟩

/-- Language tags: two small letters, and a region of two capital letters if
there is one. -/
def languageTag : SimpleType :=
  ⟨.string, { patterns := ["[a-z]\x7b2\x7d(-[A-Z]\x7b2\x7d)?"] }⟩

/-- The builtin type with the given name, primitive or derived. -/
def builtin? (name : String) : Option SimpleType :=
  match Kind.ofName? name with
  | some kind => some ⟨kind, .none⟩
  | none =>
    match name with
    | "long" => some (wholeNumbers (some Number.least) (some Number.greatest))
    | "int" => some (wholeNumbers (some (-2147483648)) (some 2147483647))
    | "short" => some (wholeNumbers (some (-32768)) (some 32767))
    | "byte" => some (wholeNumbers (some (-128)) (some 127))
    | "unsignedLong" => some (wholeNumbers (some 0) (some Number.greatest))
    | "unsignedInt" => some (wholeNumbers (some 0) (some 4294967295))
    | "unsignedShort" => some (wholeNumbers (some 0) (some 65535))
    | "unsignedByte" => some (wholeNumbers (some 0) (some 255))
    | "nonNegativeInteger" => some (wholeNumbers (some 0) none)
    | "positiveInteger" => some (wholeNumbers (some 1) none)
    | "nonPositiveInteger" => some (wholeNumbers none (some 0))
    | "negativeInteger" => some (wholeNumbers none (some (-1)))
    | "normalizedString" => some text
    | "token" => some text
    | "Name" => some text
    | "NCName" => some text
    | "ID" => some text
    | "IDREF" => some text
    | "NMTOKEN" => some text
    | "language" => some languageTag
    | _ => none

end SimpleType

end Specimen
