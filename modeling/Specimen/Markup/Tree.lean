/-
Trees of marked-up text: elements with their names in namespaces, attributes
with their values, and text between the tags. Comments, processing instructions
and document types are left out.
-/

namespace Specimen.Markup

/-- The namespace of a name: none is asked for, or the one that its label is
bound to, if it is. -/
inductive Space where
  | unlabelled
  | bound (uri : String)
  | unbound
deriving Repr, DecidableEq

/-- An attribute of a start tag, by the part of its name behind the label. -/
structure Attribute where
  localName : String
  value : String
deriving Repr, DecidableEq

mutual

/-- An element and what stands between its tags. -/
inductive Element where
  | mk (space : Space) (localName : String) (attributes : List Attribute)
    (items : List Item)

inductive Item where
  | element (e : Element)
  | text (s : List Char)
  | verbatim (s : List Char)

end

namespace Element

/-- The namespace of the name. -/
def space : Element → Space
  | mk space _ _ _ => space

/-- The name without its label. -/
def localName : Element → String
  | mk _ localName _ _ => localName

def attributes : Element → List Attribute
  | mk _ _ attributes _ => attributes

def items : Element → List Item
  | mk _ _ _ items => items

/-- The value of the first attribute with a name. -/
def attribute? (e : Element) (name : String) : Option String :=
  (e.attributes.find? (·.localName == name)).map Attribute.value

end Element

end Specimen.Markup
