/-
Documents as trees of elements, apart from any written form.
-/

namespace Specimen

/-- An element of a document: its attributes in order, and its text or its
children. -/
structure Node where
  name : String
  attributes : List (String × String) := []
  text : Option String := none
  children : List Node := []

namespace Node

/-- The value of the first attribute with a name. -/
def attribute? (n : Node) (name : String) : Option String :=
  (n.attributes.find? fun a => a.1 == name).map (·.2)

def childrenNamed (n : Node) (name : String) : List Node :=
  n.children.filter (·.name == name)

def child? (n : Node) (name : String) : Option Node :=
  n.children.find? (·.name == name)

end Node

end Specimen
