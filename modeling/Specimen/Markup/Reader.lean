/-
Reading marked-up text: the tree below the first element. The tags have to nest,
and only blanks may stand before the first one. What follows the end of the
first element is not looked at.
-/
import Specimen.Markup.Token
import Specimen.Markup.Tree

namespace Specimen.Markup

/-- The labels that are bound to namespaces, the innermost binding first. -/
abbrev Bindings := List (String × String)

namespace Bindings

/-- The binding that always holds. -/
def initial : Bindings := [("xml", "http://www.w3.org/XML/1998/namespace")]

/-- The bindings behind the attributes of a start tag. -/
def extend (b : Bindings)
    (attributes : List (List Char × List Char)) : Bindings :=
  attributes.foldl (fun b (name, value) =>
    match Text.after "xmlns:" name with
    | some label => (String.ofList label, String.ofList value) :: b
    | none => b) b

/-- The namespace and the local part of a name. -/
def resolve (b : Bindings) (name : List Char) : Space × String :=
  match Text.cut ':' name with
  | none => (.unlabelled, String.ofList name)
  | some (label, part) =>
    match b.lookup (String.ofList label) with
    | some uri =>
      (if uri = "" then .unbound else .bound uri, String.ofList part)
    | none => (.unbound, String.ofList part)

end Bindings

/-- The attributes of a start tag that bind no label, by their local names. -/
def plainAttributes (attributes : List (List Char × List Char)) :
    List Attribute :=
  attributes.filterMap fun (name, value) =>
    if name = "xmlns".toList ∨ (Text.after "xmlns:" name).isSome then none
    else
      let localName := match Text.cut ':' name with
        | some (_, part) => part
        | none => name
      some ⟨String.ofList localName, String.ofList value⟩

/-- An open element: its start tag, the bindings inside it, and its content so
far, last first. -/
structure Open where
  name : List Char
  attributes : List (List Char × List Char)
  bindings : Bindings
  items : List Item

namespace Open

def ofTag (outer : Bindings) (name : List Char)
    (attributes : List (List Char × List Char)) : Open :=
  ⟨name, attributes, outer.extend attributes, []⟩

def close (o : Open) : Element :=
  let (space, localName) := o.bindings.resolve o.name
  .mk space localName (plainAttributes o.attributes) o.items.reverse

def push (o : Open) (item : Item) : Open := { o with items := item :: o.items }

end Open

/-- What has been read: the open elements, innermost first, or the finished
tree. -/
inductive Progress where
  | inside (innermost : Open) (outer : List Open)
  | before
  | finished (root : Element)

namespace Progress

def close (innermost : Open) : List Open → Progress
  | [] => .finished innermost.close
  | parent :: outer => .inside (parent.push (.element innermost.close)) outer

def take (p : Progress) (token : Token) : Option Progress :=
  match p, token with
  | .finished root, _ => some (.finished root)
  | .before, .text s => if s.all Token.isSpace then some .before else none
  | .before, .startTag name attributes closed =>
    let element := Open.ofTag .initial name attributes
    some (if closed then close element [] else .inside element [])
  | .before, _ => none
  | .inside innermost outer, .startTag name attributes closed =>
    let element := Open.ofTag innermost.bindings name attributes
    some (if closed then close element (innermost :: outer)
      else .inside element (innermost :: outer))
  | .inside innermost outer, .endTag name =>
    if name = innermost.name then some (close innermost outer) else none
  | .inside innermost outer, .text s =>
    some (.inside (innermost.push (.text s)) outer)
  | .inside innermost outer, .verbatim s =>
    some (.inside (innermost.push (.verbatim s)) outer)

end Progress

/-- Read pieces until the first element is finished. Each takes a character or
more, and at most `fuel` are read. -/
def readFrom : Nat → Progress → List Char → Option Element
  | _, .finished root, _ => some root
  | 0, _, _ => none
  | fuel + 1, p, s =>
    match Token.read s with
    | none => none
    | some (none, rest) => readFrom fuel p rest
    | some (some token, rest) =>
      match p.take token with
      | none => none
      | some p => readFrom fuel p rest

/-- The tree of a text. A byte order mark may come first. -/
def read (text : String) : Option Element :=
  let s := match text.toList with
    | '\uFEFF' :: rest => rest
    | s => s
  readFrom (s.length + 1) .before s

end Specimen.Markup
