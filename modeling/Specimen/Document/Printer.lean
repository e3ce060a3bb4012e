/-
Writing documents: an XML 1.1 header, one line for every tag, and a tab for
every level. Attribute values are escaped; text is written as it is.
-/
import Specimen.Document.Node

namespace Specimen

/-- Why a tree cannot be written: an element has children beside its text. -/
inductive PrintError where
  | childBesideText
deriving Repr, DecidableEq

namespace PrintError

def message : PrintError → String
  | childBesideText =>
    "Error encountered during insertion: " ++
      "Cannot insert child inside an element with text"

end PrintError

namespace Printer

def header : String := "<?xml version=\"1.1\" encoding=\"UTF-8\"?>\n"

/-- A character of an attribute value. -/
def escape (c : Char) : List Char :=
  match c with
  | '&' => "&amp;".toList
  | '"' => "&quot;".toList
  | '\'' => "&apos;".toList
  | '<' => "&lt;".toList
  | '>' => "&gt;".toList
  | c => [c]

/-- The attributes of a start tag, each behind a space. -/
def attributes (list : List (String × String)) : List Char :=
  list.flatMap fun (name, value) =>
    ' ' :: name.toList ++ '=' :: '"' :: value.toList.flatMap escape ++ ['"']

def endTag (name : String) : List Char := '<' :: '/' :: name.toList ++ ['>']

mutual

/-- The lines of an element at a level. -/
def element (level : Nat) : Node → Except PrintError (List Char)
  | ⟨name, attrs, text, children⟩ => do
    let indent := List.replicate level '\t'
    let start := indent ++ '<' :: name.toList ++ attributes attrs
    match text, children with
    | some _, _ :: _ => throw .childBesideText
    | some text, [] =>
      return start ++ '>' :: text.toList ++ endTag name ++ ['\n']
    | none, [] => return start ++ [' ', '/', '>', '\n']
    | none, children =>
      let inner ← elements (level + 1) children
      return start ++ ['>', '\n'] ++ inner ++ indent ++ endTag name ++ ['\n']

def elements (level : Nat) : List Node → Except PrintError (List Char)
  | [] => return []
  | n :: rest => do
    let first ← element level n
    return first ++ (← elements level rest)

end

end Printer

/-- The written form of a document. -/
def Node.print (root : Node) : Except PrintError String := do
  return Printer.header ++ String.ofList (← Printer.element 0 root)

end Specimen
