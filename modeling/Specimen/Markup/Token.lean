/-
The pieces of marked-up text: start tags with their attributes, end tags, text,
and verbatim text. Comments, processing instructions and document types are
recognised and dropped. Every piece is read from the front of the text and
leaves a shorter rest.
-/
import Specimen.Number.Decimal
import Specimen.Text.Blank
import Specimen.Text.CodePoint

namespace Specimen.Markup

/-- A piece of marked-up text. Names are as written. -/
inductive Token where
  | startTag (name : List Char) (attributes : List (List Char × List Char))
    (closed : Bool)
  | endTag (name : List Char)
  | text (s : List Char)
  | verbatim (s : List Char)
deriving Repr, DecidableEq

namespace Token

/-- The blanks of markup. -/
def isSpace (c : Char) : Bool := c == ' ' || c == '\t' || c == '\n' || c == '\r'

/-- The text before a mark and the text behind it. -/
def cutAt (mark : List Char) : List Char → Option (List Char × List Char)
  | [] => none
  | c :: rest =>
    if mark.isPrefixOf (c :: rest) then some ([], (c :: rest).drop mark.length)
    else (cutAt mark rest).map fun (before, behind) => (c :: before, behind)

/-- The inside of a tag up to the bracket that closes it, which does not stand
between quotes. -/
def tagInside : Option Char → List Char → Option (List Char × List Char)
  | _, [] => none
  | quote, c :: rest =>
    if quote = none ∧ c = '>' then some ([], rest)
    else
      let quote := match quote with
        | none => if c = '"' ∨ c = '\'' then some c else none
        | some q => if c = q then none else some q
      (tagInside quote rest).map fun (inside, behind) => (c :: inside, behind)

/-- The text behind a document type, whose brackets may hold others. -/
def behindDoctype : (depth : Nat) → List Char → Option (List Char)
  | _, [] => none
  | depth, c :: rest =>
    if c = '<' then behindDoctype (depth + 1) rest
    else if c = '>' then
      match depth with
      | 0 => some rest
      | depth + 1 => behindDoctype depth rest
    else behindDoctype depth rest

/-- The character that a reference between ampersand and semicolon stands for.
-/
def referenced? (name : List Char) : Option Char :=
  match name with
  | ['l', 't'] => some '<'
  | ['g', 't'] => some '>'
  | ['a', 'm', 'p'] => some '&'
  | ['a', 'p', 'o', 's'] => some '\''
  | ['q', 'u', 'o', 't'] => some '"'
  | '#' :: 'x' :: digits => (Text.charOfHex? digits).filter (· ≠ '\x00')
  | '#' :: digits =>
    if Decimal.isNumeral digits then
      (Text.charOfCode? (Decimal.value digits)).filter (· ≠ '\x00')
    else none
  | _ => none

/-- Replace the references in a value. `name` holds the letters of an open
reference, last first. -/
def decode : (name : Option (List Char)) → List Char → Option (List Char)
  | none, [] => some []
  | some _, [] => none
  | none, c :: rest =>
    if c = '&' then decode (some []) rest else (decode none rest).map (c :: ·)
  | some name, c :: rest =>
    if c = ';' then do
      let replaced ← referenced? name.reverse
      let tail ← decode none rest
      return replaced :: tail
    else decode (some (c :: name)) rest

/-- Read one attribute: a name, an equals sign and a value between quotes. -/
def readAttribute (s : List Char) :
    Option ((List Char × List Char) × List Char) := do
  let isNameChar := fun c => !(isSpace c || c == '=')
  let name := s.takeWhile isNameChar
  if name.isEmpty then none
  match (s.dropWhile isNameChar).dropWhile isSpace with
  | '=' :: rest =>
    match rest.dropWhile isSpace with
    | quote :: rest =>
      if quote ≠ '"' ∧ quote ≠ '\'' then none
      let (value, behind) ← Text.cut quote rest
      return ((name, ← decode none value), behind)
    | [] => none
  | _ => none

/-- Read the attributes of a start tag; no name may come twice. Each takes a
character or more, and at most `fuel` are read. -/
def readAttributes :
    Nat → List (List Char) → List Char → Option (List (List Char × List Char))
  | fuel, seen, s =>
    match s.dropWhile isSpace with
    | [] => some []
    | s =>
      match fuel with
      | 0 => none
      | fuel + 1 => do
        let (first, behind) ← readAttribute s
        if seen.contains first.1 then none
        let others ← readAttributes fuel (first.1 :: seen) behind
        return first :: others

def readStartTag (inside : List Char) : Option Token := do
  let (inside, closed) :=
    if inside.getLast? = some '/' then (inside.dropLast, true)
    else (inside, false)
  let name := inside.takeWhile fun c => !isSpace c
  let attributes ← readAttributes inside.length [] (inside.drop name.length)
  return .startTag name attributes closed

/-- Read what stands between an opening angle bracket and the end of the piece;
nothing is left of a piece that is dropped. -/
def readMarkup (s : List Char) : Option (Option Token × List Char) := do
  match s with
  | '!' :: '-' :: '-' :: rest =>
    let (_, behind) ← cutAt ['-', '-', '>'] rest
    return (none, behind)
  | '!' :: '[' :: 'C' :: 'D' :: 'A' :: 'T' :: 'A' :: '[' :: rest =>
    let (inside, behind) ← cutAt [']', ']', '>'] rest
    return (some (.verbatim inside), behind)
  | '!' :: rest =>
    if ((rest.take 7).map Char.toUpper) = "DOCTYPE".toList then
      return (none, ← behindDoctype 0 (rest.drop 7))
    else none
  | '?' :: rest =>
    let (_, behind) ← cutAt ['?', '>'] rest
    return (none, behind)
  | '/' :: rest =>
    let (inside, behind) ← Text.cut '>' rest
    return (some (.endTag (inside.reverse.dropWhile isSpace).reverse), behind)
  | s =>
    let (inside, behind) ← tagInside none s
    return (some (← readStartTag inside), behind)

/-- Read the first piece of a text that is not empty. -/
def read : List Char → Option (Option Token × List Char)
  | [] => none
  | '<' :: rest => readMarkup rest
  | s => some (some (.text (s.takeWhile (· != '<'))), s.dropWhile (· != '<'))

end Token

end Specimen.Markup
