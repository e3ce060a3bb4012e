/-
A place in a YAML text: what is left of it, and the line and column that have
been reached. All ways to end a line read as one line feed, but for the two
Unicode separators, which stay what they are.
-/

namespace Specimen.Yaml

/-- The characters that a text may consist of. -/
def isPrintable (c : Char) : Bool :=
  let n := c.toNat
  n = 0x9 || n = 0xA || n = 0xD || (0x20 ≤ n && n ≤ 0x7E) || n = 0x85 ||
    (0xA0 ≤ n && n ≤ 0xD7FF) || (0xE000 ≤ n && n ≤ 0xFFFD) || 0x10000 ≤ n

/-- A space or a tab. -/
def isBlank (c : Char) : Bool := c == ' ' || c == '\t'

def isBreak (c : Char) : Bool :=
  c == '\n' || c == '\r' || c == '\u0085' || c == '\u2028' || c == '\u2029'

/-- The text ends here, or a blank or the end of a line follows. -/
def endsWord : List Char → Bool
  | [] => true
  | c :: _ => isBlank c || isBreak c

def isNameChar (c : Char) : Bool := c.isAlphanum || c == '_' || c == '-'

/-- A place in a text. -/
structure Cursor where
  rest : List Char
  index : Nat := 0
  line : Nat := 0
  column : Nat := 0
deriving Repr, DecidableEq

namespace Cursor

/-- The place behind the next `n` characters, none of which ends a line. -/
def skip (c : Cursor) (n : Nat) : Cursor :=
  { c with rest := c.rest.drop n, index := c.index + n, column := c.column + n }

/-- The place at the start of the next line, `n` characters further. -/
def skipLine (c : Cursor) (n : Nat) : Cursor :=
  { rest := c.rest.drop n, index := c.index + n,
    line := c.line + 1, column := 0 }

/-- The end of a line, if it stands here: the character it reads as and the
start of the next line. -/
def break? (c : Cursor) : Option (Char × Cursor) :=
  match c.rest with
  | '\r' :: '\n' :: _ => some ('\n', c.skipLine 2)
  | b :: _ =>
    if b == '\u2028' || b == '\u2029' then some (b, c.skipLine 1)
    else if isBreak b then some ('\n', c.skipLine 1)
    else none
  | [] => none

/-- The place behind the characters that pass a test, and those characters. -/
def takeWhile (c : Cursor) (test : Char → Bool) : List Char × Cursor :=
  let taken := c.rest.takeWhile test
  (taken, c.skip taken.length)

def skipWhile (c : Cursor) (test : Char → Bool) : Cursor := (c.takeWhile test).2

def toLineEnd (c : Cursor) : Cursor := c.skipWhile fun b => !isBreak b

/-- Behind blanks and a comment the line has to end. The place at that end. -/
def blankTail? (c : Cursor) : Option Cursor :=
  let c := c.skipWhile isBlank
  let c := if c.rest.head? = some '#' then c.toLineEnd else c
  match c.rest with
  | [] => some c
  | b :: _ => if isBreak b then some c else none

/-- A mark between documents stands at the start of the line. -/
def atMark (c : Cursor) (mark : String) : Bool :=
  c.column = 0 && mark.toList.isPrefixOf c.rest &&
    endsWord (c.rest.drop mark.length)

def atDocumentMark (c : Cursor) : Bool := c.atMark "---" || c.atMark "..."

end Cursor

end Specimen.Yaml
