/-
The bracketed character classes of regular expressions: ranges, escapes, named
ASCII classes, nested classes, and the set operations between them.
-/
import Specimen.Regex.Package
import Specimen.Text.Blank
import Specimen.Text.CodePoint

namespace Specimen.Regex

/-- How the text of an expression is to be understood from some point on. -/
structure Flags where
  caseless : Bool := false
  multiLine : Bool := false
  dotAll : Bool := false
  swapGreed : Bool := false
  unicode : Bool := true
  carriageReturns : Bool := false
  spaced : Bool := false
deriving Repr, DecidableEq

namespace Flags

/-- The text without the blanks and comments at its start, where the flags let
them stand. -/
def skipSpace (flags : Flags) (s : List Char) : List Char :=
  if flags.spaced then go false s else s
where
  /-- Skip blanks, and comments up to the end of their line. -/
  go : Bool → List Char → List Char
    | _, [] => []
    | true, c :: rest => go (c != '\n') rest
    | false, c :: rest =>
      if Text.isBlank c then go false rest
      else if c = '#' then go true rest
      else c :: rest

/-- The set with the case variants of its members, where the flags ask for
them. -/
def foldCase (flags : Flags) (s : CharSet) : CharSet :=
  if flags.caseless then s.caseless else s

end Flags

section Reading

variable [Package]

namespace Escape

/-- What may follow a backslash. Conditions on places have a meaning outside
classes only. -/
inductive Item where
  | char (c : Char)
  | set (s : CharSet)
  | place (mark : Char)
deriving Repr, DecidableEq

/-- Characters with a meaning of their own, which a backslash takes away. -/
def isMark (c : Char) : Bool := "\\.+*?()|[]\x7b\x7d^$#&-~".toList.contains c

/-- A character that a backslash may precede without a meaning. -/
def isPlain (c : Char) : Bool :=
  isMark c || (c.toNat < 0x80 && !c.isAlphanum && c != '<' && c != '>')

/-- The set of a one-letter class; capital letters stand for the complement.
Without Unicode the sets are those of ASCII, and their complements are refused.
-/
def classOf? (flags : Flags) (c : Char) : Option CharSet :=
  if flags.unicode then
    match c with
    | 'd' => some CharSet.digits
    | 'D' => some CharSet.digits.complement
    | 's' => some CharSet.blanks
    | 'S' => some CharSet.blanks.complement
    | 'w' => some CharSet.words
    | 'W' => some CharSet.words.complement
    | _ => none
  else
    match c with
    | 'd' => some (CharSet.digits.inter .ascii)
    | 's' => some (CharSet.blanks.inter .ascii)
    | 'w' => some (CharSet.words.inter .ascii)
    | _ => none

def propertyOf? (name : List Char) : Option CharSet :=
  (Package.property (String.ofList name)).map .ofRanges

/-- A sign of inequality in the name of a property asks for the complement of
what an equals sign asks for. -/
def unequal (name : List Char) : Bool × List Char :=
  match Text.cut '!' name with
  | some (key, '=' :: value) => (true, key ++ '=' :: value)
  | _ => (false, name)

/-- The name of a property, one letter or a text between braces, and what stands
behind it. -/
def propertyName (flags : Flags) :
    List Char → Option (List Char × List Char)
  | '\x7b' :: inside => Text.cut '\x7d' inside
  | c :: rest =>
    if c.isAlpha then some ([c], flags.skipSpace rest) else none
  | [] => none

/-- The set that the name of a property asks for, case variants before the
complement.  Without Unicode there are no properties. -/
def propertyItem? (flags : Flags) (negated : Bool) (name : List Char) :
    Option Item :=
  let (other, name) := unequal
    (name.filter fun c => !(flags.spaced && Text.isBlank c))
  if !flags.unicode then none
  else (propertyOf? name).map fun set =>
    let set := flags.foldCase set
    .set (if negated != other then set.complement else set)

def readProperty (flags : Flags) (negated : Bool) (s : List Char) :
    Option (Item × List Char) :=
  (propertyName flags (flags.skipSpace s)).bind fun found =>
    (propertyItem? flags negated found.1).map (·, found.2)

/-- Read a code point in hexadecimal: between braces, or with a fixed number of
digits. -/
def readHex (flags : Flags) (size : Nat) (s : List Char) :
    Option (Item × List Char) := do
  match flags.skipSpace s with
  | '{' :: inside =>
    let (digits, rest) ← Text.cut '}' inside
    let c ← Text.charOfHex?
        (digits.filter fun c => !(flags.spaced && Text.isBlank c))
    return (.char c, flags.skipSpace rest)
  | s =>
    let digits := s.take size
    if digits.length < size then none
    let c ← Text.charOfHex? digits
    return (.char c, flags.skipSpace (s.drop size))

/-- Read what follows a backslash. -/
def read (flags : Flags) : List Char → Option (Item × List Char)
  | [] => none
  | c :: rest =>
    match classOf? flags c with
    | some set => some (.set set, rest)
    | none =>
      if isPlain c then some (.char c, rest)
      else
        match c with
        | 'a' => some (.char '\x07', rest)
        | 'f' => some (.char '\x0c', rest)
        | 't' => some (.char '\t', rest)
        | 'n' => some (.char '\n', rest)
        | 'r' => some (.char '\r', rest)
        | 'v' => some (.char '\x0b', rest)
        | 'x' => readHex flags 2 rest
        | 'u' => readHex flags 4 rest
        | 'U' => readHex flags 8 rest
        | 'p' => readProperty flags false rest
        | 'P' => readProperty flags true rest
        | 'A' => some (.place 'A', rest)
        | 'z' => some (.place 'z', rest)
        | 'b' => some (.place 'b', rest)
        | 'B' => some (.place 'B', rest)
        | '<' => some (.place '<', rest)
        | '>' => some (.place '>', rest)
        | _ => none

end Escape

namespace ClassReader

inductive Operation where
  | inter
  | diff
  | symmDiff
deriving Repr, DecidableEq

/-- What is open: a class with the items before it in its parent, or an
operation with its left side. -/
inductive Frame where
  | opened (parent : CharSet) (negated : Bool)
  | operand (operation : Operation) (left : CharSet)
deriving Repr, DecidableEq

/-- The ASCII classes that can be asked for by name. -/
def asciiClass? (name : String) : Option CharSet :=
  match name with
  | "alnum" => some (.ofRanges [(0x30, 0x39), (0x41, 0x5A), (0x61, 0x7A)])
  | "alpha" => some (.ofRanges [(0x41, 0x5A), (0x61, 0x7A)])
  | "ascii" => some .ascii
  | "blank" => some (.ofRanges [(0x9, 0x9), (0x20, 0x20)])
  | "cntrl" => some (.ofRanges [(0, 0x1F), (0x7F, 0x7F)])
  | "digit" => some (.ofRanges [(0x30, 0x39)])
  | "graph" => some (.ofRanges [(0x21, 0x7E)])
  | "lower" => some (.ofRanges [(0x61, 0x7A)])
  | "print" => some (.ofRanges [(0x20, 0x7E)])
  | "punct" =>
    some (.ofRanges [(0x21, 0x2F), (0x3A, 0x40), (0x5B, 0x60), (0x7B, 0x7E)])
  | "space" => some (.ofRanges [(0x9, 0xD), (0x20, 0x20)])
  | "upper" => some (.ofRanges [(0x41, 0x5A)])
  | "word" => some
    (.ofRanges [(0x30, 0x39), (0x41, 0x5A), (0x5F, 0x5F), (0x61, 0x7A)])
  | "xdigit" => some (.ofRanges [(0x30, 0x39), (0x41, 0x46), (0x61, 0x66)])
  | _ => none

/-- Read a named ASCII class behind its opening bracket. -/
def readNamed? (flags : Flags) : List Char → Option (CharSet × List Char)
  | ':' :: rest => do
    let (negated, rest) := match rest with
      | '^' :: behind => (true, behind)
      | _ => (false, rest)
    let (name, behind) ← Text.cut ':' rest
    let set ← asciiClass? (String.ofList name)
    match behind with
    | ']' :: behind =>
      return (if negated then (flags.foldCase set).complement else set, behind)
    | _ => none
  | _ => none

/-- The set of a finished class. Without Unicode a class has to stay within
ASCII, which none does that is negated. -/
def close? (flags : Flags) (negated : Bool) (s : CharSet) : Option CharSet :=
  let folded := flags.foldCase s
  if flags.unicode then some (if negated then folded.complement else folded)
  else if negated || !(s.diff .ascii).ranges.isEmpty then none
  else some (folded.inter .ascii)

/-- Apply the operation that waits for its right side, if one does. -/
def applyOperation (flags : Flags) (right : CharSet) :
    List Frame → CharSet × List Frame
  | .operand operation left :: stack =>
    let left := flags.foldCase left
    let right := flags.foldCase right
    match operation with
    | .inter => (left.inter right, stack)
    | .diff => (left.diff right, stack)
    | .symmDiff => (left.symmDiff right, stack)
  | stack => (right, stack)

/-- Hyphens at the start of a class stand for themselves. -/
def leadingHyphens (flags : Flags) : Nat → Bool → List Char → Bool × List Char
  | 0, found, s => (found, s)
  | fuel + 1, found, s =>
    match s with
    | '-' :: rest => leadingHyphens flags fuel true (flags.skipSpace rest)
    | _ => (found, s)

/-- Read the start of a class behind its bracket: the negation, hyphens, and a
closing bracket that stands for itself. -/
def readStart (flags : Flags) (s : List Char) : Bool × CharSet × List Char :=
  let s := flags.skipSpace s
  let (negated, s) := match s with
    | '^' :: rest => (true, flags.skipSpace rest)
    | _ => (false, s)
  let (hyphens, s) := leadingHyphens flags s.length false s
  if hyphens then (negated, .ofChars ['-'], s)
  else
    match s with
    | ']' :: rest => (negated, .ofChars [']'], flags.skipSpace rest)
    | _ => (negated, .empty, s)

/-- Read one item: an escape or a character. -/
def readItem (flags : Flags) : List Char → Option (Escape.Item × List Char)
  | '\\' :: rest => Escape.read flags rest
  | c :: rest => some (.char c, rest)
  | [] => none

/-- A hyphen at the start of the text stands between the ends of a range. -/
def startsRange (flags : Flags) : List Char → Bool
  | '-' :: rest =>
    match flags.skipSpace rest with
    | ']' :: _ => false
    | '-' :: _ => false
    | _ => true
  | _ => false

def readRange (flags : Flags) (s : List Char) :
    Option (CharSet × List Char) := do
  let (first, rest) ← readItem flags s
  let rest := flags.skipSpace rest
  if rest.isEmpty then none
  if startsRange flags rest then
    let (second, rest) ← readItem flags (flags.skipSpace (rest.drop 1))
    match first, second with
    | .char low, .char high =>
      if low ≤ high then some (.range low high, rest) else none
    | _, _ => none
  else
    match first with
    | .char c => return (.ofChars [c], rest)
    | .set set => return (set, rest)
    | .place _ => none

/-- Read on in a class. `items` is what the innermost class holds so far; at
most `fuel` steps are taken, each of which reads a character or more. -/
def readOn (flags : Flags) :
    Nat → List Frame → CharSet → List Char → Option (CharSet × List Char)
  | 0, _, _, _ => none
  | fuel + 1, stack, items, s =>
    match flags.skipSpace s with
    | [] => none
    | '[' :: rest =>
      match readNamed? flags rest with
      | some (set, rest) => readOn flags fuel stack (items.union set) rest
      | none =>
        let (negated, start, rest) := readStart flags rest
        readOn flags fuel (.opened items negated :: stack) start rest
    | ']' :: rest =>
      let (set, stack) := applyOperation flags items stack
      match stack with
      | .opened parent negated :: stack => do
        let closed ← close? flags negated set
        if stack.isEmpty then some (closed, rest)
        else readOn flags fuel stack (parent.union closed) rest
      | _ => none
    | '&' :: '&' :: rest =>
      let (left, stack) := applyOperation flags items stack
      readOn flags fuel (.operand .inter left :: stack) .empty rest
    | '-' :: '-' :: rest =>
      let (left, stack) := applyOperation flags items stack
      readOn flags fuel (.operand .diff left :: stack) .empty rest
    | '~' :: '~' :: rest =>
      let (left, stack) := applyOperation flags items stack
      readOn flags fuel (.operand .symmDiff left :: stack) .empty rest
    | s => do
      let (set, rest) ← readRange flags s
      readOn flags fuel stack (items.union set) rest

/-- Read a class behind its opening bracket; gives its set and the text behind
the closing one. -/
def read (flags : Flags) (s : List Char) : Option (CharSet × List Char) :=
  let (negated, start, rest) := readStart flags s
  readOn flags (s.length + 1) [.opened .empty negated] start rest

end ClassReader

end Reading

end Specimen.Regex
