/-
Reading regular expressions: literals, classes, groups with and without numbers
and names, inline flags, repetitions, and conditions on places. The reader keeps
the open groups on a stack and takes one construct at a time.
-/
import Specimen.Number.Decimal
import Specimen.Regex.ClassReader
import Specimen.Regex.Pattern

namespace Specimen.Regex

namespace Reader

/-- What surrounds an open group: the flags to return to, and the branches and
items before it, latest first. An item without a pattern is a change of flags.
-/
structure Frame where
  flags : Flags
  capture : Option Capture
  branches : List Pattern
  items : List (Option Pattern)

/-- How far an expression has been read. -/
structure State where
  flags : Flags
  branches : List Pattern := []
  items : List (Option Pattern) := []
  stack : List Frame := []
  nextIndex : Nat := 1
  names : List String := []

namespace State

def push (s : State) (p : Pattern) : State :=
  { s with items := some p :: s.items }

def branch (s : State) : Pattern := .ofItems (s.items.reverse.filterMap id)

def content (s : State) : Pattern :=
  .ofBranches (s.branch :: s.branches).reverse

def nextBranch (s : State) : State :=
  { s with branches := s.branch :: s.branches, items := [] }

/-- Open a group with flags of its own. -/
def enter (s : State) (capture : Option Capture) (inner : Flags) : State :=
  { s with
    flags := inner
    branches := []
    items := []
    stack := ⟨s.flags, capture, s.branches, s.items⟩ :: s.stack }

/-- Close the innermost group. -/
def leave? (s : State) : Option State :=
  match s.stack with
  | [] => none
  | frame :: stack =>
    some { s with
      flags := frame.flags
      branches := frame.branches
      items := some (.group frame.capture s.content) :: frame.items
      stack }

/-- Repeat the last item. There has to be one, and a change of flags is none. -/
def repeatLast? (s : State) (least : Nat) (most : Option Nat) (greedy : Bool) :
    Option State :=
  match s.items with
  | some p :: items =>
    some { s with
      items := some
        (.repeated least most (greedy != s.flags.swapGreed) p) :: items }
  | _ => none

end State

/-- One or more letters of flags, each at most once; behind a hyphen they are
switched off. -/
def readFlags (flags : Flags) (seen : List Char) (on : Bool) :
    List Char → Option (Flags × Bool × List Char)
  | [] => none
  | ')' :: rest =>
    if seen.head? = some '-' then none else some (flags, true, rest)
  | ':' :: rest =>
    if seen.head? = some '-' then none else some (flags, false, rest)
  | c :: rest =>
    if seen.contains c then none
    else
      match c with
      | '-' => readFlags flags (c :: seen) false rest
      | 'i' => readFlags { flags with caseless := on } (c :: seen) on rest
      | 'm' => readFlags { flags with multiLine := on } (c :: seen) on rest
      | 's' => readFlags { flags with dotAll := on } (c :: seen) on rest
      | 'U' => readFlags { flags with swapGreed := on } (c :: seen) on rest
      | 'u' => readFlags { flags with unicode := on } (c :: seen) on rest
      | 'R' => readFlags { flags with
        carriageReturns := on } (c :: seen) on rest
      | 'x' => readFlags { flags with spaced := on } (c :: seen) on rest
      | _ => none

def isNameStart (c : Char) : Bool :=
  c == '_' || (CharSet.words.contains c && !CharSet.digits.contains c)

def isNameChar (c : Char) : Bool :=
  CharSet.words.contains c || c == '.' || c == '[' || c == ']'

def readName (s : List Char) : Option (String × List Char) := do
  let (name, rest) ← Text.cut '>' s
  match name with
  | [] => none
  | c :: more =>
    if isNameStart c && more.all isNameChar then
      return (String.ofList name, rest) else none

def enterNamed (s : State) (text : List Char) : Option (State × List Char) := do
  let (name, rest) ← readName text
  if s.names.contains name then none
  let s := { s with nextIndex := s.nextIndex + 1, names := name :: s.names }
  return (s.enter (some ⟨s.nextIndex - 1, some name⟩) s.flags, rest)

/-- Read what follows an opening parenthesis. Looking around is not supported.
-/
def readGroup (s : State) (text : List Char) : Option (State × List Char) :=
  match s.flags.skipSpace text with
  | '?' :: '=' :: _ => none
  | '?' :: '!' :: _ => none
  | '?' :: '<' :: '=' :: _ => none
  | '?' :: '<' :: '!' :: _ => none
  | '?' :: 'P' :: '<' :: rest => enterNamed s rest
  | '?' :: '<' :: rest => enterNamed s rest
  | '?' :: rest =>
    match readFlags s.flags [] true rest with
    | none => none
    | some (flags, true, behind) =>
      if rest.head? = some ')' then none
      else some ({ s with flags, items := none :: s.items }, behind)
    | some (flags, false, behind) => some (s.enter none flags, behind)
  | rest =>
    some ({ s with
      nextIndex :=
        s.nextIndex + 1 }.enter (some ⟨s.nextIndex, none⟩) s.flags, rest)

/-- Read a count of at most 32 bits, with blanks around it. -/
def readCount (s : List Char) : Option (Nat × List Char) :=
  let s := Text.trimStart s
  let numeral := s.takeWhile Char.isDigit
  if numeral.isEmpty ∨ Decimal.value numeral ≥ 0x100000000 then none
  else some (Decimal.value numeral, Text.trimStart (s.dropWhile Char.isDigit))

def readCounts (s : List Char) : Option (Nat × Option Nat × List Char) := do
  let (least, rest) ← readCount s
  match rest with
  | '\x7d' :: rest => return (least, some least, rest)
  | ',' :: rest =>
    match Text.trimStart rest with
    | '\x7d' :: rest => return (least, none, rest)
    | rest =>
      let (most, rest) ← readCount rest
      match rest with
      | '\x7d' :: rest =>
        if least ≤ most then return (least, some most, rest) else none
      | _ => none
  | _ => none

/-- Take off a question mark: the repetition behind it prefers fewer turns. -/
def readLazy : List Char → Bool × List Char
  | '?' :: rest => (true, rest)
  | s => (false, s)

/-- The pattern of one character, with its case variants where the flags ask for
them. -/
def literal (flags : Flags) (c : Char) : Pattern :=
  if flags.caseless then
    let variants := (CharSet.ofChars [c]).caseless
    let variants := if flags.unicode then variants else variants.inter .ascii
    if variants.size ≤ 1 then .text [c] else .chars variants
  else .text [c]

/-- The pattern of a point. -/
def anyChar? (flags : Flags) : Option Pattern :=
  if !flags.unicode then none
  else if flags.dotAll then some (.chars .all)
  else if flags.carriageReturns then
    some (.chars (CharSet.ofChars ['\n', '\r']).complement)
  else some (.chars (CharSet.ofChars ['\n']).complement)

/-- The edge of a word that a name between braces asks for. -/
def edgeOfName? : String → Option Edge
  | "start" => some .start
  | "end" => some .stop
  | "start-half" => some .startHalf
  | "end-half" => some .stopHalf
  | _ => none

/-- Read the name of an edge behind the mark of a word boundary, if it is one
and no count. -/
def readEdge (flags : Flags) (s : List Char) : Option (Edge × List Char) :=
  match s with
  | '\x7b' :: inside =>
    let inside := flags.skipSpace inside
    match inside.head? with
    | none => none
    | some c =>
      if c.isAlpha || c == '-' then do
        let (name, rest) ← Text.cut '\x7d' inside
        let edge ← edgeOfName? (String.ofList
            (name.filter fun c => !(flags.spaced && Text.isBlank c)))
        return (edge, rest)
      else some (.either, s)
  | _ => some (.either, s)

section Reading

variable [Package]

def readEscape (flags : Flags) (s : List Char) :
    Option (Pattern × List Char) := do
  let (item, rest) ← Escape.read flags s
  match item with
  | .char c => return (literal flags c, rest)
  | .set set => return (.chars set, rest)
  | .place mark =>
    match mark with
    | 'A' => return (.look .textStart, rest)
    | 'z' => return (.look .textEnd, rest)
    | 'B' => return (.look (.word .neither !flags.unicode), rest)
    | '<' => return (.look (.word .start !flags.unicode), rest)
    | '>' => return (.look (.word .stop !flags.unicode), rest)
    | _ =>
      let (edge, rest) ← readEdge flags rest
      return (.look (.word edge !flags.unicode), rest)

/-- Read one construct, which begins with the given character. -/
def step (s : State) (c : Char) (rest : List Char) :
    Option (State × List Char) :=
  let flags := s.flags
  match c with
  | '(' => readGroup s rest
  | ')' => s.leave?.map (·, rest)
  | '|' => some (s.nextBranch, rest)
  | '[' => (ClassReader.read flags rest).map fun (set, rest) =>
    (s.push (.chars set), rest)
  | '?' =>
    let (few, rest) := readLazy rest
    (s.repeatLast? 0 (some 1) !few).map (·, rest)
  | '*' =>
    let (few, rest) := readLazy rest
    (s.repeatLast? 0 none !few).map (·, rest)
  | '+' =>
    let (few, rest) := readLazy rest
    (s.repeatLast? 1 none !few).map (·, rest)
  | '\x7b' => do
    let (least, most, rest) ← readCounts rest
    let (few, rest) := readLazy (flags.skipSpace rest)
    (s.repeatLast? least most !few).map (·, rest)
  | '.' => (anyChar? flags).map fun p => (s.push p, rest)
  | '^' =>
    some (s.push (.look (if flags.multiLine
      then .lineStart flags.carriageReturns else .textStart)), rest)
  | '$' =>
    some (s.push (.look (if flags.multiLine then .lineEnd flags.carriageReturns
      else .textEnd)), rest)
  | '\\' => (readEscape flags rest).map fun (p, rest) => (s.push p, rest)
  | c => some (s.push (literal flags c), rest)

/-- Read on to the end of the text, where no group may be open. At most `fuel`
constructs are taken, each of which reads a character or more. -/
def readOn : Nat → State → List Char → Option Pattern
  | fuel, s, text =>
    match s.flags.skipSpace text with
    | [] => if s.stack.isEmpty then some s.content else none
    | c :: rest =>
      match fuel with
      | 0 => none
      | fuel + 1 =>
        match step s c rest with
        | none => none
        | some (s, rest) => readOn fuel s rest

end Reading

end Reader

namespace Pattern

variable [Package]

/-- The pattern that a text describes, if it is well formed; with `caseless` it
does not distinguish case unless it says so. -/
def parse (caseless : Bool) (text : String) : Option Pattern :=
  Reader.readOn text.toList.length { flags := { caseless } } text.toList

/-- The pattern of a text that nests no deeper than the package allows. -/
def read (caseless : Bool) (text : String) : Option Pattern :=
  if Package.shallow text then parse caseless text else none

/-- The pattern of a text that can be compiled within the limits of the
package. -/
def compile (caseless : Bool) (text : String) : Option Pattern :=
  if Package.small caseless text then read caseless text else none

end Pattern

end Specimen.Regex
