/-
The tokens of a YAML text. Indentation shows as starts and ends of blocks, and a
mark stands before every key. Whether a scalar is a key is known only at the
colon behind it, so each token keeps room for what has to stand before it.
-/
import Specimen.Number.Decimal
import Specimen.Yaml.Scalar

namespace Specimen.Yaml

/-- A token. -/
inductive Token where
  | version (major minor : Nat)
  | tagHandle (handle start : String)
  | documentStart
  | documentEnd
  | sequenceStart
  | mappingStart
  | blockEnd
  | flowSequenceStart
  | flowSequenceEnd
  | flowMappingStart
  | flowMappingEnd
  | entry
  | flowEntry
  | key
  | value
  | alias (name : String)
  | anchor (name : String)
  | tag (handle suffix : String)
  | scalar (plain : Bool) (text : String)
deriving Repr, DecidableEq

/-- A node on one line that a colon may still make a key: where it begins, the
number of its first token, and whether it has to be a key. -/
structure Candidate where
  token : Nat
  index : Nat
  line : Nat
  column : Nat
  required : Bool
deriving Repr, DecidableEq

/-- A text on its way into tokens. Every token has those before it that were
found later. The innermost of the open collections comes first. Outside of all
blocks `indent` is zero, else it is the column behind that of the innermost
block. -/
structure Scan where
  cursor : Cursor
  tokens : Array (List Token × Token) := #[]
  indent : Nat := 0
  outer : List Nat := []
  candidate : Option Candidate := none
  flow : List (Option Candidate) := []
  keyAllowed : Bool := true

namespace Scan

def inFlow (s : Scan) : Bool := !s.flow.isEmpty

def push (s : Scan) (token : Token) : Scan :=
  { s with tokens := s.tokens.push ([], token) }

def goTo (s : Scan) (cursor : Cursor) : Scan := { s with cursor }

/-- Let a simple key begin at the next token, or not. -/
def allow (s : Scan) (keyAllowed : Bool) : Scan := { s with keyAllowed }

/-- Close the blocks that reach further in than `least`. -/
def closeBlocks (least : Nat) : (indent : Nat) → List Nat → Scan → Scan
  | indent, outer, s =>
    if indent ≤ least then { s with indent, outer }
    else
      match outer with
      | next :: rest => closeBlocks least next rest (s.push .blockEnd)
      | [] => { s with indent := 0, outer }

/-- Close the blocks that reach further in than `least`, unless a flow
collection is open. -/
def unroll (s : Scan) (least : Nat) : Scan :=
  if s.inFlow then s else closeBlocks least s.indent s.outer s

/-- The block at a column begins, unless it is open. -/
def opens (s : Scan) (column : Nat) : Bool := !s.inFlow && s.indent < column + 1

/-- Note the block at a column. -/
def indentTo (s : Scan) (column : Nat) : Scan :=
  { s with indent := column + 1, outer := s.indent :: s.outer }

/-- Begin a block at a column, if it does not belong to the innermost one. -/
def roll (s : Scan) (column : Nat) (start : Token) : Scan :=
  if s.opens column then (s.indentTo column).push start else s

/-- Give up the candidate for a key. One that has to be a key must not be given
up. -/
def dropCandidate (s : Scan) : Option Scan :=
  if s.candidate.any Candidate.required then none
  else some { s with candidate := none }

/-- The next token may begin a key. -/
def noteCandidate (s : Scan) : Option Scan := do
  if !s.keyAllowed then return s
  let s' ← s.dropCandidate
  let c := s.cursor
  let required := !s.inFlow && s.indent == c.column + 1
  return { s' with
    candidate := some ⟨s.tokens.size, c.index, c.line, c.column, required⟩ }

/-- A key ends on the line on which it begins and is not longer than 1024
characters. -/
def isStale (s : Scan) (candidate : Candidate) : Bool :=
  candidate.line < s.cursor.line || candidate.index + 1024 < s.cursor.index

/-- Give up the candidates that can be keys no longer. -/
def dropStale (s : Scan) : Option Scan := do
  let check (candidate : Option Candidate) : Option (Option Candidate) :=
    match candidate with
    | some k =>
      if s.isStale k then if k.required then none else some none
      else some (some k)
    | none => some none
  let candidate ← check s.candidate
  let flow ← s.flow.mapM check
  return { s with candidate, flow }

/-- Pass over blanks, comments and empty lines. Tabs do not indent. -/
def passBlanks : (left : Nat) → Scan → Scan
  | 0, s => s
  | left + 1, s =>
    let c := s.cursor
    let c := if c.column = 0 ∧ c.rest.head? = some '\ufeff' then c.skip 1 else c
    let tabs := s.inFlow || !s.keyAllowed
    let c := c.skipWhile fun b => b == ' ' || (tabs && b == '\t')
    let c := if c.rest.head? = some '#' then c.toLineEnd else c
    match c.break? with
    | some (_, next) =>
      passBlanks left { s with
        cursor := next, keyAllowed := s.keyAllowed || !s.inFlow }
    | none => s.goTo c

/-- A mark that ends all blocks. -/
def leaveBlocks (s : Scan) : Option Scan := do
  return (← (s.unroll 0).dropCandidate).allow false

def versionNumber? (c : Cursor) : Option (Nat × Cursor) :=
  let (digits, next) := c.takeWhile Char.isDigit
  if digits.isEmpty ∨ digits.length > 9 then none
  else some (Decimal.value digits, next)

def isTagChar (c : Char) : Bool :=
  isNameChar c || ";/?:@&=+$.!~*'()".toList.contains c

/-- The characters of tags that stand between brackets. -/
def isUriChar (c : Char) : Bool := isTagChar c || [',', '[', ']'].contains c

def directive (s : Scan) : Option Scan := do
  let s ← s.leaveBlocks
  let (name, c) := (s.cursor.skip 1).takeWhile isNameChar
  if !endsWord c.rest then none
  let c := c.skipWhile isBlank
  if name = "YAML".toList then
    let (major, c) ← versionNumber? c
    if c.rest.head? ≠ some '.' then none
    let (minor, c) ← versionNumber? (c.skip 1)
    return (s.push (.version major minor)).goTo (← c.blankTail?)
  else if name = "TAG".toList then
    let (handle, c) := c.takeWhile fun b => isNameChar b || b == '!'
    if handle.head? ≠ some '!' ∨ handle.getLast? ≠ some '!' ∨
        !(c.rest.head?.any isBlank) then none
    let (start, c) := (c.skipWhile isBlank).takeWhile isUriChar
    if start.isEmpty ∨ !endsWord c.rest then none
    return (s.push (.tagHandle (String.ofList handle)
      (String.ofList start))).goTo (← c.blankTail?)
  else none

def openFlow (s : Scan) (start : Token) : Option Scan := do
  let s ← s.noteCandidate
  let s := { s with flow := s.candidate :: s.flow, candidate := none }
  return ((s.allow true).goTo (s.cursor.skip 1)).push start

def closeFlow (s : Scan) (stop : Token) : Option Scan := do
  let s ← s.dropCandidate
  let s := match s.flow with
    | candidate :: flow => { s with flow, candidate }
    | [] => s
  return ((s.allow false).goTo (s.cursor.skip 1)).push stop

def comma (s : Scan) : Option Scan := do
  return (((← s.dropCandidate).allow true).goTo (s.cursor.skip 1)).push
    .flowEntry

def dash (s : Scan) : Option Scan := do
  if !s.inFlow && !s.keyAllowed then none
  let s ← (s.roll s.cursor.column .sequenceStart).dropCandidate
  return ((s.allow true).goTo (s.cursor.skip 1)).push .entry

def question (s : Scan) : Option Scan := do
  if !s.inFlow && !s.keyAllowed then none
  let s ← (s.roll s.cursor.column .mappingStart).dropCandidate
  return ((s.allow (!s.inFlow)).goTo (s.cursor.skip 1)).push .key

/-- The colon before a value. It makes a key of the candidate, if there is one.
-/
def colon (s : Scan) : Option Scan := do
  let next := s.cursor.skip 1
  match s.candidate with
  | some k =>
    let starts := s.opens k.column
    let before := if starts then [.mappingStart, .key] else [.key]
    let tokens :=
      s.tokens.modify k.token fun (found, token) => (before ++ found, token)
    let s := if starts then s.indentTo k.column else s
    return ({ s with
      tokens, candidate := none, keyAllowed := false }.goTo next).push .value
  | none =>
    if !s.inFlow && !s.keyAllowed then none
    let s := s.roll s.cursor.column .mappingStart
    return ((s.allow (!s.inFlow)).goTo next).push .value

def name (s : Scan) (token : String → Token) : Option Scan := do
  let s ← s.noteCandidate
  let (letters, c) := (s.cursor.skip 1).takeWhile isNameChar
  let ends := endsWord c.rest ||
    c.rest.head?.any fun b => "?:,]\x7d%@".toList.contains b || b == '\x60'
  if letters.isEmpty || !ends then none
  return ((s.allow false).goTo c).push (token (String.ofList letters))

def tag (s : Scan) : Option Scan := do
  let s ← s.noteCandidate
  let c := s.cursor
  let (handle, suffix, c) ←
    if (c.rest.drop 1).head? = some '<' then
      let (uri, c) := (c.skip 2).takeWhile isUriChar
      if uri.isEmpty ∨ c.rest.head? ≠ some '>' then none
      else some ([], uri, c.skip 1)
    else
      let (letters, after) := (c.skip 1).takeWhile isNameChar
      if after.rest.head? = some '!' then
        let (suffix, c) := (after.skip 1).takeWhile isTagChar
        if suffix.isEmpty then none
        else some ('!' :: letters ++ ['!'], suffix, c)
      else
        let (suffix, c) := (c.skip 1).takeWhile isTagChar
        some (if suffix.isEmpty then ([], ['!'], c) else (['!'], suffix, c))
  if !(endsWord c.rest || (s.inFlow && c.rest.head? = some ',')) then none
  return ((s.allow false).goTo c).push
    (.tag (String.ofList handle) (String.ofList suffix))

def block (s : Scan) (folded : Bool) : Option Scan := do
  let s ← s.dropCandidate
  let (text, c) ← block? folded s.indent (s.cursor.skip 1)
  return ((s.allow true).goTo c).push (.scalar false (String.ofList text))

def quotedScalar (s : Scan) (double : Bool) : Option Scan := do
  let s ← s.noteCandidate
  let c := s.cursor.skip 1
  let (text, c) ← quoted double (c.rest.length + 1) c []
  return ((s.allow false).goTo c).push (.scalar false (String.ofList text))

/-- A plain scalar. If the gap behind it extends over lines, a key may begin
behind it. -/
def plainScalar (s : Scan) : Option Scan := do
  let s ← s.noteCandidate
  let c := s.cursor
  let (text, broken, c) ← plain s.inFlow s.indent
      (c.rest.length + 1) c Gap.none []
  return ((s.allow broken).goTo c).push (.scalar true (String.ofList text))

/-- The marks that no plain scalar begins with. -/
def isIndicator (c : Char) : Bool :=
  "-?:,[]\x7b\x7d#&*!|>'\"%@".toList.contains c || c == '\x60'

/-- A plain scalar begins with a character that is no mark, or with a mark that
does not stand alone. -/
def beginsPlain (s : Scan) (c : Char) (rest : List Char) : Bool :=
  (!isIndicator c && !endsWord [c]) ||
    (c == '-' && !(rest.head?.any isBlank)) ||
    (!s.inFlow && (c == '?' || c == ':') && !endsWord rest)

def next (s : Scan) (c : Char) (rest : List Char) : Option Scan :=
  let cursor := s.cursor
  let alone := endsWord rest
  if cursor.column = 0 ∧ c = '%' then s.directive
  else if cursor.atMark "---" then do
    return ((← s.leaveBlocks).goTo (cursor.skip 3)).push .documentStart
  else if cursor.atMark "..." then do
    return ((← s.leaveBlocks).goTo (cursor.skip 3)).push .documentEnd
  else if c = '[' then s.openFlow .flowSequenceStart
  else if c = '\x7b' then s.openFlow .flowMappingStart
  else if c = ']' then s.closeFlow .flowSequenceEnd
  else if c = '\x7d' then s.closeFlow .flowMappingEnd
  else if c = ',' then s.comma
  else if c = '-' ∧ alone then s.dash
  else if c = '?' ∧ (s.inFlow ∨ alone) then s.question
  else if c = ':' ∧ (s.inFlow ∨ alone) then s.colon
  else if c = '*' then s.name .alias
  else if c = '&' then s.name .anchor
  else if c = '!' then s.tag
  else if c = '|' ∧ !s.inFlow then s.block false
  else if c = '>' ∧ !s.inFlow then s.block true
  else if c = '\'' then s.quotedScalar false
  else if c = '"' then s.quotedScalar true
  else if s.beginsPlain c rest then s.plainScalar
  else none

def finish (s : Scan) : List Token :=
  s.tokens.toList.flatMap fun (before, token) => before ++ [token]

/-- Read tokens to the end of the text. -/
def run : (left : Nat) → Scan → Option (List Token)
  | 0, _ => none
  | left + 1, s => do
    let s ← (passBlanks (s.cursor.rest.length + 1) s).dropStale
    match s.cursor.rest with
    | [] => return (← s.leaveBlocks).finish
    | c :: rest => run left (← (s.unroll (s.cursor.column + 1)).next c rest)

end Scan

/-- The tokens of a text. -/
def Token.ofText? (text : String) : Option (List Token) :=
  let cs := text.toList
  if cs.all isPrintable then
    Scan.run (cs.length + 1) { cursor := { rest := cs } }
  else none

end Specimen.Yaml
