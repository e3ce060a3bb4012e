/-
The texts of scalars: plain ones, those between quotes, and blocks of lines. In
the first two a line that ends in the text reads as a space, and only further
empty lines are kept.
-/
import Specimen.Text.CodePoint
import Specimen.Yaml.Cursor

namespace Specimen.Yaml

/-- What separates two words: blanks of one line, or a first end of line and
those that follow it. -/
inductive Gap where
  | blanks (s : List Char)
  | broken (first more : List Char)
deriving Repr, DecidableEq

namespace Gap

def none : Gap := .blanks []

def isBroken : Gap → Bool
  | blanks _ => false
  | broken _ _ => true

/-- One more blank. Those at the start of a line do not count. -/
def addBlank (c : Char) : Gap → Gap
  | blanks s => blanks (s ++ [c])
  | broken first more => broken first more

/-- One more end of line. Blanks before the first do not count. -/
def addBreak (c : Char) : Gap → Gap
  | blanks _ => broken [c] []
  | broken first more => broken first (more ++ [c])

/-- What the gap reads as. -/
def text : Gap → List Char
  | blanks s => s
  | broken ['\n'] [] => [' ']
  | broken ['\n'] more => more
  | broken first more => first ++ more

end Gap

/-- Pass over blanks and ends of lines. A tab must not stand where a line has to
be indented. -/
def passGap (indent : Nat) : (left : Nat) → Cursor → Gap → Option (Gap × Cursor)
  | 0, c, gap => some (gap, c)
  | left + 1, c, gap =>
    match c.break? with
    | some (b, next) => passGap indent left next (gap.addBreak b)
    | none =>
      match c.rest with
      | b :: _ =>
        if isBlank b then
          if b == '\t' && gap.isBroken && c.column < indent then none
          else passGap indent left (c.skip 1) (gap.addBlank b)
        else some (gap, c)
      | [] => some (gap, c)

/-- What a letter behind a backslash stands for. -/
def escaped? : Char → Option Char
  | '0' => some '\x00'
  | 'a' => some '\x07'
  | 'b' => some '\x08'
  | 't' => some '\t'
  | '\t' => some '\t'
  | 'n' => some '\n'
  | 'v' => some '\x0b'
  | 'f' => some '\x0c'
  | 'r' => some '\r'
  | 'e' => some '\x1b'
  | ' ' => some ' '
  | '"' => some '"'
  | '/' => some '/'
  | '\\' => some '\\'
  | 'N' => some '\u0085'
  | '_' => some '\u00a0'
  | 'L' => some '\u2028'
  | 'P' => some '\u2029'
  | _ => none

/-- How many hexadecimal digits follow a letter behind a backslash. -/
def escapeWidth? : Char → Option Nat
  | 'x' => some 2
  | 'u' => some 4
  | 'U' => some 8
  | _ => none

/-- The character of an escape behind its backslash, and how many characters the
escape takes. -/
def readEscape? : List Char → Option (Char × Nat)
  | [] => none
  | c :: rest =>
    match escapeWidth? c with
    | some width =>
      let digits := rest.take width
      if digits.length = width then (Text.charOfHex? digits).map (·, width + 1)
      else none
    | none => (escaped? c).map (·, 1)

/-- The text up to the closing quote, and the place behind it. -/
def quoted (double : Bool) :
    (left : Nat) → Cursor → List Char → Option (List Char × Cursor)
  | 0, _, _ => none
  | left + 1, c, read =>
    if c.atDocumentMark then none
    else
      match c.rest with
      | [] => none
      | b :: rest =>
        if isBlank b || isBreak b then do
          let (gap, next) ← passGap 0 c.rest.length c Gap.none
          quoted double left next (read ++ gap.text)
        else if !double && b == '\'' then
          if rest.head? = some '\'' then
            quoted double left (c.skip 2) (read ++ ['\''])
          else some (read, c.skip 1)
        else if double && b == '"' then some (read, c.skip 1)
        else if double && b == '\\' then
          match (c.skip 1).break? with
          | some (_, next) => do
            let (gap, next) ← passGap 0 next.rest.length next (.broken [] [])
            quoted double left next (read ++ gap.text)
          | none => do
            let (d, size) ← readEscape? rest
            quoted double left (c.skip (size + 1)) (read ++ [d])
        else quoted double left (c.skip 1) (read ++ [b])

/-- The marks of flow collections that end a plain scalar in them. -/
def endsFlow (c : Char) : Bool := [',', '[', ']', '\x7b', '\x7d'].contains c

/-- A plain scalar: its text, whether the gap behind it extends over lines, and
the place behind that gap. In a flow collection a colon must not stand before
one of its marks. -/
def plain (flow : Bool) (indent : Nat) :
    (left : Nat) → Cursor → Gap → List Char → Option (List Char × Bool × Cursor)
  | 0, _, _, _ => none
  | left + 1, c, gap, read =>
    let here := some (read, gap.isBroken, c)
    if c.atDocumentMark then here
    else
      match c.rest with
      | [] => here
      | b :: rest =>
        if isBlank b || isBreak b then do
          let (gap, next) ← passGap indent c.rest.length c Gap.none
          if !flow && next.column < indent then
            return (read, gap.isBroken, next)
          if next.rest.head? = some '#' then return (read, gap.isBroken, next)
          plain flow indent left next gap read
        else if flow && b == ':' &&
            rest.head?.any (fun d => endsFlow d || d == '?') then none
        else if b == ':' && endsWord rest then here
        else if flow && endsFlow b then here
        else plain flow indent left (c.skip 1) Gap.none
          (read ++ gap.text ++ [b])

/-- What happens to the ends of lines behind a block. -/
inductive Chomping where
  | strip
  | clip
  | keep
deriving Repr, DecidableEq

def readChomping (c : Cursor) : Option Chomping × Cursor :=
  match c.rest with
  | '+' :: _ => (some .keep, c.skip 1)
  | '-' :: _ => (some .strip, c.skip 1)
  | _ => (none, c)

/-- The indentation as a digit, or zero if none stands here. The digit zero is
not allowed. -/
def readWidth? (c : Cursor) : Option (Nat × Cursor) :=
  match c.rest with
  | d :: _ =>
    if d == '0' then none
    else if d.isDigit then some (d.toNat - '0'.toNat, c.skip 1)
    else some (0, c)
  | [] => some (0, c)

/-- What stands behind the mark of a block: chomping and indentation in either
order. -/
def blockHeader? (c : Cursor) : Option (Chomping × Nat × Cursor) := do
  let (first, c) := readChomping c
  let (width, c) ← readWidth? c
  let (second, c) := if first.isSome then (none, c) else readChomping c
  return ((first.or second).getD .clip, width, c)

/-- Pass over empty lines and the indentation of the next one. Indentation zero
is not known yet: it becomes that of the widest line passed, and at least
`least`. -/
def passLines (least indent : Nat) :
    (left : Nat) → Cursor → (widest : Nat) → List Char →
    Option (List Char × Nat × Cursor)
  | 0, _, _, _ => none
  | left + 1, c, widest, breaks =>
    let spaces := (c.rest.takeWhile (· == ' ')).length
    let c :=
      c.skip (if indent = 0 then spaces else min spaces (indent - c.column))
    let widest := max widest c.column
    if (indent = 0 ∨ c.column < indent) ∧ c.rest.head? = some '\t' then none
    else
      match c.break? with
      | some (b, next) =>
        passLines least indent left next widest (breaks ++ [b])
      | none =>
        some (breaks, if indent = 0 then max widest least else indent, c)

/-- What is known of a block behind some of its lines: its text, the end of the
last line, the empty lines behind that, and whether that line began with a
blank. -/
structure Block where
  text : List Char := []
  ending : List Char := []
  breaks : List Char
  blank : Bool := false

/-- What stands between the lines read so far and the next one. -/
def Block.joint (block : Block) (folded blank : Bool) : List Char :=
  if folded && block.ending == ['\n'] && !block.blank && !blank then
    if block.breaks.isEmpty then [' '] else block.breaks
  else block.ending ++ block.breaks

def blockLines (folded : Bool) (indent : Nat) :
    (left : Nat) → Cursor → Block → Option (Block × Cursor)
  | 0, c, block => some (block, c)
  | left + 1, c, block =>
    if c.column = indent ∧ c.rest ≠ [] then do
      let blank := c.rest.head?.any isBlank
      let (line, c) := c.takeWhile fun b => !isBreak b
      let (ending, c) := match c.break? with
        | some (b, next) => ([b], next)
        | none => ([], c)
      let (breaks, _, c) ← passLines indent indent (c.rest.length + 1) c 0 []
      blockLines folded indent left c
        { text := block.text ++ block.joint folded blank ++ line, ending,
          breaks, blank }
    else some (block, c)

/-- A block of lines behind its mark. `parent` is the column behind the
indentation around it. -/
def block? (folded : Bool) (parent : Nat) (c : Cursor) :
    Option (List Char × Cursor) := do
  let (chomping, width, c) ← blockHeader? c
  let c ← c.blankTail?
  let c := match c.break? with
    | some (_, next) => next
    | none => c
  let indent := if width = 0 then 0 else max parent 1 - 1 + width
  let (breaks, indent, c) ← passLines (max parent 1) indent
      (c.rest.length + 1) c 0 []
  let (block, c) ← blockLines folded indent (c.rest.length + 1) c { breaks }
  let kept := match chomping with
    | .strip => []
    | .clip => block.ending
    | .keep => block.ending ++ block.breaks
  return (block.text ++ kept, c)

end Specimen.Yaml
