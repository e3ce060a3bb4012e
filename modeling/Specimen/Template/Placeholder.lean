/-
Templates: literal text with placeholders between double braces. A placeholder
names a function, with arguments between parentheses or without, and a scope
behind a bar or none. Argument text is opaque: only its quotes and parentheses
are followed, so that a mark inside it is not taken for structure. Positions are
byte offsets into the whole template.
-/
import Specimen.Text.Blank

namespace Specimen

/-- How long the value of a placeholder is kept: until the next schema file, or
for the whole run. -/
inductive Scope where
  | file
  | run
deriving Repr, DecidableEq

namespace Scope

def name : Scope → String
  | file => "local"
  | run => "global"

def ofName? : String → Option Scope
  | "local" => some file
  | "global" => some run
  | _ => none

end Scope

/-- What a placeholder asks for. -/
structure Call where
  function : String
  argument : Option String
  scope : Option Scope
deriving Repr, DecidableEq

/-- A call and the bytes that it takes in the template. -/
structure Placeholder extends Call where
  start : Nat
  stop : Nat
deriving Repr, DecidableEq

/-- What is wrong with a placeholder. -/
inductive Fault where
  | emptyPlaceholder
  | missingFunction
  | textAfterFunction (function : String)
  | textAfterArguments
  | missingClosingParenthesis
  | unexpectedClosingParenthesis
  | unterminatedQuote
  | missingClosingBraces
  | emptyScope
  | unknownScope (name : String)
deriving Repr, DecidableEq

namespace Fault

def description : Fault → String
  | emptyPlaceholder => "placeholder is empty"
  | missingFunction => "function name is missing"
  | textAfterFunction function =>
    "unexpected text after function name '" ++ function ++ "'"
  | textAfterArguments => "unexpected text after arguments"
  | missingClosingParenthesis => "missing closing ')' for placeholder"
  | unexpectedClosingParenthesis => "unexpected ')'"
  | unterminatedQuote => "unterminated quote in placeholder"
  | missingClosingBraces => "missing closing '\x7d\x7d'"
  | emptyScope => "modifier is empty"
  | unknownScope name => "unknown modifier '" ++ name ++ "'"

end Fault

/-- A fault and the byte where it shows. -/
structure Located where
  position : Nat
  fault : Fault
deriving Repr, DecidableEq

/-- What is open at a point of a call: parentheses, a quote, and in a quote a
backslash that protects the next character. -/
structure Nesting where
  depth : Nat := 0
  quote : Option Char := none
  escaped : Bool := false
deriving Repr, DecidableEq

namespace Nesting

/-- What is open behind one more character; nothing if it closes a parenthesis
that is not open. -/
def step (s : Nesting) (c : Char) : Option Nesting :=
  match s.quote with
  | some q =>
    if s.escaped then some { s with escaped := false }
    else if c = '\\' then some { s with escaped := true }
    else if c = q then some { s with quote := none }
    else some s
  | none =>
    if c = '\'' || c = '"' then some { s with quote := some c }
    else if c = '(' then some { s with depth := s.depth + 1 }
    else if c = ')' then
      if s.depth = 0 then none else some { s with depth := s.depth - 1 }
    else some s

/-- The fault of ending here, if something is open. -/
def openFault? (s : Nesting) : Option Fault :=
  if s.depth ≠ 0 then some .missingClosingParenthesis
  else if s.quote.isSome then some .unterminatedQuote
  else none

end Nesting

namespace Call

/-- Split the text of a placeholder at the first bar outside quotes. What is
open at the bar, or at the end without one, is a fault at the opening braces.
The scope comes with its position. -/
def splitScope (opening : Nat) :
    Nat → Nesting → List Char →
    Except Located (List Char × Option (Nat × List Char))
  | _, s, [] =>
    match s.openFault? with
    | some fault => .error ⟨opening, fault⟩
    | none => .ok ([], none)
  | position, s, c :: rest =>
    if s.quote = none ∧ c = '|' then
      match s.openFault? with
      | some fault => .error ⟨opening, fault⟩
      | none => .ok ([], some (position + 1, rest))
    else
      match s.step c with
      | none => .error ⟨position, .unexpectedClosingParenthesis⟩
      | some s' => do
        let (call, scope) ← splitScope opening (position + c.utf8Size) s' rest
        return (c :: call, scope)

/-- The text up to the parenthesis that closes the one before it, and the text
behind. -/
def splitArgument : Nesting → List Char → Option (List Char × List Char)
  | _, [] => none
  | s, c :: rest =>
    if s.quote = none ∧ c = ')' ∧ s.depth = 0 then some ([], rest)
    else
      match s.step c with
      | none => none
      | some s' =>
        (splitArgument s' rest).map fun (argument, behind) =>
          (c :: argument, behind)

def isNameChar (c : Char) : Bool := !Text.isBlank c && c != '('

def readFunction (opening position : Nat) (text : List Char) :
    Except Located (String × Option String) :=
  let call := Text.trim text
  let callStart := position + Text.indent text
  if call.isEmpty then .error ⟨callStart, .missingFunction⟩
  else
    let name := call.takeWhile isNameChar
    let remainder := call.dropWhile isNameChar
    let function := String.ofList name
    let argumentsStart :=
      callStart + Text.byteLength name + Text.indent remainder
    match Text.trimStart remainder with
    | [] => .ok (function, none)
    | c :: inside =>
      if c ≠ '(' then .error ⟨argumentsStart, .textAfterFunction function⟩
      else
        match splitArgument {} inside with
        | none => .error ⟨opening, .missingClosingParenthesis⟩
        | some (argument, behind) =>
          if (Text.trim behind).isEmpty then
            .ok (function, some (String.ofList (Text.trim argument)))
          else
            .error ⟨argumentsStart + 1 + Text.byteLength argument + 1 +
              Text.indent behind, .textAfterArguments⟩

def readScope : Option (Nat × List Char) → Except Located (Option Scope)
  | none => .ok none
  | some (position, text) =>
    let name := String.ofList (Text.trim text)
    if name = "" then .error ⟨position, .emptyScope⟩
    else
      match Scope.ofName? name with
      | some scope => .ok (some scope)
      | none => .error ⟨position, .unknownScope name⟩

/-- Read what stands between the braces; `opening` is the position of the
opening ones. -/
def read (opening : Nat) (inner : List Char) : Except Located Call := do
  let text := Text.trim inner
  if text.isEmpty then .error ⟨opening + 2, .emptyPlaceholder⟩
  else
    let position := opening + 2 + Text.indent inner
    let (call, scope) ← splitScope opening position {} text
    let (function, argument) ← readFunction opening position call
    let scope ← readScope scope
    return ⟨function, argument, scope⟩

end Call

/-- A template in pieces: every placeholder with the text before it, and the
text behind the last. -/
structure Template where
  parts : List (List Char × Placeholder)
  rest : List Char
deriving Repr, DecidableEq

namespace Template

/-- The text before the first doubled character and the text behind it. -/
def cutPair (mark : Char) : List Char → Option (List Char × List Char)
  | c :: d :: rest =>
    if c = mark ∧ d = mark then some ([], rest)
    else (cutPair mark (d :: rest)).map fun (before, behind) =>
      (c :: before, behind)
  | _ => none

theorem eq_append_of_cutPair {mark : Char} {s before behind : List Char}
    (h : cutPair mark s = some (before, behind)) :
    s = before ++ mark :: mark :: behind := by
  induction s generalizing before with
  | nil => simp [cutPair] at h
  | cons c s ih =>
    cases s with
    | nil => simp [cutPair] at h
    | cons d rest =>
      unfold cutPair at h
      split at h
      · rename_i hm
        simp_all
      · rw [Option.map_eq_some_iff] at h
        obtain ⟨⟨b, r⟩, hb, he⟩ := h
        simp only [Prod.mk.injEq] at he
        obtain ⟨rfl, rfl⟩ := he
        rw [ih hb]
        rfl

theorem length_lt_of_cutPair {mark : Char} {s before behind : List Char}
    (h : cutPair mark s = some (before, behind)) :
    behind.length < s.length := by
  have := congrArg List.length (eq_append_of_cutPair h)
  simp at this
  omega

/-- Read the template from the given byte on. -/
def readFrom (position : Nat) (text : List Char) : Except Located Template :=
  match _hOpen : cutPair '{' text with
  | none => .ok ⟨[], text⟩
  | some (before, inside) =>
    let opening := position + Text.byteLength before
    match hClose : cutPair '}' inside with
    | none => .error ⟨position + Text.byteLength text, .missingClosingBraces⟩
    | some (inner, behind) => do
      let call ← Call.read opening inner
      let stop := opening + 2 + Text.byteLength inner + 2
      let template ← readFrom stop behind
      return ⟨(before, ⟨call, opening, stop⟩) :: template.parts, template.rest⟩
termination_by text.length
decreasing_by
  have := length_lt_of_cutPair _hOpen
  have := length_lt_of_cutPair hClose
  omega

def placeholders (t : Template) : List Placeholder := t.parts.map (·.2)

end Template

/-- A template that cannot be read. -/
structure MalformedTemplate where
  template : String
  position : Nat
  fault : Fault
deriving Repr, DecidableEq

namespace MalformedTemplate

def message (e : MalformedTemplate) : String :=
  "Failed to parse expression: " ++ e.template ++ ": " ++ e.fault.description ++
    " at position " ++ toString e.position

end MalformedTemplate

namespace Template

/-- Read a whole template. -/
def parse (text : String) : Except MalformedTemplate Template :=
  match readFrom 0 text.toList with
  | .ok template => .ok template
  | .error e => .error ⟨text, e.position, e.fault⟩

end Template

end Specimen
