/-
The tree of a YAML document: scalars, sequences and mappings, with their tags.
An alias stands for a copy of the node that bears the anchor.
-/
import Specimen.Yaml.Token

namespace Specimen.Yaml

/-- A node of a document. A scalar is plain if it stands neither between quotes
nor in a block. -/
inductive Node where
  | scalar (tag : Option String) (plain : Bool) (text : String)
  | sequence (tag : Option String) (items : List Node)
  | mapping (tag : Option String) (entries : List (Node × Node))

namespace Node

/-- What is written where nothing is written. -/
def empty : Node := .scalar none true ""

/-- What is left to read of a document, the anchors met so far and the meaning
of tag handles. -/
structure Reading where
  tokens : List Token
  anchors : List (String × Node) := []
  handles : List (String × String)

/-- A step of reading. -/
abbrev Read := StateT Reading Option

/-- The next token, which stays there. -/
def peek : Read (Option Token) := return (← get).tokens.head?

/-- Leave the next token behind. -/
def drop : Read Unit := modify fun r => { r with tokens := r.tokens.tail }

/-- Leave the next token behind if it is the given one. -/
def skip? (token : Token) : Read Bool := do
  if (← peek) = some token then
    drop
    return true
  else return false

/-- The next token is one of those given, or none is left. -/
def stands (tokens : List Token) : Read Bool := do
  return (← peek).all tokens.contains

/-- The properties in front of a node: its anchor and its tag, in either order.
-/
structure Properties where
  anchor : Option String := none
  tag : Option String := none
deriving Repr, DecidableEq

/-- A tag with its handle replaced by what it stands for. -/
def resolveTag (handle suffix : String) : Read String := do
  if handle = "" then return suffix
  match (← get).handles.lookup handle with
  | some start => return start ++ suffix
  | none => failure

def properties : (left : Nat) → Properties → Read Properties
  | 0, p => return p
  | left + 1, p => do
    match ← peek with
    | some (.anchor name) =>
      if p.anchor.isSome then return p
      drop
      properties left { p with anchor := some name }
    | some (.tag handle suffix) =>
      if p.tag.isSome then return p
      drop
      properties left { p with tag := some (← resolveTag handle suffix) }
    | _ => return p

/-- Give a node its anchor. -/
def note (p : Properties) (node : Node) : Read Node := do
  match p.anchor with
  | some name => modify fun r => { r with anchors := (name, node) :: r.anchors }
  | none => pure ()
  return node

mutual

/-- A node. Blocks are allowed in blocks only; `indentless` allows a sequence
whose dashes stand in the column of the key before it. -/
def node (block indentless : Bool) : (left : Nat) → Read Node
  | 0 => failure
  | left + 1 => do
    match ← peek with
    | some (.alias name) => do
      drop
      (← get).anchors.lookup name
    | _ => do
      let p ← properties 2 {}
      match ← peek with
      | some .entry =>
        if indentless then note p (.sequence p.tag (← entries left))
        else bare p
      | some (.scalar plain text) => do
        drop
        note p (.scalar p.tag plain text)
      | some .flowSequenceStart => do
        drop
        note p (.sequence p.tag (← flowItems true left))
      | some .flowMappingStart => do
        drop
        note p (.mapping p.tag (← flowEntries true left))
      | some .sequenceStart =>
        if block then do
          drop
          let items ← entries left
          if ← skip? .blockEnd then note p (.sequence p.tag items) else failure
        else bare p
      | some .mappingStart =>
        if block then do
          drop
          note p (.mapping p.tag (← blockEntries left))
        else bare p
      | _ => bare p

/-- A node of which only the properties are written. -/
def bare (p : Properties) : Read Node :=
  if p.anchor.isSome || p.tag.isSome then note p (.scalar p.tag true "")
  else failure

/-- A node, unless one of the given tokens stands there. -/
def nodeUnless (tokens : List Token) (block indentless : Bool) :
    (left : Nat) → Read Node
  | 0 => failure
  | left + 1 => do
    if ← stands tokens then return Node.empty else node block indentless left

/-- The items of a sequence, each behind its dash. -/
def entries : (left : Nat) → Read (List Node)
  | 0 => failure
  | left + 1 => do
    if ← skip? .entry then
      let item ← nodeUnless [.entry, .key, .value, .blockEnd] true false left
      return item :: (← entries left)
    else return []

/-- The entries of a block mapping up to its end. -/
def blockEntries : (left : Nat) → Read (List (Node × Node))
  | 0 => failure
  | left + 1 => do
    if ← skip? .blockEnd then return []
    else if ← skip? .key then
      let name ← nodeUnless [.key, .value, .blockEnd] true true left
      let content ←
        if ← skip? .value then
          nodeUnless [.key, .value, .blockEnd] true true left
        else pure Node.empty
      return (name, content) :: (← blockEntries left)
    else failure

/-- The items of a sequence between brackets up to its end. An item may be a
mapping of one entry. -/
def flowItems (first : Bool) : (left : Nat) → Read (List Node)
  | 0 => failure
  | left + 1 => do
    if ← skip? .flowSequenceEnd then return []
    if !first then
      if !(← skip? .flowEntry) then failure
    if ← skip? .flowSequenceEnd then return []
    if ← skip? .key then
      let name ← nodeUnless [.value, .flowEntry, .flowSequenceEnd]
          false false left
      let content ←
        if ← skip? .value then
          nodeUnless [.flowEntry, .flowSequenceEnd] false false left
        else pure Node.empty
      return .mapping none [(name, content)] :: (← flowItems false left)
    else
      let item ← node false false left
      return item :: (← flowItems false left)

/-- The entries of a mapping between brackets up to its end. -/
def flowEntries (first : Bool) : (left : Nat) → Read (List (Node × Node))
  | 0 => failure
  | left + 1 => do
    if ← skip? .flowMappingEnd then return []
    if !first then
      if !(← skip? .flowEntry) then failure
    if ← skip? .flowMappingEnd then return []
    if ← skip? .key then
      let name ← nodeUnless [.value, .flowEntry, .flowMappingEnd]
          false false left
      let content ←
        if ← skip? .value then
          nodeUnless [.flowEntry, .flowMappingEnd] false false left
        else pure Node.empty
      return (name, content) :: (← flowEntries false left)
    else
      let name ← node false false left
      return (name, Node.empty) :: (← flowEntries false left)

end

/-- The handles that have a meaning without being declared. -/
def commonHandles : List (String × String) :=
  [("!", "!"), ("!!", "tag:yaml.org,2002:")]

/-- The lines about a document, each at most once: those about handles, and
whether one was about the version. -/
def directives : List Token → (version : Bool) → List (String × String) →
    Option (Bool × List (String × String) × List Token)
  | .version major minor :: rest, version, handles =>
    if version ∨ major ≠ 1 ∨ (minor ≠ 1 ∧ minor ≠ 2) then none
    else directives rest true handles
  | .tagHandle handle start :: rest, version, handles =>
    if (handles.lookup handle).isSome then none
    else directives rest version ((handle, start) :: handles)
  | rest, version, handles => some (version, handles, rest)

/-- The document that begins here and the tokens behind it. Only the first
document may begin without a mark. -/
def document? (first : Bool) (tokens : List Token) :
    Option (Node × List Token) := do
  let (version, handles, rest) ← directives tokens false []
  let marked := rest.head? = some Token.documentStart
  if !marked ∧ (!first ∨ version ∨ !handles.isEmpty) then none
  let tokens := if marked then rest.tail else rest
  let ends : List Token := [.documentStart, .documentEnd]
  let bare := marked && tokens.head?.all fun token =>
    match token with
    | .version _ _ => true
    | .tagHandle _ _ => true
    | token => ends.contains token
  if bare then return (Node.empty, tokens)
  let reading : Reading := { tokens, handles := handles ++ commonHandles }
  let (node, r) ← (node true false (6 * tokens.length + 6)).run reading
  return (node, r.tokens)

/-- The documents of a text from one on. -/
def documents? : (left : Nat) → (first : Bool) → List Token → Option (List Node)
  | 0, _, _ => none
  | left + 1, first, tokens =>
    let tokens := if first then tokens else tokens.dropWhile (· == .documentEnd)
    if tokens.isEmpty then some []
    else do
      let (node, rest) ← document? first tokens
      return node :: (← documents? left false rest)

/-- The root of the only document of a text, or nothing if there is no document.
Malformed texts and texts with several documents are refused. -/
def ofText? (text : String) : Option (Option Node) := do
  let tokens ← Token.ofText? text
  match ← documents? (tokens.length + 1) true tokens with
  | [] => return none
  | [root] => return some root
  | _ => none

end Node

end Specimen.Yaml
