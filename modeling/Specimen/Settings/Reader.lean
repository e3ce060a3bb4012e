/-
Reading settings from YAML. The layer for all files is read from the nodes of
the document as they are written, so numbers may stand for texts; the layers for
some files are read from what the nodes mean.
-/
import Specimen.Files
import Specimen.Settings.Layer
import Specimen.Yaml.Value

namespace Specimen.Settings

/-- How the parts of a layer are read from a kind of tree. -/
structure Source (α : Type) where
  fields? : α → Option (List (String × α))
  text? : α → Option (Option String)
  float? : α → Option (Option Float)
  natural? : α → Option (Option Nat)
  integer? : α → Option (Option Int)
  rules? : α → Option (List (String × Option String))

/-- The names are known and none occurs twice. -/
def areFields (known : List String) : List String → Bool
  | [] => true
  | name :: rest =>
    known.contains name && !rest.contains name && areFields known rest

def Source.known? {α : Type} (source : Source α) (known : List String) (a : α) :
    Option (List (String × α)) :=
  (source.fields? a).filter fun fields => areFields known (fields.map (·.1))

/-- Read a field, or take the default if it is missing. -/
def read? {α β : Type} (fields : List (String × α))
    (name : String) (default : β) (reader : α → Option β) : Option β :=
  match fields.lookup name with
  | some a => reader a
  | none => some default

/-- Add to a layer what is said about chances and limits. -/
def Source.limits? {α : Type} (source : Source α) (layer : Layer) (a : α) :
    Option Layer := do
  let fields ← source.known?
      ["probability", "max_occurs", "min_inclusive", "max_inclusive"] a
  let inclusion ← read? fields "probability" none source.float?
  let occurrenceCap ← read? fields "max_occurs" none source.natural?
  let lower ← read? fields "min_inclusive" none source.integer?
  let upper ← read? fields "max_inclusive" none source.integer?
  return { layer with inclusion, occurrenceCap, numbers := ⟨lower, upper⟩ }

def Source.layer? {α : Type} (source : Source α) (a : α) : Option Layer := do
  let fields ←
    source.known? ["source_filename", "output_filename", "randomization",
      "value_override"] a
  let sourceFilename ← read? fields "source_filename" none source.text?
  let outputFilename ← read? fields "output_filename" none source.text?
  let layer ← read? fields "randomization" {} (source.limits? {})
  let rules ← read? fields "value_override" [] source.rules?
  return { layer with sourceFilename, outputFilename, rules }

namespace Source

def textKeys? {α : Type} (entries : List (Yaml.Value × α)) :
    Option (List (String × α)) :=
  entries.mapM fun (key, a) => do return (← (← key.scalarText?), a)

def rulesOf? (entries : List (Yaml.Value × Yaml.Value)) :
    Option (List (String × Option String)) := do
  (← textKeys? entries).mapM fun (pattern, value) => do
    return (pattern, ← value.scalarText?)

/-- A reader of a setting that may be left open. -/
def orNull {β : Type} (reader : Yaml.Value → Option β) (value : Yaml.Value) :
    Option (Option β) :=
  match value with
  | .null => some none
  | value => (reader value.untagged).map some

/-- A layer in what nodes mean. -/
def meaning : Source Yaml.Value where
  fields? value :=
    match value.untagged with
    | .null => some []
    | .mapping entries => entries.mapM fun (key, a) =>
        match key.untagged with
        | .text name => some (name, a)
        | _ => none
    | _ => none
  text? := orNull fun value =>
    match value with
    | .text s => some s
    | _ => none
  float? := orNull fun value =>
    match value with
    | .float x => some x
    | .integer n => some (Binary64.ofDecimal (n < 0) n.natAbs 0)
    | _ => none
  natural? := orNull fun value =>
    match value with
    | .integer n => if 0 ≤ n then some n.toNat else none
    | _ => none
  integer? := orNull fun value =>
    match value with
    | .integer n => Number.checked n
    | _ => none
  rules? value :=
    match value.untagged with
    | .null => some []
    | .mapping entries => rulesOf? entries
    | _ => none

/-- A node that is left open: nothing is written, or that there is nothing. -/
def isOpen : Yaml.Node → Bool
  | .scalar none true s => s = "" || Yaml.Plain.isNull s
  | .scalar (some "tag:yaml.org,2002:null") true s => Yaml.Plain.isNull s
  | _ => false

/-- A reader of the text of a setting that may be left open. -/
def orOpen {β : Type} (reader : (plain : Bool) → String → Option β)
    (node : Yaml.Node) : Option (Option β) :=
  if isOpen node then some none
  else
    match node with
    | .scalar _ plain s => (reader plain s).map some
    | _ => none

def entriesOf? (node : Yaml.Node) : Option (List (Yaml.Value × Yaml.Value)) :=
  if isOpen node then some []
  else do
    match (← Yaml.Value.ofNode? node).untagged with
    | .mapping entries => some entries
    | _ => none

/-- A layer in nodes as they are written. -/
def written : Source Yaml.Node where
  fields?
    | .mapping _ entries => entries.mapM fun (key, a) =>
        match key with
        | .scalar _ _ name => some (name, a)
        | _ => none
    | .scalar _ plain s => if plain && s = "" then some [] else none
    | _ => none
  text? := orOpen fun _ s => some s
  float? := orOpen fun plain s =>
    if plain then Yaml.Plain.float? s.toList else none
  natural? := orOpen fun plain s =>
    if plain then
      (Yaml.Plain.natural? s.toList).filter (· < 0x10000000000000000)
    else none
  integer? := orOpen fun plain s =>
    if plain then (Yaml.Plain.integer? s.toList).bind Number.checked else none
  rules? node := do rulesOf? (← entriesOf? node)

end Source

end Specimen.Settings

namespace Specimen

/-- Why no profile can be read. -/
inductive ProfileError where
  | malformed
  | unreadable (path : String) (reason : ReadError)
deriving Repr, DecidableEq

namespace ProfileError

def message : ProfileError → String
  | malformed => "Failed to parse YAML"
  | unreadable path reason =>
    "Failed to read configuration file '" ++ path ++ "': " ++ reason.message

end ProfileError

namespace Profile

open Settings (Source)

/-- The layers for some files, each under its pattern. -/
def specificOf? (node : Yaml.Node) : Option (List (String × Layer)) := do
  (← Source.textKeys? (← Source.entriesOf? node)).mapM
    fun (pattern, value) => do
    return (pattern, ← Source.meaning.layer? value)

/-- The profile in the root of a document. -/
def ofNode? (root : Yaml.Node) : Option Profile := do
  let fields ← Source.written.known? ["global", "specific"] root
  let general ← Settings.read? fields "global" {} Source.written.layer?
  let specific ← Settings.read? fields "specific" [] specificOf?
  return { general, specific }

/-- The profile in a text. A text without a document leaves everything open. -/
def ofText (text : String) : Except ProfileError Profile :=
  if (Text.trim text.toList).isEmpty then .ok {}
  else
    match Yaml.Node.ofText? text with
    | some none => .ok {}
    | some (some root) =>
      match ofNode? root with
      | some profile => .ok profile
      | none => .error .malformed
    | none => .error .malformed

def ofFile (files : Files) (path : String) : Except ProfileError Profile :=
  match files.read path with
  | .ok text => ofText text
  | .error reason => .error (.unreadable path reason)

end Profile

end Specimen
