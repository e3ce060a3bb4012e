/-
Settings as they are written: layers in which every setting is optional. A layer
for some files goes over the one for all of them, and what is left open gets its
default.
-/
import Specimen.Number.Binary64
import Specimen.Settings.Basic

namespace Specimen

variable [Regex.Package]

/-- A layer of settings. A rule is a pattern with a template, or without one. -/
structure Layer where
  sourceFilename : Option String := none
  outputFilename : Option String := none
  inclusion : Option Float := none
  occurrenceCap : Option Nat := none
  numbers : Bounds := {}
  rules : List (String × Option String) := []

/-- Why written settings cannot take effect. -/
inductive SettingsError where
  | invalidPattern (pattern : String)
  | inclusionOutOfRange (value : Float)

namespace SettingsError

def message : SettingsError → String
  | invalidPattern pattern =>
    "Invalid pattern '" ++ pattern ++ "': regex parse error"
  | inclusionOutOfRange value =>
    "Invalid value for 'randomization.probability': " ++
      Binary64.plainText value

end SettingsError

namespace Settings

/-- The settings with one more rule, which is tried last. -/
def withRule (settings : Settings) (pattern : String)
    (template : Option String) : Except SettingsError Settings :=
  match Rule.ofSource? pattern template with
  | some rule => .ok { settings with rules := settings.rules ++ [rule] }
  | none => .error (.invalidPattern pattern)

def withRules (settings : Settings) (rules : List (String × Option String)) :
    Except SettingsError Settings :=
  rules.foldlM (fun settings (pattern, template) =>
    settings.withRule pattern template) settings

end Settings

namespace Layer

/-- One layer above another: its settings go first, and its rules stand before
those of the other that it does not repeat. -/
def above (specific general : Layer) : Layer where
  sourceFilename := specific.sourceFilename.or general.sourceFilename
  outputFilename := specific.outputFilename.or general.outputFilename
  inclusion := specific.inclusion.or general.inclusion
  occurrenceCap := specific.occurrenceCap.or general.occurrenceCap
  numbers :=
    { lower := specific.numbers.lower.or general.numbers.lower
      upper := specific.numbers.upper.or general.numbers.upper }
  rules :=
    specific.rules ++
      general.rules.filter fun rule =>
        !(specific.rules.any fun other => other.1 == rule.1)

def isChance (x : Float) : Bool := 0.0 ≤ x && x ≤ 1.0

/-- The settings of a layer with defaults for what it leaves open. -/
def settings (layer : Layer) : Except SettingsError Settings := do
  let defaults : Settings := {}
  let inclusion := layer.inclusion.getD defaults.inclusion
  if !isChance inclusion then throw (.inclusionOutOfRange inclusion)
  let sourceFilename := layer.sourceFilename.getD defaults.sourceFilename
  if (Regex.Pattern.compile false sourceFilename).isNone then
    throw (.invalidPattern sourceFilename)
  let plain : Settings :=
    { sourceFilename
      outputFilename := layer.outputFilename.getD defaults.outputFilename
      inclusion
      occurrenceCap := layer.occurrenceCap.getD defaults.occurrenceCap
      numbers := layer.numbers }
  plain.withRules layer.rules

end Layer

/-- The settings for all files and, under patterns for file names, those for
some of them. -/
structure Profile where
  general : Layer := {}
  specific : List (String × Layer) := []

namespace Profile

/-- The pattern of a specific layer as it is matched: at the start of the file
name. -/
def anchored (pattern : String) : String := "^(?:" ++ pattern ++ ")"

/-- The first of the specific layers whose pattern matches a file name. -/
def find? (fileName : String) :
    List (String × Layer) → Except SettingsError (Option Layer)
  | [] => .ok none
  | (pattern, layer) :: rest =>
    match Regex.Pattern.compile false (anchored pattern) with
    | none => .error (.invalidPattern (anchored pattern))
    | some p => if p.isFoundIn fileName then .ok (some layer)
      else find? fileName rest

/-- The settings for a file: those of the first specific layer for its name over
those for all files. -/
def settingsFor (profile : Profile) (fileName : String) :
    Except SettingsError Settings := do
  match ← find? fileName profile.specific with
  | some layer => (layer.above profile.general).settings
  | none => profile.general.settings

end Profile

end Specimen
