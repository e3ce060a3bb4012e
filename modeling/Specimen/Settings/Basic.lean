/-
The settings in effect for one schema file: how file names are taken apart and
made, the chances and limits of generation, and the rules that give values to
nodes by name.
-/
import Specimen.Bounds
import Specimen.Regex.Search

namespace Specimen

/-- A rule for the nodes whose names a pattern is found in: their value comes
from the template. A rule without template leaves them as they are. -/
structure Rule where
  source : String
  pattern : Regex.Pattern
  template : Option String

namespace Rule

/-- The rule of a pattern as it is written; letters match in either case.
Nothing if the pattern is malformed. -/
def ofSource? [Regex.Package] (source : String) (template : Option String) :
    Option Rule :=
  (Regex.Pattern.compile true source).map fun pattern =>
    ⟨source, pattern, template⟩

def appliesTo (rule : Rule) (name : String) : Bool :=
  rule.pattern.isFoundIn name

end Rule

/-- The settings for one schema file. -/
structure Settings where
  /-- The expression that takes the name of the schema file apart. -/
  sourceFilename : String := "(?P<extracted>.*).(xsd|XSD)"
  /-- The template of the name of the output file. -/
  outputFilename : String :=
    "\x7b\x7b source_extracted \x7d\x7d_\x7b\x7b uuid \x7d\x7d"
  /-- The chance that an optional attribute is present. -/
  inclusion : Float := 0.5
  /-- The greatest number of occurrences where the schema sets none. -/
  occurrenceCap : Nat := 10
  /-- The preferred range of numbers; it only narrows the ranges of the schema.
  -/
  numbers : Bounds := {}
  /-- The rules in the order in which they are tried. -/
  rules : List Rule := []

namespace Settings

/-- The template of the first rule about nodes of a name. A rule without
template, or with an empty one, gives none. -/
def templateFor? (rules : List Rule) (name : String) : Option String :=
  match rules.find? (·.appliesTo name) with
  | none => none
  | some rule => rule.template.filter (· ≠ "")

end Settings

end Specimen
