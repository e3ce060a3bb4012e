/-
Expanding templates in a run: every placeholder gets its value, from the memory
if it has a scope that keeps one, else by calling its function. The start of a
file forgets what was kept for the one before and makes the name of the output
file.
-/
import Specimen.Session
import Specimen.Settings.Basic

namespace Specimen

variable [Regex.Package]

namespace Call

/-- Call the function of a placeholder. -/
def perform (call : Call) (files : Files) : Step TemplateError String := do
  match Function.ofName? call.function with
  | none => throw (.unknownFunction call.function)
  | some function =>
    let file := (← get).memory.file
    Step.attempt (function.value call.function call.argument files file)

/-- The value of a placeholder. A kept value is given back as it is; a new one
is kept if there is a scope. -/
def resolve (call : Call) (files : Files) : Step TemplateError String := do
  match call.scope with
  | none => call.perform files
  | some scope =>
    match (← get).memory.find? scope call.function with
    | some kept => return kept
    | none =>
      let value ← call.perform files
      modify fun s =>
        { s with memory := s.memory.keep scope call.function value }
      return value

end Call

namespace Template

/-- The text of a template in pieces, the placeholders evaluated from left to
right. -/
def expandParts (files : Files) (rest : List Char) :
    List (List Char × Placeholder) → Step TemplateError (List Char)
  | [] => return rest
  | (before, placeholder) :: parts => do
    let value ← placeholder.toCall.resolve files
    let tail ← expandParts files rest parts
    return before ++ value.toList ++ tail

def expand (files : Files) (template : String) : Step TemplateError String := do
  match Template.parse template with
  | .error e => throw (.malformed e)
  | .ok t => return String.ofList (← expandParts files t.rest t.parts)

end Template

namespace Settings

/-- The value that the rules give to a node, if they give one. -/
def ruledValue (files : Files) (rules : List Rule) (name : String) :
    Step TemplateError (Option String) := do
  match templateFor? rules name with
  | none => return none
  | some template => return some (← Template.expand files template)

end Settings

namespace Session

/-- The part of a file name that the group named in the expression takes. -/
def extract (expression fileName : String) : Except TemplateError String :=
  match Regex.Pattern.compile false expression with
  | none => .error (.invalidPattern expression)
  | some pattern =>
    match pattern.captured? "extracted" fileName with
    | some extracted => .ok extracted
    | none => .error (.sourceMismatch fileName expression)

/-- Begin a file: forget the values and the context of the last one, take the
file name apart and make the name of the output file. The new context is in
place while that name is made. -/
def begin (files : Files) (fileName rootElement : String)
    (settings : Settings) : Step TemplateError Unit := do
  modify fun s => { s with memory := s.memory.forget }
  let sourceExtracted ← extract settings.sourceFilename fileName
  let file : FileContext :=
    { sourceFilename := fileName, rootElement, sourceExtracted }
  modify fun s => { s with memory := { s.memory with file := some file } }
  let output ← Template.expand files settings.outputFilename
  modify fun s =>
    { s with memory := { s.memory with
      file := some { file with outputFilename := some output } } }

end Session

end Specimen
