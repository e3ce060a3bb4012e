/-
The functions that templates can call, and their values: words about the current
file, members of lists, texts of patterns, identifiers, numbers, dates, and
invented records.
-/
import Specimen.Calendar.Date
import Specimen.Files
import Specimen.Locale.Records
import Specimen.Regex.Sample
import Specimen.Registration
import Specimen.Template.Arguments
import Specimen.Template.Placeholder

namespace Specimen

/-- What is known of the schema file in work. -/
structure FileContext where
  sourceFilename : String
  rootElement : String
  sourceExtracted : String
  outputFilename : Option String := none
deriving Repr, DecidableEq

/-- Why a template has no value. -/
inductive TemplateError where
  | malformed (error : MalformedTemplate)
  | unknownFunction (name : String)
  | invalidArguments (function arguments : String)
  | unsupportedLocale (tag : String)
  | unreadable (path : String) (reason : ReadError)
  | invalidPattern (pattern : String)
  | sourceMismatch (fileName pattern : String)
  | unavailable (word : String)
deriving Repr, DecidableEq

namespace TemplateError

def message : TemplateError → String
  | malformed error => error.message
  | unknownFunction name => "Unknown function " ++ name
  | invalidArguments function arguments =>
    "Invalid arguments for function '" ++ function ++ "': " ++ arguments
  | unsupportedLocale tag => "Unsupported locale '" ++ tag ++ "'"
  | unreadable path reason =>
    "Failed to read '" ++ path ++ "': " ++ reason.message
  | invalidPattern pattern =>
    "Invalid pattern '" ++ pattern ++ "': " ++
      Regex.SampleError.malformed.message
  | sourceMismatch fileName pattern =>
    "Source file name '" ++ fileName ++ "' does not match pattern '" ++
      pattern ++ "'"
  | unavailable word =>
    "'" ++ word ++ "' is not available in the current context"

end TemplateError

/-- The functions of templates. -/
inductive Function where
  | detail (detail : Detail)
  | rootElement
  | sourceFilename
  | sourceExtracted
  | outputFilename
  | any
  | anyFrom
  | regex
  | uuid
  | number
  | date
  | registration (kind : Registration.Kind)
deriving Repr, DecidableEq

namespace Function

def ofName? (name : String) : Option Function :=
  match Detail.ofFunctionName? name with
  | some d => some (detail d)
  | none =>
    match name with
    | "root_element" => some rootElement
    | "source_filename" => some sourceFilename
    | "source_extracted" => some sourceExtracted
    | "output_filename" => some outputFilename
    | "any" => some any
    | "any_from" => some anyFrom
    | "regex" => some regex
    | "uuid" => some uuid
    | "number" => some number
    | "date" => some date
    | "inn_fl" => some (registration .personTaxpayer)
    | "inn_ul" => some (registration .companyTaxpayer)
    | "ogrn_ip" => some (registration .traderRegister)
    | "ogrn_fl" => some (registration .companyRegister)
    | "kpp" => some (registration .reasonCode)
    | "snils_formatted" => some (registration .insurance)
    | _ => none

/-- The locale that an argument names; blank stands for the first one. -/
def localeOf (argument : List Char) : Except TemplateError Locale :=
  let tag := String.ofList (Arguments.unquote argument)
  if tag = "" then .ok .enUs
  else
    match Locale.ofTag? tag with
    | some locale => .ok locale
    | none => .error (.unsupportedLocale tag)

def fileWord (file : Option FileContext) (word : String)
    (get : FileContext → Option String) : Except TemplateError String :=
  match file.bind get with
  | some text => .ok text
  | none => .error (.unavailable word)

/-- The lines of a text that are not blank, without the blanks at their ends. -/
def linesOf (text : String) : List String :=
  ((Text.lines text.toList).map Text.trim).filterMap fun line =>
    if line.isEmpty then none else some (String.ofList line)

/-- A date between two dates, which may come in either order. -/
def drawDate (a b : Calendar.Date) : Draw String := do
  let first := min a.dayNumber b.dayNumber
  let span := max a.dayNumber b.dayNumber - first
  let offset ← Draw.below .double (span.toNat + 1)
  let date := (Calendar.Date.ofDayNumber? (first + offset)).getD b
  return String.ofList date.writeCompact

/-- The value of a function. `name` is the name it was called by and `argument`
the text between its parentheses. -/
def value [Regex.Package] (function : Function) (name : String)
    (argument : Option String) (files : Files) (file : Option FileContext) :
    ExceptT TemplateError Draw String := do
  let text := (argument.getD "").toList
  let refused := TemplateError.invalidArguments name (argument.getD "")
  match function with
  | detail d =>
    let locale ← localeOf text
    d.draw locale
  | rootElement => fileWord file "root_element" fun f => some f.rootElement
  | sourceFilename =>
    fileWord file "source_filename" fun f => some f.sourceFilename
  | sourceExtracted =>
    fileWord file "source_extracted" fun f => some f.sourceExtracted
  | outputFilename => fileWord file "output_filename" fun f => f.outputFilename
  | any =>
    match ← Draw.choose (Arguments.split text) with
    | some option => return option
    | none => throw refused
  | anyFrom =>
    let path := String.ofList (Arguments.unquote text)
    match files.read path with
    | .error reason => throw (.unreadable path reason)
    | .ok content =>
      match ← Draw.choose (linesOf content) with
      | some line => return line
      | none => throw refused
  | regex =>
    ExceptT.adapt (fun _ => refused)
      (Regex.sample (String.ofList (Arguments.unquote text)))
  | uuid => Draw.uuid
  | number =>
    match (Arguments.split text).map fun s => Decimal.readInt? s.toList with
    | [some low, some high] =>
      return String.ofList (Decimal.ofInt (← Draw.integer low high))
    | _ => throw refused
  | date =>
    match (Arguments.split text).map fun s => Calendar.readDate s.toList with
    | [some first, some last] => drawDate first last
    | _ => throw refused
  | registration kind => Registration.draw kind

end Function

end Specimen
