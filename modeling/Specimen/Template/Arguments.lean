/-
The arguments of a template function: quotes around a value, and lists of values
between commas. In lists the text between a quote and the next equal one is kept
together.
-/
import Specimen.Text.Blank

namespace Specimen.Arguments

/-- The text between a pair of equal quotes at its ends. -/
def insideQuotes? (quote : Char) (s : List Char) : Option (List Char) :=
  match s with
  | c :: rest =>
    if c = quote ∧ rest.getLast? = some quote then some rest.dropLast else none
  | [] => none

/-- The text without the blanks at its ends and without one pair of quotes. -/
def unquote (s : List Char) : List Char :=
  let s := Text.trim s
  match insideQuotes? '\'' s with
  | some inner => inner
  | none => (insideQuotes? '"' s).getD s

/-- The quote that is open behind one more character. -/
def stepQuote (quote : Option Char) (c : Char) : Option Char :=
  match quote with
  | none => if c = '\'' || c = '"' then some c else none
  | some q => if c = q then none else some q

def extendFirst (c : Char) : List (List Char) → List (List Char)
  | first :: others => (c :: first) :: others
  | [] => [[c]]

/-- The pieces between the commas that stand outside quotes. -/
def splitAtCommas : Option Char → List Char → List (List Char)
  | _, [] => [[]]
  | quote, c :: rest =>
    if quote = none ∧ c = ',' then [] :: splitAtCommas none rest
    else extendFirst c (splitAtCommas (stepQuote quote c) rest)

/-- The values of an argument list; blank text has none. -/
def split (s : List Char) : List String :=
  if (Text.trim s).isEmpty then []
  else (splitAtCommas none s).map fun piece => String.ofList (unquote piece)

end Specimen.Arguments
