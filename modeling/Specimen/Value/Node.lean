/-
The value of one node. A rule of the settings goes first, then the enumeration,
then the patterns, and last the kind of the type.
-/
import Specimen.Template.Expansion
import Specimen.Value.Numeric
import Specimen.Value.Temporal

namespace Specimen

variable [Regex.Package]

/-- Why a node has no value. -/
inductive ValueError where
  | unsupportedKind (kind : Kind) (node : String)
  | noValue (kind : Kind) (node : String)
  | invalidPattern (pattern node : String) (reason : Regex.SampleError)
  | template (error : TemplateError)
deriving Repr, DecidableEq

namespace ValueError

def message : ValueError → String
  | unsupportedKind kind node =>
    "Unsupported type '" ++ kind.name ++ "' for '" ++ node ++ "'"
  | noValue kind node =>
    "Cannot generate '" ++ kind.name ++ "' value for '" ++ node ++ "'"
  | invalidPattern pattern node reason =>
    "Invalid pattern '" ++ pattern ++ "' for '" ++ node ++ "': " ++
      reason.message
  | template error => error.message

end ValueError

namespace Value

/-- The ASCII ranges that a class escape of the schema language stands for. -/
def escapeRanges? : Char → Option String
  | 'd' => some "0-9"
  | 'w' => some "A-Za-z0-9_"
  | 'i' => some "_:A-Za-z"
  | 'c' => some "\\-._:A-Za-z0-9"
  | _ => none

/-- A pattern of the schema language as an expression: its class escapes become
ASCII ranges, between brackets of their own where they stand outside a class.
`depth` counts the open brackets. -/
def expressionOf : Nat → List Char → List Char
  | _, [] => []
  | _, ['\\'] => ['\\']
  | depth, '\\' :: c :: rest =>
    match escapeRanges? c with
    | some ranges =>
      if depth > 0 then ranges.toList ++ expressionOf depth rest
      else '[' :: ranges.toList ++ ']' :: expressionOf depth rest
    | none => '\\' :: c :: expressionOf depth rest
  | depth, c :: rest =>
    if c = '[' then c :: expressionOf (depth + 1) rest
    else if c = ']' then c :: expressionOf (depth - 1) rest
    else c :: expressionOf depth rest

/-- The remarks on a value whose length the facets do not allow. -/
def lengthWarnings (node value : String) (facets : Facets) : List Warning :=
  let (least, most) := facets.lengthRange
  let length := value.length
  (most.toList.filter (length > ·)).map (.longerThan node value) ++
    (least.toList.filter (length < ·)).map (.shorterThan node value)

/-- A text of one of the patterns, with its runs of blanks shortened. -/
def ofPattern (node : String) (facets : Facets) : Step ValueError String := do
  let pattern := (← Step.draw (Draw.choose facets.patterns)).getD ""
  let expression := String.ofList (expressionOf 0 pattern.toList)
  let drawn ← Step.attempt
    (ExceptT.adapt (.invalidPattern pattern node) (Regex.sample expression))
  let value := String.ofList (Text.squeeze drawn.toList)
  (lengthWarnings node value facets).forM Step.warn
  return value

/-- Letters of a length that the facets allow. -/
def letters (facets : Facets) : Draw String :=
  Draw.letters facets.lengthRange.1 facets.lengthRange.2

/-- The greatest number of bytes where no facet gives one. -/
def usualBytes : Nat := 16

/-- Bytes of a number that the facets allow. An upper bound below the lower one
counts as missing. -/
def bytes (facets : Facets) : Draw (List UInt8) := do
  let least := facets.lengthRange.1.getD 1
  let most :=
    (facets.lengthRange.2.filter (least ≤ ·)).getD (max least usualBytes)
  Draw.bytes (← Draw.count least most)

/-- Bytes as pairs of hexadecimal digits, letters capital. -/
def hexadecimal (bytes : List UInt8) : String :=
  String.ofList ((bytes.flatMap Draw.hexByte).map Char.toUpper)

/-- The sign of a number below 64. -/
def base64Char (n : Nat) : Char :=
  if n < 26 then Char.ofNat ('A'.toNat + n)
  else if n < 52 then Char.ofNat ('a'.toNat + (n - 26))
  else if n < 62 then Char.ofNat ('0'.toNat + (n - 52))
  else if n = 62 then '+'
  else '/'

/-- Bytes in groups of three as four signs of six bits; equal signs fill the
last group. -/
def base64 : List UInt8 → List Char
  | [] => []
  | [a] =>
    let n := a.toNat * 16
    [base64Char (n / 64), base64Char (n % 64), '=', '=']
  | [a, b] =>
    let n := (a.toNat * 256 + b.toNat) * 4
    [base64Char (n / 4096), base64Char (n / 64 % 64), base64Char (n % 64), '=']
  | a :: b :: c :: rest =>
    let n := (a.toNat * 256 + b.toNat) * 256 + c.toNat
    base64Char (n / 262144) :: base64Char (n / 4096 % 64) ::
      base64Char (n / 64 % 64) :: base64Char (n % 64) :: base64 rest

/-- A duration of up to ten years, with every part below the next greater unit.
-/
def duration : Draw String := do
  let years ← Draw.integer 0 10
  let months ← Draw.integer 0 11
  let days ← Draw.integer 0 30
  let hours ← Draw.integer 0 23
  let minutes ← Draw.integer 0 59
  let seconds ← Draw.integer 0 59
  let part (n : Int) (unit : Char) : List Char := Decimal.ofInt n ++ [unit]
  return String.ofList
    ('P' :: part years 'Y' ++ part months 'M' ++ part days 'D' ++
      'T' :: part hours 'H' ++ part minutes 'M' ++ part seconds 'S')

/-- An address on a host with small letters. -/
def address : Draw String := do
  let host ← Draw.letters (some 3) (some 12)
  let domain ← Draw.choose ["com", "org", "net", "io", "ru"]
  let path ← Draw.letters (some 1) (some 12)
  return "https://" ++ Text.lowercase host ++ "." ++ domain.getD "com" ++ "/" ++
    Text.lowercase path

def truth : Draw String := return if (← Draw.coin) then "true" else "false"

/-- A date or time, if the number drawn for it can be written. -/
def temporal (kind : Kind) (node : String) (facets : Facets) :
    Step ValueError String := do
  match Layout.ofKind? kind with
  | none => throw (.unsupportedKind kind node)
  | some layout =>
    match ← Step.draw (layout.draw facets) with
    | some value => return value
    | none => throw (.noValue kind node)

def ofKind (type : SimpleType) (node : String) (numbers : Bounds) :
    Step ValueError String :=
  let facets := type.facets
  match type.kind with
  | .string => Step.draw (letters facets)
  | .qName => Step.draw (letters facets)
  | .notationName => Step.draw (letters facets)
  | .boolean => Step.draw truth
  | .integer => Step.draw (whole facets numbers)
  | .decimal => Step.draw (decimal facets numbers)
  | .float => Step.draw (floating facets numbers)
  | .double => Step.draw (floating facets numbers)
  | .duration => Step.draw duration
  | .hexBinary => do return hexadecimal (← Step.draw (bytes facets))
  | .base64Binary => do
    return String.ofList (base64 (← Step.draw (bytes facets)))
  | .anyURI => Step.draw address
  | kind => temporal kind node facets

def ofType (type : SimpleType) (node : String) (settings : Settings)
    (files : Files) : Step ValueError String := do
  match ← ExceptT.adapt ValueError.template
    (Settings.ruledValue files settings.rules node) with
  | some value => return value
  | none =>
    match ← Step.draw (Draw.choose type.facets.enumeration) with
    | some value => return value
    | none =>
      if type.facets.patterns.isEmpty then ofKind type node settings.numbers
      else ofPattern node type.facets

/-- The value of a node; complex types have none. -/
def ofType? (type : Option SimpleType) (node : String) (settings : Settings)
    (files : Files) : Step ValueError (Option String) :=
  match type with
  | none => return none
  | some type => return some (← ofType type node settings files)

end Value

end Specimen
