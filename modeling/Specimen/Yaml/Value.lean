/-
What the nodes of a YAML document mean: nothing, truth values, numbers, texts,
and collections. Plain scalars mean what they look like; all others are texts.
-/
import Specimen.Number.Binary64
import Specimen.Text.CodePoint
import Specimen.Yaml.Node

namespace Specimen.Yaml

namespace Plain

/-- The text means nothing. -/
def isNull (s : String) : Bool := ["null", "Null", "NULL", "~"].contains s

def truth? (s : String) : Option Bool :=
  if ["true", "True", "TRUE"].contains s then some true
  else if ["false", "False", "FALSE"].contains s then some false
  else none

/-- The digits begin with a zero that is not the only one. Such a text is no
number. -/
def hasLeadingZero (s : List Char) : Bool :=
  let digits := match s with
    | '-' :: rest => rest
    | '+' :: rest => rest
    | _ => s
  match digits with
  | '0' :: rest => !rest.isEmpty && rest.all Char.isDigit
  | _ => false

/-- The number that digits of a base give, if there are any. -/
def magnitude? (base : Nat) (digits : List Char) : Option Nat := do
  let values ← digits.mapM Text.hexValue?
  if values.isEmpty || values.any (base ≤ ·) then none
  else return values.foldl (fun n v => n * base + v) 0

/-- A number without sign: in decimal, or in the base that its first two
characters name. -/
def unsigned? : List Char → Option Nat
  | '0' :: 'x' :: digits => magnitude? 16 digits
  | '0' :: 'o' :: digits => magnitude? 8 digits
  | '0' :: 'b' :: digits => magnitude? 2 digits
  | s => if hasLeadingZero s then none else magnitude? 10 s

/-- A whole number that is not written with a minus sign. -/
def natural? (s : List Char) : Option Nat :=
  match s with
  | '+' :: rest => unsigned? rest
  | _ => unsigned? s

/-- A whole number with an optional sign. -/
def integer? (s : List Char) : Option Int :=
  match s with
  | '-' :: rest => (unsigned? rest).map fun n => -(n : Int)
  | _ => (natural? s).map Int.ofNat

/-- A number with a fraction or an exponent, or an infinity, or what is no
number. -/
def float? (s : List Char) : Option Float :=
  let text := String.ofList s
  if [".inf", ".Inf", ".INF", "+.inf", "+.Inf", "+.INF"].contains text then
    some (Float.ofBits (UInt64.ofNat Binary64.infinityBits))
  else if ["-.inf", "-.Inf", "-.INF"].contains text then
    let bits := Binary64.infinityBits + Binary64.signBit
    some (Float.ofBits (UInt64.ofNat bits))
  else if [".nan", ".NaN", ".NAN"].contains text then
    some (Float.ofBits (UInt64.ofNat (Binary64.infinityBits + 0x8000000000000)))
  else (Binary64.read? s).filter (!·.isInf)

end Plain

/-- The meaning of a node. -/
inductive Value where
  | null
  | truth (b : Bool)
  | integer (n : Int)
  | float (x : Float)
  | text (s : String)
  | sequence (items : List Value)
  | mapping (entries : List (Value × Value))
  | tagged (value : Value)

namespace Value

def isRepresentable (n : Int) : Bool :=
  Number.least ≤ n && n < 0x10000000000000000

/-- The whole numbers of 128 bits that are refused. Those beyond are floats. -/
def isRefused (n : Int) : Bool :=
  !isRepresentable n && -0x80000000000000000000000000000000 ≤ n &&
    n < 0x100000000000000000000000000000000

def ofPlain? (s : String) : Option Value :=
  let cs := s.toList
  if s = "" ∨ Plain.isNull s then some .null
  else
    match Plain.truth? s, Plain.integer? cs with
    | some b, _ => some (.truth b)
    | none, some n =>
      if isRepresentable n then some (.integer n)
      else if isRefused n then none
      else some (((Plain.float? cs).map Value.float).getD (.text s))
    | none, none =>
      if Plain.hasLeadingZero cs then some (.text s)
      else some (((Plain.float? cs).map Value.float).getD (.text s))

/-- A tag that is known to one document only. -/
def isLocal (tag : String) : Bool := tag.toList.head? = some '!' && tag ≠ "!"

def ofTagged? (tag : String) (plain : Bool) (s : String) : Option Value :=
  match tag with
  | "tag:yaml.org,2002:bool" => (Plain.truth? s).map .truth
  | "tag:yaml.org,2002:int" => (Plain.integer? s.toList).bind fun n =>
      if isRepresentable n then some (.integer n) else none
  | "tag:yaml.org,2002:float" => (Plain.float? s.toList).map .float
  | "tag:yaml.org,2002:null" => if Plain.isNull s then some .null else none
  | _ =>
    let value :=
      if plain ∧ tag.toList.head? = some '!' then ofPlain? s else some (.text s)
    if isLocal tag then value.map .tagged else value

def sameKey : Value → Value → Bool
  | null, null => true
  | truth a, truth b => a == b
  | integer a, integer b => a == b
  | float a, float b => a == b || (a.isNaN && b.isNaN)
  | text a, text b => a == b
  | _, _ => false

def distinctKeys : List (Value × Value) → Bool
  | [] => true
  | (key, _) :: rest =>
    !(rest.any fun entry => sameKey key entry.1) && distinctKeys rest

/-- A value behind a tag. -/
def withTag (tag : Option String) (value : Value) : Value :=
  if tag.any isLocal then .tagged value else value

mutual

/-- The meaning of a node. Mappings with two entries of one key have none. -/
def ofNode? : Node → Option Value
  | .scalar none true s => ofPlain? s
  | .scalar none false s => some (.text s)
  | .scalar (some tag) plain s => ofTagged? tag plain s
  | .sequence tag items =>
    (ofNodes? items).map fun values => withTag tag (.sequence values)
  | .mapping tag entries => do
    let entries ← ofEntries? entries
    if distinctKeys entries then some (withTag tag (.mapping entries)) else none

def ofNodes? : List Node → Option (List Value)
  | [] => some []
  | node :: rest => do return (← ofNode? node) :: (← ofNodes? rest)

def ofEntries? : List (Node × Node) → Option (List (Value × Value))
  | [] => some []
  | (key, content) :: rest => do
    return (← ofNode? key, ← ofNode? content) :: (← ofEntries? rest)

end

def untagged : Value → Value
  | tagged value => value.untagged
  | value => value

/-- The text of a scalar, or nothing if there is none. Collections have no text.
-/
def scalarText? : Value → Option (Option String)
  | null => some none
  | truth b => some (some (if b then "true" else "false"))
  | integer n => some (some (String.ofList (Decimal.ofInt n)))
  | float x => some (some (Binary64.markedText x))
  | text s => some (some s)
  | _ => none

end Value

end Specimen.Yaml
