/-
What a run carries from step to step: the random stream, the values kept for the
file and for the run, what is known of the current file, and the warnings given
so far. A step that fails keeps the state it has reached.
-/
import Specimen.Template.Function

namespace Specimen

/-- A remark that does not stop the run. -/
inductive Warning where
  | longerThan (node value : String) (most : Nat)
  | shorterThan (node value : String) (least : Nat)
  | severalRoots (chosen : String) (others : List String)
deriving Repr, DecidableEq

namespace Warning

/-- A character between double quotes: quotes, backslashes and control
characters are escaped. -/
def escaped (c : Char) : List Char :=
  match c with
  | '"' => ['\\', '"']
  | '\\' => ['\\', '\\']
  | '\n' => ['\\', 'n']
  | '\r' => ['\\', 'r']
  | '\t' => ['\\', 't']
  | '\x00' => ['\\', '0']
  | c =>
    if c.toNat < 0x20 ∨ (0x7F ≤ c.toNat ∧ c.toNat < 0xA0) then
      "\\u\x7b".toList ++ Nat.toDigits 16 c.toNat ++ ['\x7d']
    else [c]

def quoted (name : String) : String :=
  String.ofList ('"' :: name.toList.flatMap escaped ++ ['"'])

def text : Warning → String
  | longerThan node value most =>
    "Possible mistake in schema: " ++ node ++ " generated value '" ++ value ++
      "' can't be longer than " ++ toString most
  | shorterThan node value least =>
    "Possible mistake in schema: " ++ node ++ " generated value '" ++ value ++
      "' can't be shorter than " ++ toString least
  | severalRoots chosen others =>
    "Multiple independent (root) elements found, using '" ++ chosen ++
      "' and ignoring [" ++ String.intercalate ", " (others.map quoted) ++ "]"

end Warning

/-- The values kept under the names of functions, and the file context. -/
structure Memory where
  fileValues : List (String × String) := []
  runValues : List (String × String) := []
  file : Option FileContext := none
deriving Repr, DecidableEq

namespace Memory

def find? (m : Memory) (scope : Scope) (function : String) : Option String :=
  match scope with
  | .file => m.fileValues.lookup function
  | .run => m.runValues.lookup function

def keep (m : Memory) (scope : Scope) (function value : String) : Memory :=
  match scope with
  | .file => { m with fileValues := (function, value) :: m.fileValues }
  | .run => { m with runValues := (function, value) :: m.runValues }

/-- The memory at the start of a file: only the values of the run are left. -/
def forget (m : Memory) : Memory := { runValues := m.runValues }

end Memory

/-- The state of a run. -/
structure Session where
  seed : UInt64
  stream : Stream
  memory : Memory := {}
  warnings : List Warning := []

/-- A step that may fail; the state survives the failure. -/
abbrev Step (ε : Type) := ExceptT ε (StateM Session)

namespace Session

def ofSeed (seed : UInt64) : Session := { seed, stream := Stream.ofSeed seed }

def outputFilename? (s : Session) : Option String :=
  s.memory.file.bind (·.outputFilename)

def warn (s : Session) (w : Warning) : Session :=
  { s with warnings := s.warnings ++ [w] }

end Session

namespace Step

def draw {ε α : Type} (d : Draw α) : Step ε α := fun s =>
  let (a, stream) := d s.stream
  (.ok a, { s with stream })

/-- Draw from the stream of the run with a computation that may fail. -/
def attempt {ε α : Type} (d : ExceptT ε Draw α) : Step ε α := fun s =>
  let (result, stream) := d s.stream
  (result, { s with stream })

def warn {ε : Type} (w : Warning) : Step ε Unit := fun s => (.ok (), s.warn w)

end Step

end Specimen
