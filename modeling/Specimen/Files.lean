/-
Files and the paths that lead to them.  What reading a path gives is a function
of the path, for relative and absolute paths alike; one such function reads from
a snapshot of the files under the working directory.
-/
import Specimen.Text.Blank

namespace Specimen

/-- Why a file cannot be read. -/
inductive ReadError where
  | notFound
  | isDirectory
  | notDirectory
  | nulInPath
  | other (reason : String)
deriving Repr, DecidableEq

def ReadError.message : ReadError → String
  | notFound => "No such file or directory (os error 2)"
  | isDirectory => "Is a directory (os error 21)"
  | notDirectory => "Not a directory (os error 20)"
  | nulInPath => "file name contained an unexpected NUL byte"
  | other reason => reason

/-- The files that can be read: the text behind each path, or why there is
none.  By default there are no files. -/
structure Files where
  read : String → Except ReadError String := fun _ => .error .notFound

namespace Files

/-- The steps of a path, without those that stay where they are. -/
def steps (path : String) : List String :=
  (path.toList.splitOn '/').filterMap fun step =>
    if step = [] ∨ step = ['.'] then none else some (String.ofList step)

/-- The last name in a path. A path that ends in a step upward has none. -/
def fileName? (path : String) : Option String :=
  (steps path).getLast?.filter (· ≠ "..")

end Files

/-- The files under the working directory: the path of each, name by name, and
its text.  Of what lies outside that directory it is only known that there are
directories above it. -/
structure Snapshot where
  entries : List (List String × String)

namespace Snapshot

def textAt? (files : Snapshot) (place : List String) : Option String :=
  (files.entries.find? fun entry => entry.1 == place).map (·.2)

/-- The place is a directory: some file lies below it. -/
def isDirectory (files : Snapshot) (place : List String) : Bool :=
  files.entries.any fun entry =>
    place.isPrefixOf entry.1 && place.length < entry.1.length

/-- Where a walk has come: to a directory of the snapshot, or out of it. -/
inductive Location where
  | inside (directory : List String)
  | outside
deriving Repr, DecidableEq

/-- Walk the steps of a path. A path with a slash behind its last step asks for
a directory. -/
def walk (files : Snapshot) (slashed : Bool) :
    Location → List String → Except ReadError String
  | _, [] => .error .isDirectory
  | .outside, step :: rest =>
    if step = ".." then files.walk slashed .outside rest
    else .error .notFound
  | .inside directory, step :: rest =>
    if step = ".." then
      files.walk slashed
        (if directory.isEmpty then .outside else .inside directory.dropLast)
        rest
    else
      let place := directory ++ [step]
      match files.textAt? place with
      | some text =>
        if rest.isEmpty && !slashed then .ok text else .error .notDirectory
      | none =>
        if files.isDirectory place then files.walk slashed (.inside place) rest
        else .error .notFound

def read (files : Snapshot) (path : String) : Except ReadError String :=
  let cs := path.toList
  if cs.contains '\x00' then .error .nulInPath
  else if cs.isEmpty then .error .notFound
  else
    let slashed := cs.getLast? == some '/' ||
      (Text.after "/." (cs.drop (cs.length - 2))).isSome
    files.walk slashed
      (if cs.head? = some '/' then .outside else .inside [])
      (Files.steps path)

end Snapshot

/-- The files with the given relative paths and texts, and no others. -/
def Files.ofPaths (named : List (String × String)) : Files where
  read := Snapshot.read ⟨named.map fun (path, text) => (steps path, text)⟩

end Specimen
