/-
What a regular expression package decides beyond the form of a text: the
properties of characters that can be asked for by name, and its limits on how
deep an expression nests and how large it gets when it is compiled.
-/
import Specimen.Regex.CharSet

namespace Specimen.Regex

class Package where
  /-- The ranges of code points that have a property, by the name that is asked
  for, if there is a property of that name. -/
  property : String → Option (List (Nat × Nat))
  /-- Groups, repetitions, sequences, choices and classes nest at most 250 deep
  in each other. -/
  shallow : String → Bool
  /-- The compiled expression, which tells small letters from capital ones or
  does not, keeps to ten megabytes. -/
  small (caseless : Bool) : String → Bool

namespace Package

/-- A name of a property without what makes no difference: case, blanks,
hyphens, underscores, and characters that are not ASCII. -/
def plainName (name : String) : String :=
  String.ofList ((name.toList.filter fun c =>
    c.toNat < 0x80 && c != ' ' && c != '-' && c != '_').map Char.toLower)

/-- A package with few properties, for expressions that stay within all
limits. -/
instance standard : Package where
  property name :=
    match plainName name with
    | "nd" | "decimalnumber" | "digit" => some CharSet.digits.ranges
    | "whitespace" | "space" | "wspace" => some CharSet.blanks.ranges
    | "any" => some CharSet.all.ranges
    | "ascii" => some CharSet.ascii.ranges
    | _ => none
  shallow _ := true
  small _ _ := true

end Package

end Specimen.Regex
