/-
The normal form of a pattern: sequences without empty items and with joined
texts, choices without nested choices whose branches are not all single
characters or classes and have no common beginning, and no repetition that is
trivial. Groups with a capture stay as they are.
-/
import Specimen.Regex.Pattern

namespace Specimen.Regex.Pattern

/-- A class; one with a single member is a text. -/
def ofSet (set : CharSet) : Pattern :=
  match set.single? with
  | some c => .text [c]
  | none => .chars set

/-- Texts that follow one another are one text. -/
def joinTexts : List Pattern → List Pattern
  | [] => []
  | p :: rest =>
    match p, joinTexts rest with
    | .text u, .text v :: others => .text (u ++ v) :: others
    | p, others => p :: others

/-- The sequence of some patterns in normal form. -/
def concat (ps : List Pattern) : Pattern :=
  ofItems (joinTexts (ps.flatMap items))

def singleChar? : Pattern → Option Char
  | .text [c] => some c
  | _ => none

def set? : Pattern → Option CharSet
  | .chars set => some set
  | _ => none

/-- The class that a choice between single characters, or between classes,
amounts to. -/
def mergedClass? (branches : List Pattern) : Option Pattern :=
  match branches.mapM singleChar? with
  | some cs => some (ofSet (.ofChars cs))
  | none => (branches.mapM set?).map fun sets =>
    ofSet (sets.foldl CharSet.union .empty)

def commonStart : List Pattern → List Pattern → List Pattern
  | p :: ps, q :: qs => if p = q then p :: commonStart ps qs else []
  | _, _ => []

def isSequence : Pattern → Bool
  | .sequence _ _ => true
  | _ => false

/-- The choice between branches in normal form that are no choices themselves.
-/
def mergedChoice (branches : List Pattern) : Pattern :=
  (mergedClass? branches).getD (ofBranches branches)

/-- The items that all branches begin with, if all are sequences. -/
def sharedStart : List Pattern → List Pattern
  | [] => []
  | first :: others =>
    if first.isSequence && others.all isSequence then
      others.foldl (fun start q => commonStart start q.items) first.items
    else []

/-- The choice between some patterns in normal form. -/
def alternatives (ps : List Pattern) : Pattern :=
  match ps.flatMap branches with
  | [p] => p
  | all =>
    match mergedClass? all with
    | some p => p
    | none =>
      match sharedStart all with
      | [] => ofBranches all
      | start =>
        let ends := all.map fun p => concat (p.items.drop start.length)
        concat (start ++ [mergedChoice (ends.flatMap branches)])

/-- The pattern can only take the empty text. -/
def takesNothing : Pattern → Bool
  | .empty => true
  | .text cs => cs.isEmpty
  | .chars _ => false
  | .look _ => true
  | .repeated _ most _ body => most == some 0 || body.takesNothing
  | .group _ body => body.takesNothing
  | .sequence first second => first.takesNothing && second.takesNothing
  | .choice first second => first.takesNothing && second.takesNothing

/-- The repetition of a pattern in normal form. What takes nothing is taken at
most once. -/
def repetition (least : Nat) (most : Option Nat) (greedy : Bool)
    (body : Pattern) : Pattern :=
  let (least, most) :=
    if body.takesNothing then (min least 1, some (min (most.getD 1) 1))
    else (least, most)
  if most = some 0 then .empty
  else if least = 1 ∧ most = some 1 then body
  else .repeated least most greedy body

/-- The branches of a pattern, each in normal form. -/
def normalBranches : Pattern → List Pattern
  | .empty => [.empty]
  | .text cs => [if cs.isEmpty then .empty else .text cs]
  | .chars set => [ofSet set]
  | .look condition => [.look condition]
  | .repeated least most greedy body =>
    [repetition least most greedy (alternatives body.normalBranches)]
  | .group none body => [alternatives body.normalBranches]
  | .group (some capture) body =>
    [.group (some capture) (alternatives body.normalBranches)]
  | .sequence first second =>
    [concat [alternatives first.normalBranches,
      alternatives second.normalBranches]]
  | .choice first second => first.normalBranches ++ second.normalBranches

def normal (p : Pattern) : Pattern := alternatives p.normalBranches

end Specimen.Regex.Pattern
