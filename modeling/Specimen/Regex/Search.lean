/-
Searching a text for a pattern. At each place the ends that a match may have are
listed in order of preference, each once; the first place with an end has the
match, and its first end is taken.
-/
import Specimen.Regex.Reader

namespace Specimen.Regex

/-- A place reached in a search, with what the named groups took on the way,
latest first. -/
structure Reached where
  place : Place
  captured : List (String × List Char)
deriving Repr, DecidableEq

namespace Reached

def left (r : Reached) : Nat := r.place.rest.length

/-- The reached places without those that lie where an earlier one lies. -/
def firsts (rs : List Reached) : List Reached := go [] rs
where
  /-- Drop the places that were seen. -/
  go (seen : List Nat) : List Reached → List Reached
    | [] => []
    | r :: rest =>
      if seen.contains r.left then go seen rest
      else r :: go (r.left :: seen) rest

/-- Record what a group took between two places. -/
def capture (capture : Option Capture) (start : Reached)
    (stop : Reached) : Reached :=
  match capture.bind Capture.name with
  | none => stop
  | some name =>
    { stop with
      captured := (name, start.place.rest.take (start.left - stop.left)) ::
        stop.captured }

end Reached

namespace Pattern

/-- One step from every place of a list, in order. -/
def stepAll (step : Reached → List Reached) (rs : List Reached) :
    List Reached :=
  Reached.firsts (rs.flatMap step)

/-- The ends of exactly `n` turns. -/
def turns (step : Reached → List Reached) : Nat → List Reached → List Reached
  | 0, rs => rs
  | n + 1, rs => turns step n (stepAll step rs)

/-- The ends of at most `n` turns from a place, those that use more turns first
if the repetition is greedy. A turn that takes nothing is the last. What was
listed before from the same place with as many turns left is not listed again;
`seen` keeps count of that. -/
def upTo (step : Reached → List Reached) (greedy : Bool) :
    Nat → List (Nat × Nat) → Reached → List Reached × List (Nat × Nat)
  | 0, seen, r => ([r], seen)
  | n + 1, seen, r =>
    if seen.contains (n, r.left) then ([], seen)
    else
      let (more, seen) := (step r).foldl (fun (found, seen) next =>
        if next.left < r.left then
          let (ends, seen) := upTo step greedy n seen next
          (found ++ ends, seen)
        else (found ++ [next], seen)) ([], (n, r.left) :: seen)
      (if greedy then more ++ [r] else r :: more, seen)

/-- The ends of the pattern from a place, in order of preference. -/
def ends : Pattern → Reached → List Reached
  | .empty, r => [r]
  | .text cs, r =>
    if cs.isPrefixOf r.place.rest then [{ r with place := r.place.skip cs }]
    else []
  | .chars set, r =>
    match r.place.rest with
    | c :: rest =>
      if set.contains c then [{ r with place := ⟨some c, rest⟩ }] else []
    | [] => []
  | .look condition, r => if condition.holds r.place then [r] else []
  | .repeated least most greedy body, r =>
    let step := fun r => body.ends r
    let begun := turns step (min least (r.left + 1)) [r]
    let extra := match most with
      | none => r.left + 1
      | some most => min (most - least) (r.left + 1)
    stepAll (fun r => (upTo step greedy extra [] r).1) begun
  | .group capture body, r => (body.ends r).map (Reached.capture capture r)
  | .sequence first second, r => stepAll (fun r => second.ends r) (first.ends r)
  | .choice first second, r => Reached.firsts (first.ends r ++ second.ends r)

/-- The preferred end of the leftmost match at or behind a place. -/
def searchFrom (p : Pattern) (before : Option Char) (rest : List Char) :
    Option Reached :=
  match (p.ends ⟨⟨before, rest⟩, []⟩).head? with
  | some found => some found
  | none =>
    match rest with
    | [] => none
    | c :: rest => p.searchFrom (some c) rest

/-- The preferred end of the leftmost match in a text. -/
def search (p : Pattern) (text : String) : Option Reached :=
  p.searchFrom none text.toList

/-- The pattern matches somewhere in the text. -/
def isFoundIn (p : Pattern) (text : String) : Bool := (p.search text).isSome

/-- What the group with the given name takes in the leftmost match. -/
def captured? (p : Pattern) (name text : String) : Option String := do
  let found ← p.search text
  let (_, taken) ← found.captured.find? fun entry => entry.1 == name
  return String.ofList taken

end Pattern

end Specimen.Regex
