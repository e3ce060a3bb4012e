/-
Regular expressions as trees, and the language of a tree: the relation `Matches`
says which texts a part of a text may be, given what stands around it.
-/
import Specimen.Regex.CharSet
import Specimen.Text.Blank

namespace Specimen.Regex

/-- A place in a text: the character before it, if any, and the text behind it.
-/
structure Place where
  before : Option Char
  rest : List Char
deriving Repr, DecidableEq

/-- The edges of words that a place may be asked to lie at. -/
inductive Edge where
  | either
  | neither
  | start
  | stop
  | startHalf
  | stopHalf
deriving Repr, DecidableEq

/-- Conditions on a place. -/
inductive Look where
  | textStart
  | textEnd
  | lineStart (returns : Bool)
  | lineEnd (returns : Bool)
  | word (edge : Edge) (asciiOnly : Bool)
deriving Repr, DecidableEq

/-- What a group is known by: its number in the order of opening parentheses,
and perhaps a name. -/
structure Capture where
  index : Nat
  name : Option String
deriving Repr, DecidableEq

/-- A regular expression. A group without capture only holds its content
together. -/
inductive Pattern where
  | empty
  | text (cs : List Char)
  | chars (set : CharSet)
  | look (condition : Look)
  | repeated (least : Nat) (most : Option Nat) (greedy : Bool) (body : Pattern)
  | group (capture : Option Capture) (body : Pattern)
  | sequence (first second : Pattern)
  | choice (first second : Pattern)
deriving Repr, DecidableEq

namespace Look

def isWordChar (asciiOnly : Bool) (c : Char) : Bool :=
  if asciiOnly then c.isAlphanum || c == '_' else CharSet.words.contains c

/-- A word character stands before the place, and one stands behind it. -/
def wordSides (asciiOnly : Bool) (p : Place) : Bool × Bool :=
  (p.before.any (isWordChar asciiOnly), p.rest.head?.any (isWordChar asciiOnly))

/-- The condition holds at the place. With `returns` a carriage return ends a
line too, alone or together with the line feed behind it. -/
def holds (look : Look) (p : Place) : Bool :=
  match look with
  | textStart => p.before.isNone
  | textEnd => p.rest.isEmpty
  | lineStart false => p.before.isNone || p.before == some '\n'
  | lineStart true =>
    p.before.isNone || p.before == some '\n' ||
      (p.before == some '\r' && p.rest.head? != some '\n')
  | lineEnd false => p.rest.isEmpty || p.rest.head? == some '\n'
  | lineEnd true =>
    p.rest.isEmpty || p.rest.head? == some '\r' ||
      (p.rest.head? == some '\n' && p.before != some '\r')
  | word edge asciiOnly =>
    let (left, right) := wordSides asciiOnly p
    match edge with
    | .either => left != right
    | .neither => left == right
    | .start => !left && right
    | .stop => left && !right
    | .startHalf => !left
    | .stopHalf => !right

end Look

namespace Place

def skip (p : Place) : List Char → Place
  | [] => p
  | c :: cs => skip ⟨some c, p.rest.drop 1⟩ cs

end Place

namespace Pattern

mutual

/-- From the place `p`, where the text goes on with `w ++ rest`, the pattern may
take `w`. -/
inductive Matches : Pattern → Place → List Char → Prop
  | empty (p : Place) : Matches .empty p []
  | text (p : Place) (cs : List Char) : Matches (.text cs) p cs
  | chars (p : Place) {set : CharSet} {c : Char} (h : set.contains c) :
    Matches (.chars set) p [c]
  | look {p : Place} {condition : Look} (h : condition.holds p) :
    Matches (.look condition) p []
  | repeated {p : Place} {least n : Nat} {most : Option Nat} {greedy : Bool}
    {body : Pattern} {w : List Char} (hLeast : least ≤ n)
    (hMost : ∀ m ∈ most, n ≤ m) (h : MatchesTimes n body p w) :
    Matches (.repeated least most greedy body) p w
  | group {p : Place} {capture : Option Capture} {body : Pattern}
    {w : List Char} (h : Matches body p w) : Matches (.group capture body) p w
  | sequence {p : Place} {first second : Pattern} {u v : List Char}
    (hFirst : Matches first p u) (hSecond : Matches second (p.skip u) v) :
    Matches (.sequence first second) p (u ++ v)
  | inFirst {p : Place} {first second : Pattern} {w : List Char}
    (h : Matches first p w) : Matches (.choice first second) p w
  | inSecond {p : Place} {first second : Pattern} {w : List Char}
    (h : Matches second p w) : Matches (.choice first second) p w

/-- The pattern takes `w` in `n` parts, one behind the other. -/
inductive MatchesTimes : Nat → Pattern → Place → List Char → Prop
  | zero (body : Pattern) (p : Place) : MatchesTimes 0 body p []
  | succ {n : Nat} {body : Pattern} {p : Place} {u v : List Char}
    (hFirst : Matches body p u) (hRest : MatchesTimes n body (p.skip u) v) :
    MatchesTimes (n + 1) body p (u ++ v)

end

/-- The whole text belongs to the language of the pattern. -/
def Accepts (pattern : Pattern) (w : List Char) : Prop :=
  pattern.Matches ⟨none, w⟩ w

def items : Pattern → List Pattern
  | .empty => []
  | .sequence first second => first.items ++ second.items
  | p => [p]

def branches : Pattern → List Pattern
  | .choice first second => first.branches ++ second.branches
  | p => [p]

def ofItems : List Pattern → Pattern
  | [] => .empty
  | [p] => p
  | p :: rest => .sequence p (ofItems rest)

/-- The choice between some branches; none at all accepts nothing. -/
def ofBranches : List Pattern → Pattern
  | [] => .chars .empty
  | [p] => p
  | p :: rest => .choice p (ofBranches rest)

end Pattern

end Specimen.Regex
