/-
Sets of characters as ranges of code points. Made with `ofRanges`, the ranges
rise, do not touch and leave out the surrogates, so that equal sets have equal
ranges.
-/
import Specimen.Number
import Specimen.Text.Classes
import Specimen.Text.CodePoint
import Specimen.Text.Folding

namespace Specimen.Regex

structure CharSet where
  ranges : List (Nat × Nat)
deriving Repr, DecidableEq

namespace CharSet

def contains (s : CharSet) (c : Char) : Bool :=
  s.ranges.any fun (low, high) => low ≤ c.toNat && c.toNat ≤ high

def containsCode (s : CharSet) (n : Nat) : Bool :=
  s.ranges.any fun (low, high) => low ≤ n && n ≤ high

/-- The parts of a range on both sides of the surrogates. -/
def aroundSurrogates (low high : Nat) : List (Nat × Nat) :=
  [(low, min high 0xD7FF), (max low 0xE000, min high 0x10FFFF)].filter
    fun (a, b) => a ≤ b

/-- Join a range with those that follow it in rising order where they meet. -/
def joinFrom (low high : Nat) : List (Nat × Nat) → List (Nat × Nat)
  | [] => [(low, high)]
  | (a, b) :: rest =>
    if a ≤ high + 1 then joinFrom low (max high b) rest
    else (low, high) :: joinFrom a b rest

/-- The set of the characters in some ranges, given in any order. -/
def ofRanges (ranges : List (Nat × Nat)) : CharSet :=
  let parts := ranges.flatMap fun (low, high) => aroundSurrogates low high
  match parts.mergeSort (fun a b => a.1 ≤ b.1) with
  | [] => ⟨[]⟩
  | (low, high) :: rest => ⟨joinFrom low high rest⟩

def empty : CharSet := ⟨[]⟩

def ofChars (cs : List Char) : CharSet :=
  ofRanges (cs.map fun c => (c.toNat, c.toNat))

def range (low high : Char) : CharSet := ofRanges [(low.toNat, high.toNat)]

def union (s t : CharSet) : CharSet := ofRanges (s.ranges ++ t.ranges)

/-- The gaps between rising ranges from a code point on. -/
def gapsFrom (start : Nat) : List (Nat × Nat) → List (Nat × Nat)
  | [] => [(start, 0x10FFFF)]
  | (low, high) :: rest =>
    if start < low then (start, low - 1) :: gapsFrom (high + 1) rest
    else gapsFrom (high + 1) rest

def complement (s : CharSet) : CharSet := ofRanges (gapsFrom 0 s.ranges)

def inter (s t : CharSet) : CharSet :=
  (s.complement.union t.complement).complement

def diff (s t : CharSet) : CharSet := s.inter t.complement

def symmDiff (s t : CharSet) : CharSet := (s.union t).diff (s.inter t)

def size (s : CharSet) : Nat :=
  Number.total (s.ranges.map fun (low, high) => high + 1 - low)

/-- The member with the given index in rising order. -/
def member? (s : CharSet) (i : Nat) : Option Char := go i s.ranges
where
  /-- The member in the ranges that are left. -/
  go (i : Nat) : List (Nat × Nat) → Option Char
    | [] => none
    | (low, high) :: rest =>
      if i < high + 1 - low then Text.charOfCode? (low + i)
      else go (i - (high + 1 - low)) rest

def single? (s : CharSet) : Option Char :=
  if s.size = 1 then s.member? 0 else none

/-- The members, and all characters that differ from a member in case only. -/
def caseless (s : CharSet) : CharSet :=
  let folded := s.union (ofRanges (Text.foldPairs.filterMap fun (c, f) =>
    if s.containsCode c then some (f, f) else none))
  folded.union (ofRanges (Text.foldPairs.filterMap fun (c, f) =>
    if folded.containsCode f then some (c, c) else none))

def all : CharSet := ofRanges [(0, 0x10FFFF)]

def blanks : CharSet :=
  ofRanges [(0x9, 0xD), (0x20, 0x20), (0x85, 0x85), (0xA0, 0xA0),
    (0x1680, 0x1680),
    (0x2000, 0x200A), (0x2028, 0x2029), (0x202F, 0x202F), (0x205F, 0x205F),
      (0x3000, 0x3000)]

def digits : CharSet := ofRanges Text.digitRanges

def words : CharSet := ofRanges Text.wordRanges

/-- The members that are ASCII characters. -/
def ascii : CharSet := ofRanges [(0, 0x7F)]

end CharSet

end Specimen.Regex
