/-
Single draws from the random stream: numbers of a range, members of a list,
letters, bits and version 4 identifiers. `below` scales the next word to a range
by multiplication and corrects the bias with at most one more word; `fair`
rejects instead and has no bias.
-/
import Specimen.Random.Stream

namespace Specimen.Draw

/-- How much of the stream one scaled draw takes. -/
inductive Width where
  | word
  | double
deriving Repr, DecidableEq

/-- How many values a draw can have. -/
def Width.size : Width → Nat
  | .word => 0x100000000
  | .double => 0x10000000000000000

/-- The next bits as a number below `width.size`. -/
def raw : Width → Draw Nat
  | .word => return (← word).toNat
  | .double => return (← double).toNat

/-- A number below `range`, for `0 < range ≤ width.size`. The high half of draw
times range is the answer; when the low half is so large that a further draw
could carry into it, one is made. -/
def below (width : Width) (range : Nat) : Draw Nat := do
  let full := width.size
  let draw ← raw width
  if range = full then return draw
  let product := draw * range
  let answer := product / full
  let low := product % full
  if low > full - range then
    let extra := (← raw width) * range / full
    return if low + extra ≥ full then answer + 1 else answer
  else
    return answer

/-- A signed number between two bounds, which may come in either order. The
whole 64-bit range reads one double word as a signed number. -/
def integer (a b : Int) : Draw Int := do
  let low := min a b
  let range := (max a b - low + 1).toNat
  if range = Width.double.size then
    return Int.bmod (← raw .double) Width.double.size
  else
    return low + (← below .double range)

/-- A natural number between two bounds, which may come in either order. Bounds
that fit a word take a word. -/
def count (a b : Nat) : Draw Nat := do
  let low := min a b
  let high := max a b
  let width := if high ≥ Width.word.size then Width.double else Width.word
  return low + (← below width (high - low + 1))

/-- An index of a list with `size` members. -/
def index (size : Nat) : Draw Nat := below .word size

/-- A member of the list; the empty list has none and draws nothing. -/
def choose {α : Type} (options : List α) : Draw (Option α) :=
  if options.isEmpty then return none
  else return options[← index options.length]?

/-- A number of the interval from 0 to 1, 1 excluded, as a multiple of `2 ^
-53`. -/
def probability : Draw Float := do
  let bits ← double
  return (bits >>> 11).toFloat / 9007199254740992.0

def coin : Draw Bool := return (← double) < 0x8000000000000000

/-- The letter with the given index: the small letters, then the capital
letters. -/
def letterAt (i : Nat) : Char :=
  if i < 26 then Char.ofNat ('a'.toNat + i)
  else Char.ofNat ('A'.toNat + (i - 26))

/-- The results of `n` runs of a computation, in order. -/
def times {m : Type → Type} [Monad m] {α : Type} (act : m α) : Nat → m (List α)
  | 0 => return []
  | n + 1 => do
    let first ← act
    let rest ← times act n
    return first :: rest

/-- Letters whose number lies between the bounds. Without bounds there are 1 to
20; an upper bound below the lower one counts as missing, and no upper bound
takes the length past 50 unless the lower bound does. -/
def letters (minLength maxLength : Option Nat) : Draw String := do
  let least := minLength.getD 1
  let most := match maxLength with
    | some most => if most ≥ least then most else max least 20
    | none => max least 20
  let length ← count least (min most (max least 50))
  return String.ofList (← times (return letterAt (← index 52)) length)

/-- The two hexadecimal digits of a byte, letters small. -/
def hexByte (b : UInt8) : List Char :=
  [Nat.digitChar (b.toNat / 16), Nat.digitChar (b.toNat % 16)]

/-- A version 4 identifier: sixteen bytes with the version and the variant set,
written in groups of 4, 2, 2, 2 and 6 bytes. -/
def uuid : Draw String := do
  let drawn ← bytes 16
  let marked :=
    (drawn.modify 6 fun b => (b &&& 0x0f) ||| 0x40).modify 8 fun b =>
      (b &&& 0x3f) ||| 0x80
  let group (start : Nat) (size : Nat) : List Char :=
    ((marked.drop start).take size).flatMap hexByte
  return String.ofList
    (group 0 4 ++ ['-'] ++ group 4 2 ++ ['-'] ++ group 6 2 ++ ['-'] ++
      group 8 2 ++ ['-'] ++ group 10 6)

/-- How often a fair draw is repeated at most. The chance that one attempt is
rejected is below `range / Width.word.size`. -/
def fairAttempts : Nat := 64

/-- A number below `range` without bias: a product whose low half falls into the
incomplete part is drawn anew. -/
def fair (range : Nat) : Draw Nat := attempt fairAttempts
where
  /-- One attempt, followed by at most `left` more. -/
  attempt (left : Nat) : Draw Nat := do
    let product := (← word).toNat * range
    match left with
    | 0 => return product / Width.word.size
    | left + 1 =>
      if product % Width.word.size ≥ (Width.word.size - range) % range then
        return product / Width.word.size
      else attempt left

end Specimen.Draw
