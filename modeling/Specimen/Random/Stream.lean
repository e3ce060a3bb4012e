/-
The seeded stream of random words: an xorshift generator over four 32-bit words,
its seeding from one 64-bit number, and words, double words and bytes read from
it in order.
-/

namespace Specimen

/-- The state of the generator. -/
structure Stream where
  x : UInt32
  y : UInt32
  z : UInt32
  w : UInt32
deriving Repr, DecidableEq

/-- A computation that reads random words and leaves the stream behind them. -/
abbrev Draw := StateM Stream

namespace Stream

/-- One step of the congruential generator that spreads a seed. -/
def spread (seed : UInt64) : UInt64 :=
  seed * 6364136223846793005 + 11634580027462260723

/-- The word taken from one spread seed: its high bits, folded and rotated by
its top five. -/
def wordOf (seed : UInt64) : UInt32 :=
  let folded := (((seed >>> 18) ^^^ seed) >>> 27).toUInt32
  let turn := (seed >>> 59).toUInt32
  (folded >>> turn) ||| (folded <<< (32 - turn))

/-- The word that replaces every word of a state that is zero throughout, which
no step leaves. -/
def fallbackWord : UInt32 := 0x0BAD5EED

/-- The stream that belongs to a seed. -/
def ofSeed (seed : UInt64) : Stream :=
  let first := spread seed
  let second := spread first
  let third := spread second
  let fourth := spread third
  let stream : Stream :=
    ⟨wordOf first, wordOf second, wordOf third, wordOf fourth⟩
  if stream = ⟨0, 0, 0, 0⟩ then
    ⟨fallbackWord, fallbackWord, fallbackWord, fallbackWord⟩
  else stream

def next (s : Stream) : UInt32 × Stream :=
  let t := s.x ^^^ (s.x <<< 11)
  let w := s.w ^^^ (s.w >>> 19) ^^^ t ^^^ (t >>> 8)
  (w, ⟨s.y, s.z, s.w, w⟩)

end Stream

namespace Draw

/-- The next 32 bits. -/
def word : Draw UInt32 := fun s => s.next

/-- The next 64 bits, the low half first. -/
def double : Draw UInt64 := do
  let low ← word
  let high ← word
  return (high.toUInt64 <<< 32) ||| low.toUInt64

/-- The four bytes of a word, the lowest first. -/
def bytesOfWord (v : UInt32) : List UInt8 :=
  [v.toUInt8, (v >>> 8).toUInt8, (v >>> 16).toUInt8, (v >>> 24).toUInt8]

def bytesOfDouble (v : UInt64) : List UInt8 :=
  bytesOfWord v.toUInt32 ++ bytesOfWord (v >>> 32).toUInt32

/-- `n` bytes: whole double words first, then the start of one more double word
if more than four bytes are missing, or the start of one word if at most four
are. -/
def bytes : Nat → Draw (List UInt8)
  | 0 => return []
  | n + 8 => do
    let block ← double
    let rest ← bytes n
    return bytesOfDouble block ++ rest
  | n => do
    if n > 4 then
      return (bytesOfDouble (← double)).take n
    else
      return (bytesOfWord (← word)).take n

end Draw

end Specimen
