/-
Blank characters (the Unicode property White_Space), and the text that is left
when blanks are taken off its ends or runs of them are shortened. Texts are
measured in UTF-8 bytes.
-/

namespace Specimen.Text

/-- The character has the property White_Space. -/
def isBlank (c : Char) : Bool :=
  let n := c.toNat
  (0x9 ≤ n && n ≤ 0xD) || n == 0x20 || n == 0x85 || n == 0xA0 || n == 0x1680 ||
    (0x2000 ≤ n && n ≤ 0x200A) || n == 0x2028 || n == 0x2029 || n == 0x202F ||
    n == 0x205F || n == 0x3000

def byteLength : List Char → Nat
  | [] => 0
  | c :: rest => c.utf8Size + byteLength rest

@[simp] theorem byteLength_nil : byteLength [] = 0 := rfl

@[simp] theorem byteLength_cons (c : Char) (s : List Char) :
    byteLength (c :: s) = c.utf8Size + byteLength s := rfl

@[simp] theorem byteLength_append (s t : List Char) :
    byteLength (s ++ t) = byteLength s + byteLength t := by
  induction s with
  | nil => simp
  | cons c rest ih => simp [ih, Nat.add_assoc]

def trimStart (s : List Char) : List Char := s.dropWhile isBlank

def trimEnd (s : List Char) : List Char := (s.reverse.dropWhile isBlank).reverse

/-- The text without the blanks at its ends. -/
def trim (s : List Char) : List Char := trimEnd (trimStart s)

def trimmed (s : String) : String := String.ofList (trim s.toList)

/-- The number of bytes that the leading blanks take. -/
def indent (s : List Char) : Nat := byteLength (s.takeWhile isBlank)

/-- Every run of blanks becomes one space. -/
def squeeze : List Char → List Char
  | [] => []
  | c :: rest =>
    if isBlank c then
      match rest with
      | [] => [' ']
      | d :: _ => if isBlank d then squeeze rest else ' ' :: squeeze rest
    else c :: squeeze rest

/-- The text before the first mark and the text behind it. -/
def cut (mark : Char) : List Char → Option (List Char × List Char)
  | [] => none
  | c :: rest =>
    if c = mark then some ([], rest)
    else (cut mark rest).map fun (before, after) => (c :: before, after)

/-- The text before the last mark and the text behind it. -/
def cutLast (mark : Char) (s : List Char) : Option (List Char × List Char) :=
  (cut mark s.reverse).map fun (after, before) =>
    (before.reverse, after.reverse)

/-- The text behind a given beginning. -/
def after (start : String) (s : List Char) : Option (List Char) :=
  if start.toList.isPrefixOf s then some (s.drop start.length) else none

/-- Split a text so that the first part has the given number of bytes. -/
def splitBytes? : Nat → List Char → Option (List Char × List Char)
  | 0, s => some ([], s)
  | _ + 1, [] => none
  | n + 1, c :: rest =>
    if c.utf8Size ≤ n + 1 then
      (splitBytes? (n + 1 - c.utf8Size) rest).map fun (front, back) =>
        (c :: front, back)
    else none

/-- Split a text so that the second part has the given number of bytes. -/
def splitLastBytes? (size : Nat) (s : List Char) :
    Option (List Char × List Char) :=
  if size ≤ byteLength s then splitBytes? (byteLength s - size) s else none

/-- The lines of a text: each ends at a line feed, and a carriage return before
that goes with it. What follows the last line feed is a line if it is not empty.
-/
def lines (s : List Char) : List (List Char) :=
  let pieces := s.splitOn '\n'
  let ended := pieces.dropLast.map fun line =>
    match line.reverse with
    | '\r' :: rest => rest.reverse
    | _ => line
  match pieces.getLast? with
  | none | some [] => ended
  | some last => ended ++ [last]

/-- The capital letters of the Latin alphabet become small. -/
def lowercase (s : String) : String := s.map Char.toLower

end Specimen.Text
