/-
Dates of the proleptic Gregorian calendar: validity, the count of days since the
first day of year 1, and the reading and writing of dates in numeric form.
-/
import Specimen.Number.Decimal
import Specimen.Text.Blank

namespace Specimen.Calendar

/-- A leap year: divisible by four, and not by a hundred unless by four hundred.
-/
def isLeap (year : Int) : Bool :=
  year % 4 == 0 && (year % 100 != 0 || year % 400 == 0)

def monthLengths (year : Int) : List Nat :=
  [31, if isLeap year then 29 else 28, 31, 30, 31, 30, 31, 31, 30, 31, 30, 31]

def firstYear : Int := -262143

def lastYear : Int := 262142

/-- A date. Months and days count from 1. -/
structure Date where
  year : Int
  month : Nat
  day : Nat
deriving Repr, DecidableEq

namespace Date

/-- The date exists in the calendar and its year is covered. -/
def Valid (d : Date) : Prop :=
  firstYear ≤ d.year ∧ d.year ≤ lastYear ∧ 1 ≤ d.month ∧
    d.month ≤ 12 ∧ 1 ≤ d.day ∧
    d.day ≤ (monthLengths d.year).getD (d.month - 1) 0

instance (d : Date) : Decidable d.Valid := inferInstanceAs (Decidable (_ ∧ _))

/-- The place of the date in its year, from 1. -/
def ordinal (d : Date) : Nat :=
  Number.total ((monthLengths d.year).take (d.month - 1)) + d.day

/-- The number of days before the first of January of a year, from year 1 on. -/
def daysBefore (year : Int) : Int :=
  let y := year - 1
  365 * y + y / 4 - y / 100 + y / 400

/-- The number of the day; the first of January of year 1 has number 1. -/
def dayNumber (d : Date) : Int := daysBefore d.year + d.ordinal

/-- The month and the day that a place in the year falls on, given the lengths
of the months that are left and the number of the first of them. -/
def monthDay : List Nat → Nat → Nat → Option (Nat × Nat)
  | [], _, _ => none
  | length :: rest, month, place =>
    if place ≤ length then some (month, place)
    else monthDay rest (month + 1) (place - length)

/-- The date at a place of a year, from 1. -/
def ofOrdinal? (year : Int) (place : Nat) : Option Date :=
  if place = 0 then none
  else (monthDay (monthLengths year) 1 place).map fun (month, day) =>
    ⟨year, month, day⟩

/-- The year of a day: whole spans of 400, 100, 4 and 1 years are taken off in
turn; the last day of a span of 400 or 4 years stays in its last part. -/
def yearOfDay (number : Int) : Int :=
  let day := number - 1
  let era := day / 146097
  let inEra := day % 146097
  let century := min 3 (inEra / 36524)
  let inCentury := inEra - 36524 * century
  let cycle := inCentury / 1461
  let inCycle := inCentury - 1461 * cycle
  let year := min 3 (inCycle / 365)
  400 * era + 100 * century + 4 * cycle + year + 1

/-- The date of a day, if its year is covered. -/
def ofDayNumber? (number : Int) : Option Date :=
  let year := yearOfDay number
  if firstYear ≤ year ∧ year ≤ lastYear then
    ofOrdinal? year (number - daysBefore year).toNat
  else none

/-- The year as four digits, and with a sign outside the years from 0 to 9999.
-/
def writeYear (year : Int) : List Char :=
  if 0 ≤ year ∧ year ≤ 9999 then Decimal.zeroPadded 4 year.toNat
  else (if year < 0 then '-' else '+') :: Decimal.zeroPadded 4 year.natAbs

/-- Year, month and day with hyphens between them. -/
def write (d : Date) : List Char :=
  writeYear d.year ++ '-' :: Decimal.zeroPadded 2 d.month ++
    '-' :: Decimal.zeroPadded 2 d.day

def writeCompact (d : Date) : List Char :=
  writeYear d.year ++ Decimal.zeroPadded 2 d.month ++ Decimal.zeroPadded 2 d.day

end Date

/-- Read a number of at most `size` digits behind blanks; gives the number and
the rest. -/
def readField (size : Nat) (s : List Char) : Option (Nat × List Char) :=
  let s := Text.trimStart s
  let numeral := (s.take size).takeWhile Char.isDigit
  if numeral.isEmpty then none
  else some (Decimal.value numeral, s.drop numeral.length)

/-- Read a year behind blanks: up to four digits, or a sign and any number of
digits. -/
def readYear (s : List Char) : Option (Int × List Char) :=
  match Text.trimStart s with
  | '-' :: rest =>
    let numeral := rest.takeWhile Char.isDigit
    if numeral.isEmpty then none
    else some (-(Decimal.value numeral : Int), rest.dropWhile Char.isDigit)
  | '+' :: rest =>
    let numeral := rest.takeWhile Char.isDigit
    if numeral.isEmpty then none
    else some ((Decimal.value numeral : Int), rest.dropWhile Char.isDigit)
  | s => (readField 4 s).map fun (year, rest) => (Int.ofNat year, rest)

def readMark (mark : Char) : List Char → Option (List Char)
  | [] => none
  | c :: rest => if c = mark then some rest else none

/-- Read year, month and day with hyphens between them; gives the date, which
has to be valid, and the rest. -/
def readDatePart (s : List Char) : Option (Date × List Char) := do
  let (year, s) ← readYear s
  let s ← readMark '-' s
  let (month, s) ← readField 2 s
  let s ← readMark '-' s
  let (day, s) ← readField 2 s
  let date : Date := ⟨year, month, day⟩
  if date.Valid then return (date, s) else none

/-- Read a date that takes the whole text. -/
def readDate (s : List Char) : Option Date :=
  match readDatePart s with
  | some (date, []) => some date
  | _ => none

def daySeconds : Int := 86400

/-- Read hour, minute and second with colons between them as seconds since
midnight. The leap second 60 counts as 59. The text has to end there. -/
def readClock (s : List Char) : Option Int := do
  let (hour, s) ← readField 2 s
  let s ← readMark ':' s
  let (minute, s) ← readField 2 s
  let s ← readMark ':' s
  let (second, s) ← readField 2 s
  if s.isEmpty ∧ hour ≤ 23 ∧ minute ≤ 59 ∧ second ≤ 60 then
    return hour * 3600 + minute * 60 + min second 59
  else none

def writeClock (seconds : Nat) : List Char :=
  Decimal.zeroPadded 2 (seconds / 3600) ++
    ':' :: Decimal.zeroPadded 2 (seconds / 60 % 60) ++
    ':' :: Decimal.zeroPadded 2 (seconds % 60)

def epochDay : Int := 719163

/-- Read date and clock with the letter T between them as seconds since the
start of 1970. -/
def readInstant (s : List Char) : Option Int := do
  let (date, s) ← readDatePart s
  let s ← readMark 'T' s
  let seconds ← readClock s
  return (date.dayNumber - epochDay) * daySeconds + seconds

/-- Date and clock of an instant, with the letter T between them. -/
def writeInstant? (instant : Int) : Option (List Char) :=
  (Date.ofDayNumber? (instant / daySeconds + epochDay)).map fun date =>
    date.write ++ 'T' :: writeClock (instant % daySeconds).toNat

end Specimen.Calendar
