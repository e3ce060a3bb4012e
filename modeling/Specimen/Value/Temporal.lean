/-
Random dates and times. Every kind is laid out on whole numbers (days, seconds,
months, years), so that bounds apply to it as they do to numbers.
-/
import Specimen.Bounds
import Specimen.Calendar.Date
import Specimen.Random.Draws
import Specimen.Schema.Builtin

namespace Specimen.Value

/-- How a kind is laid out on whole numbers: reading and writing, and the range
where no facet bounds it. -/
structure Layout where
  read : List Char → Option Int
  write : Int → Option (List Char)
  first : Int
  last : Int

namespace Layout

open Calendar (Date)

/-- The first year where no facet bounds a value. -/
def firstYear : Int := 2000

def lastYear : Int := 2050

/-- The first day where no facet bounds a value. -/
def firstDay : Int := (Date.mk firstYear 1 1).dayNumber

def lastDay : Int := (Date.mk lastYear 12 31).dayNumber

/-- Dates, by day number. -/
def date : Layout where
  read s := (Calendar.readDate s).map Date.dayNumber
  write n := (Date.ofDayNumber? n).map Date.write
  first := firstDay
  last := lastDay

def beforePoint (s : List Char) : List Char := s.takeWhile (· != '.')

/-- Instants, by seconds from the start of 1970. Fractions of a second are cut
off. -/
def dateTime : Layout where
  read s := Calendar.readInstant (beforePoint s)
  write := Calendar.writeInstant?
  first := (firstDay - Calendar.epochDay) * Calendar.daySeconds
  last := (lastDay - Calendar.epochDay) * Calendar.daySeconds + 86399

/-- Times of day, by seconds since midnight. Fractions of a second are cut off.
-/
def time : Layout where
  read s := Calendar.readClock (beforePoint s)
  write n :=
    if 0 ≤ n ∧ n < 86400 then some (Calendar.writeClock n.toNat) else none
  first := 0
  last := 86399

/-- Months of years, by months since the start of year 0. -/
def yearMonth : Layout where
  read s := do
    let (year, month) ← Text.cutLast '-' s
    let year ← Decimal.readInt? year
    let month ← Decimal.readInt? month
    if 1 ≤ month ∧ month ≤ 12 then return year * 12 + month - 1 else none
  write n :=
    some (Decimal.padded 4 (n / 12) ++ '-' :: Decimal.padded 2 (n % 12 + 1))
  first := firstYear * 12
  last := lastYear * 12 + 11

def year : Layout where
  read := Decimal.readInt?
  write n := some (Decimal.padded 4 n)
  first := firstYear
  last := lastYear

/-- The leap year that places days without a year. -/
def placingYear : Int := 2000

/-- Days of any year, by their place in a leap year. -/
def monthDay : Layout where
  read s := do
    let day ← Text.after "--" s
    let date ← Calendar.readDate (Decimal.ofInt placingYear ++ '-' :: day)
    return date.ordinal
  write n :=
    if n < 0 then none
    else
      (Date.ofOrdinal? placingYear n.toNat).map fun d =>
        '-' :: '-' :: Decimal.zeroPadded 2 d.month ++
          '-' :: Decimal.zeroPadded 2 d.day
  first := 1
  last := 366

/-- Days of any month. -/
def day : Layout where
  read s := (Text.after "---" s).bind Decimal.readInt?
  write n := some ('-' :: '-' :: '-' :: Decimal.padded 2 n)
  first := 1
  last := 31

/-- Months of any year. -/
def month : Layout where
  read s := (Text.after "--" s).bind Decimal.readInt?
  write n := some ('-' :: '-' :: Decimal.padded 2 n)
  first := 1
  last := 12

/-- The layout of a kind; kinds that are no dates or times have none. -/
def ofKind? : Kind → Option Layout
  | .date => some date
  | .dateTime => some dateTime
  | .time => some time
  | .gYearMonth => some yearMonth
  | .gYear => some year
  | .gMonthDay => some monthDay
  | .gDay => some day
  | .gMonth => some month
  | _ => none

end Layout

/-- The text before an offset from universal time: a sign and five bytes, the
third of them a colon. -/
def beforeOffset? (s : List Char) : Option (List Char) := do
  let (front, zone) ← Text.splitLastBytes? 6 s
  let (_, minutes) ← Text.splitLastBytes? 3 zone
  let signed := zone.head? == some '+' || zone.head? == some '-'
  if front ≠ [] ∧ signed ∧ minutes.head? = some ':' then return front else none

/-- The text without blanks at its ends and without a time zone: the letter Z,
or an offset. -/
def withoutZone (s : List Char) : List Char :=
  let s := Text.trim s
  if s.getLast? = some 'Z' then s.dropLast else (beforeOffset? s).getD s

/-- The bounds that facets set on a layout. A bound that cannot be read counts
as missing, and so does an excluded one at the end of the range of numbers. -/
def Layout.facetBounds (layout : Layout) (facets : Facets) : Bounds where
  lower := facets.lower.bind fun l =>
    (layout.read (withoutZone l.value.toList)).bind fun n =>
      if l.exclusive then Number.checked (n + 1) else some n
  upper := facets.upper.bind fun l =>
    (layout.read (withoutZone l.value.toList)).bind fun n =>
      if l.exclusive then Number.checked (n - 1) else some n

/-- The range that facets leave of a layout. Where one side is open it ends
where it does without facets, or at the other side if that lies beyond. -/
def Layout.range (layout : Layout) (facets : Facets) : Int × Int :=
  let b := Bounds.merge {} (layout.facetBounds facets) {}
  match b.lower, b.upper with
  | some low, some high => (low, high)
  | some low, none => (low, max layout.last low)
  | none, some high => (min layout.first high, high)
  | none, none => (layout.first, layout.last)

/-- A random value of a layout, if the number drawn can be written. -/
def Layout.draw (layout : Layout) (facets : Facets) : Draw (Option String) := do
  let (low, high) := layout.range facets
  return (layout.write (← Draw.integer low high)).map String.ofList

end Specimen.Value
