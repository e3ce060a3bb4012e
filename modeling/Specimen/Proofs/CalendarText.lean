/-
Dates and times of day as texts.  A text spells a date or a time by its fields,
with the digits that the forms prescribe; reading finds what is spelled, and
writing spells what is written.
-/
import Specimen.Proofs.CalendarDays
import Specimen.Proofs.DecimalLiteral

namespace Specimen

open Number (InRange)
open Decimal (isNumeral isNumeral_iff value zeroPadded padded Literal)

theorem Text.cutLast_append {mark : Char} {s t : List Char} (hmark : mark ∉ t) :
    Text.cutLast mark (s ++ mark :: t) = some (s, t) := by
  have hcut : Text.cut mark (s ++ mark :: t).reverse =
      some (t.reverse, s.reverse) := by
    simpa using Decimal.cut_append (mt List.mem_reverse.mp hmark) s.reverse
  rw [Text.cutLast, hcut]
  simp

namespace Decimal

theorem le_length_zeroPadded (width n : Nat) :
    width ≤ (zeroPadded width n).length := by
  simp only [zeroPadded, List.length_append, List.length_replicate]
  omega

theorem countP_isDigit {s : List Char} (hnumeral : isNumeral s) :
    s.countP Char.isDigit = s.length :=
  List.countP_eq_length.mpr (isNumeral_iff.mp hnumeral).2

/-- Behind a numeral that something else follows, its digits are told apart. -/
theorem takeWhile_isDigit {s rest : List Char} (hnumeral : isNumeral s)
    (hrest : ∀ c ∈ rest.head?, c.isDigit = false) :
    (s ++ rest).takeWhile Char.isDigit = s ∧
      (s ++ rest).dropWhile Char.isDigit = rest := by
  have hdigits := (isNumeral_iff.mp hnumeral).2
  rw [List.takeWhile_append_of_pos hdigits,
    List.dropWhile_append_of_pos hdigits]
  cases rest with
  | nil => simp
  | cons c rest => simp [hrest c rfl]

theorem Literal.readInt? {s : List Char} {n : Int} (hs : Literal s n)
    (hn : InRange n) : readInt? s = some n := by
  have hchecked : Number.checked n = some n := if_pos hn
  cases hs with
  | unsigned hnumeral =>
      have hminus (t : List Char) : s ≠ '-' :: t := by
        rintro rfl
        exact not_isNumeral_sign (.inr rfl) hnumeral
      have hplus (t : List Char) : s ≠ '+' :: t := by
        rintro rfl
        exact not_isNumeral_sign (.inl rfl) hnumeral
      have hread : readNat? s = some (value s) := by
        rw [readNat?, if_pos hnumeral]
        exact hplus
      rw [Decimal.readInt?, hread]
      · exact hchecked
      · exact hminus
  | positive hnumeral =>
      simpa [Decimal.readInt?, readNat?, hnumeral] using hchecked
  | negative hnumeral =>
      simpa [Decimal.readInt?, hnumeral] using hchecked

theorem padded_natCast (width n : Nat) : padded width n = zeroPadded width n :=
  if_neg (Int.not_lt.mpr (Int.natCast_nonneg n))

theorem literal_zeroPadded (width n : Nat) :
    Literal (zeroPadded width n) n := by
  have hliteral := Literal.unsigned (isNumeral_zeroPadded width n)
  rwa [Scaled.value_zeroPadded] at hliteral

theorem literal_plus_zeroPadded (width n : Nat) :
    Literal ('+' :: zeroPadded width n) n := by
  have hliteral := Literal.positive (isNumeral_zeroPadded width n)
  rwa [Scaled.value_zeroPadded] at hliteral

theorem literal_minus_zeroPadded (width n : Nat) :
    Literal ('-' :: zeroPadded width n) (-(n : Int)) := by
  have hliteral := Literal.negative (isNumeral_zeroPadded width n)
  rwa [Scaled.value_zeroPadded] at hliteral

theorem literal_padded (width : Nat) (n : Int) :
    Literal (padded width n) n := by
  unfold padded
  by_cases hn : n < 0
  · have hliteral := literal_minus_zeroPadded (width - 1) n.natAbs
    rw [show -(n.natAbs : Int) = n by omega] at hliteral
    rwa [if_pos hn]
  · have hliteral := literal_zeroPadded width n.natAbs
    rw [Int.natAbs_of_nonneg (Int.not_lt.mp hn)] at hliteral
    rwa [if_neg hn]

end Decimal

namespace Text

/-- Every character of the text is a digit or one of the marks. -/
def MadeOf (marks s : List Char) : Prop :=
  ∀ c ∈ s, c ∈ marks ∨ c.isDigit = true

variable {marks s t : List Char}

theorem MadeOf.append (hs : MadeOf marks s) (ht : MadeOf marks t) :
    MadeOf marks (s ++ t) :=
  fun c hc => (List.mem_append.mp hc).elim (hs c) (ht c)

theorem MadeOf.cons (hs : MadeOf marks s) {mark : Char} (hmark : mark ∈ marks) :
    MadeOf marks (mark :: s) := by
  intro c hc
  rcases List.mem_cons.mp hc with rfl | hc
  · exact .inl hmark
  · exact hs c hc

theorem MadeOf.mono (hs : MadeOf marks s) {more : List Char}
    (hmore : marks ⊆ more) : MadeOf more s :=
  fun c hc => (hs c hc).imp_left fun hmark => hmore hmark

theorem MadeOf.not_mem (hs : MadeOf marks s) {c : Char} (hmark : c ∉ marks)
    (hdigit : c.isDigit = false) : c ∉ s := by
  intro hc
  rcases hs c hc with hc | hc
  · exact hmark hc
  · rw [hdigit] at hc
    cases hc

theorem MadeOf.solid (hs : MadeOf marks s)
    (hmarks : marks.any isBlank = false) : Solid s := by
  have hblank (c : Char) (hc : c ∈ s) : isBlank c = false := by
    rcases hs c hc with hmark | hdigit
    · simpa using List.any_eq_false.mp hmarks c hmark
    · exact Decimal.isBlank_of_isDigit hdigit
  exact ⟨fun c hc => hblank c (List.mem_of_mem_head? hc),
    fun c hc => hblank c (List.mem_of_mem_getLast? hc)⟩

end Text

theorem Decimal.Literal.madeOf {s : List Char} {n : Int} (hs : Literal s n) :
    Text.MadeOf ['+', '-'] s := by
  intro c hc
  rcases hs.mem hc with rfl | rfl | hdigit
  · exact .inl (by simp)
  · exact .inl (by simp)
  · exact .inr hdigit

namespace Calendar

structure TwoDigits (s : List Char) (n : Nat) : Prop where
  numeral : isNumeral s
  length : s.length = 2
  value : value s = n

/-- A year has at least four digits, perhaps behind a sign. -/
structure YearText (s : List Char) (year : Int) : Prop where
  literal : Literal s year
  digits : 4 ≤ s.countP Char.isDigit

/-- The year of a date has a sign in front if it has more than four digits. -/
structure DateYear (s : List Char) (year : Int) : Prop
    extends YearText s year where
  signed : isNumeral s → s.length = 4

/-- Year, month and day with hyphens between them. -/
inductive DateText : List Char → Date → Prop where
  | fields {y m d : List Char} {date : Date} (hyear : DateYear y date.year)
    (hmonth : TwoDigits m date.month) (hday : TwoDigits d date.day) :
    DateText (y ++ '-' :: (m ++ '-' :: d)) date

/-- Hour, minute and second with colons between them are a number of seconds. -/
inductive ClockText : List Char → Nat → Prop where
  | fields {h m s : List Char} {hour minute second : Nat}
    (hhour : TwoDigits h hour) (hminute : TwoDigits m minute)
    (hsecond : TwoDigits s second) (hday : hour ≤ 23) (hhours : minute ≤ 59)
    (hminutes : second ≤ 59) :
    ClockText (h ++ ':' :: (m ++ ':' :: s)) (hour * 3600 + minute * 60 + second)

theorem TwoDigits.literal {s : List Char} {n : Nat} (hs : TwoDigits s n) :
    Literal s n :=
  hs.value ▸ .unsigned hs.numeral

theorem TwoDigits.lt {s : List Char} {n : Nat}
    (hs : TwoDigits s n) : n < 100 := by
  rw [← hs.value]
  have hlt := Decimal.value_lt (isNumeral_iff.mp hs.numeral).2
  rwa [hs.length] at hlt

theorem TwoDigits.readInt? {s : List Char} {n : Nat} (hs : TwoDigits s n) :
    Decimal.readInt? s = some (n : Int) := by
  have hlt := hs.lt
  refine hs.literal.readInt? ?_
  unfold InRange Number.least Number.greatest
  omega

theorem TwoDigits.madeOf {marks s : List Char} {n : Nat} (hs : TwoDigits s n) :
    Text.MadeOf marks s :=
  fun c hc => .inr ((isNumeral_iff.mp hs.numeral).2 c hc)

theorem DateText.madeOf {s : List Char} {date : Date} (hs : DateText s date) :
    Text.MadeOf ['+', '-'] s := by
  cases hs with
  | fields hyear hmonth hday =>
      exact hyear.literal.madeOf.append
        ((hmonth.madeOf.append (hday.madeOf.cons (by simp))).cons (by simp))

theorem ClockText.madeOf {s : List Char} {n : Nat} (hs : ClockText s n) :
    Text.MadeOf [':'] s := by
  cases hs with
  | fields hhour hminute hsecond =>
      exact hhour.madeOf.append
        ((hminute.madeOf.append (hsecond.madeOf.cons (by simp))).cons (by simp))

section Reading

theorem trimStart_numeral {s : List Char} (hnumeral : isNumeral s)
    (rest : List Char) : Text.trimStart (s ++ rest) = s ++ rest := by
  apply Text.trimStart_eq_self
  obtain ⟨hne, hdigits⟩ := isNumeral_iff.mp hnumeral
  obtain ⟨c, t, rfl⟩ := List.exists_cons_of_ne_nil hne
  rintro _ ⟨⟩
  exact Decimal.isBlank_of_isDigit (hdigits c List.mem_cons_self)

/-- A field takes the digits it has room for, whatever follows. -/
theorem readField_numeral {s : List Char} (hnumeral : isNumeral s)
    (rest : List Char) :
    readField s.length (s ++ rest) = some (value s, rest) := by
  obtain ⟨hne, hdigits⟩ := isNumeral_iff.mp hnumeral
  have htake : s.takeWhile Char.isDigit = s :=
    List.takeWhile_eq_self_iff.mpr hdigits
  simp [readField, trimStart_numeral hnumeral, htake, hne]

theorem TwoDigits.readField {s : List Char} {n : Nat} (hs : TwoDigits s n)
    (rest : List Char) : readField 2 (s ++ rest) = some (n, rest) := by
  rw [← hs.value, ← hs.length]
  exact readField_numeral hs.numeral rest

theorem readMark_cons (mark : Char) (rest : List Char) :
    readMark mark (mark :: rest) = some rest := if_pos rfl

theorem readYear_unsigned {s : List Char} (hnumeral : isNumeral s)
    (hlength : s.length = 4) (rest : List Char) :
    readYear (s ++ rest) = some ((value s : Int), rest) := by
  have hfield := readField_numeral hnumeral rest
  rw [hlength] at hfield
  obtain ⟨c, t, rfl⟩ := List.exists_cons_of_ne_nil (isNumeral_iff.mp hnumeral).1
  have hminus : c ≠ '-' := by
    rintro rfl
    exact Decimal.not_isNumeral_sign (.inr rfl) hnumeral
  have hplus : c ≠ '+' := by
    rintro rfl
    exact Decimal.not_isNumeral_sign (.inl rfl) hnumeral
  rw [readYear, trimStart_numeral hnumeral]
  split
  · rename_i hstart
    exact absurd (List.cons.inj hstart).1 hminus
  · rename_i hstart
    exact absurd (List.cons.inj hstart).1 hplus
  · rw [hfield]
    rfl

theorem readYear_plus {s : List Char} (hnumeral : isNumeral s)
    {rest : List Char} (hrest : ∀ c ∈ rest.head?, c.isDigit = false) :
    readYear ('+' :: s ++ rest) = some ((value s : Int), rest) := by
  obtain ⟨htake, hdrop⟩ := Decimal.takeWhile_isDigit hnumeral hrest
  have hstart : Text.trimStart ('+' :: s ++ rest) = '+' :: (s ++ rest) := rfl
  have hne : ¬ s.isEmpty := by simpa using (isNumeral_iff.mp hnumeral).1
  rw [readYear, hstart]
  simp only [htake, hdrop, if_neg hne]

theorem readYear_minus {s : List Char} (hnumeral : isNumeral s)
    {rest : List Char} (hrest : ∀ c ∈ rest.head?, c.isDigit = false) :
    readYear ('-' :: s ++ rest) = some (-(value s : Int), rest) := by
  obtain ⟨htake, hdrop⟩ := Decimal.takeWhile_isDigit hnumeral hrest
  have hstart : Text.trimStart ('-' :: s ++ rest) = '-' :: (s ++ rest) := rfl
  have hne : ¬ s.isEmpty := by simpa using (isNumeral_iff.mp hnumeral).1
  rw [readYear, hstart]
  simp only [htake, hdrop, if_neg hne]

theorem DateYear.readYear {s : List Char} {year : Int} (hs : DateYear s year)
    {rest : List Char} (hrest : ∀ c ∈ rest.head?, c.isDigit = false) :
    readYear (s ++ rest) = some (year, rest) := by
  have hsigned := hs.signed
  cases hs.literal with
  | unsigned hnumeral =>
      exact readYear_unsigned hnumeral (hsigned hnumeral) rest
  | positive hnumeral => exact readYear_plus hnumeral hrest
  | negative hnumeral => exact readYear_minus hnumeral hrest

variable {s : List Char} {date : Date} {n : Nat}

/-- A valid date is read back from its text, whatever follows. -/
theorem DateText.readDatePart (hs : DateText s date) (hdate : date.Valid)
    (rest : List Char) : readDatePart (s ++ rest) = some (date, rest) := by
  cases hs with
  | @fields y m d _ hyear hmonth hday =>
      have hhyphen {t : List Char} :
          ∀ c ∈ ('-' :: t).head?, c.isDigit = false := by
        rintro _ ⟨⟩
        rfl
      simp only [List.append_assoc, List.cons_append]
      rw [Calendar.readDatePart]
      simp only [hyear.readYear hhyphen, readMark_cons, hmonth.readField,
        hday.readField, Option.bind_eq_bind, Option.bind_some, if_pos hdate]
      rfl

theorem DateText.readDate (hs : DateText s date) (hdate : date.Valid) :
    readDate s = some date := by
  have hpart := hs.readDatePart hdate []
  rw [List.append_nil] at hpart
  rw [Calendar.readDate, hpart]

theorem ClockText.readClock (hs : ClockText s n) :
    readClock s = some (n : Int) := by
  cases hs with
  | @fields h m s hour minute second hhour hminute hsecond hday
    hhours hminutes =>
      have hlast := hsecond.readField []
      rw [List.append_nil] at hlast
      rw [Calendar.readClock]
      simp only [hhour.readField, hminute.readField, hlast, readMark_cons,
        Option.bind_eq_bind, Option.bind_some, List.isEmpty_nil]
      rw [if_pos ⟨trivial, hday, hhours, by omega⟩, Nat.min_eq_left hminutes]
      push_cast
      rfl

end Reading

section Writing

theorem twoDigits_zeroPadded {n : Nat} (hn : n < 100) :
    TwoDigits (zeroPadded 2 n) n :=
  ⟨Decimal.isNumeral_zeroPadded 2 n, Scaled.length_zeroPadded (by decide) hn,
    Scaled.value_zeroPadded 2 n⟩

theorem twoDigits_padded {n : Nat} (hn : n < 100) :
    TwoDigits (Decimal.padded 2 n) n := by
  rw [Decimal.padded_natCast]
  exact twoDigits_zeroPadded hn

theorem dateYear_writeYear (year : Int) :
    DateYear (Date.writeYear year) year := by
  have hdigits (n : Nat) : 4 ≤ (zeroPadded 4 n).countP Char.isDigit := by
    rw [Decimal.countP_isDigit (Decimal.isNumeral_zeroPadded 4 n)]
    exact Decimal.le_length_zeroPadded 4 n
  unfold Date.writeYear
  split_ifs with hfour hneg
  · have hliteral := Decimal.literal_zeroPadded 4 year.toNat
    rw [Int.toNat_of_nonneg hfour.1] at hliteral
    exact ⟨⟨hliteral, hdigits _⟩,
      fun _ => Scaled.length_zeroPadded (by decide) (by omega)⟩
  · have hliteral := Decimal.literal_minus_zeroPadded 4 year.natAbs
    rw [show -(year.natAbs : Int) = year by omega] at hliteral
    exact ⟨⟨hliteral, by simpa using hdigits _⟩,
      fun h => absurd h (Decimal.not_isNumeral_sign (.inr rfl))⟩
  · have hliteral := Decimal.literal_plus_zeroPadded 4 year.natAbs
    rw [show (year.natAbs : Int) = year by omega] at hliteral
    exact ⟨⟨hliteral, by simpa using hdigits _⟩,
      fun h => absurd h (Decimal.not_isNumeral_sign (.inl rfl))⟩

theorem dateText_write {date : Date} (hdate : date.Valid) :
    DateText date.write date := by
  have hday := hdate.day_le
  obtain ⟨-, -, -, hmonth, -, -⟩ := hdate
  have hwrite : date.write = Date.writeYear date.year ++
      '-' :: (zeroPadded 2 date.month ++ '-' :: zeroPadded 2 date.day) := by
    simp [Date.write]
  rw [hwrite]
  exact .fields (dateYear_writeYear _) (twoDigits_zeroPadded (by omega))
    (twoDigits_zeroPadded (by omega))

theorem clockText_writeClock {n : Nat} (hn : n < 86400) :
    ClockText (writeClock n) n := by
  have hsplit : n = n / 3600 * 3600 + n / 60 % 60 * 60 + n % 60 := by omega
  have hwrite : writeClock n = zeroPadded 2 (n / 3600) ++
      ':' :: (zeroPadded 2 (n / 60 % 60) ++ ':' :: zeroPadded 2 (n % 60)) := by
    simp [writeClock]
  rw [hwrite]
  conv => arg 2; rw [hsplit]
  exact .fields (twoDigits_zeroPadded (by omega))
    (twoDigits_zeroPadded (by omega))
    (twoDigits_zeroPadded (by omega)) (by omega) (by omega) (by omega)

end Writing

end Calendar

end Specimen
