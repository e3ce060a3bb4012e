/-
Days and dates.  Dates come one behind the other by year, month and day, and the
numbers of their days in the same order without gaps, within a year as well as
across all years.  The date of a day is the only one with its number.
-/
import Mathlib.Data.Prod.Lex
import Specimen.Calendar.Date

namespace Specimen.Calendar

namespace Date

/-- Year, month and day in the order in which they count. -/
def key (d : Date) : Int ×ₗ Nat ×ₗ Nat := toLex (d.year, toLex (d.month, d.day))

theorem key_injective : Function.Injective key := by
  rintro ⟨year, month, day⟩ ⟨year', month', day'⟩ hkey
  simpa [key] using hkey

/-- Dates come one behind the other by year, month and day. -/
instance : LinearOrder Date := LinearOrder.lift' key key_injective

theorem lt_iff {d e : Date} : d < e ↔ d.year < e.year ∨ d.year = e.year ∧
    (d.month < e.month ∨ d.month = e.month ∧ d.day < e.day) := by
  change key d < key e ↔ _
  simp [key, Prod.Lex.lt_iff]

end Date

section Ordinals

open Number (total)

theorem total_take_succ (lengths : List Nat) (i : Nat) :
    total (lengths.take (i + 1)) =
      total (lengths.take i) + lengths.getD i 0 := by
  induction lengths generalizing i with
  | nil => simp [total]
  | cons length rest ih =>
      cases i with
      | zero => simp [total]
      | succ i =>
          have hrest := ih i
          simp only [List.take_succ_cons, total, List.getD_cons_succ] at hrest ⊢
          omega

theorem total_take_mono (lengths : List Nat) :
    Monotone fun i => total (lengths.take i) := by
  apply monotone_nat_of_le_succ
  intro i
  rw [total_take_succ]
  exact Nat.le_add_right _ _

namespace Date

/-- The place of a day of a month is told apart from those of other months. -/
theorem monthDay_total {lengths : List Nat} {i day : Nat} (hpos : 1 ≤ day)
    (hday : day ≤ lengths.getD i 0) (first : Nat) :
    monthDay lengths first (total (lengths.take i) + day) =
      some (first + i, day) := by
  induction lengths generalizing i first with
  | nil => simp at hday; omega
  | cons length rest ih =>
      cases i with
      | zero =>
          have hle : day ≤ length := by simpa using hday
          simp [monthDay, total, hle]
      | succ i =>
          have hrest := ih (by simpa using hday) (first + 1)
          have hbeyond : ¬ length + total (rest.take i) + day ≤ length := by
            omega
          have hleft : length + total (rest.take i) + day - length =
              total (rest.take i) + day := by omega
          simp only [List.take_succ_cons, total, monthDay,
            if_neg hbeyond, hleft, hrest]
          congr 2
          omega

/-- Every place up to the end of the last month is that of a day. -/
theorem exists_total {lengths : List Nat} {place : Nat} (hpos : 1 ≤ place)
    (hplace : place ≤ total lengths) :
    ∃ i < lengths.length, ∃ day, 1 ≤ day ∧ day ≤ lengths.getD i 0 ∧
      total (lengths.take i) + day = place := by
  induction lengths generalizing place with
  | nil => simp [total] at hplace; omega
  | cons length rest ih =>
      by_cases hle : place ≤ length
      · exact ⟨0, by simp, place, hpos, by simpa using hle, by simp [total]⟩
      · have hrest : place - length ≤ total rest := by
          simp only [total] at hplace
          omega
        obtain ⟨i, hi, day, hday, hlength, htotal⟩ := ih (by omega) hrest
        refine ⟨i + 1, by simpa using hi, day, hday, by simpa using hlength, ?_⟩
        simp only [List.take_succ_cons, total]
        omega

end Date

def yearLength (year : Int) : Nat := total (monthLengths year)

theorem isLeap_iff {year : Int} : isLeap year = true ↔
    year % 4 = 0 ∧ (year % 100 ≠ 0 ∨ year % 400 = 0) := by
  simp [isLeap]

theorem yearLength_eq (year : Int) :
    yearLength year = if isLeap year then 366 else 365 := by
  unfold yearLength monthLengths
  split <;> rfl

theorem monthLength_le (year : Int) (i : Nat) :
    (monthLengths year).getD i 0 ≤ 31 := by
  have hall : ∀ length ∈ monthLengths year, length ≤ 31 := by
    unfold monthLengths
    split <;> decide
  rw [List.getD_eq_getElem?_getD]
  cases hi : (monthLengths year)[i]? with
  | none => exact Nat.zero_le 31
  | some length => exact hall length (List.mem_of_getElem? hi)

end Ordinals

namespace Date

variable {d e : Date}

theorem Valid.day_le (hd : d.Valid) : d.day ≤ 31 :=
  Nat.le_trans hd.2.2.2.2.2 (monthLength_le d.year _)

/-- The place of a valid date lies within its year. -/
theorem Valid.ordinal_mem (hd : d.Valid) :
    1 ≤ d.ordinal ∧ d.ordinal ≤ yearLength d.year := by
  obtain ⟨-, -, hmonth, htwelve, hday, hlength⟩ := hd
  have hsucc := total_take_succ (monthLengths d.year) (d.month - 1)
  have hwhole : (monthLengths d.year).take 12 = monthLengths d.year := rfl
  have hmono := total_take_mono (monthLengths d.year)
    (show d.month - 1 + 1 ≤ 12 by omega)
  simp only [hwhole] at hmono
  unfold ordinal yearLength
  omega

/-- Within a year the places have the order of the dates. -/
theorem Valid.ordinal_lt (hd : d.Valid) (he : e.Valid) (hyear : d.year = e.year)
    (hlt : d < e) : d.ordinal < e.ordinal := by
  obtain ⟨-, -, hmonth, -, -, hlength⟩ := hd
  obtain ⟨-, -, -, -, hpos, -⟩ := he
  unfold ordinal
  rcases lt_iff.mp hlt with hless | ⟨-, hless | ⟨hmonths, hless⟩⟩
  · omega
  · have hsucc := total_take_succ (monthLengths d.year) (d.month - 1)
    have hmono := total_take_mono (monthLengths d.year)
      (show d.month - 1 + 1 ≤ e.month - 1 by omega)
    simp only [← hyear] at hmono ⊢
    omega
  · rw [hyear, hmonths]
    omega

theorem Valid.ofOrdinal? (hd : d.Valid) :
    ofOrdinal? d.year d.ordinal = some d := by
  have hpos := hd.ordinal_mem.1
  obtain ⟨-, -, hmonth, -, hday, hlength⟩ := hd
  rw [Date.ofOrdinal?, if_neg (by omega), ordinal, monthDay_total hday hlength,
    Nat.add_sub_cancel' hmonth]
  rfl

/-- Every place of a year that dates cover is that of a date. -/
theorem exists_ordinal {year : Int} {place : Nat} (hfirst : firstYear ≤ year)
    (hlast : year ≤ lastYear) (hpos : 1 ≤ place)
    (hplace : place ≤ yearLength year) :
    ∃ d : Date, d.Valid ∧ d.year = year ∧ d.ordinal = place := by
  obtain ⟨i, hi, day, hday, hlength, htotal⟩ := exists_total hpos hplace
  have htwelve : i < 12 := hi
  exact ⟨⟨year, i + 1, day⟩, ⟨hfirst, hlast, by simp, htwelve, hday, hlength⟩,
    rfl, htotal⟩

end Date

section Years

open Date (daysBefore yearOfDay)

theorem daysBefore_eq (year : Int) : daysBefore year =
    365 * (year - 1) + (year - 1) / 4 - (year - 1) / 100 + (year - 1) / 400 :=
      rfl

theorem daysBefore_succ (year : Int) :
    daysBefore (year + 1) = daysBefore year + yearLength year := by
  have hleap := @isLeap_iff year
  rw [yearLength_eq, daysBefore_eq, daysBefore_eq]
  split_ifs with h
  · rw [hleap] at h
    omega
  · rw [hleap] at h
    omega

theorem daysBefore_lt_iff {year later : Int} :
    daysBefore year < daysBefore later ↔ year < later := by
  have hmono : StrictMono daysBefore := by
    apply strictMono_int_of_lt_succ
    intro year
    rw [daysBefore_succ, yearLength_eq]
    split_ifs <;> omega
  exact hmono.lt_iff_lt

theorem daysBefore_le {year later : Int} (hle : year ≤ later) :
    daysBefore year ≤ daysBefore later :=
  Int.not_lt.mp fun hlt => Int.not_lt.mpr hle (daysBefore_lt_iff.mp hlt)

/-- The days before a year that is given by its place in the cycles of 400, 100
and 4 years. -/
theorem daysBefore_of_cycles {era century cycle year : Int}
    (hcentury : 0 ≤ century ∧ century ≤ 3) (hcycle : 0 ≤ cycle ∧ cycle ≤ 24)
    (hyear : 0 ≤ year ∧ year ≤ 3) :
    daysBefore (400 * era + 100 * century + 4 * cycle + year + 1) =
      146097 * era + 36524 * century + 1461 * cycle + 365 * year := by
  rw [daysBefore_eq]
  omega

/-- The day lies in the year that is found for it.  Only the last year of a
cycle has a day behind its 365th, and the last cycle of a century only at the
end of an era. -/
theorem yearOfDay_spec (number : Int) :
    daysBefore (yearOfDay number) < number ∧
      number ≤ daysBefore (yearOfDay number + 1) := by
  obtain ⟨era, inEra, hera, hinEra⟩ : ∃ era inEra, era = (number - 1) / 146097 ∧
      inEra = (number - 1) % 146097 := ⟨_, _, rfl, rfl⟩
  obtain ⟨century, hcentury⟩ : ∃ century, century = min 3 (inEra / 36524) :=
    ⟨_, rfl⟩
  obtain ⟨cycle, hcycle⟩ : ∃ cycle, cycle = (inEra - 36524 * century) / 1461 :=
    ⟨_, rfl⟩
  obtain ⟨year, hyear⟩ : ∃ year, year =
      min 3 ((inEra - 36524 * century - 1461 * cycle) / 365) := ⟨_, rfl⟩
  have hfound : yearOfDay number =
      400 * era + 100 * century + 4 * cycle + year + 1 := by
    rw [hyear, hcycle, hcentury, hinEra, hera]
    rfl
  have hleap := @isLeap_iff (yearOfDay number)
  rw [daysBefore_succ, yearLength_eq]
  rw [hfound] at hleap ⊢
  rw [daysBefore_of_cycles (by omega) (by omega) (by omega)]
  split_ifs with h
  · omega
  · refine ⟨by omega, ?_⟩
    by_contra hbeyond
    have hyears : year = 3 := by omega
    have hcycles : 0 ≤ cycle ∧ cycle < 24 ∨ cycle = 24 ∧ century = 3 := by omega
    clear hcycle hcentury hera hinEra hbeyond
    rw [hleap] at h
    omega

theorem yearOfDay_eq_iff {number year : Int} : yearOfDay number = year ↔
    daysBefore year < number ∧ number ≤ daysBefore (year + 1) := by
  obtain ⟨hfrom, hupTo⟩ := yearOfDay_spec number
  constructor
  · rintro rfl
    exact ⟨hfrom, hupTo⟩
  · rintro ⟨hyear, hnext⟩
    have hless := daysBefore_lt_iff.mp
      (Int.lt_of_lt_of_le hfrom hnext)
    have hgreater := daysBefore_lt_iff.mp
      (Int.lt_of_lt_of_le hyear hupTo)
    omega

end Years

namespace Date

variable {d e : Date}

theorem Valid.yearOfDay (hd : d.Valid) : yearOfDay d.dayNumber = d.year := by
  obtain ⟨hpos, hlength⟩ := hd.ordinal_mem
  rw [yearOfDay_eq_iff, daysBefore_succ, dayNumber]
  omega

/-- The days have the order of the dates. -/
theorem Valid.dayNumber_lt (hd : d.Valid) (he : e.Valid) (hlt : d < e) :
    d.dayNumber < e.dayNumber := by
  by_cases hyear : d.year = e.year
  · have hordinal := hd.ordinal_lt he hyear hlt
    rw [dayNumber, dayNumber, hyear]
    omega
  · have hless : d.year < e.year := by
      rcases lt_iff.mp hlt with hless | ⟨hsame, -⟩
      · exact hless
      · exact absurd hsame hyear
    have hmono := daysBefore_le
      (show d.year + 1 ≤ e.year from hless)
    rw [daysBefore_succ] at hmono
    have hd := hd.ordinal_mem
    have he := he.ordinal_mem
    unfold dayNumber
    omega

/-- The date of a day is the one that has its number. -/
theorem Valid.ofDayNumber? (hd : d.Valid) :
    ofDayNumber? d.dayNumber = some d := by
  have hplace : (d.dayNumber - daysBefore d.year).toNat = d.ordinal := by
    unfold dayNumber
    omega
  rw [Date.ofDayNumber?]
  simp only [hd.yearOfDay, if_pos (And.intro hd.1 hd.2.1), hplace]
  exact hd.ofOrdinal?

/-- The days of valid dates are those of the years that dates cover. -/
theorem Valid.daysBefore_lt (hd : d.Valid) :
    daysBefore firstYear < d.dayNumber := by
  have hmono := daysBefore_le hd.1
  have hordinal := hd.ordinal_mem
  unfold dayNumber
  omega

theorem Valid.dayNumber_le (hd : d.Valid) :
    d.dayNumber ≤ daysBefore (lastYear + 1) := by
  have hmono := daysBefore_le
    (show d.year + 1 ≤ lastYear + 1 from Int.add_le_add_right hd.2.1 1)
  have hordinal := hd.ordinal_mem
  rw [daysBefore_succ] at hmono
  unfold dayNumber
  omega

/-- Every day of the years that dates cover is that of a date. -/
theorem exists_dayNumber {number : Int} (hfirst : daysBefore firstYear < number)
    (hlast : number ≤ daysBefore (lastYear + 1)) :
    ∃ d : Date, d.Valid ∧ d.dayNumber = number := by
  obtain ⟨hfrom, hupTo⟩ := yearOfDay_spec number
  have hless := daysBefore_lt_iff.mp
    (Int.lt_of_lt_of_le hfirst hupTo)
  have hgreater := daysBefore_lt_iff.mp
    (Int.lt_of_lt_of_le hfrom hlast)
  rw [daysBefore_succ] at hupTo
  obtain ⟨d, hd, hyear, hordinal⟩ := @exists_ordinal (Date.yearOfDay number)
    (number - daysBefore (Date.yearOfDay number)).toNat (by omega) (by omega)
    (by omega) (by omega)
  refine ⟨d, hd, ?_⟩
  rw [dayNumber, hyear, hordinal]
  omega

/-- A day has no other date than a valid one with its number. -/
theorem ofDayNumber?_eq_some {number : Int}
    (hd : ofDayNumber? number = some d) :
    d.Valid ∧ d.dayNumber = number := by
  obtain ⟨hfrom, hupTo⟩ := yearOfDay_spec number
  have hyears : firstYear ≤ yearOfDay number ∧ yearOfDay number ≤ lastYear := by
    by_contra hout
    rw [ofDayNumber?, if_neg hout] at hd
    cases hd
  have hfirst := daysBefore_le hyears.1
  have hlast := daysBefore_le (Int.add_le_add_right hyears.2 1)
  obtain ⟨e, he, rfl⟩ := exists_dayNumber (Int.lt_of_le_of_lt hfirst hfrom)
    (Int.le_trans hupTo hlast)
  obtain rfl : e = d := Option.some_inj.mp (he.ofDayNumber?.symm.trans hd)
  exact ⟨he, rfl⟩

end Date

end Specimen.Calendar
