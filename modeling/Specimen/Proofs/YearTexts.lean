/-
The form of the years that are drawn.  A year is written to a width of four, and
a sign counts for the width; so a year before the year zero has too few digits
if it has fewer than four of its own.
-/
import Specimen.Proofs.CalendarValues

namespace Specimen

open Number (InRange)
open Decimal (isNumeral zeroPadded padded Literal)

theorem Decimal.lt_length_zeroPadded_iff {width n : Nat} (hwidth : 0 < width) :
    width < (zeroPadded width n).length ↔ 10 ^ width ≤ n := by
  have hdigits : (Decimal.digits n).length ≤ width ↔ n < 10 ^ width :=
    Nat.length_toDigits_le_iff (by decide) hwidth
  simp only [zeroPadded, List.length_append, List.length_replicate]
  omega

namespace Calendar

/-- The form of a year: at least four digits, perhaps behind a hyphen. -/
inductive YearForm : List Char → Prop where
  | unsigned {s : List Char} (hnumeral : isNumeral s) (hdigits : 4 ≤ s.length) :
    YearForm s
  | negative {s : List Char} (hnumeral : isNumeral s) (hdigits : 4 ≤ s.length) :
    YearForm ('-' :: s)

/-- The form of the kinds that begin with a year. -/
inductive YearKindForm : Kind → List Char → Prop where
  | year {y : List Char} (hyear : YearForm y) : YearKindForm .gYear y
  | yearMonth {y m : List Char} {month : Nat} (hyear : YearForm y)
    (hmonth : TwoDigits m month) (hfirst : 1 ≤ month) (hlast : month ≤ 12) :
    YearKindForm .gYearMonth (y ++ '-' :: m)

/-- The year of the number that a kind lays its values out on. -/
def yearOf : Kind → Int → Int
  | .gYearMonth, n => n / 12
  | _, n => n

/-- A text behind a hyphen is a year exactly if it has four digits. -/
theorem yearForm_hyphen_iff {s : List Char} (hnumeral : isNumeral s) :
    YearForm ('-' :: s) ↔ 4 ≤ s.length := by
  refine ⟨fun hform => ?_, .negative hnumeral⟩
  cases hform with
  | unsigned hsigned =>
      exact absurd hsigned (Decimal.not_isNumeral_sign (.inr rfl))
  | negative _ hdigits => exact hdigits

/-- A year is written in its form unless it has fewer than four digits behind a
hyphen. -/
theorem yearForm_padded_iff {year : Int} :
    YearForm (padded 4 year) ↔ year ∉ Set.Ioo (-1000) 0 := by
  unfold padded
  by_cases hneg : year < 0
  · rw [if_pos hneg, yearForm_hyphen_iff (Decimal.isNumeral_zeroPadded 3 _),
      ← Nat.lt_iff_add_one_le, Decimal.lt_length_zeroPadded_iff (by decide)]
    simp only [Set.mem_Ioo]
    omega
  · rw [if_neg hneg]
    exact iff_of_true (.unsigned (Decimal.isNumeral_zeroPadded 4 _)
      (Decimal.le_length_zeroPadded 4 _)) fun h => hneg h.2

/-- The form of a year and a month is that of the year and that of the month. -/
theorem yearKindForm_yearMonth_iff {y m : List Char} {month : Nat}
    (hmonth : TwoDigits m month) (hfirst : 1 ≤ month) (hlast : month ≤ 12) :
    YearKindForm .gYearMonth (y ++ '-' :: m) ↔ YearForm y := by
  refine ⟨fun hform => ?_, fun hyear => .yearMonth hyear hmonth hfirst hlast⟩
  generalize htext : y ++ '-' :: m = text at hform
  cases hform with
  | @yearMonth y' m' month' hyear hmonth' =>
      have hhyphen {s : List Char} {n : Nat} (hs : TwoDigits s n) : '-' ∉ s :=
        (@TwoDigits.madeOf [] _ _ hs).not_mem (by simp) rfl
      have hcut := congrArg (Text.cutLast '-') htext
      rw [Text.cutLast_append (hhyphen hmonth),
        Text.cutLast_append (hhyphen hmonth')] at hcut
      cases hcut
      exact hyear

end Calendar

namespace Value.Layout

open Calendar

variable {kind : Kind} {layout : Layout} {facets : Facets} {n : Int}

theorem write_year_iff : (∃ text ∈ (year.write n).map String.ofList,
      YearKindForm .gYear text.toList) ↔ n ∉ Set.Ioo (-1000) 0 := by
  rw [← yearForm_padded_iff]
  constructor
  · rintro ⟨text, ⟨⟩, hform⟩
    rw [String.toList_ofList] at hform
    cases hform
    assumption
  · intro hform
    refine ⟨_, rfl, ?_⟩
    rw [String.toList_ofList]
    exact .year hform

theorem write_yearMonth_iff :
    (∃ text ∈ (yearMonth.write n).map String.ofList,
      YearKindForm .gYearMonth text.toList) ↔ n / 12 ∉ Set.Ioo (-1000) 0 := by
  obtain ⟨month, hmonth⟩ : ∃ month : Nat, n % 12 + 1 = month :=
    ⟨_, (Int.toNat_of_nonneg (by omega)).symm⟩
  have htwo := twoDigits_padded (show month < 100 by omega)
  rw [← yearForm_padded_iff,
    ← yearKindForm_yearMonth_iff htwo (by omega) (by omega), ← hmonth]
  constructor
  · rintro ⟨text, ⟨⟩, hform⟩
    rwa [String.toList_ofList] at hform
  · intro hform
    refine ⟨_, rfl, ?_⟩
    rwa [String.toList_ofList]

/-- Between bounds that are values of a kind that begins with a year, a text of
the form of the kind is always drawn exactly if no year from -999 to -1 is among
those that are drawn from. -/
theorem year_draws_iff (hkind : ofKind? kind = some layout)
    (hyears : kind = .gYear ∨ kind = .gYearMonth)
    (hbounds : ∀ side, ∀ limit ∈ facets.limit? side,
      ∃ v, Names kind limit.value v) :
    (∀ s, ∃ text ∈ (layout.draw facets s).1, YearKindForm kind text.toList) ↔
      ∀ n ∈ Set.uIcc (layout.range facets).1 (layout.range facets).2,
        yearOf kind n ∉ Set.Ioo (-1000) 0 := by
  have hwrite : ∃ domain, layout.Presents kind domain ∧
      ∀ n, (∃ text ∈ (layout.write n).map String.ofList,
        YearKindForm kind text.toList) ↔ yearOf kind n ∉ Set.Ioo (-1000) 0 := by
    rcases hyears with rfl | rfl
    · obtain rfl : year = layout := Option.some_inj.mp hkind
      exact ⟨_, presents_year, fun _ => write_year_iff⟩
    · obtain rfl : yearMonth = layout := Option.some_inj.mp hkind
      exact ⟨_, presents_yearMonth, fun _ => write_yearMonth_iff⟩
  obtain ⟨domain, hlayout, hwrite⟩ := hwrite
  have hdraws := @forall_draw_iff layout facets (hlayout.inRange_range hbounds)
    fun drawn => ∃ text ∈ drawn, YearKindForm kind text.toList
  rw [hdraws]
  exact forall₂_congr fun n _ => hwrite n

namespace YearWitness

/-- The years from one to another. -/
def between (least greatest : String) : Facets where
  minInclusive := some least
  maxInclusive := some greatest

theorem names_year {text : String} {year : Int} (hyear : InRange year)
    (hliteral : Literal text.toList year)
    (hdigits : 4 ≤ text.toList.countP Char.isDigit) :
    Names .gYear text ⟨year, 1, 1⟩ :=
  ⟨⟨hyear, rfl, rfl⟩, [], text.toList, [], by simp, Text.blank_nil,
    Text.blank_nil, .year ⟨hliteral, hdigits⟩⟩

theorem between_names {least greatest : String} {v w : Date}
    (hleast : Names .gYear least v) (hgreatest : Names .gYear greatest w) :
    ∀ side, ∀ limit ∈ (between least greatest).limit? side,
      ∃ v, Names .gYear limit.value v := by
  rintro (_ | _) limit ⟨⟩
  · exact ⟨v, hleast⟩
  · exact ⟨w, hgreatest⟩

/-- Years before the year -999 are written in their form. -/
theorem early_form :
    ofKind? .gYear = some year ∧
      (Kind.gYear = .gYear ∨ Kind.gYear = .gYearMonth) ∧
      (∀ side, ∀ limit ∈ (between "-1200" "-1000").limit? side,
        ∃ v, Names .gYear limit.value v) ∧
      ∀ s, ∃ text ∈ (year.draw (between "-1200" "-1000") s).1,
        YearKindForm .gYear text.toList := by
  have hbounds : ∀ side, ∀ limit ∈ (between "-1200" "-1000").limit? side,
      ∃ v, Names .gYear limit.value v :=
    between_names (names_year (by decide) (.negative rfl) (by decide))
      (names_year (by decide) (.negative rfl) (by decide))
  have hrange : year.range (between "-1200" "-1000") = (-1200, -1000) := by
    decide
  refine ⟨rfl, .inl rfl, hbounds,
    (year_draws_iff rfl (.inl rfl) hbounds).mpr ?_⟩
  rw [hrange]
  intro n hn
  simp only [yearOf, Set.mem_uIcc, Set.mem_Ioo] at hn ⊢
  omega

/-- The year -5 is a bound in its form, and drawn it is not. -/
theorem late_unformed :
    (∀ side, ∀ limit ∈ (between "-0005" "-0005").limit? side,
      ∃ v, Names .gYear limit.value v) ∧
      (year.draw (between "-0005" "-0005") (Session.ofSeed 1).stream).1 =
        some "-005" ∧ ¬ YearKindForm .gYear "-005".toList := by
  have hname : Names .gYear "-0005" ⟨-5, 1, 1⟩ :=
    names_year (by decide) (.negative rfl) (by decide)
  refine ⟨between_names hname hname, by decide +kernel, ?_⟩
  intro hform
  have hyear : YearForm ('-' :: ['0', '0', '5']) := by
    cases hform
    assumption
  exact absurd ((yearForm_hyphen_iff rfl).mp hyear) (by decide)

end YearWitness

end Value.Layout

end Specimen
